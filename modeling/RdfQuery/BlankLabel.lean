/-!
# Labels of blank nodes

A label starts with a letter, digit, underscore or colon, may hold dots,
hyphens and combining marks further on, and does not end in a dot. Some labels
are the text of a number.
-/

set_option autoImplicit false

namespace RdfQuery

namespace BlankLabel

def starts (c : Char) : Bool :=
  c.isAlphanum || c = '_' || c = ':' ||
    [(0xC0, 0xD6), (0xD8, 0xF6), (0xF8, 0x2FF), (0x370, 0x37D), (0x37F, 0x1FFF), (0x200C, 0x200D),
      (0x2070, 0x218F), (0x2C00, 0x2FEF), (0x3001, 0xD7FF), (0xF900, 0xFDCF), (0xFDF0, 0xFFFD),
      (0x10000, 0xEFFFF)].any fun range => range.1 ≤ c.toNat && c.toNat ≤ range.2

def continues (c : Char) : Bool :=
  starts c || c = '.' || c = '-' || c.toNat = 0xB7 || (0x300 ≤ c.toNat && c.toNat ≤ 0x36F)
    || (0x203F ≤ c.toNat && c.toNat ≤ 0x2040)

def accepts : List Char → Bool
  | [] => false
  | c :: rest => starts c && rest.all continues && (c :: rest).getLast? != some '.'

end BlankLabel

structure BlankLabel where
  text : String
  valid : BlankLabel.accepts text.toList = true
  deriving DecidableEq

namespace BlankLabel

def ofString? (text : String) : Option BlankLabel :=
  if h : accepts text.toList = true then some ⟨text, h⟩ else none

/-! ## Labels that are numbers -/

def hexValue (c : Char) : Nat := "0123456789abcdef".toList.idxOf c

def hexNumber (cs : List Char) : Nat := cs.foldl (fun n c => 16 * n + hexValue c) 0

/-- The number whose hexadecimal digits the label is: small letters, no zero before them, and the
number below 2 ^ 128. -/
def number? (l : BlankLabel) : Option Nat :=
  let n := hexNumber l.text.toList
  if 0 < n ∧ n < Nat.pow 2 128 ∧ Nat.toDigits 16 n = l.text.toList then some n else none

theorem hexValue_digitChar : ∀ n < 16, hexValue n.digitChar = n := by decide

theorem hexNumber_toDigits (n : Nat) : hexNumber (Nat.toDigits 16 n) = n := by
  induction n using Nat.strongRecOn with
  | ind n ih =>
    rw [Nat.toDigits_eq_if (by decide)]
    split
    · rename_i h
      simp [hexNumber, hexValue_digitChar n h]
    · have hlow := hexValue_digitChar (n % 16) (Nat.mod_lt n (by decide))
      have hhigh := ih (n / 16) (by omega)
      rw [hexNumber] at hhigh ⊢
      rw [List.foldl_append, hhigh, List.foldl_cons, List.foldl_nil, hlow, Nat.div_add_mod]

theorem number?_eq_some_iff {l : BlankLabel} {n : Nat} :
    l.number? = some n ↔ 0 < n ∧ n < Nat.pow 2 128 ∧ Nat.toDigits 16 n = l.text.toList := by
  rw [number?]
  constructor
  · intro h
    split at h
    · rename_i hn
      cases h
      exact hn
    · cases h
  · intro h
    have hn : hexNumber l.text.toList = n := by rw [← h.2.2, hexNumber_toDigits]
    rw [hn]
    exact if_pos h

example : (⟨"1a", rfl⟩ : BlankLabel).number? = some 26 ∧
    (⟨"01a", rfl⟩ : BlankLabel).number? = none := by decide

end BlankLabel

end RdfQuery
