import RdfQuery.Decimal.Numeral

/-!
# Numeric host addresses

The texts that stand for a 128-bit host address: eight groups of one to four
hexadecimal digits, where `::` stands for at least one group of zeroes and
the last two groups may be four decimal octets.
-/

set_option autoImplicit false

namespace RdfQuery.Iri.Address

def isHexDigit (c : Char) : Bool :=
  c.isDigit || ('a' ≤ c && c ≤ 'f') || ('A' ≤ c && c ≤ 'F')

def hexGroup (cs : List Char) : Option (List Char) :=
  let digits := cs.takeWhile isHexDigit
  if 1 ≤ digits.length ∧ digits.length ≤ 4 then some (cs.dropWhile isHexDigit) else none

/-- An octet is at most 255 and has no leading zero. -/
def octet (cs : List Char) : Option (List Char) :=
  let digits := cs.takeWhile Char.isDigit
  if digits.length < 1 ∨ 3 < digits.length then none
  else if digits.head? = some '0' ∧ digits.length ≠ 1 then none
  else if Decimal.digitsValue digits ≤ 255 then some (cs.dropWhile Char.isDigit) else none

def after (c : Char) : List Char → Option (List Char)
  | d :: rest => if d = c then some rest else none
  | [] => none

def dotted (cs : List Char) : Option (List Char) := do
  let second ← after '.' (← octet cs)
  let third ← after '.' (← octet second)
  let fourth ← after '.' (← octet third)
  octet fourth

structure Groups where
  count : Nat
  endsDotted : Bool
  rest : List Char

/-- Reads at most `room` groups; all but the first follow a colon. -/
def groups : (room : Nat) → (first : Bool) → List Char → Groups
  | 0, _, cs => ⟨0, false, cs⟩
  | room + 1, first, cs =>
    let opened := if first then some cs else after ':' cs
    match if 1 ≤ room then opened.bind dotted else none with
    | some rest => ⟨2, true, rest⟩
    | none =>
      match opened.bind hexGroup with
      | none => ⟨0, false, cs⟩
      | some rest =>
        let more := groups room false rest
        ⟨more.count + 1, more.endsDotted, more.rest⟩

def accepts (cs : List Char) : Bool :=
  let front := groups 8 true cs
  if front.count = 8 then front.rest.isEmpty
  else if front.endsDotted then false
  else match front.rest with
    | ':' :: ':' :: rest => (groups (7 - front.count) true rest).rest.isEmpty
    | _ => false

end RdfQuery.Iri.Address
