import RdfQuery.Proofs.Constant.Characters

/-!
# Reading constants

A reader gives back what it has read and the characters it leaves. Here the
constants written in N-Triples form are read again. What may follow a constant
is a blank, a comma, a closing parenthesis, a final dot or nothing.
-/

set_option autoImplicit false

namespace RdfQuery

namespace Text

/-- What can follow a constant or an expression. The dot is the last character of its line. -/
def Delimited : List Char → Prop
  | [] => True
  | c :: rest => c = ' ' ∨ c = ',' ∨ c = ')' ∨ c = '.' ∧ rest = []

theorem takeWhile_of_delimited {p : Char → Bool} (hblank : p ' ' = false) (hcomma : p ',' = false)
    (hclose : p ')' = false) (hdot : p '.' = false) {rest : List Char} (h : Delimited rest) :
    rest.takeWhile p = [] := by
  cases rest with
  | nil => rfl
  | cons c rest =>
    rcases h with rfl | rfl | rfl | ⟨rfl, -⟩ <;> simp [*]

/-- A reader that takes the longest run of a class stops where the class ends. -/
theorem span_append {p : Char → Bool} {cs rest : List Char} (hcs : ∀ c ∈ cs, p c = true)
    (hrest : rest.takeWhile p = []) :
    (cs ++ rest).takeWhile p = cs ∧ (cs ++ rest).dropWhile p = rest := by
  have hdrop : rest.dropWhile p = rest := by
    have := List.takeWhile_append_dropWhile (p := p) (l := rest)
    rwa [hrest, List.nil_append] at this
  constructor
  · rw [List.takeWhile_append_of_pos hcs, hrest, List.append_nil]
  · rw [List.dropWhile_append_of_pos hcs, hdrop]

/-! ## Quoted text -/

def hexValue (c : Char) : Nat := if c.isDigit then c.toNat - '0'.toNat else c.toNat - 'A'.toNat + 10

def lettered? : Char → Option Char
  | '"' => some '"'
  | '\\' => some '\\'
  | 'n' => some '\n'
  | 'r' => some '\r'
  | 't' => some '\t'
  | 'b' => some '\x08'
  | 'f' => some '\x0c'
  | _ => none

/-- Reads on to the closing quote. -/
def readQuoted : List Char → Option (List Char × List Char)
  | [] => none
  | '"' :: rest => some ([], rest)
  | '\\' :: 'u' :: '0' :: '0' :: high :: low :: rest =>
    (readQuoted rest).map fun r => (Char.ofNat (16 * hexValue high + hexValue low) :: r.1, r.2)
  | '\\' :: letter :: rest =>
    (lettered? letter).bind fun c => (readQuoted rest).map fun r => (c :: r.1, r.2)
  | c :: rest => (readQuoted rest).map fun r => (c :: r.1, r.2)

theorem hexValue_hexDigit : ∀ n < 16, hexValue (hexDigit 'A'.toNat n) = n := by decide

/-- A character is written as it is, after a backslash by a letter, or by its code. -/
inductive Escaped (c : Char) : List Char → Prop where
  | lettered (letter : Char) (hletter : lettered? letter = some c) : Escaped c ['\\', letter]
  | code (hcode : c.toNat < 128) :
    Escaped c ['\\', 'u', '0', '0', hexDigit 'A'.toNat (c.toNat / 16),
      hexDigit 'A'.toNat (c.toNat % 16)]
  | itself (hquote : c ≠ '"') (hslash : c ≠ '\\') (hfeed : c ≠ '\n') (hreturn : c ≠ '\r') :
    Escaped c [c]

theorem escaped_escape (c : Char) : Escaped c (NTriples.quoting.escape c) := by
  unfold Quoting.escape
  split
  · rename_i h; subst h; exact .lettered _ rfl
  split
  · rename_i h; subst h; exact .lettered _ rfl
  split
  · rename_i h; subst h; exact .lettered _ rfl
  split
  · rename_i h; subst h; exact .lettered _ rfl
  split
  · rename_i h; subst h; exact .lettered _ rfl
  split
  · rename_i h
    have hc : c = '\x08' := Char.toNat_inj.1 h
    subst hc
    exact .lettered _ rfl
  split
  · rename_i h
    have hc : c = '\x0c' := Char.toNat_inj.1 h
    subst hc
    exact .lettered _ rfl
  split
  · rename_i h
    refine .code ?_
    simp only [NTriples.quoting, Bool.or_eq_true, decide_eq_true_eq] at h
    omega
  · rename_i hquote hslash hfeed hreturn _ _ _ _
    exact .itself hquote hslash hfeed hreturn

/-- No letter of an escape is the one that begins a code. -/
theorem ne_of_lettered {letter c : Char} (h : lettered? letter = some c) : letter ≠ 'u' := by
  rintro rfl
  cases h

theorem readQuoted_escape (c : Char) (rest : List Char) :
    readQuoted (NTriples.quoting.escape c ++ rest) =
      (readQuoted rest).map fun r => (c :: r.1, r.2) := by
  have hescaped := escaped_escape c
  generalize NTriples.quoting.escape c = written at hescaped ⊢
  cases hescaped with
  | lettered letter hletter =>
    simp only [List.cons_append, List.nil_append]
    rw [readQuoted, hletter, Option.bind_some]
    intro high low rest' hletter'
    exact absurd hletter' (ne_of_lettered hletter)
  | code hcode =>
    have hvalue : 16 * (c.toNat / 16) + c.toNat % 16 = c.toNat := by omega
    simp only [List.cons_append, List.nil_append, readQuoted]
    rw [hexValue_hexDigit _ (by omega), hexValue_hexDigit _ (by omega), hvalue, Char.ofNat_toNat]
  | itself hquote hslash _ _ =>
    simp only [List.cons_append, List.nil_append]
    rw [readQuoted]
    all_goals simp_all

theorem readQuoted_append (value : List Char) (rest : List Char) :
    readQuoted (value.flatMap NTriples.quoting.escape ++ '"' :: rest) = some (value, rest) := by
  induction value with
  | nil => rfl
  | cons c value ih =>
    rw [List.flatMap_cons, List.append_assoc, readQuoted_escape, ih]
    rfl

theorem quoted_toList (value : String) :
    (NTriples.quoted value).toList =
      '"' :: (value.toList.flatMap NTriples.quoting.escape ++ ['"']) := by
  simp [NTriples.quoted, Quoting.quoted]

end Text

/-- Literals begin with a quote. -/
theorem NTriples.literal_head (l : Literal) : ∃ tail, (literal l).toList = '"' :: tail := by
  cases l with
  | simple value => exact ⟨_, Text.quoted_toList value⟩
  | tagged value tag =>
    exact ⟨_, by rw [literal, String.append_assoc, String.toList_append, Text.quoted_toList,
      List.cons_append]⟩
  | typed value datatype proper =>
    exact ⟨_, by rw [literal, String.append_assoc, String.toList_append, Text.quoted_toList,
      List.cons_append]⟩

/-! ## IRIs, labels and tags -/

namespace Iri

def ofChars? (cs : List Char) : Option Iri := (ofString (String.ofList cs)).toOption

/-- Reads on to the closing angle bracket. -/
def read? (cs : List Char) : Option (Iri × List Char) :=
  match cs.dropWhile (· ≠ '>') with
  | [] => none
  | _ :: rest => (ofChars? (cs.takeWhile (· ≠ '>'))).map fun i => (i, rest)

theorem ofChars?_text (i : Iri) : ofChars? i.text.toList = some i := by
  simp [ofChars?, String.ofList_toList, ofString_text, Except.toOption]

theorem ne_of_mem_text (i : Iri) {c d : Char} (hd : Grammar.inIri d = false)
    (hc : c ∈ i.text.toList) : c ≠ d := by
  rintro rfl
  rw [inIri_text i c hc] at hd
  cases hd

theorem read?_text (i : Iri) (rest : List Char) :
    read? (i.text.toList ++ '>' :: rest) = some (i, rest) := by
  have htext : ∀ c ∈ i.text.toList, decide (c ≠ '>') = true := by
    intro c hc
    simpa using ne_of_mem_text i (by decide) hc
  obtain ⟨htake, hdrop⟩ := Text.span_append htext
    (show ('>' :: rest).takeWhile (fun c => decide (c ≠ '>')) = [] by simp)
  simp only [read?, hdrop, htake, ofChars?_text, Option.map_some]

end Iri

namespace BlankLabel

/-- The longest run of characters of labels, without the dots it ends in. -/
def labelOf (cs : List Char) : List Char :=
  ((cs.takeWhile continues).reverse.dropWhile (· = '.')).reverse

def read? (cs : List Char) : Option (BlankLabel × List Char) :=
  (ofString? (String.ofList (labelOf cs))).map fun label => (label, cs.drop (labelOf cs).length)

theorem continues_of_starts {c : Char} (h : starts c = true) : continues c = true := by
  simp [continues, h]

theorem continues_text (b : BlankLabel) : ∀ c ∈ b.text.toList, continues c = true := by
  have h := b.valid
  cases htext : b.text.toList with
  | nil => exact fun _ hc => nomatch hc
  | cons c rest =>
    rw [htext] at h
    simp only [accepts, Bool.and_eq_true, List.all_eq_true] at h
    intro d hd
    rcases List.mem_cons.1 hd with rfl | hd
    · exact continues_of_starts h.1.1
    · exact h.1.2 d hd

theorem getLast?_text (b : BlankLabel) : b.text.toList.getLast? ≠ some '.' := by
  have h := b.valid
  cases htext : b.text.toList with
  | nil => simp
  | cons c rest =>
    rw [htext] at h
    simp only [accepts, Bool.and_eq_true, bne_iff_ne] at h
    exact h.2

theorem dropWhile_eq_self {p : Char → Bool} {cs : List Char}
    (h : ∀ c, cs.head? = some c → p c = false) : cs.dropWhile p = cs := by
  cases cs with
  | nil => rfl
  | cons c cs => rw [List.dropWhile_cons_of_neg (by simp [h c rfl])]

theorem labelOf_text (b : BlankLabel) {rest : List Char} (h : Text.Delimited rest) :
    labelOf (b.text.toList ++ rest) = b.text.toList := by
  have hdots : rest.takeWhile continues = [] ∨ rest.takeWhile continues = ['.'] := by
    cases rest with
    | nil => exact Or.inl rfl
    | cons c rest =>
      rcases h with rfl | rfl | rfl | ⟨rfl, rfl⟩
      · exact Or.inl rfl
      · exact Or.inl rfl
      · exact Or.inl rfl
      · exact Or.inr rfl
  have hlast : b.text.toList.reverse.dropWhile (· = '.') = b.text.toList.reverse := by
    apply dropWhile_eq_self
    intro c hc
    rw [List.head?_reverse] at hc
    have := getLast?_text b
    rw [hc] at this
    simpa using this
  unfold labelOf
  rw [List.takeWhile_append_of_pos (continues_text b)]
  rcases hdots with hdots | hdots
  · rw [hdots, List.append_nil, hlast, List.reverse_reverse]
  · rw [hdots, List.reverse_append, List.reverse_singleton, List.singleton_append,
      List.dropWhile_cons_of_pos (by decide), hlast, List.reverse_reverse]

theorem ofString?_text (b : BlankLabel) : ofString? b.text = some b := by
  simp [ofString?, b.valid]

theorem read?_text (b : BlankLabel) {rest : List Char} (h : Text.Delimited rest) :
    read? (b.text.toList ++ rest) = some (b, rest) := by
  simp only [read?, labelOf_text b h, String.ofList_toList, ofString?_text, Option.map_some,
    List.drop_left]

end BlankLabel

namespace LanguageTag

def ofChars? (cs : List Char) : Option LanguageTag :=
  if h : fault? (String.ofList cs) = none then some ⟨String.ofList cs, h⟩ else none

def read? (cs : List Char) : Option (LanguageTag × List Char) :=
  (ofChars? (cs.takeWhile inTag)).map fun t => (t, cs.dropWhile inTag)

theorem ofChars?_text (t : LanguageTag) : ofChars? t.text.toList = some t := by
  simp [ofChars?, String.ofList_toList, t.valid]

theorem read?_text (t : LanguageTag) {rest : List Char} (h : Text.Delimited rest) :
    read? (t.text.toList ++ rest) = some (t, rest) := by
  obtain ⟨htake, hdrop⟩ := Text.span_append (inTag_text t)
    (Text.takeWhile_of_delimited (by decide) (by decide) (by decide) (by decide) h)
  simp only [read?, htake, hdrop, ofChars?_text, Option.map_some]

end LanguageTag

/-! ## Constants -/

namespace Literal

def ofTyped? (value : String) (datatype : Iri) : Option Literal :=
  if h : datatype ≠ Iri.xsdString then some (.typed value datatype h) else none

/-- Reads what may follow the quotes. -/
def readSuffix (value : String) : List Char → Option (Literal × List Char)
  | '@' :: cs => (LanguageTag.read? cs).map fun r => (.tagged value r.1, r.2)
  | '^' :: '^' :: '<' :: cs =>
    (Iri.read? cs).bind fun r => (ofTyped? value r.1).map fun l => (l, r.2)
  | cs => some (.simple value, cs)

def read? (cs : List Char) : Option (Literal × List Char) :=
  (Text.readQuoted cs).bind fun r => readSuffix (String.ofList r.1) r.2

theorem readSuffix_of_delimited (value : String) {rest : List Char} (h : Text.Delimited rest) :
    readSuffix value rest = some (.simple value, rest) := by
  cases rest with
  | nil => rfl
  | cons c rest => rcases h with rfl | rfl | rfl | ⟨rfl, -⟩ <;> rfl

end Literal

namespace Constant

def read? : List Char → Option (Constant × List Char)
  | '<' :: cs => (Iri.read? cs).map fun r => (.iri r.1, r.2)
  | '_' :: ':' :: cs => (BlankLabel.read? cs).map fun r => (.blank r.1, r.2)
  | '"' :: cs => (Literal.read? cs).map fun r => (.literal r.1, r.2)
  | _ => none

theorem read?_literal (l : Literal) {rest : List Char} (h : Text.Delimited rest) :
    read? ((NTriples.literal l).toList ++ rest) = some (.literal l, rest) := by
  cases l with
  | simple value =>
    simp only [NTriples.literal, Text.quoted_toList, List.cons_append, List.append_assoc,
      List.nil_append, read?, Literal.read?, Text.readQuoted_append, Option.bind_some,
      String.ofList_toList, Literal.readSuffix_of_delimited value h, Option.map_some]
  | tagged value tag =>
    have hat : "@".toList = ['@'] := rfl
    simp only [NTriples.literal, String.toList_append, Text.quoted_toList, hat, List.cons_append,
      List.append_assoc, List.nil_append, read?, Literal.read?, Text.readQuoted_append,
      Option.bind_some, String.ofList_toList, Literal.readSuffix, LanguageTag.read?_text tag h,
      Option.map_some]
  | typed value datatype proper =>
    have hcarets : "^^".toList = ['^', '^'] := rfl
    have hopen : "<".toList = ['<'] := rfl
    have hclose : ">".toList = ['>'] := rfl
    simp only [NTriples.literal, NTriples.iri, String.toList_append, Text.quoted_toList, hcarets,
      hopen, hclose, List.cons_append, List.append_assoc, List.nil_append, read?, Literal.read?,
      Text.readQuoted_append, Option.bind_some, String.ofList_toList, Literal.readSuffix,
      Iri.read?_text, Literal.ofTyped?, dif_pos proper, Option.map_some]

/-- A constant in N-Triples form can be read again, whatever follows it. -/
theorem read?_constant (c : Constant) {rest : List Char} (h : Text.Delimited rest) :
    read? ((NTriples.constant c).toList ++ rest) = some (c, rest) := by
  cases c with
  | iri i =>
    have hopen : "<".toList = ['<'] := rfl
    have hclose : ">".toList = ['>'] := rfl
    simp only [NTriples.constant, NTriples.iri, String.toList_append, hopen, hclose,
      List.cons_append, List.append_assoc, List.nil_append, read?, Iri.read?_text, Option.map_some]
  | blank label =>
    have hopen : "_:".toList = ['_', ':'] := rfl
    simp only [NTriples.constant, String.toList_append, hopen, List.cons_append, List.nil_append,
      read?, BlankLabel.read?_text label h, Option.map_some]
  | literal l => exact read?_literal l h

theorem constant_text_injective {c d : Constant} (h : NTriples.constant c = NTriples.constant d) :
    c = d := by
  have hend : Text.Delimited [] := trivial
  have hc := read?_constant c hend
  have hd := read?_constant d hend
  rw [h, hd] at hc
  cases hc
  rfl

end Constant

end RdfQuery
