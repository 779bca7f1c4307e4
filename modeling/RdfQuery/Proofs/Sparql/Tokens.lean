import RdfQuery.Json.Text
import RdfQuery.Proofs.Expr.OneLine
import RdfQuery.Proofs.Sparql.Reader

/-!
# Tokens of SPARQL expressions

The terminals of the grammar that expressions are made of. A text falls into
tokens from left to right, each as long as possible, with blanks between them,
in one way at most. The text of an expression falls into the tokens that follow
its constructors.
-/

set_option autoImplicit false

namespace RdfQuery.Sparql

/-- A string is kept without its escapes, and a word in lower case. -/
inductive Token where
  | variable (name : String)
  | iri (text : String)
  | string (value : String)
  | tag (text : String)
  | word (lowered : String)
  | sign (text : String)
  deriving DecidableEq

namespace Token

/-! ## Single tokens -/

/-- The character classes of `VARNAME`: those of labels, but for three signs. -/
def startsName (c : Char) : Bool := BlankLabel.starts c && c ≠ ':'

def inName (c : Char) : Bool := BlankLabel.continues c && !(c = ':' || c = '.' || c = '-')

def name? : List Char → Option (Token × List Char)
  | [] => none
  | c :: cs =>
    if startsName c then
      some (.variable (String.ofList (c :: cs.takeWhile inName)), cs.dropWhile inName)
    else none

def outsideAngles : List Char := ['<', '>', '"', '\x7b', '\x7d', '|', '^', '\x60', '\\']

def inAngles (c : Char) : Bool := 0x20 < c.toNat && !(outsideAngles.contains c)

/-- Reads on to the closing angle bracket. -/
def iri? (cs : List Char) : Option (Token × List Char) :=
  match cs.dropWhile inAngles with
  | '>' :: rest => some (.iri (String.ofList (cs.takeWhile inAngles)), rest)
  | _ => none

def unescaped? (letter : Char) : Option Char :=
  if letter = '\x27' then some letter else Text.lettered? letter

/-- Surrogates are no characters. -/
def codePoint? (digits : List Char) : Option Char :=
  (Json.hexOf? digits).bind fun n => if n.isValidChar then some (Char.ofNat n) else none

/-- Reads on to the closing quote, with line breaks escaped. -/
def readString : List Char → Option (List Char × List Char)
  | [] => none
  | '"' :: rest => some ([], rest)
  | '\\' :: 'u' :: a :: b :: c :: d :: rest =>
    (codePoint? [a, b, c, d]).bind fun c => (readString rest).map fun r => (c :: r.1, r.2)
  | '\\' :: letter :: rest =>
    (unescaped? letter).bind fun c => (readString rest).map fun r => (c :: r.1, r.2)
  | c :: rest =>
    if c = '\n' || c = '\r' then none else (readString rest).map fun r => (c :: r.1, r.2)

/-- Strings in three quotes are other tokens. -/
def string? : List Char → Option (Token × List Char)
  | '"' :: '"' :: _ => none
  | cs => (readString cs).map fun r => (.string (String.ofList r.1), r.2)

/-- Letters, then letters and digits, between hyphens. -/
def isTag (cs : List Char) : Bool :=
  match LanguageTag.subtags cs with
  | [] => false
  | first :: others =>
    (first ≠ [] && first.all Char.isAlpha) && others.all fun s => s ≠ [] && s.all Char.isAlphanum

def tag? (cs : List Char) : Option (Token × List Char) :=
  if isTag (cs.takeWhile LanguageTag.inTag) then
    some (.tag (String.ofList (cs.takeWhile LanguageTag.inTag)), cs.dropWhile LanguageTag.inTag)
  else none

def inKeyword (c : Char) : Bool := c.isAlphanum || c = '_'

def wordOf (cs : List Char) : Token := .word (String.ofList (cs.map Char.toLower))

/-- Before a colon stands a prefix. -/
def word? (cs : List Char) : Option (Token × List Char) :=
  match cs.dropWhile inKeyword with
  | ':' :: _ => none
  | rest => some (wordOf (cs.takeWhile inKeyword), rest)

/-- The longer signs come first. -/
def signs : List String :=
  ["&&", "||", "!=", "<=", ">=", "^^", "(", ")", ",", "!", "=", "<", ">"]

def sign? (cs : List Char) : Option (Token × List Char) :=
  (signs.find? fun s => s.toList.isPrefixOf cs).map fun s => (.sign s, cs.drop s.length)

/-- The longest token that a text begins with. -/
def next? : List Char → Option (Token × List Char)
  | [] => none
  | '?' :: cs => name? cs
  | '$' :: cs => name? cs
  | '"' :: cs => string? cs
  | '@' :: cs => tag? cs
  | '<' :: cs => (iri? cs).or (sign? ('<' :: cs))
  | c :: cs => if c.isAlpha then word? (c :: cs) else sign? (c :: cs)

def isBlank (c : Char) : Bool := c = ' ' || c = '\t' || c = '\r' || c = '\n'

end Token

/-! ## Texts -/

/-- The text is this sequence of tokens, with blanks between them. -/
inductive Lexes : List Char → List Token → Prop where
  | nil : Lexes [] []
  | blank {c : Char} {cs : List Char} {ts : List Token} (hblank : Token.isBlank c = true)
    (h : Lexes cs ts) : Lexes (c :: cs) ts
  | token {cs rest : List Char} {t : Token} {ts : List Token}
    (hnext : Token.next? cs = some (t, rest)) (h : Lexes rest ts) : Lexes cs (t :: ts)

theorem Token.next?_blank {c : Char} (h : isBlank c = true) (cs : List Char) :
    next? (c :: cs) = none := by
  simp only [isBlank, Bool.or_eq_true, decide_eq_true_eq] at h
  rcases h with ((rfl | rfl) | rfl) | rfl <;> rfl

theorem Lexes.unique {cs : List Char} {ts us : List Token} (h : Lexes cs ts) (h' : Lexes cs us) :
    ts = us := by
  induction h generalizing us with
  | nil =>
    cases h' with
    | nil => rfl
    | token hnext _ => cases hnext
  | blank hblank _ ih =>
    cases h' with
    | blank _ h' => exact ih h'
    | token hnext _ =>
      rw [Token.next?_blank hblank] at hnext
      cases hnext
  | token hnext _ ih =>
    cases h' with
    | nil => cases hnext
    | blank hblank _ =>
      rw [Token.next?_blank hblank] at hnext
      cases hnext
    | token hnext' h' =>
      cases hnext.symm.trans hnext'
      rw [ih h']

/-! ## Tokens at the beginning of a text -/

namespace Token

/-- A name of the grammar: letters, digits and underscores are enough, unless there are none. -/
def isName : List Char → Bool
  | [] => false
  | c :: cs => startsName c && cs.all inName

theorem next?_variable {name : String} (hname : isName name.toList = true) {rest : List Char}
    (hrest : Text.Delimited rest) :
    next? ('?' :: (name.toList ++ rest)) = some (.variable name, rest) := by
  rw [next?]
  cases hchars : name.toList with
  | nil =>
    rw [hchars] at hname
    cases hname
  | cons c cs =>
    rw [hchars, isName, Bool.and_eq_true, List.all_eq_true] at hname
    obtain ⟨htake, hdrop⟩ := Text.span_append hname.2
      (Text.takeWhile_of_delimited (by decide) (by decide) (by decide) (by decide) hrest)
    rw [List.cons_append, name?, if_pos hname.1, htake, hdrop, ← hchars, String.ofList_toList]

theorem inAngles_text (i : Iri) : ∀ c ∈ i.text.toList, inAngles c = true := by
  intro c hc
  have hin := Iri.inIri_text i c hc
  have hcontrol : ∀ n ≤ 0x20, Iri.Grammar.inIri (Char.ofNat n) = false := by decide
  have hsigns : outsideAngles.any Iri.Grammar.inIri = false := by decide
  rw [inAngles, Bool.and_eq_true, decide_eq_true_eq, Bool.not_eq_true', ← Bool.not_eq_true,
    List.contains_iff_mem]
  constructor
  · by_contra hlow
    have hfalse := hcontrol c.toNat (by omega)
    rw [Char.ofNat_toNat, hin] at hfalse
    cases hfalse
  · intro hmem
    rw [List.any_eq_true.2 ⟨c, hmem, hin⟩] at hsigns
    cases hsigns

theorem iri?_text (i : Iri) (rest : List Char) :
    iri? (i.text.toList ++ '>' :: rest) = some (.iri i.text, rest) := by
  obtain ⟨htake, hdrop⟩ := Text.span_append (inAngles_text i)
    (show ('>' :: rest).takeWhile inAngles = [] from rfl)
  simp only [iri?, hdrop, htake, String.ofList_toList]

theorem next?_iri (i : Iri) (rest : List Char) :
    next? ((NTriples.iri i).toList ++ rest) = some (.iri i.text, rest) := by
  have hopen : "<".toList = ['<'] := rfl
  have hclose : ">".toList = ['>'] := rfl
  simp only [NTriples.iri, String.toList_append, hopen, hclose, List.append_assoc,
    List.cons_append, List.nil_append, next?, iri?_text, Option.some_or]

/-! Strings -/

theorem hexValue?_hexDigit :
    ∀ n < 16, Json.hexValue? (Text.hexDigit 'A'.toNat n) = some n := by decide

theorem codePoint?_code {c : Char} (h : c.toNat < 128) :
    codePoint? ['0', '0', Text.hexDigit 'A'.toNat (c.toNat / 16),
      Text.hexDigit 'A'.toNat (c.toNat % 16)] = some c := by
  have hzero : Json.hexValue? '0' = some 0 := rfl
  have hvalue : ((0 * 16 + 0) * 16 + c.toNat / 16) * 16 + c.toNat % 16 = c.toNat := by omega
  have hvalid : c.toNat.isValidChar := Or.inl (by omega)
  rw [codePoint?, Json.hexOf?, hzero, hexValue?_hexDigit _ (by omega),
    hexValue?_hexDigit _ (by omega)]
  simp only [Option.bind_eq_bind, Option.bind_some, hvalue, if_pos hvalid, Char.ofNat_toNat]

theorem unescaped?_lettered {letter c : Char} (h : Text.lettered? letter = some c) :
    unescaped? letter = some c := by
  have hne : letter ≠ '\x27' := by
    rintro rfl
    cases h
  rw [unescaped?, if_neg hne, h]

theorem readString_escape (c : Char) (rest : List Char) :
    readString (NTriples.quoting.escape c ++ rest) =
      (readString rest).map fun r => (c :: r.1, r.2) := by
  have hescaped := Text.escaped_escape c
  generalize NTriples.quoting.escape c = written at hescaped ⊢
  cases hescaped with
  | lettered letter hletter =>
    simp only [List.cons_append, List.nil_append]
    rw [readString, unescaped?_lettered hletter, Option.bind_some]
    intro a b c d rest' hletter'
    exact absurd hletter' (Text.ne_of_lettered hletter)
  | code hcode =>
    simp only [List.cons_append, List.nil_append, readString]
    rw [codePoint?_code hcode, Option.bind_some]
  | itself hquote hslash hfeed hreturn =>
    simp only [List.cons_append, List.nil_append]
    rw [readString]
    all_goals simp_all

theorem readString_append (value rest : List Char) :
    readString (value.flatMap NTriples.quoting.escape ++ '"' :: rest) = some (value, rest) := by
  induction value with
  | nil => rfl
  | cons c value ih =>
    rw [List.flatMap_cons, List.append_assoc, readString_escape, ih]
    rfl

theorem escape_head (c : Char) :
    ∃ first tail, NTriples.quoting.escape c = first :: tail ∧ first ≠ '"' := by
  have hescaped := Text.escaped_escape c
  generalize NTriples.quoting.escape c = written at hescaped ⊢
  cases hescaped with
  | lettered letter hletter => exact ⟨_, _, rfl, by decide⟩
  | code hcode => exact ⟨_, _, rfl, by decide⟩
  | itself hquote _ _ _ => exact ⟨c, [], rfl, hquote⟩

theorem next?_string (value : String) {rest : List Char} (hrest : rest.head? ≠ some '"') :
    next? ((NTriples.quoted value).toList ++ rest) = some (.string value, rest) := by
  have hstring (cs : List Char) (h : ∀ tail, cs ≠ '"' :: '"' :: tail) :
      string? cs = (readString cs).map fun r => (.string (String.ofList r.1), r.2) := by
    rw [string?]
    exact h
  rw [Text.quoted_toList, List.cons_append, next?, List.append_assoc, List.singleton_append,
    hstring, readString_append, Option.map_some, String.ofList_toList]
  intro tail htail
  cases hvalue : value.toList with
  | nil =>
    rw [hvalue] at htail
    cases htail
    exact hrest rfl
  | cons c cs =>
    obtain ⟨first, others, hescape, hfirst⟩ := escape_head c
    rw [hvalue, List.flatMap_cons, hescape, List.cons_append, List.cons_append] at htail
    exact hfirst (List.cons.inj htail).1

/-! Tags, words and signs -/

theorem subtags_ne_nil (cs : List Char) : LanguageTag.subtags cs ≠ [] := by
  cases cs with
  | nil => exact List.cons_ne_nil _ _
  | cons c rest =>
    rw [LanguageTag.subtags]
    split
    · exact List.cons_ne_nil _ _
    · split <;> exact List.cons_ne_nil _ _

theorem isTag_of_subtags {cs first : List Char} {others : List (List Char)}
    (h : LanguageTag.subtags cs = first :: others) (hne : first ≠ [])
    (hfirst : LanguageTag.isWord first = true)
    (hothers : ∀ s ∈ others, s ≠ [] ∧ LanguageTag.isMixed s = true) : isTag cs = true := by
  rw [isTag, h]
  simp only [Bool.and_eq_true, List.all_eq_true, decide_eq_true_eq]
  exact ⟨⟨hne, List.all_eq_true.1 hfirst⟩,
    fun s hs => ⟨(hothers s hs).1, List.all_eq_true.1 (hothers s hs).2⟩⟩

theorem step_ne_nil {state state' : LanguageTag.State} {subtag : List Char}
    (h : LanguageTag.step state subtag = .ok state') : subtag ≠ [] := by
  rintro rfl
  cases h

theorem isWord_of_start {state : LanguageTag.State} {subtag : List Char}
    (h : LanguageTag.step .start subtag = .ok state) : LanguageTag.isWord subtag = true := by
  unfold LanguageTag.step at h
  split at h
  · cases h
  split at h
  · cases h
  simp only at h
  split at h
  · cases h
  · rename_i hword
    simp only [Bool.or_eq_true, Bool.not_eq_true', not_or, Bool.not_eq_false] at hword
    exact hword.2

theorem isTag_of_check {tag : String} (h : LanguageTag.check tag = .ok ()) :
    isTag tag.toList = true := by
  unfold LanguageTag.check at h
  split at h
  · rename_i hmem
    have hall : (LanguageTag.grandfathered.all fun t => isTag t.toList) = true := by decide +kernel
    exact List.all_eq_true.1 hall tag (List.contains_iff_mem.1 hmem)
  split at h
  · cases h
  · rename_i rest _ hchars
    obtain ⟨first, others, hrest⟩ := List.exists_cons_of_ne_nil (subtags_ne_nil rest)
    have hsubtags : LanguageTag.subtags ('x' :: '-' :: rest) = ['x'] :: first :: others := by
      simp only [LanguageTag.subtags, hrest]
      rfl
    rw [hchars]
    refine isTag_of_subtags hsubtags (List.cons_ne_nil _ _) rfl ?_
    rw [← hrest]
    exact fun s hs => LanguageTag.privateSubtag_eq_ok (LanguageTag.forall_of_forM h s hs)
  · obtain ⟨final, hrun, -⟩ := Outcome.bind_eq_ok.1 h
    obtain ⟨first, others, hsubtags⟩ := List.exists_cons_of_ne_nil (subtags_ne_nil tag.toList)
    rw [hsubtags] at hrun
    have hne := LanguageTag.forall_of_run (fun _ _ _ => step_ne_nil) hrun
    have hmixed := LanguageTag.forall_of_run (fun _ _ _ => LanguageTag.step_isMixed) hrun
    obtain ⟨next, hstart, -⟩ := Outcome.bind_eq_ok.1 hrun
    exact isTag_of_subtags hsubtags (hne first List.mem_cons_self) (isWord_of_start hstart)
      fun s hs => ⟨hne s (List.mem_cons_of_mem _ hs), hmixed s (List.mem_cons_of_mem _ hs)⟩

theorem next?_tag (t : LanguageTag) {rest : List Char} (hrest : Text.Delimited rest) :
    next? ('@' :: (t.text.toList ++ rest)) = some (.tag t.text, rest) := by
  obtain ⟨htake, hdrop⟩ := Text.span_append t.inTag_text
    (Text.takeWhile_of_delimited (by decide) (by decide) (by decide) (by decide) hrest)
  rw [next?, tag?, htake, hdrop, if_pos (isTag_of_check t.check_text), String.ofList_toList]

/-- No operand begins with a sign that would make a longer one of a negation. -/
theorem next?_not {rest : List Char} (hrest : rest.head? ≠ some '=') :
    next? ('!' :: rest) = some (.sign "!", rest) := by
  cases rest with
  | nil => rfl
  | cons c rest =>
    have hne : '=' ≠ c := fun h => hrest (congrArg some h.symm)
    have hlength : "!".length = 1 := rfl
    simp [next?, sign?, signs, hne, hlength]

end Token

end RdfQuery.Sparql
