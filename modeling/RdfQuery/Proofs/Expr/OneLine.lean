import RdfQuery.Proofs.Expr.Reader

/-!
# Texts without line breaks

Constants escape line breaks and names have none, so a term or an expression
is written on one line whatever the text of its literals is.
-/

set_option autoImplicit false

namespace RdfQuery

namespace Text

def OneLine (text : String) : Prop := '\n' ∉ text.toList

instance (text : String) : Decidable (OneLine text) :=
  inferInstanceAs (Decidable ('\n' ∉ text.toList))

theorem oneLine_append {a b : String} : OneLine (a ++ b) ↔ OneLine a ∧ OneLine b := by
  simp [OneLine, String.toList_append]

theorem IsWord.oneLine {name : String} (h : IsWord name) : OneLine name := by
  intro hbreak
  exact absurd (h '\n' hbreak) (by decide)

theorem oneLine_separated {separator : String} (hseparator : OneLine separator)
    {pieces : List String} (h : ∀ piece ∈ pieces, OneLine piece) :
    OneLine (separated separator pieces) := by
  induction pieces with
  | nil => exact List.not_mem_nil
  | cons piece pieces ih =>
    have hpiece := h piece (List.mem_cons_self ..)
    have hrest := ih fun x hx => h x (List.mem_cons_of_mem _ hx)
    cases pieces with
    | nil => exact hpiece
    | cons next pieces =>
      rw [separated, oneLine_append, oneLine_append]
      exact ⟨⟨hpiece, hseparator⟩, hrest⟩

theorem not_mem_escape (c : Char) : '\n' ∉ NTriples.quoting.escape c := by
  have hletter : ∀ letter c, lettered? letter = some c → '\n' ≠ letter := by
    rintro letter c h rfl
    cases h
  have hdigit : ∀ n < 16, '\n' ≠ hexDigit 'A'.toNat n := by decide
  have hescaped := escaped_escape c
  generalize NTriples.quoting.escape c = written at hescaped
  cases hescaped with
  | lettered letter h => simp [hletter letter c h]
  | code hcode =>
    have hhigh := hdigit (c.toNat / 16) (by omega)
    have hlow := hdigit (c.toNat % 16) (by omega)
    simp only [List.mem_cons, Char.reduceEq, List.not_mem_nil, or_false, false_or, not_or]
    exact ⟨hhigh, hlow⟩
  | itself _ _ hfeed _ => simpa using hfeed.symm

theorem oneLine_quoted (value : String) : OneLine (NTriples.quoted value) := by
  intro h
  rw [quoted_toList] at h
  simp only [List.mem_cons, List.mem_append, List.mem_flatMap, List.mem_nil_iff, or_false,
    Char.reduceEq, false_or] at h
  obtain ⟨c, -, hc⟩ := h
  exact not_mem_escape c hc

end Text

namespace NTriples

theorem oneLine_iri (i : Iri) : Text.OneLine (iri i) := by
  rw [iri, Text.oneLine_append, Text.oneLine_append]
  refine ⟨⟨by decide, ?_⟩, by decide⟩
  intro h
  exact Iri.ne_of_mem_text i (by decide) h rfl

theorem oneLine_constant (c : Constant) : Text.OneLine (constant c) := by
  cases c with
  | iri i => exact oneLine_iri i
  | blank label =>
    rw [constant, Text.oneLine_append]
    refine ⟨by decide, ?_⟩
    intro h
    exact absurd (BlankLabel.continues_text label _ h) (by decide)
  | literal l =>
    cases l with
    | simple value => exact Text.oneLine_quoted value
    | tagged value tag =>
      rw [constant, literal, Text.oneLine_append, Text.oneLine_append]
      refine ⟨⟨Text.oneLine_quoted value, by decide⟩, ?_⟩
      intro h
      exact absurd (LanguageTag.inTag_text tag _ h) (by decide)
    | typed value datatype proper =>
      rw [constant, literal, Text.oneLine_append, Text.oneLine_append]
      exact ⟨⟨Text.oneLine_quoted value, by decide⟩, oneLine_iri datatype⟩

end NTriples

/-! ## Expressions -/

namespace Spelling

/-- The signs and words of a language have no line breaks. -/
structure OneLine (s : Spelling) : Prop where
  variableName : ∀ name, Text.OneLine name → Text.OneLine (s.variableName name)
  negation : Text.OneLine s.negation
  function : ∀ f, Text.OneLine (s.function f)
  operator : ∀ op, Text.OneLine (s.operator op)

theorem oneLine_call {name : String} {args : List String} (hname : Text.OneLine name)
    (hargs : ∀ arg ∈ args, Text.OneLine arg) : Text.OneLine (call name args) := by
  simp only [call, Text.oneLine_append]
  exact ⟨⟨⟨hname, by decide⟩, Text.oneLine_separated (by decide) hargs⟩, by decide⟩

theorem oneLine_operand (e : Expr) {text : String} (h : Text.OneLine text) :
    Text.OneLine (operand e text) := by
  rw [operand]
  split
  · rw [Text.oneLine_append, Text.oneLine_append]
    exact ⟨⟨by decide, h⟩, by decide⟩
  · exact h

theorem oneLine_term {s : Spelling} (hs : s.OneLine) {t : Term} (ht : t.Worded) :
    Text.OneLine (s.term Naming.full t) := by
  cases t with
  | var v => exact hs.variableName _ (ht v (by simp [Term.variables])).oneLine
  | const c =>
    rw [term, Naming.full_constant]
    exact NTriples.oneLine_constant c

theorem exprs_eq_map (s : Spelling) (n : Naming) (es : List Expr) :
    s.exprs n es = es.map (s.expr n) := by
  induction es with
  | nil => rfl
  | cons e es ih => rw [exprs, ih, List.map_cons]

theorem oneLine_expr {s : Spelling} (hs : s.OneLine) {e : Expr} (he : e.Worded) :
    Text.OneLine (s.expr Naming.full e) := by
  induction e using Expr.parts_induction with
  | step e ih =>
    have hparts : ∀ d ∈ e.parts, Text.OneLine (s.expr Naming.full d) :=
      fun d hd => ih d hd (Expr.worded_part he hd)
    have hargs : ∀ piece ∈ e.parts.map (s.expr Naming.full), Text.OneLine piece := by
      intro piece hpiece
      obtain ⟨d, hd, rfl⟩ := List.mem_map.1 hpiece
      exact hparts d hd
    cases e with
    | var v => exact hs.variableName _ (Expr.isWord_var he).oneLine
    | const c =>
      rw [expr, Naming.full_constant]
      exact NTriples.oneLine_constant c
    | bound v =>
      have hname := hs.variableName _ (Expr.isWord_bound he).oneLine
      exact oneLine_call (by decide) (List.forall_mem_singleton.2 hname)
    | not e =>
      rw [expr, Text.oneLine_append]
      exact ⟨hs.negation, oneLine_operand e (hparts e (List.mem_singleton_self e))⟩
    | function f arg => exact oneLine_call (hs.function f) hargs
    | relation r left right => exact oneLine_call (Spelling.relation_isWord r).oneLine hargs
    | operation op left right =>
      have hleft := oneLine_operand left (hparts left (by simp [Expr.parts]))
      have hright := oneLine_operand right (hparts right (by simp [Expr.parts]))
      have hblank : Text.OneLine " " := by decide
      simp only [expr, Text.oneLine_append]
      exact ⟨⟨⟨⟨hleft, hblank⟩, hs.operator op⟩, hblank⟩, hright⟩
    | regex arg pattern => exact oneLine_call (by decide) hargs
    | regexWith arg pattern flags => exact oneLine_call (by decide) hargs
    | call name args =>
      rw [expr, exprs_eq_map]
      exact oneLine_call (NTriples.oneLine_iri name) hargs

end Spelling

end RdfQuery
