import RdfQuery.Proofs.Constant.Reader
import RdfQuery.Serql.Expr
import RdfQuery.Sparql.Expr
import RdfQuery.Tree.Basic

/-!
# Variables named by words

Where names are words and constants are written in full, the text of a term
tells which term it is, up to the mark of an anonymous variable.
-/

set_option autoImplicit false

namespace RdfQuery

namespace Text

/-- Letters, digits and underscores; beyond ASCII every character passes for a letter. -/
def inWord (c : Char) : Bool := c.isAlphanum || c = '_' || 128 ≤ c.toNat

def IsWord (name : String) : Prop := ∀ c ∈ name.toList, inWord c = true

instance (name : String) : Decidable (IsWord name) :=
  decidable_of_iff (name.toList.all inWord = true) List.all_eq_true

end Text

/-! ## The variables of terms, expressions and trees -/

def Term.variables : Term → List Variable
  | .var v => [v]
  | .const _ => []

def Expr.ownVariables : Expr → List Variable
  | .var v => [v]
  | .bound v => [v]
  | _ => []

def Expr.variables (e : Expr) : List Variable := e.walk.flatMap Expr.ownVariables

def Tree.ownVariables : Tree → List Variable
  | .pattern p => p.terms.flatMap Term.variables
  | t => t.ownExprs.flatMap Expr.variables

def Tree.variables (t : Tree) : List Variable := t.subtrees.flatMap Tree.ownVariables

def Term.Worded (t : Term) : Prop := ∀ v ∈ t.variables, Text.IsWord v.name

def Expr.Worded (e : Expr) : Prop := ∀ v ∈ e.variables, Text.IsWord v.name

def Tree.Worded (t : Tree) : Prop := ∀ v ∈ t.variables, Text.IsWord v.name

instance (t : Term) : Decidable t.Worded :=
  inferInstanceAs (Decidable (∀ v ∈ t.variables, Text.IsWord v.name))

instance (t : Tree) : Decidable t.Worded :=
  inferInstanceAs (Decidable (∀ v ∈ t.variables, Text.IsWord v.name))

namespace Tree

theorem pattern_mem_subtrees {t : Tree} {p : TriplePattern} (h : p ∈ t.patterns) :
    .pattern p ∈ t.subtrees := by
  induction t with
  | unit => cases h
  | pattern q =>
    rw [patterns, List.mem_singleton] at h
    simp [subtrees, h]
  | combine c l r ihl ihr =>
    rcases List.mem_append.1 h with h | h
    · simp [subtrees, ihl h]
    · simp [subtrees, ihr h]
  | filter arg e ih => simp [subtrees, ih h]
  | modify mo arg ih => simp [subtrees, ih h]
  | bare s => cases h

theorem worded_of_mem_patterns {t : Tree} (h : t.Worded) :
    ∀ p ∈ t.patterns, ∀ u ∈ p.terms, u.Worded := by
  intro p hp u hu v hv
  refine h v (List.mem_flatMap.2 ⟨.pattern p, pattern_mem_subtrees hp, ?_⟩)
  exact List.mem_flatMap.2 ⟨u, hu, hv⟩

end Tree

/-! ## Forgetting which variables are anonymous -/

def Variable.plain (v : Variable) : Variable := .user v.name

def Term.plain : Term → Term
  | .var v => .var v.plain
  | .const c => .const c

mutual

def Expr.plain : Expr → Expr
  | .var v => .var v.plain
  | .const c => .const c
  | .bound v => .bound v.plain
  | .not e => .not e.plain
  | .function f arg => .function f arg.plain
  | .relation r left right => .relation r left.plain right.plain
  | .operation op left right => .operation op left.plain right.plain
  | .regex arg pattern => .regex arg.plain pattern.plain
  | .regexWith arg pattern flags => .regexWith arg.plain pattern.plain flags.plain
  | .call name args => .call name (Expr.plainAll args)

def Expr.plainAll : List Expr → List Expr
  | [] => []
  | e :: es => e.plain :: Expr.plainAll es

end

/-! ## Texts of terms -/

/-- Every constant is written in full. -/
def Naming.full : Naming := ⟨none⟩

theorem Naming.ofStyle_full {s : Style} (h : s.compactIris = false) : Naming.ofStyle s = full := by
  simp [ofStyle, h, full]

theorem Naming.full_constant (c : Constant) : full.constant c = NTriples.constant c := by
  cases c with
  | iri i => rfl
  | blank label => rfl
  | literal l => cases l <;> rfl

/-- Every constant is written with a character no word has. -/
theorem NTriples.not_isWord_constant (c : Constant) : ¬ Text.IsWord (constant c) := by
  intro h
  cases c with
  | iri i => exact absurd (h '<' (by simp [constant, iri])) (by decide)
  | blank label => exact absurd (h ':' (by simp [constant])) (by decide)
  | literal l =>
    refine absurd (h '"' ?_) (by decide)
    cases l <;> simp [constant, literal, Text.quoted_toList]

namespace Serql

theorem term_full_eq_iff {a b : Term} (ha : a.Worded) (hb : b.Worded) :
    term Naming.full a = term Naming.full b ↔ a.plain = b.plain := by
  cases a with
  | var v =>
    have hv : Text.IsWord v.name := ha v (by simp [Term.variables])
    cases b with
    | var w => simp [term, Spelling.term, spelling, Term.plain, Variable.plain, Variable.user]
    | const c =>
      simp only [term, Spelling.term, spelling, Naming.full_constant, Term.plain, reduceCtorEq,
        iff_false]
      intro h
      exact NTriples.not_isWord_constant c (h ▸ hv)
  | const c =>
    cases b with
    | var w =>
      have hw : Text.IsWord w.name := hb w (by simp [Term.variables])
      simp only [term, Spelling.term, spelling, Naming.full_constant, Term.plain, reduceCtorEq,
        iff_false]
      intro h
      exact NTriples.not_isWord_constant c (h ▸ hw)
    | const d =>
      simp only [term, Spelling.term, Naming.full_constant, Term.plain, Term.const.injEq]
      exact ⟨Constant.constant_text_injective, congrArg NTriples.constant⟩

end Serql

end RdfQuery
