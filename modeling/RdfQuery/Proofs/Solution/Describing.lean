import RdfQuery.Proofs.Query.Rewriting
import RdfQuery.Proofs.Solution.Meaning

/-!
# Statements about targets

The condition of a rewritten describe query is true in exactly the solutions whose subject or
object is the value of a target. A target without a value makes its part of the condition an
error, which hides no part that is true. So what counts is which targets there are, neither how
often nor in what order, and further targets take no statement away.
-/

set_option autoImplicit false

namespace RdfQuery

open scoped Classical

/-! ## Disjunctions with errors -/

theorem eitherTrue_eq_true {x y : Option Bool} :
    eitherTrue x y = some true ↔ x = some true ∨ y = some true := by
  rcases x with _ | _ | _ <;> rcases y with _ | _ | _ <;> simp [eitherTrue]

theorem eitherTrue_eq_false {x y : Option Bool} :
    eitherTrue x y = some false ↔ x = some false ∧ y = some false := by
  rcases x with _ | _ | _ <;> rcases y with _ | _ | _ <;> simp [eitherTrue]

namespace Expr

variable {l : Library} {a : Solution}

/-- The truth of a condition in a solution; `none` is an error. -/
def truth (l : Library) (a : Solution) (e : Expr) : Option Bool := (e.value l a).bind l.truthOf

theorem truth_or (left right : Expr) :
    (Expr.operation .or left right).truth l a = eitherTrue (left.truth l a) (right.truth l a) := by
  rw [truth, value, l.bind_truthOf_boolean]
  rfl

theorem truth_sameTerm (left right : Expr) :
    (Expr.relation .sameTerm left right).truth l a =
      (left.value l a).bind fun x => (right.value l a).map fun y => decide (x = y) := by
  rw [truth, value]
  cases left.value l a with
  | none => rfl
  | some x =>
    cases right.value l a with
    | none => rfl
    | some y => exact l.truthOf_boolean _

/-- Operands under a disjunction grouped from the left: one that is true decides. -/
theorem truth_foldl_or_eq_true {e : Expr} {es : List Expr} :
    (es.foldl (.operation .or) e).truth l a = some true ↔
      ∃ d ∈ e :: es, d.truth l a = some true := by
  induction es generalizing e with
  | nil => simp
  | cons d es ih =>
    rw [List.foldl_cons, ih]
    simp only [List.exists_mem_cons_iff, truth_or, eitherTrue_eq_true, or_assoc]

theorem truth_foldl_or_eq_false {e : Expr} {es : List Expr} :
    (es.foldl (.operation .or) e).truth l a = some false ↔
      ∀ d ∈ e :: es, d.truth l a = some false := by
  induction es generalizing e with
  | nil => simp
  | cons d es ih =>
    rw [List.foldl_cons, ih]
    simp only [List.forall_mem_cons, truth_or, eitherTrue_eq_false, and_assoc]

end Expr

/-! ## Targets -/

def Term.value? (a : Solution) : Term → Option Constant
  | .var v => a v.name
  | .const c => some c

theorem Expr.value_ofTerm (l : Library) (a : Solution) (t : Term) :
    (Expr.ofTerm t).value l a = t.value? a := by
  cases t <;> rfl

namespace Describe

variable {l : Library} {a : Solution}

/-- The target has a value, and it is the subject or the object of the statement. -/
def Mentioned (a : Solution) (target : Term) : Prop :=
  ∃ c, target.value? a = some c ∧ (a subject = some c ∨ a object = some c)

/-- The target has a value, and the subject and the object are known to be other constants. -/
def Missed (a : Solution) (target : Term) : Prop :=
  ∃ c, target.value? a = some c ∧ (∃ s, a subject = some s ∧ c ≠ s) ∧ ∃ o, a object = some o ∧ c ≠ o

theorem truth_mentions (target : Term) :
    (mentions target).truth l a =
      eitherTrue
        ((target.value? a).bind fun c => (a subject).map fun s => decide (c = s))
        ((target.value? a).bind fun c => (a object).map fun o => decide (c = o)) := by
  rw [mentions, Expr.truth_or, Expr.truth_sameTerm, Expr.truth_sameTerm, Expr.value_ofTerm]
  rfl

theorem truth_mentions_eq_true {target : Term} :
    (mentions target).truth l a = some true ↔ Mentioned a target := by
  rw [truth_mentions, eitherTrue_eq_true, Mentioned]
  cases target.value? a with
  | none => simp
  | some c =>
    simp only [Option.bind_some, Option.map_eq_some_iff, decide_eq_true_eq, Option.some.injEq,
      exists_eq_left', exists_eq_right']

theorem truth_mentions_eq_false {target : Term} :
    (mentions target).truth l a = some false ↔ Missed a target := by
  rw [truth_mentions, eitherTrue_eq_false, Missed]
  cases target.value? a with
  | none => simp
  | some c =>
    simp only [Option.bind_some, Option.map_eq_some_iff, decide_eq_false_iff_not,
      Option.some.injEq, exists_eq_left', ne_eq]

theorem truth_condition_eq_true {targets : List Term} {condition : Expr}
    (h : condition? targets = some condition) :
    condition.truth l a = some true ↔ ∃ t ∈ targets, Mentioned a t := by
  cases targets with
  | nil => cases h
  | cons target targets =>
    cases h
    simp only [Expr.truth_foldl_or_eq_true, ← List.map_cons, List.mem_map,
      exists_exists_and_eq_and, truth_mentions_eq_true]

theorem truth_condition_eq_false {targets : List Term} {condition : Expr}
    (h : condition? targets = some condition) :
    condition.truth l a = some false ↔ ∀ t ∈ targets, Missed a t := by
  cases targets with
  | nil => cases h
  | cons target targets =>
    cases h
    simp only [Expr.truth_foldl_or_eq_false, ← List.map_cons, List.forall_mem_map,
      truth_mentions_eq_false]

end Describe

/-! ## The statements of a description -/

namespace Solutions

theorem join_mono {A B C : Multiset Solution} (h : B ≤ C) : join A B ≤ join A C := by
  obtain ⟨D, rfl⟩ := Multiset.le_iff_exists_add.1 h
  have hadd : join A (B + D) = join A B + join A D := by
    rw [join]
    simp only [Multiset.add_bind]
    exact Multiset.bind_add ..
  rw [hadd]
  exact Multiset.le_add_right ..

end Solutions

namespace Describe

/-- What the template makes of a solution. -/
def stated (a : Solution) : List (Option Constant) := columns.sources.map a

/-- The statements that are described, of those found, where the body has these solutions. -/
noncomputable def statements (l : Library) (condition : Expr) (body found : Multiset Solution) :
    Multiset (List (Option Constant)) :=
  (Solutions.join body (found.filter fun a => condition.Holds l a)).map stated

/-- The input of a rewritten projection, which had some input or none. -/
theorem statements_describing (l : Library) (data : Finset Quad) (scope : Scope)
    (condition : Expr) (old : Option Tree) :
    ((Tree.describing (Tree.mentioning scope condition) old).solutions l data).map stated =
      statements l condition (old.elim {Solution.empty} fun t => t.solutions l data)
        ((Tree.pattern (statement scope)).solutions l data) := by
  cases old with
  | none =>
    rw [statements, Option.elim_none, Solutions.empty_join]
    rfl
  | some t => rfl

variable {l : Library} {condition condition' : Expr}

theorem statements_mono (h : ∀ a, condition.Holds l a → condition'.Holds l a)
    (body found : Multiset Solution) :
    statements l condition body found ≤ statements l condition' body found :=
  Multiset.map_le_map (Solutions.join_mono (Multiset.monotone_filter_right found h))

theorem statements_congr {found : Multiset Solution}
    (h : ∀ a ∈ found, condition.Holds l a ↔ condition'.Holds l a) (body : Multiset Solution) :
    statements l condition body found = statements l condition' body found := by
  rw [statements, Multiset.filter_congr h, statements]

end Describe

/-- The condition of a rewritten describe query holds exactly where a target is mentioned. The more
targets there are the more statements are described; their order and number and targets that are
unbound make no difference. -/
theorem targets_mentioned {targets : List Term} (hne : targets ≠ []) :
    ∃ condition, Describe.condition? targets = some condition ∧
      (∀ t t' scope, t.describe targets scope = .ok t' →
        ∃ path, Tree.DescribedAt (Tree.mentioning scope condition) t t' path) ∧
      (∀ l a, condition.truth l a = some true ↔ ∃ t ∈ targets, Describe.Mentioned a t) ∧
      (∀ l a, condition.truth l a = some false ↔ ∀ t ∈ targets, Describe.Missed a t) ∧
      (∀ l data scope old,
        ((Tree.describing (Tree.mentioning scope condition) old).solutions l data).map
            Describe.stated =
          Describe.statements l condition (old.elim {Solution.empty} fun t => t.solutions l data)
            ((Tree.pattern (Describe.statement scope)).solutions l data)) ∧
      ∀ targets', targets ⊆ targets' →
        ∃ condition', Describe.condition? targets' = some condition' ∧ ∀ l body found,
          Describe.statements l condition body found ≤
            Describe.statements l condition' body found ∧
          ((∀ t ∈ targets', t ∈ targets ∨ ∀ a ∈ found, t.value? a = none) →
            Describe.statements l condition body found =
              Describe.statements l condition' body found) := by
  have hsome (ts : List Term) (h : ts ≠ []) : ∃ c, Describe.condition? ts = some c :=
    Option.ne_none_iff_exists'.1 fun hnone => h (Describe.condition?_eq_none.1 hnone)
  obtain ⟨condition, hcondition⟩ := hsome targets hne
  have htrue (l : Library) (a : Solution) : condition.truth l a = some true ↔ _ :=
    Describe.truth_condition_eq_true hcondition
  refine ⟨condition, hcondition, ?_, htrue,
    fun l a => Describe.truth_condition_eq_false hcondition,
    fun l data scope old => Describe.statements_describing l data scope condition old, ?_⟩
  · intro t t' scope h
    obtain ⟨condition', path, hcondition', hdescribed, -⟩ := Tree.described_of_describe h
    cases Option.some.inj (hcondition.symm.trans hcondition')
    exact ⟨path, hdescribed⟩
  · intro targets' hsub
    obtain ⟨condition', hcondition'⟩ :=
      hsome targets' fun hnil => hne (List.subset_nil.1 (hnil ▸ hsub))
    have htrue' (l : Library) (a : Solution) : condition'.truth l a = some true ↔ _ :=
      Describe.truth_condition_eq_true hcondition'
    have hmono (l : Library) (a : Solution) (h : condition.Holds l a) : condition'.Holds l a := by
      obtain ⟨t, ht, hmentioned⟩ := (htrue l a).1 h
      exact (htrue' l a).2 ⟨t, hsub ht, hmentioned⟩
    refine ⟨condition', hcondition', fun l body found => ⟨?_, fun hunbound => ?_⟩⟩
    · exact Describe.statements_mono (hmono l) body found
    · refine Describe.statements_congr (fun a ha => ⟨hmono l a, fun h => ?_⟩) body
      obtain ⟨t, ht, hmentioned⟩ := (htrue' l a).1 h
      rcases hunbound t ht with ht | hnone
      · exact (htrue l a).2 ⟨t, ht, hmentioned⟩
      · -- a target without a value is mentioned nowhere
        obtain ⟨c, hc, -⟩ := hmentioned
        rw [hnone a ha] at hc
        cases hc

/-- A solution that leaves the object and all but one target unbound. -/
def halfBound : Solution := fun name =>
  if name = "y" ∨ name = Describe.subject then some (.boolean true) else none

/-- The condition holds for the target that is bound, is an error where nothing is, and describes as
much when the targets are turned round, repeated and followed by an unbound one. -/
theorem halfBound_mentioned :
    [Term.var (.user "x"), .var (.user "y")] ≠ [] ∧
    ∃ condition condition',
      Describe.condition? [.var (.user "x"), .var (.user "y")] = some condition ∧
      Describe.condition? [.var (.user "y"), .var (.user "x"), .var (.user "y"),
        .var (.user "z")] = some condition' ∧
      ∀ l, condition.truth l halfBound = some true ∧ condition.truth l Solution.empty = none ∧
        Describe.statements l condition {Solution.empty} {halfBound} =
          Describe.statements l condition' {Solution.empty} {halfBound} := by
  have hne : [Term.var (.user "x"), .var (.user "y")] ≠ [] := List.cons_ne_nil _ _
  obtain ⟨condition, hcondition, -, htrue, hfalse, -, hmore⟩ := targets_mentioned hne
  obtain ⟨condition', hcondition', hstatements⟩ :=
    hmore [.var (.user "y"), .var (.user "x"), .var (.user "y"), .var (.user "z")] (by decide)
  refine ⟨hne, condition, condition', hcondition, hcondition', fun l => ⟨?_, ?_, ?_⟩⟩
  · exact (htrue l halfBound).2 ⟨.var (.user "y"), by decide, .boolean true, rfl, Or.inl rfl⟩
  · cases htruth : condition.truth l Solution.empty with
    | none => rfl
    | some b =>
      cases b with
      | true =>
        obtain ⟨t, -, c, -, hc | hc⟩ := (htrue l _).1 htruth <;> cases hc
      | false =>
        obtain ⟨c, hc, -⟩ := (hfalse l _).1 htruth _ List.mem_cons_self
        cases hc
  · refine (hstatements l {Solution.empty} {halfBound}).2 fun t ht => ?_
    simp only [List.mem_cons, List.not_mem_nil, or_false] at ht
    rcases ht with rfl | rfl | rfl | rfl
    · exact Or.inl (by decide)
    · exact Or.inl (by decide)
    · exact Or.inl (by decide)
    · exact Or.inr fun a ha => Multiset.mem_singleton.1 ha ▸ rfl

end RdfQuery
