import Mathlib.Data.Finset.Insert
import RdfQuery.Proofs.Sparql.Nesting

/-!
# Trees over sample data

Two statements about one node. Every nesting has trees whose only solution in
them is a given one, wherever they stand; they fill the operands that a
comparison of two readings does not need.
-/

set_option autoImplicit false

namespace RdfQuery.Sparql.Sample

open scoped Classical

def node : Constant := .iri ⟨"ex:node", by decide +kernel⟩
def one : Constant := .iri ⟨"ex:one", by decide +kernel⟩
def two : Constant := .iri ⟨"ex:two", by decide +kernel⟩

def data : Finset Quad := {⟨none, node, one, one⟩, ⟨none, node, two, two⟩}

/-- What the node has under a predicate. -/
def asked (predicate : Constant) (object : Term) : TriplePattern :=
  ⟨.const node, .const predicate, object, none⟩

def given (name : String) (c : Constant) : Solution := Solution.empty.assign name c

theorem one_ne_two : one ≠ two := by decide +kernel

section

variable {l : Library} {c : Constant}

theorem mem_asked {object : Term} {x : Solution} (hc : c = one ∨ c = two) :
    x ∈ (Tree.pattern (asked c object)).solutions l data ↔
      object.match? c Solution.empty = some x := by
  have hmatch (d : Constant) : (asked c object).match? ⟨none, node, d, d⟩ =
      if c = d then object.match? d Solution.empty else none := by
    by_cases hcd : c = d
    · simp [TriplePattern.match?, asked, Term.match?, TriplePattern.graphMatch?, hcd]
    · simp [TriplePattern.match?, asked, Term.match?, hcd]
  rw [Tree.solutions, Multiset.mem_filterMap]
  simp only [Finset.mem_val, data, Finset.mem_insert, Finset.mem_singleton, exists_eq_or_imp,
    exists_eq_left, hmatch]
  rcases hc with rfl | rfl
  · simp [one_ne_two]
  · simp [one_ne_two.symm]

theorem mem_asked_var {name : String} {x : Solution} (hc : c = one ∨ c = two) :
    x ∈ (Tree.pattern (asked c (.var (.user name)))).solutions l data ↔ x = given name c := by
  rw [mem_asked hc]
  show some (given name c) = some x ↔ _
  rw [Option.some.injEq, eq_comm]

theorem mem_asked_const {x : Solution} (hc : c = one ∨ c = two) :
    x ∈ (Tree.pattern (asked c (.const c))).solutions l data ↔ x = Solution.empty := by
  rw [mem_asked hc, Term.match?, if_pos rfl, Option.some.injEq, eq_comm]

end

/-! ## Filled nestings -/

/-- A condition that every solution of the sample passes. -/
def idle : Expr := .not (.bound (.user "z"))

theorem names_idle : idle.names = ["z"] := rfl

theorem holds_idle {l : Library} {a : Solution} (h : ¬ a.Binds "z") : idle.Holds l a :=
  Expr.holds_not_bound.2 h

def idleCondition (conditioned : Bool) : Option Expr := if conditioned then some idle else none

theorem idleCondition_isSome (conditioned : Bool) :
    (idleCondition conditioned).isSome = conditioned := by
  cases conditioned <;> rfl

theorem mem_idleCondition {conditioned : Bool} {e : Expr}
    (h : e ∈ (idleCondition conditioned).toList) : e = idle := by
  cases conditioned with
  | true => exact List.mem_singleton.1 h
  | false => cases h

/-- The same pattern everywhere; what a minus takes away has nothing in common with it. -/
def fill (p : TriplePattern) : Nesting → Tree
  | .pattern => .pattern p
  | .join m n => .combine .join (fill p m) (fill p n)
  | .leftJoin conditioned m n =>
    .combine (.leftJoin (idleCondition conditioned)) (fill p m) (fill p n)
  | .union m n => .combine .union (fill p m) (fill p n)
  | .difference m n =>
    .combine .difference (fill p m) (fill (asked one (.const one)) n)
  | .filter m => .filter (fill p m) idle

theorem of_fill {p : TriplePattern} (hp : p.graph = none) (n : Nesting) : n.Of (fill p n) := by
  induction n generalizing p with
  | pattern => exact .pattern hp
  | join m n ihm ihn => exact .join (ihm hp) (ihn hp)
  | leftJoin conditioned m n ihm ihn =>
    exact .leftJoin (idleCondition_isSome conditioned) (ihm hp) (ihn hp)
  | union m n ihm ihn => exact .union (ihm hp) (ihn hp)
  | difference m n ihm ihn => exact .difference (ihm hp) (ihn rfl)
  | filter m ih => exact .filter (ih hp)

theorem fill_names {p : TriplePattern} (n : Nesting) :
    (fill p n).names ⊆ p.names ∧ p.names ⊆ (fill p n).certain := by
  induction n generalizing p with
  | pattern => exact ⟨List.Subset.refl _, List.Subset.refl _⟩
  | join m n ihm ihn =>
    exact ⟨List.append_subset.2 ⟨ihm.1, ihn.1⟩, List.subset_append_of_subset_left _ ihm.2⟩
  | leftJoin conditioned m n ihm ihn => exact ⟨List.append_subset.2 ⟨ihm.1, ihn.1⟩, ihm.2⟩
  | union m n ihm ihn =>
    refine ⟨List.append_subset.2 ⟨ihm.1, ihn.1⟩, ?_⟩
    intro name hname
    exact List.mem_filter.2 ⟨ihm.2 hname, decide_eq_true (ihn.2 hname)⟩
  | difference m n ihm ihn => exact ihm
  | filter m ih => exact ih

theorem fill_keeps {p : TriplePattern} (hp : "z" ∉ p.names) (n : Nesting) :
    ∀ {before around : List String}, "z" ∉ before → "z" ∉ around →
      (fill p n).Keeps before around := by
  have happend {xs : List String} {p : TriplePattern} {n : Nesting} (hxs : "z" ∉ xs)
      (hp : "z" ∉ p.names) : "z" ∉ xs ++ (fill p n).names := fun h =>
    (List.mem_append.1 h).elim hxs fun h => hp ((fill_names n).1 h)
  induction n generalizing p with
  | pattern => exact @fun _ _ _ _ => trivial
  | join m n ihm ihn =>
    intro before around hbefore haround
    exact ⟨ihm hp hbefore (happend haround hp),
      ihn hp (happend hbefore hp) (happend haround hp)⟩
  | leftJoin conditioned m n ihm ihn =>
    intro before around hbefore haround
    refine ⟨ihm hp hbefore (happend haround hp),
      ihn hp (List.not_mem_nil) (happend hbefore hp), ?_, ?_⟩
    · exact fun name _ hname => (fill_names m).2 ((fill_names n).1 hname)
    · intro e he name hname hmem
      rw [mem_idleCondition he, names_idle, List.mem_singleton] at hmem
      exact absurd (hmem ▸ hname) hbefore
  | union m n ihm ihn =>
    intro before around _ _
    exact ⟨ihm hp List.not_mem_nil List.not_mem_nil, ihn hp List.not_mem_nil List.not_mem_nil⟩
  | difference m n ihm ihn =>
    intro before around hbefore haround
    refine ⟨ihm hp hbefore haround, ihn List.not_mem_nil List.not_mem_nil List.not_mem_nil, ?_⟩
    exact fun name _ hname => nomatch (fill_names n).1 hname
  | filter m ih =>
    intro before around hbefore haround
    refine ⟨ih hp hbefore haround, ?_⟩
    intro name hname hmem
    rw [names_idle, List.mem_singleton] at hname
    exact absurd (hname ▸ hmem) haround

/-- The variables of the sample. -/
def shown : List String := ["x", "y"]

theorem not_binds_z {a : Solution} (h : a.Within shown) : ¬ a.Binds "z" := fun hz => by
  have hz := h "z" hz
  revert hz
  decide

/-- The tree has one solution, which its elements add to any other, and its conditions say
nothing. -/
structure Adds (l : Library) (b : Solution) (t : Tree) : Prop where
  solutions : ∀ x, x ∈ t.solutions l data ↔ x = b
  steps : ∀ a : Solution, a.Within shown → ∀ x,
    x ∈ steps l data none (written t) a ↔ a.Compatible b ∧ x = a.merge b
  conditions : ∀ x : Solution, x.Within shown → Expr.AllHold l (conditions (written t)) x

section

variable {l : Library} {p : TriplePattern} {b : Solution}

theorem allHold_idle {es : List Expr} {x : Solution} (hes : ∀ e ∈ es, e = idle)
    (hx : x.Within shown) : Expr.AllHold l es x := by
  intro e he
  rw [hes e he]
  exact holds_idle (not_binds_z hx)

theorem mem_fill (hp : ∀ x, x ∈ (Tree.pattern p).solutions l data ↔ x = b)
    (hb : b.Within shown) (n : Nesting) : ∀ x, x ∈ (fill p n).solutions l data ↔ x = b := by
  induction n generalizing p b with
  | pattern => exact hp
  | join m n ihm ihn =>
    intro x
    rw [fill, Tree.solutions, Solutions.mem_join]
    simp only [ihm hp hb, ihn hp hb, exists_eq_left, Solution.merge_self,
      iff_true_intro (Solution.compatible_self b), true_and]
  | leftJoin conditioned m n ihm ihn =>
    intro x
    have hholds : Expr.AllHold l (idleCondition conditioned).toList b :=
      allHold_idle (fun e he => mem_idleCondition he) hb
    rw [fill, Tree.solutions, Solutions.mem_leftJoin, Solutions.mem_join]
    simp only [ihm hp hb, ihn hp hb, exists_eq_left, forall_eq, Solution.merge_self,
      iff_true_intro (Solution.compatible_self b), true_and]
    constructor
    · rintro (⟨rfl, -⟩ | ⟨rfl, hnot⟩)
      · rfl
      · rfl
    · rintro rfl
      exact Or.inl ⟨rfl, hholds⟩
  | union m n ihm ihn =>
    intro x
    rw [fill, Tree.solutions, Multiset.mem_add, ihm hp hb, ihn hp hb, or_self_iff]
  | difference m n ihm ihn =>
    intro x
    rw [fill, Tree.solutions, Solutions.mem_minus]
    have hnone := ihn (@mem_asked_const l one · (Or.inl rfl)) (Solution.empty_within _)
    simp only [ihm hp hb, hnone, forall_eq]
    exact and_iff_left fun _ name => Or.inr rfl
  | filter m ih =>
    intro x
    rw [fill, Tree.solutions, Multiset.mem_filter, ih hp hb, and_iff_left_iff_imp]
    rintro rfl
    exact holds_idle (not_binds_z hb)

theorem conditions_fill (n : Nesting) : ∀ e ∈ conditions (written (fill p n)), e = idle := by
  induction n generalizing p with
  | pattern => exact fun _ he => nomatch he
  | join m n ihm ihn =>
    intro e he
    rw [fill, conditions_join] at he
    rcases List.mem_append.1 he with he | he
    · exact ihm e he
    · exact ihn e he
  | leftJoin conditioned m n ihm ihn =>
    intro e he
    rw [fill, conditions_leftJoin] at he
    exact ihm e he
  | union m n ihm ihn => exact fun _ he => nomatch he
  | difference m n ihm ihn =>
    intro e he
    rw [fill, conditions_difference] at he
    exact ihm e he
  | filter m ih =>
    intro e he
    rw [fill, conditions_filter] at he
    rcases List.mem_append.1 he with he | he
    · exact ih e he
    · exact List.mem_singleton.1 he

theorem adds_fill (hgraph : p.graph = none) (hnames : p.names ⊆ shown)
    (hp : ∀ x, x ∈ (Tree.pattern p).solutions l data ↔ x = b) (hb : b.Within shown)
    (n : Nesting) : Adds l b (fill p n) := by
  have hz : "z" ∉ shown := by decide
  have hsolutions := mem_fill hp hb n
  have hconditions : ∀ x : Solution, x.Within shown →
      Expr.AllHold l (conditions (written (fill p n))) x :=
    fun x => allHold_idle (conditions_fill n)
  refine ⟨hsolutions, ?_, hconditions⟩
  intro a ha x
  have hsays := says_of_keeps l data (of_fill hgraph n).graphless (List.Subset.refl shown)
    (fill_keeps (fun h => hz (hnames h)) n hz hz)
  have hwithin : ∀ y ∈ steps l data none (written (fill p n)) a, y.Within shown := by
    intro y hy
    obtain ⟨c, hc, -, rfl⟩ := hsays.within a y hy
    exact ha.merge (hc.mono (List.Subset.trans (fill_names n).1 hnames))
  have hjoin := hsays.join {a} (by simpa using ha)
  rw [Multiset.singleton_bind, Multiset.filter_eq_self.2 fun y hy => hconditions y (hwithin y hy)]
    at hjoin
  rw [hjoin, Solutions.mem_join]
  simp only [Multiset.mem_singleton, exists_eq_left, hsolutions]

end

/-! ### Three fillings -/

theorem given_within {name : String} {c : Constant} (hname : name ∈ shown) :
    (given name c).Within shown := by
  intro other hother
  rcases Solution.binds_assign.1 hother with rfl | hempty
  · exact hname
  · exact absurd rfl hempty

theorem adds_given (l : Library) (name : String) {c : Constant} (hname : name ∈ shown)
    (hc : c = one ∨ c = two) (n : Nesting) :
    Adds l (given name c) (fill (asked c (.var (.user name))) n) := by
  have hnames : (asked c (.var (.user name))).names ⊆ shown := by
    intro other hother
    cases List.mem_singleton.1 hother
    exact hname
  exact adds_fill rfl hnames (fun _ => mem_asked_var hc) (given_within hname) n

theorem exists_adds_given (l : Library) {name : String} {c : Constant} (hname : name ∈ shown)
    (hc : c = one ∨ c = two) (n : Nesting) : ∃ t, n.Of t ∧ Adds l (given name c) t :=
  ⟨_, of_fill rfl n, adds_given l name hname hc n⟩

theorem exists_adds_empty (l : Library) (n : Nesting) :
    ∃ t, n.Of t ∧ Adds l Solution.empty t :=
  ⟨_, of_fill rfl n, adds_fill rfl (List.nil_subset _)
    (fun _ => mem_asked_const (Or.inl rfl)) (Solution.empty_within _) n⟩

end RdfQuery.Sparql.Sample
