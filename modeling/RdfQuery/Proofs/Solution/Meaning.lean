import Mathlib.Data.Finset.Defs
import RdfQuery.Proofs.Solution.Values
import RdfQuery.Tree.Basic

/-!
# The meaning of a body

Triple patterns are matched against a set of quads, and the operators above
them work from the leaves to the root. A variable stands for whatever it is
matched with. A label stands for one node, and since a text shows each label
in its place, the node is the same in a tree and in its text. A label that
behaves like a variable needs no rule of its own: its tree is the one with a
variable there, which no projection names, and that tree has a meaning here.
What is read from a text is compared with it in `Sparql.unlabelled_preserved`.
-/

set_option autoImplicit false

namespace RdfQuery

open scoped Classical

/-- A triple, in a named graph or in the default graph. -/
structure Quad where
  graph : Option Constant
  subject : Constant
  predicate : Constant
  object : Constant
  deriving DecidableEq

def Solution.assign (a : Solution) (name : String) (c : Constant) : Solution :=
  fun other => if other = name then some c else a other

theorem Solution.binds_assign {a : Solution} {name other : String} {c : Constant} :
    (a.assign name c).Binds other ↔ other = name ∨ a.Binds other := by
  by_cases h : other = name
  · simp [Binds, assign, h]
  · simp [Binds, assign, h]

/-! ## Matching -/

def Term.names (t : Term) : List String := t.variables.map Variable.name

/-- A term matches a constant where its variable has that value or none yet. -/
def Term.match? : Term → Constant → Solution → Option Solution
  | .const d, c, a => if d = c then some a else none
  | .var v, c, a =>
    match a v.name with
    | none => some (a.assign v.name c)
    | some d => if d = c then some a else none

def TriplePattern.names (p : TriplePattern) : List String := p.terms.flatMap Term.names

def TriplePattern.graphMatch? (p : TriplePattern) (s : Quad) (a : Solution) :
    Option Solution :=
  match p.graph, s.graph with
  | none, none => some a
  | some g, some c => g.match? c a
  | _, _ => none

def TriplePattern.match? (p : TriplePattern) (s : Quad) : Option Solution := do
  let a ← p.subject.match? s.subject Solution.empty
  let a ← p.predicate.match? s.predicate a
  let a ← p.object.match? s.object a
  p.graphMatch? s a

theorem Term.binds_match? {t : Term} {c : Constant} {a x : Solution} (h : t.match? c a = some x)
    (name : String) : x.Binds name ↔ a.Binds name ∨ name ∈ t.names := by
  cases t with
  | const d =>
    rw [match?] at h
    split at h
    · cases h
      simp [names, Term.variables]
    · cases h
  | var v =>
    have hnames : name ∈ (Term.var v).names ↔ name = v.name := by simp [names, Term.variables]
    rw [hnames]
    rw [match?] at h
    split at h
    · cases h
      rw [Solution.binds_assign]
      exact or_comm
    · rename_i d hd
      split at h
      · cases h
        constructor
        · exact Or.inl
        · rintro (h | rfl)
          · exact h
          · rw [Solution.Binds, hd]
            exact Option.some_ne_none d
      · cases h

theorem TriplePattern.binds_graphMatch? {p : TriplePattern} {s : Quad} {a x : Solution}
    (h : p.graphMatch? s a = some x) (name : String) :
    x.Binds name ↔ a.Binds name ∨ name ∈ p.graph.toList.flatMap Term.names := by
  rw [graphMatch?] at h
  split at h
  · rename_i hgraph _
    cases h
    simp [hgraph]
  · rename_i g c hgraph _
    rw [Term.binds_match? h, hgraph]
    simp
  · cases h

/-- A match binds the variables of the pattern and no others. -/
theorem TriplePattern.binds_match? {p : TriplePattern} {s : Quad} {x : Solution}
    (h : p.match? s = some x) (name : String) : x.Binds name ↔ name ∈ p.names := by
  simp only [match?, Option.bind_eq_bind, Option.bind_eq_some_iff] at h
  obtain ⟨a, ha, b, hb, c, hc, hx⟩ := h
  have hempty : ¬ Solution.empty.Binds name := fun h => h rfl
  have hnames : name ∈ p.names ↔ ((name ∈ p.subject.names ∨ name ∈ p.predicate.names) ∨
      name ∈ p.object.names) ∨ name ∈ p.graph.toList.flatMap Term.names := by
    simp only [names, terms, List.flatMap_append, List.flatMap_cons, List.flatMap_nil,
      List.append_nil, List.mem_append, or_assoc]
  rw [binds_graphMatch? hx, Term.binds_match? hc, Term.binds_match? hb, Term.binds_match? ha,
    or_iff_right hempty, hnames]

/-! ## Bodies -/

namespace Tree

/-- The solutions of a body. What shapes solutions is no part of a body and is given none. -/
noncomputable def solutions (l : Library) (data : Finset Quad) : Tree → Multiset Solution
  | .unit => {Solution.empty}
  | .pattern p => data.val.filterMap p.match?
  | .combine .join left right =>
    Solutions.join (solutions l data left) (solutions l data right)
  | .combine (.leftJoin condition) left right =>
    Solutions.leftJoin (Expr.AllHold l condition.toList) (solutions l data left)
      (solutions l data right)
  | .combine .union left right => solutions l data left + solutions l data right
  | .combine .difference left right =>
    Solutions.minus (solutions l data left) (solutions l data right)
  | .combine .intersection left right =>
    (solutions l data left).filter fun a => a ∈ solutions l data right
  | .filter arg condition => (solutions l data arg).filter fun a => condition.Holds l a
  | .modify _ _ => 0
  | .bare _ => 0

/-- The variables that a solution may bind. -/
def names : Tree → List String
  | .unit => []
  | .pattern p => p.names
  | .combine .difference left _ => names left
  | .combine .intersection left _ => names left
  | .combine _ left right => names left ++ names right
  | .filter arg _ => names arg
  | .modify _ _ => []
  | .bare _ => []

/-- Variables that every solution binds. -/
def certain : Tree → List String
  | .unit => []
  | .pattern p => p.names
  | .combine .join left right => certain left ++ certain right
  | .combine .union left right => (certain left).filter fun name => name ∈ certain right
  | .combine _ left _ => certain left
  | .filter arg _ => certain arg
  | .modify _ _ => []
  | .bare _ => []

theorem solutions_within {l : Library} {data : Finset Quad} {t : Tree} :
    ∀ x ∈ t.solutions l data, x.Within t.names := by
  induction t with
  | unit =>
    intro x hx
    rw [Multiset.mem_singleton.1 hx]
    exact Solution.empty_within _
  | pattern p =>
    intro x hx name hname
    obtain ⟨s, -, hs⟩ := (Multiset.mem_filterMap _ _).1 hx
    exact (TriplePattern.binds_match? hs name).1 hname
  | combine c left right ihl ihr =>
    have hleft : ∀ x ∈ left.solutions l data, x.Within (left.names ++ right.names) :=
      fun x hx => (ihl x hx).mono (List.subset_append_left _ _)
    have hright : ∀ x ∈ right.solutions l data, x.Within (left.names ++ right.names) :=
      fun x hx => (ihr x hx).mono (List.subset_append_right _ _)
    have hjoin : ∀ x ∈ Solutions.join (left.solutions l data) (right.solutions l data),
        x.Within (left.names ++ right.names) := by
      intro x hx
      obtain ⟨a, ha, b, hb, -, rfl⟩ := Solutions.mem_join.1 hx
      exact (hleft a ha).merge (hright b hb)
    intro x hx
    cases c with
    | join => exact hjoin x hx
    | leftJoin condition =>
      rcases Solutions.mem_leftJoin.1 hx with hx | hx
      · exact hjoin x hx.1
      · exact hleft x hx.1
    | union =>
      rcases Multiset.mem_add.1 hx with hx | hx
      · exact hleft x hx
      · exact hright x hx
    | difference => exact ihl x (Solutions.mem_minus.1 hx).1
    | intersection => exact ihl x (Multiset.mem_of_mem_filter hx)
  | filter arg condition ih => exact fun x hx => ih x (Multiset.mem_of_mem_filter hx)
  | modify mo arg ih => exact fun x hx => absurd hx (Multiset.notMem_zero x)
  | bare s => exact fun x hx => absurd hx (Multiset.notMem_zero x)

theorem solutions_bind_certain {l : Library} {data : Finset Quad} {t : Tree} :
    ∀ x ∈ t.solutions l data, ∀ name ∈ t.certain, x.Binds name := by
  induction t with
  | unit => exact fun _ _ _ h => nomatch h
  | pattern p =>
    intro x hx name hname
    obtain ⟨s, -, hs⟩ := (Multiset.mem_filterMap _ _).1 hx
    exact (TriplePattern.binds_match? hs name).2 hname
  | combine c left right ihl ihr =>
    intro x hx name hname
    cases c with
    | join =>
      obtain ⟨a, ha, b, hb, -, rfl⟩ := Solutions.mem_join.1 hx
      rw [Solution.binds_merge]
      rcases List.mem_append.1 hname with hname | hname
      · exact Or.inl (ihl a ha name hname)
      · exact Or.inr (ihr b hb name hname)
    | leftJoin condition =>
      rcases Solutions.mem_leftJoin.1 hx with hx | hx
      · obtain ⟨a, ha, b, hb, -, rfl⟩ := Solutions.mem_join.1 hx.1
        exact Solution.binds_merge.2 (Or.inl (ihl a ha name hname))
      · exact ihl x hx.1 name hname
    | union =>
      rw [certain, List.mem_filter, decide_eq_true_eq] at hname
      rcases Multiset.mem_add.1 hx with hx | hx
      · exact ihl x hx name hname.1
      · exact ihr x hx name hname.2
    | difference => exact ihl x (Solutions.mem_minus.1 hx).1 name hname
    | intersection => exact ihl x (Multiset.mem_of_mem_filter hx) name hname
  | filter arg condition ih => exact fun x hx => ih x (Multiset.mem_of_mem_filter hx)
  | modify mo arg ih => exact fun x hx => absurd hx (Multiset.notMem_zero x)
  | bare s => exact fun x hx => absurd hx (Multiset.notMem_zero x)

end Tree

end RdfQuery
