import RdfQuery.GraphMap

/-!
# Nodes at paths

A path of child numbers leads from the root of a tree to one of its nodes, and
the same path leads to what a graph map says of that node. The collected map of
a tree says of each subtree what a map collected from the subtree alone would
say, except for the graph that the node above may have taken.
-/

set_option autoImplicit false

namespace RdfQuery

namespace Tree

/-- One step of a path. -/
inductive Child : Tree → Nat → Tree → Prop where
  | left (c : Combination) (l r : Tree) : Child (.combine c l r) 0 l
  | right (c : Combination) (l r : Tree) : Child (.combine c l r) 1 r
  | filter (arg : Tree) (e : Expr) : Child (.filter arg e) 0 arg
  | modify (mo : Modifier) (arg : Tree) : Child (.modify mo arg) 0 arg

theorem children_eq_some {t u : Tree} {i : Nat} : t.children[i]? = some u ↔ Child t i u := by
  constructor
  · intro h
    cases t with
    | combine c left right =>
      match i, h with
      | 0, h =>
        cases h
        exact .left _ _ _
      | 1, h =>
        cases h
        exact .right _ _ _
    | filter arg e =>
      match i, h with
      | 0, h =>
        cases h
        exact .filter _ _
    | modify mo arg =>
      match i, h with
      | 0, h =>
        cases h
        exact .modify _ _
    | unit => cases h
    | pattern p => cases h
    | bare s => cases h
  · intro h
    cases h <;> rfl

theorem at?_cons {t u : Tree} {i : Nat} {path : List Nat} :
    t.at? (i :: path) = some u ↔ ∃ child, Child t i child ∧ child.at? path = some u := by
  simp only [at?, Option.bind_eq_some_iff, children_eq_some]

theorem at?_append (path rest : List Nat) (t : Tree) :
    t.at? (path ++ rest) = (t.at? path).bind (at? rest) := by
  induction path generalizing t with
  | nil => rfl
  | cons i path ih =>
    rw [List.cons_append, at?, at?]
    cases t.children[i]? with
    | none => rfl
    | some child => exact ih child

theorem Child.subtrees {t u : Tree} {i : Nat} (h : Child t i u) : u.subtrees ⊆ t.subtrees := by
  cases h with
  | left c l r => exact List.subset_cons_of_subset _ (List.subset_append_left _ _)
  | right c l r => exact List.subset_cons_of_subset _ (List.subset_append_right _ _)
  | filter arg e => exact List.subset_cons_self _ _
  | modify mo arg => exact List.subset_cons_self _ _

/-- The subtrees are what paths lead to. -/
theorem mem_subtrees_of_at? {t u : Tree} {path : List Nat} (h : t.at? path = some u) :
    u ∈ t.subtrees := by
  induction path generalizing t with
  | nil =>
    cases h
    cases u <;> exact List.mem_cons_self
  | cons i path ih =>
    obtain ⟨child, hchild, h⟩ := at?_cons.1 h
    exact hchild.subtrees (ih h)

end Tree

namespace GraphMap

/-! ## Maps at paths -/

def child (m : GraphMap) : Nat → GraphMap
  | 0 => m.left
  | 1 => m.right
  | _ => .empty

def follow (m : GraphMap) : List Nat → GraphMap
  | [] => m
  | i :: path => (m.child i).follow path

/-- The graph that the node at a path enters. -/
def graphAt (m : GraphMap) (path : List Nat) : Option Term := (m.follow path).graph?

theorem follow_append (path rest : List Nat) (m : GraphMap) :
    m.follow (path ++ rest) = (m.follow path).follow rest := by
  induction path generalizing m with
  | nil => rfl
  | cons i path ih => exact ih (m.child i)

theorem graphAt_append (path rest : List Nat) (m : GraphMap) :
    m.graphAt (path ++ rest) = (m.follow path).graphAt rest := by
  rw [graphAt, follow_append, graphAt]

theorem graph?_place (taken : Bool) (t : Tree) :
    (place taken t).graph? = if taken then none else claim t := by
  cases t with
  | unit => cases taken <;> rfl
  | pattern p => rfl
  | combine c l r => rfl
  | filter arg e => rfl
  | modify mo arg => cases taken <;> rfl
  | bare s => cases taken <;> rfl

theorem child_place {t u : Tree} {i : Nat} (h : Tree.Child t i u) (taken : Bool) :
    ∃ taken', (place taken t).child i = place taken' u := by
  cases h <;> exact ⟨_, rfl⟩

theorem follow_place {t u : Tree} {path : List Nat} (h : t.at? path = some u) (taken : Bool) :
    ∃ taken', (place taken t).follow path = place taken' u := by
  induction path generalizing t taken with
  | nil =>
    cases h
    exact ⟨taken, rfl⟩
  | cons i path ih =>
    obtain ⟨child, hchild, h⟩ := Tree.at?_cons.1 h
    obtain ⟨taken', hplace⟩ := child_place hchild taken
    rw [follow, hplace]
    exact ih h taken'

/-- A node that enters a graph claims it. -/
theorem claim_of_graphAt {t u : Tree} {path : List Nat} (h : t.at? path = some u) {g : Term}
    (hg : (collect t).graphAt path = some g) : claim u = some g := by
  obtain ⟨taken, hplace⟩ := follow_place h false
  rw [graphAt, collect, hplace, graph?_place] at hg
  cases taken with
  | true => cases hg
  | false => exact hg

theorem graphAt_empty (path : List Nat) : empty.graphAt path = none := by
  induction path with
  | nil => rfl
  | cons i path ih =>
    match i with
    | 0 => exact ih
    | 1 => exact ih
    | _ + 2 => exact ih

theorem child_place_of_none {t : Tree} {i : Nat} (h : t.children[i]? = none) (taken : Bool) :
    (place taken t).child i = .empty := by
  cases t with
  | unit => match i with
    | 0 => rfl
    | 1 => rfl
    | _ + 2 => rfl
  | pattern p => match i with
    | 0 => rfl
    | 1 => rfl
    | _ + 2 => rfl
  | combine c left right => match i, h with
    | _ + 2, _ => rfl
  | filter arg e => match i, h with
    | 1, _ => rfl
    | _ + 2, _ => rfl
  | modify mo arg => match i, h with
    | 1, _ => rfl
    | _ + 2, _ => rfl
  | bare s => match i with
    | 0 => rfl
    | 1 => rfl
    | _ + 2 => rfl

/-- Where there is no node, no graph is entered. -/
theorem exists_of_graphAt {t : Tree} {taken : Bool} {path : List Nat} {g : Term}
    (h : (place taken t).graphAt path = some g) : ∃ u, t.at? path = some u := by
  induction path generalizing t taken with
  | nil => exact ⟨t, rfl⟩
  | cons i path ih =>
    cases hchild : t.children[i]? with
    | none =>
      rw [graphAt, follow, child_place_of_none hchild] at h
      exact absurd ((graphAt_empty path).symm.trans h) nofun
    | some child =>
      obtain ⟨taken', hplace⟩ := child_place (Tree.children_eq_some.1 hchild) taken
      rw [graphAt, follow, hplace] at h
      obtain ⟨u, hu⟩ := ih h
      exact ⟨u, Tree.at?_cons.2 ⟨child, Tree.children_eq_some.1 hchild, hu⟩⟩

end GraphMap

end RdfQuery
