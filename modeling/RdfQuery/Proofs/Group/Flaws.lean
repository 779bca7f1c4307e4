import RdfQuery.Proofs.Group.Calls

/-!
# Groups without a tree

A group is flawed if there is nothing in it, or if it is a union of other than
two sides. A group has a tree unless it or a group inside it is flawed, and
the error is that of the first flawed group, parents first.
-/

set_option autoImplicit false

namespace RdfQuery.Group

mutual

/-- The group and all groups inside it, each before those inside it. -/
def subgroups : Group → List Group
  | ⟨isUnion, optional, body, children, filters⟩ =>
    ⟨isUnion, optional, body, children, filters⟩ :: subgroupsAll children

def subgroupsAll : List Group → List Group
  | [] => []
  | g :: gs => subgroups g ++ subgroupsAll gs

end

theorem subgroupsAll_eq_flatMap (gs : List Group) : subgroupsAll gs = gs.flatMap subgroups := by
  induction gs with
  | nil => rfl
  | cons g gs ih => rw [subgroupsAll, List.flatMap_cons, ih]

/-- What is wrong with a group, whatever the groups inside it are. -/
def flaw? (g : Group) : Option BuildError :=
  if g.isEmpty then some .emptyGroup
  else if g.isUnion && g.children.length != 2 then some (.unionArity g.children.length)
  else none

theorem findSome?_flaw_of_lifted {g : Group} {right : Tree} {condition : Expr}
    (h : g.lifted? = some (right, condition)) : g.subgroups.findSome? flaw? = none := by
  unfold lifted? at h
  split at h
  · rename_i body filter
    split at h
    · obtain ⟨t, ht, -⟩ := Option.map_eq_some_iff.1 h
      cases body with
      | nil => cases ht
      | cons u us => rfl
    · cases h
  · cases h

theorem compileSides_of_length_ne : ∀ (given : Nat) {gs : List Group}, gs.length ≠ 2 →
    compileSides given gs = .error (.unionArity given)
  | _, [], _ => rfl
  | _, [_], _ => rfl
  | _, [_, _], h => absurd rfl h
  | _, _ :: _ :: _ :: _, _ => rfl

/-- Where there is a tree to begin with or a child, there is a tree in the end. -/
theorem compileChildren_ne_none {acc : Option Tree} {gs : List Group}
    (h : acc.isSome = true ∨ gs ≠ []) : compileChildren acc gs ≠ .ok none := by
  induction gs generalizing acc with
  | nil =>
    intro hnone
    cases hnone
    exact h.elim nofun fun hne => hne rfl
  | cons g gs ih =>
    intro hnone
    rw [compileChildren] at hnone
    split at hnone
    · exact ih (Or.inl rfl) hnone
    · obtain ⟨right, -, hnone⟩ := Outcome.bind_eq_ok.1 hnone
      exact ih (Or.inl rfl) hnone

mutual

theorem error?_compile : ∀ g : Group, Outcome.error? g.compile = g.subgroups.findSome? flaw?
  | ⟨isUnion, optional, body, children, filters⟩ => by
    rw [subgroups, List.findSome?_cons, compile]
    by_cases hempty : (body.isEmpty && children.isEmpty) = true
    · simp only [flaw?, isEmpty, if_pos hempty]
      rfl
    simp only [flaw?, isEmpty, if_neg hempty]
    cases isUnion with
    | true =>
      rw [if_pos rfl, Outcome.error?_bind_ok]
      by_cases hsides : children.length = 2
      · simpa [hsides] using error?_compileSides children.length children hsides
      · simp [hsides, compileSides_of_length_ne children.length hsides, Outcome.error?]
    | false =>
      have hsome : (Tree.joined? body |>.map fun t => t.filtered filters).isSome = true ∨
          children ≠ [] := by
        cases body with
        | nil =>
          refine Or.inr fun hnil => hempty ?_
          rw [hnil]
          rfl
        | cons u us => exact Or.inl rfl
      have hchildren := error?_compileChildren
        ((Tree.joined? body).map fun t => t.filtered filters) children
      simp only [Bool.false_eq_true, if_false, Bool.false_and, ← hchildren]
      cases hcompile : compileChildren ((Tree.joined? body).map fun t => t.filtered filters)
          children with
      | error e => rfl
      | ok t =>
        cases t with
        | none => exact absurd hcompile (compileChildren_ne_none hsome)
        | some t => rfl

theorem error?_compileSides : ∀ (given : Nat) (gs : List Group), gs.length = 2 →
    Outcome.error? (compileSides given gs) = (subgroupsAll gs).findSome? flaw?
  | _, [left, right], _ => by
    have hleft := error?_compile left
    have hright := error?_compile right
    simp only [compileSides, subgroupsAll, List.append_nil, List.findSome?_append, ← hleft,
      ← hright]
    exact Outcome.error?_bind fun l _ => Outcome.error?_bind_ok _ _
  | _, [], h => by cases h
  | _, [_], h => by cases h
  | _, _ :: _ :: _ :: _, h => by cases h

theorem error?_compileChildren : ∀ (acc : Option Tree) (gs : List Group),
    Outcome.error? (compileChildren acc gs) = (subgroupsAll gs).findSome? flaw?
  | _, [] => rfl
  | acc, g :: gs => by
    rw [compileChildren, subgroupsAll, List.findSome?_append]
    split
    · rename_i right condition hlifted
      rw [findSome?_flaw_of_lifted hlifted, Option.none_or]
      exact error?_compileChildren _ gs
    · rw [← error?_compile g]
      exact Outcome.error?_bind fun right _ => error?_compileChildren _ gs

end

end RdfQuery.Group
