import RdfQuery.Proofs.Query.Slices

/-!
# Describe queries as construct queries

A tree is rewritten if it has a describe projection and there are targets.
The rewriting neither reads nor writes bounds: it keeps the number of slices,
and it makes no difference whether bounds are written before it or after it.
-/

set_option autoImplicit false

namespace RdfQuery

namespace Describe

theorem condition?_eq_none {targets : List Term} : condition? targets = none ↔ targets = [] := by
  cases targets with
  | nil => exact ⟨fun _ => rfl, fun _ => rfl⟩
  | cons target targets => exact ⟨nofun, nofun⟩

/-- The node is a projection for describing. -/
def isProjection : Tree → Bool
  | .modify (.select s) _ => isMarked s
  | .bare s => isMarked s
  | _ => false

theorem extend?_eq_none {added u : Tree} : extend? added u = none ↔ isProjection u = false := by
  unfold extend? isProjection
  split
  · split <;> simp_all
  · split <;> simp_all
  · simp

variable {added : Tree} (hadded : added.count .slice = 0)

include hadded

theorem extend?_rebound (limit offset : Option Nat) (u : Tree) :
    extend? added (u.rebound limit offset) = (extend? added u).map (Tree.rebound limit offset) := by
  cases u with
  | modify mo arg =>
    cases mo with
    | select s =>
      by_cases hs : isMarked s = true
      · simp [extend?, Tree.rebound, Modifier.rebound, Tree.join, hs,
          Tree.rebound_eq_self limit offset hadded]
      · simp [extend?, Tree.rebound, Modifier.rebound, hs]
    | _ => rfl
  | bare s =>
    by_cases hs : isMarked s = true
    · simp [extend?, Tree.rebound, Modifier.rebound, hs, Tree.rebound_eq_self limit offset hadded]
    · simp [extend?, Tree.rebound, hs]
  | _ => rfl

theorem slices_extend? {u u' : Tree} (h : extend? added u = some u') :
    u'.count .slice = u.count .slice := by
  unfold extend? at h
  split at h
  · rename_i s arg
    split at h <;> cases h
    have hselect : (Modifier.select s).kind ≠ .slice := s.kind_ne_slice
    rw [Tree.slices_modify hselect, Tree.slices_modify hselect, Tree.join, Tree.slices_combine,
      hadded, Nat.add_zero]
  · rename_i s
    split at h <;> cases h
    have hselect : (Modifier.select s).kind ≠ .slice := s.kind_ne_slice
    rw [Tree.slices_modify hselect, hadded, Tree.slices_bare]
  · cases h

end Describe

namespace Tree

theorem isDescribe_eq_false {t : Tree} :
    t.isDescribe = false ↔ ∀ u ∈ t.subtrees, Describe.isProjection u = false := by
  rw [show t.isDescribe = t.subtrees.any Describe.isProjection from rfl, List.any_eq_false]
  simp only [Bool.not_eq_true]

/-- The statements about the targets, as they are joined to the body of a describe query. -/
def mentioning (scope : Scope) (condition : Expr) : Tree :=
  .filter (.pattern (Describe.statement scope)) condition

theorem slices_mentioning (scope : Scope) (condition : Expr) :
    (mentioning scope condition).count .slice = 0 := by
  rw [mentioning, slices_filter]
  rfl

/-- What the rewriting gives, in one equation. -/
theorem describe_eq (t : Tree) (targets : List Term) (scope : Scope) :
    t.describe targets scope =
      match Describe.condition? targets with
      | none => .error .noTargets
      | some condition =>
        match t.amendFirst? (Describe.extend? (mentioning scope condition)) with
        | some t' => .ok t'
        | none => .error .noDescribeProjection :=
  rfl

theorem describe_isOk {t : Tree} {targets : List Term} {scope : Scope} :
    (∃ t', t.describe targets scope = .ok t') ↔ targets ≠ [] ∧ t.isDescribe = true := by
  rw [describe_eq, ne_eq, ← Describe.condition?_eq_none]
  cases Describe.condition? targets with
  | none => simp
  | some condition =>
    have hfind := t.amendFirst?_eq_none (f := Describe.extend? (mentioning scope condition))
    simp only [Describe.extend?_eq_none, ← isDescribe_eq_false] at hfind
    simp only [← Bool.not_eq_false, ← hfind]
    cases t.amendFirst? (Describe.extend? (mentioning scope condition)) <;> simp

theorem slices_describe {t t' : Tree} {targets : List Term} {scope : Scope}
    (h : t.describe targets scope = .ok t') : t'.count .slice = t.count .slice := by
  rw [describe_eq] at h
  split at h
  · cases h
  · rename_i condition _
    split at h
    · rename_i hamend
      cases h
      exact count_amendFirst?
        (fun u u' => Describe.slices_extend? (slices_mentioning scope condition)) hamend
    · cases h

variable (limit offset : Option Nat)

theorem amendFirst?_withBounds {added : Tree} (hadded : added.count .slice = 0) (t : Tree) :
    (t.withBounds limit offset).amendFirst? (Describe.extend? added) =
      (t.amendFirst? (Describe.extend? added)).map (withBounds limit offset) := by
  have hcount : ∀ t', t.amendFirst? (Describe.extend? added) = some t' →
      t'.count .slice = t.count .slice :=
    fun t' => count_amendFirst? fun u u' => Describe.slices_extend? hadded
  by_cases hnone : t.count .slice = 0
  · rw [withBounds, if_pos hnone]
    simp only [amendFirst?, Describe.extend?]
    apply Option.map_congr
    intro t' ht'
    rw [withBounds, if_pos (by rw [hcount t' ht', hnone])]
  · rw [withBounds, if_neg hnone,
      amendFirst?_rebound limit offset (Describe.extend?_rebound hadded limit offset)]
    apply Option.map_congr
    intro t' ht'
    rw [withBounds, if_neg (by rw [hcount t' ht']; exact hnone)]

/-- Bounds are written alike before and after the rewriting, which fails alike. -/
theorem describe_withBounds (t : Tree) (targets : List Term) (scope : Scope) :
    (t.withBounds limit offset).describe targets scope =
      (t.describe targets scope).map (withBounds limit offset) := by
  rw [describe_eq, describe_eq]
  cases Describe.condition? targets with
  | none => rfl
  | some condition =>
    simp only [amendFirst?_withBounds limit offset (slices_mentioning scope condition)]
    cases t.amendFirst? (Describe.extend? (mentioning scope condition)) <;> rfl

end Tree

end RdfQuery
