import Mathlib.Data.List.Basic
import RdfQuery.Query.Describe

/-!
# Trees amended at their first fitting node

A tree is amended at the first node, parents first, that an amendment fits.
It is left as it is only if no node fits, and what the amended node keeps the
whole tree keeps. Of slices in particular: a tree with one slice has its bounds
written there, a tree without slices has none to write to.
-/

set_option autoImplicit false

namespace RdfQuery.Tree

/-! ## Counting nodes -/

theorem count_combine (k : Kind) (c : Combination) (l r : Tree) :
    (combine c l r).count k = l.count k + r.count k + if c.kind = k then 1 else 0 := by
  simp only [count, subtrees, List.countP_cons, List.countP_append, decide_eq_true_eq]
  rfl

theorem count_filter (k : Kind) (arg : Tree) (e : Expr) :
    (filter arg e).count k = arg.count k + if Kind.filter = k then 1 else 0 := by
  simp only [count, subtrees, List.countP_cons, decide_eq_true_eq]
  rfl

theorem count_modify (k : Kind) (mo : Modifier) (arg : Tree) :
    (modify mo arg).count k = arg.count k + if mo.kind = k then 1 else 0 := by
  simp only [count, subtrees, List.countP_cons, decide_eq_true_eq]
  rfl

theorem count_eq_zero {k : Kind} {t : Tree} : t.count k = 0 ↔ ∀ u ∈ t.subtrees, u.kind ≠ k := by
  simp [count, List.countP_eq_zero]

/-- A kind that is not among those of the nodes does not occur. -/
theorem count_eq_zero_of_kinds {k : Kind} {kinds : List Kind} {t : Tree} (hk : k ∉ kinds)
    (h : ∀ u ∈ t.subtrees, u.kind ∈ kinds) : t.count k = 0 :=
  count_eq_zero.2 fun u hu hkind => hk (hkind ▸ h u hu)

/-! ## The first fitting node -/

theorem amendFirst?_eq_none {f : Tree → Option Tree} {t : Tree} :
    t.amendFirst? f = none ↔ ∀ u ∈ t.subtrees, f u = none := by
  induction t with
  | unit => simp [amendFirst?, subtrees]
  | pattern p => simp [amendFirst?, subtrees]
  | combine c l r ihl ihr =>
    simp only [amendFirst?, subtrees, List.forall_mem_cons, List.forall_mem_append, ← ihl, ← ihr]
    cases f (combine c l r) <;> cases l.amendFirst? f <;> simp
  | filter arg e ih =>
    simp only [amendFirst?, subtrees, List.forall_mem_cons, ← ih]
    cases f (filter arg e) <;> simp
  | modify mo arg ih =>
    simp only [amendFirst?, subtrees, List.forall_mem_cons, ← ih]
    cases f (modify mo arg) <;> simp
  | bare s => simp [amendFirst?, subtrees]

/-- The tree has as many nodes of a kind as before if this is so at the amended node. -/
theorem count_amendFirst? {k : Kind} {f : Tree → Option Tree}
    (hf : ∀ u u', f u = some u' → u'.count k = u.count k) {t t' : Tree}
    (h : t.amendFirst? f = some t') : t'.count k = t.count k := by
  induction t generalizing t' with
  | unit => exact hf _ _ h
  | pattern p => exact hf _ _ h
  | combine c l r ihl ihr =>
    simp only [amendFirst?] at h
    split at h
    · rename_i u hu
      cases h
      exact hf _ _ hu
    · split at h
      · rename_i l' hl
        cases h
        rw [count_combine, count_combine, ihl hl]
      · obtain ⟨r', hr, rfl⟩ := Option.map_eq_some_iff.1 h
        rw [count_combine, count_combine, ihr hr]
  | filter arg e ih =>
    simp only [amendFirst?] at h
    split at h
    · rename_i u hu
      cases h
      exact hf _ _ hu
    · obtain ⟨arg', harg, rfl⟩ := Option.map_eq_some_iff.1 h
      rw [count_filter, count_filter, ih harg]
  | modify mo arg ih =>
    simp only [amendFirst?] at h
    split at h
    · rename_i u hu
      cases h
      exact hf _ _ hu
    · obtain ⟨arg', harg, rfl⟩ := Option.map_eq_some_iff.1 h
      rw [count_modify, count_modify, ih harg]
  | bare s => exact hf _ _ h

end RdfQuery.Tree
