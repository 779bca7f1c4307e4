import RdfQuery.Proofs.Amending
import RdfQuery.Query.Amendments

/-!
# Bounds written to a tree

Writing bounds changes the slices of a tree and nothing else: a bound that is
given replaces the old one, and a tree without slices gets one at its root.
With at most one slice the call is never refused, a later write overrides an
earlier one, and bounds that are not written stay.
-/

set_option autoImplicit false

namespace RdfQuery

/-! ## All slices of a tree -/

def Modifier.rebound (limit offset : Option Nat) : Modifier → Modifier
  | .slice oldLimit oldOffset => .slice (limit.or oldLimit) (offset.or oldOffset)
  | mo => mo

theorem Modifier.kind_rebound (limit offset : Option Nat) (mo : Modifier) :
    (mo.rebound limit offset).kind = mo.kind := by
  cases mo <;> rfl

theorem Modifier.rebound_of_kind_ne {mo : Modifier} (h : mo.kind ≠ .slice)
    (limit offset : Option Nat) : mo.rebound limit offset = mo := by
  cases mo with
  | slice l o => exact absurd rfl h
  | _ => rfl

theorem Selection.kind_ne_slice (s : Selection) : s.kind ≠ .slice := by
  cases s <;> nofun

theorem Combination.kind_ne_slice (c : Combination) : c.kind ≠ .slice := by
  cases c <;> nofun

namespace Tree

/-- The tree with these bounds in all its slices; bounds that are not given stay. -/
def rebound (limit offset : Option Nat) : Tree → Tree
  | .unit => .unit
  | .pattern p => .pattern p
  | .combine c left right => .combine c (rebound limit offset left) (rebound limit offset right)
  | .filter arg condition => .filter (rebound limit offset arg) condition
  | .modify mo arg => .modify (mo.rebound limit offset) (rebound limit offset arg)
  | .bare s => .bare s

theorem slices_combine (c : Combination) (l r : Tree) :
    (combine c l r).count .slice = l.count .slice + r.count .slice := by
  rw [count_combine, if_neg c.kind_ne_slice, Nat.add_zero]

theorem slices_filter (arg : Tree) (e : Expr) : (filter arg e).count .slice = arg.count .slice := by
  rw [count_filter, if_neg nofun, Nat.add_zero]

theorem slices_slice (limit offset : Option Nat) (arg : Tree) :
    (modify (.slice limit offset) arg).count .slice = arg.count .slice + 1 := by
  rw [count_modify, if_pos (show (Modifier.slice limit offset).kind = .slice from rfl)]

theorem slices_modify {mo : Modifier} (h : mo.kind ≠ .slice) (arg : Tree) :
    (modify mo arg).count .slice = arg.count .slice := by
  rw [count_modify, if_neg h, Nat.add_zero]

theorem slices_bare (s : Selection) : (bare s).count .slice = 0 := by
  rw [count_eq_zero, subtrees, List.forall_mem_singleton]
  exact s.kind_ne_slice

variable (limit offset : Option Nat)

theorem count_rebound (k : Kind) (t : Tree) : (t.rebound limit offset).count k = t.count k := by
  induction t with
  | unit => rfl
  | pattern p => rfl
  | combine c l r ihl ihr => rw [rebound, count_combine, count_combine, ihl, ihr]
  | filter arg e ih => rw [rebound, count_filter, count_filter, ih]
  | modify mo arg ih => rw [rebound, count_modify, count_modify, ih, Modifier.kind_rebound]
  | bare s => rfl

theorem rebound_eq_self {t : Tree} (h : t.count .slice = 0) : t.rebound limit offset = t := by
  induction t with
  | unit => rfl
  | pattern p => rfl
  | combine c l r ihl ihr =>
    rw [slices_combine] at h
    rw [rebound, ihl (by omega), ihr (by omega)]
  | filter arg e ih =>
    rw [slices_filter] at h
    rw [rebound, ih h]
  | modify mo arg ih =>
    rw [count_modify] at h
    have hkind : mo.kind ≠ .slice := by
      intro hslice
      rw [if_pos hslice] at h
      omega
    rw [rebound, Modifier.rebound_of_kind_ne hkind, ih (by omega)]
  | bare s => rfl

/-- The later write wins, bound by bound. -/
theorem rebound_rebound (limit' offset' : Option Nat) (t : Tree) :
    (t.rebound limit offset).rebound limit' offset' =
      t.rebound (limit'.or limit) (offset'.or offset) := by
  induction t with
  | unit => rfl
  | pattern p => rfl
  | combine c l r ihl ihr => simp only [rebound, ihl, ihr]
  | filter arg e ih => simp only [rebound, ih]
  | modify mo arg ih =>
    simp only [rebound, ih, modify.injEq, and_true]
    cases mo <;> simp only [Modifier.rebound, Option.or_assoc]
  | bare s => rfl

/-- An amendment that does not look at bounds is made alike before and after writing them. -/
theorem amendFirst?_rebound {f : Tree → Option Tree}
    (hf : ∀ u, f (rebound limit offset u) = (f u).map (rebound limit offset)) (t : Tree) :
    (t.rebound limit offset).amendFirst? f = (t.amendFirst? f).map (rebound limit offset) := by
  induction t with
  | unit => exact hf .unit
  | pattern p => exact hf (.pattern p)
  | combine c l r ihl ihr =>
    have hnode := hf (.combine c l r)
    simp only [rebound, amendFirst?] at hnode ⊢
    rw [hnode, ihl, ihr]
    cases f (.combine c l r) with
    | some u => rfl
    | none =>
      cases l.amendFirst? f with
      | some l' => rfl
      | none => cases r.amendFirst? f <;> rfl
  | filter arg e ih =>
    have hnode := hf (.filter arg e)
    simp only [rebound, amendFirst?] at hnode ⊢
    rw [hnode, ih]
    cases f (.filter arg e) with
    | some u => rfl
    | none => cases arg.amendFirst? f <;> rfl
  | modify mo arg ih =>
    have hnode := hf (.modify mo arg)
    simp only [rebound, amendFirst?] at hnode ⊢
    rw [hnode, ih]
    cases f (.modify mo arg) with
    | some u => rfl
    | none => cases arg.amendFirst? f <;> rfl
  | bare s => exact hf (.bare s)

/-! ## The slice that is written to -/

theorem writeSlice?_of_kind_ne {t : Tree} (h : t.kind ≠ .slice) :
    writeSlice? limit offset t = none := by
  unfold writeSlice?
  split
  · exact absurd rfl h
  · rfl

theorem amendFirst?_writeSlice_eq_none {t : Tree} (h : t.count .slice = 0) :
    t.amendFirst? (writeSlice? limit offset) = none :=
  amendFirst?_eq_none.2 fun u hu => writeSlice?_of_kind_ne limit offset (count_eq_zero.1 h u hu)

/-- The only slice is found wherever it stands. -/
theorem amendFirst?_writeSlice {t : Tree} (h : t.count .slice = 1) :
    t.amendFirst? (writeSlice? limit offset) = some (t.rebound limit offset) := by
  induction t with
  | unit => cases h
  | pattern p => cases h
  | combine c l r ihl ihr =>
    have hnode := writeSlice?_of_kind_ne limit offset
      (show (combine c l r).kind ≠ .slice from c.kind_ne_slice)
    rw [slices_combine] at h
    simp only [amendFirst?, hnode, rebound]
    by_cases hl : l.count .slice = 0
    · rw [amendFirst?_writeSlice_eq_none limit offset hl, ihr (by omega),
        rebound_eq_self limit offset hl]
      rfl
    · have hr : r.count .slice = 0 := by omega
      rw [ihl (by omega), rebound_eq_self limit offset hr]
  | filter arg e ih =>
    rw [slices_filter] at h
    simp only [amendFirst?, writeSlice?, ih h, rebound, Option.map_some]
  | modify mo arg ih =>
    by_cases hslice : mo.kind = .slice
    · rw [count_modify, if_pos hslice] at h
      have harg : arg.count .slice = 0 := by omega
      cases mo with
      | slice l o => simp only [amendFirst?, writeSlice?, rebound, Modifier.rebound,
          rebound_eq_self limit offset harg]
      | select s => exact absurd hslice s.kind_ne_slice
      | extend bindings => cases hslice
      | order keys => cases hslice
      | distinct => cases hslice
      | reduced => cases hslice
    · have hnode := writeSlice?_of_kind_ne limit offset
        (show (modify mo arg).kind ≠ .slice from hslice)
      rw [slices_modify hslice] at h
      simp only [amendFirst?, hnode, ih h, rebound, Option.map_some,
        Modifier.rebound_of_kind_ne hslice]
  | bare s => exact absurd h (by rw [slices_bare]; decide)

/-- The tree with these bounds in its slices, or in a slice at its root if it has none. -/
def withBounds (t : Tree) : Tree :=
  if t.count .slice = 0 then .modify (.slice limit offset) t else t.rebound limit offset

theorem setSlice_eq_ok {t : Tree} (h : t.count .slice ≤ 1) :
    t.setSlice limit offset =
      .ok (if t.count .slice = 0 then .inserted else .updated, t.withBounds limit offset) := by
  unfold setSlice withBounds
  rw [if_neg (by omega)]
  by_cases hnone : t.count .slice = 0
  · rw [amendFirst?_writeSlice_eq_none limit offset hnone, if_pos hnone, if_pos hnone]
  · rw [amendFirst?_writeSlice limit offset (by omega), if_neg hnone, if_neg hnone]

theorem setSlice_eq_error {t : Tree} (h : 1 < t.count .slice) :
    t.setSlice limit offset = .error (.severalSlices (t.count .slice)) := by
  rw [setSlice, if_pos h]

theorem count_withBounds (t : Tree) :
    (t.withBounds limit offset).count .slice = max 1 (t.count .slice) := by
  unfold withBounds
  split
  · rename_i hnone
    rw [slices_slice]
    omega
  · rw [count_rebound]
    omega

theorem withBounds_withBounds (limit' offset' : Option Nat) (t : Tree) :
    (t.withBounds limit offset).withBounds limit' offset' =
      t.withBounds (limit'.or limit) (offset'.or offset) := by
  have hcount := count_withBounds limit offset t
  rw [withBounds, if_neg (by omega), withBounds, withBounds]
  split
  · rename_i hnone
    rw [rebound, rebound_eq_self limit' offset' hnone, Modifier.rebound]
  · exact rebound_rebound limit offset limit' offset' t

end Tree

end RdfQuery
