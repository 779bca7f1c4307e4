import Mathlib.Data.List.Dedup
import Mathlib.Data.List.Forall2
import RdfQuery.Outline
import RdfQuery.Proofs.Solution.Meaning

/-!
# Sequences of solutions

What the modifiers of a query may make of a sequence of solutions. Sort keys do
not tell how solutions of equal keys follow each other, and `reduced` does not
tell how many repetitions remain, so both are relations. Changing each solution
by itself commutes with what only looks at parts it leaves alone.
-/

set_option autoImplicit false

namespace RdfQuery

open scoped Classical

/-! ## Sort keys -/

/-- How values are put in order; what has no value, or an error for one, comes first. -/
structure Collation where
  le : Option Constant → Option Constant → Prop
  total : ∀ x y, le x y ∨ le y x
  trans : ∀ {x y z}, le x y → le y z → le x z
  none_le : ∀ x, le none x

variable {l : Library} {c : Collation} {keys : List SortKey} {a b d : Solution}

def SortKey.Le (l : Library) (c : Collation) (k : SortKey) (a b : Solution) : Prop :=
  if k.ascending then c.le (k.expr.value l a) (k.expr.value l b)
  else c.le (k.expr.value l b) (k.expr.value l a)

theorem SortKey.le_total (k : SortKey) (a b : Solution) : k.Le l c a b ∨ k.Le l c b a := by
  unfold SortKey.Le
  split
  · exact c.total _ _
  · exact c.total _ _

theorem SortKey.le_trans {k : SortKey} (hab : k.Le l c a b) (hbd : k.Le l c b d) :
    k.Le l c a d := by
  unfold SortKey.Le at *
  split at hab
  · rw [if_pos ‹_›] at *
    exact c.trans hab hbd
  · rw [if_neg ‹_›] at *
    exact c.trans hbd hab

/-- A key counts where the keys before it are equal. -/
def Precedes (l : Library) (c : Collation) : List SortKey → Solution → Solution → Prop
  | [], _, _ => True
  | k :: keys, a, b => k.Le l c a b ∧ (k.Le l c b a → Precedes l c keys a b)

theorem precedes_total (keys : List SortKey) (a b : Solution) :
    Precedes l c keys a b ∨ Precedes l c keys b a := by
  induction keys with
  | nil => exact Or.inl trivial
  | cons k keys ih =>
    by_cases hab : k.Le l c a b
    · by_cases hba : k.Le l c b a
      · exact ih.imp (fun h => ⟨hab, fun _ => h⟩) (fun h => ⟨hba, fun _ => h⟩)
      · exact Or.inl ⟨hab, fun h => absurd h hba⟩
    · exact Or.inr ⟨(k.le_total a b).resolve_left hab, fun h => absurd h hab⟩

theorem precedes_self (keys : List SortKey) (a : Solution) : Precedes l c keys a a :=
  (precedes_total keys a a).elim id id

theorem precedes_trans (hab : Precedes l c keys a b) (hbd : Precedes l c keys b d) :
    Precedes l c keys a d := by
  induction keys with
  | nil => trivial
  | cons k keys ih =>
    refine ⟨SortKey.le_trans hab.1 hbd.1, fun hda => ih (hab.2 ?_) (hbd.2 ?_)⟩
    · exact SortKey.le_trans hbd.1 hda
    · exact SortKey.le_trans hda hab.1

/-- Solutions that agree on the variables of the keys stand in the same order. -/
theorem precedes_congr {a' b' : Solution}
    (ha : ∀ k ∈ keys, ∀ name ∈ k.expr.names, a name = a' name)
    (hb : ∀ k ∈ keys, ∀ name ∈ k.expr.names, b name = b' name) :
    Precedes l c keys a b ↔ Precedes l c keys a' b' := by
  induction keys with
  | nil => exact Iff.rfl
  | cons k keys ih =>
    have ha' := Expr.value_congr (l := l) (ha k List.mem_cons_self)
    have hb' := Expr.value_congr (l := l) (hb k List.mem_cons_self)
    have hrest := ih (fun k hk => ha k (List.mem_cons_of_mem _ hk))
      (fun k hk => hb k (List.mem_cons_of_mem _ hk))
    simp only [Precedes, SortKey.Le, ha', hb', hrest]

/-! ## What becomes of a sequence -/

/-- Without keys nothing is moved. -/
def Arranged (l : Library) (c : Collation) : List SortKey → List Solution → List Solution → Prop
  | [], xs, ys => ys = xs
  | k :: keys, xs, ys => ys.Perm xs ∧ ys.Pairwise (Precedes l c (k :: keys))

/-- Of equal solutions one is left by `distinct`, and at least one by `reduced`. -/
structure Thinned (r : Repeats) (xs ys : List Solution) : Prop where
  sublist : ys.Sublist xs
  subset : xs ⊆ ys
  kept : r = .kept → ys = xs
  nodup : r = .distinct → ys.Nodup

def sliced (limit offset : Option Nat) (xs : List Solution) : List Solution :=
  match limit with
  | some count => (xs.drop (offset.getD 0)).take count
  | none => xs.drop (offset.getD 0)

variable {r : Repeats} {xs ys : List Solution} {f : Solution → Solution}

theorem arranged_iff (hkeys : keys ≠ []) :
    Arranged l c keys xs ys ↔ ys.Perm xs ∧ ys.Pairwise (Precedes l c keys) := by
  cases keys with
  | nil => exact absurd rfl hkeys
  | cons k keys => exact Iff.rfl

theorem Arranged.perm (h : Arranged l c keys xs ys) : ys.Perm xs := by
  cases keys with
  | nil => exact List.Perm.of_eq h
  | cons k keys => exact h.1

theorem exists_arranged (keys : List SortKey) (xs : List Solution) :
    ∃ ys, Arranged l c keys xs ys := by
  by_cases hkeys : keys = []
  · exact ⟨xs, by rw [hkeys]; rfl⟩
  · refine ⟨xs.mergeSort fun a b => Precedes l c keys a b, (arranged_iff hkeys).2 ⟨?_, ?_⟩⟩
    · exact List.mergeSort_perm xs _
    · have hsorted := List.pairwise_mergeSort
        (fun a b d (hab : decide (Precedes l c keys a b) = true) hbd =>
          decide_eq_true (precedes_trans (of_decide_eq_true hab) (of_decide_eq_true hbd)))
        (fun a b => by
          rw [Bool.or_eq_true, decide_eq_true_eq, decide_eq_true_eq]
          exact precedes_total keys a b) xs
      exact hsorted.imp fun h => of_decide_eq_true h

theorem thinned_kept : Thinned .kept xs ys ↔ ys = xs := by
  constructor
  · exact fun h => h.kept rfl
  · rintro rfl
    exact ⟨List.Sublist.refl _, List.Subset.refl _, fun _ => rfl, nofun⟩

theorem exists_thinned (r : Repeats) (xs : List Solution) : ∃ ys, Thinned r xs ys := by
  cases r with
  | distinct =>
    exact ⟨xs.dedup, xs.dedup_sublist, xs.subset_dedup, nofun, fun _ => xs.nodup_dedup⟩
  | kept => exact ⟨xs, thinned_kept.2 rfl⟩
  | reduced => exact ⟨xs, List.Sublist.refl _, List.Subset.refl _, nofun, nofun⟩

theorem sliced_whole {limit offset : Option Nat} (hlimit : limit = none)
    (hoffset : offset.getD 0 = 0) : sliced limit offset xs = xs := by
  rw [hlimit, sliced, hoffset, List.drop_zero]

theorem sliced_sublist (limit offset : Option Nat) (xs : List Solution) :
    (sliced limit offset xs).Sublist xs := by
  have hdrop := List.drop_sublist (offset.getD 0) xs
  cases limit with
  | none => exact hdrop
  | some count => exact (List.take_sublist count _).trans hdrop

theorem sliced_map (limit offset : Option Nat) (f : Solution → Solution) (xs : List Solution) :
    sliced limit offset (xs.map f) = (sliced limit offset xs).map f := by
  cases limit <;> simp only [sliced, List.map_drop, List.map_take]

/-! ## Operations past each other -/

theorem exists_perm_map {f : Solution → Solution} (h : ys.Perm (xs.map f)) :
    ∃ zs : List Solution, zs.Perm xs ∧ ys = zs.map f := by
  have hforall : List.Forall₂ (fun y x => y = f x) (xs.map f) xs := by
    rw [List.forall₂_map_left_iff]
    exact List.forall₂_same.2 fun x _ => rfl
  obtain ⟨zs, hzs, hperm⟩ := List.perm_comp_forall₂ h hforall
  refine ⟨zs, hperm, ?_⟩
  rw [← List.forall₂_eq_eq_eq, List.forall₂_map_right_iff]
  exact hzs

/-- The keys may be looked at before or after a change that they do not see. -/
theorem arranged_map (h : ∀ a b, Precedes l c keys (f a) (f b) ↔ Precedes l c keys a b) :
    Arranged l c keys (xs.map f) ys ↔ ∃ zs, Arranged l c keys xs zs ∧ ys = zs.map f := by
  by_cases hkeys : keys = []
  · rw [hkeys]
    exact ⟨fun hys => ⟨xs, rfl, hys⟩, fun ⟨zs, hzs, hys⟩ => hys.trans (congrArg _ hzs)⟩
  · simp only [arranged_iff hkeys]
    constructor
    · rintro ⟨hperm, hsorted⟩
      obtain ⟨zs, hzs, rfl⟩ := exists_perm_map hperm
      exact ⟨zs, ⟨hzs, (List.pairwise_map.1 hsorted).imp (h _ _).1⟩, rfl⟩
    · rintro ⟨zs, ⟨hperm, hsorted⟩, rfl⟩
      exact ⟨hperm.map f, List.pairwise_map.2 (hsorted.imp (h _ _).2)⟩

/-- Equal solutions stay equal, and different ones different. -/
theorem thinned_map (h : ∀ a ∈ xs, ∀ b ∈ xs, f a = f b → a = b) :
    Thinned r (xs.map f) ys ↔ ∃ zs, Thinned r xs zs ∧ ys = zs.map f := by
  have hnodup {zs : List Solution} (hzs : zs.Sublist xs) : (zs.map f).Nodup ↔ zs.Nodup :=
    ⟨List.Nodup.of_map f, List.Nodup.map_on fun a ha b hb => h a (hzs.subset ha) b (hzs.subset hb)⟩
  constructor
  · intro hys
    obtain ⟨zs, hzs, rfl⟩ := List.sublist_map_iff.1 hys.sublist
    refine ⟨zs, ⟨hzs, ?_, ?_, fun hr => (hnodup hzs).1 (hys.nodup hr)⟩, rfl⟩
    · intro a ha
      obtain ⟨b, hb, hab⟩ := List.mem_map.1 (hys.subset (List.mem_map_of_mem ha))
      rwa [← h b (hzs.subset hb) a ha hab]
    · intro hr
      refine hzs.eq_of_length ?_
      have hlength := congrArg List.length (hys.kept hr)
      rwa [List.length_map, List.length_map] at hlength
  · rintro ⟨zs, hzs, rfl⟩
    refine ⟨hzs.sublist.map f, List.map_subset f hzs.subset, ?_, ?_⟩
    · exact fun hr => congrArg _ (hzs.kept hr)
    · exact fun hr => (hnodup hzs.sublist).2 (hzs.nodup hr)

/-- Repetitions find their place beside the solution that they repeat. -/
theorem exists_arranged_append {extra zs : List Solution} (hextra : extra ⊆ zs)
    (hsorted : zs.Pairwise (Precedes l c keys)) :
    ∃ ws : List Solution, ws.Perm (extra ++ zs) ∧ zs.Sublist ws ∧
      ws.Pairwise (Precedes l c keys) := by
  induction extra with
  | nil => exact ⟨zs, List.Perm.refl _, List.Sublist.refl _, hsorted⟩
  | cons x extra ih =>
    obtain ⟨hx, hextra⟩ := List.cons_subset.1 hextra
    obtain ⟨ws, hperm, hsub, hws⟩ := ih hextra
    obtain ⟨before, after, rfl⟩ := List.append_of_mem (hsub.subset hx)
    refine ⟨before ++ x :: x :: after, ?_, ?_, ?_⟩
    · exact List.perm_middle.trans (hperm.cons x)
    · exact hsub.trans ((List.sublist_cons_self x _).append_left before)
    · obtain ⟨hbefore, hafter, hacross⟩ := List.pairwise_append.1 hws
      refine List.pairwise_append.2 ⟨hbefore, List.pairwise_cons.2 ⟨?_, hafter⟩, ?_⟩
      · intro y hy
        rcases List.mem_cons.1 hy with rfl | hy
        · exact precedes_self keys y
        · exact (List.pairwise_cons.1 hafter).1 y hy
      · intro y hy z hz
        rcases List.mem_cons.1 hz with rfl | hz
        · exact hacross y hy z List.mem_cons_self
        · exact hacross y hy z hz

/-- Repetitions may be dropped before or after the solutions are put in order. -/
theorem arranged_thinned :
    (∃ zs, Thinned r xs zs ∧ Arranged l c keys zs ys) ↔
      ∃ zs, Arranged l c keys xs zs ∧ Thinned r zs ys := by
  by_cases hkeys : keys = []
  · rw [hkeys]
    exact ⟨fun ⟨zs, hzs, hys⟩ => ⟨xs, rfl, hys ▸ hzs⟩, fun ⟨zs, hzs, hys⟩ => ⟨ys, hzs ▸ hys, rfl⟩⟩
  · simp only [arranged_iff hkeys]
    constructor
    · rintro ⟨zs, hzs, hperm, hsorted⟩
      by_cases hr : r = .kept
      · cases hzs.kept hr
        exact ⟨ys, ⟨hperm, hsorted⟩, by rw [hr]; exact thinned_kept.2 rfl⟩
      · obtain ⟨extra, hextra⟩ := hzs.sublist.exists_perm_append
        have hsub : xs ⊆ ys := fun a ha => hperm.mem_iff.2 (hzs.subset ha)
        have hperm' : xs.Perm (extra ++ ys) :=
          hextra.trans (List.perm_append_comm.trans (hperm.symm.append_left extra))
        have hrepeated : extra ⊆ ys := fun a ha =>
          hsub (hperm'.mem_iff.2 (List.mem_append_left _ ha))
        obtain ⟨ws, hws, hys, hwssorted⟩ := exists_arranged_append hrepeated hsorted
        refine ⟨ws, ⟨hws.trans hperm'.symm, hwssorted⟩, hys, ?_, fun h => absurd h hr, ?_⟩
        · exact fun a ha => hsub ((hws.trans hperm'.symm).mem_iff.1 ha)
        · exact fun hr => hperm.nodup_iff.2 (hzs.nodup hr)
    · rintro ⟨ws, ⟨hperm, hsorted⟩, hys⟩
      obtain ⟨zs, hzs, hsub⟩ := hys.sublist.subperm.trans hperm.subperm
      have hmem {a : Solution} : a ∈ ys ↔ a ∈ zs := hzs.mem_iff.symm
      refine ⟨zs, ⟨hsub, ?_, ?_, ?_⟩, hzs.symm, hsorted.sublist hys.sublist⟩
      · exact fun a ha => hmem.1 (hys.subset (hperm.mem_iff.2 ha))
      · intro hr
        refine hsub.eq_of_length ?_
        rw [hzs.length_eq, hys.kept hr, hperm.length_eq]
      · exact fun hr => hzs.nodup_iff.2 (hys.nodup hr)

/-! ## Columns and bindings -/

namespace Columns

/-- The name is shown as it is; an empty list of columns shows all names. -/
def Keeps (columns : Columns) (name : String) : Prop :=
  columns = [] ∨ (columns.find? fun column => column.target = name) = some (.same name)

end Columns

namespace Solution

/-- The value of a name is that of the first column for it. -/
def project (columns : Columns) (a : Solution) : Solution := fun name =>
  (columns.find? fun column => column.target = name).bind fun column => a column.source

/-- An empty list of columns stands for all names. -/
def shown : Columns → Solution → Solution
  | [], a => a
  | columns, a => a.project columns

/-- One row for each list of columns; without lists the solution is the row. -/
def rows : List Columns → Solution → List Solution
  | [], a => [a]
  | lists, a => lists.map fun columns => a.shown columns

/-- A name that has a value keeps it; an error gives none. -/
def bound (l : Library) (a : Solution) (b : String × Expr) : Solution := fun name =>
  if name = b.1 then (a name).or (b.2.value l a) else a name

/-- An expression sees the names that were bound before it. -/
def boundAll (l : Library) (bindings : List (String × Expr)) (a : Solution) : Solution :=
  bindings.foldl (bound l) a

theorem shown_eq {columns : Columns} {name : String} (h : columns.Keeps name) (a : Solution) :
    a.shown columns name = a name := by
  cases columns with
  | nil => rfl
  | cons column columns =>
    have hfind := h.resolve_left (List.cons_ne_nil column columns)
    show a.project (column :: columns) name = a name
    rw [project, hfind]
    rfl

theorem flatMap_rows_nil (xs : List Solution) : xs.flatMap (rows []) = xs :=
  List.flatMap_singleton' xs

/-- At most one list shows each solution as one row. -/
theorem exists_rows_eq {lists : List Columns} (h : lists.length ≤ 1) :
    ∃ f : Solution → Solution, (∀ xs : List Solution, xs.flatMap (rows lists) = xs.map f) ∧
      ∀ name, (∀ columns ∈ lists, columns.Keeps name) → ∀ a, f a name = a name := by
  match lists, h with
  | [], _ => exact ⟨id, fun xs => List.map_eq_flatMap.symm, fun _ _ _ => rfl⟩
  | [columns], _ =>
    exact ⟨shown columns, fun xs => List.map_eq_flatMap.symm,
      fun name hkeeps => shown_eq (hkeeps _ List.mem_cons_self)⟩

theorem flatMap_rows {lists : List Columns} (hlength : lists.length ≤ 1)
    (h : ∀ columns ∈ lists, columns = []) (xs : List Solution) : xs.flatMap (rows lists) = xs := by
  obtain ⟨f, hf, hkeeps⟩ := exists_rows_eq hlength
  have hid : f = id := by
    funext a name
    exact hkeeps name (fun columns hcolumns => Or.inl (h columns hcolumns)) a
  rw [hf, hid, List.map_id]

theorem boundAll_eq {bindings : List (String × Expr)} {name : String}
    (h : name ∉ bindings.map Prod.fst) (a : Solution) : boundAll l bindings a name = a name := by
  induction bindings generalizing a with
  | nil => rfl
  | cons b bindings ih =>
    rw [List.map_cons, List.mem_cons, not_or] at h
    refine (ih h.2 (bound l a b)).trans ?_
    rw [bound, if_neg h.1]

/-- Where no value is lost to an earlier one, the other names tell the solutions apart. -/
theorem boundAll_inj {bindings : List (String × Expr)}
    (ha : ∀ name ∈ bindings.map Prod.fst, a name = none)
    (hb : ∀ name ∈ bindings.map Prod.fst, b name = none)
    (h : boundAll l bindings a = boundAll l bindings b) : a = b := by
  funext name
  by_cases hname : name ∈ bindings.map Prod.fst
  · rw [ha name hname, hb name hname]
  · rw [← boundAll_eq hname a, h, boundAll_eq hname]

end Solution

end RdfQuery
