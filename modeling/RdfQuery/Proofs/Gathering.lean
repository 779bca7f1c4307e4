import Mathlib.Data.List.Induction
import Mathlib.Data.List.Perm.Basic
import RdfQuery.Proofs.Entries

/-!
# Filing items under keys

Items that come with keys are filed one after the other. Afterwards every key
has one entry, the entries stand in the order of the first use of their keys,
and the items of a key stand in the order in which they came.
-/

set_option autoImplicit false

namespace RdfQuery

variable {κ α : Type} [DecidableEq κ]

namespace Entries

/-- Files one item more under a key. -/
def file (k : κ) (a : α) (es : List (κ × List α)) : List (κ × List α) :=
  update k (fun items => items.getD [] ++ [a]) es

/-- Filing an item adds it, and moves and drops nothing. -/
theorem file_perm (k : κ) (a : α) (es : List (κ × List α)) :
    ((file k a es).flatMap fun e => e.2.map fun x => (e.1, x)).Perm
      ((es.flatMap fun e => e.2.map fun x => (e.1, x)) ++ [(k, a)]) := by
  induction es with
  | nil => simp [file, update]
  | cons e es ih =>
    by_cases h : e.1 = k
    · subst h
      simp only [file, update, if_true, List.flatMap_cons, Option.getD_some, List.map_append,
        List.map_cons, List.map_nil, List.append_assoc]
      exact List.Perm.append_left _ List.perm_append_comm
    · simp only [file, update, if_neg h, List.flatMap_cons, List.append_assoc] at ih ⊢
      exact List.Perm.append_left _ ih

theorem key_eq_of_erase_eq_nil {ν : Type} {k k' : κ} {es : List (κ × ν)} (h : erase k es = [])
    (hk : k' ∈ es.map Prod.fst) : k' = k := by
  cases es with
  | nil => cases hk
  | cons e es =>
    simp only [erase] at h
    split at h
    · rename_i he
      subst h
      simpa [he] using hk
    · cases h

end Entries

/-! ## Order of first use -/

/-- Every member once, where it is first met. -/
def firsts (ks : List κ) : List κ := ks.eraseDups

theorem mem_firsts {k : κ} {ks : List κ} : k ∈ firsts ks ↔ k ∈ ks := List.mem_eraseDups

theorem firsts_append_singleton (ks : List κ) (k : κ) :
    firsts (ks ++ [k]) = if k ∈ ks then firsts ks else firsts ks ++ [k] := by
  rw [firsts, List.eraseDups_append]
  by_cases h : k ∈ ks
  · simp [h, List.removeAll, firsts]
  · simp [h, List.removeAll, firsts, List.eraseDups_cons]

theorem firsts_append_congr {xs ys : List κ} (h : firsts xs = firsts ys) (zs : List κ) :
    firsts (xs ++ zs) = firsts (ys ++ zs) := by
  have hmem : ∀ k, k ∈ xs ↔ k ∈ ys := fun k => by rw [← mem_firsts, h, mem_firsts]
  have hremove : zs.removeAll xs = zs.removeAll ys := by
    simp only [List.removeAll]
    apply List.filter_congr
    intro k _
    simp [hmem]
  rw [firsts] at h ⊢
  rw [firsts, List.eraseDups_append, List.eraseDups_append, h, hremove]
  rfl

/-- Two lists whose members are first met in the same order, whatever was met before. -/
def SameFirsts (xs ys : List κ) : Prop := ∀ before, firsts (before ++ xs) = firsts (before ++ ys)

theorem SameFirsts.append {xs xs' ys ys' : List κ} (h : SameFirsts xs xs')
    (h' : SameFirsts ys ys') : SameFirsts (xs ++ ys) (xs' ++ ys') := by
  intro before
  calc
    firsts (before ++ (xs ++ ys)) = firsts ((before ++ xs) ++ ys) := by rw [List.append_assoc]
    _ = firsts ((before ++ xs') ++ ys) := firsts_append_congr (h before) ys
    _ = firsts ((before ++ xs') ++ ys') := h' (before ++ xs')
    _ = firsts (before ++ (xs' ++ ys')) := by rw [List.append_assoc]

theorem sameFirsts_singleton {xs : List κ} {k : κ} (h : ∀ x ∈ xs, x = k) :
    SameFirsts [k] (xs ++ [k]) := by
  intro before
  induction xs generalizing before with
  | nil => rfl
  | cons x xs ih =>
    have hx : x = k := h x (by simp)
    have hmem : k ∈ before ++ [k] := by simp
    have ih := ih (fun y hy => h y (by simp [hy])) (before ++ [k])
    rw [firsts_append_singleton (before ++ [k]), if_pos hmem] at ih
    rw [ih, hx]
    simp

/-! ## Keys that are told apart alike -/

/-- Two functions that have equal values at the same pairs of members. -/
def TellAlike (xs : List α) (f g : α → κ) : Prop := ∀ x ∈ xs, ∀ y ∈ xs, f x = f y ↔ g x = g y

instance (xs : List α) (f g : α → κ) : Decidable (TellAlike xs f g) :=
  inferInstanceAs (Decidable (∀ x ∈ xs, ∀ y ∈ xs, f x = f y ↔ g x = g y))

omit [DecidableEq κ] in
theorem TellAlike.mono {xs ys : List α} {f g : α → κ} (h : TellAlike ys f g) (hxs : xs ⊆ ys) :
    TellAlike xs f g :=
  fun x hx y hy => h x (hxs hx) y (hxs hy)

omit [DecidableEq κ] in
theorem TellAlike.mem_map_iff {xs : List α} {f g : α → κ} (h : TellAlike xs f g) {ys : List α}
    (hys : ys ⊆ xs) {x : α} (hx : x ∈ xs) : f x ∈ ys.map f ↔ g x ∈ ys.map g := by
  simp only [List.mem_map]
  constructor
  · rintro ⟨y, hy, hyx⟩
    exact ⟨y, hy, (h y (hys hy) x hx).1 hyx⟩
  · rintro ⟨y, hy, hyx⟩
    exact ⟨y, hy, (h y (hys hy) x hx).2 hyx⟩

/-- Functions that tell the members of a list apart alike have their values first at the same
members. -/
theorem exists_firsts_map (f : α → κ) (xs : List α) :
    ∃ reps : List α, reps ⊆ xs ∧
      ∀ g : α → κ, TellAlike xs f g → firsts (xs.map g) = reps.map g := by
  induction xs using List.reverseRecOn with
  | nil => exact ⟨[], List.Subset.refl _, fun _ _ => rfl⟩
  | append_singleton xs x ih =>
    obtain ⟨reps, hreps, hfirsts⟩ := ih
    have hbefore : xs ⊆ xs ++ [x] := List.subset_append_left xs [x]
    have hlast : x ∈ xs ++ [x] := List.mem_append_right xs (List.mem_singleton_self x)
    -- whether the value of the last member was met before is the same for all such functions
    by_cases hmet : f x ∈ xs.map f
    · refine ⟨reps, List.Subset.trans hreps hbefore, ?_⟩
      intro g hg
      have hmet' := (hg.mem_map_iff hbefore hlast).1 hmet
      rw [List.map_append, List.map_singleton, firsts_append_singleton, if_pos hmet',
        hfirsts g (hg.mono hbefore)]
    · refine ⟨reps ++ [x], ?_, ?_⟩
      · intro y hy
        rcases List.mem_append.1 hy with hy | hy
        · exact hbefore (hreps hy)
        · exact List.mem_append_right xs hy
      · intro g hg
        have hnew := fun hmet' => hmet ((hg.mem_map_iff hbefore hlast).2 hmet')
        rw [List.map_append, List.map_singleton, firsts_append_singleton, if_neg hnew,
          hfirsts g (hg.mono hbefore), List.map_append, List.map_singleton]

namespace OrderedMap

def file (m : OrderedMap κ (List α)) (k : κ) (a : α) : OrderedMap κ (List α) :=
  m.update k fun items => items.getD [] ++ [a]

def fileAll (m : OrderedMap κ (List α)) (es : List (κ × α)) : OrderedMap κ (List α) :=
  es.foldl (fun m e => m.file e.1 e.2) m

def gather (es : List (κ × α)) : OrderedMap κ (List α) := fileAll empty es

theorem fileAll_append (m : OrderedMap κ (List α)) (xs ys : List (κ × α)) :
    m.fileAll (xs ++ ys) = (m.fileAll xs).fileAll ys :=
  List.foldl_append

def itemsOf (k : κ) (es : List (κ × α)) : List α := (es.filter fun e => e.1 = k).map Prod.snd

theorem gather_append_singleton (es : List (κ × α)) (k : κ) (a : α) :
    gather (es ++ [(k, a)]) = (gather es).file k a :=
  fileAll_append _ _ _

/-- The whole map in one equation. -/
theorem gather_entries (es : List (κ × α)) :
    (gather es).entries = (firsts (es.map Prod.fst)).map fun k => (k, itemsOf k es) := by
  induction es using List.reverseRecOn with
  | nil => rfl
  | append_singleton es e ih =>
    obtain ⟨k, a⟩ := e
    have hkeys : (gather es).entries.map Prod.fst = firsts (es.map Prod.fst) := by
      rw [ih, List.map_map]
      simp [Function.comp_def]
    have hdistinct : (firsts (es.map Prod.fst)).Nodup := hkeys ▸ (gather es).distinct
    rw [gather_append_singleton, file]
    simp only [update]
    rw [List.map_append, List.map_singleton, firsts_append_singleton]
    by_cases h : k ∈ es.map Prod.fst
    · rw [if_pos h, ih, Entries.update_map_of_mem (mem_firsts.2 h) hdistinct]
      apply List.map_congr_left
      intro k' _
      by_cases hk : k' = k
      · subst hk
        simp [itemsOf]
      · have hk' : ¬k = k' := fun e => hk e.symm
        simp [itemsOf, hk, hk']
    · have hnot : k ∉ (gather es).entries.map Prod.fst := by
        rw [hkeys]
        exact fun hk => h (mem_firsts.1 hk)
      rw [if_neg h, Entries.update_of_not_mem hnot, ih, List.map_append]
      congr 1
      · apply List.map_congr_left
        intro k' hk'
        have hne : ¬k = k' := by
          rintro rfl
          exact h (mem_firsts.1 hk')
        simp [itemsOf, hne]
      · have hnone : ∀ x ∈ es, ¬x.1 = k := by
          intro x hx e
          exact h (e ▸ List.mem_map_of_mem hx)
        have hempty : es.filter (fun e => decide (e.1 = k)) = [] := by
          simpa using hnone
        simp [itemsOf, hempty]

theorem gather_keys (es : List (κ × α)) : (gather es).keys = firsts (es.map Prod.fst) := by
  rw [keys, gather_entries, List.map_map]
  simp [Function.comp_def]

theorem gather_perm (es : List (κ × α)) :
    ((gather es).entries.flatMap fun e => e.2.map fun x => (e.1, x)).Perm es := by
  induction es using List.reverseRecOn with
  | nil => exact List.Perm.refl _
  | append_singleton es e ih =>
    obtain ⟨k, a⟩ := e
    rw [gather_append_singleton]
    exact (Entries.file_perm k a _).trans (ih.append_right _)

/-- If nothing is filed under any other key, the entry of a key has all items. -/
theorem itemsOf_eq_of_erase_isEmpty {es : List (κ × α)} {k : κ}
    (h : ((gather es).erase k).isEmpty = true) :
    (∀ e ∈ es, e.1 = k) ∧ ((gather es).get? k).getD [] = es.map Prod.snd := by
  have hall : ∀ e ∈ es, e.1 = k := by
    intro e he
    have hkey : e.1 ∈ (gather es).entries.map Prod.fst := by
      have := gather_keys es
      rw [keys] at this
      rw [this]
      exact mem_firsts.2 (List.mem_map_of_mem he)
    exact Entries.key_eq_of_erase_eq_nil (List.isEmpty_iff.1 h) hkey
  refine ⟨hall, ?_⟩
  have hitems : itemsOf k es = es.map Prod.snd := by
    rw [itemsOf, List.filter_eq_self.2 (by simpa using hall)]
  rw [get?, gather_entries]
  cases es with
  | nil => rfl
  | cons e es =>
    have he : e.1 = k := hall e (by simp)
    simp only [List.map_cons, he, firsts, List.eraseDups_cons, Entries.find?, if_true,
      Option.getD_some,
      hitems]

/-- Keys that tell the items apart alike make the same groups of them. -/
theorem exists_gather_map {β : Type} (f : α → κ) (es : List (α × β)) :
    ∃ groups : List (α × List β),
      (∀ group ∈ groups, group.1 ∈ es.map Prod.fst ∧ group.2 ⊆ es.map Prod.snd) ∧
      ∀ g : α → κ, TellAlike (es.map Prod.fst) f g →
        (gather (es.map fun e => (g e.1, e.2))).entries =
          groups.map fun group => (g group.1, group.2) := by
  obtain ⟨reps, hreps, hfirsts⟩ := exists_firsts_map f (es.map Prod.fst)
  refine ⟨reps.map fun r => (r, (es.filter fun e => f e.1 = f r).map Prod.snd), ?_, ?_⟩
  · intro group hgroup
    obtain ⟨r, hr, rfl⟩ := List.mem_map.1 hgroup
    refine ⟨hreps hr, ?_⟩
    intro b hb
    obtain ⟨e, he, rfl⟩ := List.mem_map.1 hb
    exact List.mem_map_of_mem (List.mem_of_mem_filter he)
  · intro g hg
    have hkeys : (es.map fun e => (g e.1, e.2)).map Prod.fst = (es.map Prod.fst).map g := by
      simp only [List.map_map, Function.comp_def]
    rw [gather_entries, hkeys, hfirsts g hg, List.map_map, List.map_map]
    apply List.map_congr_left
    intro r hr
    have hsame : es.filter (fun e => g e.1 = g r) = es.filter fun e => f e.1 = f r := by
      apply List.filter_congr
      intro e he
      exact decide_eq_decide.2 (hg e.1 (List.mem_map_of_mem he) r (hreps hr)).symm
    simp only [Function.comp_def, itemsOf, List.filter_map, List.map_map, hsame]

theorem erase_gather_isEmpty {es : List (κ × α)} {k : κ} (h : ∀ e ∈ es, e.1 = k) :
    ((gather es).erase k).isEmpty = true := by
  have hkeys : es.map Prod.fst = List.replicate es.length k := by
    rw [List.eq_replicate_iff]
    exact ⟨List.length_map .., by simpa using h⟩
  show (Entries.erase k (gather es).entries).isEmpty = true
  rw [gather_entries]
  cases es with
  | nil => rfl
  | cons e es =>
    rw [hkeys, List.length_cons, List.replicate_succ, firsts, List.eraseDups_cons]
    simp [Entries.erase]

/-! ## Keys that are written again -/

theorem ofList_append_singleton (es : List (κ × α)) (k : κ) (a : α) :
    ofList (es ++ [(k, a)]) = (ofList es).insert k a :=
  insertAll_append empty es [(k, a)]

/-- A key that is written again keeps its place. -/
theorem keys_ofList (es : List (κ × α)) : (ofList es).keys = firsts (es.map Prod.fst) := by
  induction es using List.reverseRecOn with
  | nil => rfl
  | append_singleton es e ih =>
    have hmem : e.1 ∈ firsts (es.map Prod.fst) ↔ e.1 ∈ es.map Prod.fst := mem_firsts
    rw [ofList_append_singleton, insert, keys_update, ih, List.map_append, List.map_singleton,
      firsts_append_singleton, if_congr hmem rfl rfl]

theorem eq_nil_of_ofList_eq_empty {es : List (κ × α)} (h : ofList es = empty) : es = [] := by
  cases es with
  | nil => rfl
  | cons e es =>
    have hmem : e.1 ∈ (ofList (e :: es)).keys := by
      rw [keys_ofList]
      exact mem_firsts.2 List.mem_cons_self
    rw [h] at hmem
    exact nomatch hmem

/-- The value that was written last counts. -/
theorem get?_ofList (es : List (κ × α)) (k : κ) : (ofList es).get? k = (itemsOf k es).getLast? := by
  induction es using List.reverseRecOn with
  | nil => rfl
  | append_singleton es e ih =>
    rw [ofList_append_singleton]
    refine (Entries.find?_update e.1 k _ _).trans ?_
    by_cases he : e.1 = k
    · simp [itemsOf, he]
    · have hitems : itemsOf k (es ++ [e]) = itemsOf k es := by simp [itemsOf, he]
      rw [if_neg he, hitems]
      exact ih

end OrderedMap

end RdfQuery
