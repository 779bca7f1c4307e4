import Mathlib.Data.List.Nodup
import RdfQuery.OrderedMap

/-!
# Entries of maps

Looking a key up finds the value of its entry, as keys are distinct. Writing one
key changes no other; a list of new keys is kept as it is written.
-/

set_option autoImplicit false

namespace RdfQuery

variable {κ ν : Type} [DecidableEq κ]

namespace Entries

theorem update_of_not_mem {k : κ} {f : Option ν → ν} {es : List (κ × ν)}
    (h : k ∉ es.map Prod.fst) : update k f es = es ++ [(k, f none)] := by
  induction es with
  | nil => rfl
  | cons e es ih =>
    simp only [List.map_cons, List.mem_cons, not_or] at h
    have hk : ¬e.1 = k := fun hk => h.1 hk.symm
    simp only [update, if_neg hk, ih h.2, List.cons_append]

theorem update_map_of_mem {k : κ} {f : Option ν → ν} {v : κ → ν} {ks : List κ}
    (hk : k ∈ ks) (hd : ks.Nodup) :
    update k f (ks.map fun k' => (k', v k')) =
      ks.map fun k' => (k', if k' = k then f (some (v k')) else v k') := by
  induction ks with
  | nil => cases hk
  | cons k' ks ih =>
    obtain ⟨hnot, hd⟩ := List.nodup_cons.1 hd
    by_cases h : k' = k
    · subst h
      simp only [List.map_cons, update, if_true, List.cons.injEq, true_and]
      apply List.map_congr_left
      intro x hx
      have hx : x ≠ k' := fun e => hnot (e ▸ hx)
      simp [hx]
    · have hmem : k ∈ ks := by
        rcases List.mem_cons.1 hk with rfl | hk
        · exact absurd rfl h
        · exact hk
      simp only [List.map_cons, update, if_neg h, ih hmem hd]

theorem find?_update (k k' : κ) (f : Option ν → ν) (es : List (κ × ν)) :
    find? k' (update k f es) = if k = k' then some (f (find? k es)) else find? k' es := by
  induction es with
  | nil => rfl
  | cons e es ih =>
    by_cases he : e.1 = k
    · subst he
      rw [update, if_pos rfl, find?, find?, if_pos rfl, find?]
      split <;> rfl
    · rw [update, if_neg he, find?, ih]
      by_cases hk : k = k'
      · subst hk
        simp only [find?, if_neg he, if_true]
      · simp only [find?, if_neg hk]

theorem mem_update_const {k : κ} {v : ν} {es : List (κ × ν)} {e : κ × ν}
    (h : e ∈ update k (fun _ => v) es) : e ∈ es ∨ e = (k, v) := by
  induction es with
  | nil => exact Or.inr (List.mem_singleton.1 h)
  | cons d es ih =>
    by_cases hd : d.1 = k
    · rw [update, if_pos hd] at h
      rcases List.mem_cons.1 h with h | h
      · exact Or.inr h
      · exact Or.inl (List.mem_cons_of_mem d h)
    · rw [update, if_neg hd] at h
      rcases List.mem_cons.1 h with h | h
      · exact Or.inl (h ▸ List.mem_cons_self ..)
      · exact (ih h).imp (List.mem_cons_of_mem d) id

/-! ## Looking keys up -/

theorem find?_of_mem {k : κ} {v : ν} {es : List (κ × ν)} (hd : (es.map Prod.fst).Nodup)
    (h : (k, v) ∈ es) : find? k es = some v := by
  induction es with
  | nil => cases h
  | cons e es ih =>
    obtain ⟨hnot, hd⟩ := List.nodup_cons.1 hd
    rcases List.mem_cons.1 h with rfl | h
    · exact if_pos rfl
    · have hne : e.1 ≠ k := fun hk => hnot (hk ▸ List.mem_map_of_mem h)
      rw [find?, if_neg hne]
      exact ih hd h

theorem find?_eq_none {k : κ} {es : List (κ × ν)} (h : k ∉ es.map Prod.fst) :
    find? k es = none := by
  induction es with
  | nil => rfl
  | cons e es ih =>
    simp only [List.map_cons, List.mem_cons, not_or] at h
    rw [find?, if_neg fun hk => h.1 hk.symm, ih h.2]

theorem mem_of_find? {k : κ} {v : ν} {es : List (κ × ν)} (h : find? k es = some v) :
    (k, v) ∈ es := by
  induction es with
  | nil => cases h
  | cons d es ih =>
    by_cases hd : d.1 = k
    · rw [find?, if_pos hd] at h
      cases h
      exact hd ▸ List.mem_cons_self ..
    · rw [find?, if_neg hd] at h
      exact List.mem_cons_of_mem d (ih h)

end Entries

namespace OrderedMap

/-! ## Writing several keys -/

theorem insertAll_append (m : OrderedMap κ ν) (xs ys : List (κ × ν)) :
    m.insertAll (xs ++ ys) = (m.insertAll xs).insertAll ys := by
  induction xs generalizing m with
  | nil => rfl
  | cons x xs ih => exact ih _

theorem entries_insertAll {m : OrderedMap κ ν} {es : List (κ × ν)}
    (hd : ((m.entries ++ es).map Prod.fst).Nodup) : (m.insertAll es).entries = m.entries ++ es := by
  induction es generalizing m with
  | nil => exact (List.append_nil _).symm
  | cons e es ih =>
    have hinsert : (m.insert e.1 e.2).entries = m.entries ++ [e] := by
      refine Entries.update_of_not_mem ?_
      rw [List.map_append, List.map_cons, List.nodup_append] at hd
      exact fun hmem => hd.2.2 _ hmem _ List.mem_cons_self rfl
    rw [insertAll, ih, hinsert, List.append_assoc, List.singleton_append]
    rwa [hinsert, List.append_assoc, List.singleton_append]

/-- Entries whose keys are distinct are kept as they are. -/
theorem entries_ofList {es : List (κ × ν)} (hd : (es.map Prod.fst).Nodup) :
    (ofList es).entries = es :=
  entries_insertAll hd

theorem mem_insertAll {m : OrderedMap κ ν} {es : List (κ × ν)} {e : κ × ν}
    (h : e ∈ (m.insertAll es).entries) : e ∈ m.entries ∨ e ∈ es := by
  induction es generalizing m with
  | nil => exact Or.inl h
  | cons d es ih =>
    rcases ih h with h | h
    · rcases Entries.mem_update_const h with h | h
      · exact Or.inl h
      · exact Or.inr (h ▸ List.mem_cons_self ..)
    · exact Or.inr (List.mem_cons_of_mem d h)

theorem mem_ofList {es : List (κ × ν)} {e : κ × ν} (h : e ∈ (ofList es).entries) : e ∈ es :=
  (mem_insertAll h).resolve_left List.not_mem_nil

end OrderedMap

end RdfQuery
