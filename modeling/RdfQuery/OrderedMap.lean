/-!
# Maps that remember the order of their keys

A key keeps the place where it was first written; writing it again changes
its value only. The entries are a list whose keys are distinct.
-/

set_option autoImplicit false

namespace RdfQuery

variable {κ ν : Type} [DecidableEq κ]

namespace Entries

def find? (k : κ) : List (κ × ν) → Option ν
  | [] => none
  | (k', v) :: rest => if k' = k then some v else find? k rest

/-- The value of `k` becomes `f` of the old one; a new key goes last. -/
def update (k : κ) (f : Option ν → ν) : List (κ × ν) → List (κ × ν)
  | [] => [(k, f none)]
  | (k', v) :: rest => if k' = k then (k, f (some v)) :: rest else (k', v) :: update k f rest

def erase (k : κ) : List (κ × ν) → List (κ × ν)
  | [] => []
  | (k', v) :: rest => if k' = k then rest else (k', v) :: erase k rest

theorem keys_update (k : κ) (f : Option ν → ν) (es : List (κ × ν)) :
    (update k f es).map Prod.fst =
      if k ∈ es.map Prod.fst then es.map Prod.fst else es.map Prod.fst ++ [k] := by
  induction es with
  | nil => simp [update]
  | cons e es ih =>
    obtain ⟨k', v⟩ := e
    by_cases h : k' = k
    · simp [update, h]
    · by_cases hm : k ∈ es.map Prod.fst
      · simp only [update, if_neg h, List.map_cons, ih, if_pos hm]
        rw [if_pos (List.mem_cons_of_mem _ hm)]
      · simp only [update, if_neg h, List.map_cons, ih, if_neg hm]
        rw [if_neg (by simp only [List.mem_cons, not_or]; exact ⟨fun e => h e.symm, hm⟩)]
        rfl

theorem keys_erase_sublist (k : κ) (es : List (κ × ν)) :
    ((erase k es).map Prod.fst).Sublist (es.map Prod.fst) := by
  induction es with
  | nil => exact List.Sublist.slnil
  | cons e es ih =>
    obtain ⟨k', v⟩ := e
    by_cases h : k' = k
    · simp [erase, h]
    · simpa [erase, h] using ih

end Entries

structure OrderedMap (κ ν : Type) where
  entries : List (κ × ν)
  distinct : (entries.map Prod.fst).Nodup
  deriving DecidableEq

namespace OrderedMap

omit [DecidableEq κ] in
theorem ext {a b : OrderedMap κ ν} (h : a.entries = b.entries) : a = b := by
  cases a; cases b; cases h; rfl

def empty : OrderedMap κ ν := ⟨[], List.nodup_nil⟩

def keys (m : OrderedMap κ ν) : List κ := m.entries.map Prod.fst

def isEmpty (m : OrderedMap κ ν) : Bool := m.entries.isEmpty

def get? (m : OrderedMap κ ν) (k : κ) : Option ν := Entries.find? k m.entries

def update (m : OrderedMap κ ν) (k : κ) (f : Option ν → ν) : OrderedMap κ ν where
  entries := Entries.update k f m.entries
  distinct := by
    rw [Entries.keys_update]
    split
    · exact m.distinct
    · rename_i h
      refine List.nodup_append.2 ⟨m.distinct, by simp, ?_⟩
      intro a ha b hb
      simp only [List.mem_singleton] at hb
      exact fun e => h (hb ▸ e ▸ ha)

def insert (m : OrderedMap κ ν) (k : κ) (v : ν) : OrderedMap κ ν := m.update k fun _ => v

def erase (m : OrderedMap κ ν) (k : κ) : OrderedMap κ ν where
  entries := Entries.erase k m.entries
  distinct := m.distinct.sublist (Entries.keys_erase_sublist k m.entries)

def insertAll (m : OrderedMap κ ν) : List (κ × ν) → OrderedMap κ ν
  | [] => m
  | (k, v) :: rest => (m.insert k v).insertAll rest

def ofList (es : List (κ × ν)) : OrderedMap κ ν := insertAll empty es

theorem keys_update (m : OrderedMap κ ν) (k : κ) (f : Option ν → ν) :
    (m.update k f).keys = if k ∈ m.keys then m.keys else m.keys ++ [k] :=
  Entries.keys_update k f m.entries

end OrderedMap

end RdfQuery
