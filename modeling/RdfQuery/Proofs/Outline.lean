import Mathlib.Data.List.Nodup
import RdfQuery.Header
import RdfQuery.Proofs.Outcome

/-!
# Modifiers above the body

The modifiers that are peeled off a tree stand one above the other from its
root on, no two in one slot, and the outline has what each of them says. Below
them stands the body, or a projection without input.
-/

set_option autoImplicit false

namespace RdfQuery

namespace Tree

/-- The tree with modifiers above it, the first one outermost. -/
def under (modifiers : List Modifier) (core : Tree) : Tree := modifiers.foldr .modify core

/-- What the root of a tree may fill, with or without an input. -/
def slot? : Tree → Option Slot
  | .modify mo _ => some mo.slot
  | .bare _ => some .selection
  | _ => none

/-- Nothing is taken off the tree: its root is no modifier, or one whose slot is filled. -/
def Stops (filled : List Slot) (t : Tree) : Prop := ∀ slot ∈ t.slot?, slot ∈ filled

theorem stops_of_slot?_eq_none {t : Tree} (h : t.slot? = none) (filled : List Slot) :
    t.Stops filled := by
  intro slot hslot
  rw [Option.mem_def, h] at hslot
  cases hslot

end Tree

namespace Outline

/-! ## What modifiers record -/

def deeper (o : Outline) : Outline := { o with depth := o.depth + 1 }

@[simp] theorem record_body (o : Outline) (mo : Modifier) : (o.record mo).body = o.body := by
  cases mo <;> rfl

@[simp] theorem record_depth (o : Outline) (mo : Modifier) : (o.record mo).depth = o.depth := by
  cases mo <;> rfl

theorem record_deeper (o : Outline) (mo : Modifier) :
    o.deeper.record mo = (o.record mo).deeper := by
  cases mo <;> rfl

theorem record_record (o : Outline) (mo : Modifier) : (o.record mo).record mo = o.record mo := by
  cases mo <;> rfl

theorem record_comm (o : Outline) {mo mo' : Modifier} (h : mo.slot ≠ mo'.slot) :
    (o.record mo).record mo' = (o.record mo').record mo := by
  cases mo <;> cases mo' <;> first | rfl | exact absurd rfl h

theorem record_lists {o : Outline} {mo : Modifier} (h : mo.slot ≠ .selection) :
    (o.record mo).lists = o.lists := by
  cases mo with
  | select s => exact absurd rfl h
  | _ => rfl

theorem record_bindings {o : Outline} {mo : Modifier} (h : mo.slot ≠ .bindings) :
    (o.record mo).bindings = o.bindings := by
  cases mo with
  | extend bindings => exact absurd rfl h
  | _ => rfl

theorem peelFrom_filled {filled : List Slot} {mo : Modifier} (h : mo.slot ∈ filled) (arg : Tree) :
    peelFrom filled (.modify mo arg) = { body := some (.modify mo arg) } := by
  rw [peelFrom, if_pos (List.contains_iff_mem.2 h)]

theorem peelFrom_free {filled : List Slot} {mo : Modifier} (h : mo.slot ∉ filled) (arg : Tree) :
    peelFrom filled (.modify mo arg) = (peelFrom (mo.slot :: filled) arg).deeper.record mo := by
  rw [peelFrom, if_neg fun hmem => h (List.contains_iff_mem.1 hmem)]
  rfl

theorem peelFrom_bare_filled {filled : List Slot} (h : .selection ∈ filled) (s : Selection) :
    peelFrom filled (.bare s) = { body := some (.bare s) } := by
  rw [peelFrom, if_pos (List.contains_iff_mem.2 h)]

theorem peelFrom_bare_free {filled : List Slot} (h : .selection ∉ filled) (s : Selection) :
    peelFrom filled (.bare s) = { body := none, lists := s.lists } := by
  rw [peelFrom, if_neg fun hmem => h (List.contains_iff_mem.1 hmem)]

theorem peelFrom_stopped {filled : List Slot} {t : Tree} (h : t.Stops filled) :
    peelFrom filled t = { body := some t } := by
  cases t with
  | modify mo arg => exact peelFrom_filled (h _ rfl) arg
  | bare s => exact peelFrom_bare_filled (h _ rfl) s
  | _ => rfl

/-- Peeling goes down one modifier in a free slot after the other, to a projection without input
or to where it stops. -/
@[elab_as_elim]
theorem peel_induction {motive : List Slot → Tree → Prop}
    (stops : ∀ filled t, t.Stops filled → motive filled t)
    (bare : ∀ filled s, Slot.selection ∉ filled → motive filled (.bare s))
    (modify : ∀ filled mo arg, mo.slot ∉ filled → motive (mo.slot :: filled) arg →
      motive filled (.modify mo arg))
    (filled : List Slot) (t : Tree) : motive filled t := by
  induction t generalizing filled with
  | modify mo arg ih =>
    by_cases hmo : mo.slot ∈ filled
    · exact stops _ _ fun _ hslot => Option.some.inj hslot ▸ hmo
    · exact modify _ _ _ hmo (ih _)
  | bare s =>
    by_cases hs : Slot.selection ∈ filled
    · exact stops _ _ fun _ hslot => Option.some.inj hslot ▸ hs
    · exact bare _ _ hs
  | _ => exact stops _ _ (Tree.stops_of_slot?_eq_none rfl _)

theorem error?_items (language : Language) (o : Outline) :
    Outcome.error? (o.items language) =
      if 1 < o.lists.length then some (.feature language .severalSelections) else none := by
  unfold items
  split
  · rename_i h
    simp [h, Outcome.error?]
  · rename_i h
    simp [h, Outcome.error?]
  · rename_i hnil hsingle
    have hlength : 1 < o.lists.length := by
      cases hlists : o.lists with
      | nil => exact absurd hlists hnil
      | cons columns rest =>
        cases rest with
        | nil => exact absurd hlists (hsingle columns)
        | cons next rest => simp
    rw [if_pos hlength]
    rfl

theorem items_eq {o : Outline} {language : Language} {items : List SelectItem}
    (h : o.items language = .ok items) : items = o.lists.flatten.map o.item := by
  unfold Outline.items at h
  split at h
  · rename_i hlists
    cases h
    rw [hlists]
    rfl
  · rename_i columns hlists
    cases h
    rw [hlists, List.flatten_singleton]
  · cases h

/-! ## The chain from the root -/

/-- Where the modifiers end: at the body, or at a projection that has no input. -/
inductive Ends (filled : List Slot) (o : Outline) : Tree → Prop where
  | body (core : Tree) (hbody : o.body = some core) : Ends filled o core
  | bare (s : Selection) (hfree : .selection ∉ filled) (hbody : o.body = none)
      (hlists : o.lists = s.lists) : Ends filled o (.bare s)

/-- The modifiers of a tree down to `core`, all of which the outline has. -/
structure Chain (filled : List Slot) (o : Outline) (t : Tree) (modifiers : List Modifier)
    (core : Tree) : Prop where
  tree : t = core.under modifiers
  slots_once : (modifiers.map Modifier.slot ++ filled).Nodup
  recorded : ∀ mo ∈ modifiers, o.record mo = o
  ends : Ends (modifiers.map Modifier.slot ++ filled) o core

theorem Ends.of_subset {filled filled' : List Slot} {o : Outline} {core : Tree}
    (h : Ends filled o core) (hsub : filled' ⊆ filled) : Ends filled' o core := by
  cases h with
  | body core hbody => exact .body core hbody
  | bare s hfree hbody hlists => exact .bare s (fun hmem => hfree (hsub hmem)) hbody hlists

/-- A modifier in another slot leaves the end of the chain as it is. -/
theorem Ends.record {filled : List Slot} {o : Outline} {core : Tree} (h : Ends filled o core)
    {mo : Modifier} (hmo : mo.slot ∈ filled) : Ends filled (o.deeper.record mo) core := by
  cases h with
  | body core hbody => exact .body core (by rw [record_body]; exact hbody)
  | bare s hfree hbody hlists =>
    refine .bare s hfree (by rw [record_body]; exact hbody) ?_
    rw [record_lists fun hslot => hfree (hslot ▸ hmo)]
    exact hlists

theorem Chain.of_body {filled : List Slot} (hfilled : filled.Nodup) {o : Outline} {t : Tree}
    (h : o.body = some t) : Chain filled o t [] t :=
  ⟨rfl, hfilled, List.forall_mem_nil _, .body t h⟩

/-- One modifier more above the chain. -/
theorem Chain.cons {filled : List Slot} {o : Outline} {t : Tree} {mo : Modifier}
    {modifiers : List Modifier} {core : Tree} (h : Chain (mo.slot :: filled) o t modifiers core) :
    Chain filled (o.deeper.record mo) (.modify mo t) (mo :: modifiers) core := by
  have hperm : (modifiers.map Modifier.slot ++ mo.slot :: filled).Perm
      ((mo :: modifiers).map Modifier.slot ++ filled) := List.perm_middle
  have hslots := hperm.nodup_iff.1 h.slots_once
  refine ⟨congrArg _ h.tree, hslots, ?_, ?_⟩
  · intro m hm
    rcases List.mem_cons.1 hm with rfl | hm
    · exact record_record _ _
    · have hne : mo.slot ≠ m.slot := by
        intro heq
        have hnot := (List.nodup_cons.1 hslots).1
        exact hnot (List.mem_append_left _ (heq ▸ List.mem_map_of_mem hm))
      rw [record_comm _ hne, record_deeper, h.recorded m hm]
  · exact (h.ends.record (List.mem_append_right _ List.mem_cons_self)).of_subset
      hperm.symm.subset

/-- The chain is as long as it can be. Where none of its modifiers binds anything, nothing is
bound. -/
theorem exists_chain (filled : List Slot) (hfilled : filled.Nodup) (t : Tree) :
    ∃ modifiers core, Chain filled (peelFrom filled t) t modifiers core ∧
      ((peelFrom filled t).body = some core →
        core.Stops (modifiers.map Modifier.slot ++ filled)) ∧
      (.bindings ∉ modifiers.map Modifier.slot →
        (peelFrom filled t).bindings = OrderedMap.empty) := by
  induction filled, t using peel_induction with
  | stops filled t h =>
    rw [peelFrom_stopped h]
    exact ⟨[], t, .of_body hfilled rfl, fun _ => h, fun _ => rfl⟩
  | bare filled s h =>
    rw [peelFrom_bare_free h]
    exact ⟨[], .bare s, ⟨rfl, hfilled, List.forall_mem_nil _, .bare s h rfl rfl⟩, nofun,
      fun _ => rfl⟩
  | modify filled mo arg h ih =>
    obtain ⟨modifiers, core, hchain, hstops, hnone⟩ := ih (hfilled.cons h)
    rw [peelFrom_free h]
    refine ⟨_, _, hchain.cons, fun hbody slot hslot => ?_, fun hbindings => ?_⟩
    · rw [record_body] at hbody
      exact List.perm_middle.subset (hstops hbody slot hslot)
    · rw [List.map_cons, List.mem_cons, not_or] at hbindings
      rw [record_bindings (Ne.symm hbindings.1)]
      exact hnone hbindings.2

/-- Of the whole tree: no slot is filled before its root. -/
theorem exists_peel_chain (t : Tree) : ∃ modifiers core, Chain [] (peel t) t modifiers core := by
  obtain ⟨modifiers, core, hchain, -, -⟩ := exists_chain [] List.nodup_nil t
  exact ⟨modifiers, core, hchain⟩

end Outline

end RdfQuery
