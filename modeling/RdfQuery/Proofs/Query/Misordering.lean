import RdfQuery.Proofs.Query.Forms
import RdfQuery.Proofs.Query.Reordering
import RdfQuery.Proofs.Sparql.Sample

/-!
# Orders of modifiers that the text respects

However the modifiers of a tree are nested, the outline is the same, so the text
gives what they give in its own order. For each two slots that may not stand in the
other order there are modifiers that do not commute, and all others around them can be
kept from doing anything. So an order is respected, whatever its modifiers say, exactly
if each two of its slots are in an order that is.
-/

set_option autoImplicit false

namespace RdfQuery

namespace Tree

theorem modifiers_above (core : Tree) (modifiers : List Modifier) :
    (core.under modifiers).modifiers = modifiers ++ core.modifiers := by
  induction modifiers with
  | nil => rfl
  | cons mo modifiers ih => exact congrArg (mo :: ·) ih

theorem modifiers_under {core : Tree} (h : core.modifiers = []) (modifiers : List Modifier) :
    (core.under modifiers).modifiers = modifiers := by
  rw [modifiers_above, h, List.append_nil]

theorem ground_under (core : Tree) (modifiers : List Modifier) :
    (core.under modifiers).ground = core.ground := by
  induction modifiers with
  | nil => rfl
  | cons mo modifiers ih => exact ih

theorem root_of_groupKinds {core : Tree} (h : core.kind ∈ groupKinds) :
    core.modifiers = [] ∧ core.ground = core := by
  cases core with
  | modify mo arg =>
    cases mo with
    | select s => cases s <;> simp [kind, Modifier.kind, Selection.kind, groupKinds] at h
    | _ => simp [kind, Modifier.kind, groupKinds] at h
  | bare s => cases s <;> simp [kind, Selection.kind, groupKinds] at h
  | _ => exact ⟨rfl, rfl⟩

end Tree

/-! ## One outline for all orders -/

namespace Outline

theorem recordAll_perm {modifiers modifiers' : List Modifier} (h : modifiers.Perm modifiers')
    (hslots : (modifiers.map Modifier.slot).Nodup) (o : Outline) :
    recordAll modifiers o = recordAll modifiers' o := by
  induction h with
  | nil => rfl
  | cons mo h ih => exact congrArg (fun o => (deeper o).record mo) (ih (List.nodup_cons.1 hslots).2)
  | swap mo mo' modifiers =>
    have hne : mo.slot ≠ mo'.slot := fun heq =>
      (List.nodup_cons.1 hslots).1 (heq ▸ List.mem_cons_self)
    calc
      (deeper ((deeper (recordAll modifiers o)).record mo)).record mo'
        = deeper (((deeper (recordAll modifiers o)).record mo).record mo') := record_deeper _ mo'
      _ = deeper (((deeper (recordAll modifiers o)).record mo').record mo) := by
        rw [record_comm _ hne]
      _ = (deeper ((deeper (recordAll modifiers o)).record mo')).record mo :=
        (record_deeper _ mo).symm
  | trans h h' ih ih' => exact (ih hslots).trans (ih' (((h.map _).nodup_iff).1 hslots))

/-- Nothing in the outline tells how the modifiers were nested. -/
theorem peel_perm {core : Tree} (hcore : core.kind ∈ Tree.groupKinds)
    {modifiers modifiers' : List Modifier} (h : modifiers.Perm modifiers')
    (hslots : (modifiers.map Modifier.slot).Nodup) :
    peel (core.under modifiers) = peel (core.under modifiers') := by
  have hslots' := ((h.map _).nodup_iff).1 hslots
  rw [peel_under hslots (stops_of_groupKinds hcore _),
    peel_under hslots' (stops_of_groupKinds hcore _), recordAll_perm h hslots]

end Outline

/-! ## Slots with nothing to say -/

namespace Slot

/-- The slots as the text applies them, the last one first. -/
def written : List Slot := [.slice, .repeats, .selection, .order, .bindings]

def sorted (slots : List Slot) : List Slot := written.filter fun slot => slot ∈ slots

theorem sorted_perm {slots : List Slot} (h : slots.Nodup) : (sorted slots).Perm slots := by
  have hwritten : written.Nodup := by decide
  refine (List.perm_ext_iff_of_nodup (hwritten.filter _) h).2 fun slot => ?_
  have hmem : slot ∈ written := by cases slot <;> decide
  simp only [List.mem_filter, decide_eq_true_eq, and_iff_right hmem]

theorem sorted_follows (slots : List Slot) :
    (sorted slots).Pairwise fun outer inner => outer.follows inner = true := by
  have hwritten : written.Pairwise fun outer inner => outer.follows inner = true := by decide
  exact hwritten.sublist List.filter_sublist

/-- Two slots that may not stand in this order stand in the other one in the text. -/
theorem pair_sublist_sorted {slots : List Slot} {outer inner : Slot} (houter : outer ∈ slots)
    (hinner : inner ∈ slots) (h : outer.follows inner = false) :
    [inner, outer].Sublist (sorted slots) := by
  have hwritten : [inner, outer].Sublist written := by
    cases outer <;> cases inner <;> first | decide | cases h
  have hfilter := hwritten.filter fun slot => slot ∈ slots
  rwa [List.filter_eq_self.2 (by simp [houter, hinner])] at hfilter

/-- A modifier that changes nothing; of different solutions none is dropped. -/
def idle : Slot → Modifier
  | .slice => .slice none none
  | .repeats => .distinct
  | .selection => .select (.single [])
  | .bindings => .extend []
  | .order => .order []

theorem slot_idle (slot : Slot) : slot.idle.slot = slot := by cases slot <;> rfl

end Slot

section

variable {l : Library} {c : Collation} {xs ys : List Solution}

theorem thinned_of_nodup (hxs : xs.Nodup) : Thinned .distinct xs ys ↔ ys = xs := by
  constructor
  · intro h
    have hperm := (List.perm_ext_iff_of_nodup (h.nodup rfl) hxs).2 fun a =>
      ⟨fun ha => h.sublist.subset ha, fun ha => h.subset ha⟩
    exact h.sublist.eq_of_length hperm.length_eq
  · rintro rfl
    exact ⟨List.Sublist.refl _, List.Subset.refl _, nofun, fun _ => hxs⟩

theorem Slot.gives_idle {slot : Slot} (hxs : slot = .repeats → xs.Nodup) :
    slot.idle.Gives l c xs ys ↔ ys = xs := by
  cases slot with
  | slice => exact Iff.rfl
  | repeats => exact thinned_of_nodup (hxs rfl)
  | selection =>
    have hone : [([] : Columns)].length ≤ 1 := Nat.le_refl 1
    have hrows := Solution.flatMap_rows hone (fun _ => List.mem_singleton.1) xs
    rw [Slot.idle, Modifier.Gives, Selection.lists, hrows]
  | bindings =>
    have hmap : xs.map (Solution.boundAll l []) = xs := List.map_id xs
    rw [Slot.idle, Modifier.Gives, List.map_nil, hmap]
  | order => exact Iff.rfl

/-- Modifiers that change nothing may be left out. -/
theorem gives_sublist {slots active : List Slot} (h : active.Sublist slots)
    (hslots : slots.Nodup) (f : Slot → Modifier)
    (hidle : ∀ slot ∈ slots, slot ∉ active → ∀ rest, rest <:+ active → ∀ zs,
      GivesAll l c (rest.map f) xs zs → ∀ ws, (f slot).Gives l c zs ws ↔ ws = zs) :
    GivesAll l c (slots.map f) xs ys ↔ GivesAll l c (active.map f) xs ys := by
  induction h generalizing ys with
  | slnil => exact Iff.rfl
  | @cons active slots slot h ih =>
    obtain ⟨hslot, hslots⟩ := List.nodup_cons.1 hslots
    have hih (zs : List Solution) :=
      @ih zs hslots fun s hs => hidle s (List.mem_cons_of_mem _ hs)
    have hactive : slot ∉ active := fun hmem => hslot (h.subset hmem)
    have hgives := hidle slot List.mem_cons_self hactive active List.suffix_rfl
    constructor
    · rintro ⟨zs, hzs, hys⟩
      rw [hih zs] at hzs
      rwa [(hgives zs hzs ys).1 hys]
    · intro hys
      exact ⟨ys, (hih ys).2 hys, (hgives ys hys ys).2 rfl⟩
  | @cons_cons active slots slot h ih =>
    obtain ⟨hslot, hslots⟩ := List.nodup_cons.1 hslots
    refine exists_congr fun zs => and_congr_left' (ih hslots ?_)
    intro s hs hactive rest hrest
    have hne : s ≠ slot := fun heq => hslot (heq ▸ hs)
    refine hidle s (List.mem_cons_of_mem _ hs) ?_ rest (hrest.trans (List.suffix_cons slot active))
    rw [List.mem_cons, not_or]
    exact ⟨hne, hactive⟩

end

/-! ## Modifiers that do not commute -/

/-- The columns are one list and no template, and the bindings are fresh. -/
def Modifier.Simple (names : List String) : Modifier → Prop
  | .select s => s.lists.length ≤ 1 ∧ s.lists.any Columns.isTemplate = false
  | .extend bindings =>
    (bindings.map Binding.name).Nodup ∧ ∀ b ∈ bindings, b.name ∉ names
  | _ => True

theorem Slot.simple_idle (names : List String) (slot : Slot) : slot.idle.Simple names := by
  cases slot with
  | selection => exact ⟨Nat.le_refl 1, rfl⟩
  | bindings => exact ⟨List.nodup_nil, nofun⟩
  | _ => trivial

theorem selects_under {core : Tree} (hcore : ∀ u ∈ core.subtrees, u.kind ∈ Tree.groupKinds)
    {modifiers : List Modifier} (hslots : (modifiers.map Modifier.slot).Nodup)
    (hsimple : ∀ mo ∈ modifiers, mo.Simple core.names) :
    Sparql.Selects (core.under modifiers) ∧ (core.under modifiers).BindsAfresh := by
  have hroot := hcore core core.self_mem_subtrees
  obtain ⟨hnone, hground⟩ := Tree.root_of_groupKinds hroot
  have hmodifiers := Tree.modifiers_under hnone modifiers
  have hlists : (Outline.peel (core.under modifiers)).lists.length ≤ 1 ∧
      (Outline.peel (core.under modifiers)).lists.any Columns.isTemplate = false :=
    Outline.lists_peelFrom (p := fun lists => lists.length ≤ 1 ∧
      lists.any Columns.isTemplate = false) ⟨Nat.zero_le 1, rfl⟩ fun s hs =>
      hsimple (.select s) (hmodifiers ▸ hs)
  have hbody : (Outline.peel (core.under modifiers)).body = some core := by
    rw [Outline.peel_under hslots (Outline.stops_of_groupKinds hroot _), Outline.recordAll_body]
  refine ⟨Sparql.selects_iff.2 ⟨?_, hlists.1, ?_⟩, ?_⟩
  · rw [Outline.shape, hlists.2]
    rfl
  · rw [hbody]
    intro body hmem u hu
    cases hmem
    exact QueryCall.groupKinds_subset (hcore u hu)
  · intro bindings hmem
    rw [hmodifiers] at hmem
    rw [Tree.ground_under, hground]
    exact hsimple _ hmem

/-- The values of the name stay as they are. -/
def Modifier.Spares (name : String) : Modifier → Prop
  | .select s => s.lists.length ≤ 1 ∧ ∀ columns ∈ s.lists, columns.Keeps name
  | .extend bindings => name ∉ bindings.map Binding.name
  | _ => True

section

variable {l : Library} {c : Collation} {xs ys : List Solution}

theorem Modifier.Spares.nodup {name : String} {mo : Modifier} (h : mo.Spares name)
    (hgives : mo.Gives l c xs ys) (hxs : (xs.map fun a => a name).Nodup) :
    (ys.map fun a => a name).Nodup := by
  have hmap {f : Solution → Solution} (hf : ∀ a, f a name = a name) :
      ((xs.map f).map fun a => a name).Nodup := by
    rw [List.map_map, show (fun a : Solution => a name) ∘ f = fun a => a name from funext hf]
    exact hxs
  cases mo with
  | select s =>
    obtain ⟨f, hf, hkeeps⟩ := Solution.exists_rows_eq h.1
    rw [show ys = _ from hgives, hf]
    exact hmap (hkeeps name h.2)
  | extend bindings =>
    have hname : name ∉ (bindings.map Binding.entry).map Prod.fst :=
      Binding.fst_entries bindings ▸ h
    rw [show ys = _ from hgives]
    exact hmap (Solution.boundAll_eq hname)
  | order keys => exact ((hgives.perm.map _).nodup_iff).2 hxs
  | distinct => exact (hgives.sublist.map _).nodup hxs
  | reduced => exact (hgives.sublist.map _).nodup hxs
  | slice limit offset =>
    rw [show ys = _ from hgives]
    exact ((sliced_sublist limit offset xs).map _).nodup hxs

theorem nodup_of_spares {name : String} {modifiers : List Modifier}
    (h : ∀ mo ∈ modifiers, mo.Spares name) (hxs : (xs.map fun a => a name).Nodup)
    (hgives : GivesAll l c modifiers xs ys) : ys.Nodup := by
  refine List.Nodup.of_map (fun a => a name) ?_
  induction modifiers generalizing ys with
  | nil => exact (show ys = xs from hgives) ▸ hxs
  | cons mo modifiers ih =>
    obtain ⟨hmo, hrest⟩ := List.forall_mem_cons.1 h
    obtain ⟨zs, hzs, hys⟩ := hgives
    exact hmo.nodup hys (ih hrest hzs)

end

/-- Two modifiers over a body, for which it makes a difference which of them stands above the
other. If neither drops repetitions, there are none at any time. -/
structure Conflict (l : Library) (c : Collation) (data : Finset Quad) (core : Tree)
    (outer inner : Modifier) (xs ys : List Solution) : Prop where
  kinds : ∀ u ∈ core.subtrees, u.kind ∈ Tree.groupKinds
  listed : (xs : Multiset Solution) = core.solutions l data
  simple : ∀ mo ∈ [outer, inner], mo.Simple core.names
  nested : GivesAll l c [outer, inner] xs ys
  written : ¬ GivesAll l c [inner, outer] xs ys
  nodup : (outer.slot = .repeats ∨ inner.slot = .repeats) ∨
    ∃ name, (xs.map fun a => a name).Nodup ∧ ∀ mo ∈ [outer, inner], mo.Spares name

namespace Conflict

variable {l : Library} {c : Collation} {data : Finset Quad} {core : Tree} {outer inner : Modifier}
  {xs ys : List Solution}

/-- All slots but those two have nothing to say. -/
def contents (outer inner : Modifier) (slot : Slot) : Modifier :=
  if slot = outer.slot then outer else if slot = inner.slot then inner else slot.idle

theorem slot_contents (outer inner : Modifier) (slot : Slot) :
    (contents outer inner slot).slot = slot := by
  unfold contents
  split
  · rename_i h
    exact h.symm
  · split
    · rename_i h
      exact h.symm
    · exact slot.slot_idle

theorem map_slot_contents (outer inner : Modifier) (slots : List Slot) :
    (slots.map (contents outer inner)).map Modifier.slot = slots := by
  rw [List.map_map, show Modifier.slot ∘ contents outer inner = id from
    funext (slot_contents outer inner), List.map_id]

theorem contents_outer : contents outer inner outer.slot = outer := if_pos rfl

theorem contents_inner (h : inner.slot ≠ outer.slot) : contents outer inner inner.slot = inner := by
  rw [contents, if_neg h, if_pos rfl]

theorem contents_other {slot : Slot} (h : slot ∉ [outer.slot, inner.slot]) :
    contents outer inner slot = slot.idle := by
  rw [List.mem_cons, List.mem_singleton, not_or] at h
  rw [contents, if_neg h.1, if_neg h.2]

variable (h : Conflict l c data core outer inner xs ys)

include h

theorem simple_contents (slot : Slot) : (contents outer inner slot).Simple core.names := by
  unfold contents
  split
  · exact h.simple outer List.mem_cons_self
  · split
    · exact h.simple inner (List.mem_cons_of_mem _ List.mem_cons_self)
    · exact slot.simple_idle core.names

/-- Nothing but the two modifiers is to be looked at. -/
theorem gives_contents {slots active : List Slot} (hslots : slots.Nodup)
    (hsub : active.Sublist slots) (hactive : active.map (contents outer inner) = [outer, inner] ∨
      active.map (contents outer inner) = [inner, outer]) :
    GivesAll l c (slots.map (contents outer inner)) xs ys ↔
      GivesAll l c (active.map (contents outer inner)) xs ys := by
  refine gives_sublist hsub hslots _ fun slot _ hother rest hrest zs hzs ws => ?_
  have hslot : slot ≠ outer.slot ∧ slot ≠ inner.slot := by
    rw [← map_slot_contents outer inner active] at hother
    rcases hactive with hactive | hactive <;> rw [hactive] at hother <;>
      simp only [List.map_cons, List.map_nil, List.mem_cons, List.not_mem_nil, or_false,
        not_or] at hother
    · exact hother
    · exact hother.symm
  rw [contents_other (by simpa using hslot)]
  refine Slot.gives_idle fun hrepeats => ?_
  obtain ⟨name, hxs, hspares⟩ := h.nodup.resolve_left fun heq =>
    heq.elim (fun heq => hslot.1 (hrepeats.trans heq.symm))
      fun heq => hslot.2 (hrepeats.trans heq.symm)
  refine nodup_of_spares (fun mo hmo => hspares mo ?_) hxs hzs
  have hmem := (hrest.map (contents outer inner)).subset hmo
  rcases hactive with hactive | hactive
  · exact hactive ▸ hmem
  · exact (List.Perm.swap _ _ []).mem_iff.1 (hactive ▸ hmem)

theorem selects_contents {slots : List Slot} (hslots : slots.Nodup) :
    Sparql.Selects (core.under (slots.map (contents outer inner))) ∧
      (core.under (slots.map (contents outer inner))).BindsAfresh := by
  refine selects_under h.kinds (by rwa [map_slot_contents]) fun mo hmo => ?_
  obtain ⟨slot, -, rfl⟩ := List.mem_map.1 hmo
  exact h.simple_contents slot

/-- A text that the tree agrees with makes the order of the tree that of the text. -/
theorem gives_sorted {slots : List Slot} (hslots : slots.Nodup)
    (hsame : (core.under (slots.map (contents outer inner))).SameSequences l) :
    GivesAll l c (slots.map (contents outer inner)) xs ys ↔
      GivesAll l c ((Slot.sorted slots).map (contents outer inner)) xs ys := by
  have hroot := h.kinds core core.self_mem_subtrees
  obtain ⟨hnone, hground⟩ := Tree.root_of_groupKinds hroot
  have hlisted (modifiers : List Modifier) :
      (xs : Multiset Solution) = (core.under modifiers).ground.solutions l data := by
    rw [Tree.ground_under, hground]
    exact h.listed
  have hsorted := Slot.sorted_perm hslots
  obtain ⟨hselects, hafresh⟩ := h.selects_contents (hsorted.nodup_iff.2 hslots)
  have hpasses : ((Slot.sorted slots).map (contents outer inner)).Pairwise Modifier.Passes := by
    refine List.pairwise_map.2 ((Slot.sorted_follows slots).imp fun hfollows => Or.inl ?_)
    rwa [slot_contents, slot_contents]
  have hplaced := Tree.sameSequences (l := l) hselects hafresh
    (by rwa [Tree.modifiers_under hnone]) c data xs ys (hlisted _)
  have hnested := hsame c data xs ys (hlisted _)
  rw [Tree.modifiers_under hnone] at hplaced hnested
  rw [hnested, hplaced, Outline.peel_perm hroot (hsorted.map _)
    (by rw [map_slot_contents]; exact hsorted.nodup_iff.2 hslots)]

/-- With the conflicting modifiers out of order, the tree is not what its text says. -/
theorem not_same {slots : List Slot} (hslots : slots.Nodup)
    (hsub : [outer.slot, inner.slot].Sublist slots)
    (hbad : outer.slot.follows inner.slot = false) :
    ¬ (core.under (slots.map (contents outer inner))).SameSequences l := by
  have hne : inner.slot ≠ outer.slot := fun heq =>
    (List.nodup_cons.1 (hsub.nodup hslots)).1 (heq ▸ List.mem_cons_self)
  have hnested : [outer.slot, inner.slot].map (contents outer inner) = [outer, inner] := by
    simp only [List.map_cons, List.map_nil, contents_outer, contents_inner hne]
  have hwritten : [inner.slot, outer.slot].map (contents outer inner) = [inner, outer] := by
    simp only [List.map_cons, List.map_nil, contents_outer, contents_inner hne]
  have houter : outer.slot ∈ slots := hsub.subset List.mem_cons_self
  have hinner : inner.slot ∈ slots := hsub.subset (List.mem_cons_of_mem _ List.mem_cons_self)
  have hsorted := Slot.pair_sublist_sorted houter hinner hbad
  have hnodup := (Slot.sorted_perm hslots).nodup_iff.2 hslots
  intro hsame
  apply h.written
  rw [← hwritten, ← h.gives_contents hnodup hsorted (Or.inr hwritten),
    ← h.gives_sorted hslots hsame, h.gives_contents hslots hsub (Or.inl hnested), hnested]
  exact h.nested

/-- A tree in this order, which gives another sequence than its text. -/
theorem exists_tree {slots : List Slot} (hslots : slots.Nodup)
    (hsub : [outer.slot, inner.slot].Sublist slots)
    (hbad : outer.slot.follows inner.slot = false) :
    ∃ t, Sparql.Selects t ∧ t.BindsAfresh ∧ t.modifiers.map Modifier.slot = slots ∧
      ¬ t.SameSequences l := by
  obtain ⟨hselects, hafresh⟩ := h.selects_contents hslots
  refine ⟨_, hselects, hafresh, ?_, h.not_same hslots hsub hbad⟩
  obtain ⟨hnone, -⟩ := Tree.root_of_groupKinds (h.kinds core core.self_mem_subtrees)
  rw [Tree.modifiers_under hnone, map_slot_contents]

end Conflict

/-! ## A conflict for each two slots -/

/-- Values come after no value, in no order among themselves. -/
def Collation.unboundFirst : Collation where
  le x y := x = none ∨ y ≠ none
  total x y := by
    by_cases hx : x = none
    · exact Or.inl (Or.inl hx)
    · exact Or.inr (Or.inr hx)
  trans hxy hyz := hxy.imp_right fun hy => hyz.resolve_left hy
  none_le _ := Or.inl rfl

namespace Conflict

open Sparql.Sample (node one asked given)

variable {l : Library}

def data : Finset Quad := {⟨none, node, one, one⟩}

/-- One solution for `x` and one for `y`. -/
def either : Tree :=
  .union (.pattern (asked one (.var (.user "x")))) (.pattern (asked one (.var (.user "y"))))

def twice : Tree := .union .unit .unit

theorem solutions_of_match {p : TriplePattern} {a : Solution}
    (h : p.match? ⟨none, node, one, one⟩ = some a) :
    (Tree.pattern p).solutions l data = {a} := by
  rw [Tree.solutions, show data.val = {⟨none, node, one, one⟩} from rfl,
    ← Multiset.cons_zero, Multiset.filterMap_cons_some _ _ _ h, Multiset.filterMap_zero,
    Multiset.cons_zero]

theorem solutions_asked (name : String) :
    (Tree.pattern (asked one (.var (.user name)))).solutions l data = {given name one} := by
  apply solutions_of_match
  simp [TriplePattern.match?, asked, Term.match?, TriplePattern.graphMatch?]
  rfl

theorem listed_either : (([given "y" one, given "x" one] : List Solution) : Multiset Solution) =
    either.solutions l data := by
  rw [either, Tree.union, Tree.solutions, solutions_asked, solutions_asked]
  exact Multiset.add_comm {given "y" one} {given "x" one}

def byName (name : String) : SortKey := ⟨.var (.user name), true⟩

/-- A solution with a value for the name does not come before one without. -/
theorem not_arranged {name : String} {xs rest : List Solution} {a b : Solution}
    (ha : a name ≠ none) (hb : b name = none) (hmem : b ∈ rest) :
    ¬ Arranged l .unboundFirst [byName name] xs (a :: rest) := by
  rintro ⟨-, hsorted⟩
  exact ((List.pairwise_cons.1 hsorted).1 b hmem).1.elim ha fun h => h hb

/-- Without values for the name every order will do. -/
theorem arranged_of_unbound {name : String} {xs : List Solution} (h : ∀ a ∈ xs, a name = none) :
    Arranged l .unboundFirst [byName name] xs xs := by
  refine ⟨List.Perm.refl _, List.pairwise_of_forall_mem_list fun a ha b _ => ?_⟩
  exact ⟨Or.inl (h a ha), fun _ => trivial⟩

theorem given_self (name : String) : given name one name = some one := if_pos rfl

theorem given_other {name other : String} (h : other ≠ name) : given name one other = none :=
  if_neg h

/-- Only the name is shown. -/
def only (name : String) : Modifier := .select (.single [.same name])

theorem gives_only {c : Collation} {name : String} {xs ys : List Solution} :
    (only name).Gives l c xs ys ↔ ys = xs.map (Solution.shown [.same name]) := by
  rw [only, Modifier.Gives, Selection.lists, List.map_eq_flatMap]
  rfl

theorem shown_same (name other : String) (a : Solution) :
    a.shown [.same name] other = if other = name then a other else none := by
  show a.project [.same name] other = _
  by_cases h : other = name
  · simp [Solution.project, Column.same, h]
  · simp [Solution.project, Column.same, h, Ne.symm h]

theorem kinds_either : ∀ u ∈ either.subtrees, u.kind ∈ Tree.groupKinds := by
  simp [either, Tree.union, Tree.subtrees, Tree.kind, Combination.kind, Tree.groupKinds]

theorem names_either : either.names = ["x", "y"] := by
  simp [either, Tree.union, Tree.names, TriplePattern.names, asked, TriplePattern.terms, Term.names,
    Term.variables, Variable.user]

theorem nodup_values : ([given "y" one, given "x" one].map fun a => a "x").Nodup := by
  simp [given_self, given_other]

theorem nodup_either : [given "y" one, given "x" one].Nodup := List.Nodup.of_map _ nodup_values

/-- The name `z` is bound. -/
def binding (e : Expr) : Modifier := .extend [⟨"z", e⟩]

theorem spares_only (name : String) : (only name).Spares name := by
  refine ⟨Nat.le_refl 1, fun columns hcolumns => ?_⟩
  cases List.mem_singleton.1 hcolumns
  exact Or.inr (by simp [Column.same])

theorem spares_binding (e : Expr) {name : String} (h : name ≠ "z") : (binding e).Spares name := by
  simpa [binding, Modifier.Spares] using h

/-- The solution for `x` comes first. -/
theorem not_first {rest : List Solution} :
    ¬ Arranged l .unboundFirst [byName "y"] [given "y" one, given "x" one]
      (given "y" one :: rest) := by
  intro h
  have hmem : given "x" one ∈ given "y" one :: rest :=
    h.perm.mem_iff.2 (List.mem_cons_of_mem _ List.mem_cons_self)
  have hne : given "x" one ≠ given "y" one := fun heq =>
    (List.nodup_cons.1 nodup_either).1 (heq ▸ List.mem_cons_self)
  exact not_arranged (by simp [given_self]) (given_other (by decide))
    ((List.mem_cons.1 hmem).resolve_left hne) h

variable (l)

variable {l} in
/-- Of two equal solutions the second is left by the slice, and none if one was dropped before. -/
theorem repeats_slice (c : Collation) {core : Tree} {a : Solution}
    (hkinds : ∀ u ∈ core.subtrees, u.kind ∈ Tree.groupKinds)
    (hlisted : (([a, a] : List Solution) : Multiset Solution) = core.solutions l data) :
    Conflict l c data core .distinct (.slice none (some 1)) [a, a] [a] where
  kinds := hkinds
  listed := hlisted
  simple := by simp [Modifier.Simple]
  nested := ⟨_, ⟨_, rfl, rfl⟩, (thinned_of_nodup (List.nodup_singleton _)).2 rfl⟩
  written := by
    rintro ⟨zs, ⟨_, rfl, hzs⟩, hys⟩
    cases zs with
    | nil => cases hys
    | cons z rest =>
      have hrest : [a] = rest := hys
      have hz : z = a := by simpa using hzs.sublist.subset List.mem_cons_self
      exact (List.nodup_cons.1 (hzs.nodup rfl)).1 (by rw [hz, ← hrest]; exact List.mem_cons_self)
  nodup := Or.inl (Or.inl rfl)

theorem selection_repeats (c : Collation) : Conflict l c data either (only "z") .distinct
    [given "y" one, given "x" one] [Solution.empty, Solution.empty] where
  kinds := kinds_either
  listed := listed_either
  simple := by simp [Modifier.Simple, only, Selection.lists, Columns.isTemplate]
  nested := by
    have hnone {name : String} (h : "z" ≠ name) :
        (given name one).shown [.same "z"] = Solution.empty := by
      funext other
      rw [shown_same]
      split
      · rename_i hother
        rw [hother, given_other h]
        rfl
      · rfl
    refine ⟨_, ⟨_, rfl, (thinned_of_nodup nodup_either).2 rfl⟩, gives_only.2 ?_⟩
    rw [List.map_cons, List.map_cons, List.map_nil, hnone (by decide), hnone (by decide)]
  written := by
    rintro ⟨zs, -, hys⟩
    exact (List.nodup_cons.1 (hys.nodup rfl)).1 List.mem_cons_self
  nodup := Or.inl (Or.inr rfl)

theorem bindings_selection (c : Collation) : Conflict l c data either (binding (.const one))
    (only "x") [given "y" one, given "x" one] (([given "y" one, given "x" one].map
      (Solution.shown [.same "x"])).map fun a => a.bound l ("z", .const one)) where
  kinds := kinds_either
  listed := listed_either
  simple := by
    simp [Modifier.Simple, only, binding, Selection.lists, Columns.isTemplate, names_either]
  nested := ⟨_, ⟨_, rfl, gives_only.2 rfl⟩, rfl⟩
  written := by
    rintro ⟨zs, ⟨_, rfl, hzs⟩, hys⟩
    rw [gives_only, hzs] at hys
    have hz := congrArg (fun ys : List Solution => ys.map fun a => a "z") hys
    simp [shown_same, Solution.bound, Expr.value, Solution.boundAll, Binding.entry] at hz
  nodup := Or.inr ⟨"x", nodup_values, by simp [spares_only, spares_binding]⟩

theorem order_slice : Conflict l .unboundFirst data either (.order [byName "y"])
    (.slice (some 1) none) [given "y" one, given "x" one] [given "y" one] where
  kinds := kinds_either
  listed := listed_either
  simple := by simp [Modifier.Simple]
  nested := ⟨_, ⟨_, rfl, rfl⟩, List.Perm.refl _, List.pairwise_singleton _ _⟩
  written := by
    rintro ⟨zs, ⟨_, rfl, hzs⟩, hys⟩
    cases zs with
    | nil => cases hys
    | cons z rest =>
      cases hys
      exact not_first hzs
  nodup := Or.inr ⟨"x", nodup_values, by simp [Modifier.Spares]⟩

theorem order_selection : Conflict l .unboundFirst data either (.order [byName "y"]) (only "x")
    [given "y" one, given "x" one]
    ([given "y" one, given "x" one].map (Solution.shown [.same "x"])) where
  kinds := kinds_either
  listed := listed_either
  simple := by simp [Modifier.Simple, only, Selection.lists, Columns.isTemplate]
  nested := by
    refine ⟨_, ⟨_, rfl, gives_only.2 rfl⟩, arranged_of_unbound ?_⟩
    simp [shown_same]
  written := by
    rintro ⟨zs, ⟨_, rfl, hzs⟩, hys⟩
    rw [gives_only] at hys
    cases zs with
    | nil => cases hys
    | cons z rest =>
      have hz : z "x" = none := by
        have hhead := congrArg (fun ys : List Solution => (ys.map fun a => a "x").head?) hys
        simpa [shown_same, given_other, eq_comm] using hhead
      have harranged : Arranged l .unboundFirst [byName "y"] _ _ := hzs
      rcases List.mem_pair.1 (harranged.perm.mem_iff.1 List.mem_cons_self) with rfl | rfl
      · exact not_first harranged
      · rw [given_self] at hz
        cases hz
  nodup := Or.inr ⟨"x", nodup_values,
    List.forall_mem_cons.2 ⟨trivial, List.forall_mem_singleton.2 (spares_only "x")⟩⟩

theorem bindings_order : Conflict l .unboundFirst data either (binding (.var (.user "y")))
    (.order [byName "z"]) [given "y" one, given "x" one]
    ([given "y" one, given "x" one].map fun a => a.bound l ("z", .var (.user "y"))) where
  kinds := kinds_either
  listed := listed_either
  simple := by simp [Modifier.Simple, binding, names_either]
  nested := by
    refine ⟨_, ⟨_, rfl, arranged_of_unbound ?_⟩, rfl⟩
    simp [given_other]
  written := by
    rintro ⟨zs, ⟨_, rfl, hzs⟩, hys⟩
    refine not_arranged ?_ ?_ List.mem_cons_self hys
    · simp [Solution.bound, Expr.value, given_self, Variable.user]
    · simp [Solution.bound, Expr.value, given_other, Variable.user]
  nodup := Or.inr ⟨"x", nodup_values, List.forall_mem_cons.2
    ⟨spares_binding _ (by decide), List.forall_mem_singleton.2 trivial⟩⟩

/-- Each two slots that the text has in the other order. -/
theorem exists_conflict {a b : Slot} (h : a.follows b = false) :
    ∃ c data core outer inner xs ys, outer.slot = a ∧ inner.slot = b ∧
      Conflict l c data core outer inner xs ys := by
  cases a with
  | slice => cases b <;> cases h
  | repeats =>
    cases b with
    | slice =>
      have hkinds : ∀ u ∈ twice.subtrees, u.kind ∈ Tree.groupKinds := by
        simp [twice, Tree.union, Tree.subtrees, Tree.kind, Combination.kind, Tree.groupKinds]
      exact ⟨_, _, _, _, _, _, _, rfl, rfl, repeats_slice .unboundFirst hkinds rfl⟩
    | _ => cases h
  | selection =>
    cases b with
    | repeats => exact ⟨_, _, _, _, _, _, _, rfl, rfl, selection_repeats l .unboundFirst⟩
    | _ => cases h
  | bindings =>
    cases b with
    | selection => exact ⟨_, _, _, _, _, _, _, rfl, rfl, bindings_selection l .unboundFirst⟩
    | order => exact ⟨_, _, _, _, _, _, _, rfl, rfl, bindings_order l⟩
    | _ => cases h
  | order =>
    cases b with
    | slice => exact ⟨_, _, _, _, _, _, _, rfl, rfl, order_slice l⟩
    | selection => exact ⟨_, _, _, _, _, _, _, rfl, rfl, order_selection l⟩
    | _ => cases h

end Conflict

/-! ## Built queries -/

namespace QueryCall

/-- What is built from names has no bindings, and its other modifiers are in order. -/
theorem slots_of_names {kind : QueryKind} (hkind : kind = .select ∨ kind = .construct)
    {calls : List QueryCall} (hstatements : calls.filterMap statement? = []) :
    ((draft kind calls).modifiers.map Modifier.slot).Sublist
      [.slice, .repeats, .selection, .order] := by
  have hbindings : (draft kind calls).bindings = [] := by
    rcases hkind with rfl | rfl <;>
      simp [QueryDraft.bindings, draft, QueryDraft.given, QueryDraft.start, hstatements,
        Statement.encodedAll]
  have hextension : (draft kind calls).extension? = none := by
    rw [QueryDraft.extension?, hbindings]
    rfl
  simp only [QueryDraft.modifiers, hextension, Option.toList_none, List.nil_append, List.map_append]
  exact (Modifier.slots_omittedIf _ _).append ((Repeats.slots_modifier? _).append
    ((Modifier.slots_omittedIf _ _).append (Modifier.slots_omittedIf _ _)))

/-- The tree of a built select query gives what its text gives. -/
theorem built_sequences {kind : QueryKind} (hkind : kind = .select ∨ kind = .construct)
    {calls : List QueryCall} (hpatterned : ∀ cs ∈ groups calls, GroupCall.Patterned cs)
    {q : Query} (hq : ((QueryDraft.start kind).callAll calls).build = .ok q)
    (hshape : (Outline.peel q.tree).shape = .select) (l : Library) : q.tree.SameSequences l := by
  obtain ⟨-, -, -, -, -, -, -, hretold⟩ := peel_build hkind hpatterned hq
  have hstatements : calls.filterMap statement? = [] := by
    by_contra hne
    have hreads : readsAsTemplate calls = true := by simp [readsAsTemplate, hne]
    rw [shape_of_retold hkind hretold, hreads] at hshape
    cases hshape
  obtain ⟨rfl, hcompile⟩ := compile_of_build hq
  obtain ⟨ts, t, -, -, hmakes, htree, hpeel⟩ :=
    peel_compile (groups_ne_nil_of_build hkind hq) hpatterned hcompile
  have hkinds := GroupCall.kind_of_makes hmakes (GroupCall.patterned_flatten hpatterned)
  obtain ⟨hnone, -⟩ := Tree.root_of_groupKinds (hkinds t t.self_mem_subtrees)
  have hmodifiers : q.tree.modifiers = (draft q.kind calls).modifiers := by
    rw [htree, Tree.modifiers_under hnone]
  have hslots := slots_of_names hkind hstatements
  rw [← hmodifiers] at hslots
  have hselects : Sparql.Selects q.tree := by
    refine Sparql.selects_iff.2 ⟨hshape, ?_, ?_⟩
    · rw [(hretold.names hkind hstatements).1]
      exact Nat.le_refl 1
    · rw [hpeel]
      rintro body ⟨⟩ u hu
      exact groupKinds_subset (hkinds u hu)
  refine Tree.sameSequences hselects ?_ ?_
  · intro bindings hmem
    have hslot : Slot.bindings ∈ [Slot.slice, .repeats, .selection, .order] :=
      hslots.subset (List.mem_map_of_mem hmem)
    exact absurd hslot (by decide)
  · have hwritten : [Slot.slice, .repeats, .selection, .order].Pairwise
        fun outer inner => outer.follows inner = true := by decide
    exact (List.pairwise_map.1 (hwritten.sublist hslots)).imp Or.inl

end QueryCall

/-! ## When the text respects the order -/

/-- Where no modifier stands above one that it may not pass, a tree with a text gives the sequences
that its text gives. The orders of which this holds, whatever the modifiers say, are known: in every
other one there is a tree that gives a sequence that its text does not give, or the other way. -/
theorem order_respected (l : Library) :
    (∀ t, Sparql.Selects t → (t.modifiers.map Modifier.slot).Nodup ∧
      t.ground = (Outline.peel t).body.getD .unit ∧
      (∀ c xs, ∃ ys, GivesAll l c t.modifiers xs ys) ∧
      (t.BindsAfresh → t.modifiers.Pairwise Modifier.Passes → t.SameSequences l)) ∧
    ∀ slots : List Slot, slots.Nodup →
      ((∀ t, Sparql.Selects t → t.BindsAfresh → t.modifiers.map Modifier.slot = slots →
          t.SameSequences l) ↔
        slots.Pairwise fun outer inner => outer.follows inner = true) := by
  refine ⟨fun t ht => ⟨?_, ?_, ?_, Tree.sameSequences ht⟩, fun slots hslots => ⟨?_, ?_⟩⟩
  · have hnodup := Outline.slots_peelFrom List.nodup_nil ht.settled
    rwa [List.append_nil] at hnodup
  · exact Outline.ground_peelFrom ht.settled
  · exact fun c xs => exists_givesAll l c t.modifiers xs
  · intro hall
    rw [List.pairwise_iff_forall_sublist]
    intro a b hsub
    by_contra hfollows
    have hbad : a.follows b = false := Bool.not_eq_true _ ▸ hfollows
    obtain ⟨c, data, core, outer, inner, xs, ys, rfl, rfl, hconflict⟩ :=
      Conflict.exists_conflict l hbad
    obtain ⟨t, hselects, hafresh, hmodifiers, hnot⟩ := hconflict.exists_tree hslots hsub hbad
    exact hnot (hall t hselects hafresh hmodifiers)
  · rintro hfollows t hselects hafresh rfl
    exact Tree.sameSequences hselects hafresh ((List.pairwise_map.1 hfollows).imp Or.inl)

/-- Sorted rows of distinct values, under a limit. -/
def sortedRows : Tree :=
  .modify (.slice (some 3) none) (.modify (.order [⟨.var (.user "x"), true⟩]) (.modify .distinct
    (.modify (.select (.single [.same "x", .same "n"]))
      (.modify (.extend [⟨"n", .function .str (.var (.user "y"))⟩])
        (.pattern ⟨.var (.user "x"), .var (.user "p"), .var (.user "y"), none⟩)))))

/-- The columns show what the key above them mentions; other keys and columns may conflict. -/
theorem sortedRows_respected : Sparql.Selects sortedRows ∧ ∀ l, sortedRows.SameSequences l ∧
    ∃ t : Tree, t.modifiers.map Modifier.slot = sortedRows.modifiers.map Modifier.slot ∧
      ¬ t.SameSequences l := by
  have hselects : Sparql.Selects sortedRows := ⟨rfl, Style.default, .empty, _, rfl⟩
  have hslots : (sortedRows.modifiers.map Modifier.slot).Nodup := by decide
  have hafresh : sortedRows.BindsAfresh := by
    simp [Tree.BindsAfresh, sortedRows, Tree.modifiers, Tree.ground, Tree.names,
      TriplePattern.names, TriplePattern.terms, Term.names, Term.variables, Variable.user]
  have hunseen : (Modifier.order [⟨.var (.user "x"), true⟩]).Unseen
      (.select (.single [.same "x", .same "n"])) := by
    intro k hk name hname columns hcolumns
    cases List.mem_singleton.1 hk
    cases List.mem_singleton.1 hname
    cases List.mem_singleton.1 hcolumns
    exact Or.inr rfl
  have hpasses : sortedRows.modifiers.Pairwise Modifier.Passes := by
    simp [sortedRows, Tree.modifiers, Modifier.Passes, Slot.follows, Modifier.slot, hunseen]
  refine ⟨hselects, fun l => ?_⟩
  obtain ⟨hall, hexact⟩ := order_respected l
  refine ⟨(hall sortedRows hselects).2.2.2 hafresh hpasses, ?_⟩
  by_contra hnone
  have hfollows := (hexact _ hslots).1 fun t _ _ hslots =>
    by_contra fun hnot => hnone ⟨t, hslots, hnot⟩
  revert hfollows
  decide

/-- All statements. -/
def anyStatement : TriplePattern := ⟨.var (.user "s"), .var (.user "p"), .var (.user "o"), none⟩

/-- Distinct solutions, of those that a slice has left. -/
def distinctOverSlice : Tree :=
  .modify .distinct (.modify (.slice none (some 1))
    (.union (.pattern anyStatement) (.pattern anyStatement)))

/-- The text drops the repetition first, and then its offset leaves nothing. -/
theorem distinctOverSlice_not_respected :
    Sparql.Selects distinctOverSlice ∧ distinctOverSlice.BindsAfresh ∧
      ∀ l, ¬ distinctOverSlice.SameSequences l := by
  refine ⟨⟨rfl, Style.default, .empty, _, rfl⟩, ?_, fun l => ?_⟩
  · simp [Tree.BindsAfresh, distinctOverSlice, Tree.modifiers, Tree.union]
  · have hkinds : ∀ u ∈ distinctOverSlice.ground.subtrees, u.kind ∈ Tree.groupKinds := by
      simp [distinctOverSlice, Tree.ground, Tree.union, Tree.subtrees, Tree.kind, Combination.kind,
        Tree.groupKinds]
    obtain ⟨a, ha⟩ : ∃ a, anyStatement.match? ⟨none, Sparql.Sample.node, Sparql.Sample.one,
      Sparql.Sample.one⟩ = some a := ⟨_, rfl⟩
    have hlisted : (([a, a] : List Solution) : Multiset Solution) =
        distinctOverSlice.ground.solutions l Conflict.data := by
      show _ = (Tree.pattern anyStatement).solutions l Conflict.data +
        (Tree.pattern anyStatement).solutions l Conflict.data
      rw [Conflict.solutions_of_match ha]
      rfl
    have hslots : [Slot.repeats, .slice].Nodup := by decide
    exact (Conflict.repeats_slice .unboundFirst hkinds hlisted).not_same hslots
      (List.Sublist.refl _) rfl

end RdfQuery
