import RdfQuery.Proofs.Query.Misordering

/-!
# What is peeled off

The modifiers at the root of a tree form a chain. Peeling takes the longest part of
it, from the root on, that fills no slot twice. What the outline says is what these
modifiers say; all else is left in the body, and nothing in the body changes what is
said above it.
-/

set_option autoImplicit false

namespace RdfQuery

theorem Tree.slot?_of_modifiers {t : Tree} {mo : Modifier} {modifiers : List Modifier}
    (h : t.modifiers = mo :: modifiers) : t.slot? = some mo.slot := by
  cases t with
  | modify mo arg =>
    cases h
    rfl
  | bare s =>
    cases h
    rfl
  | _ => cases h

theorem Tree.under_injective (modifiers : List Modifier) :
    Function.Injective (Tree.under modifiers) := by
  induction modifiers with
  | nil => exact fun _ _ h => h
  | cons mo modifiers ih => exact fun _ _ h => ih (Tree.modify.inj h).2

/-! ## What one modifier says -/

namespace Modifier

def limit? : Modifier → Option Nat
  | .slice limit _ => limit
  | _ => none

def offset? : Modifier → Option Nat
  | .slice _ offset => offset
  | _ => none

def repeats? : Modifier → Option Repeats
  | .distinct => some .distinct
  | .reduced => some .reduced
  | _ => none

def lists : Modifier → List Columns
  | .select s => s.lists
  | _ => []

def bindings : Modifier → List Binding
  | .extend bindings => bindings
  | _ => []

def keys : Modifier → List SortKey
  | .order keys => keys
  | _ => []

end Modifier

namespace Outline

/-- Each part of the outline is what the modifiers say of it. -/
structure Fills (modifiers : List Modifier) (o : Outline) : Prop where
  limit : o.limit = modifiers.findSome? Modifier.limit?
  offset : o.offset = modifiers.findSome? Modifier.offset?
  repeats : o.repeats = (modifiers.findSome? Modifier.repeats?).getD .kept
  lists : o.lists = modifiers.flatMap Modifier.lists
  bindings : o.bindings =
    OrderedMap.ofList ((modifiers.flatMap Modifier.bindings).map Binding.entry)
  order : o.order = modifiers.flatMap Modifier.keys

section

variable {modifiers : List Modifier} {o : Outline}

theorem fills_blank (body : Option Tree) : Fills [] { body } := ⟨rfl, rfl, rfl, rfl, rfl, rfl⟩

theorem fills_bare (s : Selection) : Fills [.select s] { body := none, lists := s.lists } :=
  ⟨rfl, rfl, rfl, (List.append_nil s.lists).symm, rfl, rfl⟩

/-- One modifier more, in a slot of which the others say nothing. -/
theorem Fills.record (h : Fills modifiers o) {mo : Modifier} (hvacant : o.Vacant mo.slot) :
    Fills (mo :: modifiers) (o.deeper.record mo) := by
  cases mo with
  | select s =>
    have hnone : modifiers.flatMap Modifier.lists = [] := h.lists.symm.trans hvacant
    refine ⟨h.limit, h.offset, h.repeats, ?_, h.bindings, h.order⟩
    rw [List.flatMap_cons, hnone, List.append_nil]
    rfl
  | extend bindings =>
    have hnone : modifiers.flatMap Modifier.bindings = [] :=
      List.map_eq_nil_iff.1 (OrderedMap.eq_nil_of_ofList_eq_empty (h.bindings.symm.trans hvacant))
    refine ⟨h.limit, h.offset, h.repeats, h.lists, ?_, h.order⟩
    rw [List.flatMap_cons, hnone, List.append_nil]
    rfl
  | order keys =>
    have hnone : modifiers.flatMap Modifier.keys = [] := h.order.symm.trans hvacant
    refine ⟨h.limit, h.offset, h.repeats, h.lists, h.bindings, ?_⟩
    rw [List.flatMap_cons, hnone, List.append_nil]
    rfl
  | distinct => exact ⟨h.limit, h.offset, rfl, h.lists, h.bindings, h.order⟩
  | reduced => exact ⟨h.limit, h.offset, rfl, h.lists, h.bindings, h.order⟩
  | slice limit offset =>
    have hlimit : modifiers.findSome? Modifier.limit? = none := h.limit.symm.trans hvacant.1
    have hoffset : modifiers.findSome? Modifier.offset? = none := h.offset.symm.trans hvacant.2
    refine ⟨?_, ?_, h.repeats, h.lists, h.bindings, h.order⟩
    · cases limit with
      | none => exact hlimit.symm
      | some n => rfl
    · cases offset with
      | none => exact hoffset.symm
      | some n => rfl

theorem vacant_recordAll {slot : Slot} (h : o.Vacant slot)
    (hslot : slot ∉ modifiers.map Modifier.slot) : (recordAll modifiers o).Vacant slot := by
  induction modifiers with
  | nil => exact h
  | cons mo modifiers ih =>
    obtain ⟨hmo, hrest⟩ := List.ne_and_not_mem_of_not_mem_cons hslot
    exact (ih hrest).record (o := deeper _) (Ne.symm hmo)

theorem Fills.recordAll {inner : List Modifier} (h : Fills inner o)
    (hslots : (modifiers.map Modifier.slot).Nodup)
    (hvacant : ∀ mo ∈ modifiers, o.Vacant mo.slot) :
    Fills (modifiers ++ inner) (Outline.recordAll modifiers o) := by
  induction modifiers with
  | nil => exact h
  | cons mo modifiers ih =>
    obtain ⟨hmo, hrest⟩ := List.nodup_cons.1 hslots
    obtain ⟨hvacantmo, hvacant⟩ := List.forall_mem_cons.1 hvacant
    exact (ih hrest hvacant).record (vacant_recordAll hvacantmo hmo)

/-- What is said, and where the body is, is all there is to an outline. -/
theorem Fills.eq {o' : Outline} (h : Fills modifiers o) (h' : Fills modifiers o') :
    o' = { o with body := o'.body, depth := o'.depth } := by
  obtain ⟨body, depth, lists, bindings, order, repeats, limit, offset⟩ := o'
  simp only [mk.injEq, true_and]
  exact ⟨h'.lists.trans h.lists.symm, h'.bindings.trans h.bindings.symm,
    h'.order.trans h.order.symm, h'.repeats.trans h.repeats.symm, h'.limit.trans h.limit.symm,
    h'.offset.trans h.offset.symm⟩

theorem recordAll_depth (modifiers : List Modifier) (o : Outline) :
    (Outline.recordAll modifiers o).depth = o.depth + modifiers.length := by
  induction modifiers with
  | nil => rfl
  | cons mo modifiers ih =>
    have hdepth : (Outline.recordAll (mo :: modifiers) o).depth =
        (Outline.recordAll modifiers o).depth + 1 := record_depth _ mo
    rw [hdepth, ih, List.length_cons, Nat.add_assoc]

end

/-! ## The longest chain -/

/-- Of the modifiers at the root these are taken off, and what stands below them is the body. -/
structure Peels (t : Tree) (taken : List Modifier) (o : Outline) : Prop where
  from_root : taken <+: t.modifiers
  slots_once : (taken.map Modifier.slot).Nodup
  at_most_five : taken.length ≤ 5
  longest : ∀ chain, chain <+: t.modifiers → (chain.map Modifier.slot).Nodup → chain <+: taken
  fills : Fills taken o
  below : ∀ b, o.body = some b →
    t = b.under taken ∧ b.Stops (taken.map Modifier.slot) ∧ o.depth = taken.length
  bodiless : o.body = none ↔
    ∃ outer s, taken = outer ++ [.select s] ∧ t = (Tree.bare s).under outer
  patterns : o.body.elim [] Tree.patterns = t.patterns
  /-- Any other tree at which peeling stops may stand in the place of the body. -/
  exchanged : ∀ b, b.Stops (taken.map Modifier.slot) →
    peel (b.under taken) = { o with body := some b, depth := taken.length }

section

variable {taken outer : List Modifier} {b : Tree} {s : Selection}

theorem length_le_five (h : (taken.map Modifier.slot).Nodup) : taken.length ≤ 5 := by
  have hlength := (Slot.sorted_perm h).length_eq
  rw [List.length_map] at hlength
  exact hlength ▸ List.length_filter_le _ Slot.written

/-- The next modifier would fill a slot again. -/
theorem longest_of_stops (hstops : b.Stops (taken.map Modifier.slot)) {chain : List Modifier}
    (hchain : chain <+: taken ++ b.modifiers) (hslots : (chain.map Modifier.slot).Nodup) :
    chain <+: taken := by
  rcases List.prefix_or_prefix_of_prefix hchain (List.prefix_append taken b.modifiers) with h | h
  · exact h
  · obtain ⟨more, rfl⟩ := h
    cases more with
    | nil => rw [List.append_nil]
    | cons mo more =>
      obtain ⟨rest, hrest⟩ := (List.prefix_append_right_inj taken).1 hchain
      have hagain := hstops _ (Tree.slot?_of_modifiers hrest.symm)
      rw [List.map_append, List.map_cons] at hslots
      exact absurd rfl (List.nodup_append.1 hslots |>.2.2 _ hagain _ List.mem_cons_self)

theorem fills_under (hslots : (taken.map Modifier.slot).Nodup)
    (hstops : b.Stops (taken.map Modifier.slot)) : Fills taken (peel (b.under taken)) := by
  have h := (fills_blank (some b)).recordAll hslots fun mo _ => vacant_blank _ mo.slot
  rwa [List.append_nil, ← peel_under hslots hstops] at h

theorem peel_under_bare (hslots : (outer.map Modifier.slot).Nodup)
    (hfree : Slot.selection ∉ outer.map Modifier.slot) :
    peel ((Tree.bare s).under outer) =
      Outline.recordAll outer { body := none, lists := s.lists } := by
  have hnodup : (outer.map Modifier.slot ++ []).Nodup := by rwa [List.append_nil]
  rw [peel, peelFrom_above hnodup, peelFrom_bare_free]
  rwa [List.append_nil, List.mem_reverse]

theorem fills_under_bare (hslots : (outer.map Modifier.slot).Nodup)
    (hfree : Slot.selection ∉ outer.map Modifier.slot) :
    Fills (outer ++ [.select s]) (peel ((Tree.bare s).under outer)) := by
  rw [peel_under_bare hslots hfree]
  refine (fills_bare s).recordAll hslots fun mo hmo => ?_
  have hne : (Modifier.select s).slot ≠ mo.slot := fun heq =>
    hfree (List.mem_map.2 ⟨mo, hmo, heq.symm⟩)
  exact (vacant_blank none mo.slot).record hne

/-- What the modifiers say does not depend on what they stand on. -/
theorem peel_exchanged {o : Outline} (h : Fills taken o)
    (hslots : (taken.map Modifier.slot).Nodup) (hstops : b.Stops (taken.map Modifier.slot)) :
    peel (b.under taken) = { o with body := some b, depth := taken.length } := by
  rw [h.eq (fills_under hslots hstops), peel_under hslots hstops, recordAll_body, recordAll_depth,
    Nat.zero_add]

theorem peels_under (hslots : (taken.map Modifier.slot).Nodup)
    (hstops : b.Stops (taken.map Modifier.slot)) :
    Peels (b.under taken) taken (peel (b.under taken)) := by
  have hfills := fills_under hslots hstops
  have hbody : (peel (b.under taken)).body = some b := by
    rw [peel_under hslots hstops, recordAll_body]
  have hdepth : (peel (b.under taken)).depth = taken.length := by
    rw [peel_under hslots hstops, recordAll_depth, Nat.zero_add]
  refine ⟨?_, hslots, length_le_five hslots, fun chain hchain hchainslots => ?_, hfills, ?_, ?_,
    peelFrom_patterns [] _, fun _ => peel_exchanged hfills hslots⟩
  · rw [Tree.modifiers_above]
    exact List.prefix_append taken b.modifiers
  · rw [Tree.modifiers_above] at hchain
    exact longest_of_stops hstops hchain hchainslots
  · intro b' hb'
    cases hbody.symm.trans hb'
    exact ⟨rfl, hstops, hdepth⟩
  · rw [hbody]
    refine iff_of_false nofun ?_
    rintro ⟨outer, s, rfl, htree⟩
    rw [Tree.under_append] at htree
    exact nomatch Tree.under_injective outer htree

theorem peels_under_bare (hslots : (outer.map Modifier.slot).Nodup)
    (hfree : Slot.selection ∉ outer.map Modifier.slot) :
    Peels ((Tree.bare s).under outer) (outer ++ [.select s])
      (peel ((Tree.bare s).under outer)) := by
  have hfills : Fills (outer ++ [.select s]) (peel ((Tree.bare s).under outer)) :=
    fills_under_bare hslots hfree
  have hmodifiers : ((Tree.bare s).under outer).modifiers = outer ++ [.select s] :=
    Tree.modifiers_above _ _
  have hall : ((outer ++ [Modifier.select s]).map Modifier.slot).Nodup := by
    rw [List.map_append]
    exact (List.perm_append_singleton _ _).nodup_iff.2 (hslots.cons hfree)
  have hbody : (peel ((Tree.bare s).under outer)).body = none := by
    rw [peel_under_bare hslots hfree, recordAll_body]
  refine ⟨?_, hall, length_le_five hall, fun chain hchain _ => ?_, hfills, fun b hb => ?_,
    iff_of_true hbody ⟨outer, s, rfl, rfl⟩, peelFrom_patterns [] _,
    fun _ => peel_exchanged hfills hall⟩
  · rw [hmodifiers]
  · rwa [hmodifiers] at hchain
  · exact nomatch hbody.symm.trans hb

end

/-- Peeling takes the longest chain of modifiers in different slots off the root of a tree, and
says what they say; nothing but the body is left, with all patterns of the tree. -/
theorem longest_chain_peeled (t : Tree) : ∃ taken, Peels t taken (peel t) := by
  obtain ⟨modifiers, core, hchain, hstops, -⟩ := exists_chain [] List.nodup_nil t
  have hslots := hchain.slots_once
  rw [List.append_nil] at hslots hstops
  obtain rfl := hchain.tree
  cases hchain.ends with
  | body core hbody => exact ⟨modifiers, peels_under hslots (hstops hbody)⟩
  | bare s hfree hbody hlists =>
    rw [List.append_nil] at hfree
    exact ⟨modifiers ++ [.select s], peels_under_bare hslots hfree⟩

/-- A repeated modifier stays in the body. -/
example : (peel (.modify .distinct (.modify .reduced .unit))).body =
    some (.modify .reduced .unit) := rfl

end Outline

end RdfQuery
