import RdfQuery.Footer
import RdfQuery.GraphMap
import RdfQuery.Naming
import RdfQuery.Proofs.Outline
import RdfQuery.Proofs.Query.Slices

/-!
# Bounds in outlines and texts

Bounds written to a tree with at most one slice change nothing in its outline
but the bounds, unless the slice is left in the body. Graphs and IRIs are
collected alike before and after.
-/

set_option autoImplicit false

namespace RdfQuery

theorem Modifier.slot_eq_slice {mo : Modifier} : mo.slot = .slice ↔ mo.kind = .slice := by
  cases mo with
  | select s => exact iff_of_false nofun s.kind_ne_slice
  | slice l o => exact iff_of_true rfl rfl
  | _ => exact iff_of_false nofun nofun

/-- The footer with these bounds; bounds that are not given stay. -/
def Footer.bounded (limit offset : Option Nat) (f : Footer) : Footer :=
  { f with limit := limit.or f.limit, offset := offset.or f.offset }

/-! ## Texts -/

/-- A text around the lines that show its bounds. -/
structure Framed where
  above : String
  limit : Option Nat
  offset : Option Nat
  below : String

namespace Framed

def text (f : Framed) : String :=
  f.above ++ Footer.boundText "limit" f.limit ++ Footer.boundText "offset" f.offset ++ f.below

def bounded (limit offset : Option Nat) (f : Framed) : Framed :=
  { f with limit := limit.or f.limit, offset := offset.or f.offset }

/-- What follows the bounds, if anything, starts a line of its own. -/
def Closed (f : Framed) : Prop := f.below = "" ∨ ∃ rest, f.below = "\n" ++ rest

end Framed

variable (limit offset : Option Nat)

/-! ## Outlines -/

theorem Modifier.slot_rebound (mo : Modifier) : (mo.rebound limit offset).slot = mo.slot := by
  cases mo <;> rfl

theorem Tree.slot?_rebound (t : Tree) : (t.rebound limit offset).slot? = t.slot? := by
  cases t with
  | modify mo arg => exact congrArg some (mo.slot_rebound limit offset)
  | _ => rfl

theorem Tree.stops_rebound {filled : List Slot} {t : Tree} (h : t.Stops filled) :
    (t.rebound limit offset).Stops filled := by
  rwa [Stops, slot?_rebound]

namespace Outline

/-- The second outline is the first one, but with other bounds, and with these in its body. -/
structure Rebounds (o o' : Outline) : Prop where
  body : o'.body = o.body.map (Tree.rebound limit offset)
  lists : o'.lists = o.lists
  bindings : o'.bindings = o.bindings
  order : o'.order = o.order
  repeats : o'.repeats = o.repeats

/-- The head and the sort keys of a query do not depend on the rest. -/
theorem Rebounds.eq {o o' : Outline} (h : Rebounds limit offset o o') :
    o' = { o with body := o'.body, depth := o'.depth, limit := o'.limit, offset := o'.offset } := by
  obtain ⟨-, hlists, hbindings, horder, hrepeats⟩ := h
  cases o'
  simp_all

/-- No slice is left in the body. -/
def Unsliced (o : Outline) : Prop := ∀ b, o.body = some b → b.count .slice = 0

theorem unsliced_whole {t : Tree} : Unsliced { body := some t } ↔ t.count .slice = 0 := by
  simp [Unsliced]

theorem Rebounds.record {o o' : Outline} (h : Rebounds limit offset o o') (mo : Modifier) :
    Rebounds limit offset (o.deeper.record mo) (o'.deeper.record (mo.rebound limit offset)) := by
  obtain ⟨hbody, hlists, hbindings, horder, hrepeats⟩ := h
  cases mo with
  | select s => exact ⟨hbody, rfl, hbindings, horder, hrepeats⟩
  | extend bindings => exact ⟨hbody, hlists, rfl, horder, hrepeats⟩
  | order keys => exact ⟨hbody, hlists, hbindings, rfl, hrepeats⟩
  | distinct => exact ⟨hbody, hlists, hbindings, horder, rfl⟩
  | reduced => exact ⟨hbody, hlists, hbindings, horder, rfl⟩
  | slice l o => exact ⟨hbody, hlists, hbindings, horder, hrepeats⟩

theorem peelFrom_rebound_free {filled : List Slot} {mo : Modifier} (h : mo.slot ∉ filled)
    (arg : Tree) : peelFrom filled ((Tree.modify mo arg).rebound limit offset) =
      (peelFrom (mo.slot :: filled) (arg.rebound limit offset)).deeper.record
        (mo.rebound limit offset) := by
  have hslot := mo.slot_rebound limit offset
  rw [Tree.rebound, peelFrom_free (by rwa [hslot]), hslot]

theorem peelFrom_rebound (filled : List Slot) (t : Tree) :
    Rebounds limit offset (peelFrom filled t) (peelFrom filled (t.rebound limit offset)) := by
  induction filled, t using peel_induction with
  | stops filled t hstops =>
    rw [peelFrom_stopped hstops, peelFrom_stopped (t.stops_rebound limit offset hstops)]
    exact ⟨rfl, rfl, rfl, rfl, rfl⟩
  | bare filled s hs =>
    rw [Tree.rebound, peelFrom_bare_free hs]
    exact ⟨rfl, rfl, rfl, rfl, rfl⟩
  | modify filled mo arg hmo ih =>
    rw [peelFrom_free hmo, peelFrom_rebound_free limit offset hmo]
    exact ih.record limit offset mo

theorem record_limit (o : Outline) {mo : Modifier} (h : mo.kind ≠ .slice) :
    (o.record mo).limit = o.limit := by
  cases mo with
  | slice l o => exact absurd rfl h
  | _ => rfl

theorem record_offset (o : Outline) {mo : Modifier} (h : mo.kind ≠ .slice) :
    (o.record mo).offset = o.offset := by
  cases mo with
  | slice l o => exact absurd rfl h
  | _ => rfl

/-- The only slice of a tree stands above the body or in it. -/
theorem bounds_rebound {filled : List Slot} {t : Tree} (hone : t.count .slice = 1)
    (hbody : (peelFrom filled t).Unsliced) :
    (peelFrom filled (t.rebound limit offset)).limit = limit.or (peelFrom filled t).limit ∧
    (peelFrom filled (t.rebound limit offset)).offset = offset.or (peelFrom filled t).offset := by
  induction filled, t using peel_induction with
  | stops filled t hstops =>
    rw [peelFrom_stopped hstops, unsliced_whole, hone] at hbody
    exact nomatch hbody
  | bare filled s hs => exact absurd hone (by rw [Tree.slices_bare]; decide)
  | modify filled mo arg hmo ih =>
    rw [peelFrom_free hmo, peelFrom_rebound_free limit offset hmo]
    -- the slice is found here, or else further down with the same body below
    by_cases hkind : mo.kind = .slice
    · cases mo with
      | slice l o => exact ⟨rfl, rfl⟩
      | select s => exact absurd hkind s.kind_ne_slice
      | _ => cases hkind
    · have hinner : (peelFrom (mo.slot :: filled) arg).Unsliced := by
        intro b hb
        exact hbody b (by rw [peelFrom_free hmo, record_body]; exact hb)
      rw [Tree.slices_modify hkind] at hone
      rw [Modifier.rebound_of_kind_ne hkind, record_limit _ hkind, record_limit _ hkind,
        record_offset _ hkind, record_offset _ hkind]
      exact ih hone hinner

/-! ## Trees without slices -/

/-- Without slices it makes no difference whether their slot is filled. -/
theorem peelFrom_of_unsliced {filled filled' : List Slot} {t : Tree} (h : t.count .slice = 0)
    (hslots : ∀ slot, slot ≠ .slice → (slot ∈ filled ↔ slot ∈ filled')) :
    peelFrom filled t = peelFrom filled' t := by
  induction t generalizing filled filled' with
  | modify mo arg ih =>
    have hkind : mo.kind ≠ .slice := Tree.count_eq_zero.1 h _ List.mem_cons_self
    have hslot := hslots mo.slot fun hslice => hkind (Modifier.slot_eq_slice.1 hslice)
    rw [Tree.slices_modify hkind] at h
    by_cases hmo : mo.slot ∈ filled
    · rw [peelFrom_filled hmo, peelFrom_filled (hslot.1 hmo)]
    · rw [peelFrom_free hmo, peelFrom_free fun hmem => hmo (hslot.2 hmem)]
      congr 2
      apply ih h
      intro slot hne
      rw [List.mem_cons, List.mem_cons, hslots slot hne]
  | bare s =>
    have hslot := hslots .selection nofun
    rw [peelFrom, peelFrom]
    simp only [List.contains_iff_mem, hslot]
  | unit => rfl
  | pattern p => rfl
  | combine c l r => rfl
  | filter arg e => rfl

theorem bounds_of_unsliced {filled : List Slot} {t : Tree} (h : t.count .slice = 0) :
    (peelFrom filled t).limit = none ∧ (peelFrom filled t).offset = none ∧
      (peelFrom filled t).Unsliced := by
  induction filled, t using peel_induction with
  | stops filled t hstops =>
    rw [peelFrom_stopped hstops]
    exact ⟨rfl, rfl, unsliced_whole.2 h⟩
  | bare filled s hs =>
    rw [peelFrom_bare_free hs]
    exact ⟨rfl, rfl, nofun⟩
  | modify filled mo arg hmo ih =>
    have hkind : mo.kind ≠ .slice := Tree.count_eq_zero.1 h _ List.mem_cons_self
    rw [Tree.slices_modify hkind] at h
    obtain ⟨hlimit, hoffset, hbody⟩ := ih h
    rw [peelFrom_free hmo, record_limit _ hkind, record_offset _ hkind]
    refine ⟨hlimit, hoffset, ?_⟩
    intro b hb
    rw [record_body] at hb
    exact hbody b hb

/-! ## Bounds written to a tree -/

theorem peel_modify_slice {t : Tree} (h : t.count .slice = 0) :
    peel (.modify (.slice limit offset) t) = (peel t).deeper.record (.slice limit offset) := by
  have hslots : ∀ slot, slot ≠ .slice → (slot ∈ [Slot.slice] ↔ slot ∈ []) := by
    intro slot hne
    simp [hne]
  rw [peel, peelFrom_free List.not_mem_nil, peel]
  exact congrArg (fun o => record (deeper o) _) (peelFrom_of_unsliced h hslots)

theorem peel_withBounds (t : Tree) :
    Rebounds limit offset (peel t) (peel (t.withBounds limit offset)) := by
  unfold Tree.withBounds
  split
  · rename_i hnone
    have hbody : (peel t).body.map (Tree.rebound limit offset) = (peel t).body := by
      obtain ⟨-, -, hunsliced⟩ := @bounds_of_unsliced [] t hnone
      cases hb : (peel t).body with
      | none => rfl
      | some b => rw [Option.map_some, Tree.rebound_eq_self limit offset (hunsliced b hb)]
    rw [peel_modify_slice limit offset hnone]
    exact ⟨hbody.symm, rfl, rfl, rfl, rfl⟩
  · exact peelFrom_rebound limit offset [] t

theorem footer_withBounds {t : Tree} (h : t.count .slice ≤ 1) (hbody : (peel t).Unsliced) :
    (peel (t.withBounds limit offset)).footer = (peel t).footer.bounded limit offset := by
  have horder := (peel_withBounds limit offset t).order
  have hbounds : (peel (t.withBounds limit offset)).limit = limit.or (peel t).limit ∧
      (peel (t.withBounds limit offset)).offset = offset.or (peel t).offset := by
    unfold Tree.withBounds
    split
    · rename_i hnone
      obtain ⟨hlimit, hoffset, -⟩ := @bounds_of_unsliced [] t hnone
      rw [peel_modify_slice limit offset hnone, show (peel t).limit = none from hlimit,
        show (peel t).offset = none from hoffset, Option.or_none, Option.or_none]
      exact ⟨rfl, rfl⟩
    · rename_i hsome
      exact bounds_rebound limit offset (by omega) hbody
  rw [footer, horder, hbounds.1, hbounds.2]
  rfl

end Outline

/-! ## Graphs and IRIs -/

namespace GraphMap

theorem claim_rebound (t : Tree) : claim (t.rebound limit offset) = claim t := by
  induction t with
  | combine c l r ihl ihr => simp only [Tree.rebound, claim, ihl, ihr]
  | filter arg e ih => exact ih
  | _ => rfl

theorem place_rebound (taken : Bool) (t : Tree) :
    place taken (t.rebound limit offset) = place taken t := by
  induction t generalizing taken with
  | combine c l r ihl ihr => simp only [Tree.rebound, place, claim, claim_rebound, ihl, ihr]
  | filter arg e ih => simp only [Tree.rebound, place, claim, claim_rebound, ih]
  | modify mo arg ih => simp only [Tree.rebound, place, ih]
  | _ => rfl

theorem collect_rebound (t : Tree) : collect (t.rebound limit offset) = collect t :=
  place_rebound limit offset false t

end GraphMap

namespace Tree

theorem iris_rebound (t : Tree) : (t.rebound limit offset).iris = t.iris := by
  induction t with
  | combine c l r ihl ihr =>
    simp only [iris] at ihl ihr
    simp only [rebound, iris, subtrees, List.flatMap_cons, List.flatMap_append, ihl, ihr]
    cases c <;> rfl
  | filter arg e ih =>
    simp only [iris] at ih
    simp only [rebound, iris, subtrees, List.flatMap_cons, ih]
    rfl
  | modify mo arg ih =>
    simp only [iris] at ih
    simp only [rebound, iris, subtrees, List.flatMap_cons, ih]
    cases mo <;> rfl
  | _ => rfl

theorem iris_withBounds (t : Tree) : (t.withBounds limit offset).iris = t.iris := by
  unfold withBounds
  split
  · rfl
  · exact iris_rebound limit offset t

end Tree

end RdfQuery
