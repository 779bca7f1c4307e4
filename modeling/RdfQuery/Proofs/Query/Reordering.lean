import RdfQuery.Proofs.Naming.Collected
import RdfQuery.Proofs.Query.Templates
import RdfQuery.Proofs.Solution.Sequences
import RdfQuery.Proofs.Sparql.Refusal

/-!
# Modifiers out of order

The text of a query applies the modifiers of its tree in an order of its own:
bindings, sort keys, columns, repetitions, bounds. A modifier that stands elsewhere
in the tree is moved to its place, past those that the text applies after it. Where it may
pass all of them, the tree and the text give the same sequences of solutions.
-/

set_option autoImplicit false

namespace RdfQuery

/-! ## Bindings of a whole sequence -/

namespace Binding

variable {l : Library} {c : Collation} {bindings : List Binding}

theorem fst_entries (bindings : List Binding) :
    (bindings.map entry).map Prod.fst = bindings.map name := by
  rw [List.map_map]
  rfl

/-- Bindings do not change the order by keys that mention none of them. -/
theorem precedes_boundAll {keys : List SortKey} {a b : Solution}
    (h : ∀ b ∈ bindings, ∀ k ∈ keys, b.name ∉ k.expr.names) :
    Precedes l c keys (Solution.boundAll l (bindings.map entry) a)
      (Solution.boundAll l (bindings.map entry) b) ↔ Precedes l c keys a b := by
  have hseen (a : Solution) : ∀ k ∈ keys, ∀ n ∈ k.expr.names,
      Solution.boundAll l (bindings.map entry) a n = a n := by
    intro k hk n hn
    refine Solution.boundAll_eq (fun hmem => ?_) a
    rw [fst_entries] at hmem
    obtain ⟨b, hb, rfl⟩ := List.mem_map.1 hmem
    exact h b hb k hk hn
  exact precedes_congr (hseen a) (hseen b)

/-- Solutions that differ still differ when names without a value are bound. -/
theorem thinned_boundAll {r : Repeats} {xs ys : List Solution}
    (h : ∀ b ∈ bindings, ∀ a ∈ xs, a b.name = none) :
    Thinned r (xs.map (Solution.boundAll l (bindings.map entry))) ys ↔
      ∃ zs, Thinned r xs zs ∧ ys = zs.map (Solution.boundAll l (bindings.map entry)) := by
  have hfree : ∀ a ∈ xs, ∀ n ∈ (bindings.map entry).map Prod.fst, a n = none := by
    intro a ha n hn
    rw [fst_entries] at hn
    obtain ⟨b, hb, rfl⟩ := List.mem_map.1 hn
    exact h b hb a ha
  exact thinned_map fun a ha b hb => Solution.boundAll_inj (hfree a ha) (hfree b hb)

end Binding

/-! ## Modifiers one after the other -/

/-- What a modifier may make of a sequence. -/
def Modifier.Gives (l : Library) (c : Collation) :
    Modifier → List Solution → List Solution → Prop
  | .select s, xs, ys => ys = xs.flatMap (Solution.rows s.lists)
  | .extend bindings, xs, ys => ys = xs.map (Solution.boundAll l (bindings.map Binding.entry))
  | .order keys, xs, ys => Arranged l c keys xs ys
  | .distinct, xs, ys => Thinned .distinct xs ys
  | .reduced, xs, ys => Thinned .reduced xs ys
  | .slice limit offset, xs, ys => ys = sliced limit offset xs

/-- What several modifiers may make of it, the last one first. -/
def GivesAll (l : Library) (c : Collation) :
    List Modifier → List Solution → List Solution → Prop
  | [], xs, ys => ys = xs
  | mo :: modifiers, xs, ys => ∃ zs, GivesAll l c modifiers xs zs ∧ mo.Gives l c zs ys

namespace Tree

/-- The modifiers from the root on; a projection without input is one over an empty solution. -/
def modifiers : Tree → List Modifier
  | .modify mo arg => mo :: modifiers arg
  | .bare s => [.select s]
  | _ => []

/-- What the modifiers stand on. -/
def ground : Tree → Tree
  | .modify _ arg => ground arg
  | .bare _ => .unit
  | t => t

end Tree

namespace Outline

/-- What the text makes of the solutions of the body, part by part. -/
def Gives (l : Library) (c : Collation) (o : Outline) (xs ys : List Solution) : Prop :=
  ∃ ordered thinned,
    Arranged l c o.order (xs.map (Solution.boundAll l o.bindings.entries)) ordered ∧
    Thinned o.repeats (ordered.flatMap (Solution.rows o.lists)) thinned ∧
    ys = sliced o.limit o.offset thinned

end Outline

/-- From any sequence of the solutions of the body, the tree and its text give the same. -/
def Tree.SameSequences (l : Library) (t : Tree) : Prop :=
  ∀ (c : Collation) (data : Finset Quad) (xs ys : List Solution),
    (xs : Multiset Solution) = t.ground.solutions l data →
    (GivesAll l c t.modifiers xs ys ↔ (Outline.peel t).Gives l c xs ys)

/-! ## Which modifiers may pass which -/

/-- The slot of a modifier may stand above the other one, whatever they say. -/
def Slot.follows : (outer inner : Slot) → Bool
  | .repeats, .slice => false
  | .order, .slice => false
  | .selection, .repeats => false
  | .order, .selection => false
  | .bindings, .selection => false
  | .bindings, .order => false
  | _, _ => true

namespace Modifier

/-- The modifier changes nothing. -/
def Idle : Modifier → Prop
  | .select s => ∀ columns ∈ s.lists, columns = []
  | .extend bindings => bindings = []
  | .order keys => keys = []
  | .distinct => False
  | .reduced => False
  | .slice limit offset => limit = none ∧ offset.getD 0 = 0

/-- The keys mention what the columns show as it is, or nothing that the bindings bind. -/
def Unseen : (outer inner : Modifier) → Prop
  | .order keys, .select s =>
    ∀ k ∈ keys, ∀ name ∈ k.expr.names, ∀ columns ∈ s.lists, columns.Keeps name
  | .extend bindings, .order keys => ∀ b ∈ bindings, ∀ k ∈ keys, b.name ∉ k.expr.names
  | _, _ => False

/-- The outer modifier may as well be applied where the text has its slot. -/
def Passes (outer inner : Modifier) : Prop :=
  outer.slot.follows inner.slot = true ∨ outer.Idle ∨ inner.Idle ∨ outer.Unseen inner

theorem passes_iff {outer inner : Modifier} (h : outer.slot.follows inner.slot = false) :
    outer.Passes inner ↔ outer.Idle ∨ inner.Idle ∨ outer.Unseen inner := by
  rw [Passes, h]
  exact or_iff_right Bool.false_ne_true

theorem Passes.idle_slice {mo : Modifier} (hmo : mo.slot = .repeats) {limit offset : Option Nat}
    (h : mo.Passes (.slice limit offset)) : (slice limit offset).Idle := by
  cases mo with
  | distinct => exact ((passes_iff rfl).1 h).resolve_left id |>.resolve_right id
  | reduced => exact ((passes_iff rfl).1 h).resolve_left id |>.resolve_right id
  | _ => cases hmo

theorem Passes.idle_select {inner : Modifier} (hinner : inner.slot = .repeats) {s : Selection}
    (h : (select s).Passes inner) : (select s).Idle := by
  cases inner with
  | distinct => exact ((passes_iff rfl).1 h).resolve_right (Or.rec id id)
  | reduced => exact ((passes_iff rfl).1 h).resolve_right (Or.rec id id)
  | _ => cases hinner

/-- Solutions are shown as one row, and no name is bound that has a value. -/
def Fits (xs : List Solution) : Modifier → Prop
  | .select s => s.lists.length ≤ 1
  | .extend bindings =>
    (bindings.map Binding.name).Nodup ∧ ∀ b ∈ bindings, ∀ a ∈ xs, a b.name = none
  | _ => True

end Modifier

namespace Outline

def Vacant (o : Outline) : Slot → Prop
  | .slice => o.limit = none ∧ o.offset = none
  | .repeats => o.repeats = .kept
  | .selection => o.lists = []
  | .bindings => o.bindings = OrderedMap.empty
  | .order => o.order = []

/-- The modifier may pass all parts that the text applies after it. -/
def Admits (o : Outline) : Modifier → Prop
  | .select s => (Modifier.select s).Idle ∨ o.repeats = .kept
  | .extend bindings => bindings = [] ∨ ((∀ columns ∈ o.lists, columns = []) ∧
      ∀ b ∈ bindings, ∀ k ∈ o.order, b.name ∉ k.expr.names)
  | .order keys => keys = [] ∨ ((Modifier.slice o.limit o.offset).Idle ∧
      ∀ k ∈ keys, ∀ name ∈ k.expr.names, ∀ columns ∈ o.lists, columns.Keeps name)
  | .slice _ _ => True
  | _ => (Modifier.slice o.limit o.offset).Idle

theorem admits_blank (body : Option Tree) (mo : Modifier) : ({ body } : Outline).Admits mo := by
  cases mo with
  | select s => exact Or.inr rfl
  | extend bindings => exact Or.inr ⟨nofun, nofun⟩
  | order keys => exact Or.inr ⟨⟨rfl, rfl⟩, nofun⟩
  | slice limit offset => trivial
  | distinct => exact ⟨rfl, rfl⟩
  | reduced => exact ⟨rfl, rfl⟩

theorem Admits.record {o : Outline} {mo inner : Modifier} (h : o.Admits mo)
    (hpasses : mo.Passes inner) : (o.record inner).Admits mo := by
  cases mo with
  | slice limit offset => trivial
  | distinct =>
    cases inner with
    | slice limit offset => exact hpasses.idle_slice rfl
    | _ => exact h
  | reduced =>
    cases inner with
    | slice limit offset => exact hpasses.idle_slice rfl
    | _ => exact h
  | select s =>
    cases inner with
    | distinct => exact Or.inl (hpasses.idle_select rfl)
    | reduced => exact Or.inl (hpasses.idle_select rfl)
    | _ => exact h
  | order keys =>
    cases inner with
    | slice limit offset =>
      rcases (Modifier.passes_iff rfl).1 hpasses with hidle | hidle | hunseen
      · exact Or.inl hidle
      · exact h.imp_right fun ⟨_, hkeeps⟩ => ⟨hidle, hkeeps⟩
      · cases hunseen
    | select s =>
      rcases (Modifier.passes_iff rfl).1 hpasses with hidle | hidle | hunseen
      · exact Or.inl hidle
      · exact h.imp_right fun ⟨hslice, _⟩ =>
          ⟨hslice, fun _ _ _ _ columns hcolumns => Or.inl (hidle columns hcolumns)⟩
      · exact h.imp_right fun ⟨hslice, _⟩ => ⟨hslice, hunseen⟩
    | _ => exact h
  | extend bindings =>
    cases inner with
    | select s =>
      rcases (Modifier.passes_iff rfl).1 hpasses with hidle | hidle | hunseen
      · exact Or.inl hidle
      · exact h.imp_right fun ⟨_, hkeys⟩ => ⟨hidle, hkeys⟩
      · cases hunseen
    | order keys =>
      rcases (Modifier.passes_iff rfl).1 hpasses with hidle | hidle | hunseen
      · exact Or.inl hidle
      · exact h.imp_right fun ⟨hlists, _⟩ => ⟨hlists, fun b _ k hk => by
          rw [show (o.record (.order keys)).order = [] from hidle] at hk
          cases hk⟩
      · exact h.imp_right fun ⟨hlists, _⟩ => ⟨hlists, hunseen⟩
    | _ => exact h

theorem vacant_blank (body : Option Tree) (slot : Slot) : ({ body } : Outline).Vacant slot := by
  cases slot <;> first | rfl | exact ⟨rfl, rfl⟩

theorem Vacant.record {o : Outline} {slot : Slot} (h : o.Vacant slot) {mo : Modifier}
    (hmo : mo.slot ≠ slot) : (o.record mo).Vacant slot := by
  cases mo <;> cases slot <;> first | exact h | exact absurd rfl hmo

/-! ## One modifier more -/

section

variable {l : Library} {c : Collation} {o : Outline} {xs ys : List Solution}

theorem gives_blank (body : Option Tree) : ({ body } : Outline).Gives l c xs ys ↔ ys = xs := by
  have hbind : xs.map (Solution.boundAll l []) = xs := List.map_id xs
  constructor
  · rintro ⟨ordered, thinned, hordered, hthinned, hys⟩
    calc
      ys = ordered.flatMap (Solution.rows []) := hys.trans (thinned_kept.1 hthinned)
      _ = ordered := Solution.flatMap_rows_nil ordered
      _ = xs := Eq.trans hordered hbind
  · rintro rfl
    exact ⟨ys, ys, hbind.symm, thinned_kept.2 (Solution.flatMap_rows_nil ys).symm, rfl⟩

theorem gives_slice (hvacant : o.Vacant .slice) (limit offset : Option Nat) :
    (∃ zs, o.Gives l c xs zs ∧ (Modifier.slice limit offset).Gives l c zs ys) ↔
      (o.record (.slice limit offset)).Gives l c xs ys := by
  have hwhole (zs : List Solution) : sliced o.limit o.offset zs = zs :=
    sliced_whole hvacant.1 (by rw [hvacant.2]; rfl)
  constructor
  · rintro ⟨_, ⟨ordered, thinned, hordered, hthinned, rfl⟩, hys⟩
    exact ⟨ordered, thinned, hordered, hthinned, by rwa [hwhole] at hys⟩
  · rintro ⟨ordered, thinned, hordered, hthinned, hys⟩
    exact ⟨thinned, ⟨ordered, thinned, hordered, hthinned, (hwhole _).symm⟩, hys⟩

theorem gives_repeats (hvacant : o.Vacant .repeats)
    (hslice : (Modifier.slice o.limit o.offset).Idle) (r : Repeats) :
    (∃ zs, o.Gives l c xs zs ∧ Thinned r zs ys) ↔ ({ o with repeats := r }).Gives l c xs ys := by
  have hkept : o.repeats = .kept := hvacant
  have hwhole (zs : List Solution) : sliced o.limit o.offset zs = zs :=
    sliced_whole hslice.1 hslice.2
  constructor
  · rintro ⟨_, ⟨ordered, thinned, hordered, hthinned, rfl⟩, hys⟩
    rw [hkept, thinned_kept] at hthinned
    rw [hwhole, hthinned] at hys
    exact ⟨ordered, ys, hordered, hys, (hwhole ys).symm⟩
  · rintro ⟨ordered, thinned, hordered, hthinned, hys⟩
    rw [hwhole] at hys
    exact ⟨_, ⟨ordered, _, hordered, by rw [hkept, thinned_kept], rfl⟩, by rwa [hwhole, hys]⟩

theorem gives_select (hvacant : o.Vacant .selection) {s : Selection} (hs : s.lists.length ≤ 1)
    (hadmits : o.Admits (.select s)) :
    (∃ zs, o.Gives l c xs zs ∧ (Modifier.select s).Gives l c zs ys) ↔
      (o.record (.select s)).Gives l c xs ys := by
  have hlists : o.lists = [] := hvacant
  have hnone (zs : List Solution) : zs.flatMap (Solution.rows o.lists) = zs := by
    rw [hlists, Solution.flatMap_rows_nil]
  obtain ⟨f, hf, hkeeps⟩ := Solution.exists_rows_eq hs
  have hthin (zs ws : List Solution) : Thinned o.repeats (zs.map f) ws ↔
      ∃ vs, Thinned o.repeats zs vs ∧ ws = vs.map f := by
    rcases hadmits with hidle | hkept
    · have hid (a : Solution) : f a = a := by
        funext name
        exact hkeeps name (fun columns hcolumns => Or.inl (hidle columns hcolumns)) a
      exact thinned_map fun a _ b _ hab => by rwa [hid, hid] at hab
    · simp only [hkept, thinned_kept, exists_eq_left]
  constructor
  · rintro ⟨_, ⟨ordered, thinned, hordered, hthinned, rfl⟩, hys⟩
    rw [hnone] at hthinned
    refine ⟨ordered, thinned.map f, hordered, ?_, ?_⟩
    · exact hf ordered ▸ (hthin _ _).2 ⟨thinned, hthinned, rfl⟩
    · exact ((hys.trans (hf _)).trans (sliced_map _ _ f thinned).symm)
  · rintro ⟨ordered, thinned, hordered, hthinned, hys⟩
    obtain ⟨vs, hvs, rfl⟩ := (hthin _ _).1 (hf ordered ▸ hthinned)
    refine ⟨_, ⟨ordered, vs, hordered, by rwa [hnone], rfl⟩, ?_⟩
    exact hys.trans ((sliced_map _ _ f vs).trans (hf _).symm)

theorem gives_order (hvacant : o.Vacant .order) (hlists : o.lists.length ≤ 1)
    {keys : List SortKey} (hadmits : o.Admits (.order keys)) :
    (∃ zs, o.Gives l c xs zs ∧ (Modifier.order keys).Gives l c zs ys) ↔
      (o.record (.order keys)).Gives l c xs ys := by
  have hnone : o.order = [] := hvacant
  rcases hadmits with rfl | ⟨hslice, hkeeps⟩
  · rw [show o.record (.order []) = o from hnone ▸ rfl]
    exact ⟨fun ⟨zs, hzs, hys⟩ => hys ▸ hzs, fun hys => ⟨ys, hys, rfl⟩⟩
  · have hwhole (zs : List Solution) : sliced o.limit o.offset zs = zs :=
      sliced_whole hslice.1 hslice.2
    obtain ⟨f, hf, hshown⟩ := Solution.exists_rows_eq hlists
    have hprecedes (a b : Solution) : Precedes l c keys (f a) (f b) ↔ Precedes l c keys a b :=
      precedes_congr (fun k hk name hname => hshown name (hkeeps k hk name hname) a)
        (fun k hk name hname => hshown name (hkeeps k hk name hname) b)
    constructor
    · rintro ⟨_, ⟨_, thinned, hordered, hthinned, rfl⟩, hys⟩
      rw [hnone] at hordered
      cases hordered
      rw [hf] at hthinned
      rw [hwhole] at hys
      obtain ⟨_, hmapped, hys⟩ := arranged_thinned.1 ⟨thinned, hthinned, hys⟩
      obtain ⟨ordered, hordered, rfl⟩ := (arranged_map hprecedes).1 hmapped
      exact ⟨ordered, ys, hordered, hf ordered ▸ hys, (hwhole ys).symm⟩
    · rintro ⟨ordered, thinned, hordered, hthinned, hys⟩
      have hmapped := (arranged_map hprecedes).2 ⟨ordered, hordered, rfl⟩
      obtain ⟨zs, hzs, hsorted⟩ := arranged_thinned.2 ⟨_, hmapped, hf ordered ▸ hthinned⟩
      refine ⟨zs, ⟨_, zs, by rw [hnone]; rfl, by rwa [hf], (hwhole zs).symm⟩, ?_⟩
      rw [hys.trans (hwhole thinned)]
      exact hsorted

theorem gives_extend (hvacant : o.Vacant .bindings) (hlists : o.lists.length ≤ 1)
    {bindings : List Binding} (hadmits : o.Admits (.extend bindings))
    (hfits : (Modifier.extend bindings).Fits xs) :
    (∃ zs, o.Gives l c xs zs ∧ (Modifier.extend bindings).Gives l c zs ys) ↔
      (o.record (.extend bindings)).Gives l c xs ys := by
  have hnone : o.bindings = OrderedMap.empty := hvacant
  have hentries : (o.record (.extend bindings)).bindings.entries = bindings.map Binding.entry :=
    OrderedMap.entries_ofList (Binding.fst_entries bindings ▸ hfits.1)
  rcases hadmits with rfl | ⟨hshown, hkeys⟩
  · have hsame : o.record (.extend []) = o := by
      cases o
      cases hnone
      rfl
    rw [hsame]
    exact ⟨fun ⟨zs, hzs, hys⟩ => by rwa [hys.trans (List.map_id zs)],
      fun hys => ⟨ys, hys, (List.map_id ys).symm⟩⟩
  · have hrows (zs : List Solution) : zs.flatMap (Solution.rows o.lists) = zs :=
      Solution.flatMap_rows hlists hshown zs
    have hbind (zs : List Solution) :
        zs.map (Solution.boundAll l o.bindings.entries) = zs := by
      rw [hnone]
      exact List.map_id zs
    let f := Solution.boundAll l (bindings.map Binding.entry)
    have hprecedes (a b : Solution) :
        Precedes l c o.order (f a) (f b) ↔ Precedes l c o.order a b :=
      Binding.precedes_boundAll hkeys
    have hthin {zs ws : List Solution} (hzs : Arranged l c o.order xs zs) :
        Thinned o.repeats (zs.map f) ws ↔ ∃ vs, Thinned o.repeats zs vs ∧ ws = vs.map f :=
      Binding.thinned_boundAll fun b hb a ha => hfits.2 b hb a (hzs.perm.mem_iff.1 ha)
    constructor
    · rintro ⟨_, ⟨ordered, thinned, hordered, hthinned, rfl⟩, hys⟩
      rw [hbind] at hordered
      rw [hrows] at hthinned
      refine ⟨ordered.map f, thinned.map f, ?_, ?_, ?_⟩
      · rw [hentries]
        exact (arranged_map hprecedes).2 ⟨ordered, hordered, rfl⟩
      · exact (hrows _).symm ▸ (hthin hordered).2 ⟨thinned, hthinned, rfl⟩
      · exact hys.trans (sliced_map _ _ f thinned).symm
    · rintro ⟨_, _, hmapped, hthinned, hys⟩
      rw [hentries] at hmapped
      obtain ⟨ordered, hordered, rfl⟩ := (arranged_map hprecedes).1 hmapped
      obtain ⟨thinned, hthinned, rfl⟩ := (hthin hordered).1 ((hrows _) ▸ hthinned)
      refine ⟨_, ⟨ordered, thinned, ?_, ?_, rfl⟩, hys.trans (sliced_map _ _ f thinned)⟩
      · rwa [hbind]
      · rwa [hrows]

/-- A modifier that may pass the parts after its slot gives what it gives in its slot. -/
theorem gives_record {mo : Modifier} (hvacant : o.Vacant mo.slot) (hadmits : o.Admits mo)
    (hlists : o.lists.length ≤ 1) (hfits : mo.Fits xs) :
    (∃ zs, o.Gives l c xs zs ∧ mo.Gives l c zs ys) ↔ (o.record mo).Gives l c xs ys := by
  cases mo with
  | select s => exact gives_select hvacant hfits hadmits
  | extend bindings => exact gives_extend hvacant hlists hadmits hfits
  | order keys => exact gives_order hvacant hlists hadmits
  | distinct => exact gives_repeats hvacant hadmits .distinct
  | reduced => exact gives_repeats hvacant hadmits .reduced
  | slice limit offset => exact gives_slice hvacant limit offset

end

/-! ## All modifiers of a tree -/

/-- The body that is left has no modifiers at its root. -/
def Settled (o : Outline) : Prop := ∀ body ∈ o.body, body.modifiers = []

variable {filled : List Slot} {t : Tree}

theorem not_settled {o : Outline} {mo : Modifier} {modifiers : List Modifier}
    (h : o.body = some t) (ht : t.modifiers = mo :: modifiers) : ¬ o.Settled :=
  fun hsettled => nomatch ht.symm.trans (hsettled t h)

/-- Peeling goes on to the end, one free slot after the other. -/
theorem peelFrom_settled {mo : Modifier} {arg : Tree}
    (h : (peelFrom filled (.modify mo arg)).Settled) :
    mo.slot ∉ filled ∧ (peelFrom (mo.slot :: filled) arg).Settled := by
  have hfree : mo.slot ∉ filled := by
    intro hmem
    rw [peelFrom_filled hmem] at h
    exact not_settled rfl rfl h
  rw [peelFrom_free hfree] at h
  refine ⟨hfree, fun body hbody => h body ?_⟩
  rw [record_body]
  exact hbody

theorem peelFrom_bare {s : Selection} (h : (peelFrom filled (.bare s)).Settled) :
    Slot.selection ∉ filled ∧ peelFrom filled (.bare s) = { body := none, lists := s.lists } := by
  have hfree : Slot.selection ∉ filled := by
    intro hmem
    rw [peelFrom_bare_filled hmem] at h
    exact not_settled rfl rfl h
  exact ⟨hfree, peelFrom_bare_free hfree s⟩

theorem vacant_peelFrom {slot : Slot} (hslot : slot ∈ filled) (t : Tree) :
    (peelFrom filled t).Vacant slot := by
  induction filled, t using peel_induction with
  | stops filled t hstops =>
    rw [peelFrom_stopped hstops]
    exact vacant_blank _ slot
  | bare filled s hs =>
    have hne : (Modifier.select s).slot ≠ slot := fun heq => hs (Eq.subst heq.symm hslot)
    rw [peelFrom_bare_free hs]
    exact (vacant_blank none slot).record hne
  | modify filled mo arg hmo ih =>
    have hne : mo.slot ≠ slot := fun heq => hmo (heq ▸ hslot)
    rw [peelFrom_free hmo]
    exact (ih (List.mem_cons_of_mem _ hslot)).record (o := deeper _) hne

theorem admits_peelFrom {mo : Modifier} (h : ∀ inner ∈ t.modifiers, mo.Passes inner) :
    (peelFrom filled t).Admits mo := by
  induction filled, t using peel_induction with
  | stops filled t hstops =>
    rw [peelFrom_stopped hstops]
    exact admits_blank _ mo
  | bare filled s hs =>
    rw [peelFrom_bare_free hs]
    exact (admits_blank none mo).record (h _ List.mem_cons_self)
  | modify filled inner arg hslot ih =>
    obtain ⟨hinner, harg⟩ := List.forall_mem_cons.1 h
    rw [peelFrom_free hslot]
    exact (ih harg).record (o := deeper _) hinner

theorem lists_peelFrom {p : List Columns → Prop} (hnone : p [])
    (h : ∀ s, .select s ∈ t.modifiers → p s.lists) : p (peelFrom filled t).lists := by
  induction filled, t using peel_induction with
  | stops filled t hstops =>
    rw [peelFrom_stopped hstops]
    exact hnone
  | bare filled s hs =>
    rw [peelFrom_bare_free hs]
    exact h s List.mem_cons_self
  | modify filled mo arg hmo ih =>
    rw [peelFrom_free hmo]
    cases mo with
    | select s => exact h s List.mem_cons_self
    | _ => exact ih fun s hs => h s (List.mem_cons_of_mem _ hs)

variable {l : Library} {c : Collation} {xs ys : List Solution}

/-- The modifiers give what the outline gives, if none of them is held up on its way. -/
theorem gives_peelFrom (hsettled : (peelFrom filled t).Settled)
    (hpasses : t.modifiers.Pairwise Modifier.Passes)
    (hfits : ∀ mo ∈ t.modifiers, mo.Fits xs) :
    GivesAll l c t.modifiers xs ys ↔ (peelFrom filled t).Gives l c xs ys := by
  induction t generalizing filled ys with
  | modify mo arg ih =>
    obtain ⟨hfree, hinner⟩ := peelFrom_settled hsettled
    obtain ⟨hmo, harg⟩ := List.pairwise_cons.1 hpasses
    obtain ⟨hmofits, hargfits⟩ := List.forall_mem_cons.1 hfits
    have hlists : (peelFrom (mo.slot :: filled) arg).lists.length ≤ 1 :=
      lists_peelFrom (p := fun lists => lists.length ≤ 1) (Nat.zero_le 1) fun s hs => hargfits _ hs
    rw [peelFrom_free hfree, ← gives_record (o := deeper _)
      (vacant_peelFrom List.mem_cons_self arg) (admits_peelFrom hmo) hlists hmofits]
    exact exists_congr fun zs => and_congr_left' (ih hinner harg hargfits)
  | bare s =>
    rw [(peelFrom_bare hsettled).2]
    have hrecord : (∃ zs, _ ∧ (Modifier.select s).Gives l c zs ys) ↔ _ :=
      gives_record (vacant_blank none .selection) (admits_blank none (.select s)) (Nat.zero_le 1)
        (hfits _ List.mem_cons_self)
    exact Iff.trans (exists_congr fun zs => and_congr_left' (gives_blank none).symm) hrecord
  | _ => exact (gives_blank _).symm

theorem ground_peelFrom (hsettled : (peelFrom filled t).Settled) :
    t.ground = (peelFrom filled t).body.getD .unit := by
  induction t generalizing filled with
  | modify mo arg ih =>
    obtain ⟨hfree, hinner⟩ := peelFrom_settled hsettled
    rw [peelFrom_free hfree, record_body]
    exact ih hinner
  | bare s =>
    rw [(peelFrom_bare hsettled).2]
    rfl
  | _ => rfl

/-- No two modifiers fill one slot. -/
theorem slots_peelFrom (hfilled : filled.Nodup) (hsettled : (peelFrom filled t).Settled) :
    (t.modifiers.map Modifier.slot ++ filled).Nodup := by
  induction t generalizing filled with
  | modify mo arg ih =>
    obtain ⟨hfree, hinner⟩ := peelFrom_settled hsettled
    exact (List.perm_middle.nodup_iff).1 (ih (hfilled.cons hfree) hinner)
  | bare s => exact hfilled.cons (peelFrom_bare hsettled).1
  | _ => exact hfilled

/-- The columns are those of the only selection. -/
theorem lists_of_mem {s : Selection} (hsettled : (peelFrom filled t).Settled)
    (hs : .select s ∈ t.modifiers) (hfilled : filled.Nodup) :
    (peelFrom filled t).lists = s.lists := by
  induction t generalizing filled with
  | modify mo arg ih =>
    have hslots := slots_peelFrom hfilled hsettled
    obtain ⟨hfree, hinner⟩ := peelFrom_settled hsettled
    rw [peelFrom_free hfree]
    rcases List.mem_cons.1 hs with rfl | hs
    · rfl
    · have hne : mo.slot ≠ .selection := fun heq =>
        (List.nodup_cons.1 hslots).1 (List.mem_append_left _ (heq ▸ List.mem_map_of_mem hs))
      rw [record_lists hne]
      exact ih hinner hs (hfilled.cons hfree)
  | bare s' =>
    rw [(peelFrom_bare hsettled).2]
    cases List.mem_singleton.1 hs
    rfl
  | _ => cases hs

end Outline

/-! ## Trees with a text -/

namespace Sparql

/-- The tree has a text, as a select query. -/
def Selects (t : Tree) : Prop :=
  (Outline.peel t).shape = .select ∧ ∃ s m text, renderTree s t m = .ok text

theorem selects_iff {t : Tree} : Selects t ↔ (Outline.peel t).shape = .select ∧
    (Outline.peel t).lists.length ≤ 1 ∧
    ∀ body ∈ (Outline.peel t).body, ∀ u ∈ body.subtrees, u.kind ∈ bodyKinds := by
  refine and_congr_right fun hshape => ?_
  have hrefusal : refusal? (treeQuery t) = none ↔ (Outline.peel t).lists.length ≤ 1 ∧
      ∀ body ∈ (Outline.peel t).body, ∀ u ∈ body.subtrees, u.kind ∈ bodyKinds := by
    have hbody : (Outline.peel t).body.bind firstMisplaced? = none ↔
        ∀ body ∈ (Outline.peel t).body, ∀ u ∈ body.subtrees, u.kind ∈ bodyKinds := by
      simp only [Option.bind_eq_none_iff, firstMisplaced?_eq_none, Option.mem_def]
    rw [← hbody, ← Nat.not_lt]
    by_cases hlists : 1 < (Outline.peel t).lists.length
    · simp [refusal?, treeQuery, hshape, isShaped, hlists]
    · simp [refusal?, treeQuery, hshape, isShaped, hlists]
  rw [← hrefusal]
  have herror (s : Style) (m : GraphMap) :
      Outcome.error? (renderTree s t m) = refusal? (treeQuery t) := by
    rw [← error?_document (Naming.ofStyle s) (treeQuery t) m]
    exact Outcome.error?_bind_ok _ _
  constructor
  · rintro ⟨s, m, htext⟩
    rw [← herror s m]
    exact Outcome.error?_eq_none.2 htext
  · intro h
    rw [← herror Style.default .empty] at h
    exact ⟨Style.default, .empty, Outcome.error?_eq_none.1 h⟩

theorem Selects.settled {t : Tree} (h : Selects t) : (Outline.peel t).Settled := by
  intro body hbody
  have hkind := (selects_iff.1 h).2.2 body hbody body body.self_mem_subtrees
  rw [← misplaced?_eq_none] at hkind
  cases body with
  | modify mo arg =>
    rw [Tree.kind, misplaced?_modifier] at hkind
    cases hkind
  | bare s =>
    rw [Tree.kind, misplaced?_selection] at hkind
    cases hkind
  | _ => rfl

end Sparql

/-- What is asked of bindings in a text: their names are distinct, and no names of the body. -/
def Tree.BindsAfresh (t : Tree) : Prop :=
  ∀ bindings, .extend bindings ∈ t.modifiers →
    (bindings.map Binding.name).Nodup ∧ ∀ b ∈ bindings, b.name ∉ t.ground.names

namespace Tree

variable {t : Tree} {l : Library} {c : Collation}

theorem fits_of_selects (hselects : Sparql.Selects t) (hafresh : t.BindsAfresh)
    {data : Finset Quad} {xs : List Solution}
    (hxs : (xs : Multiset Solution) = t.ground.solutions l data) {mo : Modifier}
    (hmo : mo ∈ t.modifiers) : mo.Fits xs := by
  cases mo with
  | select s =>
    show s.lists.length ≤ 1
    rw [← Outline.lists_of_mem hselects.settled hmo List.nodup_nil]
    exact (Sparql.selects_iff.1 hselects).2.1
  | extend bindings =>
    obtain ⟨hnodup, hnames⟩ := hafresh bindings hmo
    refine ⟨hnodup, fun b hb a ha => ?_⟩
    have hmem : a ∈ t.ground.solutions l data := hxs ▸ Multiset.mem_coe.2 ha
    exact not_not.1 fun hbinds => hnames b hb (solutions_within a hmem b.name hbinds)
  | _ => trivial

/-- The tree gives what its text does, if no modifier is held up on the way to its slot. -/
theorem sameSequences (hselects : Sparql.Selects t) (hafresh : t.BindsAfresh)
    (hpasses : t.modifiers.Pairwise Modifier.Passes) : t.SameSequences l :=
  fun _ _ _ _ hxs => Outline.gives_peelFrom hselects.settled hpasses fun _ hmo =>
    fits_of_selects hselects hafresh hxs hmo

end Tree

/-! ## No sequence is without a result -/

theorem Modifier.exists_gives (l : Library) (c : Collation) (mo : Modifier) (xs : List Solution) :
    ∃ ys, mo.Gives l c xs ys := by
  cases mo with
  | order keys => exact exists_arranged keys xs
  | distinct => exact exists_thinned .distinct xs
  | reduced => exact exists_thinned .reduced xs
  | _ => exact ⟨_, rfl⟩

theorem exists_givesAll (l : Library) (c : Collation) (modifiers : List Modifier)
    (xs : List Solution) : ∃ ys, GivesAll l c modifiers xs ys := by
  induction modifiers with
  | nil => exact ⟨xs, rfl⟩
  | cons mo modifiers ih =>
    obtain ⟨zs, hzs⟩ := ih
    obtain ⟨ys, hys⟩ := mo.exists_gives l c zs
    exact ⟨ys, zs, hzs, hys⟩

end RdfQuery
