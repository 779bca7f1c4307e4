import RdfQuery.Proofs.Group.Flaws

/-!
# Errors met while groups are built

The only error met before compilation is a third side of a union. Wherever
among the calls that happens, every draft around it comes to know: drafts of
groups hand on the errors of the drafts inside them. Without such an error the
draft holds the group that the calls describe.
-/

set_option autoImplicit false

namespace RdfQuery

namespace GroupCall

/-! ## The calls inside calls -/

mutual

/-- The call and all calls inside it, each before those inside it. -/
def within : GroupCall → List GroupCall
  | .tree t => [.tree t]
  | .filter e => [.filter e]
  | .nested calls => .nested calls :: withinAll calls
  | .optional calls => .optional calls :: withinAll calls
  | .union sides => .union sides :: withinSides sides

def withinAll : List GroupCall → List GroupCall
  | [] => []
  | c :: cs => within c ++ withinAll cs

def withinSides : List (List GroupCall) → List GroupCall
  | [] => []
  | calls :: sides => withinAll calls ++ withinSides sides

end

theorem self_mem_within (c : GroupCall) : c ∈ within c := by
  cases c <;> simp [within]

theorem within_subset {c : GroupCall} {cs : List GroupCall} (h : c ∈ cs) :
    within c ⊆ withinAll cs := by
  induction cs with
  | nil => cases h
  | cons d cs ih =>
    intro x hx
    rw [withinAll, List.mem_append]
    rcases List.mem_cons.1 h with rfl | h
    · exact Or.inl hx
    · exact Or.inr (ih h hx)

theorem mem_withinAll {c : GroupCall} {cs : List GroupCall} (h : c ∈ cs) : c ∈ withinAll cs :=
  within_subset h (self_mem_within c)

theorem withinAll_subset_sides {calls : List GroupCall} {sides : List (List GroupCall)}
    (h : calls ∈ sides) : withinAll calls ⊆ withinSides sides := by
  induction sides with
  | nil => cases h
  | cons side sides ih =>
    intro x hx
    rw [withinSides, List.mem_append]
    rcases List.mem_cons.1 h with rfl | h
    · exact Or.inl hx
    · exact Or.inr (ih h hx)

mutual

/-- What stands inside an inner call stands inside the outer one. -/
theorem within_trans : ∀ {c d : GroupCall}, d ∈ within c → within d ⊆ within c
  | .tree t, d, h => by
    rw [List.mem_singleton.1 h]
    exact List.Subset.refl _
  | .filter e, d, h => by
    rw [List.mem_singleton.1 h]
    exact List.Subset.refl _
  | .nested calls, d, h => by
    rcases List.mem_cons.1 h with rfl | h
    · exact List.Subset.refl _
    · exact List.subset_cons_of_subset _ (withinAll_trans h)
  | .optional calls, d, h => by
    rcases List.mem_cons.1 h with rfl | h
    · exact List.Subset.refl _
    · exact List.subset_cons_of_subset _ (withinAll_trans h)
  | .union sides, d, h => by
    rcases List.mem_cons.1 h with rfl | h
    · exact List.Subset.refl _
    · exact List.subset_cons_of_subset _ (withinSides_trans h)

theorem withinAll_trans : ∀ {cs : List GroupCall} {d : GroupCall}, d ∈ withinAll cs →
    within d ⊆ withinAll cs
  | [], _, h => by cases h
  | c :: cs, d, h => by
    rcases List.mem_append.1 h with h | h
    · exact List.subset_append_of_subset_left _ (within_trans h)
    · exact List.subset_append_of_subset_right _ (withinAll_trans h)

theorem withinSides_trans : ∀ {sides : List (List GroupCall)} {d : GroupCall},
    d ∈ withinSides sides → within d ⊆ withinSides sides
  | [], _, h => by cases h
  | calls :: sides, d, h => by
    rcases List.mem_append.1 h with h | h
    · exact List.subset_append_of_subset_left _ (withinAll_trans h)
    · exact List.subset_append_of_subset_right _ (withinSides_trans h)

end

/-! ## Third sides -/

def isOverfull : GroupCall → Bool
  | .union sides => 2 < sides.length
  | _ => false

/-- A union among the calls, at any depth, is given a third side. -/
def crowded (calls : List GroupCall) : Bool := (withinAll calls).any isOverfull

theorem crowded_iff {calls : List GroupCall} :
    crowded calls = true ↔ ∃ sides, .union sides ∈ withinAll calls ∧ 2 < sides.length := by
  rw [crowded, List.any_eq_true]
  constructor
  · rintro ⟨c, hc, hover⟩
    cases c with
    | union sides => exact ⟨sides, hc, of_decide_eq_true hover⟩
    | _ => cases hover
  · rintro ⟨sides, hmem, hlength⟩
    exact ⟨.union sides, hmem, decide_eq_true hlength⟩

/-- The error of a third side. -/
def third? (found : Bool) : Option BuildError := if found then some (.unionArity 3) else none

theorem third?_or (a b : Bool) : (third? a).or (third? b) = third? (a || b) := by
  cases a <;> rfl

theorem third?_eq_some {found : Bool} {e : BuildError} :
    third? found = some e ↔ found = true ∧ e = .unionArity 3 := by
  cases found <;> simp [third?, eq_comm]

end GroupCall

namespace GroupDraft

open GroupCall

theorem error?_finish (d : GroupDraft) : Outcome.error? d.finish = d.error? := by
  unfold finish
  cases d.error? <;> rfl

theorem error?_record (d : GroupDraft) (e : BuildError) :
    (d.record e).error? = d.error?.or (some e) := rfl

theorem addChild_of_group {g : Group} (h : g.isUnion = false) (child : Group) :
    g.addChild child = .ok (g.withChildren [child]) := by
  simp [Group.addChild, h, Group.withChildren]

/-- A union takes children until it has two. -/
theorem addChild_of_union {g : Group} (h : g.isUnion = true) (hlength : g.children.length ≤ 2)
    (child : Group) :
    g.addChild child =
      if g.children.length < 2 then .ok (g.withChildren [child]) else .error (.unionArity 3) := by
  by_cases htwo : g.children.length < 2
  · simp [Group.addChild, h, htwo, Group.withChildren]
  · have heq : g.children.length = 2 := by omega
    simp [Group.addChild, h, heq]

/-- A draft of a group hands on what the drafts of its children met. -/
theorem error?_attach {d : GroupDraft} (h : d.group.isUnion = false)
    (child : Except BuildError Group) :
    (d.attach child).error? = d.error?.or (Outcome.error? child) := by
  cases child with
  | error e => rfl
  | ok g => simp [attach, addChild_of_group h, Outcome.error?]

theorem isUnion_attach (d : GroupDraft) (child : Except BuildError Group) :
    (d.attach child).group.isUnion = d.group.isUnion := by
  unfold attach
  split
  · rfl
  · split
    · rfl
    · rename_i hadd
      rw [Group.addChild_eq_ok hadd]
      rfl

theorem isUnion_call (d : GroupDraft) (c : GroupCall) :
    (call d c).group.isUnion = d.group.isUnion := by
  cases c with
  | tree t => rfl
  | filter e => rfl
  | nested calls => exact isUnion_attach _ _
  | optional calls => exact isUnion_attach _ _
  | union sides => exact isUnion_attach _ _

/-- A draft of a union hands on what its sides met, and meets an error itself at a third side. -/
theorem error?_attach_side {d : GroupDraft} (h : d.group.isUnion = true)
    (hlength : d.group.children.length ≤ 2) {side : Except BuildError Group} {found : Bool}
    (hside : Outcome.error? side = third? found) (more : Nat) (later : Bool) :
    (d.attach side).group.children.length ≤ 2 ∧
    (d.attach side).error?.or
        (third? (2 < (d.attach side).group.children.length + more || later)) =
      d.error?.or
        (third? (2 < d.group.children.length + (more + 1) || (found || later))) := by
  cases side with
  | error e =>
    obtain ⟨rfl, rfl⟩ := third?_eq_some.1 hside.symm
    refine ⟨hlength, ?_⟩
    simp only [attach, error?_record, Option.or_assoc, Bool.true_or, Bool.or_true]
    rfl
  | ok g =>
    have hfound : found = false := by
      cases found with
      | true => cases hside
      | false => rfl
    rw [attach, addChild_of_union h hlength]
    by_cases htwo : d.group.children.length < 2
    · have hmore : d.group.children.length + 1 + more = d.group.children.length + (more + 1) := by
        omega
      simp only [if_pos htwo, Group.withChildren, List.length_append, List.length_singleton,
        hmore, hfound, Bool.false_or, and_true]
      omega
    · have heq : d.group.children.length = 2 := by omega
      have hover : 2 < 2 + (more + 1) := by omega
      simp only [if_neg htwo]
      refine ⟨hlength, ?_⟩
      simp only [error?_record, Option.or_assoc, show (d.record _).group = d.group from rfl, heq,
        decide_eq_true hover, Bool.true_or]
      rfl

mutual

theorem error?_call : ∀ (d : GroupDraft) (c : GroupCall), d.group.isUnion = false →
    (call d c).error? = d.error?.or (third? ((within c).any isOverfull))
  | d, .tree t, _ => (Option.or_none).symm
  | d, .filter e, _ => (Option.or_none).symm
  | d, .nested calls, h => by
    rw [call, error?_attach h, error?_finish, error?_callAll _ calls rfl]
    rfl
  | d, .optional calls, h => by
    rw [call, error?_attach h, error?_finish, error?_callAll _ calls rfl]
    rfl
  | d, .union sides, h => by
    rw [call, error?_attach h, error?_finish,
      error?_sideAll startUnion sides rfl (Nat.zero_le 2)]
    simp [startUnion, Group.startUnion, within, isOverfull]

theorem error?_callAll : ∀ (d : GroupDraft) (cs : List GroupCall), d.group.isUnion = false →
    (callAll d cs).error? = d.error?.or (third? (crowded cs))
  | d, [], _ => (Option.or_none).symm
  | d, c :: cs, h => by
    rw [callAll, error?_callAll _ cs ((isUnion_call d c).trans h), error?_call d c h,
      Option.or_assoc, third?_or, crowded, crowded, withinAll, List.any_append]

theorem error?_sideAll : ∀ (d : GroupDraft) (sides : List (List GroupCall)),
    d.group.isUnion = true → d.group.children.length ≤ 2 →
    (sideAll d sides).error? = d.error?.or
      (third? (2 < d.group.children.length + sides.length || (withinSides sides).any isOverfull))
  | d, [], _, hlength => by
    have hfits : ¬ 2 < d.group.children.length := by omega
    simp [sideAll, withinSides, third?, hfits]
  | d, calls :: sides, h, hlength => by
    have hside : Outcome.error? (callAll (start false) calls).finish = third? (crowded calls) := by
      rw [error?_finish, error?_callAll _ calls rfl]
      rfl
    obtain ⟨hnext, herror⟩ :=
      error?_attach_side h hlength hside sides.length ((withinSides sides).any isOverfull)
    rw [sideAll, error?_sideAll _ sides ((isUnion_attach _ _).trans h) hnext, herror,
      withinSides, List.any_append]
    rfl

end

end GroupDraft

namespace Group

open GroupCall

theorem error?_build (calls : List GroupCall) :
    Outcome.error? (build calls) = third? (crowded calls) := by
  rw [build, GroupDraft.error?_finish, GroupDraft.error?_callAll _ calls rfl]
  rfl

theorem build_of_not_crowded {calls : List GroupCall} (h : crowded calls = false) :
    build calls = .ok (ofCalls calls) := by
  have hnone : Outcome.error? (build calls) = none := by
    rw [error?_build, h]
    rfl
  obtain ⟨g, hg⟩ := Outcome.error?_eq_none.1 hnone
  rw [hg, build_eq_ok hg]

end Group

/-! ## Nothing is forgotten -/

namespace GroupCall

/-- What the drafts come to that a call starts. -/
def drafted : GroupCall → List (Except BuildError Group)
  | .tree _ => []
  | .filter _ => []
  | .nested calls => [(GroupDraft.callAll (GroupDraft.start false) calls).finish]
  | .optional calls => [(GroupDraft.callAll (GroupDraft.start true) calls).finish]
  | .union sides =>
    (GroupDraft.sideAll GroupDraft.startUnion sides).finish ::
      sides.map fun calls => (GroupDraft.callAll (GroupDraft.start false) calls).finish

theorem error?_drafted {c : GroupCall} {r : Except BuildError Group} (h : r ∈ c.drafted) :
    ∃ inner, inner ⊆ within c ∧ Outcome.error? r = third? (inner.any isOverfull) := by
  have hgroup (optional : Bool) (calls : List GroupCall) :
      Outcome.error? (GroupDraft.callAll (GroupDraft.start optional) calls).finish =
        third? ((withinAll calls).any isOverfull) := by
    rw [GroupDraft.error?_finish, GroupDraft.error?_callAll _ calls rfl]
    rfl
  cases c with
  | tree t => cases h
  | filter e => cases h
  | nested calls =>
    cases List.mem_singleton.1 h
    exact ⟨_, List.subset_cons_self _ _, hgroup false calls⟩
  | optional calls =>
    cases List.mem_singleton.1 h
    exact ⟨_, List.subset_cons_self _ _, hgroup true calls⟩
  | union sides =>
    rcases List.mem_cons.1 h with rfl | h
    · refine ⟨_, List.Subset.refl _, ?_⟩
      rw [GroupDraft.error?_finish,
        GroupDraft.error?_sideAll GroupDraft.startUnion sides rfl (Nat.zero_le 2)]
      simp [GroupDraft.startUnion, Group.startUnion, within, isOverfull]
    · obtain ⟨calls, hcalls, rfl⟩ := List.mem_map.1 h
      exact ⟨_, List.subset_cons_of_subset _ (withinAll_subset_sides hcalls), hgroup false calls⟩

/-- The error of a draft at any depth is the error of the whole. -/
theorem error_of_drafted {calls : List GroupCall} {c : GroupCall} (hc : c ∈ withinAll calls)
    {r : Except BuildError Group} (hr : r ∈ c.drafted) {e : BuildError} (h : r = .error e) :
    Group.build calls = .error e := by
  obtain ⟨inner, hinner, herror⟩ := error?_drafted hr
  rw [Outcome.error?_eq_some.2 h] at herror
  obtain ⟨hfound, rfl⟩ := third?_eq_some.1 herror.symm
  obtain ⟨d, hd, hover⟩ := List.any_eq_true.1 hfound
  have hcrowded : crowded calls = true :=
    List.any_eq_true.2 ⟨d, withinAll_trans hc (hinner hd), hover⟩
  rw [← Outcome.error?_eq_some, Group.error?_build, hcrowded]
  rfl

end GroupCall

/-! ## The groups that calls describe -/

/-- What the group has stands in these calls. -/
structure Group.Named (calls : List GroupCall) (g : Group) : Prop where
  body : ∀ t ∈ g.body, .tree t ∈ calls
  filters : ∀ e ∈ g.filters, .filter e ∈ calls
  sides : g.isUnion = true →
    g.body = [] ∧ ∃ sides, .union sides ∈ calls ∧ sides.length = g.children.length

namespace Group

open GroupCall

theorem Named.mono {calls calls' : List GroupCall} {g : Group} (h : g.Named calls)
    (hsub : calls ⊆ calls') : g.Named calls' where
  body := fun t ht => hsub (h.body t ht)
  filters := fun e he => hsub (h.filters e he)
  sides := fun hunion => (h.sides hunion).imp_right (Exists.imp fun _ hs => ⟨hsub hs.1, hs.2⟩)

theorem named_described (optional : Bool) (calls : List GroupCall) (children : List Group) :
    Named (withinAll calls)
      ⟨false, optional, calls.filterMap tree?, children, calls.filterMap filter?⟩ where
  body := by
    intro t ht
    obtain ⟨c, hc, htree⟩ := List.mem_filterMap.1 ht
    cases c with
    | tree u =>
      cases htree
      exact mem_withinAll hc
    | _ => cases htree
  filters := by
    intro e he
    obtain ⟨c, hc, hfilter⟩ := List.mem_filterMap.1 he
    cases c with
    | filter d =>
      cases hfilter
      exact mem_withinAll hc
    | _ => cases hfilter
  sides := nofun

theorem length_unionSides (sides : List (List GroupCall)) :
    (unionSides sides).length = sides.length := by
  induction sides with
  | nil => rfl
  | cons calls sides ih => rw [unionSides, List.length_cons, List.length_cons, ih]

mutual

theorem named_child : ∀ (c : GroupCall) {g : Group}, child? c = some g →
    ∀ u ∈ g.subgroups, u.Named (within c)
  | .tree _, _, h => by cases h
  | .filter _, _, h => by cases h
  | .nested calls, _, h => by
    cases h
    intro u hu
    refine Named.mono ?_ (List.subset_cons_self _ _)
    rcases List.mem_cons.1 hu with rfl | hu
    · exact named_described false calls _
    · exact named_childrenOf calls u hu
  | .optional calls, _, h => by
    cases h
    intro u hu
    refine Named.mono ?_ (List.subset_cons_self _ _)
    rcases List.mem_cons.1 hu with rfl | hu
    · exact named_described true calls _
    · exact named_childrenOf calls u hu
  | .union sides, _, h => by
    cases h
    intro u hu
    rcases List.mem_cons.1 hu with rfl | hu
    · exact ⟨nofun, nofun, fun _ =>
        ⟨rfl, sides, List.mem_cons_self, (length_unionSides sides).symm⟩⟩
    · exact (named_unionSides sides u hu).mono (List.subset_cons_self _ _)

theorem named_childrenOf : ∀ (cs : List GroupCall), ∀ u ∈ subgroupsAll (childrenOf cs),
    u.Named (withinAll cs)
  | [], _, h => by cases h
  | c :: cs, u, h => by
    rw [childrenOf] at h
    cases hchild : child? c with
    | none =>
      rw [hchild] at h
      exact (named_childrenOf cs u h).mono (List.subset_append_right _ _)
    | some g =>
      rw [hchild] at h
      rcases List.mem_append.1 h with h | h
      · exact (named_child c hchild u h).mono (List.subset_append_left _ _)
      · exact (named_childrenOf cs u h).mono (List.subset_append_right _ _)

theorem named_unionSides : ∀ (sides : List (List GroupCall)),
    ∀ u ∈ subgroupsAll (unionSides sides), u.Named (withinSides sides)
  | [], _, h => by cases h
  | calls :: sides, u, h => by
    rcases List.mem_append.1 h with h | h
    · refine Named.mono ?_ (List.subset_append_left _ _)
      rcases List.mem_cons.1 h with rfl | h
      · exact named_described false calls _
      · exact named_childrenOf calls u h
    · exact (named_unionSides sides u h).mono (List.subset_append_right _ _)

end

/-- The group that calls describe has only what stands in them, and so have all groups inside. -/
theorem named_ofCalls (calls : List GroupCall) :
    ∀ u ∈ (ofCalls calls).subgroups, u.Named (withinAll calls) := by
  intro u hu
  rcases List.mem_cons.1 hu with rfl | hu
  · exact named_described false calls _
  · exact named_childrenOf calls u hu

/-- Where no union has a third side, a flawed union has one side or none. -/
theorem flaw?_of_named {calls : List GroupCall} (h : crowded calls = false) {g : Group}
    (hg : g.Named (withinAll calls)) {e : BuildError} (he : g.flaw? = some e) :
    e = .emptyGroup ∨ e = .unionArity 1 := by
  unfold flaw? at he
  split at he
  · cases he
    exact Or.inl rfl
  · rename_i hempty
    split at he
    · rename_i hsides
      cases he
      simp only [Bool.and_eq_true, bne_iff_ne, ne_eq] at hsides
      obtain ⟨hbody, sides, hmem, hlength⟩ := hg.sides hsides.1
      have hfits : ¬ 2 < sides.length := by
        simpa [isOverfull] using List.any_eq_false.1 h _ hmem
      have hsome : g.children.length ≠ 0 := by
        simpa [isEmpty, hbody] using hempty
      have hone : g.children.length = 1 := by omega
      exact Or.inr (by rw [hone])
    · cases he

end Group

end RdfQuery
