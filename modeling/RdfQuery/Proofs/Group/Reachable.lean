import RdfQuery.Proofs.Group.Recorded

/-!
# Which groups compile

The operations on groups never make a union of more than two sides: a third
one is refused, and the union stays as it was. A group so made compiles if
everything in it is sound, and otherwise fails at the first group that is not.
-/

set_option autoImplicit false

namespace RdfQuery

namespace Group

/-! ## Sound groups -/

/-- There is something in the group, and a union has its two sides. -/
def Sound (g : Group) : Prop :=
  (g.body ≠ [] ∨ g.children ≠ []) ∧ (g.isUnion = true → g.children.length = 2)

instance (g : Group) : Decidable g.Sound :=
  inferInstanceAs (Decidable ((g.body ≠ [] ∨ g.children ≠ []) ∧ _))

/-- The error of a group that is not sound. -/
def flaw (g : Group) : BuildError :=
  if g.body = [] ∧ g.children = [] then .emptyGroup else .unionArity g.children.length

theorem isEmpty_iff {g : Group} : g.isEmpty = true ↔ g.body = [] ∧ g.children = [] := by
  simp [isEmpty]

theorem flaw?_eq (g : Group) : g.flaw? = if g.Sound then none else some g.flaw := by
  by_cases hempty : g.body = [] ∧ g.children = []
  · have hunsound : ¬ g.Sound := fun h => h.1.elim (· hempty.1) (· hempty.2)
    rw [flaw?, flaw, if_pos (isEmpty_iff.2 hempty), if_pos hempty, if_neg hunsound]
  · have hsome : g.body ≠ [] ∨ g.children ≠ [] := Decidable.not_and_iff_or_not.1 hempty
    have hsound : g.Sound ↔ ¬ (g.isUnion && g.children.length != 2) = true := by
      simp [Sound, hsome]
    simp only [flaw?, flaw, if_neg (mt isEmpty_iff.1 hempty), if_neg hempty, hsound, ite_not]

theorem flaw?_eq_none {g : Group} : g.flaw? = none ↔ g.Sound := by
  rw [flaw?_eq]
  split <;> simp_all

theorem flaw?_eq_some {g : Group} {e : BuildError} :
    g.flaw? = some e ↔ ¬ g.Sound ∧ g.flaw = e := by
  rw [flaw?_eq]
  split <;> simp_all

theorem compile_isOk {g : Group} :
    (∃ t, g.compile = .ok t) ↔ ∀ u ∈ g.subgroups, u.Sound := by
  rw [← Outcome.error?_eq_none, error?_compile, List.findSome?_eq_none_iff]
  exact forall₂_congr fun u _ => flaw?_eq_none

/-- The error is that of the first group that is not sound. -/
theorem compile_eq_error {g : Group} {e : BuildError} :
    g.compile = .error e ↔ ∃ before u after, g.subgroups = before ++ u :: after ∧
      (∀ v ∈ before, v.Sound) ∧ ¬ u.Sound ∧ u.flaw = e := by
  rw [← Outcome.error?_eq_some, error?_compile, List.findSome?_eq_some_iff]
  simp only [flaw?_eq_some, flaw?_eq_none]
  constructor
  · rintro ⟨before, u, after, hparts, hu, hbefore⟩
    exact ⟨before, u, after, hparts, hbefore, hu⟩
  · rintro ⟨before, u, after, hparts, hbefore, hu⟩
    exact ⟨before, u, after, hparts, hu, hbefore⟩

/-! ## Steps that cannot fail -/

/-- The tree that a group joins of its own trees before it comes to its children. -/
def own? (g : Group) : Option Tree := (Tree.joined? g.body).map fun t => t.filtered g.filters

/-- A group whose single filter becomes the condition of a left join. -/
structure GivesFilter (g : Group) : Prop where
  basic : g.isUnion = false
  optional : g.optional = true
  filter : g.filters.length = 1
  leaf : g.children = []
  filled : g.body ≠ []
  patterns : ∀ t ∈ g.body, t.isPattern = true

theorem exists_joined {ts : List Tree} (h : ts ≠ []) : ∃ t, Tree.joined? ts = some t := by
  cases ts with
  | nil => exact absurd rfl h
  | cons t ts => exact ⟨_, rfl⟩

/-- Where there is something in a group there is a tree once its children are attached. -/
theorem attached_ne_none {g : Group} (h : g.body ≠ [] ∨ g.children ≠ []) :
    compileChildren g.own? g.children ≠ .ok none := by
  refine compileChildren_ne_none (h.imp_left fun hbody => ?_)
  obtain ⟨t, ht⟩ := exists_joined hbody
  rw [own?, ht]
  rfl

/-- The own trees of a group that gives its filter join to one. -/
theorem lifted?_of_givesFilter {g : Group} (h : g.GivesFilter) :
    ∃ t e, Tree.joined? g.body = some t ∧ g.filters = [e] ∧ g.lifted? = some (t, e) := by
  obtain ⟨isUnion, optional, body, children, filters⟩ := g
  obtain ⟨rfl, rfl, hfilter, rfl, hfilled, hpatterns⟩ := h
  obtain ⟨e, rfl⟩ := List.length_eq_one_iff.1 hfilter
  obtain ⟨t, ht⟩ := exists_joined hfilled
  have hall : body.all Tree.isPattern = true := List.all_eq_true.2 hpatterns
  exact ⟨t, e, ht, rfl, by simp only [lifted?, hall, if_true, ht, Option.map_some]⟩

theorem givesFilter_of_lifted? {g : Group} {t : Tree} {e : Expr} (h : g.lifted? = some (t, e)) :
    g.GivesFilter := by
  unfold lifted? at h
  split at h
  · rename_i body filter
    split at h
    · rename_i hall
      obtain ⟨u, hu, -⟩ := Option.map_eq_some_iff.1 h
      refine ⟨rfl, rfl, rfl, rfl, ?_, List.all_eq_true.1 hall⟩
      rintro rfl
      cases hu
    · cases h
  · cases h

theorem givesFilter_iff {g : Group} : g.GivesFilter ↔ g.lifted?.isSome = true := by
  constructor
  · intro h
    obtain ⟨t, e, -, -, hlifted⟩ := lifted?_of_givesFilter h
    rw [hlifted]
    rfl
  · intro h
    obtain ⟨⟨t, e⟩, hlifted⟩ := Option.isSome_iff_exists.1 h
    exact givesFilter_of_lifted? hlifted

/-! ## Groups that are made -/

/-- What is left of a group after it was offered a child. -/
def offered (g child : Group) : Group :=
  match g.addChild child with
  | .ok g' => g'
  | .error _ => g

/-- Groups made by the operations on groups. -/
inductive Reachable : Group → Prop where
  | start (optional : Bool) : Reachable (start optional)
  | startUnion : Reachable startUnion
  | addTree {g : Group} (h : Reachable g) (t : Tree) : Reachable (g.addTree t)
  | addFilter {g : Group} (h : Reachable g) (e : Expr) : Reachable (g.addFilter e)
  | offered {g child : Group} (h : Reachable g) (hchild : Reachable child) :
      Reachable (g.offered child)

/-- No union among the group and the groups inside it has a third side. -/
def Fitting (g : Group) : Prop :=
  ∀ u ∈ g.subgroups, u.isUnion = true → u.children.length ≤ 2

theorem fitting_iff {g : Group} :
    g.Fitting ↔ (g.isUnion = true → g.children.length ≤ 2) ∧ ∀ c ∈ g.children, c.Fitting := by
  obtain ⟨isUnion, optional, body, children, filters⟩ := g
  simp only [Fitting, subgroups, subgroupsAll_eq_flatMap, List.forall_mem_cons,
    List.forall_mem_flatMap]

/-- A child is attached at the end, or the group is a full union and refuses it. -/
theorem offered_eq (g child : Group) :
    g.offered child =
      if g.isUnion = true ∧ 2 ≤ g.children.length then g else g.withChildren [child] := by
  unfold offered addChild
  by_cases hfull : g.isUnion = true ∧ 2 ≤ g.children.length
  · simp [hfull]
  · rw [if_neg hfull, if_neg (by simpa using hfull)]
    rfl

theorem fitting_offered {g child : Group} (hg : g.Fitting) (hchild : child.Fitting) :
    (g.offered child).Fitting := by
  rw [offered_eq]
  split
  · exact hg
  · rename_i hroom
    obtain ⟨hsides, hchildren⟩ := fitting_iff.1 hg
    refine fitting_iff.2 ⟨fun hunion => ?_, fun c hc => ?_⟩
    · have hfew : ¬ 2 ≤ g.children.length := fun hfull => hroom ⟨hunion, hfull⟩
      simp only [withChildren, List.length_append, List.length_singleton]
      omega
    · rcases List.mem_append.1 hc with hc | hc
      · exact hchildren c hc
      · rw [List.mem_singleton.1 hc]
        exact hchild

theorem Reachable.fitting {g : Group} (h : g.Reachable) : g.Fitting := by
  induction h with
  | start optional => exact fitting_iff.2 ⟨nofun, nofun⟩
  | startUnion => exact fitting_iff.2 ⟨fun _ => Nat.zero_le 2, nofun⟩
  | addTree _ t ih =>
    have hparts := fitting_iff.1 ih
    exact fitting_iff.2 hparts
  | addFilter _ e ih =>
    have hparts := fitting_iff.1 ih
    exact fitting_iff.2 hparts
  | offered _ _ ihg ihchild => exact fitting_offered ihg ihchild

/-- A full union refuses a third side. -/
theorem addChild_of_full {g : Group} (h : g.isUnion = true) (hfull : g.children.length = 2)
    (child : Group) : g.addChild child = .error (.unionArity 3) := by
  simp [addChild, h, hfull]

theorem attach_of_full {g : Group} (h : g.isUnion = true) (hfull : g.children.length = 2)
    (child : Group) (error? : Option BuildError) :
    GroupDraft.attach ⟨g, error?⟩ (.ok child) = ⟨g, error?.or (some (.unionArity 3))⟩ := by
  simp [GroupDraft.attach, addChild_of_full h hfull, GroupDraft.record]

/-- A group compiles exactly if it and all groups inside it are sound. Otherwise the error is that
of the first which is not, parents first; no union has more than two sides, because a full one
refuses a third side and stays as it was. On the way nothing else can fail. -/
theorem compiles_exactly {g : Group} (h : g.Reachable) :
    ((∃ t, g.compile = .ok t) ↔ ∀ u ∈ g.subgroups, u.Sound) ∧
    (∀ e, g.compile = .error e ↔ ∃ before u after, g.subgroups = before ++ u :: after ∧
      (∀ v ∈ before, v.Sound) ∧ ¬ u.Sound ∧ u.flaw = e) ∧
    (∀ u ∈ g.subgroups,
      (u.isUnion = true → u.children.length ≤ 2) ∧
      (u.body ≠ [] ∨ u.children ≠ [] → compileChildren u.own? u.children ≠ .ok none) ∧
      (u.GivesFilter ↔ u.lifted?.isSome = true) ∧
      (u.GivesFilter → ∃ t e, Tree.joined? u.body = some t ∧ u.filters = [e] ∧
        u.lifted? = some (t, e))) ∧
    (g.isUnion = true → g.children.length = 2 → ∀ child,
      g.addChild child = .error (.unionArity 3) ∧ g.offered child = g ∧
      ∀ error?, GroupDraft.attach ⟨g, error?⟩ (.ok child) =
        ⟨g, error?.or (some (.unionArity 3))⟩) := by
  refine ⟨compile_isOk, fun e => compile_eq_error, fun u hu => ?_, fun hunion hfull child => ?_⟩
  · exact ⟨h.fitting u hu, attached_ne_none, givesFilter_iff, lifted?_of_givesFilter⟩
  · refine ⟨addChild_of_full hunion hfull child, ?_, attach_of_full hunion hfull child⟩
    rw [offered_eq, if_pos ⟨hunion, Nat.le_of_eq hfull.symm⟩]

/-- A union of two sides, each a filtered pattern, after it was offered a third. -/
def fullUnion : Group :=
  let side (optional : Bool) (name : String) : Group :=
    ((start optional).addTree
      (.pattern ⟨.var (.user name), .var (.user "p"), .var (.user "o"), none⟩)).addFilter
      (.bound (.user name))
  ((startUnion.offered (side false "a")).offered (side true "b")).offered (start false)

/-- The full union beside an optional group with nothing in it, and a union with one side after
both. -/
def spoiltGroup : Group :=
  (((start false).offered fullUnion).offered (start true)).offered (startUnion.offered fullUnion)

theorem spoiltGroup_compiles_exactly :
    spoiltGroup.Reachable ∧ spoiltGroup.compile = .error .emptyGroup ∧
    fullUnion.Reachable ∧ (∃ t, fullUnion.compile = .ok t) ∧
    ∀ child, fullUnion.offered child = fullUnion := by
  have hside (optional : Bool) (t : Tree) (e : Expr) :
      (((start optional).addTree t).addFilter e).Reachable :=
    ((Reachable.start optional).addTree t).addFilter e
  have hfull : fullUnion.Reachable :=
    ((Reachable.startUnion.offered (hside _ _ _)).offered (hside _ _ _)).offered (.start false)
  have hspoilt : spoiltGroup.Reachable :=
    (((Reachable.start false).offered hfull).offered (.start true)).offered
      (Reachable.startUnion.offered hfull)
  refine ⟨hspoilt, ?_, hfull, (compiles_exactly hfull).1.2 (by decide),
    fun child => ((compiles_exactly hfull).2.2.2 rfl rfl child).2.1⟩
  refine ((compiles_exactly hspoilt).2.1 .emptyGroup).2 ?_
  exact ⟨spoiltGroup.subgroups.take 4, start true, spoiltGroup.subgroups.drop 5, rfl, by decide,
    by decide, rfl⟩

end Group

end RdfQuery
