import RdfQuery.Proofs.Query.Drafts

/-!
# Queries that cannot be built

Errors are looked for in a fixed order: a third side of a union, wherever it is
given; a projection that clashes; the first flawed group; no group at all. No
error that a draft inside another one met is forgotten.
-/

set_option autoImplicit false

namespace RdfQuery

def QueryKind.describes : QueryKind → Bool
  | .describe _ => true
  | _ => false

namespace QueryCall

/-- Names and statement templates exclude each other, and a describe query takes neither. -/
def clashes (kind : QueryKind) (calls : List QueryCall) : Bool :=
  let named := !(calls.flatMap names).isEmpty
  let stated := !(calls.filterMap statement?).isEmpty
  named && stated || kind.describes && (named || stated)

/-- The groups that the calls describe and all groups inside them, parents first. -/
def allGroups (calls : List QueryCall) : List Group :=
  Group.subgroupsAll ((groups calls).map Group.ofCalls)

/-- Why no query can be built, the reasons in the order in which they are looked for. -/
def refusal? (kind : QueryKind) (calls : List QueryCall) : Option BuildError :=
  if (groups calls).any GroupCall.crowded then some (.unionArity 3)
  else if clashes kind calls then some .projectionConflict
  else match (allGroups calls).findSome? Group.flaw? with
    | some e => some e
    | none => if (groups calls).isEmpty && !kind.describes then some .emptyGroup else none

end QueryCall

namespace QueryDraft

/-- The last step does not fail, as only a describe query gets there without a body. -/
theorem error?_projected {d : QueryDraft} {body : Option Tree}
    (h : body = none → d.isDescribe = true) : Outcome.error? (d.projected body) = none := by
  unfold projected
  split
  · rfl
  · rename_i hkind
    have hdescribe := h rfl
    rw [isDescribe, hkind] at hdescribe
    cases hdescribe
  · rfl
  · split <;> rfl

theorem sorted_eq_none {d : QueryDraft} {body : Option Tree} (h : d.sorted body = none) :
    body = none := by
  unfold sorted at h
  split at h
  · exact h
  · exact Option.map_eq_none_iff.1 h

theorem error?_compile (d : QueryDraft) :
    Outcome.error? d.compile = d.error?.or
      (if d.conflicts then some .projectionConflict
        else match (Group.subgroupsAll d.groups).findSome? Group.flaw? with
          | some e => some e
          | none => if d.groups.isEmpty && !d.isDescribe then some .emptyGroup else none) := by
  unfold compile
  cases d.error? with
  | some e => rfl
  | none =>
    rw [Option.none_or]
    by_cases hconflicts : d.conflicts = true
    · simp only [if_pos hconflicts]
      rfl
    simp only [if_neg hconflicts]
    have hrest (body : Option Tree) (hbody : compileGroups none d.groups = .ok body) :
        Outcome.error? (if body.isNone && !d.isDescribe then .error .emptyGroup
          else do .ok (d.sliced (d.deduplicated (← d.projected (d.sorted body))))) =
        if d.groups.isEmpty && !d.isDescribe then some BuildError.emptyGroup else none := by
      obtain ⟨ts, hts, rfl⟩ := compileGroups_eq_ok.1 hbody
      have hnone : (Tree.joined? ts).isNone = d.groups.isEmpty := by
        generalize d.groups = gs at hts
        cases hts <;> rfl
      simp only [hnone]
      by_cases hempty : (d.groups.isEmpty && !d.isDescribe) = true
      · simp only [if_pos hempty]
        rfl
      · simp only [if_neg hempty]
        rw [Outcome.error?_bind_ok]
        refine error?_projected fun hbody => ?_
        rw [sorted_eq_none hbody, Option.isNone_none] at hnone
        simpa [← hnone] using hempty
    rw [Outcome.error?_bind hrest, error?_compileGroups]
    cases (Group.subgroupsAll d.groups).findSome? Group.flaw? <;> rfl

theorem error?_build (d : QueryDraft) : Outcome.error? d.build = Outcome.error? d.compile := by
  unfold build
  cases d.compile <;> rfl

end QueryDraft

namespace QueryCall

open GroupCall

theorem findSome?_third (css : List (List GroupCall)) :
    (css.findSome? fun cs => Outcome.error? (Group.build cs)) = third? (css.any crowded) := by
  induction css with
  | nil => rfl
  | cons cs css ih =>
    rw [List.findSome?_cons, List.any_cons, ih, Group.error?_build]
    cases crowded cs <;> rfl

theorem filterMap_build {css : List (List GroupCall)} (h : css.any crowded = false) :
    (css.filterMap fun cs => (Group.build cs).toOption) = css.map Group.ofCalls := by
  induction css with
  | nil => rfl
  | cons cs css ih =>
    obtain ⟨hcs, hcss⟩ := Bool.or_eq_false_iff.1 h
    rw [List.filterMap_cons, List.map_cons, Group.build_of_not_crowded hcs, ih hcss]
    rfl

theorem error?_build (kind : QueryKind) (calls : List QueryCall) :
    Outcome.error? ((QueryDraft.start kind).callAll calls).build = refusal? kind calls := by
  rw [QueryDraft.error?_build, QueryDraft.error?_compile, QueryDraft.callAll_eq_given]
  have herror : ((QueryDraft.start kind).given calls).error? =
      third? ((groups calls).any crowded) := findSome?_third _
  have hgroups : ((QueryDraft.start kind).given calls).groups =
      (groups calls).filterMap fun cs => (Group.build cs).toOption := rfl
  have hconflicts : ((QueryDraft.start kind).given calls).conflicts = clashes kind calls := by
    cases kind <;> rfl
  have hdescribe : ((QueryDraft.start kind).given calls).isDescribe = kind.describes := by
    cases kind <;> rfl
  rw [herror, hgroups, hconflicts, hdescribe, refusal?]
  by_cases hcrowded : (groups calls).any crowded = true
  · rw [if_pos hcrowded, hcrowded]
    rfl
  · have hfits : (groups calls).any crowded = false := by simpa using hcrowded
    rw [if_neg hcrowded, hfits, filterMap_build hfits, List.isEmpty_map]
    rfl

/-- Flawed groups are empty, or unions with one side. -/
theorem refusal?_cases {kind : QueryKind} {calls : List QueryCall} {e : BuildError}
    (h : refusal? kind calls = some e) :
    e = .unionArity 3 ∧ (groups calls).any crowded = true ∨
      (groups calls).any crowded = false ∧
        (e = .projectionConflict ∨ e = .emptyGroup ∨ e = .unionArity 1) := by
  unfold refusal? at h
  split at h
  · rename_i hcrowded
    cases h
    exact Or.inl ⟨rfl, hcrowded⟩
  · rename_i hcrowded
    have hfits : (groups calls).any crowded = false := by simpa using hcrowded
    refine Or.inr ⟨hfits, ?_⟩
    split at h
    · cases h
      exact Or.inl rfl
    split at h
    · rename_i hfound
      cases h
      obtain ⟨g, hg, hflaw⟩ := List.exists_of_findSome?_eq_some hfound
      rw [allGroups, Group.subgroupsAll_eq_flatMap, List.flatMap_map] at hg
      obtain ⟨cs, hcs, hg⟩ := List.mem_flatMap.1 hg
      have hcs : crowded cs = false := by simpa using List.any_eq_false.1 hfits cs hcs
      exact Or.inr (Group.flaw?_of_named hcs (Group.named_ofCalls cs g hg) hflaw)
    · split at h
      · cases h
        exact Or.inr (Or.inl rfl)
      · cases h

/-- A query is refused exactly for the first of the reasons that there is. For a third side it is
refused if and only if a union anywhere among the calls was given one; the error of any draft
inside the query is the error of the query. -/
theorem built_exactly (kind : QueryKind) (calls : List QueryCall) :
    (∀ e, ((QueryDraft.start kind).callAll calls).build = .error e ↔
      refusal? kind calls = some e) ∧
    ((∃ q, ((QueryDraft.start kind).callAll calls).build = .ok q) ↔ refusal? kind calls = none) ∧
    (((QueryDraft.start kind).callAll calls).build = .error (.unionArity 3) ↔
      ∃ cs ∈ groups calls, ∃ sides, .union sides ∈ withinAll cs ∧ 2 < sides.length) ∧
    (∀ e, ((QueryDraft.start kind).callAll calls).build = .error e →
      e = .unionArity 3 ∨ e = .projectionConflict ∨ e = .emptyGroup ∨ e = .unionArity 1) ∧
    ∀ cs ∈ groups calls, ∀ r ∈ Group.build cs :: (withinAll cs).flatMap drafted, ∀ e,
      r = .error e → ((QueryDraft.start kind).callAll calls).build = .error e := by
  have herror (e : BuildError) : ((QueryDraft.start kind).callAll calls).build = .error e ↔
      refusal? kind calls = some e := by
    rw [← Outcome.error?_eq_some, error?_build]
  have hcrowded : (groups calls).any crowded = true ↔
      ∃ cs ∈ groups calls, ∃ sides, .union sides ∈ withinAll cs ∧ 2 < sides.length := by
    simp only [List.any_eq_true, crowded_iff]
  have hthird : refusal? kind calls = some (.unionArity 3) ↔
      (groups calls).any crowded = true := by
    constructor
    · intro h
      rcases refusal?_cases h with ⟨-, hcrowded⟩ | ⟨-, h⟩
      · exact hcrowded
      · simp at h
    · intro h
      rw [refusal?, if_pos h]
  refine ⟨herror, ?_, ?_, ?_, ?_⟩
  · rw [← Outcome.error?_eq_none, error?_build]
  · rw [herror, hthird, hcrowded]
  · intro e he
    rcases refusal?_cases ((herror e).1 he) with ⟨rfl, -⟩ | ⟨-, h⟩
    · exact Or.inl rfl
    · exact Or.inr h
  · intro cs hcs r hr e he
    have hbuild : Group.build cs = .error e := by
      rcases List.mem_cons.1 hr with rfl | hr
      · exact he
      · obtain ⟨c, hc, hr⟩ := List.mem_flatMap.1 hr
        exact error_of_drafted hc hr he
    rw [← Outcome.error?_eq_some, Group.error?_build] at hbuild
    obtain ⟨hfound, rfl⟩ := third?_eq_some.1 hbuild
    rw [herror, hthird]
    exact List.any_eq_true.2 ⟨cs, hcs, hfound⟩

/-- A union in a side of another one, in an optional group, is given a third side. -/
def overfullCalls : List GroupCall :=
  let pattern : GroupCall := .pattern ⟨.var (.user "s"), .var (.user "p"), .var (.user "o"), none⟩
  [.optional [.union [[pattern], [.union [[pattern], [pattern], [pattern]]]]]]

/-- A query of which nothing is right: a group is empty, another one has a third side in it, and
names clash with a template. -/
def spoiltCalls : List QueryCall :=
  [.group [], .project ["s"],
    .statement ⟨.var (.user "s"), .var (.user "p"), .var (.user "o")⟩, .group overfullCalls]

theorem spoiltCalls_built_exactly :
    ∃ cs ∈ groups spoiltCalls, ∃ r ∈ Group.build cs :: (withinAll cs).flatMap drafted,
      r = .error (.unionArity 3) ∧
        ((QueryDraft.start .select).callAll spoiltCalls).build = .error (.unionArity 3) := by
  have hmem : overfullCalls ∈ groups spoiltCalls := List.mem_cons_of_mem _ List.mem_cons_self
  -- the draft of the innermost union, the only one that meets the error itself
  have hdraft : Except.error (.unionArity 3) ∈ (withinAll overfullCalls).flatMap drafted :=
    List.mem_flatMap.2 ⟨_, List.mem_cons_of_mem _ (List.mem_cons_of_mem _
      (List.mem_cons_of_mem _ List.mem_cons_self)), List.mem_cons_self⟩
  have hr := List.mem_cons_of_mem (Group.build overfullCalls) hdraft
  exact ⟨overfullCalls, hmem, _, hr, rfl,
    (built_exactly .select spoiltCalls).2.2.2.2 overfullCalls hmem _ hr _ rfl⟩

end QueryCall

end RdfQuery
