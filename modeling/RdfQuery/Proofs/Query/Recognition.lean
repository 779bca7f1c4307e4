import RdfQuery.Proofs.Query.Peeling
import RdfQuery.Proofs.Solution.Describing

/-!
# What a recognised describe projection writes

A describe projection is recognised by the prefix of its sources, while the statements that are
found are always bound to the same three names. So a list that is recognised is filled in from
them exactly as far as its sources are among these names. The list of a describe query that is
built by calls has just these three.
-/

set_option autoImplicit false

namespace RdfQuery

/-! ## The projection that is found -/

namespace Tree

def selection? : Tree → Option Selection
  | .modify (.select s) _ => some s
  | .bare s => some s
  | _ => none

theorem selection?_eq_some {t : Tree} {s : Selection} :
    t.selection? = some s ↔ t.node = .bare s := by
  cases t with
  | modify mo arg => cases mo <;> simp [selection?, node]
  | _ => simp [selection?, node]

theorem isProjection_iff {t : Tree} :
    Describe.isProjection t = true ↔ ∃ s, t.selection? = some s ∧ Describe.isMarked s = true := by
  unfold Describe.isProjection selection?
  split <;> simp

/-- The projection keeps its lists when it is given another input. -/
theorem DescribedAt.selection {added t t' : Tree} {path : List Nat}
    (h : DescribedAt added t t' path) :
    ∃ s, (t.at? path).bind selection? = some s ∧ (t'.at? path).bind selection? = some s ∧
      Describe.isMarked s = true := by
  obtain ⟨u, hu, hprojection⟩ := h.projection
  obtain ⟨s, hs, hmarked⟩ := isProjection_iff.1 hprojection
  have hnode : (t'.at? path).map node = some (.bare s) := by
    have hother : ¬ (path ++ [0]) <+: path := by
      intro hprefix
      have hlength := hprefix.length_le
      simp only [List.length_append, List.length_singleton] at hlength
      omega
    rw [h.elsewhere path hother, hu, Option.map_some, selection?_eq_some.1 hs]
  obtain ⟨u', hu', hs'⟩ := Option.map_eq_some_iff.1 hnode
  refine ⟨s, ?_, ?_, hmarked⟩
  · rw [hu, Option.bind_some, hs]
  · rw [hu', Option.bind_some, selection?_eq_some.2 hs']

/-! ## What is bound -/

/-- Whatever the solutions of the tree are joined to, the names have values. -/
def BindsAll (t : Tree) (names : List String) : Prop :=
  ∀ l data before, ∀ a ∈ Solutions.join before (t.solutions l data), ∀ name ∈ names, a.Binds name

theorem bindsAll_of_certain {t : Tree} {names : List String} (h : names ⊆ t.certain) :
    t.BindsAll names := by
  intro l data before a ha name hname
  obtain ⟨b, -, c, hc, -, rfl⟩ := Solutions.mem_join.1 ha
  exact Solution.binds_merge.2 (Or.inr (solutions_bind_certain c hc name (h hname)))

end Tree

namespace Describe

theorem sources_subset (scope : Scope) : columns.sources ⊆ (statement scope).names := by
  cases scope <;> decide

/-- A statement that is found binds the variables of the pattern and no others. -/
theorem binds_found {scope : Scope} {l : Library} {data : Finset Quad} {a : Solution}
    (ha : a ∈ (Tree.pattern (statement scope)).solutions l data) (names : List String) :
    (∀ name ∈ names, a.Binds name) ↔ names ⊆ (statement scope).names := by
  obtain ⟨s, -, hs⟩ := (Multiset.mem_filterMap _ _).1 ha
  exact forall₂_congr fun name _ => TriplePattern.binds_match? hs name

theorem marks_iff {columns : Columns} :
    marks columns = true ↔
      columns.isTemplate = true ∧ ∀ name ∈ columns.sources, isReserved name = true := by
  simp [marks, Columns.sources]

/-- A list of the right sources is filled in by the statements that are found. -/
theorem bindsAll_mentioning (scope : Scope) (condition : Expr) :
    (Tree.mentioning scope condition).BindsAll columns.sources :=
  Tree.bindsAll_of_certain (sources_subset scope)

end Describe

/-! ## Describe queries that are built -/

namespace Tree

/-- What an amendment does not fit stays above the amended tree. -/
theorem amendFirst?_under {f : Tree → Option Tree} {modifiers : List Modifier}
    (h : ∀ mo ∈ modifiers, ∀ arg, f (.modify mo arg) = none) (core : Tree) :
    (core.under modifiers).amendFirst? f = (core.amendFirst? f).map (under modifiers) := by
  induction modifiers with
  | nil => exact Option.map_id'.symm
  | cons mo modifiers ih =>
    obtain ⟨hmo, hrest⟩ := List.forall_mem_cons.1 h
    show (modify mo (core.under modifiers)).amendFirst? f = _
    rw [amendFirst?, hmo, ih hrest, Option.map_map]
    rfl

end Tree

namespace Describe

theorem extend?_of_slot_ne {mo : Modifier} (h : mo.slot ≠ .selection) (added arg : Tree) :
    extend? added (.modify mo arg) = none := by
  cases mo with
  | select s => exact absurd rfl h
  | _ => rfl

/-- The projection of a describe query, with the statements in its input. -/
theorem amendFirst?_select (added : Tree) (body : Option Tree) :
    (Tree.select (.single columns) body).amendFirst? (extend? added) =
      some ((Tree.describing added body).under [.select (.single columns)]) := by
  have hmarked : isMarked (.single columns) = true := by decide
  cases body with
  | none => simp only [Tree.select, Tree.amendFirst?, extend?, hmarked, if_true]; rfl
  | some t => simp only [Tree.select, Tree.amendFirst?, extend?, hmarked, if_true]; rfl

theorem kind_describing (scope : Scope) (condition : Expr) (body : Option Tree) :
    (Tree.describing (Tree.mentioning scope condition) body).kind ∈ Tree.groupKinds := by
  cases body with
  | none => simp [Tree.describing, Tree.mentioning, Tree.kind, Tree.groupKinds]
  | some t => simp [Tree.describing, Tree.join, Tree.kind, Combination.kind, Tree.groupKinds]

end Describe

namespace QueryDraft

/-- What stands above the projection. -/
def above (d : QueryDraft) : List Modifier := d.slice?.toList ++ d.repeats.modifier?.toList

theorem slots_above (d : QueryDraft) : (d.above.map Modifier.slot).Sublist [.slice, .repeats] := by
  rw [above, List.map_append]
  exact (Modifier.slots_omittedIf _ _).append (Repeats.slots_modifier? _)

theorem slot_ne_selection {d : QueryDraft} : ∀ mo ∈ d.above, mo.slot ≠ .selection := by
  intro mo hmo hslot
  have hmem := d.slots_above.subset (List.mem_map_of_mem hmo)
  rw [hslot] at hmem
  cases hmem with
  | tail _ hmem => cases hmem with
    | tail _ hmem => cases hmem

/-- With or without groups, a describe query projects the three reserved variables. -/
theorem compile_describe {d : QueryDraft} {targets : List Term} (hkind : d.kind = .describe targets)
    {root : Tree} (h : d.compile = .ok root) :
    ∃ body, root = (Tree.select (.single Describe.columns) body).under d.above := by
  unfold compile at h
  split at h
  · cases h
  split at h
  · cases h
  obtain ⟨body, -, h⟩ := Outcome.bind_eq_ok.1 h
  have hprojected : d.projected (d.sorted body) =
      .ok (.select (.single Describe.columns) (d.sorted body)) := by
    simp only [projected, hkind]
  have hnone : (body.isNone && !d.isDescribe) = false := by
    simp [isDescribe, hkind]
  rw [hnone, hprojected] at h
  refine ⟨d.sorted body, ?_⟩
  rw [← Except.ok.inj h, sliced_eq_under, deduplicated_eq_under, above, Tree.under_append]

/-- The projection below them is peeled off with them. -/
theorem peel_under_above (d : QueryDraft) {core : Tree} (hcore : core.kind ∈ Tree.groupKinds)
    (s : Selection) :
    (Outline.peel ((core.under [.select s]).under d.above)).lists = s.lists ∧
      (Outline.peel ((core.under [.select s]).under d.above)).body = some core := by
  have hslots : ((d.above ++ [Modifier.select s]).map Modifier.slot).Nodup := by
    rw [List.map_append]
    exact (d.slots_above.append (List.Sublist.refl [Slot.selection])).nodup (by decide)
  rw [← Tree.under_append, Outline.peel_under hslots (Outline.stops_of_groupKinds hcore _),
    Outline.recordAll_append]
  exact ⟨Outline.recordAll_lists slot_ne_selection _, Outline.recordAll_body d.above _⟩

end QueryDraft

namespace QueryCall

theorem describedByConstruct_of_build {targets : List Term} {calls : List QueryCall} {q : Query}
    (hq : ((QueryDraft.start (.describe targets)).callAll calls).build = .ok q) {condition : Expr}
    (hcondition : Describe.condition? targets = some condition) (scope : Scope) :
    ∃ q' body, q.describedByConstruct scope = (true, q') ∧
      (Outline.peel q'.tree).lists = [Describe.columns] ∧
      (Outline.peel q'.tree).body =
        some (Tree.describing (Tree.mentioning scope condition) body) := by
  obtain ⟨hkind, hcompile⟩ := compile_of_build hq
  rw [QueryDraft.callAll_eq_given] at hcompile
  obtain ⟨body, hroot⟩ := QueryDraft.compile_describe rfl hcompile
  generalize (QueryDraft.start (.describe targets)).given calls = d at hroot
  have hskip : ∀ mo ∈ d.above, ∀ arg,
      Describe.extend? (Tree.mentioning scope condition) (.modify mo arg) = none :=
    fun mo hmo arg => Describe.extend?_of_slot_ne (QueryDraft.slot_ne_selection mo hmo) _ arg
  have hdescribe : q.tree.describe targets scope =
      .ok (((Tree.describing (Tree.mentioning scope condition) body).under
        [.select (.single Describe.columns)]).under d.above) := by
    rw [Tree.describe_eq, hcondition, hroot]
    simp only [Tree.amendFirst?_under hskip, Describe.amendFirst?_select, Option.map_some]
  refine ⟨⟨.construct, _, q.dataset⟩, body, ?_,
    d.peel_under_above (Describe.kind_describing scope condition body) (.single Describe.columns)⟩
  simp only [Query.describedByConstruct, hkind, hdescribe]
  rfl

end QueryCall

/-- The projection that was recognised keeps its lists. Those it was recognised by are templates of
reserved sources, and the statements that are found bind the sources exactly if they are among the
variables of the pattern, as the three reserved names are. A describe query that was built has
these three in its only list. -/
theorem recognised_bound {targets : List Term} (hne : targets ≠ []) (scope : Scope) :
    ∃ condition, Describe.condition? targets = some condition ∧
    (∀ t : Tree, t.isDescribe = true → ∃ t' path s,
      t.describe targets scope = .ok t' ∧
      Tree.DescribedAt (Tree.mentioning scope condition) t t' path ∧
      (t.at? path).bind Tree.selection? = some s ∧
      (t'.at? path).bind Tree.selection? = some s ∧
      (∃ columns ∈ s.lists, Describe.marks columns = true) ∧
      ∀ columns ∈ s.lists, Describe.marks columns = true →
        columns.isTemplate = true ∧
        (∀ name ∈ columns.sources, Describe.isReserved name = true) ∧
        (columns.sources = [Describe.subject, Describe.predicate, Describe.object] →
          (Tree.mentioning scope condition).BindsAll columns.sources) ∧
        ∀ l data, ∀ a ∈ (Tree.pattern (Describe.statement scope)).solutions l data,
          (∀ name ∈ columns.sources, a.Binds name) ↔
            columns.sources ⊆ (Describe.statement scope).names) ∧
    ∀ calls q, ((QueryDraft.start (.describe targets)).callAll calls).build = .ok q →
      ∃ q' body, q.describedByConstruct scope = (true, q') ∧
        (Outline.peel q'.tree).lists =
          [Columns.template Describe.subject Describe.predicate Describe.object] ∧
        (Outline.peel q'.tree).body =
          some (Tree.describing (Tree.mentioning scope condition) body) ∧
        ∀ columns ∈ (Outline.peel q'.tree).lists,
          (Tree.mentioning scope condition).BindsAll columns.sources := by
  obtain ⟨condition, hcondition⟩ :=
    Option.ne_none_iff_exists'.1 fun hnone => hne (Describe.condition?_eq_none.1 hnone)
  refine ⟨condition, hcondition, fun t ht => ?_, fun calls q hq => ?_⟩
  · obtain ⟨t', ht'⟩ := Tree.describe_isOk.2 ⟨hne, ht⟩
    obtain ⟨condition', path, hcondition', hdescribed, -⟩ := Tree.described_of_describe ht'
    cases Option.some.inj (hcondition.symm.trans hcondition')
    obtain ⟨s, hold, hnew, hmarked⟩ := hdescribed.selection
    refine ⟨t', path, s, ht', hdescribed, hold, hnew, List.any_eq_true.1 hmarked,
      fun columns _ hmarks => ?_⟩
    obtain ⟨htemplate, hreserved⟩ := Describe.marks_iff.1 hmarks
    refine ⟨htemplate, hreserved, fun hsources => ?_,
      fun l data a ha => Describe.binds_found ha columns.sources⟩
    rw [hsources]
    exact Describe.bindsAll_mentioning scope condition
  · obtain ⟨q', body, hrewritten, hlists, hbody⟩ :=
      QueryCall.describedByConstruct_of_build hq hcondition scope
    refine ⟨q', body, hrewritten, hlists, hbody, ?_⟩
    rw [hlists, List.forall_mem_singleton]
    exact Describe.bindsAll_mentioning scope condition

/-- A list of other reserved names, one of the three, and one that is no template. -/
def mixedDescribe : Tree :=
  .modify (.select (.several [Columns.template "_descr_a" "_descr_b" "_descr_c",
    Columns.template Describe.subject Describe.predicate Describe.object, [Column.same "x"]]))
    (.pattern ⟨.var (.user "x"), .var (.user "p"), .var (.user "y"), none⟩)

/-- A describe query with bounds and without groups. -/
def groundlessCalls : List QueryCall := [.limit 3, .distinct, .offset 1]

theorem mixedDescribe_bound :
    [Term.var (.user "x")] ≠ [] ∧ mixedDescribe.isDescribe = true ∧
    ∃ condition t' q q',
      mixedDescribe.describe [.var (.user "x")] .namedGraphs = .ok t' ∧
      (Tree.mentioning .namedGraphs condition).BindsAll Describe.columns.sources ∧
      ((QueryDraft.start (.describe [.var (.user "x")])).callAll groundlessCalls).build = .ok q ∧
      q.describedByConstruct .namedGraphs = (true, q') ∧
      (Outline.peel q'.tree).lists = [Describe.columns] := by
  have hne : [Term.var (.user "x")] ≠ [] := List.cons_ne_nil _ _
  have hshaped : mixedDescribe.isDescribe = true := by decide
  obtain ⟨condition, -, htree, hquery⟩ := recognised_bound hne .namedGraphs
  obtain ⟨t', path, s, ht', hdescribed, hold, -, -, hlists⟩ := htree mixedDescribe hshaped
  obtain ⟨q, hq⟩ : ∃ q, ((QueryDraft.start (.describe [.var (.user "x")])).callAll
    groundlessCalls).build = .ok q := ⟨_, rfl⟩
  obtain ⟨q', -, hq', hone, -, -⟩ := hquery groundlessCalls q hq
  refine ⟨hne, hshaped, condition, t', q, q', ht', ?_, hq, hq', hone⟩
  cases path with
  | nil =>
    cases hold
    exact (hlists Describe.columns (by decide) (by decide)).2.2.1 rfl
  | cons i path =>
    -- the root is a projection for describing, so nothing below it was looked at
    have hroot := hdescribed.first [] (List.nil_lt_cons i path) mixedDescribe rfl
    exact absurd hroot (by decide)

/-- A list that is recognised by its prefix, of names that the pattern does not have. -/
def strayColumns : Columns := Columns.template "_descr_a" "_descr_b" "_descr_c"

def strayDescribe : Tree :=
  .modify (.select (.single strayColumns))
    (.pattern ⟨.var (.user "x"), .var (.user "p"), .var (.user "y"), none⟩)

/-- The tree is rewritten and keeps its list, and no statement that is found binds any of it. -/
theorem strayDescribe_not_bound :
    strayDescribe.isDescribe = true ∧ Describe.marks strayColumns = true ∧
    (∃ condition, strayDescribe.describe [.var (.user "x")] .defaultGraph =
      .ok (.modify (.select (.single strayColumns))
        (.join (.pattern ⟨.var (.user "x"), .var (.user "p"), .var (.user "y"), none⟩)
          (.filter (.pattern (Describe.statement .defaultGraph)) condition)))) ∧
    strayColumns.sources ≠ [Describe.subject, Describe.predicate, Describe.object] ∧
    ∀ l data, ∀ a ∈ (Tree.pattern (Describe.statement .defaultGraph)).solutions l data,
      ∀ name ∈ strayColumns.sources, ¬ a.Binds name := by
  refine ⟨by decide, by decide, ⟨_, rfl⟩, by decide, fun l data a ha name hname hbinds => ?_⟩
  have hall : ∀ other ∈ [name], a.Binds other := List.forall_mem_singleton.2 hbinds
  have hnames := (Describe.binds_found ha [name]).1 hall List.mem_cons_self
  have hapart : ∀ other ∈ strayColumns.sources,
      other ∉ (Describe.statement .defaultGraph).names := by decide
  exact hapart name hname hnames

end RdfQuery
