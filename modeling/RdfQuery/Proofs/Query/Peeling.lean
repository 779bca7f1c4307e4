import RdfQuery.Proofs.Group.Made
import RdfQuery.Proofs.Naming.Collected
import RdfQuery.Proofs.Outline
import RdfQuery.Proofs.Query.Refusal
import RdfQuery.Proofs.Query.Templates

/-!
# Outlines of built queries

The tree of a built query has its modifiers above the joined groups, one for each
slot the calls had something for. They are peeled off in the order in which they
were put there, so the outline says again what the calls said.
-/

set_option autoImplicit false

namespace RdfQuery

/-! ## Peeling off known modifiers -/

/-- A modifier stands where there is something for it to say. -/
def Modifier.omittedIf (nothing : Bool) (mo : Modifier) : Option Modifier :=
  if nothing then none else some mo

theorem Modifier.slots_omittedIf (nothing : Bool) (mo : Modifier) :
    ((Modifier.omittedIf nothing mo).toList.map slot).Sublist [mo.slot] := by
  cases nothing with
  | true => exact List.nil_sublist _
  | false => exact List.Sublist.refl _

def Repeats.modifier? : Repeats → Option Modifier
  | .kept => none
  | .distinct => some .distinct
  | .reduced => some .reduced

theorem Repeats.slots_modifier? (repeats : Repeats) :
    (repeats.modifier?.toList.map Modifier.slot).Sublist [.repeats] := by
  cases repeats with
  | kept => exact List.nil_sublist _
  | distinct => exact List.Sublist.refl _
  | reduced => exact List.Sublist.refl _

namespace Tree

theorem under_append (modifiers inner : List Modifier) (core : Tree) :
    core.under (modifiers ++ inner) = (core.under inner).under modifiers :=
  List.foldr_append

end Tree

namespace Outline

/-- The outline with what the modifiers say, the first one outermost. -/
def recordAll (modifiers : List Modifier) (o : Outline) : Outline :=
  modifiers.foldr (fun mo o => o.deeper.record mo) o

theorem recordAll_append (modifiers inner : List Modifier) (o : Outline) :
    recordAll (modifiers ++ inner) o = recordAll modifiers (recordAll inner o) :=
  List.foldr_append

theorem recordAll_body (modifiers : List Modifier) (o : Outline) :
    (recordAll modifiers o).body = o.body := by
  induction modifiers with
  | nil => rfl
  | cons mo modifiers ih => exact (record_body _ mo).trans ih

theorem recordAll_lists {modifiers : List Modifier} (h : ∀ mo ∈ modifiers, mo.slot ≠ .selection)
    (o : Outline) : (recordAll modifiers o).lists = o.lists := by
  induction modifiers with
  | nil => rfl
  | cons mo modifiers ih =>
    obtain ⟨hmo, hrest⟩ := List.forall_mem_cons.1 h
    exact (record_lists hmo).trans (ih hrest)

/-- A modifier that says nothing may as well not stand there. -/
theorem recordAll_omittedIf {nothing : Bool} {mo : Modifier} {o : Outline}
    (h : nothing = true → o.record mo = o) :
    recordAll (Modifier.omittedIf nothing mo).toList o =
      { o.record mo with depth := o.depth + (Modifier.omittedIf nothing mo).toList.length } := by
  cases nothing with
  | true =>
    rw [h rfl]
    rfl
  | false => cases mo <;> rfl

theorem recordAll_modifier? {repeats : Repeats} {o : Outline} (h : o.repeats = .kept) :
    recordAll repeats.modifier?.toList o =
      { o with repeats := repeats, depth := o.depth + repeats.modifier?.toList.length } := by
  cases repeats with
  | kept =>
    cases o
    cases h
    rfl
  | distinct => rfl
  | reduced => rfl

/-- The tree of a group of patterns is a body, whatever stands above it. -/
theorem stops_of_groupKinds {core : Tree} (h : core.kind ∈ Tree.groupKinds) (filled : List Slot) :
    core.Stops filled := by
  cases core with
  | modify mo arg =>
    cases mo with
    | select s => cases s <;> simp [Tree.kind, Modifier.kind, Selection.kind, Tree.groupKinds] at h
    | _ => simp [Tree.kind, Modifier.kind, Tree.groupKinds] at h
  | bare s => cases s <;> simp [Tree.kind, Selection.kind, Tree.groupKinds] at h
  | _ => exact Tree.stops_of_slot?_eq_none rfl filled

/-- Modifiers in free slots are taken off, whatever they stand on. -/
theorem peelFrom_above {filled : List Slot} {modifiers : List Modifier}
    (h : (modifiers.map Modifier.slot ++ filled).Nodup) (core : Tree) :
    peelFrom filled (core.under modifiers) =
      recordAll modifiers (peelFrom ((modifiers.map Modifier.slot).reverse ++ filled) core) := by
  induction modifiers generalizing filled with
  | nil => rfl
  | cons mo modifiers ih =>
    have hfree : mo.slot ∉ filled := fun hmem =>
      (List.nodup_cons.1 h).1 (List.mem_append_right _ hmem)
    have hinner : (modifiers.map Modifier.slot ++ mo.slot :: filled).Nodup :=
      (List.perm_middle.nodup_iff).2 h
    rw [Tree.under, List.foldr_cons, peelFrom_free hfree, List.map_cons, List.reverse_cons,
      List.append_assoc]
    exact congrArg (fun o => (deeper o).record mo) (ih hinner)

theorem peel_under {core : Tree} {modifiers : List Modifier}
    (hslots : (modifiers.map Modifier.slot).Nodup)
    (hstops : core.Stops (modifiers.map Modifier.slot)) :
    peel (core.under modifiers) = recordAll modifiers { body := some core } := by
  have hnodup : (modifiers.map Modifier.slot ++ []).Nodup := by rwa [List.append_nil]
  rw [peel, peelFrom_above hnodup, peelFrom_stopped]
  intro slot hslot
  rw [List.append_nil, List.mem_reverse]
  exact hstops slot hslot

end Outline

/-! ## The modifiers of a draft -/

theorem Selection.lists_ofLists (lists : List Columns) : (ofLists lists).lists = lists := by
  match lists with
  | [] => rfl
  | [columns] => rfl
  | _ :: _ :: _ => rfl

namespace QueryDraft

open Statement

def lists (d : QueryDraft) : List Columns :=
  match d.kind with
  | .ask => []
  | .describe _ => [Describe.columns]
  | _ =>
    if d.statements.isEmpty then [d.names.map Column.same]
    else (encodedAll 0 d.statements).map Encoded.columns

def bindings (d : QueryDraft) : List Binding :=
  match d.kind with
  | .ask => []
  | .describe _ => []
  | _ => (encodedAll 0 d.statements).flatMap Encoded.bindings

def repeats (d : QueryDraft) : Repeats :=
  if d.distinct then .distinct else if d.reduced then .reduced else .kept

def slice? (d : QueryDraft) : Option Modifier :=
  Modifier.omittedIf (d.limit.isNone && d.offset.isNone) (.slice d.limit d.offset)

def selection? (d : QueryDraft) : Option Modifier :=
  Modifier.omittedIf d.lists.isEmpty (.select (.ofLists d.lists))

def extension? (d : QueryDraft) : Option Modifier :=
  Modifier.omittedIf d.bindings.isEmpty (.extend d.bindings)

def sorting? (d : QueryDraft) : Option Modifier :=
  Modifier.omittedIf d.order.isEmpty (.order d.order)

/-- From the root of the tree down to its body. -/
def modifiers (d : QueryDraft) : List Modifier :=
  d.slice?.toList ++ (d.repeats.modifier?.toList ++ (d.selection?.toList ++
    (d.extension?.toList ++ d.sorting?.toList)))

theorem encodedAll_isEmpty (bound : Nat) (statements : List Statement) :
    (encodedAll bound statements).isEmpty = statements.isEmpty := by
  cases statements <;> rfl

theorem projected_eq_under (d : QueryDraft) (t : Tree) :
    d.projected (some t) = .ok (t.under (d.selection?.toList ++ d.extension?.toList)) := by
  unfold projected selection? extension? lists bindings
  cases d.kind with
  | ask => rfl
  | describe targets => rfl
  | _ =>
    by_cases hstatements : d.statements.isEmpty = true
    · simp only [if_pos hstatements]
      rw [List.isEmpty_iff.1 hstatements]
      rfl
    · have hne : ((encodedAll 0 d.statements).map Encoded.columns).isEmpty = false := by
        rw [List.isEmpty_map, encodedAll_isEmpty]
        simpa using hstatements
      simp only [if_neg hstatements, hne, Tree.selectStatements]
      cases hbindings : ((encodedAll 0 d.statements).flatMap Encoded.bindings).isEmpty with
      | true => rfl
      | false => rfl

theorem sorted_eq_under (d : QueryDraft) (t : Tree) :
    d.sorted (some t) = some (t.under d.sorting?.toList) := by
  unfold sorted sorting?
  cases d.order with
  | nil => rfl
  | cons key keys => rfl

theorem deduplicated_eq_under (d : QueryDraft) (t : Tree) :
    d.deduplicated t = t.under d.repeats.modifier?.toList := by
  unfold deduplicated repeats
  split
  · rfl
  · split <;> rfl

theorem sliced_eq_under (d : QueryDraft) (t : Tree) : d.sliced t = t.under d.slice?.toList := by
  unfold sliced slice?
  cases d.limit <;> cases d.offset <;> rfl

/-- Compilation joins the groups and puts the modifiers above them. -/
theorem compile_eq_under {d : QueryDraft} {root : Tree} (h : d.compile = .ok root) :
    d.error? = none ∧ ∃ ts, List.Forall₂ (fun g t => Group.compile g = .ok t) d.groups ts ∧
      ∀ t, Tree.joined? ts = some t → root = t.under d.modifiers := by
  unfold compile at h
  split at h
  · cases h
  rename_i herror
  split at h
  · cases h
  obtain ⟨body, hbody, h⟩ := Outcome.bind_eq_ok.1 h
  obtain ⟨ts, hts, rfl⟩ := compileGroups_eq_ok.1 hbody
  refine ⟨herror, ts, hts, fun t ht => ?_⟩
  simp only [ht, Option.isNone_some, Bool.false_and, Bool.false_eq_true, if_false,
    sorted_eq_under, projected_eq_under] at h
  rw [← Except.ok.inj h, sliced_eq_under, deduplicated_eq_under]
  simp only [modifiers, Tree.under_append]

/-! ## What the outline says of them -/

/-- No two of the modifiers fill one slot. -/
theorem slots_modifiers (d : QueryDraft) : (d.modifiers.map Modifier.slot).Nodup := by
  have hslots : (d.modifiers.map Modifier.slot).Sublist ([Slot.slice] ++ ([Slot.repeats] ++
      ([Slot.selection] ++ ([Slot.bindings] ++ [Slot.order])))) := by
    simp only [modifiers, List.map_append]
    exact (Modifier.slots_omittedIf _ _).append ((Repeats.slots_modifier? _).append
      ((Modifier.slots_omittedIf _ _).append ((Modifier.slots_omittedIf _ _).append
        (Modifier.slots_omittedIf _ _))))
  exact hslots.nodup (by decide)

open Outline

/-- What peeling gives for a body under all modifiers of a draft. -/
def outline (d : QueryDraft) (body : Tree) : Outline where
  body := some body
  depth := d.modifiers.length
  lists := d.lists
  bindings := OrderedMap.ofList (d.bindings.map Binding.entry)
  order := d.order
  repeats := d.repeats
  limit := d.limit
  offset := d.offset

theorem recordAll_modifiers (d : QueryDraft) (t : Tree) :
    recordAll d.modifiers { body := some t } = d.outline t := by
  have hdepth : d.modifiers.length = 0 + d.sorting?.toList.length + d.extension?.toList.length +
      d.selection?.toList.length + d.repeats.modifier?.toList.length + d.slice?.toList.length := by
    simp only [modifiers, List.length_append]
    omega
  rw [outline, hdepth]
  simp only [modifiers, recordAll_append]
  -- from the body outwards, each modifier in a slot that says nothing so far
  rw [sorting?, recordAll_omittedIf, extension?, recordAll_omittedIf, selection?, recordAll_omittedIf,
    recordAll_modifier?, slice?, recordAll_omittedIf]
  · have hlists := Selection.lists_ofLists d.lists
    simp only [record, hlists]
    rfl
  · intro hnone
    have hboth : d.limit = none ∧ d.offset = none := by simpa using hnone
    rw [hboth.1, hboth.2]
    rfl
  · rfl
  · intro hempty
    rw [List.isEmpty_iff.1 hempty]
    rfl
  · intro hempty
    rw [List.isEmpty_iff.1 hempty]
    rfl
  · intro hempty
    rw [List.isEmpty_iff.1 hempty]
    rfl

theorem peel_under_modifiers (d : QueryDraft) {t : Tree} (h : t.kind ∈ Tree.groupKinds) :
    peel (t.under d.modifiers) = d.outline t := by
  rw [peel_under (slots_modifiers d) (stops_of_groupKinds h _), recordAll_modifiers]

end QueryDraft

/-! ## The groups of a query -/

namespace GroupCall

/-- The calls of a group build one that has the tree. -/
def CompilesTo (calls : List GroupCall) (t : Tree) : Prop :=
  ∃ g, Group.build calls = .ok g ∧ g.compile = .ok t

theorem withinAll_append (cs ds : List GroupCall) :
    withinAll (cs ++ ds) = withinAll cs ++ withinAll ds := by
  induction cs with
  | nil => rfl
  | cons c cs ih => rw [List.cons_append, withinAll, withinAll, ih, List.append_assoc]

theorem withinAll_flatten (css : List (List GroupCall)) :
    withinAll css.flatten = css.flatMap withinAll := by
  induction css with
  | nil => rfl
  | cons cs css ih => rw [List.flatten_cons, withinAll_append, ih, List.flatMap_cons]

theorem patterned_flatten {css : List (List GroupCall)} (h : ∀ cs ∈ css, Patterned cs) :
    Patterned css.flatten := by
  intro t ht
  rw [withinAll_flatten] at ht
  obtain ⟨cs, hcs, ht⟩ := List.mem_flatMap.1 ht
  exact h cs hcs t ht

theorem makes_each {css : List (List GroupCall)} {ts : List Tree}
    (h : List.Forall₂ CompilesTo css ts) : ∀ t ∈ ts, Makes css.flatten t := by
  induction h with
  | nil => exact List.forall_mem_nil _
  | @cons cs t css ts hhead _ ih =>
    obtain ⟨g, hbuild, hcompile⟩ := hhead
    rw [List.flatten_cons, List.forall_mem_cons]
    refine ⟨(makes_of_compile hbuild hcompile).mono ?_, fun u hu => (ih u hu).mono ?_⟩
    · rw [withinAll_append]
      exact List.subset_append_left _ _
    · rw [withinAll_append]
      exact List.subset_append_right _ _

/-- The tree of the joined groups is made of what stands among the calls of any of them. -/
theorem makes_joined {css : List (List GroupCall)} {ts : List Tree} {t : Tree}
    (hts : List.Forall₂ CompilesTo css ts) (ht : Tree.joined? ts = some t) :
    Makes css.flatten t :=
  Tree.made_joined ht (makes_each hts)

theorem forall₂_compilesTo {css : List (List GroupCall)} {ts : List Tree}
    (hbuild : (css.findSome? fun cs => Outcome.error? (Group.build cs)) = none)
    (h : List.Forall₂ (fun g t => Group.compile g = .ok t)
      (css.filterMap fun cs => (Group.build cs).toOption) ts) :
    List.Forall₂ CompilesTo css ts := by
  induction css generalizing ts with
  | nil =>
    cases h
    exact .nil
  | cons cs css ih =>
    rw [List.findSome?_cons] at hbuild
    cases hg : Group.build cs with
    | error e =>
      rw [hg] at hbuild
      cases hbuild
    | ok g =>
      rw [hg] at hbuild
      rw [List.filterMap_cons, hg] at h
      cases h with
      | cons hhead htail => exact .cons ⟨g, hg, hhead⟩ (ih hbuild htail)

end GroupCall

namespace QueryCall

/-- What the calls give to a new query of the kind. -/
def draft (kind : QueryKind) (calls : List QueryCall) : QueryDraft :=
  (QueryDraft.start kind).given calls

/-- The tree of a query that has groups: their trees joined from left to right, under the
modifiers. -/
theorem compile_eq_under {kind : QueryKind} {calls : List QueryCall} (hgroups : groups calls ≠ [])
    {root : Tree} (h : ((QueryDraft.start kind).callAll calls).compile = .ok root) :
    ∃ ts t, List.Forall₂ GroupCall.CompilesTo (groups calls) ts ∧ Tree.joined? ts = some t ∧
      root = t.under (draft kind calls).modifiers := by
  rw [QueryDraft.callAll_eq_given] at h
  obtain ⟨hbuild, ts, hts, hroot⟩ := QueryDraft.compile_eq_under h
  have hts := GroupCall.forall₂_compilesTo hbuild hts
  obtain ⟨t, ht⟩ : ∃ t, Tree.joined? ts = some t := by
    generalize groups calls = css at hgroups hts
    cases hts with
    | nil => exact absurd rfl hgroups
    | cons => exact ⟨_, rfl⟩
  exact ⟨ts, t, hts, ht, hroot t ht⟩

/-- Peeling a query of groups of patterns gives back what was put above their trees. -/
theorem peel_compile {kind : QueryKind} {calls : List QueryCall} (hgroups : groups calls ≠ [])
    (hpatterned : ∀ cs ∈ groups calls, GroupCall.Patterned cs) {root : Tree}
    (h : ((QueryDraft.start kind).callAll calls).compile = .ok root) :
    ∃ ts t, List.Forall₂ GroupCall.CompilesTo (groups calls) ts ∧ Tree.joined? ts = some t ∧
      GroupCall.Makes (groups calls).flatten t ∧ root = t.under (draft kind calls).modifiers ∧
      Outline.peel root = (draft kind calls).outline t := by
  obtain ⟨ts, t, hts, ht, rfl⟩ := compile_eq_under hgroups h
  have hmakes := GroupCall.makes_joined hts ht
  have hkind := GroupCall.kind_of_makes hmakes (GroupCall.patterned_flatten hpatterned) t
    t.self_mem_subtrees
  exact ⟨ts, t, hts, ht, hmakes, rfl, QueryDraft.peel_under_modifiers _ hkind⟩

/-! ## Built queries -/

theorem compile_of_build {kind : QueryKind} {calls : List QueryCall} {q : Query}
    (h : ((QueryDraft.start kind).callAll calls).build = .ok q) :
    q.kind = kind ∧ ((QueryDraft.start kind).callAll calls).compile = .ok q.tree := by
  have hkind : ((QueryDraft.start kind).callAll calls).kind = kind := by
    rw [QueryDraft.callAll_eq_given]
    rfl
  unfold QueryDraft.build at h
  split at h
  · rename_i hcompile
    cases h
    exact ⟨hkind, hcompile⟩
  · cases h

/-- Only a describe query can do without groups. -/
theorem groups_ne_nil_of_build {kind : QueryKind} (hkind : kind = .select ∨ kind = .construct)
    {calls : List QueryCall} {q : Query}
    (h : ((QueryDraft.start kind).callAll calls).build = .ok q) : groups calls ≠ [] := by
  intro hgroups
  have hnone : refusal? kind calls = none := by
    rw [← error?_build, Outcome.error?_eq_none]
    exact ⟨q, h⟩
  have hdescribes : kind.describes = false := by
    rcases hkind with rfl | rfl <;> rfl
  unfold refusal? at hnone
  rw [allGroups, hgroups, hdescribes] at hnone
  split at hnone
  · cases hnone
  split at hnone
  · cases hnone
  · cases hnone

/-! ## What was said is said again -/

theorem any_isDistinct {calls : List QueryCall} :
    calls.any isDistinct = true ↔ .distinct ∈ calls := by
  rw [List.any_eq_true]
  constructor
  · rintro ⟨c, hc, h⟩
    cases c with
    | distinct => exact hc
    | _ => cases h
  · intro h
    exact ⟨_, h, rfl⟩

theorem any_isReduced {calls : List QueryCall} :
    calls.any isReduced = true ↔ .reduced ∈ calls := by
  rw [List.any_eq_true]
  constructor
  · rintro ⟨c, hc, h⟩
    cases c with
    | reduced => exact hc
    | _ => cases h
  · intro h
    exact ⟨_, h, rfl⟩

theorem repeats_draft (kind : QueryKind) (calls : List QueryCall) :
    ((draft kind calls).repeats = .distinct ↔ .distinct ∈ calls) ∧
      ((draft kind calls).repeats = .reduced ↔ .reduced ∈ calls ∧ .distinct ∉ calls) := by
  have hrepeats : (draft kind calls).repeats =
      if calls.any isDistinct then .distinct else if calls.any isReduced then .reduced
        else .kept := rfl
  rw [hrepeats, ← any_isDistinct, ← any_isReduced]
  by_cases hdistinct : calls.any isDistinct = true
  · simp [hdistinct]
  · by_cases hreduced : calls.any isReduced = true
    · simp [hdistinct, hreduced]
    · simp [hdistinct, hreduced]

/-- Of a select or construct query, whichever it is. -/
theorem projection_draft {kind : QueryKind} (hkind : kind = .select ∨ kind = .construct)
    (calls : List QueryCall) :
    (draft kind calls).lists = (if (calls.filterMap statement?).isEmpty then
        [(calls.flatMap names).map Column.same]
      else (Statement.encodedAll 0 (calls.filterMap statement?)).map Statement.Encoded.columns) ∧
    (draft kind calls).bindings =
      (Statement.encodedAll 0 (calls.filterMap statement?)).flatMap Statement.Encoded.bindings := by
  rcases hkind with rfl | rfl
  · exact ⟨rfl, rfl⟩
  · exact ⟨rfl, rfl⟩

theorem bindings_draft {kind : QueryKind} (hkind : kind = .select ∨ kind = .construct)
    (calls : List QueryCall) (t : Tree) :
    ((draft kind calls).outline t).bindings.entries =
      Statement.numbered 0 (Statement.constants (calls.filterMap statement?)) := by
  rw [QueryDraft.outline, (projection_draft hkind calls).2, Statement.entries_encodedAll]
  exact OrderedMap.entries_ofList (Statement.keys_numbered_nodup 0 _)

/-- The outline says what the calls said, and no more. -/
structure Retold (kind : QueryKind) (calls : List QueryCall) (o : Outline) : Prop where
  body : ∃ ts, List.Forall₂ GroupCall.CompilesTo (groups calls) ts ∧ o.body = Tree.joined? ts
  limit : o.limit = (calls.filterMap limit?).getLast?
  offset : o.offset = (calls.filterMap offset?).getLast?
  distinct : o.repeats = .distinct ↔ .distinct ∈ calls
  reduced : o.repeats = .reduced ↔ .reduced ∈ calls ∧ .distinct ∉ calls
  order : o.order = calls.filterMap key?
  ask : kind = .ask → o.lists = [] ∧ o.bindings.entries = []
  describe : kind.describes = true → o.lists = [Describe.columns] ∧ o.bindings.entries = []
  names : (kind = .select ∨ kind = .construct) → calls.filterMap statement? = [] →
    o.lists = [(calls.flatMap names).map Column.same] ∧ o.bindings.entries = []
  templates : (kind = .select ∨ kind = .construct) → ∀ statements ≠ [],
    calls.filterMap statement? = statements →
      o.lists.length = statements.length ∧ (∀ columns ∈ o.lists, columns.Positioned) ∧
      o.lists.flatMap Columns.sources =
        Statement.references 0 (statements.flatMap Statement.terms) ∧
      o.bindings.entries = Statement.numbered 0 (Statement.constants statements)

theorem retold_outline {kind : QueryKind} {calls : List QueryCall} {ts : List Tree} {t : Tree}
    (hts : List.Forall₂ GroupCall.CompilesTo (groups calls) ts) (ht : Tree.joined? ts = some t) :
    Retold kind calls ((draft kind calls).outline t) := by
  obtain ⟨hdistinct, hreduced⟩ := repeats_draft kind calls
  refine ⟨⟨ts, hts, ht.symm⟩, Option.or_none .., Option.or_none .., hdistinct, hreduced, rfl,
    ?_, ?_, ?_, ?_⟩
  · rintro rfl
    exact ⟨rfl, rfl⟩
  · intro hkind
    cases kind with
    | describe targets => exact ⟨rfl, rfl⟩
    | _ => cases hkind
  · intro hkind hstatements
    have hlists := (projection_draft hkind calls).1
    have hbindings := bindings_draft hkind calls t
    rw [hstatements] at hlists hbindings
    exact ⟨hlists, hbindings⟩
  · rintro hkind statements hne rfl
    have hlists : ((draft kind calls).outline t).lists = _ := (projection_draft hkind calls).1
    rw [if_neg fun hempty => hne (List.isEmpty_iff.1 hempty)] at hlists
    rw [hlists, List.length_map]
    exact ⟨Statement.length_encodedAll 0 _, Statement.positioned_encodedAll 0 _,
      Statement.sources_encodedAll 0 _, bindings_draft hkind calls t⟩

/-- Peeling the tree of a query gives back what was set. -/
theorem peel_retold {kind : QueryKind} {calls : List QueryCall}
    (hpatterned : ∀ cs ∈ groups calls, GroupCall.Patterned cs) (hgroups : groups calls ≠ [])
    {root : Tree} (h : ((QueryDraft.start kind).callAll calls).compile = .ok root) :
    Retold kind calls (Outline.peel root) := by
  obtain ⟨ts, t, hts, ht, -, -, hpeel⟩ := peel_compile hgroups hpatterned h
  rw [hpeel]
  exact retold_outline hts ht

/-- Templates that share a constant. -/
def sampleStatements : List Statement :=
  let a : Term := .const (.literal (.simple "a"))
  let b : Term := .const (.literal (.simple "b"))
  [⟨.var (.user "s"), a, .var (.user "o")⟩, ⟨a, .var (.user "p"), b⟩]

/-- The templates, a limit that is given twice, and an optional group that is lifted into a left
join. -/
def plainCalls : List QueryCall :=
  let anything : GroupCall :=
    .pattern ⟨.var (.user "s"), .var (.user "p"), .var (.user "o"), none⟩
  [.limit 5, .group [anything], .orderBy ⟨.var (.user "s"), false⟩, .limit 2,
    .group [.optional [anything, .filter (.bound (.user "o"))]]] ++
      sampleStatements.map .statement

/-- Distinct counts, not reduced. -/
def sampleCalls : List QueryCall := .distinct :: .reduced :: plainCalls

theorem sampleCalls_peel_retold :
    ∃ root, ((QueryDraft.start .construct).callAll sampleCalls).compile = .ok root ∧
      (∀ cs ∈ groups sampleCalls, GroupCall.Patterned cs) ∧ groups sampleCalls ≠ [] ∧
      Retold .construct sampleCalls (Outline.peel root) ∧
      (Outline.peel root).bindings.keys = ["_const_1", "_const_2", "_const_3"] := by
  have hpatterned : ∀ cs ∈ groups sampleCalls, GroupCall.Patterned cs := by decide
  have hgroups : groups sampleCalls ≠ [] := List.cons_ne_nil _ _
  obtain ⟨root, hroot⟩ :
      ∃ root, ((QueryDraft.start .construct).callAll sampleCalls).compile = .ok root := ⟨_, rfl⟩
  have hretold := peel_retold hpatterned hgroups hroot
  have hentries :=
    (hretold.templates (Or.inr rfl) sampleStatements (List.cons_ne_nil _ _) rfl).2.2.2
  refine ⟨root, hroot, hpatterned, hgroups, hretold, ?_⟩
  rw [OrderedMap.keys, hentries]
  decide

end QueryCall

end RdfQuery
