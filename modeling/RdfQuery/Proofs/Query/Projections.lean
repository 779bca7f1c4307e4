import RdfQuery.Proofs.Serql.Acceptance
import RdfQuery.Proofs.Sparql.Bindings

/-!
# Projections in the head

The head writes the lists of the projection in their order. If one of them is a
statement template, the head has templates only, and a list that is none is not
written. Several lists of which none is a template are refused.
-/

set_option autoImplicit false

namespace RdfQuery

namespace Outline

/-- This projection is peeled off, above the body or without one. -/
def Projects (t : Tree) (s : Selection) : Prop :=
  ∃ modifiers core, Chain [] (peel t) t modifiers core ∧
    (.select s ∈ modifiers ∨ core = .bare s ∧ (peel t).body = none)

theorem lists_of_projects {t : Tree} {s : Selection} (h : Projects t s) :
    (peel t).lists = s.lists := by
  obtain ⟨modifiers, core, hchain, hselect | ⟨rfl, hbody⟩⟩ := h
  · exact (congrArg Outline.lists (hchain.recorded _ hselect)).symm
  · cases hchain.ends with
    | body core hcore => exact nomatch hbody.symm.trans hcore
    | bare s hfree hnone hlists => exact hlists

/-- The lists that the head writes. -/
def shown (lists : List Columns) : List Columns :=
  if lists.any Columns.isTemplate then lists.filter Columns.isTemplate else lists

theorem shown_eq_self {lists : List Columns} :
    shown lists = lists ↔ (∀ columns ∈ lists, columns.isTemplate = true) ∨
      ∀ columns ∈ lists, columns.isTemplate = false := by
  unfold shown
  split
  · rename_i hsome
    obtain ⟨columns, hcolumns, htemplate⟩ := List.any_eq_true.1 hsome
    rw [List.filter_eq_self]
    refine ⟨Or.inl, ?_⟩
    rintro (hall | hnone)
    · exact hall
    · exact absurd htemplate (by simp [hnone columns hcolumns])
  · rename_i hnone
    simpa using Or.inr hnone

variable {o : Outline}

theorem shape_eq_select : o.shape = .select ↔ ∀ columns ∈ o.lists, columns.isTemplate = false := by
  unfold shape
  split
  · rename_i hsome
    simpa using hsome
  · rename_i hnone
    simpa using hnone

theorem shown_of_select (h : o.shape = .select) : shown o.lists = o.lists :=
  shown_eq_self.2 (Or.inr (shape_eq_select.1 h))

theorem shown_of_construct (h : o.shape = .construct) :
    shown o.lists = o.lists.filter Columns.isTemplate := by
  have hany : o.lists.any Columns.isTemplate = true := by
    unfold shape at h
    split at h
    · assumption
    · cases h
  rw [shown, if_pos hany]

end Outline

namespace Sparql

/-- The head of a query that writes these lists. -/
def headOf (p : Pen) (o : Outline) (lists : List Columns) : String :=
  match o.shape with
  | .select => "select" ++ o.repeats.text ++ listed (lists.flatten.map (columnText p.naming o))
  | .construct =>
    "construct \x7b\n" ++
      Text.concatenated (lists.map fun columns =>
        p.line 1 (Text.separated " " (columns.sources.map (placeText p.naming o)) ++ ".")) ++ "\x7d"

theorem headText_eq_headOf (p : Pen) (o : Outline) :
    headText p o = headOf p o (Outline.shown o.lists) := by
  rw [headText, headOf]
  cases hshape : o.shape with
  | select => rw [Outline.shown_of_select hshape]
  | construct => rw [Outline.shown_of_construct hshape]

/-- The text of the tree with these lists in its head. -/
def Shows (s : Style) (t : Tree) (m : GraphMap) (lists : List Columns) (text : String) : Prop :=
  ∃ elements, bodyElements (Outline.peel t) m = .ok elements ∧
    text = prefixesText (Naming.ofStyle s) (treeQuery t) ++
      headOf (Pen.ofStyle s) (Outline.peel t) lists ++
      whereText (Pen.ofStyle s) elements (Outline.peel t).unwritten ++
      footText (Naming.ofStyle s) (Outline.peel t)

theorem isShaped_treeQuery (t : Tree) : isShaped (treeQuery t).kind = true := by
  unfold treeQuery
  cases (Outline.peel t).shape <;> rfl

theorem shows_of_renderTree {s : Style} {t : Tree} {m : GraphMap} {text : String}
    (h : renderTree s t m = .ok text) :
    Shows s t m (Outline.shown (Outline.peel t).lists) text := by
  obtain ⟨elements, helements, htext⟩ := text_of_renderIn (isShaped_treeQuery t) h
  have hdataset : datasetText (Naming.ofStyle s) (treeQuery t).dataset = "" := rfl
  refine ⟨elements, helements, ?_⟩
  rw [htext, hdataset, headText_eq_headOf, String.append_empty]
  rfl

theorem severalSelections_of_renderTree {s : Style} {t : Tree} {m : GraphMap}
    (hshape : (Outline.peel t).shape = .select) (hseveral : 1 < (Outline.peel t).lists.length) :
    renderTree s t m = .error (.feature .sparql .severalSelections) := by
  have hrefusal : refusal? (treeQuery t) = some (.feature .sparql .severalSelections) :=
    if_pos ⟨isShaped_treeQuery t, hshape, hseveral⟩
  rw [← Outcome.error?_eq_some, ← hrefusal, ← error?_document (Naming.ofStyle s) _ m]
  exact Outcome.error?_bind_ok _ _

end Sparql

namespace Serql

/-- The text in the place of a name: what is bound to it, or the name. -/
def placeText (n : Naming) (o : Outline) (name : String) : String :=
  match o.inHead? name with
  | some e => expr n e
  | none => name

def columnText (n : Naming) (o : Outline) (c : Column) : String :=
  if (o.inHead? c.source).isNone ∧ c.source = c.target then c.source
  else aliased (placeText n o c.source) c.target

/-- Three names as a path, with what stands in their places. -/
def pathText (n : Naming) (o : Outline) : List String → String
  | [subject, predicate, object] =>
    "\x7b" ++ placeText n o subject ++ "\x7d " ++ placeText n o predicate ++ " \x7b" ++
      placeText n o object ++ "\x7d"
  | names => Text.separated " " (names.map (placeText n o))

/-- The head of a query that writes these lists. -/
def headOf (n : Naming) (o : Outline) (lists : List Columns) : String :=
  match o.shape with
  | .select => "select" ++ o.repeats.text ++ listed (lists.flatten.map (columnText n o))
  | .construct =>
    "construct" ++ o.repeats.text ++ " " ++
      Text.separated ", " (lists.map fun columns => pathText n o columns.sources)

variable {o : Outline}

theorem itemText_item (hshape : o.shape = .select) (n : Naming) (c : Column) :
    itemText n (o.item c) = columnText n o c := by
  rw [columnText, placeText, Outline.inHead?_of_select hshape, Outline.item]
  cases o.binding? c.source with
  | some e => simp [itemText]
  | none => by_cases h : c.source = c.target <;> simp [itemText, h]

theorem templateTermText_templateTerm (hshape : o.shape = .construct) (n : Naming)
    (name : String) : templateTermText n (o.templateTerm name) = placeText n o name := by
  rw [placeText, Outline.inHead?_of_construct hshape, Outline.templateTerm]
  cases o.binding? name with
  | none => rfl
  | some e => cases e <;> rfl

theorem templateText_template? (hshape : o.shape = .construct) (n : Naming) (columns : Columns) :
    (o.template? columns).map (templateText n) =
      if columns.isTemplate then some (pathText n o columns.sources) else none := by
  match columns with
  | [s, p, v] =>
    by_cases h : Columns.isTemplate [s, p, v] = true
    · simp [Outline.template?, h, templateText, pathText, Columns.sources,
        templateTermText_templateTerm hshape]
    · simp [Outline.template?, h]
  | [] => rfl
  | [_] => rfl
  | [_, _] => rfl
  | _ :: _ :: _ :: _ :: _ => rfl

theorem templateTexts (hshape : o.shape = .construct) (n : Naming) :
    o.templates.map (templateText n) =
      (o.lists.filter Columns.isTemplate).map fun columns => pathText n o columns.sources := by
  rw [Outline.templates, List.map_filterMap, ← List.filterMap_eq_filter, List.map_filterMap]
  refine List.filterMap_congr fun columns _ => ?_
  rw [templateText_template? hshape, Option.guard]
  split <;> simp_all

theorem headText_eq_headOf {h : Head} (hhead : head o = .ok h) (n : Naming) :
    headText n h = headOf n o (Outline.shown o.lists) := by
  unfold head at hhead
  split at hhead
  · cases hhead
  · split at hhead
    · rename_i hshape
      obtain ⟨items, hitems, hhead⟩ := Outcome.bind_eq_ok.1 hhead
      cases hhead
      rw [headText, headOf, hshape, Outline.shown_of_select hshape, Outline.items_eq hitems,
        List.map_map]
      simp only [Function.comp_def, itemText_item hshape]
    · rename_i hshape
      split at hhead
      · cases hhead
        rw [headText, headOf, hshape, Outline.shown_of_construct hshape, templateTexts hshape]
      · cases hhead

/-- The text of the tree with these lists in its head, which each of its sub-queries has. -/
def Shows (s : Style) (t : Tree) (m : GraphMap) (lists : List Columns) (text : String) : Prop :=
  ∃ body, outlineBody (Naming.ofStyle s) (Outline.peel t) m = .ok body ∧
    text = (body.elim id fun b hd => bodyText (s.indent 1) (Naming.ofStyle s) hd b)
        (headOf (Naming.ofStyle s) (Outline.peel t) lists) ++
      (Outline.peel t).footer.orderText ", " (sortKeyText (Naming.ofStyle s)) ++
      (Outline.peel t).footer.boundsText ++
      declarationsText (s.indent 1) ((Naming.ofStyle s).declarations t.iris)

theorem shows_of_renderTree {s : Style} {t : Tree} {m : GraphMap} {text : String}
    (h : renderTree s t m = .ok text) :
    Shows s t m (Outline.shown (Outline.peel t).lists) text := by
  obtain ⟨d, hd, h⟩ := Outcome.bind_eq_ok.1 h
  obtain ⟨hd', hhead, hd⟩ := Outcome.bind_eq_ok.1 hd
  obtain ⟨body, hbody, hd⟩ := Outcome.bind_eq_ok.1 hd
  cases hd
  cases h
  refine ⟨body, hbody, ?_⟩
  simp only [Document.text, headText_eq_headOf hhead]
  cases body <;> rfl

/-- Bindings that nothing refers to are an error before the lists are looked at. -/
theorem error_of_several {s : Style} {t : Tree} {m : GraphMap}
    (hshape : (Outline.peel t).shape = .select) (hseveral : 1 < (Outline.peel t).lists.length) :
    renderTree s t m = .error (if (Outline.peel t).unreferenced.isEmpty then
      .feature .serql .severalSelections else .node .serql .extension) := by
  have hhead : head (Outline.peel t) = .error (if (Outline.peel t).unreferenced.isEmpty then
      .feature .serql .severalSelections else .node .serql .extension) := by
    have hitems := Outline.error?_items .serql (Outline.peel t)
    rw [if_pos hseveral, Outcome.error?_eq_some] at hitems
    unfold head
    rw [hshape, hitems]
    cases (Outline.peel t).unreferenced.isEmpty <;> rfl
  simp only [renderTree, document, hhead]
  rfl

end Serql

/-- The head writes the lists of the projection one after the other, unless a template stands
beside a list that is none: then it writes the templates only. Both languages refuse several lists
of which none is a template. -/
theorem lists_written {t : Tree} {selection : Selection} (h : Outline.Projects t selection)
    (s : Style) (m : GraphMap) :
    (∀ text, Sparql.renderTree s t m = .ok text →
      Sparql.Shows s t m (Outline.shown selection.lists) text) ∧
    (∀ text, Serql.renderTree s t m = .ok text →
      Serql.Shows s t m (Outline.shown selection.lists) text) ∧
    (Outline.shown selection.lists = selection.lists ↔
      (∀ columns ∈ selection.lists, columns.isTemplate = true) ∨
        ∀ columns ∈ selection.lists, columns.isTemplate = false) ∧
    (1 < selection.lists.length → (∀ columns ∈ selection.lists, columns.isTemplate = false) →
      Sparql.renderTree s t m = .error (.feature .sparql .severalSelections) ∧
      Serql.renderTree s t m = .error (if (Outline.peel t).unreferenced.isEmpty then
        .feature .serql .severalSelections else .node .serql .extension)) := by
  rw [← Outline.lists_of_projects h]
  refine ⟨fun text => Sparql.shows_of_renderTree, fun text => Serql.shows_of_renderTree,
    Outline.shown_eq_self, fun hseveral hnone => ?_⟩
  have hshape := Outline.shape_eq_select.2 hnone
  exact ⟨Sparql.severalSelections_of_renderTree hshape hseveral,
    Serql.error_of_several hshape hseveral⟩

/-- A projection of the statements `?s ?q ?o`, with the name `p` bound to a constant. -/
def projecting (lists : List Columns) : Tree :=
  .modify (.select (.several lists)) (.modify (.extend [⟨"p", .const (.literal (.simple "1"))⟩])
    (.pattern ⟨.var (.user "s"), .var (.user "q"), .var (.user "o"), none⟩))

theorem projects_projecting (lists : List Columns) :
    Outline.Projects (projecting lists) (.several lists) := by
  let modifiers : List Modifier :=
    [.select (.several lists), .extend [⟨"p", .const (.literal (.simple "1"))⟩]]
  have hrecorded : ∀ mo ∈ modifiers,
      (Outline.peel (projecting lists)).record mo = Outline.peel (projecting lists) := by
    rw [List.forall_mem_cons, List.forall_mem_singleton]
    exact ⟨rfl, rfl⟩
  have hslots : (modifiers.map Modifier.slot ++ []).Nodup := by
    change [Slot.selection, Slot.bindings].Nodup
    decide
  exact ⟨modifiers, _, ⟨rfl, hslots, hrecorded, .body _ rfl⟩, Or.inl List.mem_cons_self⟩

def twoTemplates : List Columns :=
  [Columns.template "s" "p" "o", Columns.template "o" "p" "s"]

def twoRows : List Columns := [[Column.same "s"], [Column.same "p"]]

/-- Two templates are written, and two rows are refused. -/
theorem projecting_lists_written :
    (∃ text, Sparql.renderTree Style.default (projecting twoTemplates) .empty = .ok text ∧
      Sparql.Shows Style.default (projecting twoTemplates) .empty twoTemplates text) ∧
    (∃ text, Serql.renderTree Style.default (projecting twoTemplates) .empty = .ok text ∧
      Serql.Shows Style.default (projecting twoTemplates) .empty twoTemplates text) ∧
    Sparql.renderTree Style.default (projecting twoRows) .empty =
      .error (.feature .sparql .severalSelections) ∧
    Serql.renderTree Style.default (projecting twoRows) .empty =
      .error (.feature .serql .severalSelections) := by
  obtain ⟨hsparql, hserql, hshown, -⟩ :=
    lists_written (projects_projecting twoTemplates) Style.default .empty
  obtain ⟨-, -, -, hrefused⟩ :=
    lists_written (projects_projecting twoRows) Style.default .empty
  have hwritten : Outline.shown (Selection.several twoTemplates).lists = twoTemplates :=
    hshown.2 (Or.inl (by decide))
  rw [hwritten] at hsparql hserql
  exact ⟨⟨_, rfl, hsparql _ rfl⟩, ⟨_, rfl, hserql _ rfl⟩, hrefused (by decide) (by decide)⟩

def templateAndRow : List Columns := [Columns.template "s" "p" "o", [Column.same "s"]]

/-- A row beside a template is neither written nor refused: the texts are those of the template
alone. -/
theorem row_beside_template_dropped :
    Outline.Projects (projecting templateAndRow) (.several templateAndRow) ∧
    (∃ text, Sparql.renderTree Style.default (projecting templateAndRow) .empty = .ok text ∧
      ¬ Sparql.Shows Style.default (projecting templateAndRow) .empty templateAndRow text ∧
      Sparql.renderTree Style.default (projecting [Columns.template "s" "p" "o"]) .empty =
        .ok text) ∧
    ∃ text, Serql.renderTree Style.default (projecting templateAndRow) .empty = .ok text ∧
      ¬ Serql.Shows Style.default (projecting templateAndRow) .empty templateAndRow text ∧
      Serql.renderTree Style.default (projecting [Columns.template "s" "p" "o"]) .empty =
        .ok text := by
  refine ⟨projects_projecting _, ⟨_, rfl, ?_, rfl⟩, ⟨_, rfl, ?_, rfl⟩⟩
  · rintro ⟨elements, helements, htext⟩
    cases helements
    exact absurd htext (by decide +kernel)
  · rintro ⟨body, hbody, htext⟩
    cases hbody
    exact absurd htext (by decide +kernel)

end RdfQuery
