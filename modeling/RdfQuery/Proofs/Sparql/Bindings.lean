import RdfQuery.Proofs.Query.Templates
import RdfQuery.Proofs.Sparql.Heads

/-!
# Where bindings are written

What the extension binds is written in the head of the query, at every column that has the name,
or on one line at the end of the block. A select query writes all bindings in its head that it has
columns for, a construct query only constants, at the positions of its templates.
-/

set_option autoImplicit false

namespace RdfQuery

def Expr.isConstant : Expr → Bool
  | .const _ => true
  | _ => false

theorem Expr.isConstant_iff {e : Expr} : e.isConstant = true ↔ ∃ c, e = .const c := by
  cases e <;> simp [isConstant]

namespace Outline

/-! ## The extension -/

/-- These bindings stand in the extension that is peeled off, if there is one. -/
def Extends (t : Tree) (bindings : List Binding) : Prop :=
  ∃ modifiers core, Chain [] (peel t) t modifiers core ∧
    (.extend bindings ∈ modifiers ∨ bindings = [] ∧ .bindings ∉ modifiers.map Modifier.slot)

theorem exists_extends (t : Tree) :
    ∃ bindings, Extends t bindings ∧
      (peel t).bindings = OrderedMap.ofList (bindings.map Binding.entry) := by
  obtain ⟨modifiers, core, hchain, -, hnone⟩ := exists_chain [] List.nodup_nil t
  by_cases h : Slot.bindings ∈ modifiers.map Modifier.slot
  · obtain ⟨mo, hmo, hslot⟩ := List.mem_map.1 h
    cases mo with
    | extend bindings =>
      have hrecorded := congrArg Outline.bindings (hchain.recorded _ hmo)
      exact ⟨bindings, ⟨modifiers, core, hchain, Or.inl hmo⟩, hrecorded.symm⟩
    | _ => cases hslot
  · exact ⟨[], ⟨modifiers, core, hchain, Or.inr ⟨rfl, h⟩⟩, hnone h⟩

/-- A name that is bound again keeps its place, and its last expression counts. -/
theorem keys_of_extension {o : Outline} {bindings : List Binding}
    (h : o.bindings = OrderedMap.ofList (bindings.map Binding.entry)) :
    o.bindings.keys = firsts (bindings.map Binding.name) := by
  rw [h, OrderedMap.keys_ofList, List.map_map]
  rfl

theorem binding?_of_extension {o : Outline} {bindings : List Binding}
    (h : o.bindings = OrderedMap.ofList (bindings.map Binding.entry)) (name : String) :
    o.binding? name =
      (bindings.filter fun b => b.name = name).getLast?.map Binding.expr := by
  have hitems : OrderedMap.itemsOf name (bindings.map Binding.entry) =
      (bindings.filter fun b => b.name = name).map Binding.expr := by
    simp only [OrderedMap.itemsOf, List.filter_map, List.map_map]
    rfl
  rw [binding?, h, OrderedMap.get?_ofList, hitems, List.getLast?_map]

theorem binding?_of_mem {o : Outline} {b : String × Expr} (h : b ∈ o.bindings.entries) :
    o.binding? b.1 = some b.2 :=
  Entries.find?_of_mem o.bindings.distinct h

/-! ## Names in the head -/

/-- The names of the columns that the head writes, as often as they stand there. -/
def headNames (o : Outline) : List String :=
  match o.shape with
  | .select => o.lists.flatMap Columns.sources
  | .construct => (o.lists.filter Columns.isTemplate).flatMap Columns.sources

/-- What the head writes in the place of a name; templates take constants only. -/
def inHead? (o : Outline) (name : String) : Option Expr :=
  match o.shape with
  | .select => o.binding? name
  | .construct => (o.binding? name).filter Expr.isConstant

variable {o : Outline}

theorem inHead?_of_select (h : o.shape = .select) (name : String) :
    o.inHead? name = o.binding? name := by
  rw [inHead?, h]

theorem inHead?_of_construct (h : o.shape = .construct) (name : String) :
    o.inHead? name = (o.binding? name).filter Expr.isConstant := by
  rw [inHead?, h]

theorem binding?_of_inHead? {name : String} {e : Expr} (h : o.inHead? name = some e) :
    o.binding? name = some e := by
  cases hshape : o.shape with
  | select => rwa [inHead?_of_select hshape] at h
  | construct =>
    rw [inHead?_of_construct hshape] at h
    exact (Option.filter_eq_some_iff.1 h).1

/-- The bindings that the head does not write. -/
def unwritten (o : Outline) : List (String × Expr) :=
  o.bindings.entries.filter fun b => !(o.headNames.contains b.1 && (o.inHead? b.1).isSome)

theorem mem_unwritten {b : String × Expr} :
    b ∈ o.unwritten ↔
      b ∈ o.bindings.entries ∧ ¬ (b.1 ∈ o.headNames ∧ (o.inHead? b.1).isSome = true) := by
  rw [unwritten, List.mem_filter]
  simp only [Bool.not_eq_true', ← Bool.not_eq_true, Bool.and_eq_true, List.contains_iff_mem]

/-- Each binding is written in the head or on a line of its own, and never in both. -/
structure WrittenOnce (o : Outline) (lines : List (String × Expr)) : Prop where
  ordered : lines.Sublist o.bindings.entries
  once : (lines.map Prod.fst).Nodup
  either : ∀ b ∈ o.bindings.entries,
    (b.1 ∈ o.headNames ∧ o.inHead? b.1 = some b.2 ∧ b.1 ∉ lines.map Prod.fst) ∨
      ((b.1 ∈ o.headNames → o.inHead? b.1 = none) ∧ b ∈ lines)
  select : o.shape = .select → lines = o.unreferenced
  construct : o.shape = .construct → ∀ b ∈ o.bindings.entries, b ∈ lines ↔
    (∀ columns ∈ o.lists, columns.isTemplate = true → b.1 ∉ columns.sources) ∨
      ∀ c, b.2 ≠ .const c

theorem writtenOnce (o : Outline) : o.WrittenOnce o.unwritten where
  ordered := List.filter_sublist
  once := o.bindings.distinct.sublist (List.filter_sublist.map Prod.fst)
  either := by
    intro b hb
    by_cases hhead : b.1 ∈ o.headNames ∧ (o.inHead? b.1).isSome = true
    · obtain ⟨hname, hsome⟩ := hhead
      obtain ⟨e, he⟩ := Option.isSome_iff_exists.1 hsome
      have heq : e = b.2 :=
        Option.some.inj ((binding?_of_inHead? he).symm.trans (binding?_of_mem hb))
      refine Or.inl ⟨hname, heq ▸ he, fun hline => ?_⟩
      obtain ⟨b', hb', hfst⟩ := List.mem_map.1 hline
      have hnot := (mem_unwritten.1 hb').2
      rw [hfst] at hnot
      exact hnot ⟨hname, hsome⟩
    · refine Or.inr ⟨fun hname => ?_, mem_unwritten.2 ⟨hb, hhead⟩⟩
      exact Option.not_isSome_iff_eq_none.1 fun hsome => hhead ⟨hname, hsome⟩
  select := by
    intro hshape
    refine List.filter_congr fun b hb => ?_
    have hnames : o.headNames.contains b.1 = o.refersTo b.1 := by
      rw [headNames, hshape, refersTo, Bool.eq_iff_iff]
      simp
    rw [inHead?_of_select hshape, binding?_of_mem hb, Option.isSome_some, Bool.and_true, hnames]
  construct := by
    intro hshape b hb
    have hnames : b.1 ∈ o.headNames ↔
        ∃ columns ∈ o.lists, columns.isTemplate = true ∧ b.1 ∈ columns.sources := by
      rw [headNames, hshape]
      simp [and_assoc]
    have hsome : (o.inHead? b.1).isSome = true ↔ ∃ c, b.2 = .const c := by
      rw [inHead?_of_construct hshape, binding?_of_mem hb, ← Expr.isConstant_iff]
      simp
    rw [mem_unwritten, and_iff_right hb, hnames, hsome, not_and_or]
    simp only [not_exists, not_and]

end Outline

namespace Sparql

/-! ## The head as its columns write it -/

/-- The text in the place of a name: what is bound to it, or the variable. -/
def placeText (n : Naming) (o : Outline) (name : String) : String :=
  match o.inHead? name with
  | some e => expr n e
  | none => variableText name

def columnText (n : Naming) (o : Outline) (c : Column) : String :=
  if (o.inHead? c.source).isNone ∧ c.source = c.target then variableText c.source
  else aliased (placeText n o c.source) c.target

def headText (p : Pen) (o : Outline) : String :=
  match o.shape with
  | .select =>
    "select" ++ o.repeats.text ++ listed (o.lists.flatten.map (columnText p.naming o))
  | .construct =>
    "construct \x7b\n" ++
      Text.concatenated ((o.lists.filter Columns.isTemplate).map fun columns =>
        p.line 1 (Text.separated " " (columns.sources.map (placeText p.naming o)) ++ ".")) ++ "\x7d"

variable {o : Outline}

theorem itemText_item (hshape : o.shape = .select) (n : Naming) (c : Column) :
    itemText n (o.item c) = columnText n o c := by
  rw [columnText, placeText, Outline.inHead?_of_select hshape, Outline.item]
  cases o.binding? c.source with
  | some e => simp [itemText]
  | none => by_cases h : c.source = c.target <;> simp [itemText, h]

theorem bindingName?_item (hshape : o.shape = .select) (c : Column) :
    (o.item c).bindingName? = (o.inHead? c.source).map fun _ => c.source := by
  rw [Outline.inHead?_of_select hshape, Outline.item]
  cases o.binding? c.source with
  | some e => rfl
  | none => by_cases h : c.source = c.target <;> simp [SelectItem.bindingName?, h]

theorem templateTermText_templateTerm (hshape : o.shape = .construct) (n : Naming)
    (name : String) : templateTermText n (o.templateTerm name) = placeText n o name := by
  rw [placeText, Outline.inHead?_of_construct hshape, Outline.templateTerm]
  cases o.binding? name with
  | none => rfl
  | some e => cases e <;> rfl

theorem bindingName?_templateTerm (hshape : o.shape = .construct) (name : String) :
    (o.templateTerm name).bindingName? = (o.inHead? name).map fun _ => name := by
  rw [Outline.inHead?_of_construct hshape, Outline.templateTerm]
  cases o.binding? name with
  | none => rfl
  | some e => cases e <;> rfl

theorem templateText_eq (p : Pen) (t : Template) :
    templateText p t =
      p.line 1 (Text.separated " " (t.terms.map (templateTermText p.naming)) ++ ".") := by
  simp only [templateText, Template.terms, List.map_cons, List.map_nil, Text.separated,
    String.append_assoc]

theorem filterMap_self {α : Type} (keep : String → Option α) (names : List String) :
    (names.filterMap fun name => (keep name).map fun _ => name) =
      names.filter fun name => (keep name).isSome := by
  induction names with
  | nil => rfl
  | cons name names ih =>
    rw [List.filterMap_cons, List.filter_cons, ih]
    cases keep name <;> rfl

/-- The head of a query in the form its projection has. -/
theorem formText_eq_headText {f : Form} (h : shapeForm o = .ok f) (p : Pen) :
    formText p f = headText p o := by
  rcases shapeForm_eq_ok h with ⟨hshape, items, hitems, rfl⟩ | ⟨hshape, rfl⟩
  · rw [formText, headText, hshape, Outline.items_eq hitems, List.map_map]
    simp only [Function.comp_def, itemText_item hshape]
  · have hlines : o.templates.map (templateText p) =
        (o.templates.map Template.terms).map fun terms =>
          p.line 1 (Text.separated " " (terms.map (templateTermText p.naming)) ++ ".") := by
      rw [List.map_map]
      exact List.map_congr_left fun t _ => templateText_eq p t
    rw [formText, headText, hshape, hlines, Outline.terms_of_templates, List.map_map]
    simp only [Function.comp_def, List.map_map, templateTermText_templateTerm hshape]

theorem bindingNames_eq {f : Form} (h : shapeForm o = .ok f) :
    f.bindingNames = o.headNames.filter fun name => (o.inHead? name).isSome := by
  rw [← filterMap_self]
  rcases shapeForm_eq_ok h with ⟨hshape, items, hitems, rfl⟩ | ⟨hshape, rfl⟩
  · have hsources : o.lists.flatMap Columns.sources = o.lists.flatten.map Column.source := by
      rw [List.map_flatten, List.flatMap_def]
      rfl
    rw [Form.bindingNames, Outline.items_eq hitems, Outline.headNames, hshape]
    simp only [hsources, List.filterMap_map, Function.comp_def, bindingName?_item hshape]
  · have hterms : (Form.construct o.templates).bindingNames =
        (o.templates.map Template.terms).flatMap (List.filterMap TemplateTerm.bindingName?) :=
      (List.flatMap_map ..).symm
    rw [hterms, Outline.terms_of_templates, List.flatMap_map, Outline.headNames, hshape]
    simp only [List.filterMap_flatMap, List.filterMap_map, Function.comp_def,
      bindingName?_templateTerm hshape]

/-! ## The whole text -/

theorem lines_eq_unwritten {f : Form} (h : shapeForm o = .ok f) :
    (o.bindings.entries.filter fun b => !f.bindingNames.contains b.1) = o.unwritten := by
  refine List.filter_congr fun b _ => ?_
  rw [bindingNames_eq h, Bool.eq_iff_iff]
  simp

def prefixesText (n : Naming) (q : Query) : String :=
  Text.concatenated ((n.declarations (q.tree.iris ++ q.dataset.graphs ++ targetIris q.kind)).map
    declarationText)

def footText (n : Naming) (o : Outline) : String :=
  o.footer.orderText " " (sortKeyText n) ++ o.footer.boundsText

/-- The block of the elements and the lines of bindings below them. -/
def whereText (p : Pen) (elements : List Element) (lines : List (String × Expr)) : String :=
  "\nwhere \x7b\n" ++ bodyText p 1 elements ++ Text.concatenated (lines.map (bindText p)) ++ "\x7d"

theorem text_of_renderIn {s : Style} {q : Query} {m : GraphMap} {text : String}
    (hkind : isShaped q.kind = true) (h : renderIn s q m = .ok text) :
    ∃ elements, bodyElements (Outline.peel q.tree) m = .ok elements ∧
      text = prefixesText (Naming.ofStyle s) q ++ headText (Pen.ofStyle s) (Outline.peel q.tree) ++
        datasetText (Naming.ofStyle s) q.dataset ++
        whereText (Pen.ofStyle s) elements (Outline.peel q.tree).unwritten ++
        footText (Naming.ofStyle s) (Outline.peel q.tree) := by
  obtain ⟨d, hd, h⟩ := Outcome.bind_eq_ok.1 h
  obtain ⟨f, hform, hd⟩ := Outcome.bind_eq_ok.1 hd
  obtain ⟨b, hblock, hd⟩ := Outcome.bind_eq_ok.1 hd
  rw [form_of_isShaped hkind] at hform
  cases hd
  cases h
  unfold block at hblock
  split at hblock
  · rename_i hdescribe _
    rw [hdescribe] at hkind
    cases hkind
  · obtain ⟨elements, helements, hblock⟩ := Outcome.bind_eq_ok.1 hblock
    cases hblock
    refine ⟨elements, helements, ?_⟩
    simp only [Document.text, blockText, formText_eq_headText hform, lines_eq_unwritten hform,
      prefixesText, whereText, footText, String.append_assoc]
    rfl

/-- The head writes what is bound to a name at every place of the name or at none, and below the
elements of the body there is one line for each binding that it does not write, in the order in
which the names were first bound. -/
theorem bindings_written_once {s : Style} {q : Query} {m : GraphMap} {text : String}
    (hkind : q.kind = .select ∨ q.kind = .construct) (h : renderIn s q m = .ok text) :
    ∃ bindings elements lines,
      Outline.Extends q.tree bindings ∧
      (Outline.peel q.tree).bindings.keys = firsts (bindings.map Binding.name) ∧
      (∀ name, (Outline.peel q.tree).binding? name =
        (bindings.filter fun b => b.name = name).getLast?.map Binding.expr) ∧
      bodyElements (Outline.peel q.tree) m = .ok elements ∧
      text = prefixesText (Naming.ofStyle s) q ++ headText (Pen.ofStyle s) (Outline.peel q.tree) ++
        datasetText (Naming.ofStyle s) q.dataset ++ whereText (Pen.ofStyle s) elements lines ++
        footText (Naming.ofStyle s) (Outline.peel q.tree) ∧
      (Outline.peel q.tree).WrittenOnce lines := by
  have hshaped : isShaped q.kind = true := by
    rcases hkind with hkind | hkind <;> rw [hkind] <;> rfl
  obtain ⟨bindings, hextends, hbindings⟩ := Outline.exists_extends q.tree
  obtain ⟨elements, helements, htext⟩ := text_of_renderIn hshaped h
  exact ⟨bindings, elements, _, hextends, Outline.keys_of_extension hbindings,
    Outline.binding?_of_extension hbindings, helements, htext, Outline.writtenOnce _⟩

/-- One name is bound again to a constant, another one to a constant, a third one to none. -/
def rebinding (s : Selection) (kind : QueryKind) : Query where
  kind := kind
  tree := .modify (.select s) (.modify (.extend
    [⟨"a", .bound (.user "y")⟩, ⟨"b", .bound (.user "x")⟩, ⟨"a", .const (.literal (.simple "1"))⟩,
      ⟨"c", .const (.literal (.simple "2"))⟩])
    (.pattern ⟨.var (.user "x"), .var (.user "p"), .var (.user "y"), none⟩))
  dataset := Dataset.none

def rebindingColumns : Query := rebinding (.single [⟨"a", "n"⟩, ⟨"a", "a"⟩, ⟨"x", "x"⟩]) .select

/-- A list that is no template has a column for the constant that no template has. -/
def rebindingTemplates : Query :=
  rebinding (.several [Columns.template "a" "b" "a", [Column.same "c"]]) .construct

/-- In both queries the first name is written in the head, and two have lines of their own. -/
theorem rebinding_written_once :
    (∃ text lines, renderIn Style.default rebindingColumns GraphMap.empty = .ok text ∧
      (Outline.peel rebindingColumns.tree).WrittenOnce lines ∧
      lines.map Prod.fst = ["b", "c"]) ∧
    ∃ text lines, renderIn Style.default rebindingTemplates GraphMap.empty = .ok text ∧
      (Outline.peel rebindingTemplates.tree).WrittenOnce lines ∧
      "a" ∉ lines.map Prod.fst ∧ ("b", .bound (.user "x")) ∈ lines ∧
      ("c", .const (.literal (.simple "2"))) ∈ lines := by
  refine ⟨?_, ?_⟩
  · obtain ⟨text, htext⟩ : ∃ text,
        renderIn Style.default rebindingColumns GraphMap.empty = .ok text := ⟨_, rfl⟩
    obtain ⟨-, -, lines, -, -, -, -, -, honce⟩ := bindings_written_once (Or.inl rfl) htext
    refine ⟨text, lines, htext, honce, ?_⟩
    rw [honce.select rfl]
    rfl
  · obtain ⟨text, htext⟩ : ∃ text,
        renderIn Style.default rebindingTemplates GraphMap.empty = .ok text := ⟨_, rfl⟩
    obtain ⟨-, -, lines, -, -, -, -, -, honce⟩ := bindings_written_once (Or.inr rfl) htext
    have hentries : (Outline.peel rebindingTemplates.tree).bindings.entries =
        [("a", .const (.literal (.simple "1"))), ("b", .bound (.user "x")),
          ("c", .const (.literal (.simple "2")))] := rfl
    refine ⟨text, lines, htext, honce, ?_, ?_, ?_⟩
    · rcases honce.either ("a", .const (.literal (.simple "1"))) (by simp [hentries]) with ⟨-, -, hnot⟩ | hline
      · exact hnot
      · cases hline.1 (by decide)
    · refine (honce.construct rfl _ (by simp [hentries])).2 (Or.inr nofun)
    · refine (honce.construct rfl _ (by simp [hentries])).2 (Or.inl ?_)
      decide

end Sparql

end RdfQuery
