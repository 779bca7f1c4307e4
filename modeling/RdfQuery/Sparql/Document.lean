import RdfQuery.Footer
import RdfQuery.Query.Basic
import RdfQuery.Sparql.Element

/-!
# SPARQL documents

A document is the outline of a query laid out for SPARQL: prefix declarations,
the query form, dataset clauses, the where-block and the solution modifiers.
Bindings written in the head of the query are not written in the block again.
-/

set_option autoImplicit false

namespace RdfQuery.Sparql

inductive Form where
  | ask
  | describe (targets : List Term)
  | select (repeats : Repeats) (items : List SelectItem)
  | construct (templates : List Template)

/-- The bindings the head writes out. -/
def Form.bindingNames : Form → List String
  | .select _ items => items.filterMap SelectItem.bindingName?
  | .construct templates =>
    templates.flatMap fun t => t.terms.filterMap TemplateTerm.bindingName?
  | _ => []

structure Block where
  elements : List Element
  bindings : List (String × Expr)

structure Document where
  declarations : List (String × String)
  form : Form
  dataset : Dataset
  block : Option Block
  footer : Footer

def selectForm (o : Outline) : Except RenderError Form := do
  .ok (.select o.repeats (← o.items .sparql))

def constructForm (o : Outline) : Except RenderError Form :=
  if o.repeats = .kept then .ok (.construct o.templates)
  else .error (.feature .sparql .repeatsOfStatements)

def shapeForm (o : Outline) : Except RenderError Form :=
  match o.shape with
  | .select => selectForm o
  | .construct => constructForm o

/-- Select and construct queries take the form their projection has. -/
def form (o : Outline) : QueryKind → Except RenderError Form
  | .ask => .ok .ask
  | .describe targets => .ok (.describe targets)
  | .select => shapeForm o
  | .construct => shapeForm o

def targetIris : QueryKind → List Iri
  | .describe targets => targets.flatMap Term.iris
  | _ => []

def bodyElements (o : Outline) (m : GraphMap) : Except RenderError (List Element) :=
  match o.body with
  | some body => elements body (m.descend o.depth)
  | none => .ok []

/-- A describe query without a body has no where-block. -/
def block (kind : QueryKind) (o : Outline) (form : Form) (m : GraphMap) :
    Except RenderError (Option Block) :=
  match kind, o.body with
  | .describe _, none => .ok none
  | _, _ => do
    let written := form.bindingNames
    .ok (some ⟨← bodyElements o m, o.bindings.entries.filter fun b => !written.contains b.1⟩)

def document (n : Naming) (q : Query) (m : GraphMap) : Except RenderError Document := do
  let o := Outline.peel q.tree
  let form ← form o q.kind
  let block ← block q.kind o form m
  .ok {
    declarations := n.declarations (q.tree.iris ++ q.dataset.graphs ++ targetIris q.kind)
    form := form
    dataset := q.dataset
    block := block
    footer := o.footer }

/-! ## Text -/

def declarationText (d : String × String) : String := "PREFIX " ++ d.1 ++ ": <" ++ d.2 ++ ">\n"

def aliased (text target : String) : String := "(" ++ text ++ " as " ++ variableText target ++ ")"

def itemText (n : Naming) : SelectItem → String
  | .plain name => variableText name
  | .renamed source target => aliased (variableText source) target
  | .computed _ e target => aliased (expr n e) target

def templateTermText (n : Naming) : TemplateTerm → String
  | .name source => variableText source
  | .constant _ c => n.constant c

def templateText (p : Pen) (t : Template) : String :=
  p.line 1 (templateTermText p.naming t.subject ++ " " ++ templateTermText p.naming t.predicate
    ++ " " ++ templateTermText p.naming t.object ++ ".")

/-- Each piece after a blank; a star stands for none. -/
def listed : List String → String
  | [] => " *"
  | pieces => Text.concatenated (pieces.map fun piece => " " ++ piece)

def formText (p : Pen) : Form → String
  | .ask => "ask"
  | .describe targets => "describe" ++ listed (targets.map (term p.naming))
  | .select repeats items => "select" ++ repeats.text ++ listed (items.map (itemText p.naming))
  | .construct templates =>
    "construct \x7b\n" ++ Text.concatenated (templates.map (templateText p)) ++ "\x7d"

def datasetText (n : Naming) (d : Dataset) : String :=
  Text.concatenated (d.defaultGraphs.map fun g => "\nfrom " ++ n.iri g) ++
    Text.concatenated (d.namedGraphs.map fun g => "\nfrom named " ++ n.iri g)

def bindText (p : Pen) (b : String × Expr) : String :=
  p.line 1 ("bind (" ++ expr p.naming b.2 ++ " as " ++ variableText b.1 ++ ").")

def blockText (p : Pen) : Option Block → String
  | none => ""
  | some b =>
    "\nwhere \x7b\n" ++ bodyText p 1 b.elements ++
      Text.concatenated (b.bindings.map (bindText p)) ++ "\x7d"

def sortKeyText (n : Naming) (k : SortKey) : String :=
  if k.ascending then nested n k.expr else "desc(" ++ expr n k.expr ++ ")"

def Document.text (p : Pen) (d : Document) : String :=
  Text.concatenated (d.declarations.map declarationText) ++ formText p d.form ++
    datasetText p.naming d.dataset ++ blockText p d.block ++
    d.footer.orderText " " (sortKeyText p.naming) ++ d.footer.boundsText

def renderIn (s : Style) (q : Query) (m : GraphMap) : Except RenderError String := do
  let p := Pen.ofStyle s
  .ok ((← document p.naming q m).text p)

/-- The text of a query whose graphs are collected from its tree. -/
def render (s : Style) (q : Query) : Except RenderError String :=
  renderIn s q (GraphMap.collect q.tree)

def treeQuery (t : Tree) : Query :=
  ⟨match (Outline.peel t).shape with | .select => .select | .construct => .construct, t,
    Dataset.none⟩

/-- The text of a tree as a select or construct query. -/
def renderTree (s : Style) (t : Tree) (m : GraphMap) : Except RenderError String :=
  renderIn s (treeQuery t) m

end RdfQuery.Sparql
