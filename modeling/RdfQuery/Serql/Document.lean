import RdfQuery.Footer
import RdfQuery.Query.Basic
import RdfQuery.Serql.Clauses

/-!
# SeRQL documents

A document is the outline of a query laid out for SeRQL. Set operations may
stand at the top of the body only, where they combine whole sub-queries under
one head. Bindings can be written in the head only.
-/

set_option autoImplicit false

namespace RdfQuery.Serql

inductive Head where
  | select (repeats : Repeats) (items : List SelectItem)
  | construct (repeats : Repeats) (templates : List Template)

inductive SetOperation where
  | union
  | minus
  | intersect
  deriving DecidableEq, Repr

def SetOperation.word : SetOperation → String
  | .union => "union"
  | .minus => "minus"
  | .intersect => "intersect"

def SetOperation.of? : Combination → Option SetOperation
  | .union => some .union
  | .difference => some .minus
  | .intersection => some .intersect
  | _ => none

inductive Body where
  | clauses (c : Clauses)
  | operation (op : SetOperation) (left right : Body)

structure Document where
  head : Head
  body : Option Body
  footer : Footer
  declarations : List (String × String)

/-- Only a constant can stand for a binding in a template. -/
def writable (o : Outline) (columns : Columns) : Bool :=
  columns.all fun c =>
    match o.binding? c.source with
    | some (.const _) => true
    | some _ => false
    | none => true

def head (o : Outline) : Except RenderError Head :=
  if !o.unreferenced.isEmpty then .error (.node .serql .extension)
  else match o.shape with
    | .select => do .ok (.select o.repeats (← o.items .serql))
    | .construct =>
      if (o.lists.filter Columns.isTemplate).all (writable o) then
        .ok (.construct o.repeats o.templates)
      else .error (.position .serql .extension)

def collectBody (n : Naming) (t : Tree) (m : GraphMap) (inherited : Option Term) :
    Except RenderError Body := do
  .ok (.clauses (← collect n t m inherited Clauses.empty))

def body (n : Naming) : Tree → GraphMap → (inherited : Option Term) → Except RenderError Body
  | .combine c left right, m, inherited =>
    match SetOperation.of? c with
    | some op => do
      let graph := m.graph?.or inherited
      let left ← body n left m.left graph
      let right ← body n right m.right graph
      .ok (.operation op left right)
    | none => collectBody n (.combine c left right) m inherited
  | t, m, inherited => collectBody n t m inherited

def outlineBody (n : Naming) (o : Outline) (m : GraphMap) : Except RenderError (Option Body) :=
  match o.body with
  | some t => do .ok (some (← body n t (m.descend o.depth) none))
  | none => .ok none

def document (n : Naming) (t : Tree) (m : GraphMap) : Except RenderError Document := do
  let o := Outline.peel t
  let head ← head o
  let body ← outlineBody n o m
  .ok {
    head := head
    body := body
    footer := o.footer
    declarations := n.declarations t.iris }

/-! ## Text -/

def aliased (text target : String) : String := text ++ " as " ++ target

def itemText (n : Naming) : SelectItem → String
  | .plain name => name
  | .renamed source target => aliased source target
  | .computed _ e target => aliased (expr n e) target

def templateTermText (n : Naming) : TemplateTerm → String
  | .name source => source
  | .constant _ c => n.constant c

def templateText (n : Naming) (t : Template) : String :=
  "\x7b" ++ templateTermText n t.subject ++ "\x7d " ++ templateTermText n t.predicate ++ " \x7b" ++
    templateTermText n t.object ++ "\x7d"

/-- A star stands for no items. -/
def listed : List String → String
  | [] => " *"
  | pieces => " " ++ Text.separated ", " pieces

def headText (n : Naming) : Head → String
  | .select repeats items => "select" ++ repeats.text ++ listed (items.map (itemText n))
  | .construct repeats templates =>
    "construct" ++ repeats.text ++ " " ++ Text.separated ", " (templates.map (templateText n))

def bodyText (indent : String) (n : Naming) (head : String) : Body → String
  | .clauses c => head ++ c.text indent n
  | .operation op left right =>
    "(" ++ bodyText indent n head left ++ ")\n" ++ op.word ++ "\n(" ++
      bodyText indent n head right ++ ")"

def sortKeyText (n : Naming) (k : SortKey) : String :=
  nested n k.expr ++ if k.ascending then "" else " desc"

def declarationText (indent : String) (d : String × String) : String :=
  indent ++ d.1 ++ " = <" ++ d.2 ++ ">"

def declarationsText (indent : String) : List (String × String) → String
  | [] => ""
  | ds => "\nusing namespace\n" ++ Text.separated ",\n" (ds.map (declarationText indent))

def Document.text (s : Style) (d : Document) : String :=
  let n := Naming.ofStyle s
  let indent := s.indent 1
  let head := headText n d.head
  (match d.body with
    | some b => bodyText indent n head b
    | none => head) ++
    d.footer.orderText ", " (sortKeyText n) ++ d.footer.boundsText ++
    declarationsText indent d.declarations

/-- The text of a tree as a select or construct query. -/
def renderTree (s : Style) (t : Tree) (m : GraphMap) : Except RenderError String := do
  .ok ((← document (Naming.ofStyle s) t m).text s)

def renderCollected (s : Style) (t : Tree) : Except RenderError String :=
  renderTree s t (GraphMap.collect t)

/-- The text of a query whose graphs are collected from its tree. A describe query is
written as a construct query over the default graph. -/
def render (s : Style) (q : Query) : Except RenderError String :=
  if !q.dataset.isEmpty then .error (.feature .serql .datasets)
  else match q.kind with
    | .ask => .error (.feature .serql .askQueries)
    | .describe _ =>
      match q.describedByConstruct .defaultGraph with
      | (true, construct) => renderCollected s construct.tree
      | (false, _) => .error (.feature .serql .describeWithoutTargets)
    | _ => renderCollected s q.tree

end RdfQuery.Serql
