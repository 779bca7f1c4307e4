import RdfQuery.Group.Calls
import RdfQuery.Query.Basic

/-!
# Building queries by calls

A query in the making keeps what it was given; compiling it joins the groups
and puts the modifiers above them: sort keys, then the projection, then
distinct or reduced, then the slice.
-/

set_option autoImplicit false

namespace RdfQuery

structure Statement where
  subject : Term
  predicate : Term
  object : Term
  deriving DecidableEq

inductive QueryCall where
  | project (names : List String)
  | statement (s : Statement)
  | distinct
  | reduced
  | limit (n : Nat)
  | offset (n : Nat)
  | orderBy (key : SortKey)
  | fromGraph (graph : Iri)
  | fromNamed (graph : Iri)
  | group (calls : List GroupCall)

structure QueryDraft where
  kind : QueryKind
  groups : List Group := []
  names : List String := []
  statements : List Statement := []
  distinct : Bool := false
  reduced : Bool := false
  limit : Option Nat := none
  offset : Option Nat := none
  order : List SortKey := []
  dataset : Dataset := Dataset.none
  error? : Option BuildError := none

namespace QueryDraft

def start (kind : QueryKind) : QueryDraft := { kind := kind }

def addGroup (d : QueryDraft) (group : Except BuildError Group) : QueryDraft :=
  match group with
  | .ok g => { d with groups := d.groups ++ [g] }
  | .error e => { d with error? := d.error?.or (some e) }

def call (d : QueryDraft) : QueryCall → QueryDraft
  | .project names => { d with names := d.names ++ names }
  | .statement s => { d with statements := d.statements ++ [s] }
  | .distinct => { d with distinct := true }
  | .reduced => { d with reduced := true }
  | .limit n => { d with limit := some n }
  | .offset n => { d with offset := some n }
  | .orderBy key => { d with order := d.order ++ [key] }
  | .fromGraph g =>
    { d with dataset := { d.dataset with defaultGraphs := d.dataset.defaultGraphs ++ [g] } }
  | .fromNamed g =>
    { d with dataset := { d.dataset with namedGraphs := d.dataset.namedGraphs ++ [g] } }
  | .group calls => d.addGroup (Group.build calls)

def callAll : QueryDraft → List QueryCall → QueryDraft
  | d, [] => d
  | d, c :: cs => callAll (d.call c) cs

end QueryDraft

/-! ## Statement templates -/

namespace Statement

/-- A constant of a template is bound to a variable of its own, numbered from one. -/
def constantName (number : Nat) : String := "_const_" ++ toString number

structure Named where
  name : String
  bindings : List Binding

/-- The name that stands for a term when `bound` constants were bound before. -/
def named (bound : Nat) : Term → Named
  | .var v => ⟨v.name, []⟩
  | .const c => ⟨constantName (bound + 1), [⟨constantName (bound + 1), .const c⟩]⟩

structure Encoded where
  columns : Columns
  bindings : List Binding

def encoded (bound : Nat) (s : Statement) : Encoded :=
  let subject := named bound s.subject
  let bound := bound + subject.bindings.length
  let predicate := named bound s.predicate
  let bound := bound + predicate.bindings.length
  let object := named bound s.object
  ⟨Columns.template subject.name predicate.name object.name,
    subject.bindings ++ predicate.bindings ++ object.bindings⟩

def encodedAll : (bound : Nat) → List Statement → List Encoded
  | _, [] => []
  | bound, s :: rest =>
    let e := encoded bound s
    e :: encodedAll (bound + e.bindings.length) rest

end Statement

def Selection.ofLists : List Columns → Selection
  | [columns] => .single columns
  | lists => .several lists

/-- The projection of templates over a body that binds their constants. -/
def Tree.selectStatements (body : Option Tree) (statements : List Statement) : Tree :=
  let encoded := Statement.encodedAll 0 statements
  let bindings := encoded.flatMap Statement.Encoded.bindings
  let body := if bindings.isEmpty then body else body.map (.modify (.extend bindings))
  .select (.ofLists (encoded.map Statement.Encoded.columns)) body

namespace QueryDraft

def isDescribe (d : QueryDraft) : Bool :=
  match d.kind with
  | .describe _ => true
  | _ => false

def conflicts (d : QueryDraft) : Bool :=
  (!d.names.isEmpty && !d.statements.isEmpty) ||
    (d.isDescribe && (!d.names.isEmpty || !d.statements.isEmpty))

def compileGroups : Option Tree → List Group → Except BuildError (Option Tree)
  | acc, [] => .ok acc
  | acc, g :: gs => do
    let t ← g.compile
    compileGroups (some (match acc with | some left => .join left t | none => t)) gs

def sorted (d : QueryDraft) (body : Option Tree) : Option Tree :=
  if d.order.isEmpty then body else body.map (.modify (.order d.order))

def projected (d : QueryDraft) (body : Option Tree) : Except BuildError Tree :=
  match d.kind, body with
  | .ask, some t => .ok t
  | .ask, none => .error .emptyGroup
  | .describe _, body => .ok (.select (.single Describe.columns) body)
  | _, body =>
    if d.statements.isEmpty then .ok (.select (.single (d.names.map Column.same)) body)
    else .ok (.selectStatements body d.statements)

def deduplicated (d : QueryDraft) (t : Tree) : Tree :=
  if d.distinct then .modify .distinct t else if d.reduced then .modify .reduced t else t

def sliced (d : QueryDraft) (t : Tree) : Tree :=
  if d.limit.isSome || d.offset.isSome then .modify (.slice d.limit d.offset) t else t

def compile (d : QueryDraft) : Except BuildError Tree :=
  match d.error? with
  | some e => .error e
  | none =>
    if d.conflicts then .error .projectionConflict
    else do
      let body ← compileGroups none d.groups
      if body.isNone && !d.isDescribe then .error .emptyGroup
      else do .ok (d.sliced (d.deduplicated (← d.projected (d.sorted body))))

def build (d : QueryDraft) : Except BuildError Query :=
  match d.compile with
  | .ok tree => .ok ⟨d.kind, tree, d.dataset⟩
  | .error e => .error e

end QueryDraft

end RdfQuery
