import RdfQuery.Query.Slice

/-!
# Describing resources by a construct query

A describe query projects three reserved variables as a statement template.
As a construct query its body is joined with a pattern over these variables, filtered to
the statements whose subject or object is one of the targets.
-/

set_option autoImplicit false

namespace RdfQuery

namespace Describe

def namePrefix : String := "_descr_"
def subject : String := "_descr_subj"
def predicate : String := "_descr_pred"
def object : String := "_descr_obj"
def graph : String := "_descr_ctx"

def columns : Columns := Columns.template subject predicate object

def isReserved (name : String) : Bool := namePrefix.toList.isPrefixOf name.toList

def marks (columns : Columns) : Bool :=
  columns.isTemplate && columns.all fun c => isReserved c.source

def isMarked (s : Selection) : Bool := s.lists.any marks

/-- Any statement about anything, in the default graph or in any named one. -/
def statement (scope : Scope) : TriplePattern where
  subject := .var (.fresh subject)
  predicate := .var (.fresh predicate)
  object := .var (.fresh object)
  graph := match scope with
    | .defaultGraph => none
    | .namedGraphs => some (.var (.fresh graph))

def mentions (target : Term) : Expr :=
  .operation .or (.relation .sameTerm (.ofTerm target) (.var (.fresh subject)))
    (.relation .sameTerm (.ofTerm target) (.var (.fresh object)))

def condition? (targets : List Term) : Option Expr := Expr.joined? .or (targets.map mentions)

/-- The tree with `added` in the input of this node, if it is a describe projection. -/
def extend? (added : Tree) : Tree → Option Tree
  | .modify (.select s) arg =>
    if isMarked s then some (.modify (.select s) (.join arg added)) else none
  | .bare s => if isMarked s then some (.modify (.select s) added) else none
  | _ => none

end Describe

namespace Tree

def isDescribe (t : Tree) : Bool :=
  t.subtrees.any fun
    | .modify (.select s) _ => Describe.isMarked s
    | .bare s => Describe.isMarked s
    | _ => false

def describe (t : Tree) (targets : List Term) (scope : Scope) : Except AmendError Tree :=
  match Describe.condition? targets with
  | none => .error .noTargets
  | some condition =>
    let added := Tree.filter (.pattern (Describe.statement scope)) condition
    match t.amendFirst? (Describe.extend? added) with
    | some t' => .ok t'
    | none => .error .noDescribeProjection

/-- Whether the tree was rewritten, and what became of it; a tree that cannot be is left as it is. -/
def described (t : Tree) (targets : List Term) (scope : Scope) : Bool × Tree :=
  match t.describe targets scope with
  | .ok t' => (true, t')
  | .error _ => (false, t)

end Tree

end RdfQuery
