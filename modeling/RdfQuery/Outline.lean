import RdfQuery.OrderedMap
import RdfQuery.Tree.Basic

/-!
# Outlines of trees

The outline of a tree is its body and what the modifiers above the body say.
From the root down each slot is filled once; a modifier whose slot is filled
belongs to the body, as does every tree that is no modifier.
-/

set_option autoImplicit false

namespace RdfQuery

inductive Slot where
  | slice
  | repeats
  | selection
  | bindings
  | order
  deriving DecidableEq, Repr

def Modifier.slot : Modifier → Slot
  | .select _ => .selection
  | .extend _ => .bindings
  | .order _ => .order
  | .distinct => .repeats
  | .reduced => .repeats
  | .slice _ _ => .slice

/-- What becomes of equal solutions. -/
inductive Repeats where
  | kept
  | distinct
  | reduced
  deriving DecidableEq, Repr

/-- Rows of named bindings, or statements. -/
inductive Shape where
  | select
  | construct
  deriving DecidableEq, Repr

def Shape.name : Shape → String
  | .select => "Select"
  | .construct => "Construct"

/-- Above the body stand `depth` modifiers; a projection without input has no body. -/
structure Outline where
  body : Option Tree
  depth : Nat := 0
  lists : List Columns := []
  bindings : OrderedMap String Expr := OrderedMap.empty
  order : List SortKey := []
  repeats : Repeats := .kept
  limit : Option Nat := none
  offset : Option Nat := none

namespace Outline

def record (o : Outline) : Modifier → Outline
  | .select s => { o with lists := s.lists }
  | .extend bindings =>
    { o with bindings := OrderedMap.ofList (bindings.map fun b => (b.name, b.expr)) }
  | .order keys => { o with order := keys }
  | .distinct => { o with repeats := .distinct }
  | .reduced => { o with repeats := .reduced }
  | .slice limit offset => { o with limit := limit, offset := offset }

def peelFrom (filled : List Slot) : Tree → Outline
  | .modify m arg =>
    if filled.contains m.slot then { body := some (.modify m arg) }
    else
      let inner := peelFrom (m.slot :: filled) arg
      { inner with depth := inner.depth + 1 }.record m
  | .bare s =>
    if filled.contains .selection then { body := some (.bare s) }
    else { body := none, lists := s.lists }
  | t => { body := some t }

def peel (t : Tree) : Outline := peelFrom [] t

/-- One statement template is enough for a construct query. -/
def shape (o : Outline) : Shape := if o.lists.any Columns.isTemplate then .construct else .select

def binding? (o : Outline) (name : String) : Option Expr := o.bindings.get? name

def refersTo (o : Outline) (name : String) : Bool :=
  o.lists.any fun columns => columns.sources.contains name

def unreferenced (o : Outline) : List (String × Expr) :=
  o.bindings.entries.filter fun b => !o.refersTo b.1

end Outline

end RdfQuery
