import RdfQuery.GraphMap
import RdfQuery.Header
import RdfQuery.Sparql.Expr

/-!
# Group elements in SPARQL

A body is a list of elements, some of which hold lists of their own. Joins are
concatenated; a graph is entered where the graph map says so. Each element is
written on lines of its own, indented by the number of blocks around it.
-/

set_option autoImplicit false

namespace RdfQuery.Sparql

inductive Element where
  | triple (subject predicate object : Term)
  | filter (condition : Expr)
  | optional (body : List Element)
  | minus (body : List Element)
  | union (left right : List Element)
  | graph (name : Term) (body : List Element)

def enter (graph : Option Term) (body : List Element) : List Element :=
  match graph with
  | some g => [.graph g body]
  | none => body

def conditionElements (condition : Option Expr) : List Element :=
  condition.toList.map Element.filter

/-- The elements of a combination, given those of its operands. -/
def combined (left right : List Element) : Combination → List Element
  | .join => left ++ right
  | .leftJoin condition => left ++ [.optional (right ++ conditionElements condition)]
  | .union => [.union left right]
  | .difference => left ++ [.minus right]
  | .intersection => []

def supports : Combination → Bool
  | .intersection => false
  | _ => true

def elements : Tree → GraphMap → Except RenderError (List Element)
  | .unit, m => .ok (enter m.graph? [])
  | .pattern p, m => .ok (enter m.graph? [.triple p.subject p.predicate p.object])
  | .combine c left right, m => do
    if !supports c then .error (.node .sparql c.kind)
    else do
      let left ← elements left m.left
      let right ← elements right m.right
      .ok (enter m.graph? (combined left right c))
  | .filter arg condition, m => do
    let body ← elements arg m.left
    .ok (enter m.graph? (body ++ [.filter condition]))
  | .modify mo _, _ => .error (.position .sparql mo.kind)
  | .bare s, _ => .error (.position .sparql s.kind)

/-! ## Text -/

/-- How elements are written: the style gives the indentation, the naming the constants. -/
structure Pen where
  style : Style
  naming : Naming

namespace Pen

def ofStyle (s : Style) : Pen := ⟨s, Naming.ofStyle s⟩

def line (p : Pen) (depth : Nat) (text : String) : String := p.style.indent depth ++ text ++ "\n"

def triple (p : Pen) (subject predicate object : Term) : String :=
  term p.naming subject ++ " " ++ term p.naming predicate ++ " " ++ term p.naming object ++ "."

def filter (p : Pen) (condition : Expr) : String :=
  "filter (" ++ expr p.naming condition ++ ")."

end Pen

mutual

def Element.text (p : Pen) (depth : Nat) : Element → String
  | .triple subject predicate object => p.line depth (p.triple subject predicate object)
  | .filter condition => p.line depth (p.filter condition)
  | .optional body =>
    p.line depth "OPTIONAL \x7b" ++ bodyText p (depth + 1) body ++ p.line depth "\x7d."
  | .minus body => p.line depth "MINUS \x7b" ++ bodyText p (depth + 1) body ++ p.line depth "\x7d."
  | .union left right =>
    p.line depth "\x7b" ++ bodyText p (depth + 1) left ++ p.line depth "\x7d" ++
      p.line depth "UNION" ++ p.line depth "\x7b" ++ bodyText p (depth + 1) right ++
      p.line depth "\x7d."
  | .graph name body =>
    p.line depth ("GRAPH " ++ term p.naming name ++ " \x7b") ++ bodyText p (depth + 1) body ++
      p.line depth "\x7d."

def bodyText (p : Pen) (depth : Nat) : List Element → String
  | [] => ""
  | e :: es => e.text p depth ++ bodyText p depth es

end

end RdfQuery.Sparql
