import RdfQuery.GraphMap
import RdfQuery.Header
import RdfQuery.Serql.Expr

/-!
# From-clauses and conditions in SeRQL

A body without set operations is flattened: its patterns become paths, filed
under the context they are matched in, its left joins become brackets among
the paths of their context, and its filters become conditions.
-/

set_option autoImplicit false

namespace RdfQuery.Serql

inductive Item where
  | path (subject predicate object : Term)
  | optional (items : List Item) (conditions : List Expr)

/-- The name of a context; the default graph has none. -/
abbrev Context := Option String

structure Clauses where
  paths : OrderedMap Context (List Item)
  conditions : List Expr

namespace Clauses

def empty : Clauses := ⟨OrderedMap.empty, []⟩

def push (c : Clauses) (context : Context) (item : Item) : Clauses :=
  { c with paths := c.paths.update context fun items => items.getD [] ++ [item] }

def addCondition (c : Clauses) (e : Expr) : Clauses :=
  { c with conditions := c.conditions ++ [e] }

/-- The items of a context, if no other context has any. -/
def only? (c : Clauses) (context : Context) : Option (List Item) :=
  if (c.paths.erase context).isEmpty then some ((c.paths.get? context).getD []) else none

end Clauses

def contextOf (n : Naming) (graph : Option Term) : Context := graph.map (term n)

def pathOf (p : TriplePattern) : Item := .path p.subject p.predicate p.object

/-- Adds the parts of a tree to the clauses. A node is matched in the graph it enters, or
else in the one it inherits; an optional part must lie in the context of its parent. -/
def collect (n : Naming) : Tree → GraphMap → (inherited : Option Term) → Clauses →
    Except RenderError Clauses
  | .unit, _, _, clauses => .ok clauses
  | .pattern p, m, inherited, clauses =>
    .ok (clauses.push (contextOf n (m.graph?.or inherited)) (pathOf p))
  | .combine c left right, m, inherited, clauses =>
    let graph := m.graph?.or inherited
    match c with
    | .join => do collect n right m.right graph (← collect n left m.left graph clauses)
    | .leftJoin condition => do
      let clauses ← collect n left m.left graph clauses
      let part ← collect n right m.right graph Clauses.empty
      match part.only? (contextOf n graph) with
      | none => .error (.position .serql .leftJoin)
      | some items =>
        .ok (clauses.push (contextOf n graph)
          (.optional items (part.conditions ++ condition.toList)))
    | c => .error (.position .serql c.kind)
  | .filter arg condition, m, inherited, clauses => do
    .ok ((← collect n arg m.left (m.graph?.or inherited) clauses).addCondition condition)
  | .modify mo _, _, _, _ => .error (.position .serql mo.kind)
  | .bare s, _, _, _ => .error (.position .serql s.kind)

/-! ## Text -/

mutual

def Item.text (n : Naming) : Item → String
  | .path subject predicate object =>
    "\x7b" ++ term n subject ++ "\x7d " ++ term n predicate ++ " \x7b" ++ term n object ++ "\x7d"
  | .optional items conditions =>
    "[" ++ Text.separated ", " (itemTexts n items) ++
      (if conditions.isEmpty then "" else " where " ++ conjunction n conditions) ++ "]"

def itemTexts (n : Naming) : List Item → List String
  | [] => []
  | i :: is => i.text n :: itemTexts n is

end

def fromText : Context → String
  | some context => "\nfrom context " ++ context ++ "\n"
  | none => "\nfrom\n"

def clauseText (indent : String) (n : Naming) (clause : Context × List Item) : String :=
  fromText clause.1 ++ Text.separated ",\n" ((itemTexts n clause.2).map fun text => indent ++ text)

def Clauses.text (indent : String) (n : Naming) (c : Clauses) : String :=
  Text.concatenated (c.paths.entries.map (clauseText indent n)) ++
    if c.conditions.isEmpty then "" else "\nwhere " ++ conjunction n c.conditions

end RdfQuery.Serql
