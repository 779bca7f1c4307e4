import RdfQuery.Tree.Basic

/-!
# Graphs of the nodes of a tree

A graph map says at which nodes of a tree a graph is entered. It has the shape
of the tree. The collected map puts each graph at the highest node whose whole
subtree is matched in it: a node claims the graph that its operands agree on,
and what a parent claims is not written at its operands again.
-/

set_option autoImplicit false

namespace RdfQuery

/-- A node with one operand keeps the map of it on the left. -/
inductive GraphMap where
  | empty
  | node (graph : Option Term) (left right : GraphMap)

namespace GraphMap

def graph? : GraphMap → Option Term
  | .empty => none
  | .node g _ _ => g

def left : GraphMap → GraphMap
  | .empty => .empty
  | .node _ l _ => l

def right : GraphMap → GraphMap
  | .empty => .empty
  | .node _ _ r => r

/-- The map of the node that is `steps` first operands down. -/
def descend (m : GraphMap) : (steps : Nat) → GraphMap
  | 0 => m
  | steps + 1 => m.left.descend steps

/-- The graph two operands agree on; one without a graph agrees with any. -/
def agreed : Option Term → Option Term → Option Term
  | some a, some b => if a.sameGraph b then some a else none
  | some a, none => some a
  | none, b => b

/-- The graph a tree can be matched in as a whole. Modifiers claim none. -/
def claim : Tree → Option Term
  | .unit => none
  | .pattern p => p.graph
  | .combine _ left right => agreed (claim left) (claim right)
  | .filter arg _ => claim arg
  | .modify _ _ => none
  | .bare _ => none

/-- The map of a tree whose claim was `taken` by its parent or not. -/
def place (taken : Bool) : Tree → GraphMap
  | .unit => .empty
  | .pattern p => .node (if taken then none else p.graph) .empty .empty
  | .combine c left right =>
    let own := claim (.combine c left right)
    .node (if taken then none else own) (place own.isSome left) (place own.isSome right)
  | .filter arg condition =>
    let own := claim (.filter arg condition)
    .node (if taken then none else own) (place own.isSome arg) .empty
  | .modify _ arg => .node none (place false arg) .empty
  | .bare _ => .empty

def collect (t : Tree) : GraphMap := place false t

/-! ## Listing -/

structure Entry where
  path : List Nat
  kind : Kind
  graph : Term

def Entry.below (i : Nat) (e : Entry) : Entry := { e with path := i :: e.path }

def ownEntry (m : GraphMap) (t : Tree) : List Entry :=
  m.graph?.toList.map fun g => ⟨[], t.kind, g⟩

/-- The nodes of a tree that enter a graph, parents first. -/
def entries : Tree → GraphMap → List Entry
  | .unit, m => m.ownEntry .unit
  | .pattern p, m => m.ownEntry (.pattern p)
  | .combine c left right, m =>
    m.ownEntry (.combine c left right) ++ (entries left m.left).map (Entry.below 0) ++
      (entries right m.right).map (Entry.below 1)
  | .filter arg condition, m =>
    m.ownEntry (.filter arg condition) ++ (entries arg m.left).map (Entry.below 0)
  | .modify mo arg, m => m.ownEntry (.modify mo arg) ++ (entries arg m.left).map (Entry.below 0)
  | .bare s, m => m.ownEntry (.bare s)

end GraphMap

end RdfQuery
