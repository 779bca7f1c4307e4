import RdfQuery.Expr.Basic
import RdfQuery.Projection

/-!
# Algebra trees

A tree combines triple patterns into a query. Patterns, combinations and
filters make the body; modifiers shape the solutions and usually stand above it.
-/

set_option autoImplicit false

namespace RdfQuery

structure Binding where
  name : String
  expr : Expr

structure SortKey where
  expr : Expr
  ascending : Bool

inductive Combination where
  | join
  | leftJoin (condition : Option Expr)
  | union
  | difference
  | intersection

inductive Modifier where
  | select (s : Selection)
  | extend (bindings : List Binding)
  | order (keys : List SortKey)
  | distinct
  | reduced
  | slice (limit offset : Option Nat)

/-- Here `unit` is one empty solution, neutral for joins; `bare` is a projection without input. -/
inductive Tree where
  | unit
  | pattern (p : TriplePattern)
  | combine (c : Combination) (left right : Tree)
  | filter (arg : Tree) (condition : Expr)
  | modify (m : Modifier) (arg : Tree)
  | bare (s : Selection)

inductive Kind where
  | singletonSet
  | pattern
  | join
  | leftJoin
  | union
  | difference
  | intersection
  | filter
  | projection
  | multiProjection
  | extension
  | order
  | distinct
  | reduced
  | slice
  deriving DecidableEq, Repr

namespace Kind

def name : Kind → String
  | .singletonSet => "SingletonSet"
  | .pattern => "Pattern"
  | .join => "Join"
  | .leftJoin => "LeftJoin"
  | .union => "Union"
  | .difference => "Difference"
  | .intersection => "Intersection"
  | .filter => "Filter"
  | .projection => "Projection"
  | .multiProjection => "MultiProjection"
  | .extension => "Extension"
  | .order => "Order"
  | .distinct => "Distinct"
  | .reduced => "Reduced"
  | .slice => "Slice"

def all : List Kind :=
  [.singletonSet, .pattern, .join, .leftJoin, .union, .difference, .intersection, .filter,
    .projection, .multiProjection, .extension, .order, .distinct, .reduced, .slice]

end Kind

def Combination.kind : Combination → Kind
  | .join => .join
  | .leftJoin _ => .leftJoin
  | .union => .union
  | .difference => .difference
  | .intersection => .intersection

def Selection.kind : Selection → Kind
  | .single _ => .projection
  | .several _ => .multiProjection

def Modifier.kind : Modifier → Kind
  | .select s => s.kind
  | .extend _ => .extension
  | .order _ => .order
  | .distinct => .distinct
  | .reduced => .reduced
  | .slice _ _ => .slice

namespace Tree

def join (left right : Tree) : Tree := .combine .join left right
def leftJoin (left right : Tree) (condition : Option Expr) : Tree :=
  .combine (.leftJoin condition) left right
def union (left right : Tree) : Tree := .combine .union left right

/-- Trees joined from left to right. -/
def joined? : List Tree → Option Tree
  | [] => none
  | t :: ts => some (ts.foldl join t)

/-- The first filter is the innermost. -/
def filtered (t : Tree) (filters : List Expr) : Tree := filters.foldl .filter t

/-- A projection over a body that may be missing. -/
def select (s : Selection) : Option Tree → Tree
  | some body => .modify (.select s) body
  | none => .bare s

def kind : Tree → Kind
  | .unit => .singletonSet
  | .pattern _ => .pattern
  | .combine c _ _ => c.kind
  | .filter _ _ => .filter
  | .modify m _ => m.kind
  | .bare s => s.kind

def isPattern : Tree → Bool
  | .pattern _ => true
  | _ => false

def children : Tree → List Tree
  | .unit => []
  | .pattern _ => []
  | .combine _ left right => [left, right]
  | .filter arg _ => [arg]
  | .modify _ arg => [arg]
  | .bare _ => []

/-- The pattern leaves from left to right. -/
def patterns : Tree → List TriplePattern
  | .unit => []
  | .pattern p => [p]
  | .combine _ left right => patterns left ++ patterns right
  | .filter arg _ => patterns arg
  | .modify _ arg => patterns arg
  | .bare _ => []

/-- The tree and all trees inside it, each before its parts. -/
def subtrees : Tree → List Tree
  | .unit => [.unit]
  | .pattern p => [.pattern p]
  | .combine c left right => .combine c left right :: (subtrees left ++ subtrees right)
  | .filter arg condition => .filter arg condition :: subtrees arg
  | .modify m arg => .modify m arg :: subtrees arg
  | .bare s => [.bare s]

def count (k : Kind) (t : Tree) : Nat := (subtrees t).countP fun s => s.kind = k

/-- The expressions that stand at this node itself. -/
def ownExprs : Tree → List Expr
  | .combine (.leftJoin condition) _ _ => condition.toList
  | .filter _ condition => [condition]
  | .modify (.extend bindings) _ => bindings.map Binding.expr
  | .modify (.order keys) _ => keys.map SortKey.expr
  | _ => []

/-- Changes the first subtree, parents first, on which `f` is defined. -/
def amendFirst? (f : Tree → Option Tree) : Tree → Option Tree
  | .unit => f .unit
  | .pattern p => f (.pattern p)
  | .combine c left right =>
    match f (.combine c left right) with
    | some t => some t
    | none =>
      match amendFirst? f left with
      | some left' => some (.combine c left' right)
      | none => (amendFirst? f right).map fun right' => .combine c left right'
  | .filter arg condition =>
    match f (.filter arg condition) with
    | some t => some t
    | none => (amendFirst? f arg).map fun arg' => .filter arg' condition
  | .modify m arg =>
    match f (.modify m arg) with
    | some t => some t
    | none => (amendFirst? f arg).map fun arg' => .modify m arg'
  | .bare s => f (.bare s)

/-! ## Paths -/

def withChild? : Tree → Nat → Tree → Option Tree
  | .combine c _ right, 0, new => some (.combine c new right)
  | .combine c left _, 1, new => some (.combine c left new)
  | .filter _ condition, 0, new => some (.filter new condition)
  | .modify m _, 0, new => some (.modify m new)
  | _, _, _ => none

/-- The subtree a path of child numbers leads to. -/
def at? : List Nat → Tree → Option Tree
  | [], t => some t
  | i :: path, t => (t.children[i]?).bind (at? path)

def replaceAt? : List Nat → Tree → Tree → Option Tree
  | [], new, _ => some new
  | i :: path, new, t => do
    let child ← t.children[i]?
    t.withChild? i (← replaceAt? path new child)

end Tree

end RdfQuery
