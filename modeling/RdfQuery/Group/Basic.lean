import RdfQuery.Tree.Basic

/-!
# Groups of patterns

A group gathers trees, filters and nested groups and compiles into one tree.
Its own filters guard its own body, or its children when it has no body. An
optional group of patterns with a single filter gives that filter to the left
join as its condition.
-/

set_option autoImplicit false

namespace RdfQuery

inductive BuildError where
  | emptyGroup
  | unionArity (sides : Nat)
  | projectionConflict
  deriving DecidableEq, Repr

def BuildError.message : BuildError → String
  | .emptyGroup => "Group has no patterns, sub-expressions or nested groups"
  | .unionArity sides => "Union must have exactly 2 sides, got " ++ toString sides
  | .projectionConflict => "Query mixes variable projection with statement templates"

structure Group where
  isUnion : Bool
  optional : Bool
  body : List Tree
  children : List Group
  filters : List Expr

namespace Group

def start (optional : Bool) : Group := ⟨false, optional, [], [], []⟩

def startUnion : Group := ⟨true, false, [], [], []⟩

def addTree (g : Group) (t : Tree) : Group := { g with body := g.body ++ [t] }

def addFilter (g : Group) (e : Expr) : Group := { g with filters := g.filters ++ [e] }

/-- A union takes two sides. -/
def addChild (g child : Group) : Except BuildError Group :=
  if g.isUnion && 2 ≤ g.children.length then .error (.unionArity (g.children.length + 1))
  else .ok { g with children := g.children ++ [child] }

def isEmpty (g : Group) : Bool := g.body.isEmpty && g.children.isEmpty

mutual

def patterns : Group → List TriplePattern
  | ⟨_, _, body, children, _⟩ => body.flatMap Tree.patterns ++ patternsAll children

def patternsAll : List Group → List TriplePattern
  | [] => []
  | g :: gs => patterns g ++ patternsAll gs

end

/-- The body and the filter of an optional group that is written as a left join's operand. -/
def lifted? : Group → Option (Tree × Expr)
  | ⟨false, true, body, [], [filter]⟩ =>
    if body.all Tree.isPattern then (Tree.joined? body).map fun t => (t, filter) else none
  | _ => none

def attach (acc : Option Tree) (optional : Bool) (right : Tree) (condition : Option Expr) : Tree :=
  match acc, optional with
  | some left, true => .leftJoin left right condition
  | some left, false => .join left right
  | none, true => .leftJoin .unit right condition
  | none, false => right

mutual

def compile : Group → Except BuildError Tree
  | ⟨isUnion, _, body, children, filters⟩ =>
    if body.isEmpty && children.isEmpty then .error .emptyGroup
    else if isUnion then do
      .ok ((← compileSides children.length children).filtered filters)
    else do
      let own := (Tree.joined? body).map fun t => t.filtered filters
      match ← compileChildren own children with
      | some t => .ok (if body.isEmpty then t.filtered filters else t)
      | none => .error .emptyGroup

/-- Both sides of a union, of which `given` were added. -/
def compileSides : (given : Nat) → List Group → Except BuildError Tree
  | _, [left, right] => do .ok (.union (← compile left) (← compile right))
  | given, _ => .error (.unionArity given)

def compileChildren : Option Tree → List Group → Except BuildError (Option Tree)
  | acc, [] => .ok acc
  | acc, g :: gs =>
    match g.lifted? with
    | some (right, condition) => compileChildren (attach acc g.optional right condition) gs
    | none => do compileChildren (attach acc g.optional (← compile g) none) gs

end

end Group

end RdfQuery
