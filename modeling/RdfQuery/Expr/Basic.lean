import RdfQuery.Pattern

/-!
# Value expressions

Expressions over the terms of a solution, as they stand in filters, join
conditions, sort keys and bindings.
-/

set_option autoImplicit false

namespace RdfQuery

inductive Comparison where
  | eq
  | ne
  | lt
  | le
  | gt
  | ge
  deriving DecidableEq, Repr

/-- Both query languages spell comparisons alike. -/
def Comparison.symbol : Comparison → String
  | .eq => "="
  | .ne => "!="
  | .lt => "<"
  | .le => "<="
  | .gt => ">"
  | .ge => ">="

/-- Operators written between their operands. -/
inductive Operator where
  | and
  | or
  | compare (c : Comparison)
  deriving DecidableEq, Repr

/-- Functions of one term. -/
inductive TermFunction where
  | str
  | lang
  | datatype
  | isIri
  | isBlank
  | isLiteral
  deriving DecidableEq, Repr

/-- Tests of two terms that are written as calls. -/
inductive TermRelation where
  | sameTerm
  | langMatches
  deriving DecidableEq, Repr

inductive Expr where
  | var (v : Variable)
  | const (c : Constant)
  | bound (v : Variable)
  | not (e : Expr)
  | function (f : TermFunction) (arg : Expr)
  | relation (r : TermRelation) (left right : Expr)
  | operation (op : Operator) (left right : Expr)
  | regex (arg pattern : Expr)
  | regexWith (arg pattern flags : Expr)
  | call (name : Iri) (args : List Expr)

namespace Expr

def ofTerm : Term → Expr
  | .var v => .var v
  | .const c => .const c

def text (value : String) : Expr := .const (.literal (.simple value))

/-- Operands of this form are parenthesised. -/
def isOperation : Expr → Bool
  | .operation _ _ _ => true
  | _ => false

/-- All operands under one operator, grouped from the left. -/
def joined? (op : Operator) : List Expr → Option Expr
  | [] => none
  | e :: es => some (es.foldl (.operation op) e)

mutual

/-- The expression and all inside it, each before its parts. -/
def walk : Expr → List Expr
  | .var v => [.var v]
  | .const c => [.const c]
  | .bound v => [.bound v]
  | .not e => .not e :: walk e
  | .function f arg => .function f arg :: walk arg
  | .relation r left right => .relation r left right :: (walk left ++ walk right)
  | .operation op left right => .operation op left right :: (walk left ++ walk right)
  | .regex arg pattern => .regex arg pattern :: (walk arg ++ walk pattern)
  | .regexWith arg pattern flags =>
    .regexWith arg pattern flags :: (walk arg ++ (walk pattern ++ walk flags))
  | .call name args => .call name args :: walkAll args

def walkAll : List Expr → List Expr
  | [] => []
  | e :: es => walk e ++ walkAll es

end

def constant? : Expr → Option Constant
  | .const c => some c
  | _ => none

def constants (e : Expr) : List Constant := (walk e).filterMap constant?

end Expr

end RdfQuery
