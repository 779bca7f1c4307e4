import RdfQuery.Naming

/-!
# Texts of expressions

The query languages write expressions alike and differ in how they spell
variables, negation, functions and connectives. Operands that are operations
themselves are parenthesised, and nothing else is.
-/

set_option autoImplicit false

namespace RdfQuery

/-- The words and signs of a language. -/
structure Spelling where
  variableName : String → String
  negation : String
  function : TermFunction → String
  conjunction : String
  disjunction : String

def TermRelation.name : TermRelation → String
  | .sameTerm => "sameTerm"
  | .langMatches => "langMatches"

namespace Spelling

def term (s : Spelling) (n : Naming) : Term → String
  | .var v => s.variableName v.name
  | .const c => n.constant c

def operator (s : Spelling) : Operator → String
  | .and => s.conjunction
  | .or => s.disjunction
  | .compare c => c.symbol

def call (name : String) (args : List String) : String :=
  name ++ "(" ++ Text.separated ", " args ++ ")"

/-- The text of an expression as an operand. -/
def operand (e : Expr) (text : String) : String :=
  if e.isOperation then "(" ++ text ++ ")" else text

mutual

def expr (s : Spelling) (n : Naming) : Expr → String
  | .var v => s.variableName v.name
  | .const c => n.constant c
  | .bound v => call "bound" [s.variableName v.name]
  | .not e => s.negation ++ operand e (expr s n e)
  | .function f arg => call (s.function f) [expr s n arg]
  | .relation r left right => call r.name [expr s n left, expr s n right]
  | .operation op left right =>
    operand left (expr s n left) ++ " " ++ s.operator op ++ " " ++ operand right (expr s n right)
  | .regex arg pattern => call "regex" [expr s n arg, expr s n pattern]
  | .regexWith arg pattern flags =>
    call "regex" [expr s n arg, expr s n pattern, expr s n flags]
  | .call name args => call (n.iri name) (exprs s n args)

def exprs (s : Spelling) (n : Naming) : List Expr → List String
  | [] => []
  | e :: es => expr s n e :: exprs s n es

end

/-- The text of an expression in operand position. -/
def nested (s : Spelling) (n : Naming) (e : Expr) : String := operand e (s.expr n e)

end Spelling

end RdfQuery
