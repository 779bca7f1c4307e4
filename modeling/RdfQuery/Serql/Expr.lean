import RdfQuery.Expr.Text

/-!
# Expressions in SeRQL

Variables are bare names, and connectives are words.
-/

set_option autoImplicit false

namespace RdfQuery.Serql

def functionName : TermFunction → String
  | .str => "label"
  | .lang => "lang"
  | .datatype => "datatype"
  | .isIri => "isURI"
  | .isBlank => "isBNode"
  | .isLiteral => "isLiteral"

def spelling : Spelling where
  variableName := fun name => name
  negation := "not "
  function := functionName
  conjunction := "and"
  disjunction := "or"

def term (n : Naming) (t : Term) : String := spelling.term n t

def expr (n : Naming) (e : Expr) : String := spelling.expr n e

def nested (n : Naming) (e : Expr) : String := spelling.nested n e

/-- A single condition is not parenthesised. -/
def conjunction (n : Naming) : List Expr → String
  | [e] => expr n e
  | es => Text.separated " and " (es.map (nested n))

end RdfQuery.Serql
