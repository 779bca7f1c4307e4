import RdfQuery.Expr.Text

/-!
# Expressions in SPARQL

Variables have a question mark, and connectives are signs.
-/

set_option autoImplicit false

namespace RdfQuery.Sparql

def variableText (name : String) : String := "?" ++ name

def functionName : TermFunction → String
  | .str => "str"
  | .lang => "lang"
  | .datatype => "datatype"
  | .isIri => "isIRI"
  | .isBlank => "isBlank"
  | .isLiteral => "isLiteral"

def spelling : Spelling where
  variableName := variableText
  negation := "!"
  function := functionName
  conjunction := "&&"
  disjunction := "||"

def term (n : Naming) (t : Term) : String := spelling.term n t

def expr (n : Naming) (e : Expr) : String := spelling.expr n e

def nested (n : Naming) (e : Expr) : String := spelling.nested n e

end RdfQuery.Sparql
