import RdfQuery.Expr.Basic
import RdfQuery.Text
import RdfQuery.Text.Extending
import RdfQuery.Text.Ignorable
import RdfQuery.Text.Unprintable

/-!
# Expressions as constructor terms

The unabridged form of an expression, used where trees are listed for
diagnosis: every part is shown with its constructor and its field names.
A text stands between quotes, and what a reader could not see there, or would
see joined to the character before it, is written by its code.
-/

set_option autoImplicit false

namespace RdfQuery.Expr

def dumpsByCode (c : Char) : Bool :=
  Text.isAttached c || Text.isIgnorable c || !Text.isPrintable c

def dumpChar (c : Char) : List Char :=
  if c = '"' then ['\\', '"']
  else if c = '\\' then ['\\', '\\']
  else if c = '\t' then ['\\', 't']
  else if c = '\n' then ['\\', 'n']
  else if c = '\r' then ['\\', 'r']
  else if c.toNat = 0 then ['\\', '0']
  else if dumpsByCode c then
    ['\\', 'u', '\x7b'] ++ Nat.toDigits 16 c.toNat ++ ['\x7d']
  else [c]

def dumpString (s : String) : String :=
  String.ofList ('"' :: (s.toList.flatMap dumpChar ++ ['"']))

def dumpRecord (name : String) (fields : List (String × String)) : String :=
  name ++ " \x7b " ++ Text.separated ", " (fields.map fun f => f.1 ++ ": " ++ f.2) ++ " \x7d"

def dumpTuple (name : String) (parts : List String) : String :=
  name ++ "(" ++ Text.separated ", " parts ++ ")"

def dumpBool (b : Bool) : String := if b then "true" else "false"

def dumpVariable (v : Variable) : String :=
  dumpRecord "Variable" [("name", dumpString v.name), ("anonymous", dumpBool v.anonymous)]

def dumpIri (i : Iri) : String := dumpRecord "NamedNode" [("iri", dumpString i.text)]

def dumpName (i : Iri) : String := dumpTuple "NamedNode" [dumpIri i]

def dumpLiteral : Literal → String
  | .simple value => dumpTuple "String" [dumpString value]
  | .tagged value tag =>
    dumpRecord "LanguageTaggedString"
      [("value", dumpString value), ("language", dumpString tag.text)]
  | .typed value datatype _ =>
    dumpRecord "TypedLiteral" [("value", dumpString value), ("datatype", dumpIri datatype)]

def dumpBytes (bytes : List Nat) : String := "[" ++ Text.separated ", " (bytes.map toString) ++ "]"

/-- A label that is a number is shown as one, with its characters in the array that holds them. -/
def dumpLabel (label : BlankLabel) : String :=
  match label.number? with
  | some n =>
    let bytes := (label.text.toList.map Char.toNat).rightpad 32 0
    dumpRecord "Anonymous" [("id", toString n), ("str", dumpTuple "IdStr" [dumpBytes bytes])]
  | none => dumpTuple "Named" [dumpString label.text]

def dumpConstant : Constant → String
  | .iri i => dumpTuple "NamedNode" [dumpName i]
  | .blank label =>
    dumpTuple "BlankNode" [dumpTuple "BlankNode" [dumpTuple "BlankNode" [dumpLabel label]]]
  | .literal l => dumpTuple "Literal" [dumpTuple "Literal" [dumpTuple "Literal" [dumpLiteral l]]]

def dumpComparison : Comparison → String
  | .eq => "Eq"
  | .ne => "Ne"
  | .lt => "Lt"
  | .le => "Le"
  | .gt => "Gt"
  | .ge => "Ge"

def dumpFunction : TermFunction → String
  | .str => "Str"
  | .lang => "Lang"
  | .datatype => "Datatype"
  | .isIri => "IsIri"
  | .isBlank => "IsBlank"
  | .isLiteral => "IsLiteral"

def dumpRelation : TermRelation → String
  | .sameTerm => "SameTerm"
  | .langMatches => "LangMatches"

def dumpOperation (left right : String) : Operator → String
  | .and => dumpTuple "And" [left, right]
  | .or => dumpTuple "Or" [left, right]
  | .compare c =>
    dumpRecord "Compare" [("left", left), ("op", dumpComparison c), ("right", right)]

def dumpRegex (arg pattern flags : String) : String :=
  dumpRecord "Regex" [("arg", arg), ("pattern", pattern), ("flags", flags)]

mutual

def dump : Expr → String
  | .var v => dumpTuple "Var" [dumpVariable v]
  | .const c => dumpTuple "Const" [dumpConstant c]
  | .bound v => dumpTuple "Bound" [dumpVariable v]
  | .not e => dumpTuple "Not" [dump e]
  | .function f arg => dumpTuple (dumpFunction f) [dump arg]
  | .relation r left right => dumpTuple (dumpRelation r) [dump left, dump right]
  | .operation op left right => dumpOperation (dump left) (dump right) op
  | .regex arg pattern => dumpRegex (dump arg) (dump pattern) "None"
  | .regexWith arg pattern flags =>
    dumpRegex (dump arg) (dump pattern) (dumpTuple "Some" [dump flags])
  | .call name args =>
    dumpRecord "FunctionCall"
      [("function", dumpName name), ("args", "[" ++ Text.separated ", " (dumpAll args) ++ "]")]

def dumpAll : List Expr → List String
  | [] => []
  | e :: es => dump e :: dumpAll es

end

end RdfQuery.Expr
