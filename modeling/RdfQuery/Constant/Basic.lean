import RdfQuery.BlankLabel
import RdfQuery.Decimal.Double
import RdfQuery.Iri.Basic
import RdfQuery.LanguageTag

/-!
# Constants of a query

A constant is an IRI, a blank node or a literal. A literal typed as a plain
string is the simple literal, so every literal has one form only.
-/

set_option autoImplicit false

namespace RdfQuery

inductive Literal where
  | simple (value : String)
  | tagged (value : String) (tag : LanguageTag)
  | typed (value : String) (datatype : Iri) (proper : datatype ≠ Iri.xsdString)
  deriving DecidableEq

namespace Literal

def ofTyped (value : String) (datatype : Iri) : Literal :=
  if h : datatype = Iri.xsdString then .simple value else .typed value datatype h

def ofInt (n : Int) : Literal := ofTyped (toString n) Iri.xsdInteger

def ofDouble (x : Float) : Literal := ofTyped (Decimal.write x) Iri.xsdDouble

def ofBool (b : Bool) : Literal := ofTyped (if b then "true" else "false") Iri.xsdBoolean

def value : Literal → String
  | .simple value => value
  | .tagged value _ => value
  | .typed value _ _ => value

def language? : Literal → Option LanguageTag
  | .tagged _ tag => some tag
  | _ => none

def datatype : Literal → Iri
  | .simple _ => Iri.xsdString
  | .tagged _ _ => Iri.rdfLangString
  | .typed _ datatype _ => datatype

def isPlain (l : Literal) : Bool := l.language?.isNone && l.datatype = Iri.xsdString

end Literal

inductive Constant where
  | iri (i : Iri)
  | blank (label : BlankLabel)
  | literal (l : Literal)
  deriving DecidableEq

/-- Why a text is no constant of the kind asked for. -/
inductive ConstantError where
  | iri (text : String) (fault : Iri.Fault)
  | blank (label : String)
  | language (tag : String) (fault : LanguageTag.Fault)
  deriving DecidableEq, Repr

def ConstantError.message : ConstantError → String
  | .iri text fault => "Invalid IRI <" ++ text ++ ">: " ++ fault.message
  | .blank label =>
    "Invalid blank node label '" ++ label ++ "': The blank node identifier is invalid"
  | .language tag fault => "Invalid language tag '" ++ tag ++ "': " ++ fault.message

namespace Constant

def readIri (text : String) : Except ConstantError Iri :=
  match Iri.ofString text with
  | .ok i => .ok i
  | .error fault => .error (.iri text fault)

def readBlank (label : String) : Except ConstantError BlankLabel :=
  match BlankLabel.ofString? label with
  | some b => .ok b
  | none => .error (.blank label)

def readTagged (value tag : String) : Except ConstantError Literal :=
  match LanguageTag.ofString tag with
  | .ok t => .ok (.tagged value t)
  | .error fault => .error (.language tag fault)

def readTyped (value datatype : String) : Except ConstantError Literal :=
  match readIri datatype with
  | .ok i => .ok (.ofTyped value i)
  | .error e => .error e

end Constant

end RdfQuery
