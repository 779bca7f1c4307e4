import RdfQuery.Constant.Basic
import RdfQuery.Text.Quoted

/-!
# Constants in N-Triples form

IRIs stand between angle brackets, blank nodes follow `_:`, and literals are
quoted, with their language or their datatype behind them.
-/

set_option autoImplicit false

namespace RdfQuery.NTriples

def quoting : Text.Quoting := ⟨'A', fun c => c.toNat < 0x20 || c.toNat = 0x7F⟩

def quoted (value : String) : String := quoting.quoted value

def iri (i : Iri) : String := "<" ++ i.text ++ ">"

def literal : Literal → String
  | .simple value => quoted value
  | .tagged value tag => quoted value ++ "@" ++ tag.text
  | .typed value datatype _ => quoted value ++ "^^" ++ iri datatype

def constant : Constant → String
  | .iri i => iri i
  | .blank label => "_:" ++ label.text
  | .literal l => literal l

end RdfQuery.NTriples
