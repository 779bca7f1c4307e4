import RdfQuery.Outline
import RdfQuery.Text

/-!
# Feet of queries

What follows the body of a query in both languages: sort keys, then the
limit and the offset on lines of their own.
-/

set_option autoImplicit false

namespace RdfQuery

structure Footer where
  order : List SortKey
  limit : Option Nat
  offset : Option Nat

def Outline.footer (o : Outline) : Footer := ⟨o.order, o.limit, o.offset⟩

namespace Footer

def boundText (word : String) : Option Nat → String
  | none => ""
  | some count => "\n" ++ word ++ " " ++ toString count

def boundsText (f : Footer) : String := boundText "limit" f.limit ++ boundText "offset" f.offset

/-- The sort keys between separators; each language writes a key its own way. -/
def orderText (f : Footer) (separator : String) (key : SortKey → String) : String :=
  match f.order with
  | [] => ""
  | keys => "\norder by " ++ Text.separated separator (keys.map key)

end Footer

end RdfQuery
