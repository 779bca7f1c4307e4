/-!
# Decimal numerals

The value of a list of decimal digits.
-/

set_option autoImplicit false

namespace RdfQuery.Decimal

def digitsValue (digits : List Char) : Nat :=
  digits.foldl (fun n c => 10 * n + (c.toNat - '0'.toNat)) 0

end RdfQuery.Decimal
