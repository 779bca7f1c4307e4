import RdfQuery.Decimal.Numeral
import RdfQuery.Decimal.Shortest

/-!
# Texts of double-precision numbers

`write` gives the shortest positional decimal that reads back as the number;
`read?` takes decimal and exponent forms and rounds to the nearest double.
-/

set_option autoImplicit false

namespace RdfQuery.Decimal

def write (x : Float) : String :=
  let bits := x.toBits.toNat
  let negative := Nat.pow 2 63 ≤ bits
  let magnitude := bits % Nat.pow 2 63
  if x.isNaN then "NaN"
  else if x.isInf then if negative then "-INF" else "INF"
  else
    let text := if magnitude = 0 then "0" else (Binary.ofBits magnitude).shortest.positional
    if negative then "-" ++ text else text

/-- An exponent without digits is refused. -/
def exponent? : List Char → Option Int
  | [] => some 0
  | c :: rest =>
    if c = 'e' || c = 'E' then
      let (negative, digits) := match rest with
        | '-' :: digits => (true, digits)
        | '+' :: digits => (false, digits)
        | digits => (false, digits)
      if digits.isEmpty || !digits.all Char.isDigit then none
      else some (if negative then -(digitsValue digits : Int) else digitsValue digits)
    else none

/-- The double nearest to `digits * 10 ^ exponent`, infinite or zero far outside the range. -/
def round (digits : Nat) (exponent : Int) : Float :=
  if digits = 0 then 0.0
  else
    let top := (decimalLength digits : Int) + exponent
    if top > 400 then 1.0 / 0.0
    else if top < -400 then 0.0
    else Float.ofScientific digits (exponent < 0) exponent.natAbs

def unsigned? (cs : List Char) : Option Float :=
  let whole := cs.takeWhile Char.isDigit
  match cs.dropWhile Char.isDigit with
  | '.' :: rest =>
    let part := rest.takeWhile Char.isDigit
    if whole.isEmpty && part.isEmpty then none
    else (exponent? (rest.dropWhile Char.isDigit)).map fun e =>
      round (digitsValue (whole ++ part)) (e - part.length)
  | rest =>
    if whole.isEmpty then none else (exponent? rest).map fun e => round (digitsValue whole) e

def special? (cs : List Char) : Option Float :=
  match String.ofList (cs.map Char.toLower) with
  | "inf" => some (1.0 / 0.0)
  | "infinity" => some (1.0 / 0.0)
  | "nan" => some (0.0 / 0.0)
  | _ => none

def read? (text : String) : Option Float :=
  let (negative, cs) := match text.toList with
    | '-' :: cs => (true, cs)
    | '+' :: cs => (false, cs)
    | cs => (false, cs)
  (special? cs <|> unsigned? cs).map fun x => if negative then -x else x

end RdfQuery.Decimal
