/-!
# The shortest decimal of a binary number

A finite positive double is `m * 2 ^ q`. Among the decimals that lie in the
interval of reals rounding to it, those with the fewest digits are short, and
the one nearest to the value is chosen. Everything is exact arithmetic on
naturals: the value and the ends of its interval share one denominator.
-/

set_option autoImplicit false

namespace RdfQuery.Decimal

/-- The number `significand * 2 ^ exponent`.
At a power of two the interval below it is half as wide. -/
structure Binary where
  significand : Nat
  exponent : Int
  atPower : Bool
  deriving DecidableEq, Repr

def Binary.ofBits (bits : Nat) : Binary :=
  let biased : Nat := bits / Nat.pow 2 52 % Nat.pow 2 11
  let fraction : Nat := bits % Nat.pow 2 52
  if biased = 0 then ⟨fraction, -1074, false⟩
  else ⟨Nat.pow 2 52 + fraction, (biased : Int) - 1075, fraction = 0 && biased ≠ 1⟩

/-- Fractions over `denominator`: the value between the ends of its interval. -/
structure Interval where
  low : Nat
  value : Nat
  high : Nat
  denominator : Nat
  closed : Bool
  deriving DecidableEq, Repr

def Binary.interval (b : Binary) : Interval :=
  let up := Nat.pow 2 b.exponent.toNat
  let down := Nat.pow 2 (-b.exponent).toNat
  { low := (4 * b.significand - if b.atPower then 1 else 2) * up
    value := 4 * b.significand * up
    high := (4 * b.significand + 2) * up
    denominator := 4 * down
    closed := b.significand % 2 = 0 }

/-- The number `digits * 10 ^ exponent`. -/
structure Digits where
  digits : Nat
  exponent : Int
  deriving DecidableEq, Repr

/-- Whether `digits` units of size `num / den` lie in the interval. -/
def Interval.holds (i : Interval) (num den digits : Nat) : Bool :=
  let point := digits * num * i.denominator
  if i.closed then i.low * den ≤ point && point ≤ i.high * den
  else i.low * den < point && point < i.high * den

/-- The point of the decimal grid with the given exponent that is in the interval and
nearest to the value; of two that are equally near the greater. -/
def Interval.onGrid (i : Interval) (exponent : Int) : Option Digits :=
  let num := Nat.pow 10 exponent.toNat
  let den := Nat.pow 10 (-exponent).toNat
  let below := i.value * den / (num * i.denominator)
  let above := below + 1
  match i.holds num den below, i.holds num den above with
  | true, true =>
    let toBelow := i.value * den - below * num * i.denominator
    let toAbove := above * num * i.denominator - i.value * den
    some ⟨if toBelow < toAbove then below else above, exponent⟩
  | true, false => some ⟨below, exponent⟩
  | false, true => some ⟨above, exponent⟩
  | false, false => none

def decimalLength (n : Nat) : Nat := (Nat.toDigits 10 n).length

/-- The greatest `e` with `10 ^ e ≤ value`. -/
def Interval.magnitude (i : Interval) : Int :=
  if i.denominator ≤ i.value then (decimalLength (i.value / i.denominator) : Int) - 1
  else
    let places := decimalLength (i.denominator / i.value)
    if i.denominator ≤ i.value * Nat.pow 10 (places - 1) then 1 - (places : Int) else -(places : Int)

/-- Only the coarsest grid can end in a zero, by reaching the next power of ten. -/
def Digits.trimmed (d : Digits) : Digits :=
  if d.digits % 10 = 0 then ⟨d.digits / 10, d.exponent + 1⟩ else d

def Interval.shortestFrom (i : Interval) (exponent : Int) : (tries : Nat) → Digits
  | 0 => ⟨i.value / i.denominator, 0⟩
  | tries + 1 =>
    match i.onGrid exponent with
    | some digits => digits.trimmed
    | none => i.shortestFrom (exponent - 1) tries

/-- Seventeen digits always suffice. -/
def Binary.shortest (b : Binary) : Digits :=
  let i := b.interval
  i.shortestFrom i.magnitude 18

/-- Positional text without an exponent; an integer has no point. -/
def Digits.positional (d : Digits) : String :=
  let text := Nat.toDigits 10 d.digits
  if 0 ≤ d.exponent then String.ofList (text ++ List.replicate d.exponent.toNat '0')
  else
    let places := (-d.exponent).toNat
    let padded := List.replicate (places + 1 - text.length) '0' ++ text
    let whole := padded.take (padded.length - places)
    let part := padded.drop (padded.length - places)
    String.ofList (whole ++ '.' :: part)

end RdfQuery.Decimal
