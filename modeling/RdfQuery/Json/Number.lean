import RdfQuery.Decimal.Nearest
import RdfQuery.Decimal.Numeral
import RdfQuery.Json.Basic

/-!
# JSON numbers

A number without a point, an exponent or a sign is natural if it has at most 64
bits. Any other is only told to be a number: its first digits that fit 64 bits
count, and it has to be in the range of the doubles.
-/

set_option autoImplicit false

namespace RdfQuery.Json

inductive Number where
  | natural (n : Nat)
  | other
  deriving DecidableEq, Repr

/-- The number `significand * 10 ^ exponent`. -/
structure Scaled where
  significand : Nat
  exponent : Int
  deriving DecidableEq, Repr

/-- One more digit, unless the significand would outgrow 64 bits. -/
def extended? (significand : Nat) (digit : Char) : Option Nat :=
  let n := 10 * significand + (digit.toNat - '0'.toNat)
  if n < Nat.pow 2 64 then some n else none

/-- Digits before a point: from the first that does not fit on they count as zeros. -/
def wholePart (significand : Nat) : List Char → Scaled
  | [] => ⟨significand, 0⟩
  | digit :: digits =>
    match extended? significand digit with
    | some n => wholePart n digits
    | none => ⟨significand, digits.length + 1⟩

/-- Digits after a point: from the first that does not fit on they are dropped. -/
def Scaled.withDecimals (s : Scaled) : List Char → Scaled
  | [] => s
  | digit :: digits =>
    match extended? s.significand digit with
    | some n => Scaled.withDecimals ⟨n, s.exponent - 1⟩ digits
    | none => s

/-- The significand and the power of ten are doubles, and so is their product: each is rounded. -/
def Scaled.overflows (s : Scaled) : Bool :=
  if s.significand = 0 || s.exponent < 0 then false
  else if 308 < s.exponent then true
  else
    let power := Decimal.nearest (Nat.pow 10 s.exponent.toNat)
    Decimal.isInfinite (Decimal.nearest (Decimal.nearest s.significand * power))

def inRange (s : Scaled) (rest : List Char) : Except Fault (Number × List Char) :=
  if s.overflows then .error .malformed else .ok (.other, rest)

/-- At least one digit. -/
def someDigits (cs : List Char) : Except Fault (List Char × List Char) :=
  match cs.takeWhile Char.isDigit with
  | [] => if cs.isEmpty then .error .ended else .error .malformed
  | digits => .ok (digits, cs.dropWhile Char.isDigit)

def afterSign : List Char → Bool × List Char
  | [] => (false, [])
  | c :: rest => if c = '-' then (true, rest) else (false, if c = '+' then rest else c :: rest)

/-- The exponent after its letter. -/
def exponent (s : Scaled) (cs : List Char) : Except Fault (Number × List Char) := do
  let (negative, rest) := afterSign cs
  let (power, rest) ← someDigits rest
  let e : Int := Decimal.digitsValue power
  inRange ⟨s.significand, if negative then s.exponent - e else s.exponent + e⟩ rest

def isExponentMark (c : Char) : Bool := c = 'e' || c = 'E'

/-- The digits after the point. -/
def decimals (s : Scaled) (cs : List Char) : Except Fault (Number × List Char) := do
  let (part, rest) ← someDigits cs
  let s := s.withDecimals part
  match rest with
  | c :: after => if isExponentMark c then exponent s after else inRange s rest
  | [] => inRange s []

def afterWhole (negative : Bool) (s : Scaled) (cs : List Char) :
    Except Fault (Number × List Char) :=
  let integer : Except Fault (Number × List Char) :=
    if negative || s.exponent ≠ 0 then inRange s cs else .ok (.natural s.significand, cs)
  match cs with
  | [] => integer
  | c :: rest =>
    if c = '.' then decimals s rest
    else if isExponentMark c then exponent s rest
    else integer

/-- A number after its sign. A leading zero stands alone. -/
def number (negative : Bool) (cs : List Char) : Except Fault (Number × List Char) :=
  match cs with
  | [] => .error .ended
  | c :: rest =>
    if c = '0' then
      if (rest.head?.map Char.isDigit).getD false then .error .malformed
      else afterWhole negative ⟨0, 0⟩ rest
    else if c.isDigit then
      afterWhole negative (wholePart 0 (cs.takeWhile Char.isDigit)) (cs.dropWhile Char.isDigit)
    else .error .malformed

/-- A number that is passed over; an early end is no number. -/
def passNumber (cs : List Char) : Except Fault (List Char) :=
  let digits (cs : List Char) : Except Fault (List Char) :=
    if (cs.head?.map Char.isDigit).getD false then .ok (cs.dropWhile Char.isDigit)
    else .error .malformed
  let power (cs : List Char) : Except Fault (List Char) :=
    match cs with
    | c :: rest => if isExponentMark c then digits (afterSign rest).2 else .ok (c :: rest)
    | [] => .ok []
  let part (cs : List Char) : Except Fault (List Char) :=
    match cs with
    | '.' :: rest => do power (← digits rest)
    | cs => power cs
  match cs with
  | '0' :: rest =>
    if (rest.head?.map Char.isDigit).getD false then .error .malformed else part rest
  | cs => do part (← digits cs)

end RdfQuery.Json
