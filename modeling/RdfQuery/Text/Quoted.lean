/-!
# Quoted text

Between quotes, a quote and a backslash follow a backslash, common controls
have letters, and other controls are written by their code.
-/

set_option autoImplicit false

namespace RdfQuery.Text

/-- A digit below sixteen; `ten` is the code of the digit for ten. -/
def hexDigit (ten : Nat) (n : Nat) : Char :=
  if n < 10 then Char.ofNat ('0'.toNat + n) else Char.ofNat (ten + (n - 10))

/-- What a format leaves to choose: its digit for ten and the controls that have no letter. -/
structure Quoting where
  ten : Char
  isControl : Char → Bool

namespace Quoting

def escape (q : Quoting) (c : Char) : List Char :=
  if c = '"' then ['\\', '"']
  else if c = '\\' then ['\\', '\\']
  else if c = '\n' then ['\\', 'n']
  else if c = '\r' then ['\\', 'r']
  else if c = '\t' then ['\\', 't']
  else if c.toNat = 0x08 then ['\\', 'b']
  else if c.toNat = 0x0C then ['\\', 'f']
  else if q.isControl c then
    ['\\', 'u', '0', '0', hexDigit q.ten.toNat (c.toNat / 16), hexDigit q.ten.toNat (c.toNat % 16)]
  else [c]

def quoted (q : Quoting) (value : String) : String :=
  String.ofList ('"' :: (value.toList.flatMap q.escape ++ ['"']))

end Quoting

end RdfQuery.Text
