import RdfQuery.Json.Basic

/-!
# JSON strings

A string is read with its escapes, or only passed over. A code point beyond
four hexadecimal digits is escaped as two surrogates.
-/

set_option autoImplicit false

namespace RdfQuery.Json

def hexValue? (c : Char) : Option Nat :=
  if '0' ≤ c && c ≤ '9' then some (c.toNat - 48)
  else if 'a' ≤ c && c ≤ 'f' then some (c.toNat - 87)
  else if 'A' ≤ c && c ≤ 'F' then some (c.toNat - 55)
  else none

def hexOf? : List Char → Option Nat
  | [a, b, c, d] => do
    let a ← hexValue? a
    let b ← hexValue? b
    let c ← hexValue? c
    let d ← hexValue? d
    some (((a * 16 + b) * 16 + c) * 16 + d)
  | _ => none

def byteLength (cs : List Char) : Nat := cs.foldl (fun n c => n + c.utf8Size) 0

/-- Four hexadecimal digits. Fewer than four bytes before the end count as an early end. -/
def fourHex (cs : List Char) : Except Fault (Nat × List Char) :=
  if byteLength (cs.take 4) < 4 then .error .ended
  else match hexOf? (cs.take 4) with
    | some n => .ok (n, cs.drop 4)
    | none => .error .malformed

def isLeading (n : Nat) : Bool := 0xD800 ≤ n && n ≤ 0xDBFF
def isTrailing (n : Nat) : Bool := 0xDC00 ≤ n && n ≤ 0xDFFF

/-- The rest of a `\u` escape: one code point, or two surrogates that make one. -/
def unicodeEscape (cs : List Char) : Except Fault (Char × List Char) := do
  let (n, rest) ← fourHex cs
  if isTrailing n then .error .malformed
  else if isLeading n then
    match rest with
    | [] => .error .ended
    | c :: rest =>
      if c ≠ '\\' then .error .malformed
      else match rest with
        | [] => .error .ended
        | d :: rest =>
          if d ≠ 'u' then .error .malformed
          else do
            let (m, rest) ← fourHex rest
            if isTrailing m then
              .ok (Char.ofNat (0x10000 + (n - 0xD800) * 0x400 + (m - 0xDC00)), rest)
            else .error .malformed
  else .ok (Char.ofNat n, rest)

def simpleEscape? (c : Char) : Option Char :=
  if c = '"' || c = '\\' || c = '/' then some c
  else if c = 'b' then some (Char.ofNat 0x08)
  else if c = 'f' then some (Char.ofNat 0x0C)
  else if c = 'n' then some '\n'
  else if c = 'r' then some '\r'
  else if c = 't' then some '\t'
  else none

def escape : List Char → Except Fault (Char × List Char)
  | [] => .error .ended
  | c :: rest =>
    if c = 'u' then unicodeEscape rest
    else match simpleEscape? c with
      | some d => .ok (d, rest)
      | none => .error .malformed

def isControl (c : Char) : Bool := c.toNat < 0x20

/-- The rest of a string after its opening quote; `fuel` bounds its length. -/
def stringFrom : (fuel : Nat) → List Char → Except Fault (List Char × List Char)
  | 0, _ => .error .ended
  | _ + 1, [] => .error .ended
  | fuel + 1, c :: rest =>
    if c = '"' then .ok ([], rest)
    else if isControl c then .error .malformed
    else if c = '\\' then do
      let (d, rest) ← escape rest
      let (more, rest) ← stringFrom fuel rest
      .ok (d :: more, rest)
    else do
      let (more, rest) ← stringFrom fuel rest
      .ok (c :: more, rest)

def string (cs : List Char) : Except Fault (String × List Char) := do
  let (text, rest) ← stringFrom (cs.length + 1) cs
  .ok (String.ofList text, rest)

/-- A string that is passed over: its surrogates need not be paired. -/
def passString : (fuel : Nat) → List Char → Except Fault (List Char)
  | 0, _ => .error .ended
  | _ + 1, [] => .error .ended
  | fuel + 1, c :: rest =>
    if c = '"' then .ok rest
    else if isControl c then .error .malformed
    else if c = '\\' then
      match rest with
      | [] => .error .ended
      | d :: rest =>
        if d = 'u' then do
          let (_, rest) ← fourHex rest
          passString fuel rest
        else if (simpleEscape? d).isSome then passString fuel rest
        else .error .malformed
    else passString fuel rest

end RdfQuery.Json
