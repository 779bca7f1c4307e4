import RdfQuery.Json.Number
import RdfQuery.Json.Text

/-!
# JSON values

A value is passed over whatever its shape, or read as the shape that is asked
for. One of another shape is read far enough to tell a mismatch from a text
that is no JSON.
-/

set_option autoImplicit false

namespace RdfQuery.Json

/-! ## Values that are passed over -/

inductive Bracket where
  | array
  | object
  deriving DecidableEq, Repr

def Bracket.close : Bracket → Char
  | .array => ']'
  | .object => '}'

/-- Where the reader stands: before a value or a key, or after an opening bracket or a value. -/
inductive Place where
  | value
  | key
  | opened
  | after
  deriving DecidableEq, Repr

def Bracket.next : Bracket → Place
  | .array => .value
  | .object => .key

/-- One value is passed over; `brackets` lists those around it, the innermost first. -/
def passFrom : (fuel : Nat) → Place → (brackets : List Bracket) → List Char →
    Except Fault (List Char)
  | 0, _, _, _ => .error .ended
  | _ + 1, .after, [], cs => .ok cs
  | _ + 1, .opened, [], cs => .ok cs
  | fuel + 1, place, brackets, cs =>
    match skipBlanks cs with
    | [] => .error .ended
    | c :: rest =>
      match place, brackets with
      | .value, _ =>
        let done (read : Except Fault (List Char)) : Except Fault (List Char) := do
          passFrom fuel .after brackets (← read)
        if c = '[' then passFrom fuel .opened (.array :: brackets) rest
        else if c = '\x7b' then passFrom fuel .opened (.object :: brackets) rest
        else if c = '"' then done (passString (rest.length + 1) rest)
        else if c = '-' then done (passNumber rest)
        else if c.isDigit then done (passNumber (c :: rest))
        else if c = 'n' then done (keyword ['u', 'l', 'l'] rest)
        else if c = 't' then done (keyword ['r', 'u', 'e'] rest)
        else if c = 'f' then done (keyword ['a', 'l', 's', 'e'] rest)
        else .error .malformed
      | .key, _ =>
        if c = '"' then do
          let rest ← passString (rest.length + 1) rest
          match skipBlanks rest with
          | [] => .error .ended
          | d :: rest => if d = ':' then passFrom fuel .value brackets rest else .error .malformed
        else .error .malformed
      | .opened, bracket :: outer =>
        if c = bracket.close then passFrom fuel .after outer rest
        else passFrom fuel bracket.next brackets (c :: rest)
      | .after, bracket :: outer =>
        if c = bracket.close then passFrom fuel .after outer rest
        else if c = ',' then passFrom fuel bracket.next brackets rest
        else .error .malformed
      | .opened, [] => .ok cs
      | .after, [] => .ok cs

def pass (cs : List Char) : Except Fault (List Char) :=
  passFrom (2 * cs.length + 4) .value [] cs

/-! ## Values of a known shape -/

/-- The fault of a value that is not of the shape asked for: it is read far enough to tell
a mismatch from a text that is no JSON. -/
def refusal : List Char → Fault
  | [] => .ended
  | c :: rest =>
    let told {α : Type} (read : Except Fault α) : Fault :=
      match read with
      | .ok _ => .mismatch
      | .error fault => fault
    if c = '[' || c = '\x7b' then .mismatch
    else if c = '"' then told (string rest)
    else if c = '-' then told (number true rest)
    else if c.isDigit then told (number false (c :: rest))
    else if c = 'n' then told (keyword ['u', 'l', 'l'] rest)
    else if c = 't' then told (keyword ['r', 'u', 'e'] rest)
    else if c = 'f' then told (keyword ['a', 'l', 's', 'e'] rest)
    else .malformed

def natural (cs : List Char) : Except Fault (Nat × List Char) :=
  match skipBlanks cs with
  | [] => .error .ended
  | c :: rest =>
    if c.isDigit then do
      match ← number false (c :: rest) with
      | (.natural n, rest) => .ok (n, rest)
      | (.other, _) => .error .mismatch
    else .error (refusal (c :: rest))

def boolean (cs : List Char) : Except Fault (Bool × List Char) :=
  match skipBlanks cs with
  | [] => .error .ended
  | c :: rest =>
    if c = 't' then do .ok (true, ← keyword ['r', 'u', 'e'] rest)
    else if c = 'f' then do .ok (false, ← keyword ['a', 'l', 's', 'e'] rest)
    else .error (refusal (c :: rest))

def text (cs : List Char) : Except Fault (String × List Char) :=
  match skipBlanks cs with
  | [] => .error .ended
  | c :: rest => if c = '"' then string rest else .error (refusal (c :: rest))

def colon (cs : List Char) : Except Fault (List Char) :=
  match skipBlanks cs with
  | [] => .error .ended
  | c :: rest => if c = ':' then .ok rest else .error .malformed

/-- The members of an object after its opening brace; `member` reads a value and what separates
it from its key. -/
def membersFrom {σ : Type} (member : σ → String → List Char → Except Fault (σ × List Char)) :
    (fuel : Nat) → (first : Bool) → σ → List Char → Except Fault (σ × List Char)
  | 0, _, _, _ => .error .ended
  | fuel + 1, first, s, cs =>
    let keyed (cs : List Char) : Except Fault (σ × List Char) :=
      match cs with
      | [] => .error .ended
      | c :: rest =>
        if c = '"' then do
          let (key, rest) ← string rest
          let (s, rest) ← member s key rest
          membersFrom member fuel false s rest
        else .error .malformed
    match skipBlanks cs with
    | [] => .error .ended
    | c :: rest =>
      if c = '}' then .ok (s, rest)
      else if first then keyed (c :: rest)
      else if c = ',' then keyed (skipBlanks rest)
      else .error .malformed

def members {σ : Type} (member : σ → String → List Char → Except Fault (σ × List Char))
    (s : σ) (cs : List Char) : Except Fault (σ × List Char) :=
  membersFrom member (cs.length + 1) true s cs

/-- Whether an array goes on, and from where its next element is read. -/
def element? (first : Bool) (cs : List Char) : Except Fault (Option (List Char)) :=
  match skipBlanks cs with
  | [] => .error .ended
  | c :: rest =>
    if c = ']' then .ok none
    else if first then .ok (some (c :: rest))
    else if c = ',' then
      match skipBlanks rest with
      | [] => .error .ended
      | d :: rest => if d = ']' then .error .malformed else .ok (some (d :: rest))
    else .error .malformed

def closeArray (cs : List Char) : Except Fault (List Char) :=
  match skipBlanks cs with
  | [] => .error .ended
  | c :: rest => if c = ']' then .ok rest else .error .malformed

end RdfQuery.Json
