import RdfQuery.Json.Reader
import RdfQuery.Style.Basic
import RdfQuery.Text.Quoted

/-!
# Styles as JSON text

A style is an object whose members may each be missing, or an array of the
same four values in order, of which the last ones may be missing. Members
that are not known are passed over; a known one may stand only once.
-/

set_option autoImplicit false

namespace RdfQuery.Style

open Json (Fault)

inductive Field where
  | indentWidth
  | compactIris
  | wellKnownPrefixes
  | prefixes
  deriving DecidableEq, Repr

def Field.name : Field → String
  | .indentWidth => "indent_width"
  | .compactIris => "compact_iris"
  | .wellKnownPrefixes => "default_prefixes"
  | .prefixes => "prefixes"

def Field.all : List Field := [.indentWidth, .compactIris, .wellKnownPrefixes, .prefixes]

def Field.named? (name : String) : Option Field := all.find? fun f => f.name = name

def readPrefix (m : OrderedMap String String) (name : String) (cs : List Char) :
    Except Fault (OrderedMap String String × List Char) := do
  let (ns, rest) ← Json.text (← Json.colon cs)
  .ok (m.insert name ns, rest)

def readPrefixes (cs : List Char) : Except Fault (OrderedMap String String × List Char) :=
  match Json.skipBlanks cs with
  | [] => .error .ended
  | c :: rest =>
    if c = '\x7b' then Json.members readPrefix OrderedMap.empty rest
    else .error (Json.refusal (c :: rest))

def readField (s : Style) (cs : List Char) : Field → Except Fault (Style × List Char)
  | .indentWidth => do
    let (n, rest) ← Json.natural cs
    .ok ({ s with indentWidth := n }, rest)
  | .compactIris => do
    let (b, rest) ← Json.boolean cs
    .ok ({ s with compactIris := b }, rest)
  | .wellKnownPrefixes => do
    let (b, rest) ← Json.boolean cs
    .ok ({ s with wellKnownPrefixes := b }, rest)
  | .prefixes => do
    let (m, rest) ← readPrefixes cs
    .ok ({ s with prefixes := m }, rest)

/-- A style in the making and the fields it was given. -/
structure Draft where
  style : Style
  given : List Field

def readMember (d : Draft) (name : String) (cs : List Char) :
    Except Fault (Draft × List Char) :=
  match Field.named? name with
  | none => do .ok (d, ← Json.pass (← Json.colon cs))
  | some f =>
    if d.given.contains f then .error .mismatch
    else do
      let (s, rest) ← readField d.style (← Json.colon cs) f
      .ok (⟨s, f :: d.given⟩, rest)

def readElements (s : Style) (first : Bool) : List Field → List Char →
    Except Fault (Style × List Char)
  | [], cs => .ok (s, cs)
  | f :: fields, cs => do
    match ← Json.element? first cs with
    | none => .ok (s, cs)
    | some cs =>
      let (s, rest) ← readField s cs f
      readElements s false fields rest

def readStyle (cs : List Char) : Except Fault (Style × List Char) :=
  match Json.skipBlanks cs with
  | [] => .error .ended
  | c :: rest =>
    if c = '\x7b' then do
      let (d, rest) ← Json.members readMember ⟨default, []⟩ rest
      .ok (d.style, rest)
    else if c = '[' then do
      let (s, rest) ← readElements default true Field.all rest
      .ok (s, ← Json.closeArray rest)
    else .error (Json.refusal (c :: rest))

def ofJson (text : String) : Except Fault Style := do
  let (s, rest) ← readStyle text.toList
  if (Json.skipBlanks rest).isEmpty then .ok s else .error .malformed

/-! ## Writing -/

def quoting : Text.Quoting := ⟨'a', fun c => c.toNat < 0x20⟩

def jsonString (s : String) : String := quoting.quoted s

def jsonMember (name value : String) : String := jsonString name ++ ":" ++ value

def jsonObject (members : List (String × String)) : String :=
  "\x7b" ++ Text.separated "," (members.map fun m => jsonMember m.1 m.2) ++ "\x7d"

def jsonBool (b : Bool) : String := if b then "true" else "false"

def toJson (s : Style) : String :=
  jsonObject
    [(Field.indentWidth.name, toString s.indentWidth),
      (Field.compactIris.name, jsonBool s.compactIris),
      (Field.wellKnownPrefixes.name, jsonBool s.wellKnownPrefixes),
      (Field.prefixes.name, jsonObject (s.prefixes.entries.map fun e => (e.1, jsonString e.2)))]

end RdfQuery.Style
