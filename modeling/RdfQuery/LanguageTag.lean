/-!
# Language tags

A tag is a list of subtags between hyphens, read from left to right with a
state that says which subtags may follow. Tags are kept in lower case.
-/

set_option autoImplicit false

namespace RdfQuery

namespace LanguageTag

inductive Fault where
  | emptyExtension
  | emptyPrivateUse
  | invalidSubtag
  | invalidLanguage
  | subtagTooLong
  | emptySubtag
  | tooManyExtlangs
  deriving DecidableEq, Repr

def Fault.message : Fault → String
  | .emptyExtension => "If an extension subtag is present, it must not be empty"
  | .emptyPrivateUse => "If the `x` subtag is present, it must not be empty"
  | .invalidSubtag => "A subtag fails to parse, it does not match any other subtags"
  | .invalidLanguage => "The given language subtag is invalid"
  | .subtagTooLong => "A subtag may be eight characters in length at maximum"
  | .emptySubtag => "A subtag should not be empty"
  | .tooManyExtlangs => "At maximum three extlangs are allowed"

/-- Tags registered as wholes before subtags had meanings of their own. -/
def grandfathered : List String :=
  ["art-lojban", "cel-gaulish", "en-gb-oed", "i-ami", "i-bnn", "i-default", "i-enochian", "i-hak",
    "i-klingon", "i-lux", "i-mingo", "i-navajo", "i-pwn", "i-tao", "i-tay", "i-tsu", "no-bok",
    "no-nyn", "sgn-be-fr", "sgn-be-nl", "sgn-ch-de", "zh-guoyu", "zh-hakka", "zh-min", "zh-min-nan",
    "zh-xiang"]

def subtags : List Char → List (List Char)
  | [] => [[]]
  | c :: rest =>
    match subtags rest with
    | [] => [[c]]
    | first :: more => if c = '-' then [] :: first :: more else (c :: first) :: more

def byteLength (subtag : List Char) : Nat := subtag.foldl (fun n c => n + c.utf8Size) 0

def isWord (subtag : List Char) : Bool := subtag.all Char.isAlpha
def isNumber (subtag : List Char) : Bool := subtag.all Char.isDigit
def isMixed (subtag : List Char) : Bool := subtag.all Char.isAlphanum

/-- What has been read so far. `opened` tells a singleton that still lacks its subtag. -/
inductive State where
  | start
  | language (extlangs : Nat)
  | extlang
  | script
  | region
  | extension (opened : Bool)
  | privateUse (opened : Bool)
  deriving DecidableEq, Repr

def State.beforeScript : State → Bool
  | .language _ => true
  | .extlang => true
  | _ => false

def State.beforeRegion (state : State) : Bool := state.beforeScript || state = .script

def State.beforeVariant (state : State) : Bool := state.beforeRegion || state = .region

def isRegion (subtag : List Char) : Bool :=
  (byteLength subtag = 2 && isWord subtag) || (byteLength subtag = 3 && isNumber subtag)

def isVariant (subtag : List Char) : Bool :=
  isMixed subtag && match subtag.head? with
    | none => false
    | some c =>
      (5 ≤ byteLength subtag && c.isAlpha) || (4 ≤ byteLength subtag && c.isDigit)

def inLanguage (state : State) (subtag : List Char) : Except Fault State :=
  match state, byteLength subtag = 3 && isWord subtag with
  | .language extlangs, true =>
    if extlangs < 3 then .ok (.language (extlangs + 1)) else .error .tooManyExtlangs
  | state, _ =>
    if state.beforeScript && byteLength subtag = 4 && isWord subtag then .ok .script
    else if state.beforeRegion && isRegion subtag then .ok .region
    else if state.beforeVariant && isVariant subtag then .ok .region
    else .error .invalidSubtag

def singleton (state opened : State) : Except Fault State :=
  if state = .extension true then .error .emptyExtension else .ok opened

def step (state : State) (subtag : List Char) : Except Fault State :=
  if subtag.isEmpty then .error .emptySubtag
  else if 8 < byteLength subtag then .error .subtagTooLong
  else match state with
    | .start =>
      if byteLength subtag < 2 || !isWord subtag then .error .invalidLanguage
      else if byteLength subtag < 4 then .ok (.language 0) else .ok .extlang
    | .privateUse _ => if isMixed subtag then .ok (.privateUse false) else .error .invalidSubtag
    | state =>
      if subtag = ['x'] then singleton state (.privateUse true)
      else if byteLength subtag = 1 && isMixed subtag then singleton state (.extension true)
      else match state with
        | .extension _ => if isMixed subtag then .ok (.extension false) else .error .invalidSubtag
        | state => inLanguage state subtag

def run : State → List (List Char) → Except Fault State
  | state, [] => .ok state
  | state, subtag :: rest => do run (← step state subtag) rest

def privateSubtag (subtag : List Char) : Except Fault Unit :=
  if subtag.isEmpty then .error .emptySubtag
  else if 8 < byteLength subtag then .error .subtagTooLong
  else if isMixed subtag then .ok () else .error .invalidSubtag

def check (tag : String) : Except Fault Unit :=
  if grandfathered.contains tag then .ok ()
  else match tag.toList with
    | ['x', '-'] => .error .emptyPrivateUse
    | 'x' :: '-' :: rest => (subtags rest).forM privateSubtag
    | cs => do
      match ← run .start (subtags cs) with
      | .extension true => .error .emptyExtension
      | .privateUse true => .error .emptyPrivateUse
      | _ => .ok ()

def fault? (tag : String) : Option Fault :=
  match check tag with
  | .ok _ => none
  | .error fault => some fault

def lowered (tag : String) : String := String.ofList (tag.toList.map Char.toLower)

end LanguageTag

structure LanguageTag where
  text : String
  valid : LanguageTag.fault? text = none
  deriving DecidableEq

def LanguageTag.ofString (tag : String) : Except LanguageTag.Fault LanguageTag :=
  match h : fault? (lowered tag) with
  | some fault => .error fault
  | none => .ok ⟨lowered tag, h⟩

end RdfQuery
