import RdfQuery.Iri.Address

/-!
# The grammar of absolute IRIs

`Grammar.fault?` reads a text from left to right and gives the first thing
that keeps it from being an absolute IRI, if there is one.
-/

set_option autoImplicit false

namespace RdfQuery.Iri

inductive Fault where
  | noScheme
  | percentEncoding (found : List Char)
  | codePoint (c : Char)
  | hostCharacter (c : Char)
  | hostAddress
  | character (c : Char)
  deriving DecidableEq, Repr

def Fault.message : Fault → String
  | .noScheme => "No scheme found in an absolute IRI"
  | .percentEncoding found => "Invalid IRI percent encoding '%" ++ String.ofList found ++ "'"
  | .codePoint c => "Invalid IRI code point '" ++ String.singleton c ++ "'"
  | .hostCharacter c => "Invalid character '" ++ String.singleton c ++ "' in host"
  | .hostAddress => "Invalid host IP (invalid IPv6 address syntax)"
  | .character c => "Invalid character '" ++ String.singleton c ++ "'"

namespace Grammar

def isBetween (c : Char) (low high : Nat) : Bool := low ≤ c.toNat && c.toNat ≤ high

def isPunctuation (c : Char) : Bool :=
  ['!', '$', '&', '\x27', '(', ')', '*', '+', ',', '-', '.', ';', '=', '_', '~'].contains c

/-- Code points of planes 1 to 13 are allowed up to the last two of a plane. -/
def isSupplementary (c : Char) : Bool :=
  isBetween c 0x10000 0xDFFFF && c.toNat % 0x10000 ≤ 0xFFFD

def isUnreserved (c : Char) : Bool :=
  c.isAlphanum || isPunctuation c || isBetween c 0xA0 0xD7FF || isBetween c 0xF900 0xFDCF
    || isBetween c 0xFDF0 0xFFEF || isSupplementary c || isBetween c 0xE1000 0xEFFFD

def isPrivate (c : Char) : Bool :=
  isBetween c 0xE000 0xF8FF || isBetween c 0xF0000 0xFFFFD || isBetween c 0x100000 0x10FFFD

def inAuthority (c : Char) : Bool := isUnreserved c || c = ':'
def inPath (c : Char) : Bool := isUnreserved c || [':', '@', '/'].contains c
def inFirstSegment (c : Char) : Bool := isUnreserved c || c = '@'
def inFragment (c : Char) : Bool := isUnreserved c || [':', '@', '/', '?'].contains c
def inQuery (c : Char) : Bool := inFragment c || isPrivate c

def endsHost (c : Char) : Bool := ['/', '?', '#'].contains c

/-- Reads allowed characters and percent escapes up to a stop, which begins the rest. -/
def scan (allowed stop : Char → Bool) : List Char → Except Fault (List Char)
  | [] => .ok []
  | c :: rest =>
    if stop c then .ok (c :: rest)
    else if allowed c then scan allowed stop rest
    else if c = '%' then
      match rest with
      | x :: y :: rest' =>
        if Address.isHexDigit x && Address.isHexDigit y then scan allowed stop rest'
        else .error (.percentEncoding [x, y])
      | short => .error (.percentEncoding short)
    else .error (.codePoint c)

def fragment (cs : List Char) : Except Fault Unit := do
  discard (scan inFragment (fun _ => false) cs)

def query (cs : List Char) : Except Fault Unit := do
  match ← scan inQuery (· = '#') cs with
  | _ :: rest => fragment rest
  | [] => .ok ()

def path (cs : List Char) : Except Fault Unit := do
  match ← scan inPath ['?', '#'].contains cs with
  | '?' :: rest => query rest
  | _ :: rest => fragment rest
  | [] => .ok ()

def portDigits (cs : List Char) : Except Fault Unit :=
  match cs.dropWhile Char.isDigit with
  | [] => .ok ()
  | c :: rest => if endsHost c then path (c :: rest) else .error (.character c)

/-- An address of a version to come: the version's hexadecimal digits, a dot, then the address. -/
def laterAddress (cs : List Char) : Except Fault Unit :=
  match cs.dropWhile Address.isHexDigit with
  | [] => .error (.hostCharacter ']')
  | c :: rest =>
    if c ≠ '.' then .error (.hostCharacter c)
    else match rest with
      | [] => .error (.hostCharacter ']')
      | d :: _ =>
        if (cs.takeWhile Address.isHexDigit).isEmpty then .error (.hostCharacter d)
        else match rest.find? fun e => !(e.isAlphanum || isPunctuation e || e = ':') with
          | some e => .error (.hostCharacter e)
          | none => .ok ()

def bracketed (inside : List Char) : Except Fault Unit :=
  match inside with
  | 'v' :: rest => laterAddress rest
  | 'V' :: rest => laterAddress rest
  | _ => if Address.accepts inside then .ok () else .error .hostAddress

def afterBracket : List Char → Except Fault Unit
  | [] => .ok ()
  | ':' :: rest => portDigits rest
  | c :: rest => if endsHost c then path (c :: rest) else .error (.hostCharacter c)

def host (cs : List Char) : Except Fault Unit :=
  match cs with
  | '[' :: rest =>
    match rest.dropWhile (· ≠ ']') with
    | [] => .error (.hostCharacter '[')
    | _ :: after => do
      bracketed (rest.takeWhile (· ≠ ']'))
      afterBracket after
  | _ => do
    match ← scan isUnreserved (fun c => c = ':' || endsHost c) cs with
    | ':' :: rest => portDigits rest
    | rest => path rest

/-- User information is read up to `@`; without one the host starts at once. -/
def authority (cs : List Char) : Except Fault Unit := do
  match ← scan inAuthority (fun c => c = '@' || c = '[' || endsHost c) cs with
  | '@' :: rest => host rest
  | _ => host cs

def afterScheme : List Char → Except Fault Unit
  | '/' :: '/' :: rest => authority rest
  | cs => path cs

def relative : List Char → Except Fault Unit
  | '/' :: '/' :: rest => authority rest
  | '/' :: rest => path ('/' :: rest)
  | cs => do path (← scan inFirstSegment endsHost cs)

def isSchemeChar (c : Char) : Bool := c.isAlphanum || c = '+' || c = '.' || c = '-'

def scheme? : List Char → Option (List Char)
  | c :: rest =>
    if c.isAlpha then
      match rest.dropWhile isSchemeChar with
      | ':' :: after => some after
      | _ => none
    else none
  | [] => none

def absolute (cs : List Char) : Except Fault Unit :=
  match cs with
  | ':' :: _ => .error .noScheme
  | _ =>
    match scheme? cs with
    | some after => afterScheme after
    | none => do
      relative cs
      .error .noScheme

def fault? (cs : List Char) : Option Fault :=
  match absolute cs with
  | .ok _ => none
  | .error f => some f

end Grammar

end RdfQuery.Iri
