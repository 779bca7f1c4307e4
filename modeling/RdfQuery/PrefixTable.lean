import RdfQuery.OrderedMap

/-!
# Prefixes for namespaces

A table binds prefixes to namespace IRIs in the order of registration.
`expand` replaces a prefix by its namespace; `compact` goes the other way
through the longest namespace the IRI starts with.
-/

set_option autoImplicit false

namespace RdfQuery

abbrev PrefixTable := OrderedMap String String

inductive PrefixError where
  | unknown (name : String)
  | notPrefixed (text : String)
  deriving DecidableEq, Repr

def PrefixError.message : PrefixError → String
  | .unknown name => "Unknown prefix: " ++ name
  | .notPrefixed text => "Not a prefixed name: " ++ text

namespace PrefixTable

def wellKnown : PrefixTable := OrderedMap.ofList
  [("rdf", "http://www.w3.org/1999/02/22-rdf-syntax-ns#"),
    ("rdfs", "http://www.w3.org/2000/01/rdf-schema#"),
    ("xsd", "http://www.w3.org/2001/XMLSchema#"),
    ("owl", "http://www.w3.org/2002/07/owl#"),
    ("foaf", "http://xmlns.com/foaf/0.1/"),
    ("dc", "http://purl.org/dc/elements/1.1/"),
    ("dcterms", "http://purl.org/dc/terms/")]

/-- The name is split at its first colon. -/
def expand (t : PrefixTable) (name : String) : Except PrefixError String :=
  match name.toList.dropWhile (· ≠ ':') with
  | [] => .error (.notPrefixed name)
  | _ :: part =>
    let key := String.ofList (name.toList.takeWhile (· ≠ ':'))
    match t.get? key with
    | some ns => .ok (ns ++ String.ofList part)
    | none => .error (.unknown key)

def startsWord (c : Char) : Bool := c.isAlphanum || c = '_'

def isLocalName : List Char → Bool
  | [] => false
  | c :: rest => startsWord c && rest.all fun d => startsWord d || d = '-'

def covers (ns iri : String) : Bool := ns.toList.isPrefixOf iri.toList

/-- The longest namespace the IRI starts with, the last of several that are equally long. -/
def longest (iri : String) : List (String × String) → Option (String × String)
  | [] => none
  | (name, ns) :: rest =>
    match longest iri rest with
    | some found =>
      if covers ns iri && found.2.length < ns.length then some (name, ns) else some found
    | none => if covers ns iri then some (name, ns) else none

def remainder (ns iri : String) : List Char := iri.toList.drop ns.length

/-- A longest namespace whose remainder is no local name hides the shorter ones. -/
def namespaceFor (t : PrefixTable) (iri : String) : Option (String × String) :=
  match longest iri t.entries with
  | some (name, ns) => if isLocalName (remainder ns iri) then some (name, ns) else none
  | none => none

def compact (t : PrefixTable) (iri : String) : Option String :=
  match namespaceFor t iri with
  | some (name, ns) => some (name ++ ":" ++ String.ofList (remainder ns iri))
  | none => none

end PrefixTable

end RdfQuery
