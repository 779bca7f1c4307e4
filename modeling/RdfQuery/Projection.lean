/-!
# Projections

A column gives a binding an output name. Three columns whose output names are
subject, predicate and object form a statement template; nothing else tells a
projection that writes statements from one that writes rows.
-/

set_option autoImplicit false

namespace RdfQuery

inductive Position where
  | subject
  | predicate
  | object
  deriving DecidableEq, Repr

namespace Position

def name : Position → String
  | .subject => "subject"
  | .predicate => "predicate"
  | .object => "object"

/-- Names of positions are compared without regard to ASCII case. -/
def named? (name : String) : Option Position :=
  let lowered := String.ofList (name.toList.map Char.toLower)
  if lowered = "subject" then some .subject
  else if lowered = "predicate" then some .predicate
  else if lowered = "object" then some .object
  else none

end Position

structure Column where
  source : String
  target : String
  deriving DecidableEq, Repr

namespace Column

def same (name : String) : Column := ⟨name, name⟩

def position? (c : Column) : Option Position := Position.named? c.target

end Column

abbrev Columns := List Column

namespace Columns

def template (subject predicate object : String) : Columns :=
  [⟨subject, Position.subject.name⟩, ⟨predicate, Position.predicate.name⟩,
    ⟨object, Position.object.name⟩]

def isTemplate : Columns → Bool
  | [s, p, o] =>
    s.position? = some .subject && p.position? = some .predicate && o.position? = some .object
  | _ => false

def at? (columns : Columns) (position : Position) : Option Column :=
  columns.find? fun c => c.position? = some position

def sources (columns : Columns) : List String := columns.map Column.source

end Columns

/-- One list of columns, or any number of them. -/
inductive Selection where
  | single (columns : Columns)
  | several (lists : List Columns)
  deriving DecidableEq, Repr

def Selection.lists : Selection → List Columns
  | .single columns => [columns]
  | .several lists => lists

end RdfQuery
