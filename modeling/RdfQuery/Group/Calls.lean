import RdfQuery.Group.Basic

/-!
# Building groups by calls

A group is written down as the list of calls that build it. The first error
of a nested group is kept by the group around it until the query is compiled.
-/

set_option autoImplicit false

namespace RdfQuery

inductive GroupCall where
  | tree (t : Tree)
  | filter (e : Expr)
  | nested (calls : List GroupCall)
  | optional (calls : List GroupCall)
  | union (sides : List (List GroupCall))

def GroupCall.pattern (p : TriplePattern) : GroupCall := .tree (.pattern p)

/-- A group in the making, with the first error met. -/
structure GroupDraft where
  group : Group
  error? : Option BuildError

namespace GroupDraft

def start (optional : Bool) : GroupDraft := ⟨Group.start optional, none⟩

def startUnion : GroupDraft := ⟨Group.startUnion, none⟩

def record (d : GroupDraft) (e : BuildError) : GroupDraft :=
  { d with error? := d.error?.or (some e) }

def finish (d : GroupDraft) : Except BuildError Group :=
  match d.error? with
  | some e => .error e
  | none => .ok d.group

def attach (d : GroupDraft) (child : Except BuildError Group) : GroupDraft :=
  match child with
  | .error e => d.record e
  | .ok g =>
    match d.group.addChild g with
    | .error e => d.record e
    | .ok group => { d with group := group }

mutual

def call : GroupDraft → GroupCall → GroupDraft
  | d, .tree t => { d with group := d.group.addTree t }
  | d, .filter e => { d with group := d.group.addFilter e }
  | d, .nested calls => d.attach (callAll (start false) calls).finish
  | d, .optional calls => d.attach (callAll (start true) calls).finish
  | d, .union sides => d.attach (sideAll startUnion sides).finish

def callAll : GroupDraft → List GroupCall → GroupDraft
  | d, [] => d
  | d, c :: cs => callAll (call d c) cs

def sideAll : GroupDraft → List (List GroupCall) → GroupDraft
  | d, [] => d
  | d, side :: sides => sideAll (d.attach (callAll (start false) side).finish) sides

end

end GroupDraft

def Group.build (calls : List GroupCall) : Except BuildError Group :=
  (GroupDraft.callAll (GroupDraft.start false) calls).finish

end RdfQuery
