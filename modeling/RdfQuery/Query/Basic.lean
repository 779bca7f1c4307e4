import RdfQuery.Query.Describe

/-!
# Queries

A query is a tree with the form of its answer and the graphs it is asked of.
-/

set_option autoImplicit false

namespace RdfQuery

inductive QueryKind where
  | select
  | construct
  | ask
  | describe (targets : List Term)

def QueryKind.name : QueryKind → String
  | .select => "select"
  | .construct => "construct"
  | .ask => "ask"
  | .describe _ => "describe"

structure Dataset where
  defaultGraphs : List Iri
  namedGraphs : List Iri

namespace Dataset

def none : Dataset := ⟨[], []⟩

def isEmpty (d : Dataset) : Bool := d.defaultGraphs.isEmpty && d.namedGraphs.isEmpty

def graphs (d : Dataset) : List Iri := d.defaultGraphs ++ d.namedGraphs

end Dataset

structure Query where
  kind : QueryKind
  tree : Tree
  dataset : Dataset

namespace Query

def setSlice (q : Query) (limit offset : Option Nat) : Except AmendError (SliceChange × Query) :=
  match q.tree.setSlice limit offset with
  | .ok (change, tree) => .ok (change, { q with tree := tree })
  | .error e => .error e

/-- A describe query with targets becomes a construct query; any other is left as it is. -/
def describedByConstruct (q : Query) (scope : Scope) : Bool × Query :=
  match q.kind with
  | .describe targets =>
    match q.tree.describe targets scope with
    | .ok tree => (true, { q with kind := .construct, tree := tree })
    | .error _ => (false, q)
  | _ => (false, q)

end Query

end RdfQuery
