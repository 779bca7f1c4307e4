import RdfQuery.Constant.NTriples

/-!
# Terms and triple patterns

A position of a triple pattern is a variable or a constant. A pattern may
name the graph it is matched in; without one it is matched in the default graph.
-/

set_option autoImplicit false

namespace RdfQuery

/-- An anonymous variable was made by the library and not named by a user. -/
structure Variable where
  name : String
  anonymous : Bool
  deriving DecidableEq

def Variable.user (name : String) : Variable := ⟨name, false⟩
def Variable.fresh (name : String) : Variable := ⟨name, true⟩

inductive Term where
  | var (v : Variable)
  | const (c : Constant)
  deriving DecidableEq

namespace Term

def constant? : Term → Option Constant
  | .var _ => none
  | .const c => some c

/-- Equal constants, or variables of one name: the two name the same graph. -/
def sameGraph : Term → Term → Bool
  | .const a, .const b => a = b
  | .var v, .var w => v.name = w.name
  | _, _ => false

def display : Term → String
  | .var v => "?" ++ v.name
  | .const c => NTriples.constant c

theorem sameGraph_refl (t : Term) : t.sameGraph t = true := by
  cases t <;> simp [sameGraph]

theorem sameGraph_comm (a b : Term) : a.sameGraph b = b.sameGraph a := by
  cases a <;> cases b <;> simp [sameGraph, eq_comm]

theorem sameGraph_trans {a b c : Term} (hab : a.sameGraph b = true) (hbc : b.sameGraph c = true) :
    a.sameGraph c = true := by
  cases a <;> cases b <;> cases c <;> simp_all [sameGraph]

end Term

inductive Scope where
  | defaultGraph
  | namedGraphs
  deriving DecidableEq, Repr

structure TriplePattern where
  subject : Term
  predicate : Term
  object : Term
  graph : Option Term
  deriving DecidableEq

namespace TriplePattern

def scope (p : TriplePattern) : Scope := if p.graph.isSome then .namedGraphs else .defaultGraph

def terms (p : TriplePattern) : List Term := [p.subject, p.predicate, p.object] ++ p.graph.toList

def display (p : TriplePattern) : String :=
  p.subject.display ++ " " ++ p.predicate.display ++ " " ++ p.object.display ++
    match p.graph with
    | some g => " [" ++ g.display ++ "]"
    | none => ""

end TriplePattern

end RdfQuery
