import RdfQuery.Query.Basic

/-!
# Amending a query in place

Once built, a query can be given bounds and, if it describes resources, be
turned into a construct query. Each call answers with what it did. A call that
is refused leaves the query as it is.
-/

set_option autoImplicit false

namespace RdfQuery

/-- Which bounds of the slice are written. -/
inductive SliceCall where
  | limit (n : Nat)
  | offset (n : Nat)
  | limitAndOffset (n m : Nat)
  deriving DecidableEq, Repr

namespace SliceCall

def limit? : SliceCall → Option Nat
  | .limit n => some n
  | .offset _ => none
  | .limitAndOffset n _ => some n

def offset? : SliceCall → Option Nat
  | .limit _ => none
  | .offset n => some n
  | .limitAndOffset _ m => some m

end SliceCall

inductive Amendment where
  | slice (c : SliceCall)
  | describe (scope : Scope)
  deriving DecidableEq, Repr

/-- What a call answers: how the slice was changed, or whether the query was rewritten. -/
inductive Answer where
  | slice (result : Except AmendError SliceChange)
  | describe (applied : Bool)

namespace Query

def write (q : Query) (c : SliceCall) : Except AmendError (SliceChange × Query) :=
  q.setSlice c.limit? c.offset?

def amend (q : Query) : Amendment → Answer × Query
  | .slice c =>
    match q.write c with
    | .ok (change, q') => (.slice (.ok change), q')
    | .error e => (.slice (.error e), q)
  | .describe scope =>
    let (applied, q') := q.describedByConstruct scope
    (.describe applied, q')

/-- The query after all calls. -/
def amendAll : Query → List Amendment → Query
  | q, [] => q
  | q, a :: rest => (q.amend a).2.amendAll rest

end Query

end RdfQuery
