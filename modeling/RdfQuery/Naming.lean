import RdfQuery.Style.Basic
import RdfQuery.Tree.Basic

/-!
# Names of constants in queries

A constant is written in N-Triples form, or, where the style compacts IRIs,
with a prefixed name for each IRI that has one. The prefixes a query has to
declare are those its IRIs are compacted with.
-/

set_option autoImplicit false

namespace RdfQuery

/-- The table names are taken from; without one nothing is compacted. -/
structure Naming where
  table? : Option PrefixTable

namespace Naming

def ofStyle (s : Style) : Naming := ⟨if s.compactIris then some s.prefixTable else none⟩

def iri (n : Naming) (i : Iri) : String :=
  match n.table? with
  | none => NTriples.iri i
  | some table => (table.compact i.text).getD (NTriples.iri i)

def literal (n : Naming) : Literal → String
  | .typed value datatype _ => NTriples.quoted value ++ "^^" ++ n.iri datatype
  | l => NTriples.literal l

def constant (n : Naming) : Constant → String
  | .iri i => n.iri i
  | .blank label => NTriples.constant (.blank label)
  | .literal l => n.literal l

end Naming

/-! ## The IRIs that are written -/

def Constant.iris : Constant → List Iri
  | .iri i => [i]
  | .literal (.typed _ datatype _) => [datatype]
  | _ => []

def Term.iris : Term → List Iri
  | .var _ => []
  | .const c => c.iris

namespace Expr

def ownIris : Expr → List Iri
  | .const c => c.iris
  | .call name _ => [name]
  | _ => []

def iris (e : Expr) : List Iri := e.walk.flatMap ownIris

end Expr

namespace Tree

def ownIris : Tree → List Iri
  | .pattern p => p.terms.flatMap Term.iris
  | t => t.ownExprs.flatMap Expr.iris

def iris (t : Tree) : List Iri := t.subtrees.flatMap ownIris

end Tree

/-- The entries of the table that the IRIs are compacted with, in the table's order. -/
def Naming.declarations (n : Naming) (iris : List Iri) : List (String × String) :=
  match n.table? with
  | none => []
  | some table =>
    let used := iris.filterMap fun i => (table.namespaceFor i.text).map Prod.fst
    table.entries.filter fun e => used.contains e.1

end RdfQuery
