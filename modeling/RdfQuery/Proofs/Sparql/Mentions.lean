import RdfQuery.Proofs.Location
import RdfQuery.Proofs.Sparql.Pieces

/-!
# Variables that SPARQL documents mention

The names that are written in a document as names of variables: in its head, in the
lines of its where-block, in its bindings and in its sort keys. The where-block of
a tree mentions no variable that the tree does not have.
-/

set_option autoImplicit false

namespace RdfQuery

def Variable.names (vs : List Variable) : List String := vs.map Variable.name

theorem Variable.names_append (vs ws : List Variable) :
    names (vs ++ ws) = names vs ++ names ws :=
  List.map_append

def SelectItem.names : SelectItem → List String
  | .plain name => [name]
  | .renamed source target => [source, target]
  | .computed _ e target => Variable.names e.variables ++ [target]

def TemplateTerm.names : TemplateTerm → List String
  | .name source => [source]
  | .constant _ _ => []

namespace Tree

theorem variables_of_mem_patterns {t : Tree} {p : TriplePattern} (hp : p ∈ t.patterns) {u : Term}
    (hu : u ∈ p.terms) : u.variables ⊆ t.variables := by
  intro v hv
  refine List.mem_flatMap.2 ⟨.pattern p, pattern_mem_subtrees hp, ?_⟩
  exact List.mem_flatMap.2 ⟨u, hu, hv⟩

theorem variables_of_mem_conditions {t : Tree} {e : Expr} (h : e ∈ t.conditions) :
    e.variables ⊆ t.variables := by
  intro v hv
  obtain ⟨u, hu, he⟩ := exists_node_of_mem_conditions h
  have hown : v ∈ u.ownVariables := by
    cases u with
    | pattern p => cases he
    | _ => exact List.mem_flatMap.2 ⟨e, he, hv⟩
  exact List.mem_flatMap.2 ⟨u, hu, hown⟩

end Tree

namespace Sparql

def Line.variables : Line → List Variable
  | .triple subject predicate object =>
    subject.variables ++ predicate.variables ++ object.variables
  | .filter condition => condition.variables
  | .graph name => name.variables
  | .sign _ => []

def Form.names : Form → List String
  | .ask => []
  | .describe targets => Variable.names (targets.flatMap Term.variables)
  | .select _ items => items.flatMap SelectItem.names
  | .construct templates => (templates.flatMap Template.terms).flatMap TemplateTerm.names

def Block.names (b : Block) : List String :=
  Variable.names ((bodyLines 1 b.elements).flatMap fun l => l.2.variables) ++
    b.bindings.flatMap fun b => Variable.names b.2.variables ++ [b.1]

def Document.names (d : Document) : List String :=
  d.form.names ++ (d.block.toList.flatMap Block.names ++
    Variable.names (d.footer.order.flatMap fun k => k.expr.variables))

/-- Of the graphs that are entered, too, each is the graph of a pattern of the tree. -/
theorem blocks_variables (t : Tree) :
    EachLine (fun l => l.variables ⊆ t.variables) (blocks t (GraphMap.collect t)) := by
  refine blocks_eachLine (fun s => List.nil_subset _) ?_ ?_ ?_
  · intro g hg
    obtain ⟨p, hp, hpg⟩ := GraphMap.exists_pattern_of_mem_graphs hg
    exact Tree.variables_of_mem_patterns hp (by simp [TriplePattern.terms, hpg])
  · intro p hp
    have hterms {u : Term} (hu : u ∈ p.terms) := Tree.variables_of_mem_patterns hp hu
    exact List.append_subset.2 ⟨List.append_subset.2 ⟨hterms (by simp [TriplePattern.terms]),
      hterms (by simp [TriplePattern.terms])⟩, hterms (by simp [TriplePattern.terms])⟩
  · exact fun e he => Tree.variables_of_mem_conditions he

theorem names_block {t : Tree} {es : List Element}
    (h : elements t (GraphMap.collect t) = .ok es) :
    (⟨es, []⟩ : Block).names ⊆ Variable.names t.variables := by
  rw [elements_eq_blocks h]
  intro name hname
  simp only [Block.names, List.flatMap_nil, List.append_nil] at hname
  obtain ⟨v, hv, rfl⟩ := List.mem_map.1 hname
  obtain ⟨l, hl, hv⟩ := List.mem_flatMap.1 hv
  exact List.mem_map_of_mem (blocks_variables t 1 l hl hv)

end Sparql

end RdfQuery
