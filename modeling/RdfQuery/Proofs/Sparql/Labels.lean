import RdfQuery.Proofs.Sparql.Nesting

/-!
# Labels read as variables

A label in a pattern may be taken for a variable that no projection names. What
is read from a text is then the tree with variables in place of its labels. It
is nested as the tree is, so a nesting that keeps every tree to its scope keeps
their meaning under this reading as well.
-/

set_option autoImplicit false

namespace RdfQuery

/-- A label becomes the variable of the name that is given to it. -/
def Term.unlabelled (names : BlankLabel → String) : Term → Term
  | .const (.blank label) => .var (.fresh (names label))
  | t => t

def TriplePattern.unlabelled (names : BlankLabel → String) (p : TriplePattern) : TriplePattern where
  subject := p.subject.unlabelled names
  predicate := p.predicate.unlabelled names
  object := p.object.unlabelled names
  graph := p.graph.map (Term.unlabelled names)

/-- A label in a condition stays what it is. -/
def Tree.unlabelled (names : BlankLabel → String) : Tree → Tree
  | .unit => .unit
  | .pattern p => .pattern (p.unlabelled names)
  | .combine c left right => .combine c (left.unlabelled names) (right.unlabelled names)
  | .filter arg condition => .filter (arg.unlabelled names) condition
  | .modify m arg => .modify m (arg.unlabelled names)
  | .bare s => .bare s

namespace Sparql

variable {names : BlankLabel → String}

mutual

def Element.unlabelled (names : BlankLabel → String) : Element → Element
  | .triple subject predicate object =>
    .triple (subject.unlabelled names) (predicate.unlabelled names) (object.unlabelled names)
  | .filter condition => .filter condition
  | .optional body => .optional (unlabelledBody names body)
  | .minus body => .minus (unlabelledBody names body)
  | .union left right => .union (unlabelledBody names left) (unlabelledBody names right)
  | .graph name body => .graph (name.unlabelled names) (unlabelledBody names body)

def unlabelledBody (names : BlankLabel → String) : List Element → List Element
  | [] => []
  | e :: es => e.unlabelled names :: unlabelledBody names es

end

theorem unlabelledBody_eq_map (es : List Element) :
    unlabelledBody names es = es.map (Element.unlabelled names) := by
  induction es with
  | nil => rfl
  | cons e es ih => rw [unlabelledBody, ih, List.map_cons]

theorem unlabelledBody_append (xs ys : List Element) :
    unlabelledBody names (xs ++ ys) = unlabelledBody names xs ++ unlabelledBody names ys := by
  simp only [unlabelledBody_eq_map, List.map_append]

theorem unlabelledBody_filters (es : List Expr) :
    unlabelledBody names (es.map Element.filter) = es.map Element.filter := by
  rw [unlabelledBody_eq_map, List.map_map]
  exact List.map_congr_left fun _ _ => by rw [Function.comp, Element.unlabelled]

/-- The elements of a tree that enters no graph change in the places of its labels only. -/
theorem written_unlabelled (t : Tree) :
    written (t.unlabelled names) = unlabelledBody names (written t) := by
  induction t with
  | combine c left right ihl ihr =>
    cases c with
    | join =>
      show written (left.unlabelled names) ++ written (right.unlabelled names) =
        unlabelledBody names (written left ++ written right)
      rw [ihl, ihr, unlabelledBody_append]
    | leftJoin condition =>
      show written (left.unlabelled names) ++
          [.optional (written (right.unlabelled names) ++ condition.toList.map Element.filter)] =
        unlabelledBody names
          (written left ++ [.optional (written right ++ condition.toList.map Element.filter)])
      rw [ihl, ihr, unlabelledBody_append, unlabelledBody, Element.unlabelled,
        unlabelledBody_append, unlabelledBody_filters, unlabelledBody]
    | union =>
      show [Element.union (written (left.unlabelled names)) (written (right.unlabelled names))] =
        unlabelledBody names [.union (written left) (written right)]
      rw [ihl, ihr, unlabelledBody, Element.unlabelled, unlabelledBody]
    | difference =>
      show written (left.unlabelled names) ++ [.minus (written (right.unlabelled names))] =
        unlabelledBody names (written left ++ [.minus (written right)])
      rw [ihl, ihr, unlabelledBody_append, unlabelledBody, Element.unlabelled, unlabelledBody]
    | intersection => rfl
  | filter arg condition ih =>
    show written (arg.unlabelled names) ++ [.filter condition] =
      unlabelledBody names (written arg ++ [.filter condition])
    rw [ih, unlabelledBody_append, unlabelledBody, Element.unlabelled, unlabelledBody]
  | _ => rfl

theorem Nesting.Of.unlabelled {n : Nesting} {t : Tree} (h : n.Of t) :
    n.Of (t.unlabelled names) := by
  induction h with
  | pattern h => exact .pattern (congrArg (Option.map _) h)
  | join _ _ ihl ihr => exact .join ihl ihr
  | leftJoin hc _ _ ihl ihr => exact .leftJoin hc ihl ihr
  | union _ _ ihl ihr => exact .union ihl ihr
  | difference _ _ ihl ihr => exact .difference ihl ihr
  | filter _ ih => exact .filter ih

/-- A reader that takes labels for variables finds the solutions of the tree with variables in
place of its labels, whatever their names are. -/
theorem unlabelled_preserved (l : Library) (names : BlankLabel → String) {n : Nesting} {t : Tree}
    (h : n.Of t) (hkeeps : n.keeps false false = true ∨ (t.unlabelled names).Keeps [] [])
    (data : Finset Quad) :
    (grouped none (unlabelledBody names (written t))).solutions l data =
      (t.unlabelled names).solutions l data := by
  have hof : n.Of (t.unlabelled names) := h.unlabelled
  have hscope : (t.unlabelled names).Keeps [] [] := by
    rcases hkeeps with hkeeps | hkeeps
    · exact hof.tree_keeps hkeeps (fun _ => rfl) fun _ => rfl
    · exact hkeeps
  rw [← written_unlabelled]
  exact (says_of_keeps l data hof.graphless (List.Subset.refl []) hscope).grouped

end Sparql

end RdfQuery
