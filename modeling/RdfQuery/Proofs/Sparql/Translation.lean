import RdfQuery.Proofs.Solution.Meaning
import RdfQuery.Proofs.Sparql.Block

/-!
# Groups read as algebra

The elements of a group are taken from left to right. Patterns and blocks are
joined to what stands before them, an optional part and a minus have it as
their left operand. The filters of a group apply to the whole group, or become
the condition of the left join when the group is an optional part.
-/

set_option autoImplicit false

namespace RdfQuery.Sparql

open scoped Classical

/-- The filters that stand directly in a group. -/
def conditions : List Element → List Expr
  | [] => []
  | .filter condition :: es => condition :: conditions es
  | _ :: es => conditions es

def conjunction? (es : List Expr) : Option Expr := Expr.joined? .and es

def filteredBy (t : Tree) (es : List Expr) : Tree := (conjunction? es).elim t (Tree.filter t)

mutual

/-- The tree of a group so far and its next element; `graph` is the graph block around them. -/
def Element.attach (graph : Option Term) (before : Tree) : Element → Tree
  | .triple subject predicate object => .join before (.pattern ⟨subject, predicate, object, graph⟩)
  | .filter _ => before
  | .optional body =>
    .leftJoin before (attachAll graph .unit body) (conjunction? (conditions body))
  | .minus body =>
    .combine .difference before (filteredBy (attachAll graph .unit body) (conditions body))
  | .union left right =>
    .join before (.union (filteredBy (attachAll graph .unit left) (conditions left))
      (filteredBy (attachAll graph .unit right) (conditions right)))
  | .graph name body =>
    .join before (filteredBy (attachAll (some name) .unit body) (conditions body))

def attachAll (graph : Option Term) (before : Tree) : List Element → Tree
  | [] => before
  | e :: es => attachAll graph (e.attach graph before) es

end

/-- The algebra tree of a group. -/
def grouped (graph : Option Term) (es : List Element) : Tree :=
  filteredBy (attachAll graph .unit es) (conditions es)

theorem conditions_append (xs ys : List Element) :
    conditions (xs ++ ys) = conditions xs ++ conditions ys := by
  induction xs with
  | nil => rfl
  | cons x xs ih =>
    cases x with
    | filter condition => rw [List.cons_append, conditions, ih, conditions, List.cons_append]
    | _ => exact ih

theorem conditions_filters (es : List Expr) : conditions (es.map Element.filter) = es := by
  induction es with
  | nil => rfl
  | cons e es ih => rw [List.map_cons, conditions, ih]

theorem holds_conjunction? {l : Library} {a : Solution} (es : List Expr) :
    Expr.AllHold l (conjunction? es).toList a ↔ Expr.AllHold l es a := by
  have hfold : ∀ (es : List Expr) (e : Expr),
      (es.foldl (Expr.operation .and) e).Holds l a ↔ Expr.AllHold l (e :: es) a := by
    intro es
    induction es with
    | nil => exact fun e => Expr.allHold_singleton.symm
    | cons d es ih =>
      intro e
      rw [List.foldl_cons, ih, Expr.AllHold, Expr.AllHold]
      simp only [List.forall_mem_cons, Expr.holds_and, and_assoc]
  cases es with
  | nil => exact Iff.rfl
  | cons e es => exact Expr.allHold_singleton.trans (hfold es e)

section

variable (l : Library) (data : Finset Quad)

theorem solutions_filteredBy (t : Tree) (es : List Expr) :
    (filteredBy t es).solutions l data = (t.solutions l data).filter (Expr.AllHold l es) := by
  have hconjunction := fun a => @holds_conjunction? l a es
  rw [filteredBy]
  cases hes : conjunction? es with
  | none =>
    rw [hes] at hconjunction
    refine (Multiset.filter_eq_self.2 ?_).symm
    exact fun a _ => (hconjunction a).1 (Expr.allHold_nil l a)
  | some e =>
    rw [hes] at hconjunction
    refine Multiset.filter_congr ?_
    exact fun a _ => Expr.allHold_singleton.symm.trans (hconjunction a)

/-! ## One solution at a time -/

/-- What an element makes of a solution of the elements before it. -/
noncomputable def Element.step (graph : Option Term) : Element → Solution → Multiset Solution
  | .triple subject predicate object => fun a =>
    ((Tree.pattern ⟨subject, predicate, object, graph⟩).solutions l data).bind a.pair
  | .filter _ => fun a => {a}
  | .optional body =>
    Solutions.extended (Expr.AllHold l (conditions body))
      ((attachAll graph .unit body).solutions l data)
  | .minus body => Solutions.remaining ((grouped graph body).solutions l data)
  | .union left right => fun a =>
    ((grouped graph left).solutions l data + (grouped graph right).solutions l data).bind a.pair
  | .graph name body => fun a => ((grouped (some name) body).solutions l data).bind a.pair

noncomputable def steps (graph : Option Term) : List Element → Solution → Multiset Solution
  | [], a => {a}
  | e :: es, a => (e.step l data graph a).bind (steps graph es)

theorem solutions_attach (graph : Option Term) (before : Tree) (e : Element) :
    (e.attach graph before).solutions l data =
      (before.solutions l data).bind (e.step l data graph) := by
  cases e with
  | filter condition => exact (Solutions.bind_self _).symm
  | optional body =>
    have hconditions : Expr.AllHold l (conjunction? (conditions body)).toList =
        Expr.AllHold l (conditions body) := funext fun a => propext (holds_conjunction? _)
    rw [Element.attach, Tree.leftJoin, Tree.solutions, hconditions, Solutions.leftJoin_eq_bind]
    rfl
  | minus body => exact Solutions.minus_eq_bind _ _
  | _ => rfl

theorem solutions_attachAll (graph : Option Term) (es : List Element) :
    ∀ before : Tree, (attachAll graph before es).solutions l data =
      (before.solutions l data).bind (steps l data graph es) := by
  induction es with
  | nil => exact fun before => (Solutions.bind_self _).symm
  | cons e es ih =>
    intro before
    rw [attachAll, ih, solutions_attach, Multiset.bind_assoc]
    rfl

theorem solutions_attach_unit (graph : Option Term) (es : List Element) :
    (attachAll graph .unit es).solutions l data = steps l data graph es Solution.empty := by
  rw [solutions_attachAll]
  exact Multiset.singleton_bind _ _

theorem solutions_grouped (graph : Option Term) (es : List Element) :
    (grouped graph es).solutions l data =
      (steps l data graph es Solution.empty).filter (Expr.AllHold l (conditions es)) := by
  rw [grouped, solutions_filteredBy, solutions_attach_unit]

/-- Elements add to a solution or drop it. -/
theorem exists_merge_of_mem_steps {graph : Option Term} {es : List Element} {a x : Solution}
    (h : x ∈ steps l data graph es a) : ∃ b : Solution, a.Compatible b ∧ x = a.merge b := by
  have hself (a : Solution) : ∃ b : Solution, a.Compatible b ∧ a = a.merge b :=
    ⟨Solution.empty, Solution.compatible_empty a, (Solution.merge_empty a).symm⟩
  have hpair {B : Multiset Solution} {a y : Solution} (h : y ∈ B.bind a.pair) :
      ∃ b : Solution, a.Compatible b ∧ y = a.merge b := by
    obtain ⟨b, -, hb⟩ := Multiset.mem_bind.1 h
    exact ⟨b, Solution.mem_pair.1 hb⟩
  induction es generalizing a with
  | nil =>
    rw [Multiset.mem_singleton.1 h]
    exact hself a
  | cons e es ih =>
    obtain ⟨y, hy, hx⟩ := Multiset.mem_bind.1 h
    have hfirst : ∃ b : Solution, a.Compatible b ∧ y = a.merge b := by
      cases e with
      | filter condition =>
        rw [Multiset.mem_singleton.1 hy]
        exact hself a
      | optional body =>
        rcases Solutions.mem_extended.1 hy with ⟨b, -, hab, rfl, -⟩ | ⟨rfl, -⟩
        · exact ⟨b, hab, rfl⟩
        · exact hself _
      | minus body =>
        rw [(Solutions.mem_remaining.1 hy).1]
        exact hself a
      | triple subject predicate object => exact hpair hy
      | union left right => exact hpair hy
      | graph name body => exact hpair hy
    obtain ⟨b, hab, rfl⟩ := hfirst
    obtain ⟨c, hc, rfl⟩ := ih hx
    obtain ⟨hac, hbc⟩ := (Solution.merge_compatible hab).1 hc
    exact ⟨b.merge c, (Solution.compatible_merge hbc).2 ⟨hab, hac⟩, Solution.merge_assoc a b c⟩

theorem steps_append (graph : Option Term) (xs ys : List Element) (a : Solution) :
    steps l data graph (xs ++ ys) a = (steps l data graph xs a).bind (steps l data graph ys) := by
  induction xs generalizing a with
  | nil => exact (Multiset.singleton_bind _ _).symm
  | cons x xs ih =>
    rw [List.cons_append, steps, steps, Multiset.bind_assoc]
    exact Multiset.bind_congr fun b _ => ih b

theorem steps_singleton (graph : Option Term) (e : Element) (a : Solution) :
    steps l data graph [e] a = e.step l data graph a := by
  rw [steps]
  exact Solutions.bind_self _

theorem steps_filters (graph : Option Term) (es : List Expr) (a : Solution) :
    steps l data graph (es.map Element.filter) a = {a} := by
  induction es with
  | nil => rfl
  | cons e es ih =>
    rw [List.map_cons, steps, Element.step, Multiset.singleton_bind, ih]

end

/-! ## Trees that enter no graph -/

/-- The elements of a tree that enters no graph. -/
def written (t : Tree) : List Element := blocks t .empty

section

variable {l : Library} {data : Finset Quad} {left right : Tree} {a : Solution}

theorem conditions_join : conditions (written (.combine .join left right)) =
    conditions (written left) ++ conditions (written right) :=
  conditions_append (written left) (written right)

theorem conditions_leftJoin {condition : Option Expr} :
    conditions (written (.combine (.leftJoin condition) left right)) =
      conditions (written left) :=
  (conditions_append (written left) [_]).trans (List.append_nil _)

theorem conditions_difference : conditions (written (.combine .difference left right)) =
    conditions (written left) :=
  (conditions_append (written left) [_]).trans (List.append_nil _)

theorem conditions_filter {arg : Tree} {condition : Expr} :
    conditions (written (.filter arg condition)) = conditions (written arg) ++ [condition] :=
  conditions_append (written arg) [_]

theorem steps_join : steps l data none (written (.combine .join left right)) a =
    (steps l data none (written left) a).bind (steps l data none (written right)) :=
  steps_append l data none (written left) (written right) a

theorem steps_leftJoin {condition : Option Expr} :
    steps l data none (written (.combine (.leftJoin condition) left right)) a =
      (steps l data none (written left) a).bind
        (Solutions.extended (Expr.AllHold l (conditions (written right) ++ condition.toList))
          (steps l data none (written right) Solution.empty)) := by
  let body := written right ++ condition.toList.map Element.filter
  have hbody : conditions body = conditions (written right) ++ condition.toList := by
    rw [conditions_append, conditions_filters]
  have hinner : (attachAll none .unit body).solutions l data =
      steps l data none (written right) Solution.empty := by
    rw [solutions_attach_unit, steps_append,
      Multiset.bind_congr fun x _ => steps_filters l data none _ x]
    exact Solutions.bind_self _
  show steps l data none (written left ++ [.optional body]) a = _
  rw [steps_append]
  refine Multiset.bind_congr fun x _ => ?_
  rw [steps_singleton, Element.step, hinner, hbody]

theorem steps_union : steps l data none (written (.combine .union left right)) a =
    ((grouped none (written left)).solutions l data +
      (grouped none (written right)).solutions l data).bind a.pair :=
  steps_singleton l data none _ a

theorem steps_difference : steps l data none (written (.combine .difference left right)) a =
    (steps l data none (written left) a).bind
      (Solutions.remaining ((grouped none (written right)).solutions l data)) := by
  show steps l data none (written left ++ [.minus (written right)]) a = _
  rw [steps_append]
  exact Multiset.bind_congr fun x _ => steps_singleton l data none _ x

theorem steps_filter {arg : Tree} {condition : Expr} :
    steps l data none (written (.filter arg condition)) a =
      steps l data none (written arg) a := by
  show steps l data none (written arg ++ [.filter condition]) a = _
  rw [steps_append, Multiset.bind_congr fun x _ => steps_singleton l data none _ x]
  exact Solutions.bind_self _

end

end RdfQuery.Sparql
