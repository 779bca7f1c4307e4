import RdfQuery.Proofs.Gathering
import RdfQuery.Proofs.Location
import RdfQuery.Proofs.Outcome
import RdfQuery.Serql.Document

/-!
# The parts of a body in SeRQL

What the walk over a tree collects, said without the clauses it is added to:
the items with their contexts in the order of the walk, and the conditions
that no optional part holds. The walk files these and nothing else.
-/

set_option autoImplicit false

namespace RdfQuery

/-- The conditions of filters, those in right operands of left joins left out. -/
def Tree.ownConditions : Tree → List Expr
  | .unit => []
  | .pattern _ => []
  | .combine (.leftJoin _) left _ => ownConditions left
  | .combine _ left right => ownConditions left ++ ownConditions right
  | .filter arg condition => ownConditions arg ++ [condition]
  | .modify _ arg => ownConditions arg
  | .bare _ => []

namespace Serql

/-! ## What items hold -/

mutual

def Item.paths : Item → List Triple
  | .path subject predicate object => [(subject, predicate, object)]
  | .optional items _ => pathsIn items

def pathsIn : List Item → List Triple
  | [] => []
  | i :: is => i.paths ++ pathsIn is

end

/-- The contents of an optional item; the brackets inside it are counted with their paths. -/
structure Bracket where
  paths : List Triple
  conditions : List Expr

mutual

/-- The brackets of an item, inner ones first. -/
def Item.brackets : Item → List Bracket
  | .path _ _ _ => []
  | .optional items conditions => bracketsIn items ++ [⟨pathsIn items, conditions⟩]

def bracketsIn : List Item → List Bracket
  | [] => []
  | i :: is => i.brackets ++ bracketsIn is

end

theorem pathsIn_eq_flatMap (is : List Item) : pathsIn is = is.flatMap Item.paths := by
  induction is with
  | nil => rfl
  | cons i is ih => rw [pathsIn, ih, List.flatMap_cons]

theorem bracketsIn_eq_flatMap (is : List Item) : bracketsIn is = is.flatMap Item.brackets := by
  induction is with
  | nil => rfl
  | cons i is ih => rw [bracketsIn, ih, List.flatMap_cons]

/-! ## The walk -/

/-- The items of a tree and the contexts they are filed under. -/
def parts (n : Naming) : Tree → GraphMap → (outer : Option Term) → List (Context × Item)
  | .unit, _, _ => []
  | .pattern p, m, outer => [(contextOf n (m.graph?.or outer), pathOf p)]
  | .combine (.leftJoin condition) left right, m, outer =>
    parts n left m.left (m.graph?.or outer) ++
      [(contextOf n (m.graph?.or outer),
        .optional ((parts n right m.right (m.graph?.or outer)).map Prod.snd)
          (right.ownConditions ++ condition.toList))]
  | .combine _ left right, m, outer =>
    parts n left m.left (m.graph?.or outer) ++ parts n right m.right (m.graph?.or outer)
  | .filter arg _, m, outer => parts n arg m.left (m.graph?.or outer)
  | .modify _ arg, m, outer => parts n arg m.left (m.graph?.or outer)
  | .bare _, _, _ => []

/-- The trees that can be collected: an optional part lies in the context of its left join. -/
def Collectable (n : Naming) : Tree → GraphMap → (outer : Option Term) → Prop
  | .unit, _, _ => True
  | .pattern _, _, _ => True
  | .combine .join left right, m, outer =>
    Collectable n left m.left (m.graph?.or outer) ∧ Collectable n right m.right (m.graph?.or outer)
  | .combine (.leftJoin _) left right, m, outer =>
    Collectable n left m.left (m.graph?.or outer) ∧
      Collectable n right m.right (m.graph?.or outer) ∧
      ∀ part ∈ parts n right m.right (m.graph?.or outer), part.1 = contextOf n (m.graph?.or outer)
  | .combine _ _ _, _, _ => False
  | .filter arg _, m, outer => Collectable n arg m.left (m.graph?.or outer)
  | .modify _ _, _, _ => False
  | .bare _, _, _ => False

/-- Clauses with more parts and conditions. -/
def Clauses.add (c : Clauses) (ps : List (Context × Item)) (conditions : List Expr) : Clauses :=
  ⟨c.paths.fileAll ps, c.conditions ++ conditions⟩

theorem Clauses.add_add (c : Clauses) (ps qs : List (Context × Item)) (es fs : List Expr) :
    (c.add ps es).add qs fs = c.add (ps ++ qs) (es ++ fs) := by
  simp [add, OrderedMap.fileAll_append]

theorem Clauses.push_eq_add (c : Clauses) (context : Context) (i : Item) :
    c.push context i = c.add [(context, i)] [] := by
  simp [add, push, OrderedMap.fileAll, OrderedMap.file]

theorem Clauses.addCondition_eq_add (c : Clauses) (e : Expr) : c.addCondition e = c.add [] [e] := by
  simp [add, addCondition, OrderedMap.fileAll]

theorem Clauses.empty_add (ps : List (Context × Item)) (es : List Expr) :
    empty.add ps es = ⟨OrderedMap.gather ps, es⟩ := by
  simp [add, empty, OrderedMap.gather]

/-- Items can be taken out as an optional part only if all of them have its context. -/
theorem Clauses.only?_gather {ps : List (Context × Item)} {es : List Expr} {context : Context}
    {items : List Item} (h : (Clauses.mk (OrderedMap.gather ps) es).only? context = some items) :
    (∀ part ∈ ps, part.1 = context) ∧ items = ps.map Prod.snd := by
  simp only [only?] at h
  split at h
  · rename_i hempty
    obtain ⟨hall, hitems⟩ := OrderedMap.itemsOf_eq_of_erase_isEmpty hempty
    cases h
    exact ⟨hall, hitems⟩
  · cases h

theorem Clauses.only?_of_forall {ps : List (Context × Item)} {es : List Expr} {context : Context}
    (h : ∀ part ∈ ps, part.1 = context) :
    (Clauses.mk (OrderedMap.gather ps) es).only? context = some (ps.map Prod.snd) := by
  have hempty := OrderedMap.erase_gather_isEmpty h
  rw [only?, if_pos hempty, (OrderedMap.itemsOf_eq_of_erase_isEmpty hempty).2]

/-- The walk adds the parts and the conditions of the tree to the clauses it is given. -/
theorem collect_add {n : Naming} {t : Tree} {m : GraphMap} {outer : Option Term} {c c' : Clauses}
    (h : collect n t m outer c = .ok c') :
    Collectable n t m outer ∧ c' = c.add (parts n t m outer) t.ownConditions := by
  induction t generalizing m outer c c' with
  | unit =>
    cases h
    exact ⟨trivial, by simp [Clauses.add, parts, Tree.ownConditions, OrderedMap.fileAll]⟩
  | pattern p =>
    cases h
    exact ⟨trivial, Clauses.push_eq_add _ _ _⟩
  | combine op left right ihl ihr =>
    cases op with
    | join =>
      obtain ⟨mid, hleft, hright⟩ := Outcome.bind_eq_ok.1 h
      obtain ⟨hcl, rfl⟩ := ihl hleft
      obtain ⟨hcr, rfl⟩ := ihr hright
      exact ⟨⟨hcl, hcr⟩, Clauses.add_add _ _ _ _ _⟩
    | leftJoin condition =>
      obtain ⟨mid, hleft, h⟩ := Outcome.bind_eq_ok.1 h
      obtain ⟨part, hright, h⟩ := Outcome.bind_eq_ok.1 h
      obtain ⟨hcl, rfl⟩ := ihl hleft
      obtain ⟨hcr, hpart⟩ := ihr hright
      rw [Clauses.empty_add] at hpart
      subst hpart
      split at h
      · cases h
      · rename_i items hitems
        obtain ⟨hall, rfl⟩ := Clauses.only?_gather hitems
        cases h
        refine ⟨⟨hcl, hcr, hall⟩, ?_⟩
        rw [Clauses.push_eq_add, Clauses.add_add]
        simp [parts, Tree.ownConditions]
    | union => cases h
    | difference => cases h
    | intersection => cases h
  | filter arg condition ih =>
    obtain ⟨mid, harg, h⟩ := Outcome.bind_eq_ok.1 h
    obtain ⟨hc, rfl⟩ := ih harg
    cases h
    refine ⟨hc, ?_⟩
    rw [Clauses.addCondition_eq_add, Clauses.add_add, List.append_nil]
    rfl
  | modify mo arg ih => cases h
  | bare s => cases h

/-- Whatever can be collected is collected. -/
theorem collect_of_collectable {n : Naming} {t : Tree} {m : GraphMap} {outer : Option Term}
    (h : Collectable n t m outer) (c : Clauses) :
    collect n t m outer c = .ok (c.add (parts n t m outer) t.ownConditions) := by
  induction t generalizing m outer c with
  | unit => simp [collect, Clauses.add, parts, Tree.ownConditions, OrderedMap.fileAll]
  | pattern p => exact congrArg Except.ok (Clauses.push_eq_add _ _ _)
  | combine op left right ihl ihr =>
    cases op with
    | join =>
      refine Outcome.bind_eq_ok.2 ⟨_, ihl h.1 c, ?_⟩
      rw [ihr h.2, Clauses.add_add]
      rfl
    | leftJoin condition =>
      refine Outcome.bind_eq_ok.2 ⟨_, ihl h.1 c, Outcome.bind_eq_ok.2 ⟨_, ihr h.2.1 _, ?_⟩⟩
      rw [Clauses.empty_add, Clauses.only?_of_forall h.2.2]
      refine congrArg Except.ok ?_
      rw [Clauses.push_eq_add, Clauses.add_add]
      simp [parts, Tree.ownConditions]
    | union => exact h.elim
    | difference => exact h.elim
    | intersection => exact h.elim
  | filter arg condition ih =>
    refine Outcome.bind_eq_ok.2 ⟨_, ih h c, congrArg Except.ok ?_⟩
    rw [Clauses.addCondition_eq_add, Clauses.add_add, List.append_nil]
    rfl
  | modify mo arg ih => exact h.elim
  | bare s => exact h.elim

/-- The clauses of a body without set operations. -/
theorem collectBody_eq {n : Naming} {t : Tree} {m : GraphMap} {outer : Option Term} {b : Body}
    (h : collectBody n t m outer = .ok b) :
    Collectable n t m outer ∧
      b = .clauses ⟨OrderedMap.gather (parts n t m outer), t.ownConditions⟩ := by
  obtain ⟨c, hc, h⟩ := Outcome.bind_eq_ok.1 h
  obtain ⟨hcollectable, rfl⟩ := collect_add hc
  cases h
  exact ⟨hcollectable, by rw [Clauses.empty_add]⟩

/-! ## Paths and brackets of the parts -/

/-- A path with the context of the clause it is written in. -/
abbrev Placed := Context × Triple

def placed (ps : List (Context × Item)) : List Placed :=
  ps.flatMap fun part => part.2.paths.map fun path => (part.1, path)

theorem placed_append (ps qs : List (Context × Item)) :
    placed (ps ++ qs) = placed ps ++ placed qs :=
  List.flatMap_append

/-- A bracket writes what is in it in its own context. -/
theorem placed_optional {ps : List (Context × Item)} {context : Context}
    (h : ∀ part ∈ ps, part.1 = context) (conditions : List Expr) :
    placed [(context, .optional (ps.map Prod.snd) conditions)] = placed ps := by
  induction ps with
  | nil => rfl
  | cons part ps ih =>
    have ih := ih fun p hp => h p (List.mem_cons_of_mem _ hp)
    simp only [placed, List.flatMap_cons, List.flatMap_nil, List.append_nil, Item.paths,
      List.map_cons, pathsIn, List.map_append, h part (by simp)] at ih ⊢
    rw [ih]

/-- Every pattern leaf becomes one path, in the context of the graph it lies in. -/
theorem placed_parts {n : Naming} {t : Tree} {m : GraphMap} {outer : Option Term}
    (h : Collectable n t m outer) :
    placed (parts n t m outer) =
      (t.located m outer).map fun l => (contextOf n l.2, l.1.triple) := by
  induction t generalizing m outer with
  | unit => rfl
  | pattern p => rfl
  | combine op left right ihl ihr =>
    cases op with
    | join => simp only [parts, Tree.located, placed_append, List.map_append, ihl h.1, ihr h.2]
    | leftJoin condition =>
      simp only [parts, Tree.located, placed_append, List.map_append, ihl h.1]
      rw [placed_optional h.2.2, ihr h.2.1]
    | union => exact h.elim
    | difference => exact h.elim
    | intersection => exact h.elim
  | filter arg condition ih => exact ih h
  | modify mo arg ih => exact h.elim
  | bare s => exact h.elim

end Serql

end RdfQuery
