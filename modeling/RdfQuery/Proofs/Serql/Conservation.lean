import Mathlib.Data.List.Perm.Basic
import RdfQuery.Proofs.Serql.Parts

/-!
# Nothing is lost between a body and its clauses

A body in SeRQL is a combination of sub-queries, each made from one operand of
the set operations at the top of the tree. The clauses of a sub-query account
for its operand: every pattern is one path, every left join one bracket, and
every condition stands once, in the bracket around it or in the where-clause.
-/

set_option autoImplicit false

namespace RdfQuery

/-! ## What a tree has to give -/

/-- The right operand of a left join: its patterns, and the conditions that belong to it and to
no left join inside it. -/
structure OptionalPart where
  patterns : List TriplePattern
  conditions : List Expr

namespace Tree

/-- One optional part for each left join, inner ones first. -/
def optionalParts : Tree → List OptionalPart
  | .unit => []
  | .pattern _ => []
  | .combine (.leftJoin condition) left right =>
    optionalParts left ++ optionalParts right ++
      [⟨right.patterns, right.ownConditions ++ condition.toList⟩]
  | .combine _ left right => optionalParts left ++ optionalParts right
  | .filter arg _ => optionalParts arg
  | .modify _ arg => optionalParts arg
  | .bare _ => []

/-- All conditions of filters and left joins. -/
def conditions : Tree → List Expr
  | .unit => []
  | .pattern _ => []
  | .combine (.leftJoin condition) left right =>
    conditions left ++ conditions right ++ condition.toList
  | .combine _ left right => conditions left ++ conditions right
  | .filter arg condition => conditions arg ++ [condition]
  | .modify _ arg => conditions arg
  | .bare _ => []

/-- A condition stands at some node of the tree. -/
theorem exists_node_of_mem_conditions {t : Tree} {e : Expr} (h : e ∈ t.conditions) :
    ∃ u ∈ t.subtrees, e ∈ u.ownExprs := by
  induction t with
  | unit => cases h
  | pattern p => cases h
  | combine op left right ihl ihr =>
    have hoperands (h : e ∈ left.conditions ++ right.conditions) :
        ∃ u ∈ (combine op left right).subtrees, e ∈ u.ownExprs := by
      rcases List.mem_append.1 h with h | h
      · obtain ⟨u, hu, he⟩ := ihl h
        exact ⟨u, by simp [subtrees, hu], he⟩
      · obtain ⟨u, hu, he⟩ := ihr h
        exact ⟨u, by simp [subtrees, hu], he⟩
    cases op with
    | leftJoin condition =>
      rcases List.mem_append.1 h with h | h
      · exact hoperands h
      · exact ⟨combine (.leftJoin condition) left right, by simp [subtrees], h⟩
    | join => exact hoperands h
    | union => exact hoperands h
    | difference => exact hoperands h
    | intersection => exact hoperands h
  | filter arg condition ih =>
    rcases List.mem_append.1 h with h | h
    · obtain ⟨u, hu, he⟩ := ih h
      exact ⟨u, by simp [subtrees, hu], he⟩
    · exact ⟨filter arg condition, by simp [subtrees], h⟩
  | modify mo arg ih =>
    obtain ⟨u, hu, he⟩ := ih h
    exact ⟨u, by simp [subtrees, hu], he⟩
  | bare s => cases h

theorem worded_of_mem_conditions {t : Tree} (h : t.Worded) : ∀ e ∈ t.conditions, e.Worded := by
  intro e he v hv
  obtain ⟨u, hu, he⟩ := exists_node_of_mem_conditions he
  have hown : v ∈ u.ownVariables := by
    cases u with
    | pattern p => cases he
    | _ => exact List.mem_flatMap.2 ⟨e, he, hv⟩
  exact h v (List.mem_flatMap.2 ⟨u, hu, hown⟩)

/-- The graphs that patterns and left joins lie in, in the order of the walk. -/
def uses : Tree → GraphMap → (outer : Option Term) → List (Option Term)
  | .unit, _, _ => []
  | .pattern _, m, outer => [m.graph?.or outer]
  | .combine (.leftJoin _) left right, m, outer =>
    uses left m.left (m.graph?.or outer) ++ uses right m.right (m.graph?.or outer) ++
      [m.graph?.or outer]
  | .combine _ left right, m, outer =>
    uses left m.left (m.graph?.or outer) ++ uses right m.right (m.graph?.or outer)
  | .filter arg _, m, outer => uses arg m.left (m.graph?.or outer)
  | .modify _ arg, m, outer => uses arg m.left (m.graph?.or outer)
  | .bare _, _, _ => []

theorem mem_uses {t : Tree} {m : GraphMap} {outer use : Option Term} {g : Term}
    (h : use ∈ t.uses m outer) (hg : g ∈ use) : g ∈ m.graphs ∨ g ∈ outer := by
  induction t generalizing m outer with
  | unit => cases h
  | pattern p =>
    cases List.mem_singleton.1 h
    exact GraphMap.mem_entered hg
  | combine op left right ihl ihr =>
    have hleft : use ∈ left.uses m.left (m.graph?.or outer) → g ∈ m.graphs ∨ g ∈ outer :=
      fun h => (ihl h).elim (fun hl => Or.inl (m.graphs_left hl)) GraphMap.mem_entered
    have hright : use ∈ right.uses m.right (m.graph?.or outer) → g ∈ m.graphs ∨ g ∈ outer :=
      fun h => (ihr h).elim (fun hr => Or.inl (m.graphs_right hr)) GraphMap.mem_entered
    cases op with
    | leftJoin condition =>
      rcases List.mem_append.1 h with h | h
      · exact (List.mem_append.1 h).elim hleft hright
      · cases List.mem_singleton.1 h
        exact GraphMap.mem_entered hg
    | join => exact (List.mem_append.1 h).elim hleft hright
    | union => exact (List.mem_append.1 h).elim hleft hright
    | difference => exact (List.mem_append.1 h).elim hleft hright
    | intersection => exact (List.mem_append.1 h).elim hleft hright
  | filter arg e ih =>
    exact (ih h).elim (fun hl => Or.inl (m.graphs_left hl)) GraphMap.mem_entered
  | modify mo arg ih =>
    exact (ih h).elim (fun hl => Or.inl (m.graphs_left hl)) GraphMap.mem_entered
  | bare s => cases h

theorem uses_worded {t : Tree} {m : GraphMap} {outer : Option Term} (hm : m.Worded)
    (ho : ∀ g ∈ outer, g.Worded) : ∀ use ∈ t.uses m outer, ∀ g ∈ use, g.Worded :=
  fun _ huse g hg => (mem_uses huse hg).elim (hm g) (ho g)

theorem append_swap_perm {α : Type} (a b c d : List α) :
    ((a ++ b) ++ (c ++ d)).Perm ((a ++ c) ++ (b ++ d)) := by
  simp only [List.append_assoc]
  apply List.Perm.append_left
  rw [← List.append_assoc, ← List.append_assoc]
  exact List.perm_append_comm.append_right d

/-- The conditions of a tree are its own ones and those of its optional parts. -/
theorem conditions_perm (t : Tree) :
    (t.ownConditions ++ t.optionalParts.flatMap OptionalPart.conditions).Perm t.conditions := by
  induction t with
  | unit => exact List.Perm.refl _
  | pattern p => exact List.Perm.refl _
  | combine op left right ihl ihr =>
    have hboth := (append_swap_perm _ _ _ _).trans (ihl.append ihr)
    cases op with
    | leftJoin condition =>
      have hright := ihr.append_right condition.toList
      have hmoved :
          (right.optionalParts.flatMap OptionalPart.conditions ++ right.ownConditions).Perm
          (right.ownConditions ++ right.optionalParts.flatMap OptionalPart.conditions) :=
        List.perm_append_comm
      simp only [ownConditions, optionalParts, conditions, List.flatMap_append, List.flatMap_cons,
        List.flatMap_nil, List.append_nil]
      rw [List.append_assoc (left.optionalParts.flatMap _), ← List.append_assoc left.ownConditions,
        List.append_assoc left.conditions, ← List.append_assoc (right.optionalParts.flatMap _)]
      exact ihl.append ((hmoved.append_right _).trans hright)
    | join => simpa [ownConditions, optionalParts, conditions] using hboth
    | union => simpa [ownConditions, optionalParts, conditions] using hboth
    | difference => simpa [ownConditions, optionalParts, conditions] using hboth
    | intersection => simpa [ownConditions, optionalParts, conditions] using hboth
  | filter arg e ih =>
    have hmoved : ([e] ++ arg.optionalParts.flatMap OptionalPart.conditions).Perm
        (arg.optionalParts.flatMap OptionalPart.conditions ++ [e]) := List.perm_append_comm
    simp only [ownConditions, optionalParts, conditions, List.append_assoc]
    refine (hmoved.append_left _).trans ?_
    rw [← List.append_assoc]
    exact ih.append_right [e]
  | modify mo arg ih => exact ih
  | bare s => exact List.Perm.refl _

theorem mem_conditions_of_own {t : Tree} {e : Expr} (h : e ∈ t.ownConditions) :
    e ∈ t.conditions :=
  t.conditions_perm.subset (List.mem_append_left _ h)

end Tree

namespace Serql

/-! ## Sub-queries -/

/-- An operand of the set operations at the top, with its map and the graph around it. -/
structure Operand where
  tree : Tree
  map : GraphMap
  outer : Option Term

def operands : Tree → GraphMap → (outer : Option Term) → List Operand
  | .combine c left right, m, outer =>
    match SetOperation.of? c with
    | some _ =>
      operands left m.left (m.graph?.or outer) ++ operands right m.right (m.graph?.or outer)
    | none => [⟨.combine c left right, m, outer⟩]
  | t, m, outer => [⟨t, m, outer⟩]

/-- The clauses of the sub-queries from left to right. -/
def Body.subqueries : Body → List Clauses
  | .clauses c => [c]
  | .operation _ left right => left.subqueries ++ right.subqueries

namespace Clauses

/-- The paths with the contexts of their clauses, those in brackets included. -/
def placed (c : Clauses) : List Placed :=
  c.paths.entries.flatMap fun clause => (pathsIn clause.2).map fun path => (clause.1, path)

def brackets (c : Clauses) : List Bracket :=
  c.paths.entries.flatMap fun clause => bracketsIn clause.2

end Clauses

def Bracket.of (part : OptionalPart) : Bracket :=
  ⟨part.patterns.map TriplePattern.triple, part.conditions⟩

/-- How the clauses of a sub-query account for the operand it is made from. -/
structure Accounts (n : Naming) (o : Operand) (c : Clauses) : Prop where
  /-- Every pattern leaf is exactly one path. -/
  patterns_once : (c.placed.map Prod.snd).Perm (o.tree.patterns.map TriplePattern.triple)
  /-- A clause has the paths of the patterns in its context, from left to right. -/
  paths_in_order : ∀ clause ∈ c.paths.entries, pathsIn clause.2 =
    ((o.tree.located o.map o.outer).filter fun l => contextOf n l.2 = clause.1).map
      fun l => l.1.triple
  /-- The clauses stand in the order in which their contexts are first used. -/
  contexts_in_order : c.paths.keys = firsts ((o.tree.uses o.map o.outer).map (contextOf n))
  one_clause_each : c.paths.keys.Nodup ∧
    ∀ g ∈ o.tree.uses o.map o.outer, ∀ g' ∈ o.tree.uses o.map o.outer,
      contextOf n g = contextOf n g' ↔ g.map Term.plain = g'.map Term.plain
  /-- Every left join is exactly one bracket, which holds the patterns of its right operand and
  the conditions that lie in or on it and in no bracket inside. -/
  brackets_once : c.brackets.Perm (o.tree.optionalParts.map Bracket.of)
  /-- All other conditions stand in the where-clause. -/
  where_clause : c.conditions = o.tree.ownConditions
  conditions_once :
    (c.conditions ++ c.brackets.flatMap Bracket.conditions).Perm o.tree.conditions

/-! ## The parts of a tree account for it -/

theorem pathsIn_itemsOf (k : Context) (ps : List (Context × Item)) :
    pathsIn (OrderedMap.itemsOf k ps) = ((placed ps).filter fun p => p.1 = k).map Prod.snd := by
  induction ps with
  | nil => rfl
  | cons part ps ih =>
    have hplaced : placed (part :: ps) =
        part.2.paths.map (fun path => (part.1, path)) ++ placed ps :=
      rfl
    rw [hplaced, List.filter_append, List.map_append, ← ih]
    by_cases hk : part.1 = k
    · have hkept : OrderedMap.itemsOf k (part :: ps) = part.2 :: OrderedMap.itemsOf k ps := by
        simp [OrderedMap.itemsOf, hk]
      rw [hkept, pathsIn]
      congr 1
      simp [List.filter_map, hk, Function.comp_def]
    · have hdropped : OrderedMap.itemsOf k (part :: ps) = OrderedMap.itemsOf k ps := by
        simp [OrderedMap.itemsOf, hk]
      rw [hdropped]
      simp [List.filter_map, hk, Function.comp_def]

theorem pathsIn_map_snd (ps : List (Context × Item)) :
    pathsIn (ps.map Prod.snd) = (placed ps).map Prod.snd := by
  rw [pathsIn_eq_flatMap, List.flatMap_map, placed, List.map_flatMap]
  simp [Function.comp_def]

theorem pathsIn_parts {n : Naming} {t : Tree} {m : GraphMap} {outer : Option Term}
    (h : Collectable n t m outer) :
    pathsIn ((parts n t m outer).map Prod.snd) = t.patterns.map TriplePattern.triple := by
  rw [pathsIn_map_snd, placed_parts h, List.map_map, ← t.located_patterns m outer, List.map_map]
  rfl

theorem brackets_parts {n : Naming} {t : Tree} {m : GraphMap} {outer : Option Term}
    (h : Collectable n t m outer) :
    ((parts n t m outer).flatMap fun part => part.2.brackets) = t.optionalParts.map Bracket.of := by
  induction t generalizing m outer with
  | unit => rfl
  | pattern p => rfl
  | combine op left right ihl ihr =>
    cases op with
    | join =>
      simp only [parts, Tree.optionalParts, List.flatMap_append, List.map_append, ihl h.1, ihr h.2]
    | leftJoin condition =>
      have hright : bracketsIn ((parts n right m.right (m.graph?.or outer)).map Prod.snd) =
          right.optionalParts.map Bracket.of := by
        rw [bracketsIn_eq_flatMap, List.flatMap_map]
        exact ihr h.2.1
      simp only [parts, Tree.optionalParts, List.flatMap_append, List.map_append, ihl h.1,
        List.flatMap_cons, List.flatMap_nil, List.append_nil, Item.brackets, hright,
        pathsIn_parts h.2.1, List.map_cons, List.map_nil, Bracket.of, List.append_assoc]
    | union => exact h.elim
    | difference => exact h.elim
    | intersection => exact h.elim
  | filter arg condition ih => exact ih h
  | modify mo arg ih => exact h.elim
  | bare s => exact h.elim

/-! ## The order of contexts -/

/-- An optional part uses no context but that of its left join. -/
theorem contextOf_uses {n : Naming} {t : Tree} {m : GraphMap} {outer : Option Term} {k : Context}
    (h : Collectable n t m outer) (hk : ∀ part ∈ parts n t m outer, part.1 = k) :
    ∀ g ∈ t.uses m outer, contextOf n g = k := by
  induction t generalizing m outer with
  | unit => exact fun _ hg => nomatch hg
  | pattern p =>
    intro g hg
    rw [Tree.uses, List.mem_singleton] at hg
    have hpart : (contextOf n (m.graph?.or outer), pathOf p) ∈ parts n (.pattern p) m outer := by
      simp [parts]
    exact hg ▸ hk _ hpart
  | combine op left right ihl ihr =>
    cases op with
    | join =>
      have hl := ihl h.1 fun part hp => hk part (by simp [parts, hp])
      have hr := ihr h.2 fun part hp => hk part (by simp [parts, hp])
      intro g hg
      exact (List.mem_append.1 hg).elim (hl g) (hr g)
    | leftJoin condition =>
      have hown : contextOf n (m.graph?.or outer) = k :=
        hk _ (List.mem_append_right _ (List.mem_singleton_self _))
      have hl := ihl h.1 fun part hp => hk part (by simp [parts, hp])
      have hr := ihr h.2.1 fun part hp => (h.2.2 part hp).trans hown
      intro g hg
      simp only [Tree.uses, List.mem_append, List.mem_singleton] at hg
      rcases hg with (hg | hg) | hg
      · exact hl g hg
      · exact hr g hg
      · exact hg ▸ hown
    | union => exact h.elim
    | difference => exact h.elim
    | intersection => exact h.elim
  | filter arg condition ih => exact ih h hk
  | modify mo arg ih => exact h.elim
  | bare s => exact h.elim

theorem sameFirsts_uses {n : Naming} {t : Tree} {m : GraphMap} {outer : Option Term}
    (h : Collectable n t m outer) :
    SameFirsts ((parts n t m outer).map Prod.fst) ((t.uses m outer).map (contextOf n)) := by
  induction t generalizing m outer with
  | unit => exact fun _ => rfl
  | pattern p => exact fun _ => rfl
  | combine op left right ihl ihr =>
    cases op with
    | join =>
      simp only [parts, Tree.uses, List.map_append]
      exact (ihl h.1).append (ihr h.2)
    | leftJoin condition =>
      simp only [parts, Tree.uses, List.map_append, List.append_assoc]
      refine (ihl h.1).append (sameFirsts_singleton ?_)
      intro k hk
      obtain ⟨g, hg, rfl⟩ := List.mem_map.1 hk
      exact contextOf_uses h.2.1 h.2.2 g hg
    | union => exact h.elim
    | difference => exact h.elim
    | intersection => exact h.elim
  | filter arg condition ih => exact ih h
  | modify mo arg ih => exact h.elim
  | bare s => exact h.elim

/-! ## Sub-queries account for their operands -/

theorem contextOf_eq_iff {g g' : Option Term} (hg : ∀ t ∈ g, t.Worded) (hg' : ∀ t ∈ g', t.Worded) :
    contextOf Naming.full g = contextOf Naming.full g' ↔ g.map Term.plain = g'.map Term.plain := by
  cases g with
  | none => cases g' <;> simp [contextOf]
  | some t =>
    cases g' with
    | none => simp [contextOf]
    | some t' =>
      have hiff := term_full_eq_iff (hg t rfl) (hg' t' rfl)
      simpa [contextOf] using hiff

/-- The clauses hold the paths of the tree, grouped by their contexts. -/
theorem placed_gather {n : Naming} {t : Tree} {m : GraphMap} {outer : Option Term}
    (h : Collectable n t m outer) (conditions : List Expr) :
    (Clauses.mk (OrderedMap.gather (parts n t m outer)) conditions).placed.Perm
      ((t.located m outer).map fun l => (contextOf n l.2, l.1.triple)) := by
  have hperm := (OrderedMap.gather_perm (parts n t m outer)).flatMap_right
    fun part => part.2.paths.map fun path => (part.1, path)
  have hplaced := placed_parts h
  rw [placed] at hplaced
  rw [hplaced, List.flatMap_assoc] at hperm
  simpa [Clauses.placed, pathsIn_eq_flatMap, List.flatMap_map, List.map_flatMap] using hperm

theorem accounts_of_collectable {o : Operand} (hm : o.map.Worded) (ho : ∀ g ∈ o.outer, g.Worded)
    (h : Collectable Naming.full o.tree o.map o.outer) :
    Accounts Naming.full o
      ⟨OrderedMap.gather (parts Naming.full o.tree o.map o.outer), o.tree.ownConditions⟩ := by
  have hperm := OrderedMap.gather_perm (parts Naming.full o.tree o.map o.outer)
  have hbrackets : (Clauses.mk (OrderedMap.gather (parts Naming.full o.tree o.map o.outer))
      o.tree.ownConditions).brackets.Perm (o.tree.optionalParts.map Bracket.of) := by
    have := hperm.flatMap_right fun part => part.2.brackets
    rw [brackets_parts h, List.flatMap_assoc] at this
    simpa [Clauses.brackets, bracketsIn_eq_flatMap, List.flatMap_map] using this
  constructor
  · have hplaced := (placed_gather h o.tree.ownConditions).map Prod.snd
    rw [List.map_map] at hplaced
    rw [← o.tree.located_patterns o.map o.outer, List.map_map]
    exact hplaced
  · intro clause hclause
    rw [OrderedMap.gather_entries] at hclause
    obtain ⟨k, -, rfl⟩ := List.mem_map.1 hclause
    rw [pathsIn_itemsOf, placed_parts h, List.filter_map, List.map_map]
    rfl
  · rw [OrderedMap.gather_keys]
    exact sameFirsts_uses h []
  · refine ⟨(OrderedMap.gather _).distinct, ?_⟩
    intro g hg g' hg'
    exact contextOf_eq_iff (Tree.uses_worded hm ho g hg) (Tree.uses_worded hm ho g' hg')
  · exact hbrackets
  · rfl
  · have hconditions := hbrackets.flatMap_right Bracket.conditions
    rw [List.flatMap_map] at hconditions
    exact (hconditions.append_left _).trans o.tree.conditions_perm

theorem accounts_of_collectBody {t : Tree} {m : GraphMap} {outer : Option Term} {b : Body}
    (hm : m.Worded) (ho : ∀ g ∈ outer, g.Worded)
    (h : collectBody Naming.full t m outer = .ok b) :
    List.Forall₂ (Accounts Naming.full) [⟨t, m, outer⟩] b.subqueries := by
  obtain ⟨hcollectable, rfl⟩ := collectBody_eq h
  have haccounts := accounts_of_collectable (o := ⟨t, m, outer⟩) hm ho hcollectable
  exact List.Forall₂.cons haccounts List.Forall₂.nil

/-- A set operation splits the tree as it splits the body. -/
theorem accounts_of_body {t : Tree} {m : GraphMap} {outer : Option Term} {b : Body}
    (hm : m.Worded) (ho : ∀ g ∈ outer, g.Worded) (h : body Naming.full t m outer = .ok b) :
    List.Forall₂ (Accounts Naming.full) (operands t m outer) b.subqueries := by
  induction t generalizing m outer b with
  | combine c left right ihl ihr =>
    simp only [body, operands] at h ⊢
    cases hop : SetOperation.of? c with
    | some op =>
      simp only [hop] at h ⊢
      obtain ⟨bl, hleft, h⟩ := Outcome.bind_eq_ok.1 h
      obtain ⟨br, hright, h⟩ := Outcome.bind_eq_ok.1 h
      cases h
      have hl := ihl hm.left (hm.entered ho) hleft
      have hr := ihr hm.right (hm.entered ho) hright
      exact List.rel_append hl hr
    | none =>
      simp only [hop] at h ⊢
      exact accounts_of_collectBody hm ho h
  | unit => exact accounts_of_collectBody hm ho h
  | pattern p => exact accounts_of_collectBody hm ho h
  | filter arg e ih => exact accounts_of_collectBody hm ho h
  | modify mo arg ih => exact accounts_of_collectBody hm ho h
  | bare s => exact accounts_of_collectBody hm ho h

/-- However patterns, optional parts and filters are nested and whatever graphs they are in, each
sub-query of an accepted body has everything of its operand once and at its place. -/
theorem subqueries_account (s : Style) (t : Tree) (m : GraphMap) (b : Body)
    (hfull : s.compactIris = false) (ht : t.Worded)
    (hm : m = GraphMap.collect t ∨ m = GraphMap.empty)
    (h : outlineBody (Naming.ofStyle s) (Outline.peel t) m = .ok (some b)) :
    ∃ body, (Outline.peel t).body = some body ∧
      List.Forall₂ (Accounts (Naming.ofStyle s))
        (operands body (m.descend (Outline.peel t).depth) none) b.subqueries := by
  have hworded : m.Worded := by
    rcases hm with rfl | rfl
    · exact GraphMap.collect_worded ht
    · exact GraphMap.empty_worded
  rw [Naming.ofStyle_full hfull] at h ⊢
  unfold outlineBody at h
  split at h
  · rename_i inner hinner
    obtain ⟨b', hb, h⟩ := Outcome.bind_eq_ok.1 h
    cases h
    have hnone : ∀ g ∈ (none : Option Term), g.Worded :=
      fun g hg => absurd hg (Option.not_mem_none g)
    exact ⟨inner, hinner, accounts_of_body (hworded.descend _) hnone hb⟩
  · cases h

/-- An optional part inside an optional part, each with a condition, under a union. -/
def nestedOptional : Tree :=
  let pattern (object : String) : Tree :=
    .pattern ⟨.var (.user "x"), .var (.user "p"), .var (.user object), some (.var (.user "g"))⟩
  .union
    (.leftJoin (pattern "a")
      (.leftJoin (.filter (pattern "b") (.bound (.user "b"))) (pattern "c")
        (some (.bound (.user "c")))) none)
    (.filter (pattern "d") (.bound (.user "d")))

theorem nestedOptional_accounts :
    nestedOptional.Worded ∧ ∃ b,
      outlineBody (Naming.ofStyle Style.default) (Outline.peel nestedOptional)
        (GraphMap.collect nestedOptional) = .ok (some b) ∧
      ∃ body, (Outline.peel nestedOptional).body = some body ∧
        List.Forall₂ (Accounts (Naming.ofStyle Style.default))
          (operands body ((GraphMap.collect nestedOptional).descend
            (Outline.peel nestedOptional).depth) none) b.subqueries := by
  have hworded : nestedOptional.Worded := by decide +kernel
  refine ⟨hworded, _, rfl, ?_⟩
  exact subqueries_account Style.default nestedOptional _ _ rfl hworded (Or.inl rfl) rfl

end Serql

end RdfQuery
