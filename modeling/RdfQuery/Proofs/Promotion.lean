import RdfQuery.Proofs.Location
import RdfQuery.Proofs.Paths

/-!
# Graphs at the highest nodes

In the collected map no graph can be moved further up: two operands that enter
graphs enter different ones, and then the node above them enters none. The map
is empty only if no pattern names a graph, and it does not depend on the order
of the operands.
-/

set_option autoImplicit false

namespace RdfQuery

namespace GraphMap

/-! ## The listing of a map -/

theorem mem_ownEntry {m : GraphMap} {t : Tree} {e : Entry} :
    e ∈ m.ownEntry t ↔ e.path = [] ∧ e.kind = t.kind ∧ m.graph? = some e.graph := by
  obtain ⟨path, kind, g⟩ := e
  simp only [ownEntry, List.mem_map, Option.mem_toList, Entry.mk.injEq]
  constructor
  · rintro ⟨g', hg', rfl, rfl, rfl⟩
    exact ⟨rfl, rfl, hg'⟩
  · rintro ⟨rfl, rfl, hg⟩
    exact ⟨g, hg, rfl, rfl, rfl⟩

theorem mem_map_below {i : Nat} {es : List Entry} {e : Entry} :
    e ∈ es.map (Entry.below i) ↔ ∃ path, e.path = i :: path ∧ ⟨path, e.kind, e.graph⟩ ∈ es := by
  obtain ⟨path, kind, g⟩ := e
  constructor
  · intro h
    obtain ⟨e, he, heq⟩ := List.mem_map.1 h
    cases heq
    exact ⟨e.path, rfl, he⟩
  · rintro ⟨rest, rfl, he⟩
    exact List.mem_map.2 ⟨_, he, rfl⟩

/-- The entries of a node and of its children. -/
theorem mem_entries_cases {t : Tree} {m : GraphMap} {e : Entry} : e ∈ entries t m ↔
    e ∈ m.ownEntry t ∨ ∃ i child, Tree.Child t i child ∧
      e ∈ (entries child (m.child i)).map (Entry.below i) := by
  cases t with
  | combine c left right =>
    simp only [entries, List.mem_append, or_assoc]
    constructor
    · rintro (h | h | h)
      · exact Or.inl h
      · exact Or.inr ⟨0, left, .left c left right, h⟩
      · exact Or.inr ⟨1, right, .right c left right, h⟩
    · rintro (h | ⟨i, child, hchild, h⟩)
      · exact Or.inl h
      · cases hchild with
        | left => exact Or.inr (Or.inl h)
        | right => exact Or.inr (Or.inr h)
  | filter arg e =>
    simp only [entries, List.mem_append]
    refine or_congr_right ⟨fun h => ⟨0, arg, .filter arg e, h⟩, ?_⟩
    rintro ⟨i, child, hchild, h⟩
    cases hchild
    exact h
  | modify mo arg =>
    simp only [entries, List.mem_append]
    refine or_congr_right ⟨fun h => ⟨0, arg, .modify mo arg, h⟩, ?_⟩
    rintro ⟨i, child, hchild, h⟩
    cases hchild
    exact h
  | unit => exact ⟨Or.inl, fun h => h.resolve_right fun ⟨_, _, hchild, _⟩ => nomatch hchild⟩
  | pattern p => exact ⟨Or.inl, fun h => h.resolve_right fun ⟨_, _, hchild, _⟩ => nomatch hchild⟩
  | bare s => exact ⟨Or.inl, fun h => h.resolve_right fun ⟨_, _, hchild, _⟩ => nomatch hchild⟩

/-- The listing has the nodes that enter a graph, each under its path. -/
theorem mem_entries {t : Tree} {m : GraphMap} {e : Entry} : e ∈ entries t m ↔
    ∃ u, t.at? e.path = some u ∧ e.kind = u.kind ∧ m.graphAt e.path = some e.graph := by
  obtain ⟨path, kind, g⟩ := e
  rw [mem_entries_cases, mem_ownEntry]
  induction path generalizing t m with
  | nil =>
    have hchild : ∀ i child, ⟨[], kind, g⟩ ∉ (entries child (m.child i)).map (Entry.below i) := by
      intro i child h
      obtain ⟨path, hpath, -⟩ := mem_map_below.1 h
      cases hpath
    constructor
    · rintro (⟨-, hkind, hg⟩ | ⟨i, child, -, h⟩)
      · exact ⟨t, rfl, hkind, hg⟩
      · exact absurd h (hchild i child)
    · rintro ⟨u, hu, hkind, hg⟩
      cases hu
      exact Or.inl ⟨rfl, hkind, hg⟩
  | cons i path ih =>
    simp only [Tree.at?_cons]
    constructor
    · rintro (⟨hpath, -⟩ | ⟨j, child, hchild, h⟩)
      · cases hpath
      · obtain ⟨rest, hrest, h⟩ := mem_map_below.1 h
        cases hrest
        rw [mem_entries_cases, mem_ownEntry] at h
        obtain ⟨u, hu, hkind, hg⟩ := ih.1 h
        exact ⟨u, ⟨child, hchild, hu⟩, hkind, hg⟩
    · rintro ⟨u, ⟨child, hchild, hu⟩, hkind, hg⟩
      refine Or.inr ⟨i, child, hchild, mem_map_below.2 ⟨path, rfl, ?_⟩⟩
      rw [mem_entries_cases, mem_ownEntry]
      exact ih.2 ⟨u, hu, hkind, hg⟩

theorem mem_graphs {m : GraphMap} {g : Term} : g ∈ m.graphs ↔ ∃ path, m.graphAt path = some g := by
  have hempty {path : List Nat} : GraphMap.empty.graphAt path ≠ some g := by
    rw [graphAt_empty]
    exact Option.some_ne_none g |>.symm
  induction m with
  | empty =>
    refine iff_of_false List.not_mem_nil ?_
    rintro ⟨path, h⟩
    exact hempty h
  | node own left right ihl ihr =>
    simp only [graphs, List.mem_append, Option.mem_toList, ihl, ihr, or_assoc]
    constructor
    · rintro (h | ⟨path, h⟩ | ⟨path, h⟩)
      · exact ⟨[], h⟩
      · exact ⟨0 :: path, h⟩
      · exact ⟨1 :: path, h⟩
    · rintro ⟨path, h⟩
      cases path with
      | nil => exact Or.inl h
      | cons i path =>
        obtain rfl | rfl | ⟨j, rfl⟩ : i = 0 ∨ i = 1 ∨ ∃ j, i = j + 2 := by
          rcases i with _ | _ | j
          exacts [Or.inl rfl, Or.inr (Or.inl rfl), Or.inr (Or.inr ⟨j, rfl⟩)]
        · exact Or.inr (Or.inl ⟨path, h⟩)
        · exact Or.inr (Or.inr ⟨path, h⟩)
        · exact absurd h hempty

/-! ## One node and its operands -/

/-- Kinds of nodes at which graphs are entered. -/
def enteringKinds : List Kind :=
  [.pattern, .filter, .join, .leftJoin, .union, .difference, .intersection]

theorem kind_of_claim {t : Tree} {g : Term} (h : claim t = some g) : t.kind ∈ enteringKinds := by
  cases t with
  | unit => cases h
  | pattern p => simp [enteringKinds, Tree.kind]
  | combine c left right => cases c <;> simp [enteringKinds, Tree.kind, Combination.kind]
  | filter arg e => simp [enteringKinds, Tree.kind]
  | modify mo arg => cases h
  | bare s => cases h

theorem agreed_eq_none {a b : Option Term} (h : agreed a b = none) :
    (a = none ∧ b = none) ∨ ∃ g g', a = some g ∧ b = some g' ∧ g.sameGraph g' = false := by
  cases a with
  | none => exact Or.inl ⟨rfl, h⟩
  | some g =>
    cases b with
    | none => cases h
    | some g' =>
      refine Or.inr ⟨g, g', rfl, rfl, ?_⟩
      by_cases hsame : g.sameGraph g' = true
      · rw [agreed, if_pos hsame] at h
        cases h
      · exact Bool.not_eq_true _ ▸ hsame

/-- At this node nothing is left to be moved up. -/
structure PromotedAt (m : GraphMap) (path : List Nat) (t : Tree) : Prop where
  kind : ∀ g, m.graphAt path = some g → t.kind ∈ enteringKinds
  filter : ∀ arg e, t = .filter arg e → m.graphAt (path ++ [0]) = none
  operands : ∀ c left right, t = .combine c left right →
    (m.graphAt (path ++ [0]) = none ∧ m.graphAt (path ++ [1]) = none) ∨
    ∃ g g', m.graphAt (path ++ [0]) = some g ∧ m.graphAt (path ++ [1]) = some g' ∧
      g.sameGraph g' = false ∧ m.graphAt path = none

theorem promotedAt_root (taken : Bool) (t : Tree) : PromotedAt (place taken t) [] t := by
  refine ⟨?_, ?_, ?_⟩
  · intro g hg
    rw [graphAt, follow, graph?_place] at hg
    cases taken with
    | true => cases hg
    | false => exact kind_of_claim hg
  · rintro arg e rfl
    show (place (claim arg).isSome arg).graph? = none
    rw [graph?_place]
    cases claim arg <;> rfl
  · rintro c left right rfl
    show ((place (agreed (claim left) (claim right)).isSome left).graph? = none ∧
      (place (agreed (claim left) (claim right)).isSome right).graph? = none) ∨
      ∃ g g', (place (agreed (claim left) (claim right)).isSome left).graph? = some g ∧
        (place (agreed (claim left) (claim right)).isSome right).graph? = some g' ∧
        g.sameGraph g' = false ∧
        (if taken then none else agreed (claim left) (claim right)) = none
    rw [graph?_place, graph?_place]
    cases hown : agreed (claim left) (claim right) with
    | some g => exact Or.inl ⟨rfl, rfl⟩
    | none =>
      refine (agreed_eq_none hown).imp_right ?_
      rintro ⟨g, g', hleft, hright, hsame⟩
      exact ⟨g, g', hleft, hright, hsame, ite_self _⟩

theorem promotedAt {t u : Tree} {path : List Nat} (h : t.at? path = some u) :
    PromotedAt (collect t) path u := by
  obtain ⟨taken, hplace⟩ := follow_place h false
  have hgraph : ∀ rest, (collect t).graphAt (path ++ rest) = (place taken u).graphAt rest := by
    intro rest
    rw [graphAt_append, collect, hplace]
  have hroot := promotedAt_root taken u
  have hself := hgraph []
  rw [List.append_nil] at hself
  refine ⟨?_, ?_, ?_⟩
  · rw [hself]
    exact hroot.kind
  · rw [hgraph]
    exact hroot.filter
  · rw [hself, hgraph, hgraph]
    exact hroot.operands

/-! ## Empty maps -/

theorem mem_graphs_of_child {m child : GraphMap} (hsub : child.graphs ⊆ m.graphs)
    {outer : Option Term} {g : Term} (h : g ∈ child.graphs ∨ g ∈ m.graph?.or outer) :
    g ∈ m.graphs ∨ g ∈ outer :=
  h.elim (fun hg => Or.inl (hsub hg)) mem_entered

/-- A leaf lies in a graph of the map, or in the graph around the tree. -/
theorem graph_of_located {t : Tree} {m : GraphMap} {outer : Option Term} :
    ∀ leaf ∈ t.located m outer, ∀ g ∈ leaf.2, g ∈ m.graphs ∨ g ∈ outer := by
  induction t generalizing m outer with
  | unit => exact fun _ h => nomatch h
  | pattern p =>
    intro leaf hleaf g hg
    rw [List.mem_singleton.1 hleaf] at hg
    exact mem_entered hg
  | combine c left right ihl ihr =>
    intro leaf hleaf g hg
    rcases List.mem_append.1 hleaf with hleaf | hleaf
    · exact mem_graphs_of_child m.graphs_left (ihl leaf hleaf g hg)
    · exact mem_graphs_of_child m.graphs_right (ihr leaf hleaf g hg)
  | filter arg e ih =>
    exact fun leaf hleaf g hg => mem_graphs_of_child m.graphs_left (ih leaf hleaf g hg)
  | modify mo arg ih =>
    exact fun leaf hleaf g hg => mem_graphs_of_child m.graphs_left (ih leaf hleaf g hg)
  | bare s => exact fun _ h => nomatch h

theorem graphs_collect_eq_nil {t : Tree} :
    (collect t).graphs = [] ↔ ∀ p ∈ t.patterns, p.graph = none := by
  constructor
  · intro hnil p hp
    rw [← t.located_patterns (collect t) none] at hp
    obtain ⟨leaf, hleaf, rfl⟩ := List.mem_map.1 hp
    refine Option.eq_none_iff_forall_ne_some.2 fun g hg => ?_
    obtain ⟨g', hg', -⟩ := located_collect t leaf hleaf g hg
    rcases graph_of_located leaf hleaf g' hg' with hmem | hmem
    · rw [hnil] at hmem
      cases hmem
    · cases hmem
  · intro hnone
    refine List.eq_nil_iff_forall_not_mem.2 fun g hg => ?_
    obtain ⟨p, hp, hpg⟩ := exists_pattern_of_mem_graphs hg
    rw [hnone p hp] at hpg
    cases hpg

theorem entries_eq_nil {t : Tree} : entries t (collect t) = [] ↔ (collect t).graphs = [] := by
  rw [List.eq_nil_iff_forall_not_mem, List.eq_nil_iff_forall_not_mem]
  constructor
  · intro hnone g hg
    obtain ⟨path, hpath⟩ := mem_graphs.1 hg
    obtain ⟨u, hu⟩ := exists_of_graphAt hpath
    exact hnone ⟨path, u.kind, g⟩ (mem_entries.2 ⟨u, hu, rfl, hpath⟩)
  · intro hnone e he
    obtain ⟨u, -, -, hg⟩ := mem_entries.1 he
    exact hnone e.graph (mem_graphs.2 ⟨e.path, hg⟩)

end GraphMap

/-! ## Mirrored trees -/

namespace Tree

/-- The tree with the operands of all combinations exchanged. -/
def mirror : Tree → Tree
  | .combine c left right => .combine c (mirror right) (mirror left)
  | .filter arg condition => .filter (mirror arg) condition
  | .modify m arg => .modify m (mirror arg)
  | t => t

/-- Where the node at a path stands in the mirrored tree. -/
def mirrorPath : Tree → List Nat → List Nat
  | .combine _ left _, 0 :: path => 1 :: mirrorPath left path
  | .combine _ _ right, 1 :: path => 0 :: mirrorPath right path
  | .filter arg _, 0 :: path => 0 :: mirrorPath arg path
  | .modify _ arg, 0 :: path => 0 :: mirrorPath arg path
  | _, path => path

/-- The paths of the mirrored tree are those of the tree, each once. -/
theorem mirrorPath_mirrorPath (t : Tree) (path : List Nat) :
    t.mirror.mirrorPath (t.mirrorPath path) = path := by
  induction t generalizing path with
  | unit => rfl
  | pattern p => rfl
  | combine c left right ihl ihr =>
    match path with
    | [] => rfl
    | 0 :: path => exact congrArg (0 :: ·) (ihl path)
    | 1 :: path => exact congrArg (1 :: ·) (ihr path)
    | (_ + 2) :: path => rfl
  | filter arg e ih =>
    match path with
    | [] => rfl
    | 0 :: path => exact congrArg (0 :: ·) (ih path)
    | (_ + 1) :: path => rfl
  | modify mo arg ih =>
    match path with
    | [] => rfl
    | 0 :: path => exact congrArg (0 :: ·) (ih path)
    | (_ + 1) :: path => rfl
  | bare s => rfl

theorem at?_mirrorPath (t : Tree) (path : List Nat) :
    t.mirror.at? (t.mirrorPath path) = (t.at? path).map mirror := by
  induction t generalizing path with
  | unit => cases path <;> rfl
  | pattern p => cases path <;> rfl
  | combine c left right ihl ihr =>
    match path with
    | [] => rfl
    | 0 :: path => exact ihl path
    | 1 :: path => exact ihr path
    | (_ + 2) :: path => rfl
  | filter arg e ih =>
    match path with
    | [] => rfl
    | 0 :: path => exact ih path
    | (_ + 1) :: path => rfl
  | modify mo arg ih =>
    match path with
    | [] => rfl
    | 0 :: path => exact ih path
    | (_ + 1) :: path => rfl
  | bare s => cases path <;> rfl

end Tree

/-- No graph on both sides, or graphs that are the same. -/
abbrev SameGraphs (a b : Option Term) : Prop := Option.Rel (fun g g' => g.sameGraph g' = true) a b

theorem SameGraphs.refl (a : Option Term) : SameGraphs a a := by
  cases a with
  | none => exact .none
  | some g => exact .some g.sameGraph_refl

theorem SameGraphs.isSome {a b : Option Term} (h : SameGraphs a b) : a.isSome = b.isSome := by
  cases h <;> rfl

namespace GraphMap

theorem agreed_mirror {a a' b b' : Option Term} (ha : SameGraphs a a') (hb : SameGraphs b b') :
    SameGraphs (agreed a b) (agreed b' a') := by
  cases ha with
  | none =>
    cases hb with
    | none => exact .none
    | some hb => exact .some hb
  | @some g g' ha =>
    cases hb with
    | none => exact .some ha
    | @some k k' hb =>
      by_cases hsame : g.sameGraph k = true
      · have hk : g.sameGraph k' = true := Term.sameGraph_trans hsame hb
        have hback : k'.sameGraph g' = true :=
          Term.sameGraph_trans (Term.sameGraph_comm _ _ ▸ hk) ha
        rw [agreed, agreed, if_pos hsame, if_pos hback]
        exact .some hk
      · have hback : ¬ k'.sameGraph g' = true := by
          intro h
          have hg' : g'.sameGraph k' = true := Term.sameGraph_comm _ _ ▸ h
          have hgk' := Term.sameGraph_trans ha hg'
          exact hsame (Term.sameGraph_trans hgk' (Term.sameGraph_comm _ _ ▸ hb))
        rw [agreed, agreed, if_neg hsame, if_neg hback]
        exact .none

theorem claim_mirror (t : Tree) : SameGraphs (claim t) (claim t.mirror) := by
  induction t with
  | unit => exact .none
  | pattern p => exact SameGraphs.refl _
  | combine c left right ihl ihr => exact agreed_mirror ihl ihr
  | filter arg e ih => exact ih
  | modify mo arg ih => exact .none
  | bare s => exact .none

theorem graphAt_mirror_root (taken : Bool) (t : Tree) :
    SameGraphs ((place taken t).graphAt []) ((place taken t.mirror).graphAt []) := by
  rw [graphAt, graphAt, follow, follow, graph?_place, graph?_place]
  cases taken with
  | true => exact .none
  | false => exact claim_mirror t

theorem graphAt_mirror (taken : Bool) (t : Tree) (path : List Nat) :
    SameGraphs ((place taken t).graphAt path)
      ((place taken t.mirror).graphAt (t.mirrorPath path)) := by
  induction t generalizing taken path with
  | unit => exact SameGraphs.refl _
  | pattern p => exact SameGraphs.refl _
  | combine c left right ihl ihr =>
    -- what the mirrored node leaves to its operands is what the node leaves to them
    have hown := (claim_mirror (.combine c left right)).isSome
    match path with
    | [] => exact graphAt_mirror_root taken (.combine c left right)
    | 0 :: path =>
      show SameGraphs ((place (claim (.combine c left right)).isSome left).graphAt path)
        ((place (claim (Tree.combine c left right).mirror).isSome left.mirror).graphAt
          (left.mirrorPath path))
      rw [← hown]
      exact ihl _ path
    | 1 :: path =>
      show SameGraphs ((place (claim (.combine c left right)).isSome right).graphAt path)
        ((place (claim (Tree.combine c left right).mirror).isSome right.mirror).graphAt
          (right.mirrorPath path))
      rw [← hown]
      exact ihr _ path
    | (_ + 2) :: path => exact SameGraphs.refl _
  | filter arg e ih =>
    match path with
    | [] => exact graphAt_mirror_root taken (.filter arg e)
    | 0 :: path =>
      show SameGraphs ((place (claim arg).isSome arg).graphAt path)
        ((place (claim arg.mirror).isSome arg.mirror).graphAt (arg.mirrorPath path))
      rw [← (claim_mirror arg).isSome]
      exact ih _ path
    | 1 :: path => exact SameGraphs.refl _
    | (_ + 2) :: path => exact SameGraphs.refl _
  | modify mo arg ih =>
    match path with
    | [] => exact graphAt_mirror_root taken (.modify mo arg)
    | 0 :: path => exact ih false path
    | 1 :: path => exact SameGraphs.refl _
    | (_ + 2) :: path => exact SameGraphs.refl _
  | bare s => exact SameGraphs.refl _

end GraphMap

open GraphMap

/-- No graph of the collected map can be moved to a higher node, and none is missing; the mirrored
tree enters the same graphs at the same nodes. -/
theorem graphs_promoted (t : Tree) :
    (∀ e, e ∈ entries t (collect t) ↔ ∃ u, t.at? e.path = some u ∧ e.kind = u.kind ∧
      (collect t).graphAt e.path = some e.graph) ∧
    (∀ path u, t.at? path = some u → PromotedAt (collect t) path u) ∧
    (entries t (collect t) = [] ↔ ∀ p ∈ t.patterns, p.graph = none) ∧
    ∀ path, t.mirror.mirrorPath (t.mirrorPath path) = path ∧
      t.mirror.at? (t.mirrorPath path) = (t.at? path).map Tree.mirror ∧
      SameGraphs ((collect t).graphAt path) ((collect t.mirror).graphAt (t.mirrorPath path)) := by
  refine ⟨fun e => mem_entries, fun path u => promotedAt, ?_, ?_⟩
  · rw [entries_eq_nil, graphs_collect_eq_nil]
  · intro path
    exact ⟨t.mirrorPath_mirrorPath path, t.at?_mirrorPath path, graphAt_mirror false t path⟩

/-- Two patterns of different graphs under a filter, beside one whose graph the whole enters. -/
def filteredPair : Tree :=
  let pattern (object : String) (graph : Option Term) : Tree :=
    .pattern ⟨.var (.user "x"), .var (.user "p"), .var (.user object), graph⟩
  .modify .distinct (.union
    (.filter (.join (pattern "a" (some (.var (.user "g")))) (pattern "b" (some (.var (.user "h")))))
      (.bound (.user "a")))
    (.filter (.leftJoin (pattern "c" none) (pattern "d" (some (.var (.fresh "g")))) none)
      (.bound (.user "c"))))

/-- The filter on the left takes no graph; the union takes that of the filter on the right. -/
theorem filteredPair_promoted :
    (∃ u, filteredPair.at? [0] = some u ∧ PromotedAt (collect filteredPair) [0] u) ∧
    (collect filteredPair).graphAt [0] = some (.var (.fresh "g")) ∧
    SameGraphs ((collect filteredPair).graphAt [0, 0, 0, 1])
      ((collect filteredPair.mirror).graphAt [0, 1, 0, 0]) := by
  obtain ⟨-, hpromoted, -, hmirror⟩ := graphs_promoted filteredPair
  exact ⟨⟨_, rfl, hpromoted [0] _ rfl⟩, rfl, (hmirror [0, 0, 0, 1]).2.2⟩

end RdfQuery
