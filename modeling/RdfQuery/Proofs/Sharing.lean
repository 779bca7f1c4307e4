import RdfQuery.Proofs.Placement
import RdfQuery.Proofs.Promotion
import RdfQuery.Proofs.Sparql.Bounds

/-!
# Trees in one graph

A node that enters a graph need not have all its patterns in it: a side that
claims no graph may have patterns of several. All patterns below a node can be
matched in its graph exactly if no two operands below it claim different graphs,
and exactly if no node below it enters a different graph. In a SPARQL text a
graph block holds the block of a different graph exactly where this fails.
-/

set_option autoImplicit false

namespace RdfQuery

open GraphMap

namespace Tree

/-- Every pattern of the tree is in this graph, or names none. -/
def Shares (g : Term) (t : Tree) : Prop := ∀ p ∈ t.patterns, Covers (some g) p.graph

/-- No two operands claim different graphs, and no modifier hides the claim of another graph. -/
def Undivided (g : Term) : Tree → Prop
  | .combine _ left right =>
    (∀ a b, claim left = some a → claim right = some b → a.sameGraph b = true) ∧
      Undivided g left ∧ Undivided g right
  | .filter arg _ => Undivided g arg
  | .modify _ arg => (∀ a, claim arg = some a → g.sameGraph a = true) ∧ Undivided g arg
  | _ => True

theorem covers_some {g k : Term} : Covers (some g) (some k) ↔ g.sameGraph k = true := by
  constructor
  · intro h
    obtain ⟨g', hg', hsame⟩ := h k rfl
    cases hg'
    exact hsame
  · intro hsame k' hk'
    cases hk'
    exact ⟨g, rfl, hsame⟩

theorem shares_combine {g : Term} {c : Combination} {left right : Tree} :
    (combine c left right).Shares g ↔ left.Shares g ∧ right.Shares g := by
  simp only [Shares, patterns, List.forall_mem_append]

theorem Shares.claim {g : Term} {t : Tree} (h : t.Shares g) {k : Term}
    (hk : GraphMap.claim t = some k) : g.sameGraph k = true := by
  obtain ⟨p, hp, hpk⟩ := exists_pattern_of_claim hk
  exact covers_some.1 (hpk ▸ h p hp)

theorem Shares.undivided {g : Term} {t : Tree} (h : t.Shares g) : t.Undivided g := by
  induction t with
  | combine c left right ihl ihr =>
    obtain ⟨hleft, hright⟩ := shares_combine.1 h
    refine ⟨?_, ihl hleft, ihr hright⟩
    intro a b ha hb
    have hag : a.sameGraph g = true := g.sameGraph_comm a ▸ hleft.claim ha
    exact Term.sameGraph_trans hag (hright.claim hb)
  | filter arg e ih => exact ih h
  | modify mo arg ih => exact ⟨fun a ha => Shares.claim (t := arg) h ha, ih h⟩
  | unit => trivial
  | pattern p => trivial
  | bare s => trivial

/-- From a node that claims the graph, or claims none, the graph reaches all patterns. -/
theorem Undivided.shares {g : Term} {t : Tree} (h : t.Undivided g)
    (hclaim : ∀ k, claim t = some k → g.sameGraph k = true) : t.Shares g := by
  induction t with
  | unit =>
    intro p hp
    cases hp
  | pattern p =>
    intro q hq
    rw [List.mem_singleton.1 hq]
    intro k hk
    exact ⟨g, rfl, hclaim k hk⟩
  | combine c left right ihl ihr =>
    obtain ⟨hagree, hleft, hright⟩ := h
    have hsides : (∀ k, GraphMap.claim left = some k → g.sameGraph k = true) ∧
        ∀ k, GraphMap.claim right = some k → g.sameGraph k = true := by
      simp only [GraphMap.claim] at hclaim
      cases hl : GraphMap.claim left with
      | none =>
        rw [hl] at hclaim
        refine ⟨fun k hk => ?_, hclaim⟩
        cases hk
      | some a =>
        cases hr : GraphMap.claim right with
        | none =>
          rw [hl, hr] at hclaim
          refine ⟨hclaim, fun k hk => ?_⟩
          cases hk
        | some b =>
          have hab := hagree a b hl hr
          have hga : g.sameGraph a = true := hclaim a (by rw [hl, hr, agreed, if_pos hab])
          constructor
          · intro k hk
            cases hk
            exact hga
          · intro k hk
            cases hk
            exact Term.sameGraph_trans hga hab
    exact shares_combine.2 ⟨ihl hleft hsides.1, ihr hright hsides.2⟩
  | filter arg e ih => exact ih h hclaim
  | modify mo arg ih => exact ih h.2 h.1
  | bare s =>
    intro p hp
    cases hp

theorem shares_iff_graphs {g : Term} {t : Tree} :
    t.Shares g ↔ ∀ k ∈ (collect t).graphs, g.sameGraph k = true := by
  constructor
  · intro h k hk
    obtain ⟨p, hp, hpk⟩ := exists_pattern_of_mem_graphs hk
    exact covers_some.1 (hpk ▸ h p hp)
  · intro h p hp
    rw [← t.located_patterns (collect t) none] at hp
    obtain ⟨leaf, hleaf, rfl⟩ := List.mem_map.1 hp
    intro k hk
    obtain ⟨k', hk', hsame⟩ := located_collect t leaf hleaf k hk
    have hmem := (graph_of_located leaf hleaf k' hk').resolve_right nofun
    exact ⟨g, rfl, Term.sameGraph_trans (h k' hmem) hsame⟩

end Tree

namespace GraphMap

/-- A node that enters a graph has taken nothing from itself: the map goes on as if from a root. -/
theorem follow_of_graphAt {t u : Tree} {path : List Nat} (h : t.at? path = some u) {g : Term}
    (hg : (collect t).graphAt path = some g) : (collect t).follow path = collect u := by
  obtain ⟨taken, hplace⟩ := follow_place h false
  rw [graphAt, collect, hplace, graph?_place] at hg
  cases taken with
  | true => cases hg
  | false => exact hplace

/-- Below a node that enters a graph, none enters a different one. -/
def Unmixed : GraphMap → Prop
  | .empty => True
  | .node own left right =>
    (∀ g ∈ own, ∀ k ∈ left.graphs ++ right.graphs, g.sameGraph k = true) ∧
      left.Unmixed ∧ right.Unmixed

theorem mem_graphs_node {own : Option Term} {left right : GraphMap} {k : Term} :
    k ∈ (node own left right).graphs ↔ own = some k ∨ k ∈ left.graphs ++ right.graphs := by
  rw [graphs, List.append_assoc, List.mem_append, Option.mem_toList]

theorem unmixed_iff {m : GraphMap} : m.Unmixed ↔
    ∀ path g, m.graphAt path = some g → ∀ k ∈ (m.follow path).graphs, g.sameGraph k = true := by
  induction m with
  | empty =>
    refine ⟨fun _ path g h => ?_, fun _ => trivial⟩
    exact absurd ((graphAt_empty path).symm.trans h) nofun
  | node own left right ihl ihr =>
    rw [Unmixed, ihl, ihr]
    constructor
    · rintro ⟨hown, hleft, hright⟩ path g hg k hk
      match path, hg, hk with
      | [], hg, hk =>
        rcases mem_graphs_node.1 hk with hself | hk
        · cases Option.some.inj (hself.symm.trans hg)
          exact Term.sameGraph_refl _
        · exact hown g hg k hk
      | 0 :: path, hg, hk => exact hleft path g hg k hk
      | 1 :: path, hg, hk => exact hright path g hg k hk
      | (_ + 2) :: path, hg, hk => exact absurd ((graphAt_empty path).symm.trans hg) nofun
    · intro h
      refine ⟨?_, fun path => h (0 :: path), fun path => h (1 :: path)⟩
      exact fun g hg k hk => h [] g hg k (mem_graphs_node.2 (Or.inr hk))

/-- Every node shares its graph exactly if no graph is entered below a different one. -/
theorem unmixed_collect {t : Tree} : (collect t).Unmixed ↔
    ∀ path g u, t.at? path = some u → (collect t).graphAt path = some g → u.Shares g := by
  rw [unmixed_iff]
  constructor
  · intro h path g u hu hg
    have hgraphs := h path g hg
    rw [follow_of_graphAt hu hg] at hgraphs
    exact Tree.shares_iff_graphs.2 hgraphs
  · intro h path g hg
    obtain ⟨u, hu⟩ := exists_of_graphAt hg
    rw [follow_of_graphAt hu hg]
    exact Tree.shares_iff_graphs.1 (h path g u hu hg)

/-- The modifiers above the body enter no graphs. -/
theorem unmixed_peelFrom (filled : List Slot) (t : Tree) : (collect t).Unmixed ↔
    (Outline.peelFrom filled t).body.elim True fun body => (collect body).Unmixed := by
  induction filled, t using Outline.peel_induction with
  | stops filled t hstops =>
    rw [Outline.peelFrom_stopped hstops]
    rfl
  | bare filled s hs =>
    rw [Outline.peelFrom_bare_free hs]
    exact Iff.rfl
  | modify filled mo arg hmo ih =>
    rw [Outline.peelFrom_free hmo, Outline.record_body]
    show (∀ g ∈ (none : Option Term), _) ∧ (collect arg).Unmixed ∧ True ↔ _
    rw [and_true, and_iff_right nofun]
    exact ih

end GraphMap

/-! ## Graph blocks -/

namespace Sparql

mutual

/-- The graphs whose blocks stand in an element. -/
def Element.graphs : Element → List Term
  | .triple _ _ _ => []
  | .filter _ => []
  | .optional body => graphsIn body
  | .minus body => graphsIn body
  | .union left right => graphsIn left ++ graphsIn right
  | .graph name body => name :: graphsIn body

def graphsIn : List Element → List Term
  | [] => []
  | e :: es => e.graphs ++ graphsIn es

end

mutual

/-- No graph block holds the block of a different graph. -/
def Element.Unmixed : Element → Prop
  | .triple _ _ _ => True
  | .filter _ => True
  | .optional body => UnmixedIn body
  | .minus body => UnmixedIn body
  | .union left right => UnmixedIn left ∧ UnmixedIn right
  | .graph name body => (∀ k ∈ graphsIn body, name.sameGraph k = true) ∧ UnmixedIn body

def UnmixedIn : List Element → Prop
  | [] => True
  | e :: es => e.Unmixed ∧ UnmixedIn es

end

theorem graphsIn_append (xs ys : List Element) :
    graphsIn (xs ++ ys) = graphsIn xs ++ graphsIn ys := by
  induction xs with
  | nil => rfl
  | cons x xs ih => rw [List.cons_append, graphsIn, graphsIn, ih, List.append_assoc]

theorem unmixedIn_append (xs ys : List Element) :
    UnmixedIn (xs ++ ys) ↔ UnmixedIn xs ∧ UnmixedIn ys := by
  induction xs with
  | nil => exact (and_iff_right trivial).symm
  | cons x xs ih => rw [List.cons_append, UnmixedIn, UnmixedIn, ih, and_assoc]

theorem graphsIn_enter (graph : Option Term) (body : List Element) :
    graphsIn (enter graph body) = graph.toList ++ graphsIn body := by
  cases graph with
  | none => rfl
  | some g => exact List.append_nil _

theorem unmixedIn_enter (graph : Option Term) (body : List Element) :
    UnmixedIn (enter graph body) ↔
      (∀ g ∈ graph, ∀ k ∈ graphsIn body, g.sameGraph k = true) ∧ UnmixedIn body := by
  cases graph with
  | none => exact (and_iff_right nofun).symm
  | some g => simp [enter, UnmixedIn, Element.Unmixed]

theorem graphsIn_conditions (condition : Option Expr) :
    graphsIn (conditionElements condition) = [] := by
  cases condition <;> rfl

theorem unmixedIn_conditions (condition : Option Expr) : UnmixedIn (conditionElements condition) := by
  cases condition <;> simp [conditionElements, UnmixedIn, Element.Unmixed]

theorem graphsIn_combined (left right : List Element) {c : Combination} (hc : supports c = true) :
    graphsIn (combined left right c) = graphsIn left ++ graphsIn right := by
  cases c with
  | join => exact graphsIn_append left right
  | leftJoin condition =>
    simp only [combined, graphsIn_append, graphsIn, Element.graphs, graphsIn_conditions,
      List.append_nil]
  | union => exact List.append_nil _
  | difference => simp only [combined, graphsIn_append, graphsIn, Element.graphs, List.append_nil]
  | intersection => cases hc

theorem unmixedIn_combined (left right : List Element) {c : Combination} (hc : supports c = true) :
    UnmixedIn (combined left right c) ↔ UnmixedIn left ∧ UnmixedIn right := by
  cases c with
  | join => exact unmixedIn_append left right
  | leftJoin condition =>
    simp only [combined, unmixedIn_append, UnmixedIn, Element.Unmixed, and_true,
      and_iff_left (unmixedIn_conditions condition)]
  | union => simp only [combined, UnmixedIn, Element.Unmixed, and_true]
  | difference => simp only [combined, unmixedIn_append, UnmixedIn, Element.Unmixed, and_true]
  | intersection => cases hc

/-- The blocks of a body are nested as its map enters their graphs. -/
theorem unmixedIn_elements {taken : Bool} {t : Tree} {es : List Element}
    (h : elements t (place taken t) = .ok es) :
    graphsIn es = (place taken t).graphs ∧ (UnmixedIn es ↔ (place taken t).Unmixed) := by
  induction t generalizing taken es with
  | unit =>
    cases h
    exact ⟨rfl, Iff.rfl⟩
  | pattern p =>
    cases h
    refine ⟨?_, ?_⟩
    · rw [graphsIn_enter]
      exact (List.append_nil _).symm
    · rw [unmixedIn_enter]
      exact Iff.rfl
  | combine c left right ihl ihr =>
    obtain ⟨hc, ls, rs, hl, hr, rfl⟩ := elements_combine h
    obtain ⟨hlg, hlu⟩ := ihl hl
    obtain ⟨hrg, hru⟩ := ihr hr
    have hgraphs := graphsIn_combined ls rs hc
    rw [hlg, hrg] at hgraphs
    refine ⟨?_, ?_⟩
    · rw [graphsIn_enter, hgraphs, ← List.append_assoc]
      rfl
    · rw [unmixedIn_enter, unmixedIn_combined _ _ hc, hgraphs, hlu, hru]
      rfl
  | filter arg e ih =>
    obtain ⟨body, hbody, rfl⟩ := elements_filter h
    obtain ⟨hgraphs, hunmixed⟩ := ih hbody
    have hfilter : graphsIn (body ++ [.filter e]) = graphsIn body := by
      rw [graphsIn_append]
      exact List.append_nil _
    refine ⟨?_, ?_⟩
    · rw [graphsIn_enter, hfilter, hgraphs]
      exact (List.append_nil _).symm
    · have hlast : UnmixedIn [.filter e] := ⟨trivial, trivial⟩
      rw [unmixedIn_enter, unmixedIn_append, hfilter, hgraphs, hunmixed, and_iff_left hlast]
      show _ ↔ (∀ g ∈ _, ∀ k ∈ (place _ arg).graphs ++ [], _) ∧ (place _ arg).Unmixed ∧ True
      rw [List.append_nil, and_true]
      rfl
  | modify mo arg ih => cases h
  | bare s => cases h

/-- The elements of the where-block. -/
def Document.elements (d : Document) : List Element := d.block.elim [] Block.elements

theorem bodyElements_of_document {n : Naming} {q : Query} {m : GraphMap} {d : Document}
    (h : document n q m = .ok d) : bodyElements (Outline.peel q.tree) m = .ok d.elements := by
  obtain ⟨f, -, h⟩ := Outcome.bind_eq_ok.1 h
  obtain ⟨b, hblock, h⟩ := Outcome.bind_eq_ok.1 h
  cases h
  unfold block at hblock
  split at hblock
  · rename_i hnone
    cases hblock
    rw [bodyElements, hnone]
    rfl
  · obtain ⟨es, hes, hblock⟩ := Outcome.bind_eq_ok.1 hblock
    cases hblock
    exact hes

theorem unmixedIn_document {n : Naming} {q : Query} {d : Document}
    (h : document n q (collect q.tree) = .ok d) :
    UnmixedIn d.elements ↔ (collect q.tree).Unmixed := by
  have helements := bodyElements_of_document h
  rw [bodyElements_peel] at helements
  rw [unmixed_peelFrom [] q.tree]
  show _ ↔ (Outline.peel q.tree).body.elim True _
  cases hbody : (Outline.peel q.tree).body with
  | none =>
    rw [hbody] at helements
    rw [← Except.ok.inj helements]
    rfl
  | some body =>
    rw [hbody] at helements
    exact (unmixedIn_elements helements).2

end Sparql

/-- When the patterns below a node that enters a graph are all in this graph, said of the tree, of
the map and of the text. -/
theorem shared_exactly (t : Tree) :
    (∀ path g, (collect t).graphAt path = some g → ∃ u, t.at? path = some u ∧
      (u.Shares g ↔ u.Undivided g) ∧
      (u.Shares g ↔ ∀ k ∈ ((collect t).follow path).graphs, g.sameGraph k = true)) ∧
    ∀ s q text, q.tree = t → Sparql.render s q = .ok text →
      ∃ d, Sparql.document (Naming.ofStyle s) q (collect t) = .ok d ∧
        text = d.text (Sparql.Pen.ofStyle s) ∧
        (Sparql.UnmixedIn d.elements ↔
          ∀ path g u, t.at? path = some u → (collect t).graphAt path = some g → u.Shares g) := by
  constructor
  · intro path g hg
    obtain ⟨u, hu⟩ := exists_of_graphAt hg
    have hclaim : ∀ k, claim u = some k → g.sameGraph k = true := by
      intro k hk
      cases (claim_of_graphAt hu hg).symm.trans hk
      exact g.sameGraph_refl
    refine ⟨u, hu, ⟨Tree.Shares.undivided, fun h => h.shares hclaim⟩, ?_⟩
    rw [follow_of_graphAt hu hg]
    exact Tree.shares_iff_graphs
  · rintro s q text rfl h
    obtain ⟨d, hd, h⟩ := Outcome.bind_eq_ok.1 h
    cases h
    exact ⟨d, hd, rfl, (Sparql.unmixedIn_document hd).trans unmixed_collect⟩

/-- The pattern beside the optional one names no graph and is taken along. -/
def optionalGraph : Tree :=
  .leftJoin (.pattern ⟨.var (.user "x"), .var (.user "p"), .var (.user "a"), none⟩)
    (.pattern ⟨.var (.user "x"), .var (.user "p"), .var (.user "b"), some (.var (.user "g"))⟩) none

theorem optionalGraph_shared :
    (collect optionalGraph).graphAt [] = some (.var (.user "g")) ∧
    optionalGraph.Shares (.var (.user "g")) ∧
    ∃ text, Sparql.render Style.default (Sparql.treeQuery optionalGraph) = .ok text ∧
      ∃ d : Sparql.Document, text = d.text (Sparql.Pen.ofStyle Style.default) ∧
        (Sparql.UnmixedIn d.elements ↔ ∀ path g u, optionalGraph.at? path = some u →
          (collect optionalGraph).graphAt path = some g → u.Shares g) := by
  obtain ⟨hnodes, htexts⟩ := shared_exactly optionalGraph
  obtain ⟨u, hu, hshares, -⟩ := hnodes [] _ rfl
  cases hu
  obtain ⟨text, htext⟩ :
      ∃ text, Sparql.render Style.default (Sparql.treeQuery optionalGraph) = .ok text := ⟨_, rfl⟩
  obtain ⟨d, -, hd⟩ := htexts Style.default _ text rfl htext
  exact ⟨rfl, hshares.2 ⟨nofun, trivial, trivial⟩, text, htext, d, hd⟩

/-- A pattern of a third graph beside two patterns of different graphs. -/
def thirdGraph : Tree :=
  let pattern (object graph : String) : Tree :=
    .pattern ⟨.var (.user "x"), .var (.user "p"), .var (.user object), some (.var (.user graph))⟩
  .join (.join (pattern "a" "g") (pattern "b" "h")) (pattern "c" "k")

/-- The third graph is entered at the root, above the blocks of the other two. -/
theorem thirdGraph_not_shared :
    (collect thirdGraph).graphAt [] = some (.var (.user "k")) ∧
    ¬ thirdGraph.Shares (.var (.user "k")) ∧
    ∃ body, Sparql.elements thirdGraph (collect thirdGraph) =
        .ok [.graph (.var (.user "k")) body] ∧
      Sparql.graphsIn body = [.var (.user "g"), .var (.user "h")] := by
  refine ⟨rfl, ?_, _, rfl, rfl⟩
  intro h
  have hsame := Tree.covers_some.1 (h _ List.mem_cons_self)
  revert hsame
  decide

end RdfQuery
