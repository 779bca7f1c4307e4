import RdfQuery.Proofs.Serql.Conservation
import RdfQuery.Sparql.Document

/-!
# Patterns in the graphs they are written in

In SPARQL a pattern is written directly inside its innermost graph block, in
SeRQL in the clause of a context. Under the collected map both languages write
a pattern in the graph it lies in, which is its own graph if it has one.
-/

set_option autoImplicit false

namespace RdfQuery

namespace Sparql

mutual

/-- The triples of an element, each with the innermost graph block around it. -/
def Element.placed (outer : Option Term) : Element → List (Option Term × Triple)
  | .triple subject predicate object => [(outer, (subject, predicate, object))]
  | .filter _ => []
  | .optional body => placedIn outer body
  | .minus body => placedIn outer body
  | .union left right => placedIn outer left ++ placedIn outer right
  | .graph name body => placedIn (some name) body

def placedIn (outer : Option Term) : List Element → List (Option Term × Triple)
  | [] => []
  | e :: es => e.placed outer ++ placedIn outer es

end

theorem placedIn_append (outer : Option Term) (xs ys : List Element) :
    placedIn outer (xs ++ ys) = placedIn outer xs ++ placedIn outer ys := by
  induction xs with
  | nil => rfl
  | cons x xs ih => simp [placedIn, ih]

theorem placedIn_conditionElements (outer : Option Term) (condition : Option Expr) :
    placedIn outer (conditionElements condition) = [] := by
  cases condition <;> rfl

/-- A node that enters a graph puts its elements into a block of that graph. -/
theorem placedIn_enter (graph outer : Option Term) (body : List Element) :
    placedIn outer (enter graph body) = placedIn (graph.or outer) body := by
  cases graph with
  | none => rfl
  | some g => exact List.append_nil _

theorem placedIn_combined (outer : Option Term) (left right : List Element) {c : Combination}
    (hc : supports c = true) :
    placedIn outer (combined left right c) = placedIn outer left ++ placedIn outer right := by
  cases c with
  | join => exact placedIn_append outer left right
  | leftJoin condition =>
    simp only [combined, placedIn_append, placedIn, Element.placed, placedIn_conditionElements,
      List.append_nil]
  | union => exact List.append_nil _
  | difference => simp only [combined, placedIn_append, placedIn, Element.placed, List.append_nil]
  | intersection => cases hc

/-- Elements of an operand and of the whole: what an accepted combination is made of. -/
theorem elements_combine {c : Combination} {left right : Tree} {m : GraphMap} {es : List Element}
    (h : elements (.combine c left right) m = .ok es) :
    supports c = true ∧ ∃ ls rs, elements left m.left = .ok ls ∧ elements right m.right = .ok rs ∧
      es = enter m.graph? (combined ls rs c) := by
  simp only [elements] at h
  split at h
  · cases h
  · rename_i hc
    obtain ⟨ls, hl, h⟩ := Outcome.bind_eq_ok.1 h
    obtain ⟨rs, hr, h⟩ := Outcome.bind_eq_ok.1 h
    cases h
    exact ⟨by simpa using hc, ls, rs, hl, hr, rfl⟩

theorem elements_filter {arg : Tree} {e : Expr} {m : GraphMap} {es : List Element}
    (h : elements (.filter arg e) m = .ok es) :
    ∃ body, elements arg m.left = .ok body ∧ es = enter m.graph? (body ++ [.filter e]) := by
  obtain ⟨body, hbody, h⟩ := Outcome.bind_eq_ok.1 h
  cases h
  exact ⟨body, hbody, rfl⟩

theorem placedIn_elements {t : Tree} {m : GraphMap} {outer : Option Term} {es : List Element}
    (h : elements t m = .ok es) :
    placedIn outer es = (t.located m outer).map fun l => (l.2, l.1.triple) := by
  induction t generalizing m outer es with
  | unit =>
    cases h
    exact placedIn_enter _ _ _
  | pattern p =>
    cases h
    exact placedIn_enter _ _ _
  | combine c left right ihl ihr =>
    obtain ⟨hc, ls, rs, hl, hr, rfl⟩ := elements_combine h
    rw [placedIn_enter, placedIn_combined _ _ _ hc, ihl hl, ihr hr, ← List.map_append]
    rfl
  | filter arg e ih =>
    obtain ⟨body, hbody, rfl⟩ := elements_filter h
    rw [placedIn_enter, placedIn_append, ih hbody]
    exact List.append_nil _
  | modify mo arg ih => cases h
  | bare s => cases h

/-- The triples of the where-block of a document. -/
def Document.placed (d : Document) : List (Option Term × Triple) :=
  d.block.elim [] fun b => placedIn none b.elements

theorem placed_document {n : Naming} {t : Tree} {d : Document}
    (h : document n (treeQuery t) (GraphMap.collect t) = .ok d) :
    d.placed = (t.located (GraphMap.collect t) none).map fun l => (l.2, l.1.triple) := by
  obtain ⟨form, -, h⟩ := Outcome.bind_eq_ok.1 h
  obtain ⟨block, hblock, h⟩ := Outcome.bind_eq_ok.1 h
  cases h
  have hkind : ∃ es bs, bodyElements (Outline.peel t) (GraphMap.collect t) = .ok es ∧
      block = some ⟨es, bs⟩ := by
    simp only [treeQuery] at hblock
    cases hshape : (Outline.peel t).shape with
    | select =>
      rw [hshape] at hblock
      obtain ⟨es, hes, hblock⟩ := Outcome.bind_eq_ok.1 hblock
      cases hblock
      exact ⟨es, _, hes, rfl⟩
    | construct =>
      rw [hshape] at hblock
      obtain ⟨es, hes, hblock⟩ := Outcome.bind_eq_ok.1 hblock
      cases hblock
      exact ⟨es, _, hes, rfl⟩
  obtain ⟨es, bs, hes, rfl⟩ := hkind
  simp only [Document.placed, Option.elim]
  unfold bodyElements at hes
  split at hes
  · rename_i body hbody
    rw [Outline.peel, GraphMap.collect_descend [] hbody] at hes
    rw [placedIn_elements hes, GraphMap.located_collect_body [] hbody]
  · rename_i hnone
    cases hes
    rw [Tree.located_eq_nil hnone]
    rfl

end Sparql

namespace Serql

def Body.placed (b : Body) : List Placed := b.subqueries.flatMap Clauses.placed

theorem placed_collectBody {n : Naming} {t : Tree} {m : GraphMap} {outer : Option Term} {b : Body}
    (h : collectBody n t m outer = .ok b) :
    b.placed.Perm ((t.located m outer).map fun l => (contextOf n l.2, l.1.triple)) := by
  obtain ⟨hcollectable, rfl⟩ := collectBody_eq h
  simpa [Body.placed, Body.subqueries] using placed_gather hcollectable t.ownConditions

theorem placed_body {n : Naming} {t : Tree} {m : GraphMap} {outer : Option Term} {b : Body}
    (h : body n t m outer = .ok b) :
    b.placed.Perm ((t.located m outer).map fun l => (contextOf n l.2, l.1.triple)) := by
  induction t generalizing m outer b with
  | combine c left right ihl ihr =>
    simp only [body] at h
    split at h
    · obtain ⟨bl, hleft, h⟩ := Outcome.bind_eq_ok.1 h
      obtain ⟨br, hright, h⟩ := Outcome.bind_eq_ok.1 h
      cases h
      have hboth := (ihl hleft).append (ihr hright)
      simp only [Body.placed, Body.subqueries, List.flatMap_append, Tree.located, List.map_append]
      exact hboth
    · exact placed_collectBody h
  | unit => exact placed_collectBody h
  | pattern p => exact placed_collectBody h
  | filter arg e ih => exact placed_collectBody h
  | modify mo arg ih => exact placed_collectBody h
  | bare s => exact placed_collectBody h

/-- The paths of a document with the contexts of their clauses. -/
def Document.placed (d : Document) : List Placed := d.body.elim [] Body.placed

theorem placed_document {n : Naming} {t : Tree} {d : Document}
    (h : document n t (GraphMap.collect t) = .ok d) :
    d.placed.Perm ((t.located (GraphMap.collect t) none).map
      fun l => (contextOf n l.2, l.1.triple)) := by
  obtain ⟨head, -, h⟩ := Outcome.bind_eq_ok.1 h
  obtain ⟨body, hbody, h⟩ := Outcome.bind_eq_ok.1 h
  cases h
  simp only [Document.placed]
  unfold outlineBody at hbody
  split at hbody
  · rename_i inner hinner
    obtain ⟨b, hb, hbody⟩ := Outcome.bind_eq_ok.1 hbody
    cases hbody
    rw [Outline.peel, GraphMap.collect_descend [] hinner] at hb
    rw [GraphMap.located_collect_body [] hinner]
    exact placed_body hb
  · rename_i hnone
    cases hbody
    rw [Tree.located_eq_nil hnone]
    exact List.Perm.refl _

end Serql

/-! ## The same graphs in both languages -/

/-- There is one assignment of graphs to the pattern leaves, which keeps every graph of their own,
such that both languages write each leaf in the graph that is assigned to it. In SeRQL that graph
is told by the context of the clause, which is the text of no other graph. -/
theorem patterns_placed (s : Style) (t : Tree) (hfull : s.compactIris = false) (ht : t.Worded) :
    ∃ leaves : List (TriplePattern × Option Term),
      leaves.map Prod.fst = t.patterns ∧
      (∀ leaf ∈ leaves, Covers leaf.2 leaf.1.graph) ∧
      (∀ text, Sparql.renderTree s t (GraphMap.collect t) = .ok text →
        ∃ d, Sparql.document (Naming.ofStyle s) (Sparql.treeQuery t) (GraphMap.collect t) = .ok d ∧
          text = d.text (Sparql.Pen.ofStyle s) ∧
          d.placed = leaves.map fun leaf => (leaf.2, leaf.1.triple)) ∧
      ∀ text, Serql.renderTree s t (GraphMap.collect t) = .ok text →
        ∃ d, Serql.document (Naming.ofStyle s) t (GraphMap.collect t) = .ok d ∧
          text = d.text s ∧
          d.placed.Perm (leaves.map fun leaf =>
            (Serql.contextOf (Naming.ofStyle s) leaf.2, leaf.1.triple)) ∧
          ∀ leaf ∈ leaves, ∀ g : Option Term, (∀ u ∈ g, u.Worded) →
            Serql.contextOf (Naming.ofStyle s) g = Serql.contextOf (Naming.ofStyle s) leaf.2 →
            g.map Term.plain = leaf.2.map Term.plain := by
  refine ⟨t.located (GraphMap.collect t) none, t.located_patterns _ _,
    GraphMap.located_collect t, ?_, ?_⟩
  · intro text h
    obtain ⟨d, hd, h⟩ := Outcome.bind_eq_ok.1 h
    cases h
    exact ⟨d, hd, rfl, Sparql.placed_document hd⟩
  · intro text h
    obtain ⟨d, hd, h⟩ := Outcome.bind_eq_ok.1 h
    cases h
    refine ⟨d, hd, rfl, Serql.placed_document hd, ?_⟩
    intro leaf hleaf g hg hcontext
    have hnone : ∀ g ∈ (none : Option Term), g.Worded := fun _ h => nomatch h
    have hworded := Tree.located_worded (GraphMap.collect_worded ht) hnone leaf hleaf
    rw [Naming.ofStyle_full hfull] at hcontext
    exact (Serql.contextOf_eq_iff hg hworded).1 hcontext

/-- Three graphs: two that their join cannot share, and one that the whole enters because a side
without a graph leaves it free. -/
def nestedGraphs : Tree :=
  let pattern (object : String) (graph : Option Term) : Tree :=
    .pattern ⟨.var (.user "x"), .var (.user "p"), .var (.user object), graph⟩
  .join (.join (pattern "a" (some (.var (.user "g")))) (pattern "b" (some (.var (.fresh "h")))))
    (.filter (.leftJoin (pattern "c" (some (.var (.user "k")))) (pattern "d" none) none)
      (.bound (.user "d")))

/-- The leaves with the graphs they are written in. The one without a graph of its own is written
in the graph that the whole enters. -/
def nestedPlaces : List (TriplePattern × Option Term) :=
  nestedGraphs.patterns.zip
    [some (.var (.user "g")), some (.var (.fresh "h")), some (.var (.user "k")),
      some (.var (.user "k"))]

theorem nestedGraphs_placed :
    Style.default.compactIris = false ∧ nestedGraphs.Worded ∧
    (∀ leaf ∈ nestedPlaces, Covers leaf.2 leaf.1.graph) ∧
    (∃ d, Sparql.renderTree Style.default nestedGraphs (GraphMap.collect nestedGraphs) =
        .ok (d.text (Sparql.Pen.ofStyle Style.default)) ∧
      Sparql.document (Naming.ofStyle Style.default) (Sparql.treeQuery nestedGraphs)
        (GraphMap.collect nestedGraphs) = .ok d ∧
      d.placed = nestedPlaces.map fun leaf => (leaf.2, leaf.1.triple)) ∧
    ∃ d, Serql.renderTree Style.default nestedGraphs (GraphMap.collect nestedGraphs) =
        .ok (d.text Style.default) ∧
      Serql.document (Naming.ofStyle Style.default) nestedGraphs
        (GraphMap.collect nestedGraphs) = .ok d ∧
      d.placed.Perm (nestedPlaces.map fun leaf =>
        (Serql.contextOf (Naming.ofStyle Style.default) leaf.2, leaf.1.triple)) ∧
      d.placed.map Prod.fst = [some "g", some "h", some "k", some "k"] := by
  have hworded : nestedGraphs.Worded := by decide +kernel
  obtain ⟨leaves, hpatterns, hcovers, hsparql, hserql⟩ :=
    patterns_placed Style.default nestedGraphs rfl hworded
  obtain ⟨d, hd, htext, hplaced⟩ := hsparql _ rfl
  obtain ⟨d', hd', htext', hplaced', -⟩ := hserql _ rfl
  -- The blocks of the SPARQL document tell which assignment it is.
  have hgraphs : leaves.map Prod.snd = d.placed.map Prod.fst := by
    rw [hplaced, List.map_map]
    rfl
  cases hd
  cases hd'
  have hleaves : leaves = nestedPlaces := List.zip_of_prod hpatterns hgraphs
  subst hleaves
  exact ⟨rfl, hworded, hcovers, ⟨_, rfl, rfl, hplaced⟩, _, rfl, rfl, hplaced', rfl⟩

end RdfQuery
