import RdfQuery.GraphMap
import RdfQuery.Proofs.Outline
import RdfQuery.Proofs.Words

/-!
# The graphs of pattern leaves

A pattern leaf lies in the graph that the nearest node above it enters, the
leaf itself included. In the collected map that graph is the leaf's own where
the leaf has one: a node gives its graph up only to a parent that enters the
same graph.
-/

set_option autoImplicit false

namespace RdfQuery

/-- A pattern without its graph. -/
abbrev Triple := Term × Term × Term

def TriplePattern.triple (p : TriplePattern) : Triple := (p.subject, p.predicate, p.object)

namespace Tree

/-- The pattern leaves with the graphs they lie in; `outer` is the graph around the tree. -/
def located : Tree → GraphMap → (outer : Option Term) → List (TriplePattern × Option Term)
  | .unit, _, _ => []
  | .pattern p, m, outer => [(p, m.graph?.or outer)]
  | .combine _ left right, m, outer =>
    located left m.left (m.graph?.or outer) ++ located right m.right (m.graph?.or outer)
  | .filter arg _, m, outer => located arg m.left (m.graph?.or outer)
  | .modify _ arg, m, outer => located arg m.left (m.graph?.or outer)
  | .bare _, _, _ => []

theorem located_patterns (t : Tree) (m : GraphMap) (outer : Option Term) :
    (t.located m outer).map Prod.fst = t.patterns := by
  induction t generalizing m outer with
  | unit => rfl
  | pattern p => rfl
  | combine c l r ihl ihr => simp [located, patterns, ihl, ihr]
  | filter arg e ih => exact ih _ _
  | modify mo arg ih => exact ih _ _
  | bare s => rfl

end Tree

/-- A graph, if there is one here, is entered there as well. -/
def Covers (outer own : Option Term) : Prop :=
  ∀ g, own = some g → ∃ g', outer = some g' ∧ g'.sameGraph g = true

theorem Covers.refl (g : Option Term) : Covers g g := fun own h => ⟨own, h, own.sameGraph_refl⟩

theorem Covers.none (outer : Option Term) : Covers outer none := fun _ h => nomatch h

theorem Covers.trans {a b c : Option Term} (hab : Covers a b) (hbc : Covers b c) : Covers a c := by
  intro g hg
  obtain ⟨g', hg', hsame⟩ := hbc g hg
  obtain ⟨g'', hg'', hsame'⟩ := hab g' hg'
  exact ⟨g'', hg'', Term.sameGraph_trans hsame' hsame⟩

namespace GraphMap

theorem agreed_covers {a b : Option Term} (h : (agreed a b).isSome = true) :
    Covers (agreed a b) a ∧ Covers (agreed a b) b := by
  cases a with
  | none => exact ⟨Covers.none _, Covers.refl b⟩
  | some a =>
    cases b with
    | none => exact ⟨Covers.refl _, Covers.none _⟩
    | some b =>
      by_cases hab : a.sameGraph b = true
      · simp only [agreed, if_pos hab]
        refine ⟨Covers.refl _, ?_⟩
        intro g hg
        cases hg
        exact ⟨a, rfl, hab⟩
      · simp only [agreed, if_neg hab] at h
        cases h

/-- What a node enters together with the graph around it covers its claim. -/
theorem entered_covers {taken : Bool} {own outer : Option Term}
    (h : taken = true → Covers outer own) :
    Covers ((if taken then none else own).or outer) own := by
  cases taken with
  | true => exact h rfl
  | false =>
    intro g hg
    exact ⟨g, by simp [hg], g.sameGraph_refl⟩

/-- The invariant of the collected map: a claim that was taken is covered from outside. -/
theorem located_place (taken : Bool) (t : Tree) (outer : Option Term)
    (h : taken = true → Covers outer (claim t)) :
    ∀ l ∈ t.located (place taken t) outer, Covers l.2 l.1.graph := by
  induction t generalizing taken outer with
  | unit => exact fun _ hl => absurd hl List.not_mem_nil
  | pattern p =>
    intro l hl
    simp only [Tree.located, List.mem_singleton] at hl
    subst hl
    exact entered_covers h
  | combine c left right ihl ihr =>
    have hown := entered_covers h
    intro l hl
    rcases List.mem_append.1 hl with hl | hl
    · exact ihl _ _ (fun hsome => hown.trans (agreed_covers hsome).1) l hl
    · exact ihr _ _ (fun hsome => hown.trans (agreed_covers hsome).2) l hl
  | filter arg e ih =>
    exact ih _ _ fun _ => entered_covers h
  | modify mo arg ih =>
    exact ih false _ fun hf => absurd hf Bool.false_ne_true
  | bare s => exact fun _ hl => absurd hl List.not_mem_nil

theorem located_collect (t : Tree) :
    ∀ l ∈ t.located (collect t) none, Covers l.2 l.1.graph :=
  located_place false t none fun hf => nomatch hf

/-! ## The graphs of a map -/

def graphs : GraphMap → List Term
  | .empty => []
  | .node g left right => g.toList ++ left.graphs ++ right.graphs

theorem graphs_eq_nil {m : GraphMap} (h : m.graphs = []) :
    m.graph? = none ∧ m.left.graphs = [] ∧ m.right.graphs = [] := by
  cases m with
  | empty => exact ⟨rfl, rfl, rfl⟩
  | node g left right =>
    simp only [graphs, List.append_eq_nil_iff, Option.toList_eq_nil_iff] at h
    exact ⟨h.1.1, h.1.2, h.2⟩

theorem graphs_left (m : GraphMap) : m.left.graphs ⊆ m.graphs := by
  cases m with
  | empty => exact List.Subset.refl _
  | node g l r => exact fun t ht => by simp [graphs, show t ∈ l.graphs from ht]

theorem graphs_right (m : GraphMap) : m.right.graphs ⊆ m.graphs := by
  cases m with
  | empty => exact List.Subset.refl _
  | node g l r => exact fun t ht => by simp [graphs, show t ∈ r.graphs from ht]

theorem graphs_descend (m : GraphMap) (steps : Nat) : (m.descend steps).graphs ⊆ m.graphs := by
  induction steps generalizing m with
  | zero => exact List.Subset.refl _
  | succ steps ih => exact List.Subset.trans (ih m.left) m.graphs_left

theorem graph?_mem {m : GraphMap} {g : Term} (h : g ∈ m.graph?) : g ∈ m.graphs := by
  cases m with
  | empty => cases h
  | node g' l r =>
    have h : g' = some g := h
    simp [graphs, h]

def Worded (m : GraphMap) : Prop := ∀ g ∈ m.graphs, g.Worded

theorem Worded.left {m : GraphMap} (h : m.Worded) : m.left.Worded :=
  fun g hg => h g (m.graphs_left hg)

theorem Worded.right {m : GraphMap} (h : m.Worded) : m.right.Worded :=
  fun g hg => h g (m.graphs_right hg)

theorem Worded.descend {m : GraphMap} (h : m.Worded) (steps : Nat) : (m.descend steps).Worded :=
  fun g hg => h g (m.graphs_descend steps hg)

/-- A node is matched in a graph of the map or in the graph around it. -/
theorem mem_entered {m : GraphMap} {outer : Option Term} {g : Term} (h : g ∈ m.graph?.or outer) :
    g ∈ m.graphs ∨ g ∈ outer := by
  cases hm : m.graph? with
  | none => exact Or.inr (by simpa [hm] using h)
  | some g' => exact Or.inl (graph?_mem (by simpa [hm] using h))

theorem Worded.entered {m : GraphMap} (h : m.Worded) {outer : Option Term}
    (ho : ∀ g ∈ outer, g.Worded) : ∀ g ∈ m.graph?.or outer, g.Worded :=
  fun g hg => (mem_entered hg).elim (h g) (ho g)

theorem exists_pattern_of_claim {t : Tree} {g : Term} (h : claim t = some g) :
    ∃ p ∈ t.patterns, p.graph = some g := by
  induction t with
  | unit => cases h
  | pattern p => exact ⟨p, by simp [Tree.patterns], h⟩
  | combine c l r ihl ihr =>
    have hside : claim l = some g ∨ claim r = some g := by
      simp only [claim] at h
      cases hl : claim l with
      | none => exact Or.inr (by simpa [hl, agreed] using h)
      | some a =>
        cases hr : claim r with
        | none => exact Or.inl (by simpa [hl, hr, agreed] using h)
        | some b =>
          simp only [hl, hr, agreed] at h
          split at h
          · exact Or.inl h
          · cases h
    rcases hside with h | h
    · obtain ⟨p, hp, hg⟩ := ihl h
      exact ⟨p, by simp [Tree.patterns, hp], hg⟩
    · obtain ⟨p, hp, hg⟩ := ihr h
      exact ⟨p, by simp [Tree.patterns, hp], hg⟩
  | filter arg e ih => exact ih h
  | modify mo arg ih => cases h
  | bare s => cases h

theorem eq_of_mem_kept {taken : Bool} {own : Option Term} {g : Term}
    (h : g ∈ (if taken then none else own).toList) : own = some g := by
  cases taken with
  | true => cases h
  | false => simpa using h

theorem exists_pattern_of_mem_graphs {taken : Bool} {t : Tree} {g : Term}
    (h : g ∈ (place taken t).graphs) : ∃ p ∈ t.patterns, p.graph = some g := by
  induction t generalizing taken with
  | unit => cases h
  | pattern p =>
    have h : g ∈ (if taken then none else p.graph).toList := by simpa [place, graphs] using h
    exact ⟨p, by simp [Tree.patterns], eq_of_mem_kept h⟩
  | combine c l r ihl ihr =>
    simp only [place, graphs, List.mem_append] at h
    rcases h with (h | h) | h
    · exact exists_pattern_of_claim (eq_of_mem_kept h)
    · obtain ⟨p, hp, hg⟩ := ihl h
      exact ⟨p, by simp [Tree.patterns, hp], hg⟩
    · obtain ⟨p, hp, hg⟩ := ihr h
      exact ⟨p, by simp [Tree.patterns, hp], hg⟩
  | filter arg e ih =>
    simp only [place, graphs, List.mem_append, List.not_mem_nil, or_false] at h
    rcases h with h | h
    · exact exists_pattern_of_claim (t := .filter arg e) (eq_of_mem_kept h)
    · exact ih h
  | modify mo arg ih =>
    simp only [place, graphs, Option.toList_none, List.nil_append, List.append_nil] at h
    exact ih h
  | bare s => cases h

theorem collect_worded {t : Tree} (h : t.Worded) : (collect t).Worded := by
  intro g hg
  obtain ⟨p, hp, hpg⟩ := exists_pattern_of_mem_graphs hg
  exact Tree.worded_of_mem_patterns h p hp g (by simp [TriplePattern.terms, hpg])

theorem empty_worded : empty.Worded := fun _ h => nomatch h

/-! ## Outlines -/

/-- Below the modifiers that are peeled off stands the map collected from the body alone. -/
theorem collect_descend {t body : Tree} (filled : List Slot)
    (h : (Outline.peelFrom filled t).body = some body) :
    (collect t).descend (Outline.peelFrom filled t).depth = collect body := by
  induction filled, t using Outline.peel_induction with
  | stops filled t hstops =>
    rw [Outline.peelFrom_stopped hstops] at h ⊢
    cases h
    rfl
  | bare filled s hs =>
    rw [Outline.peelFrom_bare_free hs] at h
    cases h
  | modify filled mo arg hmo ih =>
    rw [Outline.peelFrom_free hmo, Outline.record_body] at h
    rw [Outline.peelFrom_free hmo, Outline.record_depth]
    exact ih h

theorem collect_descend_peel {t body : Tree} (h : (Outline.peel t).body = some body) :
    (collect t).descend (Outline.peel t).depth = collect body :=
  collect_descend [] h

theorem located_collect_body {t body : Tree} (filled : List Slot)
    (h : (Outline.peelFrom filled t).body = some body) :
    t.located (collect t) none = body.located (collect body) none := by
  induction filled, t using Outline.peel_induction with
  | stops filled t hstops =>
    rw [Outline.peelFrom_stopped hstops] at h
    cases h
    rfl
  | bare filled s hs =>
    rw [Outline.peelFrom_bare_free hs] at h
    cases h
  | modify filled mo arg hmo ih =>
    rw [Outline.peelFrom_free hmo, Outline.record_body] at h
    exact ih h

end GraphMap

/-- The modifiers above the body have no pattern leaves. -/
theorem Outline.peelFrom_patterns (filled : List Slot) (t : Tree) :
    ((peelFrom filled t).body.elim [] Tree.patterns) = t.patterns := by
  induction filled, t using peel_induction with
  | stops filled t hstops => rw [peelFrom_stopped hstops, Option.elim_some]
  | bare filled s hs =>
    rw [peelFrom_bare_free hs]
    rfl
  | modify filled mo arg hmo ih =>
    rw [peelFrom_free hmo, record_body]
    exact ih

theorem Tree.located_eq_nil {t : Tree} (h : (Outline.peel t).body = none) (m : GraphMap)
    (outer : Option Term) : t.located m outer = [] := by
  have hpatterns := Outline.peelFrom_patterns [] t
  rw [show (Outline.peelFrom [] t).body = none from h] at hpatterns
  apply List.map_eq_nil_iff.1
  rw [t.located_patterns m outer]
  exact hpatterns.symm

theorem Tree.located_worded {t : Tree} {m : GraphMap} {outer : Option Term} (hm : m.Worded)
    (ho : ∀ g ∈ outer, g.Worded) : ∀ leaf ∈ t.located m outer, ∀ g ∈ leaf.2, g.Worded := by
  induction t generalizing m outer with
  | unit => exact fun _ h => nomatch h
  | pattern p =>
    intro leaf hleaf
    rw [located, List.mem_singleton] at hleaf
    exact hleaf ▸ hm.entered ho
  | combine c left right ihl ihr =>
    intro leaf hleaf
    rcases List.mem_append.1 hleaf with hleaf | hleaf
    · exact ihl hm.left (hm.entered ho) leaf hleaf
    · exact ihr hm.right (hm.entered ho) leaf hleaf
  | filter arg e ih => exact ih hm.left (hm.entered ho)
  | modify mo arg ih => exact ih hm.left (hm.entered ho)
  | bare s => exact fun _ h => nomatch h

end RdfQuery
