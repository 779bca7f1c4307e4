import RdfQuery.Header
import RdfQuery.Naming
import RdfQuery.Proofs.Entries
import RdfQuery.Proofs.Expr.Parts
import RdfQuery.Proofs.Outline
import RdfQuery.Proofs.Serql.Conservation

/-!
# The IRIs of the parts of a tree

Whatever is written of a tree is a part of it: a position of a pattern, an
expression at a node, a graph that is entered somewhere, a piece of its outline.
The IRIs of each part are among the IRIs of the tree.
-/

set_option autoImplicit false

namespace RdfQuery

/-! ## Nodes -/

namespace Tree

theorem self_mem_subtrees (t : Tree) : t ∈ t.subtrees := by
  cases t <;> simp [subtrees]

theorem iris_of_subtrees {s t : Tree} (h : s.subtrees ⊆ t.subtrees) : s.iris ⊆ t.iris := by
  intro i hi
  obtain ⟨u, hu, hiu⟩ := List.mem_flatMap.1 hi
  exact List.mem_flatMap.2 ⟨u, h hu, hiu⟩

theorem iris_left (c : Combination) (l r : Tree) : l.iris ⊆ (combine c l r).iris :=
  iris_of_subtrees fun u hu => by simp [subtrees, hu]

theorem iris_right (c : Combination) (l r : Tree) : r.iris ⊆ (combine c l r).iris :=
  iris_of_subtrees fun u hu => by simp [subtrees, hu]

theorem iris_arg (arg : Tree) (e : Expr) : arg.iris ⊆ (filter arg e).iris :=
  iris_of_subtrees fun u hu => by simp [subtrees, hu]

theorem iris_modified (mo : Modifier) (arg : Tree) : arg.iris ⊆ (modify mo arg).iris :=
  iris_of_subtrees fun u hu => by simp [subtrees, hu]

/-- A pattern lists the IRIs of its terms, but then no expression stands at it. -/
theorem iris_ownExpr {t u : Tree} {e : Expr} (hu : u ∈ t.subtrees) (h : e ∈ u.ownExprs) :
    e.iris ⊆ t.iris := by
  intro i hi
  have hown : i ∈ u.ownIris := by
    cases u with
    | pattern p => cases h
    | _ => exact List.mem_flatMap.2 ⟨e, h, hi⟩
  exact List.mem_flatMap.2 ⟨u, hu, hown⟩

theorem iris_of_mem_conditions {t : Tree} {e : Expr} (h : e ∈ t.conditions) : e.iris ⊆ t.iris := by
  obtain ⟨u, hu, he⟩ := exists_node_of_mem_conditions h
  exact iris_ownExpr hu he

theorem iris_of_mem_patterns {t : Tree} {p : TriplePattern} {u : Term} (hp : p ∈ t.patterns)
    (hu : u ∈ p.terms) : u.iris ⊆ t.iris := by
  intro i hi
  refine List.mem_flatMap.2 ⟨.pattern p, pattern_mem_subtrees hp, ?_⟩
  exact List.mem_flatMap.2 ⟨u, hu, hi⟩

end Tree

/-- A graph that is entered somewhere is the graph of some pattern. -/
theorem GraphMap.iris_of_mem_collect {t : Tree} {g : Term} (h : g ∈ (collect t).graphs) :
    g.iris ⊆ t.iris := by
  obtain ⟨p, hp, hg⟩ := exists_pattern_of_mem_graphs h
  have hposition : g ∈ p.terms := by simp [TriplePattern.terms, hg]
  exact Tree.iris_of_mem_patterns hp hposition

/-! ## Outlines -/

namespace Outline

/-- All IRIs of an outline are members of a list. -/
structure Within (o : Outline) (among : List Iri) : Prop where
  body : ∀ t ∈ o.body, t.iris ⊆ among
  bindings : ∀ b ∈ o.bindings.entries, b.2.iris ⊆ among
  order : ∀ k ∈ o.order, k.expr.iris ⊆ among

variable {o : Outline} {among : List Iri}

theorem Within.binding? (h : o.Within among) {name : String} {e : Expr}
    (he : o.binding? name = some e) : e.iris ⊆ among :=
  h.bindings _ (Entries.mem_of_find? he)

theorem within_body {t : Tree} (h : t.iris ⊆ among) :
    ({ body := some t } : Outline).Within among where
  body := by
    intro u hu
    cases hu
    exact h
  bindings := List.forall_mem_nil _
  order := List.forall_mem_nil _

/-- A modifier adds the expressions that stand at it. -/
theorem Within.record (h : o.Within among) {mo : Modifier} {arg : Tree}
    (hmo : (Tree.modify mo arg).iris ⊆ among) : (o.record mo).Within among := by
  have hexprs : ∀ e ∈ (Tree.modify mo arg).ownExprs, e.iris ⊆ among :=
    fun e he => List.Subset.trans (Tree.iris_ownExpr (Tree.self_mem_subtrees _) he) hmo
  cases mo with
  | select s => exact ⟨h.body, h.bindings, h.order⟩
  | extend bindings =>
    refine ⟨h.body, ?_, h.order⟩
    intro b hb
    obtain ⟨binding, hbinding, rfl⟩ := List.mem_map.1 (OrderedMap.mem_ofList hb)
    exact hexprs _ (List.mem_map_of_mem hbinding)
  | order keys =>
    exact ⟨h.body, h.bindings, fun k hk => hexprs _ (List.mem_map_of_mem hk)⟩
  | distinct => exact ⟨h.body, h.bindings, h.order⟩
  | reduced => exact ⟨h.body, h.bindings, h.order⟩
  | slice limit offset => exact ⟨h.body, h.bindings, h.order⟩

theorem within_peelFrom (filled : List Slot) {t : Tree} (h : t.iris ⊆ among) :
    (peelFrom filled t).Within among := by
  induction filled, t using peel_induction with
  | stops filled t hstops =>
    rw [peelFrom_stopped hstops]
    exact within_body h
  | bare filled s hs =>
    rw [peelFrom_bare_free hs]
    exact ⟨nofun, List.forall_mem_nil _, List.forall_mem_nil _⟩
  | modify filled mo arg hmo ih =>
    have hinner := ih (List.Subset.trans (Tree.iris_modified mo arg) h)
    have hdeeper : (peelFrom (mo.slot :: filled) arg).deeper.Within among :=
      ⟨hinner.body, hinner.bindings, hinner.order⟩
    rw [peelFrom_free hmo]
    exact hdeeper.record h

theorem within_peel (t : Tree) : (peel t).Within t.iris :=
  within_peelFrom [] (List.Subset.refl _)

end Outline

/-! ## Heads -/

def SelectItem.exprs : SelectItem → List Expr
  | .computed _ e _ => [e]
  | _ => []

def TemplateTerm.constants : TemplateTerm → List Constant
  | .constant _ c => [c]
  | .name _ => []

namespace Outline

variable {o : Outline} {among : List Iri}

theorem Within.item (h : o.Within among) {c : Column} : ∀ e ∈ (o.item c).exprs, e.iris ⊆ among := by
  intro e he
  unfold Outline.item at he
  split at he
  · rename_i hbinding
    cases List.mem_singleton.1 he
    exact h.binding? hbinding
  · split at he <;> cases he

theorem Within.items (h : o.Within among) {language : Language} {items : List SelectItem}
    (hitems : o.items language = .ok items) :
    ∀ item ∈ items, ∀ e ∈ item.exprs, e.iris ⊆ among := by
  unfold Outline.items at hitems
  split at hitems
  · cases hitems
    exact List.forall_mem_nil _
  · cases hitems
    intro item hitem
    obtain ⟨c, -, rfl⟩ := List.mem_map.1 hitem
    exact h.item
  · cases hitems

theorem Within.templateTerm (h : o.Within among) {source : String} :
    ∀ c ∈ (o.templateTerm source).constants, c.iris ⊆ among := by
  intro c hc
  unfold Outline.templateTerm at hc
  split at hc
  · rename_i hbinding
    cases List.mem_singleton.1 hc
    exact List.Subset.trans (Expr.ownIris_subset_iris (.const c)) (h.binding? hbinding)
  · cases hc

theorem Within.templates (h : o.Within among) :
    ∀ t ∈ o.templates, ∀ u ∈ t.terms, ∀ c ∈ u.constants, c.iris ⊆ among := by
  intro t ht u hu
  obtain ⟨columns, -, hcolumns⟩ := List.mem_filterMap.1 ht
  unfold Outline.template? at hcolumns
  split at hcolumns
  · split at hcolumns
    · cases hcolumns
      simp only [Template.terms, List.mem_cons, List.not_mem_nil, or_false] at hu
      rcases hu with rfl | rfl | rfl <;> exact h.templateTerm
    · cases hcolumns
  · cases hcolumns

end Outline

end RdfQuery
