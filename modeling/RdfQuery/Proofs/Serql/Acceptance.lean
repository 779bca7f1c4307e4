import RdfQuery.Proofs.Outline
import RdfQuery.Proofs.Query.Describes
import RdfQuery.Proofs.Serql.Contexts

/-!
# Queries with a SeRQL text

What a query must be like to have a text, said about its tree: which nodes
stand where, and that nothing in an optional part lies in another context than
the left join itself. Any other query is refused with an error of this language.
-/

set_option autoImplicit false

namespace RdfQuery

def RenderError.language : RenderError → Language
  | .node l _ => l
  | .position l _ => l
  | .feature l _ => l

namespace Serql

/-! ## Nodes and the graphs they are matched in -/

structure Site where
  tree : Tree
  map : GraphMap
  graph : Option Term

/-- The nodes of a tree, each before its parts. -/
def sites : Tree → GraphMap → (outer : Option Term) → List Site
  | .unit, m, outer => [⟨.unit, m, m.graph?.or outer⟩]
  | .pattern p, m, outer => [⟨.pattern p, m, m.graph?.or outer⟩]
  | .combine c left right, m, outer =>
    ⟨.combine c left right, m, m.graph?.or outer⟩ ::
      (sites left m.left (m.graph?.or outer) ++ sites right m.right (m.graph?.or outer))
  | .filter arg condition, m, outer =>
    ⟨.filter arg condition, m, m.graph?.or outer⟩ :: sites arg m.left (m.graph?.or outer)
  | .modify mo arg, m, outer =>
    ⟨.modify mo arg, m, m.graph?.or outer⟩ :: sites arg m.left (m.graph?.or outer)
  | .bare s, m, outer => [⟨.bare s, m, m.graph?.or outer⟩]

namespace Site

/-- What stands in the right operand of a left join. -/
def optional : Site → List Site
  | ⟨.combine (.leftJoin _) _ right, m, graph⟩ => sites right m.right graph
  | _ => []

/-- Patterns and left joins are written into the clause of a context. -/
def isFiled (s : Site) : Prop := s.tree.kind = .pattern ∨ s.tree.kind = .leftJoin

/-- No pattern or left join in an optional part has another context than the left join. -/
def Fits (n : Naming) (s : Site) : Prop :=
  ∀ inner ∈ s.optional, inner.isFiled → contextOf n inner.graph = contextOf n s.graph

end Site

theorem mem_uses_iff {t : Tree} {m : GraphMap} {outer use : Option Term} :
    use ∈ t.uses m outer ↔ ∃ s ∈ sites t m outer, s.isFiled ∧ s.graph = use := by
  induction t generalizing m outer with
  | unit => simp [Tree.uses, sites, Site.isFiled, Tree.kind]
  | pattern p => simp [Tree.uses, sites, Site.isFiled, Tree.kind, eq_comm]
  | combine c l r ihl ihr =>
    simp only [sites, List.mem_cons, List.mem_append, or_and_right, exists_or, exists_eq_left,
      ← ihl, ← ihr]
    cases c with
    | leftJoin condition =>
      simp only [Tree.uses, List.mem_append, List.mem_singleton, Site.isFiled, Tree.kind,
        Combination.kind, or_true, true_and, eq_comm]
      exact or_comm
    | _ => simp [Tree.uses, Site.isFiled, Tree.kind, Combination.kind]
  | filter arg e ih =>
    simp only [sites, List.mem_cons, or_and_right, exists_or, exists_eq_left, ← ih]
    simp [Tree.uses, Site.isFiled, Tree.kind]
  | modify mo arg ih =>
    have hkind : ¬ Site.isFiled ⟨.modify mo arg, m, m.graph?.or outer⟩ := by
      cases mo with
      | select s => cases s <;> simp [Site.isFiled, Tree.kind, Modifier.kind, Selection.kind]
      | _ => simp [Site.isFiled, Tree.kind, Modifier.kind]
    simp only [sites, List.mem_cons, or_and_right, exists_or, exists_eq_left, ← ih]
    simp [Tree.uses, hkind]
  | bare s => cases s <;> simp [Tree.uses, sites, Site.isFiled, Tree.kind, Selection.kind]

theorem fits_of_optional_eq_nil {n : Naming} {s : Site} (h : s.optional = []) : s.Fits n := by
  intro inner hinner
  rw [h] at hinner
  cases hinner

theorem fits_leftJoin {n : Naming} {condition : Option Expr} {l r : Tree} {m : GraphMap}
    {graph : Option Term} :
    Site.Fits n ⟨.combine (.leftJoin condition) l r, m, graph⟩ ↔
      ∀ use ∈ r.uses m.right graph, contextOf n use = contextOf n graph := by
  constructor
  · intro h use huse
    obtain ⟨s, hs, hfiled, rfl⟩ := mem_uses_iff.1 huse
    exact h s hs hfiled
  · intro h s hs hfiled
    exact h s.graph (mem_uses_iff.2 ⟨s, hs, hfiled, rfl⟩)

/-! ## Clauses -/

/-- What clauses are made from. -/
def clauseKinds : List Kind := [.singletonSet, .pattern, .join, .leftJoin, .filter]

theorem forall_parts_iff {n : Naming} {t : Tree} {m : GraphMap} {outer : Option Term}
    (h : Collectable n t m outer) {k : Context} :
    (∀ part ∈ parts n t m outer, part.1 = k) ↔ ∀ use ∈ t.uses m outer, contextOf n use = k := by
  constructor
  · exact contextOf_uses h
  · intro huses part hpart
    rw [parts_eq_map] at hpart
    obtain ⟨file, hfile, rfl⟩ := List.mem_map.1 hpart
    exact huses _ (filed_uses _ _ _ (List.mem_map_of_mem hfile))

theorem collectable_iff {n : Naming} {t : Tree} {m : GraphMap} {outer : Option Term} :
    Collectable n t m outer ↔
      (∀ u ∈ t.subtrees, u.kind ∈ clauseKinds) ∧ ∀ s ∈ sites t m outer, s.Fits n := by
  induction t generalizing m outer with
  | unit =>
    rw [Tree.subtrees, sites, List.forall_mem_singleton, List.forall_mem_singleton]
    exact iff_of_true trivial ⟨by decide, fits_of_optional_eq_nil rfl⟩
  | pattern p =>
    rw [Tree.subtrees, sites, List.forall_mem_singleton, List.forall_mem_singleton]
    exact iff_of_true trivial ⟨List.mem_cons_of_mem _ List.mem_cons_self,
      fits_of_optional_eq_nil rfl⟩
  | combine c l r ihl ihr =>
    simp only [Tree.subtrees, sites, List.forall_mem_cons, List.forall_mem_append]
    cases c with
    | join =>
      have hkind : (Tree.combine .join l r).kind ∈ clauseKinds := by
        simp [clauseKinds, Tree.kind, Combination.kind]
      have hfits : Site.Fits n ⟨.combine .join l r, m, m.graph?.or outer⟩ :=
        fits_of_optional_eq_nil rfl
      rw [Collectable, ihl, ihr]
      tauto
    | leftJoin condition =>
      have hkind : (Tree.combine (.leftJoin condition) l r).kind ∈ clauseKinds := by
        simp [clauseKinds, Tree.kind, Combination.kind]
      -- the walk asks this of the items it has collected from the right operand
      have hright : Collectable n r m.right (m.graph?.or outer) →
          ((∀ part ∈ parts n r m.right (m.graph?.or outer),
            part.1 = contextOf n (m.graph?.or outer)) ↔
          Site.Fits n ⟨.combine (.leftJoin condition) l r, m, m.graph?.or outer⟩) :=
        fun h => (forall_parts_iff h).trans fits_leftJoin.symm
      rw [Collectable, and_congr_right_iff.2 hright, ihl, ihr]
      tauto
    | union => simp [Collectable, clauseKinds, Tree.kind, Combination.kind]
    | difference => simp [Collectable, clauseKinds, Tree.kind, Combination.kind]
    | intersection => simp [Collectable, clauseKinds, Tree.kind, Combination.kind]
  | filter arg e ih =>
    have hkind : (Tree.filter arg e).kind ∈ clauseKinds := by simp [clauseKinds, Tree.kind]
    have hfits : Site.Fits n ⟨.filter arg e, m, m.graph?.or outer⟩ := fits_of_optional_eq_nil rfl
    rw [Collectable, ih, Tree.subtrees, sites, List.forall_mem_cons, List.forall_mem_cons]
    tauto
  | modify mo arg ih =>
    have hkind : (Tree.modify mo arg).kind ∉ clauseKinds := by
      cases mo with
      | select s => cases s <;> simp [clauseKinds, Tree.kind, Modifier.kind, Selection.kind]
      | _ => simp [clauseKinds, Tree.kind, Modifier.kind]
    exact iff_of_false id fun h => hkind (h.1 _ List.mem_cons_self)
  | bare s =>
    have hkind : (Tree.bare s).kind ∉ clauseKinds := by
      cases s <;> simp [clauseKinds, Tree.kind, Selection.kind]
    exact iff_of_false id fun h => hkind (h.1 _ List.mem_cons_self)

/-! ## Bodies -/

/-- The set operations at the top are no left joins. -/
theorem forall_sites_iff {n : Naming} {t : Tree} {m : GraphMap} {outer : Option Term} :
    (∀ s ∈ sites t m outer, s.Fits n) ↔
      ∀ o ∈ operands t m outer, ∀ s ∈ sites o.tree o.map o.outer, s.Fits n := by
  have hwhole {t : Tree} {m : GraphMap} {outer : Option Term}
      (h : operands t m outer = [⟨t, m, outer⟩]) :
      (∀ s ∈ sites t m outer, s.Fits n) ↔
        ∀ o ∈ operands t m outer, ∀ s ∈ sites o.tree o.map o.outer, s.Fits n := by
    rw [h, List.forall_mem_singleton]
  induction t generalizing m outer with
  | combine c l r ihl ihr =>
    have hoperation : Site.optional ⟨.combine c l r, m, m.graph?.or outer⟩ = [] →
        ((∀ s ∈ sites (.combine c l r) m outer, s.Fits n) ↔
          ∀ o ∈ operands l m.left (m.graph?.or outer) ++ operands r m.right (m.graph?.or outer),
            ∀ s ∈ sites o.tree o.map o.outer, s.Fits n) := by
      intro hnil
      rw [sites, List.forall_mem_cons, List.forall_mem_append, List.forall_mem_append,
        and_iff_right (fits_of_optional_eq_nil hnil)]
      exact and_congr ihl ihr
    cases c with
    | union => exact hoperation rfl
    | difference => exact hoperation rfl
    | intersection => exact hoperation rfl
    | join => exact hwhole rfl
    | leftJoin condition => exact hwhole rfl
  | unit => exact hwhole rfl
  | pattern p => exact hwhole rfl
  | filter arg e ih => exact hwhole rfl
  | modify mo arg ih => exact hwhole rfl
  | bare s => exact hwhole rfl

theorem body_isOk {n : Naming} {t : Tree} {m : GraphMap} {outer : Option Term} :
    (∃ b, body n t m outer = .ok b) ↔
      (∀ o ∈ operands t m outer, ∀ u ∈ o.tree.subtrees, u.kind ∈ clauseKinds) ∧
      ∀ s ∈ sites t m outer, s.Fits n := by
  rw [forall_sites_iff]
  simp only [body_eq_ok, exists_and_left, exists_eq, and_true]
  simp only [Operand.Collectable, collectable_iff, forall₂_and]

theorem outlineBody_peel (n : Naming) (t : Tree) :
    outlineBody n (Outline.peel t) (GraphMap.collect t) =
      (Outline.peel t).body.elim (.ok none) fun b =>
        body n b (GraphMap.collect b) none >>= fun laid => .ok (some laid) := by
  unfold outlineBody
  cases hbody : (Outline.peel t).body with
  | none => rfl
  | some b =>
    rw [GraphMap.collect_descend_peel hbody]
    rfl

theorem outlineBody_isOk {n : Naming} {t : Tree} :
    (∃ b, outlineBody n (Outline.peel t) (GraphMap.collect t) = .ok b) ↔
      ∀ b, (Outline.peel t).body = some b →
        (∀ o ∈ operands b (GraphMap.collect b) none, ∀ u ∈ o.tree.subtrees, u.kind ∈ clauseKinds) ∧
        ∀ s ∈ sites b (GraphMap.collect b) none, s.Fits n := by
  rw [outlineBody_peel]
  cases (Outline.peel t).body with
  | none => exact iff_of_true ⟨none, rfl⟩ nofun
  | some b =>
    simp only [Option.some.injEq, forall_eq', ← body_isOk]
    exact Outcome.bind_ok_isOk

/-! ## Heads -/

/-- What an outline must be like to have a head. -/
structure Headed (o : Outline) : Prop where
  bindings_shown : ∀ b ∈ o.bindings.entries, ∃ columns ∈ o.lists, ∃ c ∈ columns, c.source = b.1
  one_list : o.shape = .select → o.lists.length ≤ 1
  constants : o.shape = .construct → ∀ columns ∈ o.lists, columns.isTemplate = true →
    ∀ c ∈ columns, ∀ e, o.binding? c.source = some e → ∃ value, e = .const value

theorem unreferenced_isEmpty {o : Outline} :
    o.unreferenced.isEmpty = true ↔
      ∀ b ∈ o.bindings.entries, ∃ columns ∈ o.lists, ∃ c ∈ columns, c.source = b.1 := by
  simp [Outline.unreferenced, Outline.refersTo, Columns.sources, List.isEmpty_iff]

theorem items_isOk {o : Outline} :
    (∃ items, o.items .serql = .ok items) ↔ o.lists.length ≤ 1 := by
  rw [← Outcome.error?_eq_none, Outline.error?_items, ← Nat.not_lt]
  split <;> simp_all

theorem writable_iff {o : Outline} {columns : Columns} :
    writable o columns = true ↔
      ∀ c ∈ columns, ∀ e, o.binding? c.source = some e → ∃ value, e = .const value := by
  rw [writable, List.all_eq_true]
  refine forall₂_congr fun c _ => ?_
  cases o.binding? c.source with
  | none => simp
  | some e => cases e <;> simp

theorem head_isOk {o : Outline} : (∃ h, head o = .ok h) ↔ Headed o := by
  unfold head
  split
  · rename_i hempty
    refine iff_of_false nofun fun h => ?_
    rw [unreferenced_isEmpty.2 h.bindings_shown] at hempty
    cases hempty
  · rename_i hempty
    have hshown := unreferenced_isEmpty.1 (by simpa using hempty)
    split
    · rename_i hselect
      rw [Outcome.bind_ok_isOk, items_isOk]
      refine ⟨fun h => ⟨hshown, fun _ => h, fun hconstruct => ?_⟩, fun h => h.one_list hselect⟩
      rw [hselect] at hconstruct
      cases hconstruct
    · rename_i hconstruct
      have hlists : (o.lists.filter Columns.isTemplate).all (writable o) = true ↔
          ∀ columns ∈ o.lists, columns.isTemplate = true → ∀ c ∈ columns, ∀ e,
            o.binding? c.source = some e → ∃ value, e = .const value := by
        simp only [List.all_eq_true, List.mem_filter, and_imp, writable_iff]
      split
      · rename_i hwritable
        refine iff_of_true ⟨_, rfl⟩ ⟨hshown, fun hselect => ?_, fun _ => hlists.1 hwritable⟩
        rw [hconstruct] at hselect
        cases hselect
      · rename_i hwritable
        exact iff_of_false nofun fun h => hwritable (hlists.2 (h.constants hconstruct))

/-! ## Trees -/

/-- What a tree must be like to have a text. -/
structure Accepted (n : Naming) (t : Tree) : Prop where
  headed : Headed (Outline.peel t)
  /-- Below the set operations at the top stands only what clauses are made from. -/
  operations_on_top : ∀ b, (Outline.peel t).body = some b →
    ∀ o ∈ operands b (GraphMap.collect b) none, ∀ u ∈ o.tree.subtrees, u.kind ∈ clauseKinds
  optionals_fit : ∀ b, (Outline.peel t).body = some b →
    ∀ s ∈ sites b (GraphMap.collect b) none, s.Fits n

theorem renderCollected_isOk {s : Style} {t : Tree} :
    (∃ text, renderCollected s t = .ok text) ↔ Accepted (Naming.ofStyle s) t := by
  have hhead := @head_isOk (Outline.peel t)
  have hbody := @outlineBody_isOk (Naming.ofStyle s) t
  unfold renderCollected renderTree
  rw [Outcome.bind_ok_isOk]
  constructor
  · rintro ⟨d, hd⟩
    obtain ⟨h, hh, hd⟩ := Outcome.bind_eq_ok.1 hd
    obtain ⟨b, hb, hd⟩ := Outcome.bind_eq_ok.1 hd
    have hfit := hbody.1 ⟨b, hb⟩
    exact ⟨hhead.1 ⟨h, hh⟩, fun b hb => (hfit b hb).1, fun b hb => (hfit b hb).2⟩
  · rintro ⟨hheaded, htop, hfit⟩
    obtain ⟨h, hh⟩ := hhead.2 hheaded
    obtain ⟨b, hb⟩ := hbody.2 fun b hb => ⟨htop b hb, hfit b hb⟩
    exact ⟨_, Outcome.bind_eq_ok.2 ⟨h, hh, Outcome.bind_eq_ok.2 ⟨b, hb, rfl⟩⟩⟩

/-! ## Errors -/

section

variable {α β : Type}

/-- If the computation fails, then with an error of this language. -/
def FailsHere (x : Except RenderError α) : Prop := ∀ e, x = .error e → e.language = .serql

theorem FailsHere.ok (a : α) : FailsHere (.ok a) := fun _ h => nomatch h

theorem FailsHere.error {e : RenderError} (h : e.language = .serql) :
    FailsHere (.error e : Except RenderError α) := by
  intro e' he
  cases he
  exact h

theorem FailsHere.bind {x : Except RenderError α} (hx : FailsHere x) {f : α → Except RenderError β}
    (hf : ∀ a, FailsHere (f a)) : FailsHere (x >>= f) := by
  cases x with
  | error e => exact .error (hx e rfl)
  | ok a => exact hf a

end

theorem collect_failsHere (n : Naming) (t : Tree) (m : GraphMap) (outer : Option Term)
    (c : Clauses) : FailsHere (collect n t m outer c) := by
  induction t generalizing m outer c with
  | unit => exact .ok _
  | pattern p => exact .ok _
  | combine op l r ihl ihr =>
    cases op with
    | join => exact (ihl _ _ _).bind fun _ => ihr _ _ _
    | leftJoin condition =>
      refine (ihl _ _ _).bind fun clauses => (ihr _ _ _).bind fun part => ?_
      split
      · exact .error rfl
      · exact .ok _
    | union => exact .error rfl
    | difference => exact .error rfl
    | intersection => exact .error rfl
  | filter arg e ih => exact (ih _ _ _).bind fun _ => .ok _
  | modify mo arg ih => exact .error rfl
  | bare s => exact .error rfl

theorem body_failsHere (n : Naming) (t : Tree) (m : GraphMap) (outer : Option Term) :
    FailsHere (body n t m outer) := by
  have hclauses (t : Tree) (m : GraphMap) (outer : Option Term) :
      FailsHere (collectBody n t m outer) :=
    (collect_failsHere n t m outer _).bind fun _ => .ok _
  induction t generalizing m outer with
  | combine c l r ihl ihr =>
    unfold body
    split
    · exact (ihl _ _).bind fun _ => (ihr _ _).bind fun _ => .ok _
    · exact hclauses _ _ _
  | _ => exact hclauses _ _ _

theorem outlineBody_failsHere (n : Naming) (o : Outline) (m : GraphMap) :
    FailsHere (outlineBody n o m) := by
  unfold outlineBody
  split
  · exact (body_failsHere _ _ _ _).bind fun _ => .ok _
  · exact .ok _

theorem head_failsHere (o : Outline) : FailsHere (head o) := by
  have hitems : FailsHere (o.items .serql) := by
    intro e he
    rw [← Outcome.error?_eq_some, Outline.error?_items] at he
    split at he
    · cases he
      rfl
    · cases he
  unfold head
  split
  · exact .error rfl
  · split
    · exact hitems.bind fun _ => .ok _
    · split
      · exact .ok _
      · exact .error rfl

theorem renderCollected_failsHere (s : Style) (t : Tree) : FailsHere (renderCollected s t) := by
  have hdocument : FailsHere (document (Naming.ofStyle s) t (GraphMap.collect t)) :=
    (head_failsHere _).bind fun _ => (outlineBody_failsHere _ _ _).bind fun _ => .ok _
  exact hdocument.bind fun _ => .ok _

theorem render_failsHere (s : Style) (q : Query) : FailsHere (render s q) := by
  unfold render
  split
  · exact .error rfl
  · split
    · exact .error rfl
    · split
      · exact renderCollected_failsHere _ _
      · exact .error rfl
    · exact renderCollected_failsHere _ _

/-! ## Queries -/

/-- What a query must be like to have a text. A describe query is judged by the construct query
it is written as. -/
def AcceptedQuery (n : Naming) (q : Query) : Prop :=
  q.dataset.isEmpty = true ∧
    match q.kind with
    | .ask => False
    | .describe targets => targets ≠ [] ∧ q.tree.isDescribe = true ∧
      ∀ t, q.tree.describe targets .defaultGraph = .ok t → Accepted n t
    | .select => Accepted n q.tree
    | .construct => Accepted n q.tree

theorem render_isOk {s : Style} {q : Query} :
    (∃ text, render s q = .ok text) ↔ AcceptedQuery (Naming.ofStyle s) q := by
  obtain ⟨kind, tree, dataset⟩ := q
  unfold render AcceptedQuery
  split
  · rename_i hdataset
    refine iff_of_false nofun fun h => ?_
    rw [h.1] at hdataset
    cases hdataset
  · rename_i hdataset
    rw [and_iff_right (by simpa using hdataset)]
    cases kind with
    | ask => exact iff_of_false nofun id
    | select => exact renderCollected_isOk
    | construct => exact renderCollected_isOk
    | describe targets =>
      have hdescribe := @Tree.describe_isOk tree targets .defaultGraph
      simp only [Query.describedByConstruct]
      rw [← and_assoc, ← hdescribe]
      cases tree.describe targets .defaultGraph with
      | error e => exact iff_of_false nofun fun h => nomatch h.1
      | ok t => simpa using renderCollected_isOk

/-- Exactly the accepted queries have a text; the others have an error of this language. -/
theorem accepted_exactly (s : Style) (q : Query) :
    ((∃ text, render s q = .ok text) ↔ AcceptedQuery (Naming.ofStyle s) q) ∧
    (¬ AcceptedQuery (Naming.ofStyle s) q →
      ∃ e, render s q = .error e ∧ e.language = .serql) := by
  refine ⟨render_isOk, ?_⟩
  intro h
  cases hrender : render s q with
  | ok text => exact absurd (render_isOk.1 ⟨text, hrender⟩) h
  | error e => exact ⟨e, rfl, render_failsHere s q e hrender⟩

/-- A statement in the graph `g` and an optional one in the given graph. -/
def optionalIn (graph : String) : Query where
  kind := .select
  tree :=
    let stated (object graph : String) : Tree :=
      .pattern ⟨.var (.user "x"), .var (.user "p"), .var (.user object), some (.var (.user graph))⟩
    .modify (.select (.single [Column.same "x"]))
      (.leftJoin (stated "y" "g") (stated "z" graph) none)
  dataset := Dataset.none

theorem optionalIn_accepted_exactly :
    AcceptedQuery (Naming.ofStyle Style.default) (optionalIn "g") ∧
    ¬ AcceptedQuery (Naming.ofStyle Style.default) (optionalIn "h") ∧
    ∃ e, render Style.default (optionalIn "h") = .error e ∧ e.language = .serql := by
  have haccepted := (accepted_exactly Style.default (optionalIn "g")).1.1 ⟨_, rfl⟩
  have herror : render Style.default (optionalIn "h") = .error (.position .serql .leftJoin) := rfl
  have hrefused : ¬ AcceptedQuery (Naming.ofStyle Style.default) (optionalIn "h") := by
    intro h
    obtain ⟨text, htext⟩ := (accepted_exactly Style.default (optionalIn "h")).1.2 h
    rw [herror] at htext
    cases htext
  exact ⟨haccepted, hrefused, (accepted_exactly Style.default (optionalIn "h")).2 hrefused⟩

end Serql

end RdfQuery
