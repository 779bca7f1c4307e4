import RdfQuery.Proofs.Outline
import RdfQuery.Sparql.Document

/-!
# Queries without a SPARQL text

A query is refused for its head or for its body, and for nothing else. The
head is looked at first; the body is refused for the first node, parents
first, that cannot stand in it. So in a query that has a text all modifiers
stand above the body, where the outline takes them up.
-/

set_option autoImplicit false

namespace RdfQuery.Sparql

/-! ## Bodies -/

/-- Why nodes of a kind cannot stand in a body. -/
def misplaced? : Kind → Option RenderError
  | .intersection => some (.node .sparql .intersection)
  | .projection => some (.position .sparql .projection)
  | .multiProjection => some (.position .sparql .multiProjection)
  | .extension => some (.position .sparql .extension)
  | .order => some (.position .sparql .order)
  | .distinct => some (.position .sparql .distinct)
  | .reduced => some (.position .sparql .reduced)
  | .slice => some (.position .sparql .slice)
  | _ => none

/-- Why a tree cannot be a body: its first node, parents first, that cannot stand there. -/
def firstMisplaced? (t : Tree) : Option RenderError :=
  t.subtrees.findSome? fun u => misplaced? u.kind

/-- What a body is made of. -/
def bodyKinds : List Kind :=
  [.singletonSet, .pattern, .join, .leftJoin, .union, .difference, .filter]

theorem misplaced?_eq_none {k : Kind} : misplaced? k = none ↔ k ∈ bodyKinds := by
  cases k <;> decide

theorem firstMisplaced?_eq_none {t : Tree} :
    firstMisplaced? t = none ↔ ∀ u ∈ t.subtrees, u.kind ∈ bodyKinds := by
  simp only [firstMisplaced?, List.findSome?_eq_none_iff, misplaced?_eq_none]

theorem misplaced?_modifier (mo : Modifier) :
    misplaced? mo.kind = some (.position .sparql mo.kind) := by
  cases mo with
  | select s => cases s <;> rfl
  | _ => rfl

theorem misplaced?_selection (s : Selection) :
    misplaced? s.kind = some (.position .sparql s.kind) := by
  cases s <;> rfl

theorem misplaced?_combination (c : Combination) :
    misplaced? c.kind = if !supports c then some (.node .sparql c.kind) else none := by
  cases c <;> rfl

theorem error?_elements (t : Tree) (m : GraphMap) :
    Outcome.error? (elements t m) = firstMisplaced? t := by
  unfold firstMisplaced?
  induction t generalizing m with
  | unit => rfl
  | pattern p => rfl
  | combine c l r ihl ihr =>
    have hnode : misplaced? (Tree.combine c l r).kind = _ := misplaced?_combination c
    simp only [elements, Tree.subtrees, List.findSome?_cons, List.findSome?_append, hnode,
      ← ihl m.left, ← ihr m.right]
    by_cases hc : (!supports c) = true
    · simp only [if_pos hc]
      rfl
    · simp only [if_neg hc]
      refine Outcome.error?_bind fun ls _ => ?_
      exact Outcome.error?_bind_ok _ _
  | filter arg e ih =>
    have hnode : misplaced? (Tree.filter arg e).kind = none := rfl
    simp only [elements, Tree.subtrees, List.findSome?_cons, hnode, ← ih m.left]
    exact Outcome.error?_bind_ok _ _
  | modify mo arg ih =>
    have hnode : misplaced? (Tree.modify mo arg).kind = _ := misplaced?_modifier mo
    simp only [elements, Tree.subtrees, List.findSome?_cons, hnode]
    rfl
  | bare s =>
    have hnode : misplaced? (Tree.bare s).kind = _ := misplaced?_selection s
    simp only [elements, Tree.subtrees, List.findSome?_cons, hnode]
    rfl

/-! ## Queries -/

/-- The projection decides on the form of the query. -/
def isShaped : QueryKind → Bool
  | .select => true
  | .construct => true
  | _ => false

/-- Why a query has no text, the reasons in the order in which they are looked for. -/
def refusal? (q : Query) : Option RenderError :=
  let o := Outline.peel q.tree
  if isShaped q.kind = true ∧ o.shape = .select ∧ 1 < o.lists.length then
    some (.feature .sparql .severalSelections)
  else if isShaped q.kind = true ∧ o.shape = .construct ∧ o.repeats ≠ .kept then
    some (.feature .sparql .repeatsOfStatements)
  else o.body.bind firstMisplaced?

theorem error?_form (o : Outline) (kind : QueryKind) :
    Outcome.error? (form o kind) =
      if isShaped kind = true ∧ o.shape = .select ∧ 1 < o.lists.length then
        some (.feature .sparql .severalSelections)
      else if isShaped kind = true ∧ o.shape = .construct ∧ o.repeats ≠ .kept then
        some (.feature .sparql .repeatsOfStatements)
      else none := by
  have hshape : Outcome.error? (shapeForm o) =
      if o.shape = .select ∧ 1 < o.lists.length then
        some (.feature .sparql .severalSelections)
      else if o.shape = .construct ∧ o.repeats ≠ .kept then
        some (.feature .sparql .repeatsOfStatements)
      else none := by
    unfold shapeForm
    cases o.shape with
    | select =>
      simp only [selectForm]
      rw [Outcome.error?_bind_ok, Outline.error?_items]
      simp
    | construct =>
      simp only [constructForm]
      split <;> simp_all [Outcome.error?]
  cases kind with
  | select =>
    simp only [isShaped, true_and]
    exact hshape
  | construct =>
    simp only [isShaped, true_and]
    exact hshape
  | ask => rfl
  | describe targets => rfl

theorem error?_block (kind : QueryKind) (o : Outline) (f : Form) (m : GraphMap) :
    Outcome.error? (block kind o f m) = o.body.bind firstMisplaced? := by
  have hbody : Outcome.error? (bodyElements o m) = o.body.bind firstMisplaced? := by
    unfold bodyElements
    cases o.body with
    | none => rfl
    | some body => exact error?_elements body _
  unfold block
  split
  · rename_i h
    rw [h]
    rfl
  · exact (Outcome.error?_bind_ok _ _).trans hbody

theorem error?_document (n : Naming) (q : Query) (m : GraphMap) :
    Outcome.error? (document n q m) = refusal? q := by
  have hblock (f : Form) (g : Option Block → Document) :
      Outcome.error? (block q.kind (Outline.peel q.tree) f m >>= fun b => .ok (g b)) =
        (Outline.peel q.tree).body.bind firstMisplaced? := by
    rw [Outcome.error?_bind_ok, error?_block]
  simp only [document]
  rw [Outcome.error?_bind fun f _ => hblock f _, error?_form]
  simp only [refusal?]
  split_ifs <;> rfl

theorem error?_render (s : Style) (q : Query) : Outcome.error? (render s q) = refusal? q := by
  rw [← error?_document (Naming.ofStyle s) q (GraphMap.collect q.tree)]
  exact Outcome.error?_bind_ok _ _

theorem body_of_refusal?_eq_none {q : Query} (h : refusal? q = none) :
    (Outline.peel q.tree).body.bind firstMisplaced? = none := by
  simp only [refusal?] at h
  split_ifs at h
  exact h

/-- All modifiers of the tree stand in one chain from its root, each in a slot of its own, and
are in the outline; below them there is nothing that cannot stand in a body. -/
def Upright (t : Tree) : Prop :=
  ∃ modifiers core, Outline.Chain [] (Outline.peel t) t modifiers core ∧
    ((Outline.peel t).body = none ∨ ∀ u ∈ core.subtrees, u.kind ∈ bodyKinds)

theorem upright_of_refusal?_eq_none {q : Query} (h : refusal? q = none) : Upright q.tree := by
  have hbody := body_of_refusal?_eq_none h
  obtain ⟨modifiers, core, hchain⟩ := Outline.exists_peel_chain q.tree
  refine ⟨modifiers, core, hchain, ?_⟩
  cases hchain.ends with
  | body core hcore =>
    rw [hcore] at hbody
    exact Or.inr (firstMisplaced?_eq_none.1 hbody)
  | bare s hfree hnone hlists => exact Or.inl hnone

/-- A query has no text exactly if there is a reason to refuse it, and the first reason is the
error. The tree of a query that has a text keeps all its modifiers above the body. -/
theorem refused_exactly (s : Style) (q : Query) :
    (∀ e, render s q = .error e ↔ refusal? q = some e) ∧
    ((∃ text, render s q = .ok text) ↔ refusal? q = none) ∧
    ∀ text, render s q = .ok text → Upright q.tree := by
  have hrender := error?_render s q
  have hok : (∃ text, render s q = .ok text) ↔ refusal? q = none := by
    rw [← hrender, Outcome.error?_eq_none]
  refine ⟨?_, hok, ?_⟩
  · intro e
    rw [← hrender, Outcome.error?_eq_some]
  · intro text h
    exact upright_of_refusal?_eq_none (hok.1 ⟨text, h⟩)

/-- One column of the different solutions of a body. -/
def oneColumn (body : Tree) : Query where
  kind := .select
  tree := .modify .distinct (.modify (.select (.single [Column.same "x"])) body)
  dataset := Dataset.none

/-- The slice is met before the intersection. -/
def misplacedTwice : Tree :=
  .filter (.join (.modify (.slice (some 1) none) .unit) (.combine .intersection .unit .unit))
    (.bound (.user "x"))

theorem oneColumn_refused_exactly :
    (∃ text, render Style.default (oneColumn .unit) = .ok text ∧ Upright (oneColumn .unit).tree) ∧
    render Style.default (oneColumn misplacedTwice) = .error (.position .sparql .slice) := by
  obtain ⟨-, hok, hupright⟩ := refused_exactly Style.default (oneColumn .unit)
  obtain ⟨text, htext⟩ := hok.2 rfl
  exact ⟨⟨text, htext, hupright text htext⟩,
    ((refused_exactly Style.default (oneColumn misplacedTwice)).1 _).2 rfl⟩

end RdfQuery.Sparql
