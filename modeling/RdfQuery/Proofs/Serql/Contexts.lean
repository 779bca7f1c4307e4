import RdfQuery.Proofs.Serql.Conservation

/-!
# Contexts that are told apart alike

A clause stands for a context, and contexts are told apart by their texts. As
long as two namings tell the graphs of a tree apart alike, the same items are
filed together and the same trees are accepted.
-/

set_option autoImplicit false

namespace RdfQuery.Serql

/-! ## Items filed under graphs -/

/-- The items of a tree and the graphs they are matched in. -/
def filed : Tree → GraphMap → (outer : Option Term) → List (Option Term × Item)
  | .unit, _, _ => []
  | .pattern p, m, outer => [(m.graph?.or outer, pathOf p)]
  | .combine (.leftJoin condition) left right, m, outer =>
    filed left m.left (m.graph?.or outer) ++
      [(m.graph?.or outer,
        .optional ((filed right m.right (m.graph?.or outer)).map Prod.snd)
          (right.ownConditions ++ condition.toList))]
  | .combine _ left right, m, outer =>
    filed left m.left (m.graph?.or outer) ++ filed right m.right (m.graph?.or outer)
  | .filter arg _, m, outer => filed arg m.left (m.graph?.or outer)
  | .modify _ arg, m, outer => filed arg m.left (m.graph?.or outer)
  | .bare _, _, _ => []

theorem parts_eq_map (n : Naming) (t : Tree) (m : GraphMap) (outer : Option Term) :
    parts n t m outer = (filed t m outer).map fun part => (contextOf n part.1, part.2) := by
  induction t generalizing m outer with
  | unit => rfl
  | pattern p => rfl
  | combine op left right ihl ihr =>
    cases op with
    | leftJoin condition =>
      simp only [parts, filed, ihl, ihr, List.map_append, List.map_map, List.map_singleton,
        Function.comp_def]
    | join => simp only [parts, filed, ihl, ihr, List.map_append]
    | union => simp only [parts, filed, ihl, ihr, List.map_append]
    | difference => simp only [parts, filed, ihl, ihr, List.map_append]
    | intersection => simp only [parts, filed, ihl, ihr, List.map_append]
  | filter arg e ih => exact ih _ _
  | modify mo arg ih => exact ih _ _
  | bare s => rfl

theorem filed_uses (t : Tree) (m : GraphMap) (outer : Option Term) :
    (filed t m outer).map Prod.fst ⊆ t.uses m outer := by
  induction t generalizing m outer with
  | unit => exact List.Subset.refl _
  | pattern p => exact List.Subset.refl _
  | combine op left right ihl ihr =>
    have hleft := ihl m.left (m.graph?.or outer)
    have hright := ihr m.right (m.graph?.or outer)
    have hboth : (filed left m.left (m.graph?.or outer) ++
        filed right m.right (m.graph?.or outer)).map Prod.fst ⊆
        left.uses m.left (m.graph?.or outer) ++ right.uses m.right (m.graph?.or outer) := by
      rw [List.map_append, List.append_subset]
      exact ⟨List.Subset.trans hleft (List.subset_append_left _ _),
        List.Subset.trans hright (List.subset_append_right _ _)⟩
    cases op with
    | leftJoin condition =>
      simp only [filed, Tree.uses, List.map_append, List.append_subset]
      exact ⟨List.Subset.trans hleft (List.Subset.trans (List.subset_append_left _ _)
        (List.subset_append_left _ _)), List.subset_append_right _ _⟩
    | join => exact hboth
    | union => exact hboth
    | difference => exact hboth
    | intersection => exact hboth
  | filter arg e ih => exact ih _ _
  | modify mo arg ih => exact ih _ _
  | bare s => exact List.Subset.refl _

/-- Whether optional parts lie in the context of their left joins hangs on nothing but which
graphs have one text. -/
theorem Collectable.of_tellAlike {n n' : Naming} {t : Tree} {m : GraphMap} {outer : Option Term}
    (h : Collectable n t m outer)
    (halike : TellAlike (t.uses m outer) (contextOf n) (contextOf n')) :
    Collectable n' t m outer := by
  induction t generalizing m outer with
  | unit => exact trivial
  | pattern p => exact trivial
  | combine op left right ihl ihr =>
    cases op with
    | join =>
      exact ⟨ihl h.1 (halike.mono (List.subset_append_left _ _)),
        ihr h.2 (halike.mono (List.subset_append_right _ _))⟩
    | leftJoin condition =>
      have hleft : left.uses m.left (m.graph?.or outer) ⊆
          (Tree.combine (.leftJoin condition) left right).uses m outer :=
        fun use hu => List.mem_append_left _ (List.mem_append_left _ hu)
      have hright : right.uses m.right (m.graph?.or outer) ⊆
          (Tree.combine (.leftJoin condition) left right).uses m outer :=
        fun use hu => List.mem_append_left _ (List.mem_append_right _ hu)
      have hown : m.graph?.or outer ∈
          (Tree.combine (.leftJoin condition) left right).uses m outer :=
        List.mem_append_right _ (List.mem_singleton_self _)
      refine ⟨ihl h.1 (halike.mono hleft), ihr h.2.1 (halike.mono hright), ?_⟩
      intro part hpart
      rw [parts_eq_map] at hpart
      obtain ⟨file, hfile, rfl⟩ := List.mem_map.1 hpart
      have huse := hright (filed_uses _ _ _ (List.mem_map_of_mem hfile))
      have hpart : (contextOf n file.1, file.2) ∈ parts n right m.right (m.graph?.or outer) := by
        rw [parts_eq_map]
        exact List.mem_map_of_mem hfile
      exact (halike _ huse _ hown).1 (h.2.2 _ hpart)
    | union => exact h.elim
    | difference => exact h.elim
    | intersection => exact h.elim
  | filter arg e ih => exact ih h halike
  | modify mo arg ih => exact h.elim
  | bare s => exact h.elim

/-! ## Bodies -/

/-- The body of a tree, whether its operands can be collected or not. -/
def laidOut (n : Naming) : Tree → GraphMap → (outer : Option Term) → Body
  | .combine c left right, m, outer =>
    match SetOperation.of? c with
    | some op =>
      .operation op (laidOut n left m.left (m.graph?.or outer))
        (laidOut n right m.right (m.graph?.or outer))
    | none =>
      .clauses ⟨OrderedMap.gather (parts n (.combine c left right) m outer),
        (Tree.combine c left right).ownConditions⟩
  | t, m, outer => .clauses ⟨OrderedMap.gather (parts n t m outer), t.ownConditions⟩

def Operand.Collectable (n : Naming) (o : Operand) : Prop :=
  Serql.Collectable n o.tree o.map o.outer

theorem collectBody_eq_ok {n : Naming} {t : Tree} {m : GraphMap} {outer : Option Term} {b : Body} :
    collectBody n t m outer = .ok b ↔ (∀ o ∈ [(⟨t, m, outer⟩ : Operand)], o.Collectable n) ∧
      b = .clauses ⟨OrderedMap.gather (parts n t m outer), t.ownConditions⟩ := by
  rw [List.forall_mem_singleton]
  constructor
  · exact collectBody_eq
  · rintro ⟨hc, rfl⟩
    refine Outcome.bind_eq_ok.2 ⟨_, collect_of_collectable hc Clauses.empty, ?_⟩
    rw [Clauses.empty_add]

/-- A body is accepted exactly if each operand of its set operations can be collected. -/
theorem body_eq_ok {n : Naming} {t : Tree} {m : GraphMap} {outer : Option Term} {b : Body} :
    body n t m outer = .ok b ↔
      (∀ o ∈ operands t m outer, o.Collectable n) ∧ b = laidOut n t m outer := by
  induction t generalizing m outer b with
  | combine c left right ihl ihr =>
    simp only [body, operands, laidOut]
    cases SetOperation.of? c with
    | none => exact collectBody_eq_ok
    | some op =>
      simp only [List.forall_mem_append]
      constructor
      · intro h
        obtain ⟨bl, hleft, h⟩ := Outcome.bind_eq_ok.1 h
        obtain ⟨br, hright, h⟩ := Outcome.bind_eq_ok.1 h
        cases h
        obtain ⟨hl, rfl⟩ := ihl.1 hleft
        obtain ⟨hr, rfl⟩ := ihr.1 hright
        exact ⟨⟨hl, hr⟩, rfl⟩
      · rintro ⟨⟨hl, hr⟩, rfl⟩
        exact Outcome.bind_eq_ok.2 ⟨_, ihl.2 ⟨hl, rfl⟩,
          Outcome.bind_eq_ok.2 ⟨_, ihr.2 ⟨hr, rfl⟩, rfl⟩⟩
  | unit => exact collectBody_eq_ok
  | pattern p => exact collectBody_eq_ok
  | filter arg e ih => exact collectBody_eq_ok
  | modify mo arg ih => exact collectBody_eq_ok
  | bare s => exact collectBody_eq_ok

theorem uses_operand {t : Tree} {m : GraphMap} {outer : Option Term} {o : Operand}
    (h : o ∈ operands t m outer) : o.tree.uses o.map o.outer ⊆ t.uses m outer := by
  induction t generalizing m outer with
  | combine c left right ihl ihr =>
    have hboth (h : o ∈ operands left m.left (m.graph?.or outer) ++
        operands right m.right (m.graph?.or outer)) : o.tree.uses o.map o.outer ⊆
        left.uses m.left (m.graph?.or outer) ++ right.uses m.right (m.graph?.or outer) := by
      rcases List.mem_append.1 h with h | h
      · exact List.Subset.trans (ihl h) (List.subset_append_left _ _)
      · exact List.Subset.trans (ihr h) (List.subset_append_right _ _)
    cases c with
    | union => exact hboth h
    | difference => exact hboth h
    | intersection => exact hboth h
    | join =>
      cases List.mem_singleton.1 h
      exact List.Subset.refl _
    | leftJoin condition =>
      cases List.mem_singleton.1 h
      exact List.Subset.refl _
  | unit => exact List.mem_singleton.1 h ▸ List.Subset.refl _
  | pattern p => exact List.mem_singleton.1 h ▸ List.Subset.refl _
  | filter arg e ih => exact List.mem_singleton.1 h ▸ List.Subset.refl _
  | modify mo arg ih => exact List.mem_singleton.1 h ▸ List.Subset.refl _
  | bare s => exact List.mem_singleton.1 h ▸ List.Subset.refl _

/-! ## Outlines -/

def laidOutBody (n : Naming) (o : Outline) (m : GraphMap) : Option Body :=
  o.body.map fun t => laidOut n t (m.descend o.depth) none

theorem outlineBody_eq_ok {n : Naming} {o : Outline} {m : GraphMap} {b : Option Body} :
    outlineBody n o m = .ok b ↔
      (∀ t ∈ o.body, ∀ op ∈ operands t (m.descend o.depth) none, op.Collectable n) ∧
        b = laidOutBody n o m := by
  unfold outlineBody laidOutBody
  cases o.body with
  | none =>
    constructor
    · intro h
      cases h
      exact ⟨fun t ht => absurd ht (Option.not_mem_none t), rfl⟩
    · rintro ⟨-, rfl⟩
      rfl
  | some t =>
    constructor
    · intro h
      obtain ⟨b', hb', h⟩ := Outcome.bind_eq_ok.1 h
      cases h
      obtain ⟨hc, rfl⟩ := body_eq_ok.1 hb'
      refine ⟨?_, rfl⟩
      intro u hu
      cases hu
      exact hc
    · rintro ⟨hc, rfl⟩
      exact Outcome.bind_eq_ok.2 ⟨_, body_eq_ok.2 ⟨hc t rfl, rfl⟩, rfl⟩

/-- No graph has the text of the default graph, which has none. -/
theorem tellAlike_of_subset {n n' : Naming} {uses graphs : List (Option Term)}
    (h : TellAlike graphs (contextOf n) (contextOf n'))
    (huses : ∀ use ∈ uses, ∀ g ∈ use, use ∈ graphs) :
    TellAlike uses (contextOf n) (contextOf n') := by
  intro x hx y hy
  cases x with
  | none => cases y <;> simp [contextOf]
  | some g =>
    cases y with
    | none => simp [contextOf]
    | some g' => exact h _ (huses _ hx g rfl) _ (huses _ hy g' rfl)

/-- The graphs that a body is matched in are graphs of patterns of the tree. -/
theorem graph_of_mem_uses {t body : Tree} {steps : Nat} {use : Option Term} {g : Term}
    (huse : use ∈ body.uses ((GraphMap.collect t).descend steps) none) (hg : g ∈ use) :
    g ∈ (GraphMap.collect t).graphs ∧ use ∈ t.patterns.map TriplePattern.graph := by
  have hmem : g ∈ (GraphMap.collect t).graphs := by
    rcases Tree.mem_uses huse hg with h | h
    · exact GraphMap.graphs_descend _ _ h
    · cases h
  obtain ⟨p, hp, hpg⟩ := GraphMap.exists_pattern_of_mem_graphs hmem
  rw [show use = p.graph by rw [hpg]; exact hg]
  exact ⟨hmem, List.mem_map_of_mem hp⟩

theorem tellAlike_uses {n n' : Naming} {t : Tree}
    (h : TellAlike (t.patterns.map TriplePattern.graph) (contextOf n) (contextOf n'))
    (body : Tree) (steps : Nat) :
    TellAlike (body.uses ((GraphMap.collect t).descend steps) none) (contextOf n) (contextOf n') :=
  tellAlike_of_subset h fun _ huse _ hg => (graph_of_mem_uses huse hg).2

/-- Which trees have a document is the same for all namings that tell the graphs of the tree
apart alike. -/
theorem document_of_tellAlike {n n' : Naming} {t : Tree} {d : Document}
    (h : document n t (GraphMap.collect t) = .ok d)
    (halike : TellAlike (t.patterns.map TriplePattern.graph) (contextOf n) (contextOf n')) :
    document n' t (GraphMap.collect t) =
      .ok { d with
        body := laidOutBody n' (Outline.peel t) (GraphMap.collect t)
        declarations := n'.declarations t.iris } := by
  obtain ⟨hd, hhead, h⟩ := Outcome.bind_eq_ok.1 h
  obtain ⟨b, hbody, h⟩ := Outcome.bind_eq_ok.1 h
  cases h
  have hcollectable : ∀ u ∈ (Outline.peel t).body,
      ∀ op ∈ operands u ((GraphMap.collect t).descend (Outline.peel t).depth) none,
        op.Collectable n' := by
    intro u hu op hop
    have huses := tellAlike_uses halike u (Outline.peel t).depth
    exact ((outlineBody_eq_ok.1 hbody).1 u hu op hop).of_tellAlike
      (huses.mono (uses_operand hop))
  have hbody' := outlineBody_eq_ok.2 ⟨hcollectable, rfl⟩
  exact Outcome.bind_eq_ok.2 ⟨hd, hhead, Outcome.bind_eq_ok.2 ⟨_, hbody', rfl⟩⟩

end RdfQuery.Serql
