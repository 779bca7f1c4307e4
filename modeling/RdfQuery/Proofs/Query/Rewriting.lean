import RdfQuery.Proofs.Paths
import RdfQuery.Proofs.Query.Amendments

/-!
# What the describe rewriting changes

The rewriting finds the first describe projection, in the order in which nodes
come before their operands, and changes its input only. It finds one in every
tree that has one. A tree or a query that is not rewritten stays as it is.
-/

set_option autoImplicit false

namespace RdfQuery

namespace Tree

/-! ## Amending at a path -/

/-- The node without its operands; a projection is the same node with and without input. -/
def node : Tree → Tree
  | .combine c _ _ => .combine c .unit .unit
  | .filter _ condition => .filter .unit condition
  | .modify (.select s) _ => .bare s
  | .modify m _ => .modify m .unit
  | t => t

/-- `t'` is `t` with the operand at `i` exchanged. -/
inductive Exchanged : (i : Nat) → (old new t t' : Tree) → Prop where
  | left (c : Combination) (l l' r : Tree) : Exchanged 0 l l' (.combine c l r) (.combine c l' r)
  | right (c : Combination) (l r r' : Tree) : Exchanged 1 r r' (.combine c l r) (.combine c l r')
  | filter (arg arg' : Tree) (e : Expr) : Exchanged 0 arg arg' (.filter arg e) (.filter arg' e)
  | modify (mo : Modifier) (arg arg' : Tree) :
    Exchanged 0 arg arg' (.modify mo arg) (.modify mo arg')

namespace Exchanged

variable {i : Nat} {old new t t' : Tree}

theorem old_child (h : Exchanged i old new t t') : Child t i old := by
  cases h <;> constructor

theorem new_child (h : Exchanged i old new t t') : Child t' i new := by
  cases h <;> constructor

theorem node_eq (h : Exchanged i old new t t') : t'.node = t.node := by
  cases h with
  | modify mo arg arg' => cases mo <;> rfl
  | _ => rfl

theorem children_ne (h : Exchanged i old new t t') {j : Nat} (hj : j ≠ i) :
    t'.children[j]? = t.children[j]? := by
  cases h with
  | left c l l' r => match j, hj with
    | _ + 1, _ => rfl
  | right c l r r' => match j, hj with
    | 0, _ => rfl
    | _ + 2, _ => rfl
  | filter arg arg' e => match j, hj with
    | _ + 1, _ => rfl
  | modify mo arg arg' => match j, hj with
    | _ + 1, _ => rfl

theorem exists_patterns (h : Exchanged i old new t t') :
    ∃ before after, t.patterns = before ++ old.patterns ++ after ∧
      t'.patterns = before ++ new.patterns ++ after := by
  cases h with
  | left c l l' r => exact ⟨[], r.patterns, rfl, rfl⟩
  | right c l r r' => exact ⟨l.patterns, [], (List.append_nil _).symm, (List.append_nil _).symm⟩
  | filter arg arg' e => exact ⟨[], [], (List.append_nil _).symm, (List.append_nil _).symm⟩
  | modify mo arg arg' => exact ⟨[], [], (List.append_nil _).symm, (List.append_nil _).symm⟩

end Exchanged

/-- `t'` is `t` with `u'` for the node `u` at the path, the first node that `f` is defined on. -/
structure AmendedAt (f : Tree → Option Tree) (t t' : Tree) (path : List Nat) (u u' : Tree) :
    Prop where
  found : t.at? path = some u
  fits : f u = some u'
  first : ∀ before < path, ∀ v, t.at? before = some v → f v = none
  put : ∀ rest, t'.at? (path ++ rest) = u'.at? rest
  elsewhere : ∀ other, ¬ path <+: other → (t'.at? other).map node = (t.at? other).map node
  patterns : ∃ before after, t.patterns = before ++ u.patterns ++ after ∧
    t'.patterns = before ++ u'.patterns ++ after

theorem AmendedAt.here {f : Tree → Option Tree} {t t' : Tree} (h : f t = some t') :
    AmendedAt f t t' [] t t' where
  found := rfl
  fits := h
  first := fun before hbefore => absurd hbefore (List.not_lt_nil before)
  put := fun _ => rfl
  elsewhere := fun _ hother => absurd List.nil_prefix hother
  patterns := ⟨[], [], (List.append_nil _).symm, (List.append_nil _).symm⟩

theorem AmendedAt.inside {f : Tree → Option Tree} {t t' child child' u u' : Tree} {i : Nat}
    {path : List Nat} (h : AmendedAt f child child' path u u')
    (hexchanged : Exchanged i child child' t t') (hself : f t = none)
    (hbefore : ∀ j < i, ∀ sibling, Child t j sibling → ∀ v ∈ sibling.subtrees, f v = none) :
    AmendedAt f t t' (i :: path) u u' where
  found := at?_cons.2 ⟨child, hexchanged.old_child, h.found⟩
  fits := h.fits
  first := by
    intro before hlt v hv
    cases before with
    | nil =>
      cases hv
      exact hself
    | cons j before =>
      obtain ⟨sibling, hsibling, hv⟩ := at?_cons.1 hv
      rcases List.cons_lt_cons_iff.1 hlt with hj | ⟨rfl, hrest⟩
      · exact hbefore j hj sibling hsibling v (mem_subtrees_of_at? hv)
      · cases Option.some.inj ((children_eq_some.2 hsibling).symm.trans
          (children_eq_some.2 hexchanged.old_child))
        exact h.first before hrest v hv
  put := by
    intro rest
    rw [List.cons_append, at?, children_eq_some.2 hexchanged.new_child]
    exact h.put rest
  elsewhere := by
    intro other hother
    cases other with
    | nil => exact congrArg some hexchanged.node_eq
    | cons j other =>
      by_cases hj : j = i
      · subst hj
        rw [at?, at?, children_eq_some.2 hexchanged.new_child,
          children_eq_some.2 hexchanged.old_child]
        exact h.elsewhere other fun hprefix => hother (List.cons_prefix_cons.2 ⟨rfl, hprefix⟩)
      · rw [at?, at?, hexchanged.children_ne hj]
  patterns := by
    obtain ⟨before, after, hold, hnew⟩ := h.patterns
    obtain ⟨before', after', hold', hnew'⟩ := hexchanged.exists_patterns
    refine ⟨before' ++ before, after ++ after', ?_, ?_⟩
    · rw [hold', hold]
      simp only [List.append_assoc]
    · rw [hnew', hnew]
      simp only [List.append_assoc]

theorem amendFirst?_eq_some {f : Tree → Option Tree} {t t' : Tree}
    (h : t.amendFirst? f = some t') : ∃ path u u', AmendedAt f t t' path u u' := by
  induction t generalizing t' with
  | unit => exact ⟨_, _, _, .here h⟩
  | pattern p => exact ⟨_, _, _, .here h⟩
  | combine c left right ihl ihr =>
    simp only [amendFirst?] at h
    split at h
    · rename_i hself
      cases h
      exact ⟨_, _, _, .here hself⟩
    · rename_i hself
      split at h
      · rename_i left' hleft
        cases h
        obtain ⟨path, u, u', hamended⟩ := ihl hleft
        refine ⟨_, u, u', hamended.inside (.left c left left' right) hself ?_⟩
        exact fun j hj => absurd hj (Nat.not_lt_zero j)
      · rename_i hleft
        obtain ⟨right', hright, rfl⟩ := Option.map_eq_some_iff.1 h
        obtain ⟨path, u, u', hamended⟩ := ihr hright
        refine ⟨_, u, u', hamended.inside (.right c left right right') hself ?_⟩
        -- the left operand was searched first
        intro j hj sibling hsibling
        cases hsibling with
        | left => exact amendFirst?_eq_none.1 hleft
        | right => exact absurd hj (Nat.lt_irrefl 1)
  | filter arg e ih =>
    simp only [amendFirst?] at h
    split at h
    · rename_i hself
      cases h
      exact ⟨_, _, _, .here hself⟩
    · rename_i hself
      obtain ⟨arg', harg, rfl⟩ := Option.map_eq_some_iff.1 h
      obtain ⟨path, u, u', hamended⟩ := ih harg
      refine ⟨_, u, u', hamended.inside (.filter arg arg' e) hself ?_⟩
      exact fun j hj => absurd hj (Nat.not_lt_zero j)
  | modify mo arg ih =>
    simp only [amendFirst?] at h
    split at h
    · rename_i hself
      cases h
      exact ⟨_, _, _, .here hself⟩
    · rename_i hself
      obtain ⟨arg', harg, rfl⟩ := Option.map_eq_some_iff.1 h
      obtain ⟨path, u, u', hamended⟩ := ih harg
      refine ⟨_, u, u', hamended.inside (.modify mo arg arg') hself ?_⟩
      exact fun j hj => absurd hj (Nat.not_lt_zero j)
  | bare s => exact ⟨_, _, _, .here h⟩

/-! ## The describe projection -/

theorem isDescribe_eq_true {t : Tree} :
    t.isDescribe = true ↔ ∃ u ∈ t.subtrees, Describe.isProjection u = true := by
  rw [show t.isDescribe = t.subtrees.any Describe.isProjection from rfl, List.any_eq_true]

/-- The input of a describe projection, given the old one if there was one. -/
def describing (added : Tree) : Option Tree → Tree
  | some body => .join body added
  | none => added

/-- `t'` is `t` with another input for the projection at the path, the first for describing. -/
structure DescribedAt (added t t' : Tree) (path : List Nat) : Prop where
  projection : ∃ u, t.at? path = some u ∧ Describe.isProjection u = true
  first : ∀ before < path, ∀ v, t.at? before = some v → Describe.isProjection v = false
  input : t'.at? (path ++ [0]) = some (describing added (t.at? (path ++ [0])))
  elsewhere : ∀ other, ¬ (path ++ [0]) <+: other →
    (t'.at? other).map node = (t.at? other).map node
  patterns : ∃ before after, t.patterns = before ++ after ∧
    t'.patterns = before ++ added.patterns ++ after

/-- What a describe projection is extended to. -/
theorem extend?_cases {added u u' : Tree} (h : Describe.extend? added u = some u') :
    Describe.isProjection u = true ∧ Describe.isProjection u' = true ∧ u'.node = u.node ∧
      u'.at? [0] = some (describing added (u.at? [0])) ∧
      (∀ i rest, u'.at? ((i + 1) :: rest) = none ∧ u.at? ((i + 1) :: rest) = none) ∧
      u'.patterns = u.patterns ++ added.patterns := by
  unfold Describe.extend? at h
  split at h
  · rename_i s arg
    split at h <;> cases h
    rename_i hs
    exact ⟨hs, hs, rfl, rfl, fun i rest => ⟨rfl, rfl⟩, rfl⟩
  · rename_i s
    split at h <;> cases h
    rename_i hs
    exact ⟨hs, hs, rfl, rfl, fun i rest => ⟨rfl, rfl⟩, rfl⟩
  · cases h

theorem AmendedAt.described {added t t' u u' : Tree} {path : List Nat}
    (h : AmendedAt (Describe.extend? added) t t' path u u') :
    DescribedAt added t t' path ∧ t'.isDescribe = true := by
  obtain ⟨hu, hu', hnode, hinput, hrest, hpatterns⟩ := extend?_cases h.fits
  have hold (rest : List Nat) : t.at? (path ++ rest) = u.at? rest := by
    rw [at?_append, h.found, Option.bind_some]
  refine ⟨⟨⟨u, h.found, hu⟩, ?_, ?_, ?_, ?_⟩, ?_⟩
  · exact fun before hbefore v hv => Describe.extend?_eq_none.1 (h.first before hbefore v hv)
  · rw [h.put, hold]
    exact hinput
  · intro other hother
    by_cases hprefix : path <+: other
    · -- at the projection itself, or off its only input
      obtain ⟨rest, rfl⟩ := hprefix
      rw [h.put, hold]
      match rest with
      | [] => exact congrArg some hnode
      | 0 :: rest =>
        exact absurd (List.prefix_append_right_inj path |>.2 ⟨rest, rfl⟩) hother
      | (i + 1) :: rest => rw [(hrest i rest).1, (hrest i rest).2]
    · exact h.elsewhere other hprefix
  · obtain ⟨before, after, hbefore, hafter⟩ := h.patterns
    refine ⟨before ++ u.patterns, after, hbefore, ?_⟩
    rw [hafter, hpatterns]
    simp only [List.append_assoc]
  · have hput := h.put []
    rw [List.append_nil] at hput
    exact isDescribe_eq_true.2 ⟨u', mem_subtrees_of_at? hput, hu'⟩

theorem described_of_describe {t t' : Tree} {targets : List Term} {scope : Scope}
    (h : t.describe targets scope = .ok t') :
    ∃ condition path, Describe.condition? targets = some condition ∧
      DescribedAt (mentioning scope condition) t t' path ∧ t'.isDescribe = true := by
  rw [describe_eq] at h
  split at h
  · cases h
  · rename_i condition hcondition
    split at h
    · rename_i hamend
      cases h
      obtain ⟨path, u, u', hamended⟩ := amendFirst?_eq_some hamend
      exact ⟨condition, path, hcondition, hamended.described⟩
    · cases h

end Tree

/-- A query that describes targets is rewritten as its tree is. -/
theorem Query.describedByConstruct_eq {q : Query} {targets : List Term}
    (hkind : q.kind = .describe targets) (scope : Scope) :
    q.describedByConstruct scope = ((q.tree.described targets scope).1,
      { q with
        kind := if (q.tree.described targets scope).1 then .construct else q.kind
        tree := (q.tree.described targets scope).2 }) := by
  obtain ⟨kind, tree, dataset⟩ := q
  cases hkind
  cases hdescribe : tree.describe targets scope <;>
    simp only [describedByConstruct, Tree.described, hdescribe] <;> rfl

/-- The rewriting is made exactly for targets and trees with a describe projection, and changes
the input of the first such projection only; otherwise the tree and the query stay as they are. -/
theorem describe_rewrites (t : Tree) (targets : List Term) (scope : Scope) :
    ((∃ t', t.describe targets scope = .ok t') ↔ targets ≠ [] ∧ t.isDescribe = true) ∧
    (∀ t', t.describe targets scope = .ok t' → ∃ condition path,
      Describe.condition? targets = some condition ∧
      Tree.DescribedAt (.filter (.pattern (Describe.statement scope)) condition) t t' path ∧
      t'.isDescribe = true ∧ t.described targets scope = (true, t')) ∧
    (∀ e, t.describe targets scope = .error e → t.described targets scope = (false, t)) ∧
    ∀ q : Query, q.tree = t →
      ((q.describedByConstruct scope).1 = false → (q.describedByConstruct scope).2 = q) ∧
      ((q.describedByConstruct scope).1 = true ↔
        ∃ targets, q.kind = .describe targets ∧ targets ≠ [] ∧ t.isDescribe = true) ∧
      (q.kind = .describe targets → q.describedByConstruct scope =
        ((t.described targets scope).1, { q with
          kind := if (t.described targets scope).1 then .construct else q.kind
          tree := (t.described targets scope).2 })) := by
  refine ⟨Tree.describe_isOk, ?_, ?_, ?_⟩
  · intro t' h
    obtain ⟨condition, path, hcondition, hdescribed, hshaped⟩ := Tree.described_of_describe h
    refine ⟨condition, path, hcondition, hdescribed, hshaped, ?_⟩
    rw [Tree.described, h]
  · intro e h
    rw [Tree.described, h]
  · rintro q rfl
    refine ⟨?_, ?_, fun hkind => Query.describedByConstruct_eq hkind scope⟩
    · intro hfalse
      rcases q.described_cases scope with ⟨-, h⟩ | ⟨-, _, _, -, -, h⟩
      · rw [h]
      · rw [h] at hfalse
        cases hfalse
    · rw [Query.described_applied, Query.rewritable]
      cases q.kind <;> simp

/-- Below a slice, a describe projection without input beside one with input. -/
def nestedDescribe : Tree :=
  .modify (.slice (some 5) none) (.join (.bare (.single Describe.columns))
    (.modify (.select (.single Describe.columns)) (.pattern
      ⟨.var (.fresh Describe.subject), .var (.user "p"), .var (.user "o"), none⟩)))

/-- The one without input comes first, and is given one; without targets nothing changes. -/
theorem nestedDescribe_rewrites :
    (∃ t' condition path, Describe.condition? [.var (.user "x")] = some condition ∧
      nestedDescribe.described [.var (.user "x")] .namedGraphs = (true, t') ∧
      Tree.DescribedAt (.filter (.pattern (Describe.statement .namedGraphs)) condition)
        nestedDescribe t' path) ∧
    nestedDescribe.described [] .namedGraphs = (false, nestedDescribe) ∧
    (Query.describedByConstruct ⟨.describe [.var (.user "x")], nestedDescribe, .none⟩
      .namedGraphs).1 = true ∧
    (Query.describedByConstruct ⟨.select, nestedDescribe, .none⟩ .namedGraphs).2 =
      ⟨.select, nestedDescribe, .none⟩ := by
  obtain ⟨hiff, hok, -, hquery⟩ := describe_rewrites nestedDescribe [.var (.user "x")] .namedGraphs
  obtain ⟨t', ht'⟩ := hiff.2 ⟨nofun, by decide⟩
  obtain ⟨condition, path, hcondition, hdescribed, -, hresult⟩ := hok t' ht'
  exact ⟨⟨t', condition, path, hcondition, hresult, hdescribed⟩,
    (describe_rewrites nestedDescribe [] .namedGraphs).2.2.1 .noTargets rfl,
    (hquery ⟨_, nestedDescribe, .none⟩ rfl).2.1.2 ⟨_, rfl, nofun, by decide⟩,
    (hquery ⟨.select, nestedDescribe, .none⟩ rfl).1 rfl⟩

end RdfQuery
