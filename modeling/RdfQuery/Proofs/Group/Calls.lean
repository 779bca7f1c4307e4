import RdfQuery.Group.Calls
import RdfQuery.Proofs.Group.Compilation

/-!
# Groups as their calls say them

The calls that build a group name its trees, its filters and its children. A
draft that met no error holds just these, in the order of the calls, so what
the conditions of the compiled tree guard can be read off the calls.
-/

set_option autoImplicit false

namespace RdfQuery

namespace GroupCall

def tree? : GroupCall → Option Tree
  | .tree t => some t
  | _ => none

def filter? : GroupCall → Option Expr
  | .filter e => some e
  | _ => none

mutual

/-- The child a call adds. -/
def child? : GroupCall → Option Group
  | .tree _ => none
  | .filter _ => none
  | .nested calls =>
    some ⟨false, false, calls.filterMap tree?, childrenOf calls, calls.filterMap filter?⟩
  | .optional calls =>
    some ⟨false, true, calls.filterMap tree?, childrenOf calls, calls.filterMap filter?⟩
  | .union sides => some ⟨true, false, [], unionSides sides, []⟩

def childrenOf : List GroupCall → List Group
  | [] => []
  | c :: cs => (child? c).toList ++ childrenOf cs

def unionSides : List (List GroupCall) → List Group
  | [] => []
  | calls :: sides =>
    ⟨false, false, calls.filterMap tree?, childrenOf calls, calls.filterMap filter?⟩ ::
      unionSides sides

end

theorem childrenOf_append (cs ds : List GroupCall) :
    childrenOf (cs ++ ds) = childrenOf cs ++ childrenOf ds := by
  induction cs with
  | nil => rfl
  | cons c cs ih => simp [childrenOf, ih]

end GroupCall

namespace Group

open GroupCall

/-- The group with all that the calls add to it. -/
def extended (g : Group) (calls : List GroupCall) : Group :=
  { g with
    body := g.body ++ calls.filterMap tree?
    children := g.children ++ childrenOf calls
    filters := g.filters ++ calls.filterMap filter? }

/-- The mandatory group that calls describe. -/
def ofCalls (calls : List GroupCall) : Group := (start false).extended calls

theorem extended_nil (g : Group) : g.extended [] = g := by
  cases g
  simp [extended, childrenOf]

theorem extended_append (g : Group) (cs ds : List GroupCall) :
    (g.extended cs).extended ds = g.extended (cs ++ ds) := by
  simp [extended, childrenOf_append, List.append_assoc]

def withChildren (g : Group) (gs : List Group) : Group := { g with children := g.children ++ gs }

theorem withChildren_nil (g : Group) : g.withChildren [] = g := by
  cases g
  simp [withChildren]

theorem withChildren_append (g : Group) (gs hs : List Group) :
    (g.withChildren gs).withChildren hs = g.withChildren (gs ++ hs) := by
  simp [withChildren]

theorem extended_tree (g : Group) (t : Tree) : g.extended [.tree t] = g.addTree t := by
  simp [extended, addTree, childrenOf, child?, tree?, filter?]

theorem extended_filter (g : Group) (e : Expr) : g.extended [.filter e] = g.addFilter e := by
  simp [extended, addFilter, childrenOf, child?, tree?, filter?]

/-- A call that adds a child adds nothing else. -/
theorem extended_child (g : Group) {c : GroupCall} {child : Group} (h : child? c = some child) :
    g.extended [c] = g.withChildren [child] := by
  cases c with
  | tree t => cases h
  | filter e => cases h
  | nested calls => simp [extended, withChildren, childrenOf, h, tree?, filter?]
  | optional calls => simp [extended, withChildren, childrenOf, h, tree?, filter?]
  | union sides => simp [extended, withChildren, childrenOf, h, tree?, filter?]

theorem addChild_eq_ok {g child g' : Group} (h : g.addChild child = .ok g') :
    g' = g.withChildren [child] := by
  rw [addChild] at h
  split at h
  · cases h
  · exact (Except.ok.inj h).symm

end Group

namespace GroupDraft

open GroupCall

theorem finish_eq_ok {d : GroupDraft} {g : Group} :
    d.finish = .ok g ↔ d.error? = none ∧ d.group = g := by
  rw [finish]
  cases d.error? <;> simp

/-- Errors are never forgotten. -/
theorem record_ne_none (d : GroupDraft) (e : BuildError) : (d.record e).error? ≠ none := by
  cases h : d.error? <;> simp [record, h]

/-- The draft holds its group without an error, and held `before` without one. -/
def Grew (before d : GroupDraft) (g : Group) : Prop :=
  d.error? = none → before.error? = none ∧ d.group = g

theorem grew_attach {d built : GroupDraft} {g : Group} (h : built.error? = none → built.group = g) :
    Grew d (d.attach built.finish) (d.group.withChildren [g]) := by
  intro herror
  unfold attach at herror ⊢
  split at herror
  · exact absurd herror (record_ne_none _ _)
  · rename_i child hchild
    obtain ⟨hbuilt, rfl⟩ := finish_eq_ok.1 hchild
    split at herror
    · exact absurd herror (record_ne_none _ _)
    · rename_i group hgroup
      rw [h hbuilt] at hgroup
      exact ⟨herror, Group.addChild_eq_ok hgroup⟩

mutual

theorem grew_call : ∀ (d : GroupDraft) (c : GroupCall), Grew d (call d c) (d.group.extended [c])
  | d, .tree t => fun h => ⟨h, (d.group.extended_tree t).symm⟩
  | d, .filter e => fun h => ⟨h, (d.group.extended_filter e).symm⟩
  | d, .nested calls => by
    rw [d.group.extended_child rfl, call]
    exact grew_attach fun h => (grew_callAll (start false) calls h).2
  | d, .optional calls => by
    rw [d.group.extended_child rfl, call]
    exact grew_attach fun h => (grew_callAll (start true) calls h).2
  | d, .union sides => by
    rw [d.group.extended_child rfl, call]
    exact grew_attach fun h => (grew_sideAll startUnion sides h).2

theorem grew_callAll : ∀ (d : GroupDraft) (cs : List GroupCall),
    Grew d (callAll d cs) (d.group.extended cs)
  | d, [] => fun h => ⟨h, (Group.extended_nil d.group).symm⟩
  | d, c :: cs => by
    intro h
    obtain ⟨hcall, hgroup⟩ := grew_callAll (call d c) cs h
    obtain ⟨herror, hfirst⟩ := grew_call d c hcall
    rw [hfirst, Group.extended_append] at hgroup
    exact ⟨herror, hgroup⟩

theorem grew_sideAll : ∀ (d : GroupDraft) (sides : List (List GroupCall)),
    Grew d (sideAll d sides) (d.group.withChildren (unionSides sides))
  | d, [] => fun h => ⟨h, (Group.withChildren_nil d.group).symm⟩
  | d, calls :: sides => by
    intro h
    obtain ⟨hside, hgroup⟩ := grew_sideAll _ sides h
    obtain ⟨herror, hfirst⟩ := grew_attach (fun h => (grew_callAll (start false) calls h).2) hside
    rw [hfirst, Group.withChildren_append] at hgroup
    exact ⟨herror, hgroup⟩

end

end GroupDraft

namespace Group

open GroupCall

theorem build_eq_ok {calls : List GroupCall} {g : Group} (h : build calls = .ok g) :
    g = ofCalls calls := by
  obtain ⟨herror, rfl⟩ := GroupDraft.finish_eq_ok.1 h
  exact (GroupDraft.grew_callAll _ calls herror).2

/-! ## Nothing is lost -/

mutual

theorem keepsLeaves_child : ∀ (c : GroupCall) (g : Group), child? c = some g →
    g.keepsLeaves = true
  | .tree _, _, h => by cases h
  | .filter _, _, h => by cases h
  | .nested calls, _, h => by
    cases h
    exact keepsLeavesAll_childrenOf calls
  | .optional calls, _, h => by
    cases h
    exact keepsLeavesAll_childrenOf calls
  | .union sides, _, h => by
    cases h
    exact keepsLeavesAll_unionSides sides

theorem keepsLeavesAll_childrenOf : ∀ calls : List GroupCall,
    keepsLeavesAll (childrenOf calls) = true
  | [] => rfl
  | c :: cs => by
    rw [childrenOf]
    cases hchild : child? c with
    | none => exact keepsLeavesAll_childrenOf cs
    | some g =>
      have hg := keepsLeaves_child c g hchild
      have hcs := keepsLeavesAll_childrenOf cs
      simp [keepsLeavesAll, hg, hcs]

theorem keepsLeavesAll_unionSides : ∀ sides : List (List GroupCall),
    keepsLeavesAll (unionSides sides) = true
  | [] => rfl
  | calls :: sides => by
    have hcalls := keepsLeavesAll_childrenOf calls
    have hsides := keepsLeavesAll_unionSides sides
    simp [unionSides, keepsLeavesAll, keepsLeaves, hcalls, hsides]

end

theorem leaves_ofCalls (calls : List GroupCall) : (ofCalls calls).leaves = (ofCalls calls).patterns :=
  (leaves_eq_iff _).2 (keepsLeavesAll_childrenOf calls)

/-- The conditions of the tree and what they guard are those of the group the calls describe, in
order and each once. So are its leaves. -/
theorem conditions_conserved {calls : List GroupCall} {g : Group} {t : Tree}
    (hbuild : build calls = .ok g) (hcompile : g.compile = .ok t) :
    t.guards = (ofCalls calls).guards ∧ t.patterns = (ofCalls calls).patterns := by
  have hhas := has_compile g hcompile
  rw [build_eq_ok hbuild] at hhas
  exact ⟨hhas.guards_eq, hhas.patterns_eq.trans (leaves_ofCalls calls)⟩

/-- Filters by all routes: around own patterns, around the children of a group without any, lifted
into a left join, and left in place where an optional group has two. -/
def filteredCalls : List GroupCall :=
  let pattern (subject : String) : GroupCall :=
    .pattern ⟨.var (.user subject), .var (.user "p"), .var (.user "o"), none⟩
  let bound (name : String) : GroupCall := .filter (.bound (.user name))
  [bound "a", pattern "a", .optional [pattern "b", bound "b"],
    .nested [bound "c", .union [[pattern "c"], [pattern "d", bound "d"]],
      .optional [pattern "e", bound "e", bound "f"]],
    .tree (.filter .unit (.bound (.user "g"))), bound "h"]

theorem filteredCalls_conserved :
    ∃ g t, build filteredCalls = .ok g ∧ g.compile = .ok t ∧
      t.guards = (ofCalls filteredCalls).guards ∧ t.guards.length = 8 := by
  obtain ⟨g, hbuild⟩ : ∃ g, build filteredCalls = .ok g := ⟨_, rfl⟩
  obtain ⟨t, hcompile⟩ : ∃ t, g.compile = .ok t := by
    rw [build_eq_ok hbuild]
    exact ⟨_, rfl⟩
  have hguards := (conditions_conserved hbuild hcompile).1
  exact ⟨g, t, hbuild, hcompile, hguards, by rw [hguards]; rfl⟩

end Group

end RdfQuery
