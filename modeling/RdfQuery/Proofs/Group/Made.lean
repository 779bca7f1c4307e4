import RdfQuery.Proofs.Group.Recorded
import RdfQuery.Proofs.Words

/-!
# What the trees of groups are made of

Compilation adds joins, left joins, unions and filters to the trees a group was
given, and writes no condition but the group's filters. So the tree of a group of
patterns has no modifier in it and no variable that its calls do not have.
-/

set_option autoImplicit false

namespace RdfQuery

/-- Trees put together from trees and conditions of the given sort. -/
inductive Tree.Made (own : Tree → Prop) (condition : Expr → Prop) : Tree → Prop where
  | unit : Made own condition .unit
  | own {t : Tree} (h : own t) : Made own condition t
  | join {l r : Tree} (hl : Made own condition l) (hr : Made own condition r) :
      Made own condition (.join l r)
  | leftJoin {l r : Tree} (c : Option Expr) (hl : Made own condition l)
      (hr : Made own condition r) (hc : ∀ e ∈ c, condition e) :
      Made own condition (.leftJoin l r c)
  | union {l r : Tree} (hl : Made own condition l) (hr : Made own condition r) :
      Made own condition (.union l r)
  | filter {t : Tree} {e : Expr} (ht : Made own condition t) (he : condition e) :
      Made own condition (.filter t e)

namespace Tree

variable {own : Tree → Prop} {condition : Expr → Prop}

theorem Made.mono {own' : Tree → Prop} {condition' : Expr → Prop} {t : Tree}
    (h : t.Made own condition) (hown : ∀ u, own u → own' u)
    (hcondition : ∀ e, condition e → condition' e) : t.Made own' condition' := by
  induction h with
  | unit => exact .unit
  | own ht => exact .own (hown _ ht)
  | join hl hr ihl ihr => exact .join ihl ihr
  | leftJoin c hl hr hc ihl ihr => exact .leftJoin c ihl ihr fun e he => hcondition e (hc e he)
  | union hl hr ihl ihr => exact .union ihl ihr
  | filter ht he ih => exact .filter ih (hcondition _ he)

theorem made_filtered {t : Tree} {filters : List Expr} (ht : t.Made own condition)
    (h : ∀ e ∈ filters, condition e) : (t.filtered filters).Made own condition := by
  induction filters generalizing t with
  | nil => exact ht
  | cons e filters ih =>
    exact ih (.filter ht (h e List.mem_cons_self)) fun d hd => h d (List.mem_cons_of_mem _ hd)

theorem made_foldl_join {t : Tree} {ts : List Tree} (ht : t.Made own condition)
    (h : ∀ u ∈ ts, u.Made own condition) : (ts.foldl join t).Made own condition := by
  induction ts generalizing t with
  | nil => exact ht
  | cons u ts ih =>
    exact ih (.join ht (h u List.mem_cons_self)) fun v hv => h v (List.mem_cons_of_mem _ hv)

theorem made_joined {t : Tree} {ts : List Tree} (h : joined? ts = some t)
    (hts : ∀ u ∈ ts, u.Made own condition) : t.Made own condition := by
  cases ts with
  | nil => cases h
  | cons u us =>
    cases h
    exact made_foldl_join (hts u List.mem_cons_self) fun v hv => hts v (List.mem_cons_of_mem _ hv)

end Tree

namespace Group

variable {own : Tree → Prop} {condition : Expr → Prop}

/-- The group and all groups inside it have trees and filters of the given sort. -/
def Gives (own : Tree → Prop) (condition : Expr → Prop) (gs : List Group) : Prop :=
  ∀ u ∈ subgroupsAll gs, (∀ t ∈ u.body, own t) ∧ ∀ e ∈ u.filters, condition e

theorem Gives.head {g : Group} {gs : List Group} (h : Gives own condition (g :: gs)) :
    Gives own condition [g] := by
  intro u hu
  rw [subgroupsAll, subgroupsAll, List.append_nil] at hu
  exact h u (List.mem_append_left _ hu)

theorem Gives.tail {g : Group} {gs : List Group} (h : Gives own condition (g :: gs)) :
    Gives own condition gs :=
  fun u hu => h u (List.mem_append_right _ hu)

theorem Gives.children {g : Group} (h : Gives own condition [g]) :
    Gives own condition g.children := by
  intro u hu
  refine h u ?_
  cases g
  exact List.mem_append_left _ (List.mem_cons_of_mem _ hu)

theorem Gives.self {g : Group} (h : Gives own condition [g]) :
    (∀ t ∈ g.body, own t) ∧ ∀ e ∈ g.filters, condition e := by
  refine h g ?_
  cases g
  exact List.mem_append_left _ List.mem_cons_self

theorem made_lifted {g : Group} {right : Tree} {e : Expr} (hg : Gives own condition [g])
    (h : g.lifted? = some (right, e)) : right.Made own condition ∧ condition e := by
  unfold lifted? at h
  split at h
  · rename_i body filter
    split at h
    · obtain ⟨t, ht, heq⟩ := Option.map_eq_some_iff.1 h
      cases heq
      exact ⟨Tree.made_joined ht fun u hu => .own (hg.self.1 u hu),
        hg.self.2 e (List.mem_singleton_self e)⟩
    · cases h
  · cases h

theorem made_attach {acc : Option Tree} {right : Tree} {c : Option Expr} (optional : Bool)
    (hacc : ∀ t ∈ acc, t.Made own condition) (hright : right.Made own condition)
    (hc : ∀ e ∈ c, condition e) :
    ∀ t ∈ some (attach acc optional right c), t.Made own condition := by
  intro t ht
  cases Option.some.inj ht
  cases acc with
  | none =>
    cases optional with
    | true => exact .leftJoin c .unit hright hc
    | false => exact hright
  | some left =>
    have hleft := hacc left rfl
    cases optional with
    | true => exact .leftJoin c hleft hright hc
    | false => exact .join hleft hright

mutual

theorem made_compile : ∀ (g : Group) {t : Tree}, Gives own condition [g] → g.compile = .ok t →
    t.Made own condition
  | ⟨isUnion, optional, body, children, filters⟩, t, hg, h => by
    obtain ⟨hbody, hfilters⟩ := hg.self
    rw [compile] at h
    split at h
    · cases h
    split at h
    · obtain ⟨sides, hsides, h⟩ := Outcome.bind_eq_ok.1 h
      cases h
      exact Tree.made_filtered (made_compileSides _ children hg.children hsides) hfilters
    · obtain ⟨acc, hacc, h⟩ := Outcome.bind_eq_ok.1 h
      have hown : ∀ u ∈ (Tree.joined? body).map fun t => t.filtered filters,
          u.Made own condition := by
        intro u hu
        obtain ⟨joined, hjoined, rfl⟩ := Option.map_eq_some_iff.1 hu
        exact Tree.made_filtered (Tree.made_joined hjoined fun v hv => .own (hbody v hv)) hfilters
      have hmade := made_compileChildren _ children hown hg.children hacc
      cases acc with
      | none => cases h
      | some u =>
        cases h
        split
        · exact Tree.made_filtered (hmade u rfl) hfilters
        · exact hmade u rfl

theorem made_compileSides : ∀ (given : Nat) (gs : List Group) {t : Tree},
    Gives own condition gs → compileSides given gs = .ok t → t.Made own condition
  | _, [left, right], t, hgs, h => by
    obtain ⟨l, hl, h⟩ := Outcome.bind_eq_ok.1 h
    obtain ⟨r, hr, h⟩ := Outcome.bind_eq_ok.1 h
    cases h
    exact .union (made_compile left hgs.head hl) (made_compile right hgs.tail hr)
  | _, [], t, _, h => by cases h
  | _, [_], t, _, h => by cases h
  | _, _ :: _ :: _ :: _, t, _, h => by cases h

theorem made_compileChildren : ∀ (acc : Option Tree) (gs : List Group) {acc' : Option Tree},
    (∀ t ∈ acc, t.Made own condition) → Gives own condition gs →
    compileChildren acc gs = .ok acc' → ∀ t ∈ acc', t.Made own condition
  | acc, [], acc', hacc, _, h => by
    cases h
    exact hacc
  | acc, g :: gs, acc', hacc, hgs, h => by
    rw [compileChildren] at h
    split at h
    · rename_i right e hlifted
      obtain ⟨hright, he⟩ := made_lifted hgs.head hlifted
      have hc : ∀ d ∈ some e, condition d := fun d hd => Option.some.inj hd ▸ he
      exact made_compileChildren _ gs (made_attach _ hacc hright hc) hgs.tail h
    · obtain ⟨right, hright, h⟩ := Outcome.bind_eq_ok.1 h
      have hmade := made_compile g hgs.head hright
      have hc : ∀ d ∈ (none : Option Expr), condition d := by
        intro d hd
        cases hd
      exact made_compileChildren _ gs (made_attach _ hacc hmade hc) hgs.tail h

end

end Group

/-! ## Groups of patterns -/

namespace GroupCall

/-- Among the calls, at any depth, no tree is given but patterns. -/
def Patterned (calls : List GroupCall) : Prop :=
  ∀ t, .tree t ∈ withinAll calls → t.isPattern = true

def isPatternIfTree : GroupCall → Bool
  | .tree t => t.isPattern
  | _ => true

theorem patterned_iff {calls : List GroupCall} :
    (withinAll calls).all isPatternIfTree = true ↔ Patterned calls := by
  rw [List.all_eq_true]
  constructor
  · intro h t ht
    exact h _ ht
  · intro h c hc
    cases c with
    | tree t => exact h t hc
    | _ => rfl

instance (calls : List GroupCall) : Decidable (Patterned calls) :=
  decidable_of_iff _ patterned_iff

def ownVariables : GroupCall → List Variable
  | .tree t => t.variables
  | .filter e => e.variables
  | _ => []

/-- The tree is made of trees and filters that stand among the calls, at any depth. -/
def Makes (calls : List GroupCall) (t : Tree) : Prop :=
  t.Made (fun u => .tree u ∈ withinAll calls) fun e => .filter e ∈ withinAll calls

theorem Makes.mono {calls calls' : List GroupCall} {t : Tree} (h : Makes calls t)
    (hsub : withinAll calls ⊆ withinAll calls') : Makes calls' t :=
  Tree.Made.mono h (fun _ hu => hsub hu) fun _ he => hsub he

theorem makes_of_compile {calls : List GroupCall} {g : Group} {t : Tree}
    (hbuild : Group.build calls = .ok g) (hcompile : g.compile = .ok t) : Makes calls t := by
  refine Group.made_compile g ?_ hcompile
  intro u hu
  rw [Group.build_eq_ok hbuild, Group.subgroupsAll, Group.subgroupsAll, List.append_nil] at hu
  have hnamed := Group.named_ofCalls calls u hu
  exact ⟨hnamed.body, hnamed.filters⟩

end GroupCall

namespace Tree

/-- What the trees of groups of patterns consist of. -/
def groupKinds : List Kind := [.singletonSet, .pattern, .join, .leftJoin, .union, .filter]

theorem kind_of_made {own : Tree → Prop} {condition : Expr → Prop} {t : Tree}
    (h : t.Made own condition) (hown : ∀ u, own u → u.isPattern = true) :
    ∀ u ∈ t.subtrees, u.kind ∈ groupKinds := by
  induction h with
  | unit =>
    rw [subtrees, List.forall_mem_singleton]
    decide
  | @own t ht =>
    have hpattern := hown t ht
    cases t with
    | pattern p =>
      rw [subtrees, List.forall_mem_singleton]
      simp [kind, groupKinds]
    | _ => cases hpattern
  | join hl hr ihl ihr =>
    rw [join, subtrees, List.forall_mem_cons, List.forall_mem_append]
    exact ⟨by simp [kind, Combination.kind, groupKinds], ihl, ihr⟩
  | leftJoin c hl hr hc ihl ihr =>
    rw [leftJoin, subtrees, List.forall_mem_cons, List.forall_mem_append]
    exact ⟨by simp [kind, Combination.kind, groupKinds], ihl, ihr⟩
  | union hl hr ihl ihr =>
    rw [union, subtrees, List.forall_mem_cons, List.forall_mem_append]
    exact ⟨by simp [kind, Combination.kind, groupKinds], ihl, ihr⟩
  | filter ht he ih =>
    rw [subtrees, List.forall_mem_cons]
    exact ⟨by simp [kind, groupKinds], ih⟩

end Tree

namespace GroupCall

theorem kind_of_makes {calls : List GroupCall} {t : Tree} (h : Makes calls t)
    (hcalls : Patterned calls) : ∀ u ∈ t.subtrees, u.kind ∈ Tree.groupKinds :=
  Tree.kind_of_made h hcalls

end GroupCall

end RdfQuery
