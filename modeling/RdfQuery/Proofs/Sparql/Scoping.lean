import RdfQuery.Proofs.Sparql.Translation

/-!
# Trees that groups can say

The text of a tree has no braces around the operands that are written in one
group. Such an operand is read as a tree of its own only if its filters do not
see the variables of what stands around it in the group, and its optional
parts and minuses do not see those of what stands before it.
-/

set_option autoImplicit false

namespace RdfQuery

open scoped Classical

namespace Tree

/-- No pattern names a graph. -/
def Graphless (t : Tree) : Prop := ∀ p ∈ t.patterns, p.graph = none

/-- Written into a group in which `before` may be bound by what stands before the tree and `around`
by anything else, the tree keeps its meaning. -/
def Keeps : (before around : List String) → Tree → Prop
  | _, _, .unit => True
  | _, _, .pattern _ => True
  | before, around, .combine .join left right =>
    Keeps before (around ++ right.names) left ∧
      Keeps (before ++ left.names) (around ++ left.names) right
  | before, around, .combine (.leftJoin condition) left right =>
    Keeps before (around ++ right.names) left ∧ Keeps [] (before ++ left.names) right ∧
      (∀ name ∈ before, name ∈ right.names → name ∈ left.certain) ∧
      ∀ e ∈ condition.toList, ∀ name ∈ before, name ∈ e.names → name ∈ left.certain
  | _, _, .combine .union left right => Keeps [] [] left ∧ Keeps [] [] right
  | before, around, .combine .difference left right =>
    Keeps before around left ∧ Keeps [] [] right ∧
      ∀ name ∈ before, name ∈ right.names → name ∈ left.certain
  | _, _, .combine .intersection _ _ => False
  | before, around, .filter arg condition =>
    Keeps before around arg ∧ ∀ name ∈ condition.names, name ∈ around → name ∈ arg.certain
  | _, _, .modify _ _ => False
  | _, _, .bare _ => False

end Tree

/-! ## Conditions in extended solutions -/

namespace Expr

variable {l : Library} {es : List Expr} {a b x : Solution}

theorem allHold_congr (h : ∀ e ∈ es, ∀ name ∈ e.names, a name = b name) :
    AllHold l es a ↔ AllHold l es b := by
  constructor <;> intro hall e he
  · exact (holds_congr (h e he)).1 (hall e he)
  · exact (holds_congr (h e he)).2 (hall e he)

/-- An extension that binds no further variable of the conditions does not matter. -/
theorem allHold_merge (h : ∀ e ∈ es, ∀ name ∈ e.names, b.Binds name → a.Binds name) :
    AllHold l es (a.merge b) ↔ AllHold l es a := by
  apply allHold_congr
  intro e he name hname
  by_cases ha : a.Binds name
  · exact Solution.merge_left ha
  · have hb : ¬ b.Binds name := fun hb => ha (h e he name hname hb)
    rw [Solution.merge_right ha, not_not.1 hb, not_not.1 ha]

/-- The conditions see nothing of what the named variables are bound to from outside. -/
def Settled (l : Library) (es : List Expr) (around : List String) (x : Solution) : Prop :=
  ∀ b : Solution, b.Within around → x.Compatible b → (AllHold l es (x.merge b) ↔ AllHold l es x)

theorem Settled.append {ds : List Expr} {around : List String} (hd : Settled l ds around x)
    (he : Settled l es around x) : Settled l (ds ++ es) around x := by
  intro b hb hxb
  rw [allHold_append, allHold_append, hd b hb hxb, he b hb hxb]

theorem Settled.mono {around wider : List String} (h : Settled l es wider x)
    (hsub : around ⊆ wider) : Settled l es around x := fun b hb => h b (hb.mono hsub)

theorem settled_nil (around : List String) : Settled l [] around x :=
  fun _ _ _ => iff_of_true (allHold_nil l _) (allHold_nil l _)

theorem settled_of_binds {around : List String}
    (h : ∀ e ∈ es, ∀ name ∈ e.names, name ∈ around → x.Binds name) : Settled l es around x :=
  fun _ hb _ => allHold_merge fun e he name hname hbound => h e he name hname (hb name hbound)

/-- What is settled for more variables stays settled when some of them are bound. -/
theorem Settled.merge {around more : List String} {r : Solution}
    (h : Settled l es (around ++ more) x) (hr : r.Within more) (hxr : x.Compatible r) :
    Settled l es around (x.merge r) ∧ (AllHold l es (x.merge r) ↔ AllHold l es x) := by
  have hsame := h r (hr.mono (List.subset_append_right _ _)) hxr
  refine ⟨?_, hsame⟩
  intro b hb hcompatible
  obtain ⟨hxb, hrb⟩ := (Solution.merge_compatible hxr).1 hcompatible
  have hwithin : (r.merge b).Within (around ++ more) :=
    (hr.mono (List.subset_append_right _ _)).merge (hb.mono (List.subset_append_left _ _))
  rw [Solution.merge_assoc, h _ hwithin ((Solution.compatible_merge hrb).2 ⟨hxr, hxb⟩), hsame]

end Expr

namespace Sparql

/-- The elements of a tree do to the solutions before them what a join with the tree does, once
their conditions have been tested; these may be tested whenever the variables `around` are bound. -/
structure Says (l : Library) (data : Finset Quad) (before around : List String) (t : Tree) :
    Prop where
  join : ∀ A : Multiset Solution, (∀ a ∈ A, a.Within before) →
    (A.bind (steps l data none (written t))).filter (Expr.AllHold l (conditions (written t))) =
      Solutions.join A (t.solutions l data)
  within : ∀ a, ∀ x ∈ steps l data none (written t) a,
    ∃ b : Solution, b.Within t.names ∧ a.Compatible b ∧ x = a.merge b
  binds : ∀ a, ∀ x ∈ steps l data none (written t) a, ∀ name ∈ t.certain, x.Binds name
  settled : ∀ a, ∀ x ∈ steps l data none (written t) a,
    Expr.Settled l (conditions (written t)) around x

section

variable {l : Library} {data : Finset Quad} {before around : List String} {left right : Tree}

/-- A group of its own means the tree. -/
theorem Says.grouped {t : Tree} (h : Says l data [] around t) :
    (grouped none (written t)).solutions l data = t.solutions l data := by
  have hempty := h.join {Solution.empty} (by simpa using Solution.empty_within [])
  rw [Multiset.singleton_bind, Solutions.empty_join] at hempty
  rw [solutions_grouped, hempty]

theorem Says.steps_filter {t : Tree} (h : Says l data [] around t) :
    (steps l data none (written t) Solution.empty).filter
      (Expr.AllHold l (conditions (written t))) = t.solutions l data := by
  rw [← solutions_grouped, h.grouped]

theorem filter_nil (A : Multiset Solution) : A.filter (Expr.AllHold l []) = A :=
  Multiset.filter_eq_self.2 fun a _ => Expr.allHold_nil l a

theorem filter_append (xs ys : List Expr) (A : Multiset Solution) :
    A.filter (Expr.AllHold l (xs ++ ys)) =
      (A.filter (Expr.AllHold l xs)).filter (Expr.AllHold l ys) := by
  rw [Multiset.filter_filter]
  refine Multiset.filter_congr fun a _ => ?_
  rw [Expr.allHold_append]
  exact and_comm

/-- An element that is joined to the group and has no conditions there. -/
theorem says_of_pairs {t : Tree} (hconditions : conditions (written t) = [])
    (hsteps : ∀ a, steps l data none (written t) a = (t.solutions l data).bind a.pair) :
    Says l data before around t := by
  constructor
  · intro A _
    rw [hconditions, filter_nil, Multiset.bind_congr fun a _ => hsteps a]
    rfl
  · intro a x hx
    rw [hsteps] at hx
    obtain ⟨b, hb, hx⟩ := Multiset.mem_bind.1 hx
    exact ⟨b, Tree.solutions_within b hb, Solution.mem_pair.1 hx⟩
  · intro a x hx name hname
    rw [hsteps] at hx
    obtain ⟨b, hb, hx⟩ := Multiset.mem_bind.1 hx
    rw [(Solution.mem_pair.1 hx).2, Solution.binds_merge]
    exact Or.inr (Tree.solutions_bind_certain b hb name hname)
  · intro a x _
    rw [hconditions]
    exact Expr.settled_nil around

theorem says_unit : Says l data before around .unit where
  join := by
    intro A _
    have hunit : A.bind (steps l data none (written .unit)) = A := Solutions.bind_self A
    show (A.bind (steps l data none (written .unit))).filter (Expr.AllHold l []) =
      Solutions.join A {Solution.empty}
    rw [filter_nil, hunit, Solutions.join_empty]
  within := by
    intro a x hx
    rw [Multiset.mem_singleton.1 hx]
    exact ⟨Solution.empty, Solution.empty_within _, Solution.compatible_empty a,
      (Solution.merge_empty a).symm⟩
  binds := fun _ _ _ _ h => nomatch h
  settled := fun _ _ _ => Expr.settled_nil around

theorem says_pattern {p : TriplePattern} (hp : p.graph = none) :
    Says l data before around (.pattern p) := by
  have hsteps : ∀ a, steps l data none (written (.pattern p)) a =
      ((Tree.pattern p).solutions l data).bind a.pair := by
    intro a
    have hplain : (⟨p.subject, p.predicate, p.object, none⟩ : TriplePattern) = p := by
      rw [← hp]
    show steps l data none [.triple p.subject p.predicate p.object] a = _
    rw [steps_singleton, Element.step, hplain]
  exact says_of_pairs rfl hsteps

theorem says_filter {arg : Tree} {condition : Expr} (h : Says l data before around arg)
    (hsub : before ⊆ around)
    (hscope : ∀ name ∈ condition.names, name ∈ around → name ∈ arg.certain) :
    Says l data before around (.filter arg condition) := by
  constructor
  · intro A hA
    rw [Multiset.bind_congr fun a _ => steps_filter, conditions_filter, filter_append, h.join A hA]
    have hjoin := @Solutions.filter_join A (arg.solutions l data) (Expr.AllHold l [condition])
      (fun b => condition.Holds l b)
    rw [hjoin]
    · rfl
    · intro a ha b hb hab
      rw [Solution.merge_comm hab, ← Expr.allHold_singleton]
      apply Expr.allHold_merge
      intro e he name hname hbound
      rw [List.mem_singleton.1 he] at hname
      have hcertain := hscope name hname (hsub (hA a ha name hbound))
      exact Tree.solutions_bind_certain b hb name hcertain
  · intro a x hx
    rw [steps_filter] at hx
    exact h.within a x hx
  · intro a x hx
    rw [steps_filter] at hx
    exact h.binds a x hx
  · intro a x hx
    rw [steps_filter] at hx
    rw [conditions_filter]
    refine (h.settled a x hx).append (Expr.settled_of_binds ?_)
    intro e he name hname haround
    rw [List.mem_singleton.1 he] at hname
    exact h.binds a x hx name (hscope name hname haround)

/-- Solutions of an operand and what stands before it bind no others. -/
theorem within_join {A : Multiset Solution} (hA : ∀ a ∈ A, a.Within before) :
    ∀ x ∈ Solutions.join A (left.solutions l data), x.Within (before ++ left.names) := by
  intro x hx
  obtain ⟨a, ha, b, hb, -, rfl⟩ := Solutions.mem_join.1 hx
  have hleft := (hA a ha).mono (List.subset_append_left before left.names)
  exact hleft.merge ((Tree.solutions_within b hb).mono (List.subset_append_right _ _))

/-- A solution of the left operand's steps, with what a right operand adds to it. -/
theorem Says.within_merge {a y c : Solution} (h : Says l data before around left)
    (hy : y ∈ steps l data none (written left) a) (hc : c.Within right.names)
    (hyc : y.Compatible c) :
    ∃ b : Solution, b.Within (left.names ++ right.names) ∧ a.Compatible b ∧
      y.merge c = a.merge b := by
  obtain ⟨b, hb, hab, rfl⟩ := h.within a y hy
  obtain ⟨hac, hbc⟩ := (Solution.merge_compatible hab).1 hyc
  refine ⟨b.merge c, ?_, (Solution.compatible_merge hbc).2 ⟨hab, hac⟩,
    Solution.merge_assoc a b c⟩
  have hleft := hb.mono (List.subset_append_left left.names right.names)
  exact hleft.merge (hc.mono (List.subset_append_right _ _))

theorem says_join (hl : Says l data before (around ++ right.names) left)
    (hr : Says l data (before ++ left.names) (around ++ left.names) right) :
    Says l data before around (.combine .join left right) := by
  -- A solution of the right operand's steps, over the one of the left operand's it came from.
  have hfrom : ∀ a, ∀ x ∈ steps l data none (written (.combine .join left right)) a,
      ∃ y ∈ steps l data none (written left) a, x ∈ steps l data none (written right) y := by
    intro a x hx
    rw [steps_join] at hx
    exact Multiset.mem_bind.1 hx
  constructor
  · intro A hA
    have hstable : ∀ y ∈ A.bind (steps l data none (written left)),
        ∀ x ∈ steps l data none (written right) y,
          (Expr.AllHold l (conditions (written left)) x ↔
            Expr.AllHold l (conditions (written left)) y) := by
      intro y hy x hx
      obtain ⟨a, -, hy⟩ := Multiset.mem_bind.1 hy
      obtain ⟨b, hb, hyb, rfl⟩ := hr.within y x hx
      exact ((hl.settled a y hy).merge hb hyb).2
    rw [Multiset.bind_congr fun a _ => steps_join, ← Multiset.bind_assoc, conditions_join,
      filter_append,
      Solutions.filter_bind_stable hstable, hl.join A hA, hr.join _ (within_join hA),
      Solutions.join_assoc]
    rfl
  · intro a x hx
    obtain ⟨y, hy, hx⟩ := hfrom a x hx
    obtain ⟨c, hc, hyc, rfl⟩ := hr.within y x hx
    exact hl.within_merge hy hc hyc
  · intro a x hx name hname
    obtain ⟨y, hy, hx⟩ := hfrom a x hx
    rcases List.mem_append.1 hname with hname | hname
    · obtain ⟨b, -, -, rfl⟩ := hr.within y x hx
      exact Solution.binds_merge.2 (Or.inl (hl.binds a y hy name hname))
    · exact hr.binds y x hx name hname
  · intro a x hx
    obtain ⟨y, hy, hx⟩ := hfrom a x hx
    have hright := (hr.settled y x hx).mono (List.subset_append_left around left.names)
    obtain ⟨b, hb, hyb, rfl⟩ := hr.within y x hx
    rw [conditions_join]
    exact ((hl.settled a y hy).merge hb hyb).1.append hright

theorem says_union (hl : Says l data [] [] left) (hr : Says l data [] [] right) :
    Says l data before around (.combine .union left right) := by
  apply says_of_pairs rfl
  intro a
  rw [steps_union, hl.grouped, hr.grouped]
  rfl

/-- What an outer solution binds in common with the right operand, the left operand binds. -/
theorem between_operands {A : Multiset Solution} (hA : ∀ a ∈ A, a.Within before)
    (hshared : ∀ name ∈ before, name ∈ right.names → name ∈ left.certain) :
    ∀ a ∈ A, ∀ b ∈ left.solutions l data, ∀ c ∈ right.solutions l data,
      Solution.Between a b c := by
  intro a ha b hb c hc name haname hcname
  have hcertain := hshared name (hA a ha name haname) (Tree.solutions_within c hc name hcname)
  exact Tree.solutions_bind_certain b hb name hcertain

theorem says_difference (hl : Says l data before around left) (hr : Says l data [] [] right)
    (hshared : ∀ name ∈ before, name ∈ right.names → name ∈ left.certain) :
    Says l data before around (.combine .difference left right) := by
  have hsteps : ∀ a, steps l data none (written (.combine .difference left right)) a =
      (steps l data none (written left) a).bind
        (Solutions.remaining (right.solutions l data)) := by
    intro a
    rw [steps_difference, hr.grouped]
  have hfrom : ∀ a, ∀ x ∈ steps l data none (written (.combine .difference left right)) a,
      x ∈ steps l data none (written left) a := by
    intro a x hx
    rw [hsteps] at hx
    obtain ⟨y, hy, hx⟩ := Multiset.mem_bind.1 hx
    rw [(Solutions.mem_remaining.1 hx).1]
    exact hy
  constructor
  · intro A hA
    have hstable : ∀ y ∈ A.bind (steps l data none (written left)),
        ∀ x ∈ Solutions.remaining (right.solutions l data) y,
          (Expr.AllHold l (conditions (written left)) x ↔
            Expr.AllHold l (conditions (written left)) y) := by
      intro y _ x hx
      rw [(Solutions.mem_remaining.1 hx).1]
    rw [Multiset.bind_congr fun a _ => hsteps a, ← Multiset.bind_assoc, conditions_difference,
      Solutions.filter_bind_stable hstable, hl.join A hA, ← Solutions.minus_eq_bind,
      Solutions.join_minus (between_operands hA hshared)]
    rfl
  · exact fun a x hx => hl.within a x (hfrom a x hx)
  · exact fun a x hx => hl.binds a x (hfrom a x hx)
  · intro a x hx
    rw [conditions_difference]
    exact hl.settled a x (hfrom a x hx)

/-- The condition of a left join does not see the solution before the group. -/
theorem outer_condition {A : Multiset Solution} {es : List Expr} (hA : ∀ a ∈ A, a.Within before)
    (hshared : ∀ name ∈ before, name ∈ right.names → name ∈ left.certain)
    (hcondition : ∀ e ∈ es, ∀ name ∈ before, name ∈ e.names → name ∈ left.certain) :
    ∀ a ∈ A, ∀ b ∈ left.solutions l data, ∀ c ∈ right.solutions l data,
      a.Compatible b → b.Compatible c →
        (Expr.AllHold l es ((a.merge b).merge c) ↔ Expr.AllHold l es (b.merge c)) := by
  intro a ha b hb c hc hab hbc
  have hac := (between_operands hA hshared a ha b hb c hc).compatible hab hbc
  rw [Solution.merge_assoc, Solution.merge_comm ((Solution.compatible_merge hbc).2 ⟨hab, hac⟩)]
  apply Expr.allHold_merge
  intro e he name hname haname
  have hcertain := hcondition e he name (hA a ha name haname) hname
  exact Solution.binds_merge.2 (Or.inl (Tree.solutions_bind_certain b hb name hcertain))

theorem says_leftJoin {condition : Option Expr}
    (hl : Says l data before (around ++ right.names) left)
    (hr : Says l data [] (before ++ left.names) right)
    (hshared : ∀ name ∈ before, name ∈ right.names → name ∈ left.certain)
    (hcondition : ∀ e ∈ condition.toList, ∀ name ∈ before, name ∈ e.names → name ∈ left.certain) :
    Says l data before around (.combine (.leftJoin condition) left right) := by
  let inner := steps l data none (written right) Solution.empty
  let lifted := conditions (written right) ++ condition.toList
  have hsteps : ∀ a, steps l data none (written (.combine (.leftJoin condition) left right)) a =
      (steps l data none (written left) a).bind
        (Solutions.extended (Expr.AllHold l lifted) inner) := fun _ => steps_leftJoin
  -- A solution after the optional part is one before it, or one that the part extends.
  have hadded : ∀ y, ∀ x ∈ Solutions.extended (Expr.AllHold l lifted) inner y,
      ∃ c : Solution, c.Within right.names ∧ y.Compatible c ∧ x = y.merge c := by
    intro y x hx
    rcases Solutions.mem_extended.1 hx with ⟨c, hc, hyc, rfl, -⟩ | ⟨rfl, -⟩
    · obtain ⟨b, hb, -, rfl⟩ := hr.within Solution.empty c hc
      exact ⟨b, hb, hyc, rfl⟩
    · exact ⟨Solution.empty, Solution.empty_within _, Solution.compatible_empty x,
        (Solution.merge_empty x).symm⟩
  have hfrom : ∀ a, ∀ x ∈ steps l data none (written (.combine (.leftJoin condition) left right)) a,
      ∃ y ∈ steps l data none (written left) a,
        ∃ c : Solution, c.Within right.names ∧ y.Compatible c ∧ x = y.merge c := by
    intro a x hx
    rw [hsteps] at hx
    obtain ⟨y, hy, hx⟩ := Multiset.mem_bind.1 hx
    exact ⟨y, hy, hadded y x hx⟩
  constructor
  · intro A hA
    have hstable : ∀ y ∈ A.bind (steps l data none (written left)),
        ∀ x ∈ Solutions.extended (Expr.AllHold l lifted) inner y,
          (Expr.AllHold l (conditions (written left)) x ↔
            Expr.AllHold l (conditions (written left)) y) := by
      intro y hy x hx
      obtain ⟨a, -, hy⟩ := Multiset.mem_bind.1 hy
      obtain ⟨c, hc, hyc, rfl⟩ := hadded y x hx
      exact ((hl.settled a y hy).merge hc hyc).2
    have hlifted : ∀ a ∈ Solutions.join A (left.solutions l data), ∀ b ∈ inner, a.Compatible b →
        (Expr.AllHold l lifted (a.merge b) ↔
          Expr.AllHold l (conditions (written right)) b ∧
            Expr.AllHold l condition.toList (a.merge b)) := by
      intro a ha b hb hab
      rw [Expr.allHold_append, Solution.merge_comm hab,
        hr.settled Solution.empty b hb a (within_join hA a ha) (Solution.compatible_comm.1 hab)]
    rw [Multiset.bind_congr fun a _ => hsteps a, ← Multiset.bind_assoc, conditions_leftJoin,
      Solutions.filter_bind_stable hstable, hl.join A hA, ← Solutions.leftJoin_eq_bind,
      Solutions.leftJoin_filter hlifted, hr.steps_filter,
      Solutions.join_leftJoin (between_operands hA hshared)
        (outer_condition hA hshared hcondition)]
    rfl
  · intro a x hx
    obtain ⟨y, hy, c, hc, hyc, rfl⟩ := hfrom a x hx
    exact hl.within_merge hy hc hyc
  · intro a x hx name hname
    obtain ⟨y, hy, c, -, -, rfl⟩ := hfrom a x hx
    exact Solution.binds_merge.2 (Or.inl (hl.binds a y hy name hname))
  · intro a x hx
    obtain ⟨y, hy, c, hc, hyc, rfl⟩ := hfrom a x hx
    rw [conditions_leftJoin]
    exact ((hl.settled a y hy).merge hc hyc).1

/-- Every tree that keeps to its scope is said by its elements. -/
theorem says_of_keeps (l : Library) (data : Finset Quad) {t : Tree} (hgraphs : t.Graphless) :
    ∀ {before around : List String}, before ⊆ around → t.Keeps before around →
      Says l data before around t := by
  induction t with
  | unit => exact fun _ _ => says_unit
  | pattern p => exact fun _ _ => says_pattern (hgraphs p (List.mem_singleton_self p))
  | combine c left right ihl ihr =>
    have hleft : left.Graphless := fun p hp => hgraphs p (List.mem_append_left _ hp)
    have hright : right.Graphless := fun p hp => hgraphs p (List.mem_append_right _ hp)
    intro before around hsub h
    cases c with
    | join =>
      refine says_join (ihl hleft (List.subset_append_of_subset_left _ hsub) h.1)
        (ihr hright (List.append_subset.2 ⟨?_, List.subset_append_right _ _⟩) h.2)
      exact List.subset_append_of_subset_left _ hsub
    | leftJoin condition =>
      obtain ⟨hl, hr, hshared, hcondition⟩ := h
      have hkept := ihl hleft (List.subset_append_of_subset_left _ hsub) hl
      exact says_leftJoin hkept (ihr hright (List.nil_subset _) hr) hshared hcondition
    | union =>
      exact says_union (ihl hleft (List.nil_subset _) h.1) (ihr hright (List.nil_subset _) h.2)
    | difference =>
      exact says_difference (ihl hleft hsub h.1) (ihr hright (List.nil_subset _) h.2.1) h.2.2
    | intersection => exact h.elim
  | filter arg condition ih => exact fun hsub h => says_filter (ih hgraphs hsub h.1) hsub h.2
  | modify mo arg ih => exact fun _ h => h.elim
  | bare s => exact fun _ h => h.elim

end

end Sparql

end RdfQuery
