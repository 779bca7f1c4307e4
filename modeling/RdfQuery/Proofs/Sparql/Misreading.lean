import RdfQuery.Proofs.Sparql.Sample

/-!
# Nestings that groups cannot say

For every other nesting there is a tree of it that has another meaning when its
elements are read in a group. Whether some solution binds a certain variable
tells the two meanings apart, and the operators around pass the difference on.
So the check of the nesting is exact.
-/

set_option autoImplicit false

namespace RdfQuery.Sparql.Sample

open scoped Classical

/-- It gives variables of the sample the first value. -/
def Uniform (a : Solution) : Prop := ∀ name, a.Binds name → name ∈ shown ∧ a name = some one

section

variable {a b : Solution} {name : String}

theorem Uniform.within (h : Uniform a) : a.Within shown := fun name hname => (h name hname).1

theorem Uniform.compatible (ha : Uniform a) (hb : Uniform b) : a.Compatible b := by
  intro name
  by_cases haname : a.Binds name
  · by_cases hbname : b.Binds name
    · exact Or.inr (Or.inr ((ha name haname).2.trans (hb name hbname).2.symm))
    · exact Or.inr (Or.inl (not_not.1 hbname))
  · exact Or.inl (not_not.1 haname)

theorem Uniform.merge (ha : Uniform a) (hb : Uniform b) : Uniform (a.merge b) := by
  intro name hname
  by_cases haname : a.Binds name
  · rw [Solution.merge_left haname]
    exact ha name haname
  · have hbname := (Solution.binds_merge.1 hname).resolve_left haname
    rw [Solution.merge_right haname]
    exact hb name hbname

theorem uniform_empty : Uniform Solution.empty := fun _ h => absurd rfl h

theorem uniform_given (hname : name ∈ shown) : Uniform (given name one) := by
  intro other hother
  rcases Solution.binds_assign.1 hother with rfl | hempty
  · exact ⟨hname, if_pos rfl⟩
  · exact absurd rfl hempty

theorem binds_given {c : Constant} {other : String} : (given name c).Binds other ↔ other = name :=
  Solution.binds_assign.trans (or_iff_left fun h => h rfl)

theorem apart_given {c : Constant} (h : ¬ a.Binds name) : (given name c).Apart a := by
  intro other
  by_cases hother : other = name
  · subst hother
    exact Or.inr (not_not.1 h)
  · exact Or.inl (if_neg hother)

/-- What stands around a tree binds the first variable or nothing. -/
def seen (bound : Bool) : Solution := if bound then given "x" one else Solution.empty

theorem uniform_seen (bound : Bool) : Uniform (seen bound) := by
  cases bound with
  | true => exact uniform_given (by decide)
  | false => exact uniform_empty

/-- A solution that binds the first variable is not changed by what stands around it. -/
theorem merge_seen (hx : a.Binds "x") (bound : Bool) :
    a.merge (seen bound) = a := by
  funext name
  by_cases hname : a.Binds name
  · exact Solution.merge_left hname
  · rw [Solution.merge_right hname, not_not.1 hname]
    cases bound with
    | true =>
      refine not_not.1 fun h => hname ?_
      rw [binds_given.1 h]
      exact hx
    | false => rfl

theorem binds_first : (seen true).Binds "x" := binds_given.2 rfl

theorem seen_merge_first (bound : Bool) : (seen bound).merge (seen true) = seen true := by
  rw [Solution.merge_comm ((uniform_seen bound).compatible (uniform_seen true)),
    merge_seen binds_first]

theorem not_binds_second (bound : Bool) : ¬ (seen bound).Binds "y" := by
  cases bound with
  | true =>
    intro h
    have h := binds_given.1 h
    revert h
    decide
  | false => exact fun h => h rfl

theorem binds_merge_seen (a : Solution) (bound : Bool) :
    (a.merge (seen bound)).Binds "y" ↔ a.Binds "y" :=
  Solution.binds_merge.trans (or_iff_left (not_binds_second bound))

theorem binds_seen_merge (bound : Bool) (a : Solution) :
    ((seen bound).merge a).Binds "y" ↔ a.Binds "y" :=
  Solution.binds_merge.trans (or_iff_right (not_binds_second bound))

theorem uniform_second : Uniform (given "y" one) := uniform_given (by decide)

theorem binds_second : (given "y" one).Binds "y" := binds_given.2 rfl

end

/-! ## Two readings of a tree -/

/-- On its own the tree has a solution with the second variable. -/
def Alone (l : Library) (before : Bool) (t : Tree) : Prop :=
  ∃ b ∈ t.solutions l data, (seen before).Compatible b ∧ b.Binds "y"

/-- In a group its elements have one, after `seen before` and with `seen around` besides. -/
def Inside (l : Library) (before around : Bool) (t : Tree) : Prop :=
  ∃ x ∈ steps l data none (written t) (seen before),
    Expr.AllHold l (conditions (written t)) (x.merge (seen around)) ∧ x.Binds "y"

/-- Exactly one of the two readings has one, and no other values get in the way. -/
structure Misread (l : Library) (before around : Bool) (t : Tree) : Prop where
  uniform : ∀ b ∈ t.solutions l data, (seen before).Compatible b → Uniform b
  uniform_steps : ∀ x ∈ steps l data none (written t) (seen before), Uniform x
  differs : Alone l before t ↔ ¬ Inside l before around t

section

variable {l : Library} {before around : Bool} {t left right : Tree}

theorem mem_steps_of_adds {b x : Solution} (h : Adds l b t) (hb : Uniform b) (bound : Bool) :
    x ∈ steps l data none (written t) (seen bound) ↔ x = (seen bound).merge b := by
  rw [h.steps _ (uniform_seen bound).within, and_iff_right ((uniform_seen bound).compatible hb)]

/-- Neither reading is changed. -/
theorem Misread.kept (h : Misread l before around left)
    (hsolutions : ∀ b, b ∈ t.solutions l data → b ∈ left.solutions l data)
    (huniform : ∀ b, Uniform b → b ∈ left.solutions l data → b ∈ t.solutions l data)
    (hsteps : ∀ x, x ∈ steps l data none (written t) (seen before) ↔
      x ∈ steps l data none (written left) (seen before))
    (hconditions : ∀ x, Uniform x → (Expr.AllHold l (conditions (written t)) x ↔
      Expr.AllHold l (conditions (written left)) x)) : Misread l before around t := by
  have halone : Alone l before t ↔ Alone l before left := by
    constructor
    · rintro ⟨b, hb, hcompatible, hy⟩
      exact ⟨b, hsolutions b hb, hcompatible, hy⟩
    · rintro ⟨b, hb, hcompatible, hy⟩
      exact ⟨b, huniform b (h.uniform b hb hcompatible) hb, hcompatible, hy⟩
  have hinside : Inside l before around t ↔ Inside l before around left := by
    refine exists_congr fun x => ?_
    rw [hsteps]
    refine and_congr_right fun hx => and_congr_left fun _ => hconditions _ ?_
    exact (h.uniform_steps x hx).merge (uniform_seen around)
  exact ⟨fun b hb => h.uniform b (hsolutions b hb), fun x hx => h.uniform_steps x ((hsteps x).1 hx),
    (halone.trans h.differs).trans (not_congr hinside.symm)⟩

/-- Both readings are given the first variable afterwards, so nothing around the tree matters. -/
theorem Misread.followed (h : Misread l before true left)
    (hsolutions : ∀ x, (seen before).Compatible x → (x ∈ t.solutions l data ↔
      ∃ b ∈ left.solutions l data, Uniform b ∧ x = b.merge (seen true)))
    (hsteps : ∀ x, x ∈ steps l data none (written t) (seen before) ↔
      ∃ y ∈ steps l data none (written left) (seen before), x = y.merge (seen true))
    (hconditions : ∀ x, Uniform x → (Expr.AllHold l (conditions (written t)) x ↔
      Expr.AllHold l (conditions (written left)) x)) : Misread l before around t := by
  have hbinds (b : Solution) := binds_merge_seen b true
  have halone : Alone l before t ↔ Alone l before left := by
    constructor
    · rintro ⟨x, hx, hcompatible, hy⟩
      obtain ⟨b, hb, huniform, rfl⟩ := (hsolutions x hcompatible).1 hx
      exact ⟨b, hb, (uniform_seen before).compatible huniform, (hbinds b).1 hy⟩
    · rintro ⟨b, hb, hcompatible, hy⟩
      have huniform := h.uniform b hb hcompatible
      have hmerged := (uniform_seen before).compatible (huniform.merge (uniform_seen true))
      exact ⟨_, (hsolutions _ hmerged).2 ⟨b, hb, huniform, rfl⟩, hmerged, (hbinds b).2 hy⟩
  have hinside : Inside l before around t ↔ Inside l before true left := by
    have hsame : ∀ y ∈ steps l data none (written left) (seen before),
        (Expr.AllHold l (conditions (written t)) ((y.merge (seen true)).merge (seen around)) ↔
          Expr.AllHold l (conditions (written left)) (y.merge (seen true))) := by
      intro y hy
      rw [merge_seen (Solution.binds_merge.2 (Or.inr binds_first))]
      exact hconditions _ ((h.uniform_steps y hy).merge (uniform_seen true))
    constructor
    · rintro ⟨x, hx, hholds, hy⟩
      obtain ⟨y, hmem, rfl⟩ := (hsteps x).1 hx
      exact ⟨y, hmem, (hsame y hmem).1 hholds, (hbinds y).1 hy⟩
    · rintro ⟨y, hmem, hholds, hy⟩
      exact ⟨_, (hsteps _).2 ⟨y, hmem, rfl⟩, (hsame y hmem).2 hholds, (hbinds y).2 hy⟩
  refine ⟨?_, ?_, (halone.trans h.differs).trans (not_congr hinside.symm)⟩
  · intro x hx hcompatible
    obtain ⟨b, -, huniform, rfl⟩ := (hsolutions x hcompatible).1 hx
    exact huniform.merge (uniform_seen true)
  · intro x hx
    obtain ⟨y, hy, rfl⟩ := (hsteps x).1 hx
    exact (h.uniform_steps y hy).merge (uniform_seen true)

/-! ## Filters -/

/-- The condition needs a variable that is bound around the tree only. -/
theorem misread_filter_around (h : Adds l (given "y" one) t) :
    Misread l before true (.filter t (.bound (.user "x"))) := by
  have hnone : ∀ b ∈ (Tree.filter t (.bound (.user "x"))).solutions l data, False := by
    intro b hb
    obtain ⟨hb, hx⟩ := Multiset.mem_filter.1 hb
    rw [h.solutions] at hb
    subst hb
    have hx := binds_given.1 (Expr.holds_bound.1 hx)
    revert hx
    decide
  have hsteps : ∀ x, x ∈ steps l data none (written (.filter t (.bound (.user "x"))))
      (seen before) ↔ x = (seen before).merge (given "y" one) := by
    intro x
    rw [steps_filter, mem_steps_of_adds h uniform_second]
  have huniform := (uniform_seen before).merge uniform_second
  refine ⟨fun b hb => (hnone b hb).elim, ?_, iff_of_false ?_ (not_not.2 ?_)⟩
  · intro x hx
    rw [(hsteps x).1 hx]
    exact huniform
  · rintro ⟨b, hb, -⟩
    exact hnone b hb
  · refine ⟨_, (hsteps _).2 rfl, ?_, (binds_seen_merge _ _).2 binds_second⟩
    rw [conditions_filter, Expr.allHold_append, Expr.allHold_singleton, Expr.holds_bound]
    exact ⟨h.conditions _ (huniform.merge (uniform_seen true)).within,
      Solution.binds_merge.2 (Or.inr binds_first)⟩

theorem Misread.filter (h : Misread l before around t) :
    Misread l before around (.filter t idle) := by
  apply h.kept
  · exact fun b hb => Multiset.mem_of_mem_filter hb
  · exact fun b huniform hb =>
      Multiset.mem_filter.2 ⟨hb, holds_idle (not_binds_z huniform.within)⟩
  · exact fun x => by rw [steps_filter]
  · intro x hx
    rw [conditions_filter, Expr.allHold_append, Expr.allHold_singleton]
    exact and_iff_left (holds_idle (not_binds_z hx.within))

/-! ## Joins -/

theorem Misread.join_left (h : Misread l before true left) (hr : Adds l (seen true) right) :
    Misread l before around (.combine .join left right) := by
  apply h.followed
  · intro x hcompatible
    rw [Tree.solutions, Solutions.mem_join]
    simp only [hr.solutions, exists_eq_left]
    refine exists_congr fun b => and_congr_right fun hb => and_congr_left ?_
    rintro rfl
    refine ⟨fun hfirst => ?_, fun huniform => huniform.compatible (uniform_seen true)⟩
    exact h.uniform b hb ((Solution.compatible_merge hfirst).1 hcompatible).1
  · intro x
    rw [steps_join, Multiset.mem_bind]
    refine exists_congr fun y => and_congr_right fun hy => ?_
    have huniform := h.uniform_steps y hy
    rw [hr.steps y huniform.within, and_iff_right (huniform.compatible (uniform_seen true))]
  · intro x hx
    rw [conditions_join, Expr.allHold_append, and_iff_left (hr.conditions x hx.within)]

/-- The first variable is bound before the right operand. -/
theorem Misread.join_right (h : Misread l true true right) (hl : Adds l (seen true) left) :
    Misread l before around (.combine .join left right) := by
  have hbinds := binds_seen_merge true
  have hsolutions : ∀ x, x ∈ (Tree.combine .join left right).solutions l data ↔
      ∃ b ∈ right.solutions l data, (seen true).Compatible b ∧ x = (seen true).merge b := by
    intro x
    rw [Tree.solutions, Solutions.mem_join]
    simp only [hl.solutions, exists_eq_left]
  have hsteps : ∀ x, x ∈ steps l data none (written (.combine .join left right)) (seen before) ↔
      x ∈ steps l data none (written right) (seen true) := by
    intro x
    rw [steps_join, Multiset.mem_bind]
    simp only [mem_steps_of_adds hl (uniform_seen true), seen_merge_first, exists_eq_left]
  have halone : Alone l before (.combine .join left right) ↔ Alone l true right := by
    constructor
    · rintro ⟨x, hx, -, hy⟩
      obtain ⟨b, hb, hcompatible, rfl⟩ := (hsolutions x).1 hx
      exact ⟨b, hb, hcompatible, (hbinds b).1 hy⟩
    · rintro ⟨b, hb, hcompatible, hy⟩
      have huniform := (uniform_seen true).merge (h.uniform b hb hcompatible)
      exact ⟨_, (hsolutions _).2 ⟨b, hb, hcompatible, rfl⟩,
        (uniform_seen before).compatible huniform, (hbinds b).2 hy⟩
  have hinside : Inside l before around (.combine .join left right) ↔ Inside l true true right := by
    refine exists_congr fun x => ?_
    rw [hsteps]
    refine and_congr_right fun hx => and_congr_left fun _ => ?_
    have hfirst : x.Binds "x" := by
      obtain ⟨b, -, rfl⟩ := exists_merge_of_mem_steps l data hx
      exact Solution.binds_merge.2 (Or.inl binds_first)
    rw [merge_seen hfirst, merge_seen hfirst, conditions_join, Expr.allHold_append,
      and_iff_right (hl.conditions x (h.uniform_steps x hx).within)]
  refine ⟨?_, fun x hx => h.uniform_steps x ((hsteps x).1 hx),
    (halone.trans h.differs).trans (not_congr hinside.symm)⟩
  intro x hx _
  obtain ⟨b, hb, hcompatible, rfl⟩ := (hsolutions x).1 hx
  exact (uniform_seen true).merge (h.uniform b hb hcompatible)

/-! ## Left joins -/

section

variable {p q : Solution → Prop} {B : Multiset Solution} {a x : Solution}

/-- The optional part adds the first variable. -/
theorem mem_extended_first (hB : ∀ b, b ∈ B ↔ b = seen true) (ha : Uniform a)
    (hp : p (a.merge (seen true))) :
    x ∈ Solutions.extended p B a ↔ x = a.merge (seen true) := by
  have hcompatible := ha.compatible (uniform_seen true)
  rw [Solutions.mem_extended]
  simp only [hB, exists_eq_left, forall_eq]
  constructor
  · rintro (⟨-, rfl, -⟩ | ⟨-, hnot⟩)
    · rfl
    · exact absurd hp (hnot hcompatible)
  · rintro rfl
    exact Or.inl ⟨hcompatible, rfl, hp⟩

/-- The optional part comes after the first variable. -/
theorem mem_extended_seen (hB : ∀ b ∈ B, Uniform b) (hpq : ∀ x, Uniform x → (p x ↔ q x)) :
    x ∈ Solutions.extended p B (seen true) ↔
      (∃ b ∈ B, x = (seen true).merge b ∧ q x) ∨
        x = seen true ∧ ∀ b ∈ B, ¬ q ((seen true).merge b) := by
  have hcompatible : ∀ b ∈ B, (seen true).Compatible b :=
    fun b hb => (uniform_seen true).compatible (hB b hb)
  have hmerge : ∀ b ∈ B, (p ((seen true).merge b) ↔ q ((seen true).merge b)) :=
    fun b hb => hpq _ ((uniform_seen true).merge (hB b hb))
  rw [Solutions.mem_extended]
  refine or_congr (exists_congr fun b => and_congr_right fun hb => ?_)
    (and_congr_right fun _ => forall₂_congr fun b hb => ?_)
  · rw [and_iff_right (hcompatible b hb)]
    refine and_congr_right ?_
    rintro rfl
    exact hmerge b hb
  · rw [hmerge b hb, forall_prop_of_true (hcompatible b hb)]

end

section

variable {condition : Option Expr} (hc : ∀ e ∈ condition.toList, e = idle)

include hc

theorem Misread.leftJoin_left (h : Misread l false true left) (hr : Adds l (seen true) right) :
    Misread l false around (.combine (.leftJoin condition) left right) := by
  have hmerged {b : Solution} (huniform : Uniform b) :
      Expr.AllHold l condition.toList (b.merge (seen true)) :=
    allHold_idle hc (huniform.merge (uniform_seen true)).within
  apply h.followed
  · intro x _
    rw [Tree.solutions, Solutions.leftJoin_eq_bind, Multiset.mem_bind]
    refine exists_congr fun b => and_congr_right fun hb => ?_
    have huniform := h.uniform b hb (Solution.empty_compatible b)
    rw [mem_extended_first hr.solutions huniform (hmerged huniform), and_iff_right huniform]
  · intro x
    have hinner : ∀ z, z ∈ steps l data none (written right) (seen false) ↔ z = seen true :=
      fun z => mem_steps_of_adds hr (uniform_seen true) false
    rw [steps_leftJoin, Multiset.mem_bind]
    refine exists_congr fun y => and_congr_right fun hy => ?_
    have huniform := h.uniform_steps y hy
    have hholds := hr.conditions _ (huniform.merge (uniform_seen true)).within
    exact mem_extended_first hinner huniform (Expr.allHold_append.2 ⟨hholds, hmerged huniform⟩)
  · exact fun x _ => by rw [conditions_leftJoin]

theorem Misread.leftJoin_right (h : Misread l false true right) (hl : Adds l (seen true) left) :
    Misread l false around (.combine (.leftJoin condition) left right) := by
  have hbinds := binds_seen_merge true
  have huniform : ∀ b ∈ right.solutions l data, Uniform b :=
    fun b hb => h.uniform b hb (Solution.empty_compatible b)
  have hidle {x : Solution} (hx : Uniform x) : Expr.AllHold l condition.toList x :=
    allHold_idle hc hx.within
  have hsolutions : ∀ x, x ∈ (Tree.combine (.leftJoin condition) left right).solutions l data ↔
      (∃ b ∈ right.solutions l data, x = (seen true).merge b ∧ True) ∨
        x = seen true ∧ ∀ b ∈ right.solutions l data, ¬ True := by
    intro x
    rw [Tree.solutions, Solutions.leftJoin_eq_bind, Multiset.mem_bind]
    simp only [hl.solutions, exists_eq_left]
    exact mem_extended_seen huniform fun x hx => iff_true_intro (hidle hx)
  have hsteps : ∀ x, x ∈ steps l data none
      (written (.combine (.leftJoin condition) left right)) (seen false) ↔
      (∃ b ∈ steps l data none (written right) (seen false),
        x = (seen true).merge b ∧ Expr.AllHold l (conditions (written right)) x) ∨
        x = seen true ∧ ∀ b ∈ steps l data none (written right) (seen false),
          ¬ Expr.AllHold l (conditions (written right)) ((seen true).merge b) := by
    intro x
    rw [steps_leftJoin, Multiset.mem_bind]
    simp only [mem_steps_of_adds hl (uniform_seen true), seen_merge_first, exists_eq_left]
    refine mem_extended_seen h.uniform_steps fun x hx => ?_
    rw [Expr.allHold_append, and_iff_left (hidle hx)]
  have halone : Alone l false (.combine (.leftJoin condition) left right) ↔
      Alone l false right := by
    constructor
    · rintro ⟨x, hx, -, hy⟩
      rcases (hsolutions x).1 hx with ⟨b, hb, rfl, -⟩ | ⟨rfl, -⟩
      · exact ⟨b, hb, Solution.empty_compatible b, (hbinds b).1 hy⟩
      · exact absurd hy (not_binds_second true)
    · rintro ⟨b, hb, -, hy⟩
      exact ⟨_, (hsolutions _).2 (Or.inl ⟨b, hb, rfl, trivial⟩), Solution.empty_compatible _,
        (hbinds b).2 hy⟩
  have hinside : Inside l false around (.combine (.leftJoin condition) left right) ↔
      Inside l false true right := by
    have hcomm : ∀ b ∈ steps l data none (written right) (seen false),
        b.merge (seen true) = (seen true).merge b := fun b hb =>
      Solution.merge_comm ((h.uniform_steps b hb).compatible (uniform_seen true))
    constructor
    · rintro ⟨x, hx, -, hy⟩
      rcases (hsteps x).1 hx with ⟨b, hb, rfl, hholds⟩ | ⟨rfl, -⟩
      · exact ⟨b, hb, by rwa [hcomm b hb], (hbinds b).1 hy⟩
      · exact absurd hy (not_binds_second true)
    · rintro ⟨b, hb, hholds, hy⟩
      rw [hcomm b hb] at hholds
      have hmerge := (uniform_seen true).merge (h.uniform_steps b hb)
      refine ⟨_, (hsteps _).2 (Or.inl ⟨b, hb, rfl, hholds⟩), ?_, (hbinds b).2 hy⟩
      rw [conditions_leftJoin]
      exact hl.conditions _ (hmerge.merge (uniform_seen around)).within
  refine ⟨?_, ?_, (halone.trans h.differs).trans (not_congr hinside.symm)⟩
  · intro x hx _
    rcases (hsolutions x).1 hx with ⟨b, hb, rfl, -⟩ | ⟨rfl, -⟩
    · exact (uniform_seen true).merge (huniform b hb)
    · exact uniform_seen true
  · intro x hx
    rcases (hsteps x).1 hx with ⟨b, hb, rfl, -⟩ | ⟨rfl, -⟩
    · exact (uniform_seen true).merge (h.uniform_steps b hb)
    · exact uniform_seen true

/-- The solution before the group keeps the optional part from matching. -/
theorem misread_leftJoin_before (hl : Adds l (given "y" one) left)
    (hr : Adds l (given "x" two) right) :
    Misread l true around (.combine (.leftJoin condition) left right) := by
  have hfirst : (given "x" two).Within shown := given_within (by decide)
  have hother : ¬ (seen true).Compatible (given "x" two) := by
    intro h
    have hsame : one = two := by simpa [seen, given, Solution.assign] using h "x"
    exact one_ne_two hsame
  have hapart : (given "y" one).Compatible (given "x" two) :=
    (apart_given fun h => absurd (binds_given.1 h) (by decide)).compatible
  have hnone : ∀ x ∈ (Tree.combine (.leftJoin condition) left right).solutions l data,
      ¬ (seen true).Compatible x := by
    intro x hx hcompatible
    rw [Tree.solutions, Solutions.mem_leftJoin, Solutions.mem_join] at hx
    simp only [hl.solutions, hr.solutions, exists_eq_left, forall_eq] at hx
    rcases hx with ⟨⟨-, rfl⟩, -⟩ | ⟨rfl, hnot⟩
    · exact hother ((Solution.compatible_merge hapart).1 hcompatible).2
    · exact hnot hapart (allHold_idle hc (uniform_second.within.merge hfirst))
  have hcompatible := (uniform_seen true).compatible uniform_second
  have huniform := (uniform_seen true).merge uniform_second
  have hsteps : ∀ x, x ∈ steps l data none
      (written (.combine (.leftJoin condition) left right)) (seen true) ↔
      x = (seen true).merge (given "y" one) := by
    intro x
    have hinner : ∀ z, z ∈ steps l data none (written right) Solution.empty ↔
        z = given "x" two := by
      intro z
      rw [hr.steps _ (Solution.empty_within _), and_iff_right (Solution.empty_compatible _)]
      rfl
    have hnot : ¬ ((seen true).merge (given "y" one)).Compatible (given "x" two) :=
      fun h => hother ((Solution.merge_compatible hcompatible).1 h).1
    rw [steps_leftJoin, Multiset.mem_bind]
    simp only [mem_steps_of_adds hl uniform_second, exists_eq_left, Solutions.mem_extended,
      hinner, forall_eq, iff_false_intro hnot, false_and,
      false_or, false_imp_iff, and_true]
  refine ⟨fun b hb hseen => absurd hseen (hnone b hb), ?_, iff_of_false ?_ (not_not.2 ?_)⟩
  · intro x hx
    rw [(hsteps x).1 hx]
    exact huniform
  · rintro ⟨b, hb, hseen, -⟩
    exact hnone b hb hseen
  · refine ⟨_, (hsteps _).2 rfl, ?_, (binds_seen_merge _ _).2 binds_second⟩
    rw [conditions_leftJoin]
    exact hl.conditions _ (huniform.merge (uniform_seen around)).within

end

/-! ## Groups of their own -/

theorem mem_grouped {b : Solution} : b ∈ (grouped none (written t)).solutions l data ↔
    b ∈ steps l data none (written t) (seen false) ∧
      Expr.AllHold l (conditions (written t)) (b.merge (seen false)) := by
  rw [solutions_grouped, Multiset.mem_filter]
  show _ ↔ _ ∧ Expr.AllHold l _ (b.merge Solution.empty)
  rw [Solution.merge_empty]
  rfl

theorem inside_iff_grouped : Inside l false false t ↔
    ∃ b ∈ (grouped none (written t)).solutions l data, b.Binds "y" := by
  simp only [Inside, mem_grouped, and_assoc]

theorem Misread.uniform_grouped (h : Misread l false false t) :
    ∀ b ∈ (grouped none (written t)).solutions l data, Uniform b :=
  fun b hb => h.uniform_steps b (mem_grouped.1 hb).1

theorem adds_mem_grouped {a : Solution} (h : Adds l a t) (ha : a.Within shown) {b : Solution} :
    b ∈ (grouped none (written t)).solutions l data ↔ b = a := by
  have hsteps : b ∈ steps l data none (written t) Solution.empty ↔ b = a := by
    rw [h.steps _ (Solution.empty_within _), and_iff_right (Solution.empty_compatible _)]
    rfl
  rw [solutions_grouped, Multiset.mem_filter, hsteps, and_iff_left_iff_imp]
  rintro rfl
  exact h.conditions _ ha

/-! ## Unions -/

theorem Misread.union_left (h : Misread l false false left) (hr : Adds l Solution.empty right) :
    Misread l before around (.combine .union left right) := by
  have huniform : ∀ b ∈ (Tree.combine .union left right).solutions l data, Uniform b := by
    intro b hb
    rcases Multiset.mem_add.1 hb with hb | hb
    · exact h.uniform b hb (Solution.empty_compatible b)
    · rw [(hr.solutions b).1 hb]
      exact uniform_empty
  have hsteps : ∀ x, x ∈ steps l data none (written (.combine .union left right)) (seen before) ↔
      ∃ b, (b ∈ (grouped none (written left)).solutions l data ∨ b = Solution.empty) ∧
        x = (seen before).merge b := by
    intro x
    rw [steps_union, Multiset.mem_bind]
    refine exists_congr fun b => ?_
    rw [Multiset.mem_add, adds_mem_grouped hr (Solution.empty_within _), Solution.mem_pair]
    refine and_congr_right fun hb => and_iff_right ?_
    rcases hb with hb | rfl
    · exact (uniform_seen before).compatible (h.uniform_grouped b hb)
    · exact Solution.compatible_empty _
  have halone : Alone l before (.combine .union left right) ↔ Alone l false left := by
    constructor
    · rintro ⟨b, hb, -, hy⟩
      rcases Multiset.mem_add.1 hb with hb | hb
      · exact ⟨b, hb, Solution.empty_compatible b, hy⟩
      · rw [(hr.solutions b).1 hb] at hy
        exact absurd rfl hy
    · rintro ⟨b, hb, hcompatible, hy⟩
      exact ⟨b, Multiset.mem_add.2 (Or.inl hb),
        (uniform_seen before).compatible (h.uniform b hb hcompatible), hy⟩
  have hinside : Inside l before around (.combine .union left right) ↔
      Inside l false false left := by
    rw [inside_iff_grouped]
    constructor
    · rintro ⟨x, hx, -, hy⟩
      obtain ⟨b, hb, rfl⟩ := (hsteps x).1 hx
      have hy := (binds_seen_merge before b).1 hy
      rcases hb with hb | rfl
      · exact ⟨b, hb, hy⟩
      · exact absurd rfl hy
    · rintro ⟨b, hb, hy⟩
      exact ⟨_, (hsteps _).2 ⟨b, Or.inl hb, rfl⟩, Expr.allHold_nil l _,
        (binds_seen_merge before b).2 hy⟩
  refine ⟨fun b hb _ => huniform b hb, ?_, (halone.trans h.differs).trans (not_congr hinside.symm)⟩
  intro x hx
  obtain ⟨b, hb | rfl, rfl⟩ := (hsteps x).1 hx
  · exact (uniform_seen before).merge (h.uniform_grouped b hb)
  · exact (uniform_seen before).merge uniform_empty

theorem Misread.union_comm (h : Misread l before around (.combine .union left right)) :
    Misread l before around (.combine .union right left) := by
  have hsolutions : (Tree.combine .union right left).solutions l data =
      (Tree.combine .union left right).solutions l data := Multiset.add_comm _ _
  have hsteps : steps l data none (written (.combine .union right left)) (seen before) =
      steps l data none (written (.combine .union left right)) (seen before) := by
    rw [steps_union, steps_union, Multiset.add_comm]
  refine ⟨?_, ?_, ?_⟩
  · rw [hsolutions]
    exact h.uniform
  · rw [hsteps]
    exact h.uniform_steps
  · rw [Alone, Inside, hsolutions, hsteps]
    exact h.differs

/-! ## Differences -/

/-- The solution before the group has something in common with what is taken away. -/
theorem misread_difference_before (hl : Adds l (given "y" one) left)
    (hr : Adds l (seen true) right) :
    Misread l true around (.combine .difference left right) := by
  have hcompatible := (uniform_seen true).compatible uniform_second
  have huniform := (uniform_seen true).merge uniform_second
  have hapart : (given "y" one).Apart (seen true) := apart_given (not_binds_second true)
  have hsolutions : ∀ b, b ∈ (Tree.combine .difference left right).solutions l data ↔
      b = given "y" one := by
    intro b
    rw [Tree.solutions, Solutions.mem_minus, hl.solutions, and_iff_left_iff_imp]
    rintro rfl b hb -
    rw [(hr.solutions b).1 hb]
    exact hapart
  have hnone : ∀ x, x ∉ steps l data none (written (.combine .difference left right))
      (seen true) := by
    intro x hx
    rw [steps_difference] at hx
    obtain ⟨y, hy, hx⟩ := Multiset.mem_bind.1 hx
    cases (mem_steps_of_adds hl uniform_second true).1 hy
    have htaking := (adds_mem_grouped hr (uniform_seen true).within).2 rfl
    have hgone := (Solutions.mem_remaining.1 hx).2 _ htaking (huniform.compatible (uniform_seen true))
    rcases hgone "x" with hx | hx
    · exact Solution.binds_merge.2 (Or.inl binds_first) hx
    · exact binds_first hx
  refine ⟨?_, fun x hx => absurd hx (hnone x), iff_of_true ?_ ?_⟩
  · intro b hb _
    rw [(hsolutions b).1 hb]
    exact uniform_second
  · exact ⟨_, (hsolutions _).2 rfl, hcompatible, binds_second⟩
  · rintro ⟨x, hx, -⟩
    exact hnone x hx

theorem Misread.difference_left (h : Misread l before around left)
    (hr : Adds l Solution.empty right) :
    Misread l before around (.combine .difference left right) := by
  have hapart (a b : Solution) (hb : b = Solution.empty) : a.Apart b := by
    subst hb
    exact fun name => Or.inr rfl
  apply h.kept
  · exact fun b hb => (Solutions.mem_minus.1 hb).1
  · exact fun b _ hb => Solutions.mem_minus.2
      ⟨hb, fun c hc _ => hapart b c ((hr.solutions c).1 hc)⟩
  · intro x
    rw [steps_difference, Multiset.mem_bind]
    have hkept (y : Solution) : x ∈ Solutions.remaining
        ((grouped none (written right)).solutions l data) y ↔ x = y := by
      rw [Solutions.mem_remaining, and_iff_left]
      exact fun c hc _ => hapart y c ((adds_mem_grouped hr (Solution.empty_within _)).1 hc)
    simp only [hkept, exists_eq_right']
  · exact fun x _ => by rw [conditions_difference]

/-- Solutions with the second variable are those that take the one of the left operand away. -/
theorem taken_iff {B : Multiset Solution} (hB : ∀ b ∈ B, Uniform b) :
    (∀ b ∈ B, (given "y" one).Compatible b → (given "y" one).Apart b) ↔
      ¬ ∃ b ∈ B, b.Binds "y" := by
  constructor
  · rintro h ⟨b, hb, hy⟩
    rcases h b hb (uniform_second.compatible (hB b hb)) "y" with hnone | hnone
    · exact binds_second hnone
    · exact hy hnone
  · rintro h b hb -
    exact apart_given fun hy => h ⟨b, hb, hy⟩

theorem Misread.difference_right (h : Misread l false false right)
    (hl : Adds l (given "y" one) left) :
    Misread l false around (.combine .difference left right) := by
  have hempty (b : Solution) : (seen false).Compatible b := Solution.empty_compatible b
  have hsolutions : ∀ b, b ∈ (Tree.combine .difference left right).solutions l data ↔
      b = given "y" one ∧ ¬ Alone l false right := by
    intro b
    rw [Tree.solutions, Solutions.mem_minus, hl.solutions]
    refine and_congr_right ?_
    rintro rfl
    rw [taken_iff fun b hb => h.uniform b hb (hempty b), Alone]
    simp only [hempty, true_and]
  have hsteps : ∀ x, x ∈ steps l data none (written (.combine .difference left right))
      (seen false) ↔ x = given "y" one ∧ ¬ Inside l false false right := by
    intro x
    rw [steps_difference, Multiset.mem_bind]
    simp only [mem_steps_of_adds hl uniform_second, exists_eq_left]
    rw [Solutions.mem_remaining, inside_iff_grouped]
    exact and_congr_right fun _ => taken_iff h.uniform_grouped
  have halone : Alone l false (.combine .difference left right) ↔ ¬ Alone l false right := by
    constructor
    · rintro ⟨b, hb, -⟩
      exact ((hsolutions b).1 hb).2
    · exact fun hnot => ⟨_, (hsolutions _).2 ⟨rfl, hnot⟩, hempty _, binds_second⟩
  have hinside : Inside l false around (.combine .difference left right) ↔
      ¬ Inside l false false right := by
    constructor
    · rintro ⟨x, hx, -⟩
      exact ((hsteps x).1 hx).2
    · intro hnot
      refine ⟨_, (hsteps _).2 ⟨rfl, hnot⟩, ?_, binds_second⟩
      rw [conditions_difference]
      exact hl.conditions _ (uniform_second.merge (uniform_seen around)).within
  refine ⟨?_, ?_, ?_⟩
  · intro b hb _
    rw [((hsolutions b).1 hb).1]
    exact uniform_second
  · intro x hx
    rw [((hsteps x).1 hx).1]
    exact uniform_second
  · rw [halone, hinside, h.differs]

/-! ## Every nesting that does not keep its trees to their scope -/

theorem exists_misread (l : Library) (n : Nesting) :
    ∀ {before around : Bool}, (before = true → around = true) →
      n.keeps before around = false → ∃ t, n.Of t ∧ Misread l before around t := by
  have hx : "x" ∈ shown := by decide
  have hy : "y" ∈ shown := by decide
  have hseen (n : Nesting) := exists_adds_given l hx (Or.inl rfl) n
  have hsecond (n : Nesting) := exists_adds_given l hy (Or.inl rfl) n
  induction n with
  | pattern => exact fun _ h => nomatch h
  | join m n ihm ihn =>
    intro before around _ h
    rw [Nesting.keeps, Bool.and_eq_false_iff] at h
    rcases h with h | h
    · obtain ⟨left, hleft, hmisread⟩ := ihm (fun _ => rfl) h
      obtain ⟨right, hright, hadds⟩ := hseen n
      exact ⟨_, .join hleft hright, hmisread.join_left hadds⟩
    · obtain ⟨right, hright, hmisread⟩ := ihn (fun _ => rfl) h
      obtain ⟨left, hleft, hadds⟩ := hseen m
      exact ⟨_, .join hleft hright, hmisread.join_right hadds⟩
  | leftJoin conditioned m n ihm ihn =>
    intro before around _ h
    have hc : ∀ e ∈ (idleCondition conditioned).toList, e = idle := fun e => mem_idleCondition
    have hof {left right : Tree} (hleft : m.Of left) (hright : n.Of right) :=
      Nesting.Of.leftJoin (idleCondition_isSome conditioned) hleft hright
    cases before with
    | true =>
      obtain ⟨left, hleft, hl⟩ := hsecond m
      obtain ⟨right, hright, hr⟩ := exists_adds_given l hx (Or.inr rfl) n
      exact ⟨_, hof hleft hright, misread_leftJoin_before hc hl hr⟩
    | false =>
      rw [Nesting.keeps, Bool.not_false, Bool.true_and, Bool.and_eq_false_iff] at h
      rcases h with h | h
      · obtain ⟨left, hleft, hmisread⟩ := ihm (fun _ => rfl) h
        obtain ⟨right, hright, hadds⟩ := hseen n
        exact ⟨_, hof hleft hright, hmisread.leftJoin_left hc hadds⟩
      · obtain ⟨right, hright, hmisread⟩ := ihn (fun _ => rfl) h
        obtain ⟨left, hleft, hadds⟩ := hseen m
        exact ⟨_, hof hleft hright, hmisread.leftJoin_right hc hadds⟩
  | union m n ihm ihn =>
    intro before around _ h
    rw [Nesting.keeps, Bool.and_eq_false_iff] at h
    rcases h with h | h
    · obtain ⟨left, hleft, hmisread⟩ := ihm id h
      obtain ⟨right, hright, hadds⟩ := exists_adds_empty l n
      exact ⟨_, .union hleft hright, hmisread.union_left hadds⟩
    · obtain ⟨right, hright, hmisread⟩ := ihn id h
      obtain ⟨left, hleft, hadds⟩ := exists_adds_empty l m
      exact ⟨_, .union hleft hright, (hmisread.union_left hadds).union_comm⟩
  | difference m n ihm ihn =>
    intro before around hbound h
    cases before with
    | true =>
      obtain ⟨left, hleft, hl⟩ := hsecond m
      obtain ⟨right, hright, hr⟩ := hseen n
      exact ⟨_, .difference hleft hright, misread_difference_before hl hr⟩
    | false =>
      rw [Nesting.keeps, Bool.not_false, Bool.true_and, Bool.and_eq_false_iff] at h
      rcases h with h | h
      · obtain ⟨left, hleft, hmisread⟩ := ihm hbound h
        obtain ⟨right, hright, hadds⟩ := exists_adds_empty l n
        exact ⟨_, .difference hleft hright, hmisread.difference_left hadds⟩
      · obtain ⟨right, hright, hmisread⟩ := ihn id h
        obtain ⟨left, hleft, hadds⟩ := hsecond m
        exact ⟨_, .difference hleft hright, hmisread.difference_right hadds⟩
  | filter m ih =>
    intro before around hbound h
    cases around with
    | true =>
      obtain ⟨arg, harg, hadds⟩ := hsecond m
      exact ⟨_, .filter harg, misread_filter_around hadds⟩
    | false =>
      rw [Nesting.keeps, Bool.not_false, Bool.true_and] at h
      obtain ⟨arg, harg, hmisread⟩ := ih hbound h
      exact ⟨_, .filter harg, hmisread.filter⟩

theorem Misread.ne (h : Misread l false false t) :
    (grouped none (written t)).solutions l data ≠ t.solutions l data := by
  intro heq
  have hsame : Alone l false t ↔ Inside l false false t := by
    have hempty (b : Solution) : (seen false).Compatible b := Solution.empty_compatible b
    rw [inside_iff_grouped, heq, Alone]
    simp only [hempty, true_and]
  exact iff_not_self (hsame.symm.trans h.differs)

end

end Sample

/-! ## When the text says the tree -/

/-- Read back as one group, the elements written for the tree have its solutions. -/
def Preserved (l : Library) (data : Finset Quad) (t : Tree) : Prop :=
  (grouped none (written t)).solutions l data = t.solutions l data

/-- The text of a tree without graphs holds its elements, and a tree that keeps to its scope is
read back from them. The nestings that do so whatever the patterns and conditions are known: every
other one has a tree that is read as a different one. -/
theorem reading_preserved (l : Library) (n : Nesting) :
    (∀ t, n.Of t → ∀ s, Writes s t (written t)) ∧
      (∀ t, n.Of t → t.Keeps [] [] → ∀ data, Preserved l data t) ∧
      ((∀ t, n.Of t → ∀ data, Preserved l data t) ↔ n.keeps false false = true) := by
  have hkept : ∀ t, n.Of t → t.Keeps [] [] → ∀ data, Preserved l data t :=
    fun t ht hkeeps data => (says_of_keeps l data ht.graphless (List.Subset.refl []) hkeeps).grouped
  refine ⟨fun t ht s => ht.writes s, hkept, ?_, ?_⟩
  · intro hall
    by_contra hkeeps
    obtain ⟨t, ht, hmisread⟩ := Sample.exists_misread l n id (Bool.not_eq_true _ ▸ hkeeps)
    exact hmisread.ne (hall t ht Sample.data)
  · exact fun hkeeps t ht => hkept t ht (ht.tree_keeps hkeeps (fun _ => rfl) fun _ => rfl)

/-- A filter and a union inside an optional part. -/
def filteredUnion : Tree :=
  let pattern (object : String) : Tree :=
    .pattern (Sample.asked Sample.one (.var (.user object)))
  .leftJoin (.join (pattern "x") (pattern "y"))
    (.union (.filter (pattern "z") (.bound (.user "z"))) (pattern "w")) (some (.bound (.user "x")))

theorem filteredUnion_preserved :
    (∃ n : Nesting, n.Of filteredUnion ∧ n.keeps false false = true) ∧
      ∀ l data, Preserved l data filteredUnion := by
  have hof : (Nesting.leftJoin true (.join .pattern .pattern)
      (.union (.filter .pattern) .pattern)).Of filteredUnion :=
    .leftJoin rfl (.join (.pattern rfl) (.pattern rfl))
      (.union (.filter (.pattern rfl)) (.pattern rfl))
  exact ⟨⟨_, hof, rfl⟩, fun l data => (reading_preserved l _).2.2.2 rfl _ hof data⟩

/-- The filter tests a variable of the pattern beside its group. -/
def filterBeside : Tree :=
  .join (.filter (.pattern (Sample.asked Sample.one (.var (.user "y")))) (.bound (.user "x")))
    (.pattern (Sample.asked Sample.one (.var (.user "x"))))

theorem filterBeside_misread :
    (Nesting.join (.filter .pattern) .pattern).Of filterBeside ∧
      Writes Style.default filterBeside (written filterBeside) ∧
      ∀ l, ¬ Preserved l Sample.data filterBeside := by
  have hof : (Nesting.join (.filter .pattern) .pattern).Of filterBeside :=
    .join (.filter (.pattern rfl)) (.pattern rfl)
  refine ⟨hof, hof.writes _, fun l => ?_⟩
  have hx := Sample.adds_given l "x" (by decide) (Or.inl rfl) .pattern
  have hy := Sample.adds_given l "y" (by decide) (Or.inl rfl) .pattern
  exact ((Sample.misread_filter_around hy).join_left hx).ne

end RdfQuery.Sparql
