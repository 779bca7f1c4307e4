import Mathlib.Data.Multiset.Bind
import RdfQuery.Constant.Basic

/-!
# Solutions

A solution gives values to some variables, by their names. The operators of
the algebra work on bags of solutions. Each is also written as a union over
its left operand, which is the form proofs about their nesting use.
-/

set_option autoImplicit false

namespace RdfQuery

open scoped Classical

def Solution : Type := String → Option Constant

namespace Solution

def empty : Solution := fun _ => none

def Binds (a : Solution) (name : String) : Prop := a name ≠ none

/-- No variable has two different values. -/
def Compatible (a b : Solution) : Prop := ∀ name, a name = none ∨ b name = none ∨ a name = b name

def merge (a b : Solution) : Solution := fun name => (a name).or (b name)

/-- No variable has a value in both. -/
def Apart (a b : Solution) : Prop := ∀ name, a name = none ∨ b name = none

def Within (names : List String) (a : Solution) : Prop := ∀ name, a.Binds name → name ∈ names

theorem compatible_comm {a b : Solution} : a.Compatible b ↔ b.Compatible a := by
  constructor <;>
    · intro h name
      rcases h name with h | h | h
      · exact Or.inr (Or.inl h)
      · exact Or.inl h
      · exact Or.inr (Or.inr h.symm)

theorem compatible_self (a : Solution) : a.Compatible a := fun _ => Or.inr (Or.inr rfl)

theorem empty_compatible (a : Solution) : empty.Compatible a := fun _ => Or.inl rfl

theorem compatible_empty (a : Solution) : a.Compatible empty := fun _ => Or.inr (Or.inl rfl)

theorem empty_merge (a : Solution) : empty.merge a = a := rfl

theorem merge_empty (a : Solution) : a.merge empty = a := by
  funext name
  exact Option.or_none

theorem merge_self (a : Solution) : a.merge a = a := by
  funext name
  exact Option.or_self

theorem merge_assoc (a b c : Solution) : (a.merge b).merge c = a.merge (b.merge c) := by
  funext name
  exact Option.or_assoc

theorem merge_comm {a b : Solution} (h : a.Compatible b) : a.merge b = b.merge a := by
  funext name
  show (a name).or (b name) = (b name).or (a name)
  rcases h name with h | h | h
  · rw [h, Option.none_or, Option.or_none]
  · rw [h, Option.none_or, Option.or_none]
  · rw [h]

theorem merge_left {a b : Solution} {name : String} (h : a.Binds name) :
    a.merge b name = a name := by
  obtain ⟨c, hc⟩ := Option.ne_none_iff_exists'.1 h
  show (a name).or (b name) = a name
  rw [hc, Option.some_or]

theorem merge_right {a b : Solution} {name : String} (h : ¬ a.Binds name) :
    a.merge b name = b name := by
  show (a name).or (b name) = b name
  rw [not_not.1 h, Option.none_or]

theorem binds_merge {a b : Solution} {name : String} :
    (a.merge b).Binds name ↔ a.Binds name ∨ b.Binds name := by
  by_cases h : a.Binds name
  · have hmerge : (a.merge b).Binds name := by
      rw [Binds, merge_left h]
      exact h
    exact iff_of_true hmerge (Or.inl h)
  · rw [Binds, merge_right h]
    exact (or_iff_right h).symm

/-- Where the first binds a variable of the third, the second does too. -/
def Between (a b c : Solution) : Prop := ∀ name, a.Binds name → c.Binds name → b.Binds name

theorem merge_compatible {a b c : Solution} (hab : a.Compatible b) :
    (a.merge b).Compatible c ↔ a.Compatible c ∧ b.Compatible c := by
  constructor
  · intro h
    constructor
    · intro name
      by_cases ha : a.Binds name
      · have := h name
        rwa [merge_left ha] at this
      · exact Or.inl (not_not.1 ha)
    · intro name
      by_cases ha : a.Binds name
      · have hc := h name
        rw [merge_left ha] at hc
        rcases hab name with hab | hab | hab
        · exact absurd hab ha
        · exact Or.inl hab
        · rwa [hab] at hc
      · have hc := h name
        rwa [merge_right ha] at hc
  · rintro ⟨hac, hbc⟩ name
    by_cases ha : a.Binds name
    · rw [merge_left ha]
      exact hac name
    · rw [merge_right ha]
      exact hbc name

theorem compatible_merge {a b c : Solution} (hbc : b.Compatible c) :
    a.Compatible (b.merge c) ↔ a.Compatible b ∧ a.Compatible c := by
  rw [compatible_comm, merge_compatible hbc, compatible_comm, @compatible_comm c a]

theorem Between.compatible {a b c : Solution} (h : Between a b c) (hab : a.Compatible b)
    (hbc : b.Compatible c) : a.Compatible c := by
  intro name
  by_cases ha : a.Binds name
  · by_cases hc : c.Binds name
    · have hb := h name ha hc
      have hab := (hab name).resolve_left ha |>.resolve_left hb
      have hbc := (hbc name).resolve_left hb |>.resolve_left hc
      exact Or.inr (Or.inr (hab.trans hbc))
    · exact Or.inr (Or.inl (not_not.1 hc))
  · exact Or.inl (not_not.1 ha)

theorem Between.merge_apart {a b c : Solution} (h : Between a b c) :
    (a.merge b).Apart c ↔ b.Apart c := by
  constructor
  · intro hapart name
    by_cases hb : b.Binds name
    · exact Or.inr ((hapart name).resolve_left (binds_merge.2 (Or.inr hb)))
    · exact Or.inl (not_not.1 hb)
  · intro hapart name
    by_cases hc : c.Binds name
    · have hb : ¬ b.Binds name := not_not.2 ((hapart name).resolve_right hc)
      have ha : ¬ a.Binds name := fun ha => hb (h name ha hc)
      exact Or.inl (by rw [merge_right ha]; exact not_not.1 hb)
    · exact Or.inr (not_not.1 hc)

theorem Apart.compatible {a b : Solution} (h : a.Apart b) : a.Compatible b :=
  fun name => (h name).imp_right Or.inl

theorem Within.mono {xs ys : List String} {a : Solution} (h : a.Within xs) (hsub : xs ⊆ ys) :
    a.Within ys := fun name hname => hsub (h name hname)

theorem empty_within (xs : List String) : empty.Within xs := fun _ h => absurd rfl h

theorem Within.merge {xs : List String} {a b : Solution} (ha : a.Within xs) (hb : b.Within xs) :
    (a.merge b).Within xs := by
  intro name hname
  rcases binds_merge.1 hname with hname | hname
  · exact ha name hname
  · exact hb name hname

/-- The merged solution, if there is one. -/
noncomputable def pair (a b : Solution) : Multiset Solution :=
  if a.Compatible b then {a.merge b} else 0

theorem pair_of_compatible {a b : Solution} (h : a.Compatible b) : a.pair b = {a.merge b} :=
  if_pos h

theorem pair_of_not {a b : Solution} (h : ¬ a.Compatible b) : a.pair b = 0 := if_neg h

theorem mem_pair {a b x : Solution} : x ∈ a.pair b ↔ a.Compatible b ∧ x = a.merge b := by
  by_cases h : a.Compatible b
  · rw [pair_of_compatible h, Multiset.mem_singleton]
    exact (and_iff_right h).symm
  · rw [pair_of_not h]
    exact iff_of_false (Multiset.notMem_zero x) fun hx => h hx.1

theorem pair_assoc (a b c : Solution) :
    ((a.pair b).bind fun ab => ab.pair c) = (b.pair c).bind fun bc => a.pair bc := by
  by_cases hab : a.Compatible b
  · rw [pair_of_compatible hab, Multiset.singleton_bind]
    by_cases hbc : b.Compatible c
    · rw [pair_of_compatible hbc, Multiset.singleton_bind]
      by_cases hac : a.Compatible c
      · rw [pair_of_compatible ((merge_compatible hab).2 ⟨hac, hbc⟩),
          pair_of_compatible ((compatible_merge hbc).2 ⟨hab, hac⟩), merge_assoc]
      · rw [pair_of_not fun h => hac ((merge_compatible hab).1 h).1,
          pair_of_not fun h => hac ((compatible_merge hbc).1 h).2]
    · rw [pair_of_not hbc, Multiset.zero_bind,
        pair_of_not fun h => hbc ((merge_compatible hab).1 h).2]
  · rw [pair_of_not hab, Multiset.zero_bind]
    by_cases hbc : b.Compatible c
    · rw [pair_of_compatible hbc, Multiset.singleton_bind,
        pair_of_not fun h => hab ((compatible_merge hbc).1 h).1]
    · rw [pair_of_not hbc, Multiset.zero_bind]

end Solution

/-! ## Operators on bags of solutions -/

namespace Solutions

open Solution

variable {A B C : Multiset Solution} {p q r : Solution → Prop}

noncomputable def join (A B : Multiset Solution) : Multiset Solution :=
  A.bind fun a => B.bind fun b => a.pair b

/-- The solutions of the left operand that no solution of the right one extends as `p` asks. -/
noncomputable def unextended (p : Solution → Prop) (A B : Multiset Solution) : Multiset Solution :=
  A.filter fun a => ∀ b ∈ B, a.Compatible b → ¬ p (a.merge b)

noncomputable def leftJoin (p : Solution → Prop) (A B : Multiset Solution) : Multiset Solution :=
  (join A B).filter p + unextended p A B

/-- A solution is taken away by one that it is compatible with and has a variable in common. -/
noncomputable def minus (A B : Multiset Solution) : Multiset Solution :=
  A.filter fun a => ∀ b ∈ B, a.Compatible b → a.Apart b

theorem mem_join {x : Solution} :
    x ∈ join A B ↔ ∃ a ∈ A, ∃ b ∈ B, a.Compatible b ∧ x = a.merge b := by
  simp only [join, Multiset.mem_bind, mem_pair]

theorem mem_leftJoin {x : Solution} : x ∈ leftJoin p A B ↔ x ∈ join A B ∧ p x ∨
    x ∈ A ∧ ∀ b ∈ B, x.Compatible b → ¬ p (x.merge b) := by
  rw [leftJoin, Multiset.mem_add, Multiset.mem_filter, unextended, Multiset.mem_filter]

theorem mem_minus {x : Solution} :
    x ∈ minus A B ↔ x ∈ A ∧ ∀ b ∈ B, x.Compatible b → x.Apart b := by
  rw [minus, Multiset.mem_filter]

theorem bind_self (A : Multiset Solution) : (A.bind fun a => {a}) = A :=
  (Multiset.bind_singleton A id).trans (Multiset.map_id A)

theorem empty_join (A : Multiset Solution) : join {Solution.empty} A = A := by
  rw [join, Multiset.singleton_bind]
  simp only [pair_of_compatible (empty_compatible _), empty_merge]
  rw [Multiset.bind_singleton]
  exact Multiset.map_id A

theorem join_empty (A : Multiset Solution) : join A {Solution.empty} = A := by
  rw [join]
  simp only [Multiset.singleton_bind, pair_of_compatible (compatible_empty _), merge_empty]
  rw [Multiset.bind_singleton]
  exact Multiset.map_id A

theorem join_assoc (A B C : Multiset Solution) : join (join A B) C = join A (join B C) := by
  rw [join, join, join, Multiset.bind_assoc]
  apply Multiset.bind_congr
  intro a _
  rw [join, Multiset.bind_assoc, Multiset.bind_assoc]
  apply Multiset.bind_congr
  intro b _
  rw [Multiset.bind_bind, Multiset.bind_assoc]
  apply Multiset.bind_congr
  intro c _
  exact pair_assoc a b c

theorem filter_join (h : ∀ a ∈ A, ∀ b ∈ B, a.Compatible b → (p (a.merge b) ↔ q b)) :
    (join A B).filter p = join A (B.filter q) := by
  rw [join, Multiset.filter_bind, join]
  apply Multiset.bind_congr
  intro a ha
  rw [Multiset.filter_bind, Multiset.bind_filter]
  apply Multiset.bind_congr
  intro b hb
  by_cases hab : a.Compatible b
  · rw [pair_of_compatible hab, Multiset.filter_singleton]
    simp only [h a ha b hb hab]
    rfl
  · rw [pair_of_not hab, Multiset.filter_zero, ite_self]

/-! ### Operators as unions over the left operand -/

/-- What becomes of one solution of the left operand. -/
noncomputable def extended (p : Solution → Prop) (B : Multiset Solution) (a : Solution) :
    Multiset Solution :=
  (B.bind fun b => (a.pair b).filter p) +
    if ∀ b ∈ B, a.Compatible b → ¬ p (a.merge b) then {a} else 0

theorem leftJoin_eq_bind (p : Solution → Prop) (A B : Multiset Solution) :
    leftJoin p A B = A.bind (extended p B) := by
  rw [leftJoin, join, Multiset.filter_bind, unextended, Multiset.filter_eq_bind,
    ← Multiset.bind_add]
  apply Multiset.bind_congr
  intro a _
  rw [Multiset.filter_bind]
  rfl

noncomputable def remaining (B : Multiset Solution) (a : Solution) : Multiset Solution :=
  if ∀ b ∈ B, a.Compatible b → a.Apart b then {a} else 0

theorem minus_eq_bind (A B : Multiset Solution) : minus A B = A.bind (remaining B) :=
  Multiset.filter_eq_bind A _

theorem mem_extended {a x : Solution} : x ∈ extended p B a ↔
    (∃ b ∈ B, a.Compatible b ∧ x = a.merge b ∧ p x) ∨
      x = a ∧ ∀ b ∈ B, a.Compatible b → ¬ p (a.merge b) := by
  have hpairs : x ∈ (B.bind fun b => (a.pair b).filter p) ↔
      ∃ b ∈ B, a.Compatible b ∧ x = a.merge b ∧ p x := by
    simp only [Multiset.mem_bind, Multiset.mem_filter, mem_pair, and_assoc]
  rw [extended, Multiset.mem_add, hpairs]
  apply or_congr_right
  split
  · rename_i hnone
    rw [Multiset.mem_singleton, and_iff_left hnone]
  · rename_i hsome
    exact iff_of_false (Multiset.notMem_zero x) fun h => hsome h.2

theorem mem_remaining {a x : Solution} :
    x ∈ remaining B a ↔ x = a ∧ ∀ b ∈ B, a.Compatible b → a.Apart b := by
  rw [remaining]
  split
  · rename_i hkept
    rw [Multiset.mem_singleton, and_iff_left hkept]
  · rename_i hgone
    exact iff_of_false (Multiset.notMem_zero x) fun h => hgone h.2

/-! ### Moving a join out of the left operand -/

/-- Part of the condition may be tested on the right operand alone. -/
theorem leftJoin_filter (h : ∀ a ∈ A, ∀ b ∈ B, a.Compatible b →
    (p (a.merge b) ↔ q b ∧ r (a.merge b))) :
    leftJoin p A B = leftJoin r A (B.filter q) := by
  rw [leftJoin_eq_bind, leftJoin_eq_bind]
  apply Multiset.bind_congr
  intro a ha
  have hpairs : (B.bind fun b => (a.pair b).filter p) =
      (B.filter q).bind fun b => (a.pair b).filter r := by
    rw [Multiset.bind_filter]
    apply Multiset.bind_congr
    intro b hb
    by_cases hab : a.Compatible b
    · have hpq := h a ha b hb hab
      rw [pair_of_compatible hab, Multiset.filter_singleton, Multiset.filter_singleton]
      by_cases hq : q b
      · simp only [hpq, hq, true_and, if_true]
      · simp only [hpq, hq, false_and, if_false]
        rfl
    · rw [pair_of_not hab, Multiset.filter_zero, Multiset.filter_zero, ite_self]
  have hnone : (∀ b ∈ B, a.Compatible b → ¬ p (a.merge b)) ↔
      ∀ b ∈ B.filter q, a.Compatible b → ¬ r (a.merge b) := by
    constructor
    · intro hp b hb hab hr
      rw [Multiset.mem_filter] at hb
      exact hp b hb.1 hab ((h a ha b hb.1 hab).2 ⟨hb.2, hr⟩)
    · intro hr b hb hab hp
      obtain ⟨hq, hr'⟩ := (h a ha b hb hab).1 hp
      exact hr b (Multiset.mem_filter.2 ⟨hb, hq⟩) hab hr'
  rw [extended, extended, hpairs, if_congr hnone rfl rfl]

theorem pair_filter_bind {a b c : Solution} (hbetween : Between a b c)
    (hp : a.Compatible b → b.Compatible c → (p ((a.merge b).merge c) ↔ p (b.merge c))) :
    ((b.pair c).filter p).bind a.pair = (a.pair b).bind fun ab => (ab.pair c).filter p := by
  rw [← Multiset.filter_bind, pair_assoc]
  by_cases hbc : b.Compatible c
  · rw [pair_of_compatible hbc, Multiset.filter_singleton, Multiset.singleton_bind]
    by_cases hab : a.Compatible b
    · have hac := hbetween.compatible hab hbc
      rw [pair_of_compatible ((compatible_merge hbc).2 ⟨hab, hac⟩), Multiset.filter_singleton,
        ← merge_assoc]
      by_cases hholds : p (b.merge c)
      · rw [if_pos hholds, if_pos ((hp hab hbc).2 hholds), Multiset.singleton_bind,
          pair_of_compatible ((compatible_merge hbc).2 ⟨hab, hac⟩), merge_assoc]
      · rw [if_neg hholds, if_neg fun h => hholds ((hp hab hbc).1 h)]
        exact Multiset.zero_bind _
    · have hnot : ¬ a.Compatible (b.merge c) := fun h => hab ((compatible_merge hbc).1 h).1
      rw [pair_of_not hnot, Multiset.filter_zero]
      split
      · rw [Multiset.singleton_bind, pair_of_not hnot]
      · exact Multiset.zero_bind _
  · rw [pair_of_not hbc, Multiset.filter_zero, Multiset.zero_bind, Multiset.filter_zero]

theorem join_leftJoin (hbetween : ∀ a ∈ A, ∀ b ∈ B, ∀ c ∈ C, Between a b c)
    (hp : ∀ a ∈ A, ∀ b ∈ B, ∀ c ∈ C, a.Compatible b → b.Compatible c →
      (p ((a.merge b).merge c) ↔ p (b.merge c))) :
    leftJoin p (join A B) C = join A (leftJoin p B C) := by
  rw [leftJoin_eq_bind, leftJoin_eq_bind, join, join, Multiset.bind_assoc]
  apply Multiset.bind_congr
  intro a ha
  rw [Multiset.bind_assoc, Multiset.bind_assoc]
  apply Multiset.bind_congr
  intro b hb
  have hpairs : (C.bind fun c => (b.pair c).filter p).bind a.pair =
      (a.pair b).bind fun ab => C.bind fun c => (ab.pair c).filter p := by
    rw [Multiset.bind_assoc, Multiset.bind_bind]
    apply Multiset.bind_congr
    intro c hc
    exact pair_filter_bind (hbetween a ha b hb c hc) (hp a ha b hb c hc)
  by_cases hab : a.Compatible b
  · have hnone : (∀ c ∈ C, b.Compatible c → ¬ p (b.merge c)) ↔
        ∀ c ∈ C, (a.merge b).Compatible c → ¬ p ((a.merge b).merge c) := by
      constructor
      · intro h c hc habc
        have hbc := ((merge_compatible hab).1 habc).2
        rw [hp a ha b hb c hc hab hbc]
        exact h c hc hbc
      · intro h c hc hbc
        have hac := (hbetween a ha b hb c hc).compatible hab hbc
        rw [← hp a ha b hb c hc hab hbc]
        exact h c hc ((merge_compatible hab).2 ⟨hac, hbc⟩)
    rw [extended, Multiset.add_bind, hpairs, pair_of_compatible hab, Multiset.singleton_bind,
      Multiset.singleton_bind, extended, if_congr hnone rfl rfl]
    split
    · rw [Multiset.singleton_bind, pair_of_compatible hab]
    · rw [Multiset.zero_bind]
  · rw [extended, Multiset.add_bind, hpairs, pair_of_not hab, Multiset.zero_bind,
      Multiset.zero_bind, zero_add]
    split
    · rw [Multiset.singleton_bind, pair_of_not hab]
    · rw [Multiset.zero_bind]

theorem join_minus (hbetween : ∀ a ∈ A, ∀ b ∈ B, ∀ c ∈ C, Between a b c) :
    minus (join A B) C = join A (minus B C) := by
  rw [minus_eq_bind, minus_eq_bind, join, join, Multiset.bind_assoc]
  apply Multiset.bind_congr
  intro a ha
  rw [Multiset.bind_assoc, Multiset.bind_assoc]
  apply Multiset.bind_congr
  intro b hb
  by_cases hab : a.Compatible b
  · have hkept : (∀ c ∈ C, b.Compatible c → b.Apart c) ↔
        ∀ c ∈ C, (a.merge b).Compatible c → (a.merge b).Apart c := by
      constructor
      · intro h c hc habc
        have hapart := h c hc ((merge_compatible hab).1 habc).2
        exact (hbetween a ha b hb c hc).merge_apart.2 hapart
      · intro h c hc hbc
        have hac := (hbetween a ha b hb c hc).compatible hab hbc
        have hapart := h c hc ((merge_compatible hab).2 ⟨hac, hbc⟩)
        exact (hbetween a ha b hb c hc).merge_apart.1 hapart
    rw [pair_of_compatible hab, Multiset.singleton_bind, remaining, remaining,
      if_congr hkept rfl rfl]
    split
    · rw [Multiset.singleton_bind, pair_of_compatible hab]
    · rw [Multiset.zero_bind]
  · rw [pair_of_not hab, Multiset.zero_bind, remaining]
    split
    · rw [Multiset.singleton_bind, pair_of_not hab]
    · rw [Multiset.zero_bind]

/-- What a solution was extended to passes a filter if the solution does. -/
theorem filter_bind_stable {f : Solution → Multiset Solution}
    (h : ∀ a ∈ A, ∀ x ∈ f a, (p x ↔ p a)) : (A.bind f).filter p = (A.filter p).bind f := by
  rw [Multiset.filter_bind, Multiset.bind_filter]
  apply Multiset.bind_congr
  intro a ha
  by_cases hpa : p a
  · rw [if_pos hpa, Multiset.filter_eq_self]
    exact fun x hx => (h a ha x hx).2 hpa
  · rw [if_neg hpa, Multiset.filter_eq_nil]
    exact fun x hx hpx => hpa ((h a ha x hx).1 hpx)

end Solutions

end RdfQuery
