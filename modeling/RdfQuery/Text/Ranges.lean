/-!
# Ranges of code points

A class of characters as a list of closed ranges, ascending and apart. A look-up
ends at the first range that reaches as far as the code point.
-/

set_option autoImplicit false

namespace RdfQuery.Text

def within : List (Nat × Nat) → Nat → Bool
  | [], _ => false
  | (first, last) :: rest, n => if n ≤ last then first ≤ n else within rest n

/-- Each range ends before the next one begins. -/
def ascending : List (Nat × Nat) → Bool
  | [] => true
  | [range] => range.1 ≤ range.2
  | range :: next :: rest => range.1 ≤ range.2 && range.2 < next.1 && ascending (next :: rest)

theorem lt_of_ascending {range : Nat × Nat} {rest : List (Nat × Nat)}
    (h : ascending (range :: rest) = true) :
    ascending rest = true ∧ ∀ r ∈ rest, range.2 < r.1 := by
  induction rest generalizing range with
  | nil => simp [ascending]
  | cons next rest ih =>
    simp only [ascending, Bool.and_eq_true, decide_eq_true_eq] at h
    refine ⟨h.2, fun r hr => ?_⟩
    rcases List.mem_cons.1 hr with rfl | hr
    · exact h.1.2
    · have hn : next.1 ≤ next.2 := by
        cases rest with
        | nil => simpa [ascending] using h.2
        | cons => simp only [ascending, Bool.and_eq_true, decide_eq_true_eq] at h; exact h.2.1.1
      have := (ih h.2).2 r hr
      omega

/-- In an ascending list the early end of the look-up misses no range. -/
theorem within_iff {ranges : List (Nat × Nat)} (h : ascending ranges = true) (n : Nat) :
    within ranges n = true ↔ ∃ r ∈ ranges, r.1 ≤ n ∧ n ≤ r.2 := by
  induction ranges with
  | nil => simp [within]
  | cons range rest ih =>
    obtain ⟨hrest, hlt⟩ := lt_of_ascending h
    by_cases hn : n ≤ range.2
    · simp only [within, hn, if_true, decide_eq_true_eq, List.mem_cons, exists_eq_or_imp, and_true]
      refine ⟨Or.inl, ?_⟩
      rintro (h | ⟨r, hr, h, _⟩)
      · exact h
      · have := hlt r hr
        omega
    · simp only [within, hn, if_false, ih hrest, List.mem_cons, exists_eq_or_imp, and_false,
        false_or]

end RdfQuery.Text
