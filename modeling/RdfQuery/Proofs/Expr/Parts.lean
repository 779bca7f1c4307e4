import RdfQuery.Proofs.Words

/-!
# Parts of expressions

An expression is larger than its parts and has all their variables, so what
holds of an expression whenever it holds of its parts holds of all expressions.
-/

set_option autoImplicit false

namespace RdfQuery.Expr

/-- The expressions that an expression is directly made of. -/
def parts : Expr → List Expr
  | .var _ => []
  | .const _ => []
  | .bound _ => []
  | .not e => [e]
  | .function _ arg => [arg]
  | .relation _ left right => [left, right]
  | .operation _ left right => [left, right]
  | .regex arg pattern => [arg, pattern]
  | .regexWith arg pattern flags => [arg, pattern, flags]
  | .call _ args => args

/-! ## Size -/

mutual

def size : Expr → Nat
  | .var _ => 1
  | .const _ => 1
  | .bound _ => 2
  | .not e => 1 + size e
  | .function _ arg => 1 + size arg
  | .relation _ left right => 1 + (size left + size right)
  | .operation _ left right => 1 + (size left + size right)
  | .regex arg pattern => 1 + (size arg + size pattern)
  | .regexWith arg pattern flags => 1 + (size arg + (size pattern + size flags))
  | .call _ args => 1 + sizeAll args

def sizeAll : List Expr → Nat
  | [] => 0
  | e :: es => size e + sizeAll es

end

theorem size_pos (e : Expr) : 0 < e.size := by
  cases e <;> simp only [size] <;> omega

theorem length_le_sizeAll (es : List Expr) : es.length ≤ sizeAll es := by
  induction es with
  | nil => exact Nat.zero_le 0
  | cons e es ih =>
    have := size_pos e
    rw [List.length_cons, sizeAll]
    omega

theorem size_le_sizeAll {e : Expr} {es : List Expr} (h : e ∈ es) : e.size ≤ sizeAll es := by
  induction es with
  | nil => cases h
  | cons d es ih =>
    rw [sizeAll]
    rcases List.mem_cons.1 h with rfl | h
    · omega
    · have := ih h
      omega

theorem sizeAll_parts (e : Expr) : sizeAll e.parts < e.size := by
  cases e <;> simp [parts, size, sizeAll]

theorem size_part {d e : Expr} (h : d ∈ e.parts) : d.size < e.size :=
  Nat.lt_of_le_of_lt (size_le_sizeAll h) (sizeAll_parts e)

/-- Induction from the parts of an expression to the expression. -/
@[elab_as_elim]
theorem parts_induction {P : Expr → Prop} (e : Expr)
    (step : ∀ e : Expr, (∀ d ∈ e.parts, P d) → P e) : P e := by
  have hbounded : ∀ n, ∀ e : Expr, e.size ≤ n → P e := by
    intro n
    induction n with
    | zero =>
      intro e he
      have := size_pos e
      omega
    | succ n ih =>
      intro e he
      apply step
      intro d hd
      have := size_part hd
      exact ih d (by omega)
  exact hbounded e.size e (Nat.le_refl _)

/-! ## Walks and variables -/

theorem walk_eq (e : Expr) : e.walk = e :: walkAll e.parts := by
  cases e <;> simp [walk, walkAll, parts]

theorem walk_subset_walkAll {e : Expr} {es : List Expr} (h : e ∈ es) : e.walk ⊆ walkAll es := by
  induction es with
  | nil => cases h
  | cons d es ih =>
    intro x hx
    rw [walkAll, List.mem_append]
    rcases List.mem_cons.1 h with rfl | h
    · exact Or.inl hx
    · exact Or.inr (ih h hx)

theorem mem_walkAll {d : Expr} {es : List Expr} : d ∈ walkAll es ↔ ∃ e ∈ es, d ∈ e.walk := by
  constructor
  · intro h
    induction es with
    | nil => cases h
    | cons e es ih =>
      rw [walkAll, List.mem_append] at h
      rcases h with h | h
      · exact ⟨e, List.mem_cons_self, h⟩
      · obtain ⟨c, hc, hd⟩ := ih h
        exact ⟨c, List.mem_cons_of_mem _ hc, hd⟩
  · rintro ⟨e, he, hd⟩
    exact walk_subset_walkAll he hd

theorem walk_part {d e : Expr} (h : d ∈ e.parts) : d.walk ⊆ e.walk := by
  intro x hx
  rw [walk_eq e]
  exact List.mem_cons_of_mem _ (walk_subset_walkAll h hx)

theorem variables_part {d e : Expr} (h : d ∈ e.parts) : d.variables ⊆ e.variables := by
  intro v hv
  obtain ⟨x, hx, hvx⟩ := List.mem_flatMap.1 hv
  exact List.mem_flatMap.2 ⟨x, walk_part h hx, hvx⟩

theorem constants_part {d e : Expr} (h : d ∈ e.parts) : d.constants ⊆ e.constants := by
  intro c hc
  obtain ⟨x, hx, hcx⟩ := List.mem_filterMap.1 hc
  exact List.mem_filterMap.2 ⟨x, walk_part h hx, hcx⟩

theorem worded_part {d e : Expr} (he : e.Worded) (h : d ∈ e.parts) : d.Worded :=
  fun v hv => he v (variables_part h hv)

theorem isWord_var {v : Variable} (h : (Expr.var v).Worded) : Text.IsWord v.name :=
  h v (by simp [Expr.variables, walk, ownVariables])

theorem isWord_bound {v : Variable} (h : (Expr.bound v).Worded) : Text.IsWord v.name :=
  h v (by simp [Expr.variables, walk, ownVariables])

/-! ## IRIs -/

theorem iris_part {d e : Expr} (h : d ∈ e.parts) : d.iris ⊆ e.iris := by
  intro i hi
  obtain ⟨x, hx, hix⟩ := List.mem_flatMap.1 hi
  exact List.mem_flatMap.2 ⟨x, walk_part h hx, hix⟩

theorem ownIris_subset_iris (e : Expr) : e.ownIris ⊆ e.iris := by
  intro i hi
  rw [iris, walk_eq, List.flatMap_cons]
  exact List.mem_append_left _ hi

end RdfQuery.Expr
