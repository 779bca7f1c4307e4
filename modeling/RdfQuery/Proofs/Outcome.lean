/-!
# Results of computations that can fail

When a sequence of two steps has a result: both steps had one. Otherwise it
fails with the error of the first step that failed.
-/

set_option autoImplicit false

namespace RdfQuery.Outcome

variable {ε α β : Type}

theorem bind_eq_ok {x : Except ε α} {f : α → Except ε β} {b : β} :
    x >>= f = .ok b ↔ ∃ a, x = .ok a ∧ f a = .ok b := by
  cases x with
  | error e =>
    constructor
    · intro h
      cases h
    · rintro ⟨_, h, _⟩
      cases h
  | ok a =>
    constructor
    · intro h
      exact ⟨a, rfl, h⟩
    · rintro ⟨_, h, hf⟩
      cases h
      exact hf

theorem map_eq_ok {x : Except ε α} {f : α → β} {b : β} :
    f <$> x = .ok b ↔ ∃ a, x = .ok a ∧ f a = b := by
  cases x with
  | error e =>
    constructor
    · intro h
      cases h
    · rintro ⟨_, h, _⟩
      cases h
  | ok a =>
    constructor
    · intro h
      exact ⟨a, rfl, Except.ok.inj h⟩
    · rintro ⟨_, h, hf⟩
      cases h
      exact congrArg _ hf

theorem toOption_eq_some {x : Except ε α} {a : α} : x.toOption = some a ↔ x = .ok a := by
  cases x with
  | error e =>
    constructor
    · intro h
      cases h
    · intro h
      cases h
  | ok b =>
    constructor
    · intro h
      exact congrArg _ (Option.some.inj h)
    · intro h
      exact congrArg _ (Except.ok.inj h)

/-! ## Errors -/

def error? : Except ε α → Option ε
  | .error e => some e
  | .ok _ => none

theorem error?_eq_some {x : Except ε α} {e : ε} : error? x = some e ↔ x = .error e := by
  cases x with
  | error e' =>
    constructor
    · intro h
      exact congrArg _ (Option.some.inj h)
    · intro h
      exact congrArg _ (Except.error.inj h)
  | ok a => exact ⟨nofun, nofun⟩

theorem error?_eq_none {x : Except ε α} : error? x = none ↔ ∃ a, x = .ok a := by
  cases x with
  | error e => exact ⟨nofun, nofun⟩
  | ok a => exact ⟨fun _ => ⟨a, rfl⟩, fun _ => rfl⟩

/-- The error of a sequence whose second step fails alike on all results of the first. -/
theorem error?_bind {x : Except ε α} {f : α → Except ε β} {next : Option ε}
    (h : ∀ a, x = .ok a → error? (f a) = next) : error? (x >>= f) = (error? x).or next := by
  cases x with
  | error e => rfl
  | ok a => exact h a rfl

/-- A last step that cannot fail adds no error. -/
theorem error?_bind_ok (x : Except ε α) (f : α → β) :
    error? (x >>= fun a => .ok (f a)) = error? x := by
  cases x <;> rfl

/-- A last step that cannot fail has a result whenever there is something to make it from. -/
theorem bind_ok_isOk {x : Except ε α} {f : α → β} :
    (∃ b, (x >>= fun a => .ok (f a)) = .ok b) ↔ ∃ a, x = .ok a := by
  rw [← error?_eq_none, error?_bind_ok, error?_eq_none]

end RdfQuery.Outcome
