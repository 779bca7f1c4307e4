/-!
# Natural numbers rounded to doubles

The double nearest to a natural number is again a natural number, with at most
53 significant bits. It is given without regard to the range: `isInfinite` tells
whether it lies beyond the greatest double.
-/

set_option autoImplicit false

namespace RdfQuery.Decimal

/-- The multiple of `step` nearest to `n`; halfway between two of them the even multiple. -/
def nearestMultiple (n step : Nat) : Nat :=
  let below := n / step
  let excess := 2 * (n % step)
  if excess < step || (excess = step && below % 2 = 0) then below * step
  else (below + 1) * step

/-- The distance between neighbouring doubles about `n`, at least one. -/
def spacing (n : Nat) : Nat := Nat.pow 2 (n.log2 + 1 - 53)

def nearest (n : Nat) : Nat := nearestMultiple n (spacing n)

def isInfinite (n : Nat) : Bool := Nat.pow 2 1024 ≤ n

theorem nearestMultiple_one (n : Nat) : nearestMultiple n 1 = n := by
  simp [nearestMultiple, Nat.mod_one]

/-- Up to 53 bits nothing is rounded. -/
theorem nearest_eq_self {n : Nat} (h : n < Nat.pow 2 53) : nearest n = n := by
  have hlog : n.log2 + 1 - 53 = 0 := by
    by_cases hn : n = 0
    · subst hn; rfl
    · have := (Nat.log2_lt hn).2 h
      omega
  simp [nearest, spacing, hlog, nearestMultiple_one]

end RdfQuery.Decimal
