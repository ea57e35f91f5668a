/-!
# Rounding quotients

* `roundDiv`: the natural number nearest to a quotient; of two equally near ones, the even one.
* `le_roundDiv`, `roundDiv_le`: it is never more than half a unit away.
-/

namespace RunAudit.Decimal

/-- The natural number nearest to `num / den`; of two equally near ones, the even one. -/
def roundDiv (num den : Nat) : Nat :=
  let quotient := num / den
  let twice := 2 * (num % den)
  if den < twice ∨ (twice = den ∧ quotient % 2 = 1) then quotient + 1 else quotient

variable {num den : Nat}

/-- **The quotient is at most half a unit above the result.** -/
theorem le_roundDiv (h : 0 < den) : 2 * num ≤ 2 * (roundDiv num den * den) + den := by
  have hd := Nat.div_add_mod num den
  have hm := Nat.mod_lt num h
  rw [Nat.mul_comm] at hd
  simp only [roundDiv]
  split
  · rw [Nat.add_mul]; omega
  · omega

/-- **The result is at most half a unit above the quotient.** -/
theorem roundDiv_le : 2 * (roundDiv num den * den) ≤ 2 * num + den := by
  have hd := Nat.div_add_mod num den
  rw [Nat.mul_comm] at hd
  simp only [roundDiv]
  split
  · rw [Nat.add_mul]; omega
  · omega

end RunAudit.Decimal
