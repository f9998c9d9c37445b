/-!
# Rounding a quotient to a whole number

Main statement: the result is within half a unit of the quotient.
-/

namespace LogicCoverage.Decimal

/-- The whole number nearest to `num / den`; of two equally near ones, the even one. -/
def roundHalfEven (num den : Nat) : Nat :=
  let q := num / den
  let r := num % den
  if 2 * r < den then q
  else if 2 * r = den then (if q % 2 = 0 then q else q + 1)
  else q + 1

theorem roundHalfEven_near (num : Nat) {den : Nat} (h : 0 < den) :
    2 * num ≤ 2 * roundHalfEven num den * den + den ∧
      2 * roundHalfEven num den * den ≤ 2 * num + den := by
  have hd := Nat.div_add_mod num den
  have hm := Nat.mod_lt num h
  generalize hq : num / den = q at hd
  generalize hr : num % den = r at hd hm
  have e : 2 * (q + 1) * den = 2 * (den * q) + 2 * den := by
    rw [Nat.mul_add, Nat.add_mul, Nat.mul_assoc, Nat.mul_comm q den]
  have e' : 2 * q * den = 2 * (den * q) := by rw [Nat.mul_assoc, Nat.mul_comm q den]
  have key : roundHalfEven num den = q ∧ 2 * r ≤ den ∨ roundHalfEven num den = q + 1 ∧ den ≤ 2 * r := by
    simp only [roundHalfEven, hq, hr]
    split
    · left; omega
    · split
      · split
        · left; omega
        · right; omega
      · right; omega
  rcases key with ⟨k, hk⟩ | ⟨k, hk⟩ <;> rw [k] <;> omega

end LogicCoverage.Decimal
