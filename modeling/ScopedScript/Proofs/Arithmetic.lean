/-
**Arithmetic of 64-bit integers.**

Operators work on integers of 64 bits as on all integers, up to multiples of 2^64. Only the quotient of
the least integer by -1 does not fit, and there the wrapped quotient still goes with the remainder:

* `Wraps`: an integer of 64 bits is the one that an exact result wraps to, `wraps_ofInt` that there is one;
* `quotient_mul_add_remainder`: division undone by multiplication and addition, wrapped as they are;
* `toInt_quotient`, `natAbs_remainder_lt`, `sign_remainder`: quotient and remainder as exact integers;
* `BinaryOp.arithmetic_laws`: **sums, differences, products and opposites are exact modulo 2^64, and
  division by anything but zero gives the quotient towards zero and the remainder that goes with it.**
-/

import Mathlib.Data.Int.ModEq
import ScopedScript.Value.Operation

namespace ScopedScript

variable {a b : Int64}

/-! ### Exact results and wrapped ones -/

/-- The integer of 64 bits that an exact result wraps to: it is congruent to the exact result modulo
2^64, and no other one is. -/
def Wraps (exact : Int) (result : Int64) : Prop :=
  ∀ other : Int64, other.toInt ≡ exact [ZMOD 2 ^ 64] ↔ other = result

theorem wraps_ofInt (exact : Int) : Wraps exact (Int64.ofInt exact) := by
  intro other
  rw [Int.modEq_comm, Int.modEq_iff_dvd, eq_comm (a := other), Int64.ofInt_eq_iff_bmod_eq_toInt]
  constructor
  · rintro ⟨count, apart⟩
    have moved : exact = other.toInt - (2 ^ 64 : Nat) * count := by
      rw [← Int.sub_sub_self other.toInt exact, apart, Nat.cast_pow, Nat.cast_ofNat]
    rw [moved, Int.sub_mul_bmod_self_left]
    exact Int64.toInt_bmod other
  · intro wrapped
    rw [← wrapped]
    exact Int.dvd_bmod_sub_self

theorem wraps_add (a b : Int64) : Wraps (a.toInt + b.toInt) (a + b) := by
  have wrapped := wraps_ofInt (a.toInt + b.toInt)
  rwa [Int64.ofInt_add, Int64.ofInt_toInt, Int64.ofInt_toInt] at wrapped

theorem wraps_sub (a b : Int64) : Wraps (a.toInt - b.toInt) (a - b) := by
  have wrapped := wraps_ofInt (a.toInt - b.toInt)
  rwa [Int64.ofInt_sub, Int64.ofInt_toInt, Int64.ofInt_toInt] at wrapped

theorem wraps_mul (a b : Int64) : Wraps (a.toInt * b.toInt) (a * b) := by
  have wrapped := wraps_ofInt (a.toInt * b.toInt)
  rwa [Int64.ofInt_mul, Int64.ofInt_toInt, Int64.ofInt_toInt] at wrapped

theorem wraps_neg (a : Int64) : Wraps (-a.toInt) (-a) := by
  have wrapped := wraps_ofInt (-a.toInt)
  rwa [Int64.ofInt_neg, Int64.ofInt_toInt] at wrapped

/-! ### Division -/

/-- The quotient is the exact one towards zero, wrapped. -/
theorem quotient_eq_ofInt (a b : Int64) : a / b = Int64.ofInt (a.toInt.tdiv b.toInt) := by
  apply Int64.toInt_inj.mp
  rw [Int64.toInt_div, Int64.toInt_ofInt]

theorem remainder_eq_ofInt (a b : Int64) : a % b = Int64.ofInt (a.toInt.tmod b.toInt) := by
  rw [← Int64.toInt_mod, Int64.ofInt_toInt]

/-- **Division is undone** by multiplication and addition, even where the quotient does not fit. -/
theorem quotient_mul_add_remainder (a b : Int64) : a / b * b + a % b = a := by
  calc a / b * b + a % b
      = Int64.ofInt (a.toInt.tdiv b.toInt * b.toInt + a.toInt.tmod b.toInt) := by
        rw [Int64.ofInt_add, Int64.ofInt_mul, ← quotient_eq_ofInt, ← remainder_eq_ofInt,
          Int64.ofInt_toInt]
    _ = Int64.ofInt a.toInt := by rw [Int.tdiv_mul_add_tmod]
    _ = a := Int64.ofInt_toInt a

/-- The quotient towards zero fits, but for the least integer divided by -1. -/
theorem toInt_quotient (fits : ¬ (a = Int64.minValue ∧ b = -1)) :
    (a / b).toInt = a.toInt.tdiv b.toInt := by
  rcases Decidable.not_and_iff_not_or_not.mp fits with other | other
  · exact Int64.toInt_div_of_ne_left a b other
  · exact Int64.toInt_div_of_ne_right a b other

theorem natAbs_remainder_lt (nonzero : b ≠ 0) : (a % b).toInt.natAbs < b.toInt.natAbs := by
  have positive : 0 < b.toInt.natAbs := by
    rw [Int.natAbs_pos]
    exact fun zero => nonzero (Int64.toInt_inj.mp zero)
  rw [Int64.toInt_mod, Int.natAbs_tmod]
  exact Nat.mod_lt _ positive

/-- A remainder is zero or has the sign of what was divided. -/
theorem sign_remainder (a b : Int64) : a % b = 0 ∨ (a % b).toInt.sign = a.toInt.sign := by
  have sign := Int.sign_tmod a.toInt b.toInt
  rw [← Int64.toInt_mod] at sign
  split at sign
  · exact .inl (Int64.toInt_inj.mp (Int.sign_eq_zero_iff_zero.mp sign))
  · exact .inr sign

/-! ### The operators -/

/-- **Arithmetic on integers of 64 bits.** Sums, differences, products and opposites are exact modulo
2^64. Division and remainder fail exactly for a divisor of zero; otherwise the quotient times the divisor
plus the remainder gives back what was divided, by the operators themselves, the remainder is nearer to
zero than the divisor and not of the other sign than what was divided, and the quotient is the exact one
towards zero, unless that does not fit. -/
theorem BinaryOp.arithmetic_laws (heap : Heap) (a b : Int64) :
    (∃ sum, BinaryOp.add.apply heap (.int a) (.int b) = .ok (.int sum) ∧
      Wraps (a.toInt + b.toInt) sum) ∧
    (∃ difference, BinaryOp.sub.apply heap (.int a) (.int b) = .ok (.int difference) ∧
      Wraps (a.toInt - b.toInt) difference) ∧
    (∃ product, BinaryOp.mul.apply heap (.int a) (.int b) = .ok (.int product) ∧
      Wraps (a.toInt * b.toInt) product) ∧
    (∃ opposite, UnaryOp.neg.apply (.int a) = .ok (.int opposite) ∧ Wraps (-a.toInt) opposite) ∧
    (b = 0 → BinaryOp.div.apply heap (.int a) (.int b) = .error .divideByZero ∧
      BinaryOp.mod.apply heap (.int a) (.int b) = .error .moduloByZero) ∧
    (b ≠ 0 → ∃ quotient remainder product,
      BinaryOp.div.apply heap (.int a) (.int b) = .ok (.int quotient) ∧
      BinaryOp.mod.apply heap (.int a) (.int b) = .ok (.int remainder) ∧
      BinaryOp.mul.apply heap (.int quotient) (.int b) = .ok (.int product) ∧
      BinaryOp.add.apply heap (.int product) (.int remainder) = .ok (.int a) ∧
      remainder.toInt.natAbs < b.toInt.natAbs ∧
      (remainder = 0 ∨ remainder.toInt.sign = a.toInt.sign) ∧
      if a = Int64.minValue ∧ b = -1 then quotient = Int64.minValue ∧ remainder = 0
      else quotient.toInt = a.toInt.tdiv b.toInt) := by
  refine ⟨⟨a + b, rfl, wraps_add a b⟩, ⟨a - b, rfl, wraps_sub a b⟩, ⟨a * b, rfl, wraps_mul a b⟩,
    ⟨-a, rfl, wraps_neg a⟩, ?_, fun nonzero => ?_⟩
  · rintro rfl
    exact ⟨rfl, rfl⟩
  · have divides : BinaryOp.div.arithmetic a b = .ok (a / b) := if_neg nonzero
    have leaves : BinaryOp.mod.arithmetic a b = .ok (a % b) := if_neg nonzero
    refine ⟨a / b, a % b, a / b * b, congrArg (Except.map Value.int) divides,
      congrArg (Except.map Value.int) leaves, rfl, ?_, natAbs_remainder_lt nonzero,
      sign_remainder a b, ?_⟩
    · exact congrArg (fun whole => Except.ok (Value.int whole)) (quotient_mul_add_remainder a b)
    · split
      · rename_i limits
        obtain ⟨rfl, rfl⟩ := limits
        exact ⟨Int64.minValue_div_neg_one, by decide⟩
      · rename_i fits
        exact toInt_quotient fits

/-- The only quotient that does not fit: it wraps to the least integer, and so does its product with
the divisor. -/
theorem BinaryOp.arithmetic_laws_least : (-1 : Int64) ≠ 0 ∧ ∃ quotient remainder product,
    BinaryOp.div.apply .empty (.int Int64.minValue) (.int (-1)) = .ok (.int quotient) ∧
    BinaryOp.mod.apply .empty (.int Int64.minValue) (.int (-1)) = .ok (.int remainder) ∧
    BinaryOp.mul.apply .empty (.int quotient) (.int (-1)) = .ok (.int product) ∧
    BinaryOp.add.apply .empty (.int product) (.int remainder) = .ok (.int Int64.minValue) ∧
    quotient = Int64.minValue ∧ remainder = 0 := by
  have nonzero : (-1 : Int64) ≠ 0 := by decide
  obtain ⟨-, -, -, -, -, division⟩ := BinaryOp.arithmetic_laws .empty Int64.minValue (-1)
  obtain ⟨quotient, remainder, product, divides, leaves, times, plus, -, -, limits⟩ :=
    division nonzero
  rw [if_pos ⟨rfl, rfl⟩] at limits
  exact ⟨nonzero, quotient, remainder, product, divides, leaves, times, plus, limits⟩

end ScopedScript
