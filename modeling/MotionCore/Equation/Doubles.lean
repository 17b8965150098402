-- Whole doubles: sums, products and quotients of the numbers of Lua, with their rounding to
-- 53 bits.
import MotionCore.Equation.Tokenizer
import Mathlib.Tactic.Linarith
import Mathlib.Tactic.Ring

namespace motioncore.equation

/-! ## Rounding -/

/-- The double that is nearest to a whole number. -/
def double (a : Int) : Int := a.sign * double_whole a.natAbs 1

/-- `math.floor(a / b)` of whole numbers below 2^53: the quotient is rounded to a double of 53
bits, and the double is rounded down. -/
def floor_div (a b : Int) : Int :=
  let whole := a.natAbs / b.natAbs
  let bits := if whole = 0 then 0 else whole.log2 + 1
  a.sign * b.sign * roundDiv (a.natAbs * 2 ^ (53 - bits)) b.natAbs / 2 ^ (53 - bits)

theorem roundDiv_one (a : Nat) : roundDiv a 1 = a := by
  simp [roundDiv, Nat.mod_one]

/-- A whole number of at most 53 bits is a double. -/
theorem double_whole_exact {a : Nat} (h : a < 2 ^ 53) : double_whole a 1 = a := by
  have hbits : (if a = 0 then 0 else a.log2 + 1) ≤ 53 := by
    split
    · omega
    · next hne =>
      have hlog := (Nat.log2_lt hne).mpr h
      omega
  simp only [double_whole, Nat.div_one]
  rw [if_pos hbits, roundDiv_one, Nat.mul_div_cancel _ (Nat.two_pow_pos _)]

/-- Rounding does not bring a number below 2^53. -/
theorem double_whole_large {a : Nat} (h : 2 ^ 53 ≤ a) : 2 ^ 53 ≤ double_whole a 1 := by
  have hne : a ≠ 0 := by omega
  have hlog : 53 ≤ a.log2 := (Nat.le_log2 hne).mpr h
  simp only [double_whole, Nat.div_one, if_neg hne, Nat.one_mul]
  rw [if_neg (by omega)]
  have hself : 2 ^ a.log2 ≤ a := Nat.log2_self_le hne
  have hround : a / 2 ^ (a.log2 + 1 - 53) ≤ roundDiv a (2 ^ (a.log2 + 1 - 53)) := by
    unfold roundDiv
    split
    · exact Nat.le_refl _
    · split <;> omega
  have hquotient : 2 ^ 52 ≤ a / 2 ^ (a.log2 + 1 - 53) := by
    rw [Nat.le_div_iff_mul_le (Nat.two_pow_pos _), ← Nat.pow_add]
    exact Nat.le_trans (Nat.pow_le_pow_right (by omega) (by omega)) hself
  calc 2 ^ 53 = 2 ^ 52 * 2 ^ 1 := by rfl
    _ ≤ 2 ^ 52 * 2 ^ (a.log2 + 1 - 53) :=
      Nat.mul_le_mul_left _ (Nat.pow_le_pow_right (by omega) (by omega))
    _ ≤ roundDiv a (2 ^ (a.log2 + 1 - 53)) * 2 ^ (a.log2 + 1 - 53) :=
      Nat.mul_le_mul_right _ (Nat.le_trans hquotient hround)

variable {a : Int}

theorem double_exact (h : a.natAbs < 2 ^ 53) : double a = a := by
  rw [double, double_whole_exact h, Int.sign_mul_natAbs]

theorem double_large (h : 2 ^ 53 ≤ a.natAbs) : 2 ^ 53 ≤ (double a).natAbs := by
  have hne : a ≠ 0 := by
    rintro rfl
    exact absurd h (by decide)
  rw [double, Int.natAbs_mul, Int.natAbs_sign_of_ne_zero hne, Nat.one_mul]
  exact double_whole_large h

/-! ## Quotients -/

/-- The rounded quotient is off by at most a half. -/
theorem roundDiv_near (a : Nat) {b : Nat} (hb : 0 < b) :
    2 * (roundDiv a b * b) ≤ 2 * a + b ∧ 2 * a ≤ 2 * (roundDiv a b * b) + b := by
  have hdiv := Nat.div_add_mod a b
  have hmod := Nat.mod_lt a hb
  rw [Nat.mul_comm] at hdiv
  unfold roundDiv
  split
  · omega
  · split
    · rw [Nat.add_mul]
      omega
    · have hparity := Nat.mod_two_eq_zero_or_one (a / b)
      rcases hparity with hparity | hparity <;> rw [hparity, Nat.add_mul] <;> omega

variable {b : Int}

/-- A fine enough approximation has the same floor. -/
theorem floor_of_near {x q k : Int} (hb : 0 < b) (hbk : b ≤ k)
    (hupper : 2 * (q * b) ≤ 2 * (x * k) + b) (hlower : 2 * (x * k) ≤ 2 * (q * b) + b) :
    q / k = x / b := by
  have hk : 0 < k := Int.lt_of_lt_of_le hb hbk
  have hfloor : x / b * b ≤ x := Int.ediv_mul_le x (Int.ne_of_gt hb)
  have hceil : x + 1 ≤ (x / b + 1) * b := Int.lt_ediv_add_one_mul_self x hb
  apply Int.le_antisymm
  · apply Int.lt_add_one_iff.mp
    apply Int.ediv_lt_of_lt_mul hk
    -- the number is at least one step of 1 / b below the next whole number
    have hstep : (x + 1) * k ≤ (x / b + 1) * b * k := Int.mul_le_mul_of_nonneg_right hceil hk.le
    have hlt : q * b < (x / b + 1) * k * b := by linarith [Int.mul_right_comm (x / b + 1) b k]
    exact Int.lt_of_mul_lt_mul_right hlt hb.le
  · apply Int.le_ediv_of_mul_le hk
    have hstep : x / b * b * k ≤ x * k := Int.mul_le_mul_of_nonneg_right hfloor hk.le
    have hle : 2 * (x / b * k) * b ≤ (2 * q + 1) * b := by linarith [Int.mul_right_comm (x / b) b k]
    have hhalf := Int.le_of_mul_le_mul_right hle hb
    omega

/-- The floor of a quotient, with both signs in the numerator. -/
theorem fdiv_signs (a : Int) (hne : b ≠ 0) : a.fdiv b = a.sign * b.sign * a.natAbs / b.natAbs := by
  have hself : a.sign * a.natAbs = a := Int.sign_mul_natAbs a
  rcases Int.lt_or_gt_of_ne hne with hneg | hpos
  · have habs : ((-b).natAbs : Int) = -b := Int.natAbs_of_nonneg (by omega)
    rw [← Int.neg_fdiv_neg, Int.fdiv_eq_ediv_of_nonneg _ (by omega), Int.sign_eq_neg_one_of_neg hneg,
      ← Int.natAbs_neg b, habs]
    congr 1
    calc -a = -(a.sign * a.natAbs) := by rw [hself]
      _ = a.sign * -1 * a.natAbs := by ring
  · rw [Int.fdiv_eq_ediv_of_nonneg _ hpos.le, Int.sign_eq_one_of_pos hpos, Int.mul_one, hself,
      Int.natAbs_of_nonneg hpos.le]

/-- The divisor is no more than the steps that a double has for the quotient. -/
theorem divisor_le_steps {a b : Nat} (ha : a ≤ 2 ^ 52) (hb : b ≤ 2 ^ 52) :
    b ≤ 2 ^ (53 - if a / b = 0 then 0 else (a / b).log2 + 1) := by
  split
  · omega
  · next hwhole =>
    have hself : 2 ^ (a / b).log2 ≤ a / b := Nat.log2_self_le hwhole
    have hlog : (a / b).log2 ≤ 52 := by
      have hle : a / b ≤ 2 ^ 52 := Nat.le_trans (Nat.div_le_self a b) ha
      have hlt := (Nat.log2_lt (k := 53) hwhole).mpr (by omega)
      omega
    have hproduct : b * 2 ^ (a / b).log2 ≤ 2 ^ (53 - ((a / b).log2 + 1)) * 2 ^ (a / b).log2 :=
      calc b * 2 ^ (a / b).log2 ≤ b * (a / b) := Nat.mul_le_mul_left b hself
        _ ≤ a := Nat.mul_div_le a b
        _ ≤ 2 ^ 52 := ha
        _ = 2 ^ (53 - ((a / b).log2 + 1)) * 2 ^ (a / b).log2 := by
          rw [← Nat.pow_add]
          congr 1
          omega
    exact Nat.le_of_mul_le_mul_right hproduct (Nat.two_pow_pos _)

/-- Up to 2^52 the quotient of doubles has the floor of the quotient. -/
theorem floor_div_eq (ha : a.natAbs ≤ 2 ^ 52) (hb : b.natAbs ≤ 2 ^ 52) (hne : b ≠ 0) :
    floor_div a b = a.fdiv b := by
  have hpos : 0 < b.natAbs := Int.natAbs_pos.mpr hne
  have hsteps := divisor_le_steps ha hb
  rw [fdiv_signs a hne]
  unfold floor_div
  dsimp only
  generalize 53 - (if a.natAbs / b.natAbs = 0 then 0 else (a.natAbs / b.natAbs).log2 + 1) = n at *
  obtain ⟨hupper, hlower⟩ := roundDiv_near (a.natAbs * 2 ^ n) hpos
  generalize roundDiv (a.natAbs * 2 ^ n) b.natAbs = q at *
  have hupper' : (2 * (q * b.natAbs) : Int) ≤ 2 * (a.natAbs * 2 ^ n) + b.natAbs := by
    exact_mod_cast hupper
  have hlower' : (2 * (a.natAbs * 2 ^ n) : Int) ≤ 2 * (q * b.natAbs) + b.natAbs := by
    exact_mod_cast hlower
  have hsign : a.sign * b.sign = 0 ∨ a.sign * b.sign = 1 ∨ a.sign * b.sign = -1 := by
    rcases Int.sign_trichotomy a with h | h | h <;> rcases Int.sign_trichotomy b with h' | h' | h' <;>
      simp [h, h']
  apply floor_of_near (by exact_mod_cast hpos) (by exact_mod_cast hsteps)
  · rcases hsign with h | h | h <;> rw [h] <;> linarith
  · rcases hsign with h | h | h <;> rw [h] <;> linarith

theorem fmod_small (a : Int) (hne : b ≠ 0) : (a.fmod b).natAbs < b.natAbs := by
  rcases Int.lt_or_gt_of_ne hne with hneg | hpos
  · have hnonneg := Int.fmod_nonneg_of_pos (-a) (b := -b) (by omega)
    have hlt := Int.fmod_lt_of_pos (-a) (b := -b) (by omega)
    rw [Int.neg_fmod_neg] at hnonneg hlt
    omega
  · have hnonneg := Int.fmod_nonneg_of_pos a hpos
    have hlt := Int.fmod_lt_of_pos a hpos
    omega

/-- `a % b` of Lua, which is `a - math.floor(a / b) * b`, loses no bits up to 2^52. -/
theorem floor_remainder (ha : a.natAbs ≤ 2 ^ 52) (hb : b.natAbs ≤ 2 ^ 52) (hne : b ≠ 0) :
    double (a - double (floor_div a b * b)) = a.fmod b := by
  have hsmall := fmod_small a hne
  have hproduct : double (a.fdiv b * b) = a - a.fmod b := by
    rw [Int.fdiv_mul_self]
    apply double_exact
    omega
  rw [floor_div_eq ha hb hne, hproduct, Int.sub_sub_self]
  apply double_exact
  omega

end motioncore.equation
