-- Members placed one after the other, each at the first multiple of its alignment. The whole has
-- the largest alignment of its members, and a size that is a multiple of it.
import Mathlib.Tactic.Common

namespace motioncore.placement

/-! ## Multiples -/

/-- The first multiple of `a` from `n` on. -/
def roundUp (n a : Nat) : Nat := (n + a - 1) / a * a

theorem dvd_roundUp (n a : Nat) : a ∣ roundUp n a := Nat.dvd_mul_left _ _

variable {a : Nat}

theorem le_roundUp (n : Nat) (ha : 0 < a) : n ≤ roundUp n a := by
  have hdiv := Nat.div_add_mod (n + a - 1) a
  have hmod := Nat.mod_lt (n + a - 1) ha
  have hcomm : (n + a - 1) / a * a = a * ((n + a - 1) / a) := Nat.mul_comm _ _
  unfold roundUp
  omega

theorem roundUp_lt (n : Nat) (ha : 0 < a) : roundUp n a < n + a := by
  have hle := Nat.div_mul_le_self (n + a - 1) a
  unfold roundUp
  omega

/-- No multiple lies between the number and the first one. -/
theorem roundUp_le {n q : Nat} (ha : 0 < a) (hn : n ≤ q) (hq : a ∣ q) : roundUp n a ≤ q := by
  obtain ⟨k, rfl⟩ := hq
  obtain ⟨j, hj⟩ := dvd_roundUp n a
  have hlt := roundUp_lt n ha
  rw [hj] at hlt ⊢
  apply Nat.mul_le_mul_left
  by_contra hk
  have hstep : a * (k + 1) ≤ a * j := Nat.mul_le_mul_left a (by omega)
  rw [Nat.mul_add] at hstep
  omega

/-- The first multiple, by what is missing to it. -/
theorem add_padding (n : Nat) (ha : 0 < a) : n + (a - n % a) % a = roundUp n a := by
  have hmod := Nat.mod_lt n ha
  have hdvd : a ∣ n + (a - n % a) % a := by
    by_cases hz : n % a = 0
    · rw [hz, Nat.sub_zero, Nat.mod_self, Nat.add_zero]
      exact Nat.dvd_of_mod_eq_zero hz
    · rw [Nat.mod_eq_of_lt (by omega : a - n % a < a)]
      apply Nat.dvd_of_mod_eq_zero
      have hsum : n + (a - n % a) = n / a * a + a := by
        have hdiv := Nat.div_add_mod' n a
        omega
      rw [hsum, Nat.add_mod_right, Nat.mul_mod_left]
  apply Nat.le_antisymm
  · obtain ⟨j, hj⟩ := dvd_roundUp n a
    obtain ⟨k, hk⟩ := hdvd
    have hle := le_roundUp n ha
    have hpad := Nat.mod_lt (a - n % a) ha
    rw [hj] at hle ⊢
    rw [hk]
    apply Nat.mul_le_mul_left
    by_contra hlt
    have hstep : a * (j + 1) ≤ a * k := Nat.mul_le_mul_left a (by omega)
    rw [Nat.mul_add] at hstep
    omega
  · exact roundUp_le ha (Nat.le_add_right _ _) hdvd

/-! ## Members -/

structure Member where
  size : Nat
  align : Nat
deriving DecidableEq, Repr

def place : Nat → List Member → List Nat
  | _, [] => []
  | n, m :: ms => roundUp n m.align :: place (roundUp n m.align + m.size) ms

def endOf : Nat → List Member → Nat
  | n, [] => n
  | n, m :: ms => endOf (roundUp n m.align + m.size) ms

def maxAlign : List Member → Nat
  | [] => 1
  | m :: ms => max m.align (maxAlign ms)

def whole (ms : List Member) : Member := ⟨roundUp (endOf 0 ms) (maxAlign ms), maxAlign ms⟩

variable {ms : List Member} {m : Member} {n : Nat}

theorem place_append (n : Nat) (ms : List Member) (m : Member) :
    place n (ms ++ [m]) = place n ms ++ [roundUp (endOf n ms) m.align] := by
  induction ms generalizing n with
  | nil => rfl
  | cons m' ms ih => simp only [List.cons_append, place, endOf, ih]

theorem endOf_append (n : Nat) (ms : List Member) (m : Member) :
    endOf n (ms ++ [m]) = roundUp (endOf n ms) m.align + m.size := by
  induction ms generalizing n with
  | nil => rfl
  | cons m' ms ih => simp only [List.cons_append, endOf, ih]

theorem maxAlign_append (ms : List Member) (m : Member) :
    maxAlign (ms ++ [m]) = max (maxAlign ms) m.align := by
  induction ms with
  | nil => simp [maxAlign, Nat.max_comm]
  | cons m' ms ih => simp only [List.cons_append, maxAlign, ih, Nat.max_assoc]

theorem maxAlign_pos (ms : List Member) : 0 < maxAlign ms := by
  induction ms with
  | nil => exact Nat.one_pos
  | cons m ms ih =>
    rw [maxAlign]
    omega

variable {i offset : Nat}

end motioncore.placement
