-- A loop whose test moves a counter on and asks whether it is still within a limit. The
-- counter has a range, and it starts over below when it passes the end. The loop makes
-- limit / step rounds exactly when the counter passes the limit before the end of its range.
import Mathlib.Tactic.Linarith
import Mathlib.Tactic.Ring

namespace motioncore.countedloop

variable {V : Type}

/-- From the value that the first test sees, the test is met `k` times, and then it fails. -/
def LeavesAfter (next : V → V) (ok : V → Bool) : Nat → V → Prop
  | 0, v => ok v = false
  | k + 1, v => ok v = true ∧ LeavesAfter next ok k (next v)

/-- A counter may be looked at in another type, on the values that it can have. -/
theorem leaves_map {W : Type} {P : V → Prop} {next : V → V} {ok : V → Bool} {next' : W → W}
    {ok' : W → Bool} (f : V → W) (hP : ∀ v, P v → P (next v))
    (hnext : ∀ v, P v → f (next v) = next' (f v)) (hok : ∀ v, ok v = ok' (f v)) {k : Nat} {v : V}
    (hv : P v) : LeavesAfter next ok k v ↔ LeavesAfter next' ok' k (f v) := by
  induction k generalizing v with
  | zero => rw [LeavesAfter, LeavesAfter, hok]
  | succ k ih => rw [LeavesAfter, LeavesAfter, hok, ih (hP v hv), hnext v hv]

/-! ## Counters with a range -/

/-- A counter with the values from `lo` up to `lo + size` is moved on. -/
def advance (lo size step v : Int) : Int :=
  if v + step < lo + size then v + step else v + step - size

def within (limit v : Int) : Bool := decide (v ≤ limit)

/-- From the value of the first test on, the limit is passed in `k` steps, and the last of them
is in the range. -/
structure PassesLimit (stop step limit first : Int) (k : Nat) : Prop where
  before : k ≠ 0 → first + (k - 1) * step ≤ limit
  past : limit < first + k * step
  inside : first + k * step < stop

section

variable {lo size step limit v : Int}

theorem advance_of_lt (h : v + step < lo + size) : advance lo size step v = v + step := if_pos h

theorem advance_of_le (h : lo + size ≤ v + step) : advance lo size step v = v + step - size :=
  if_neg (Int.not_lt.mpr h)

/-- The counter stays in its range. -/
theorem advance_mem (hstep : 0 < step) (hsize : step ≤ size) (hlo : lo ≤ v) (hv : v < lo + size) :
    lo ≤ advance lo size step v ∧ advance lo size step v < lo + size := by
  unfold advance
  split <;> omega

variable {k : Nat} {first : Int}

theorem leaves_of_passes (hstep : 0 < step) (h : PassesLimit (lo + size) step limit first k) :
    LeavesAfter (advance lo size step) (within limit) k first := by
  induction k generalizing first with
  | zero =>
    have hpast := h.past
    simp only [Nat.cast_zero, Int.zero_mul, Int.add_zero] at hpast
    simp only [LeavesAfter, within, decide_eq_false_iff_not]
    omega
  | succ k ih =>
    have hbefore := h.before (Nat.succ_ne_zero k)
    have hpast := h.past
    have hinside := h.inside
    have hk : ((k : Int) + 1) * step = k * step + step := by ring
    have hpos : 0 ≤ (k : Int) * step := Int.mul_nonneg (Int.natCast_nonneg k) hstep.le
    push_cast at hbefore hpast hinside
    rw [hk] at hpast hinside
    rw [Int.add_sub_cancel] at hbefore
    have hnext : advance lo size step first = first + step := advance_of_lt (by omega)
    refine ⟨decide_eq_true (by omega), ih ?_⟩
    rw [hnext]
    refine ⟨fun _ => ?_, by omega, by omega⟩
    have hpred : ((k : Int) - 1) * step = k * step - step := by ring
    rw [hpred]
    omega

/-- A counter that starts over has more than enough room for the rounds that are left. -/
theorem passes_of_leaves (hlo : lo ≤ 0) (hstep : 0 < step) (hsize : step ≤ size)
    (hk : k * step ≤ limit) (hfirst : lo ≤ first ∧ first < lo + size)
    (h : LeavesAfter (advance lo size step) (within limit) k first) :
    PassesLimit (lo + size) step limit first k := by
  induction k generalizing first with
  | zero =>
    simp only [LeavesAfter, within, decide_eq_false_iff_not] at h
    refine ⟨fun hne => absurd rfl hne, ?_, ?_⟩
    · simp only [Nat.cast_zero, Int.zero_mul, Int.add_zero]
      omega
    · simp only [Nat.cast_zero, Int.zero_mul, Int.add_zero]
      exact hfirst.2
  | succ k ih =>
    obtain ⟨hmet, hrest⟩ := h
    have hk' : ((k : Int) + 1) * step = k * step + step := by ring
    push_cast at hk
    rw [hk'] at hk
    have hpasses := ih (by omega) (advance_mem hstep hsize hfirst.1 hfirst.2) hrest
    have hpast := hpasses.past
    have hinside := hpasses.inside
    simp only [within, decide_eq_true_eq] at hmet
    by_cases hlt : first + step < lo + size
    · rw [advance_of_lt hlt] at hpasses hpast hinside
      refine ⟨fun _ => ?_, ?_, ?_⟩
      · push_cast
        rw [Int.add_sub_cancel]
        cases k with
        | zero =>
          simp only [Nat.cast_zero, Int.zero_mul, Int.add_zero]
          exact hmet
        | succ k =>
          have hbefore := hpasses.before (Nat.succ_ne_zero k)
          push_cast at hbefore ⊢
          rw [Int.add_sub_cancel] at hbefore
          linarith
      · push_cast
        rw [hk']
        omega
      · push_cast
        rw [hk']
        omega
    · -- the counter has started over, below a single step
      rw [advance_of_le (by omega)] at hpast
      omega

/-- When the limit has room for `k` rounds, the loop leaves after them exactly when the counter
passes the limit then. -/
theorem leaves_iff (hlo : lo ≤ 0) (hstep : 0 < step) (hsize : step ≤ size) (hk : k * step ≤ limit)
    (hfirst : lo ≤ first ∧ first < lo + size) :
    LeavesAfter (advance lo size step) (within limit) k first ↔
      PassesLimit (lo + size) step limit first k :=
  ⟨passes_of_leaves hlo hstep hsize hk hfirst, leaves_of_passes hstep⟩

end

end motioncore.countedloop
