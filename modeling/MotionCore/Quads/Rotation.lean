-- The rotation of the top of the parameter stack (s_engine_stack.c). The cells are moved one place
-- at a time, up or down, whichever takes fewer turns.
import MotionCore.Quads.Machine

namespace motioncore.quads.Stack

variable {w : Nat} {α : Type}

/-- `stack_to_array_idx`: 1 is the cell at the bottom, and -1 the one at the top. -/
def arrayIdx (stack : Stack w) (idx : Int) : Option Nat :=
  let abs_idx := if 0 < idx then idx else if idx < 0 then stack.sp + idx + 1 else 0
  if stack.sp = 0 ∨ abs_idx < 1 ∨ stack.sp < abs_idx then none else some (abs_idx - 1).toNat

def moveUp (lo : Nat) : Nat → (Nat → α) → Nat → α
  | 0, data => data
  | n + 1, data => moveUp lo n (Function.update data (lo + n + 1) (data (lo + n)))

/-- The `n` cells behind `lo` move down by one place. -/
def moveDown : Nat → Nat → (Nat → α) → Nat → α
  | _, 0, data => data
  | lo, n + 1, data => moveDown (lo + 1) n (Function.update data lo (data (lo + 1)))

/-- The cell at the top goes to `lo`, and the others above `lo` go up. -/
def turnUp (lo n : Nat) (data : Nat → α) : Nat → α :=
  Function.update (moveUp lo n data) lo (data (lo + n))

def turnDown (lo n : Nat) (data : Nat → α) : Nat → α :=
  Function.update (moveDown lo n data) (lo + n) (data lo)

/-- `s_expr_stack_rotate`. An index that is not in the stack raises an exception. -/
def rotate (stack : Stack w) (idx n : Int) : Option (Stack w) :=
  match stack.arrayIdx idx with
  | none => none
  | some arr_idx =>
    let count := stack.sp - arr_idx
    if count ≤ 1 then some stack
    else
      let m := n.tmod count
      let n := (if m < 0 then m + count else m).toNat
      if n = 0 then some stack
      else if n ≤ count / 2 then
        some { stack with data := (turnUp arr_idx (count - 1))^[n] stack.data }
      else some { stack with data := (turnDown arr_idx (count - 1))^[count - n] stack.data }

theorem moveUp_apply (lo n : Nat) (data : Nat → α) (i : Nat) :
    moveUp lo n data i = if lo < i ∧ i ≤ lo + n then data (i - 1) else data i := by
  induction n generalizing data with
  | zero => exact (if_neg (by omega)).symm
  | succ n ih =>
    rw [moveUp, ih, Function.update_apply, Function.update_apply]
    grind

theorem moveDown_apply (lo n : Nat) (data : Nat → α) (i : Nat) :
    moveDown lo n data i = if lo ≤ i ∧ i < lo + n then data (i + 1) else data i := by
  induction n generalizing lo data with
  | zero => exact (if_neg (by omega)).symm
  | succ n ih =>
    rw [moveDown, ih, Function.update_apply, Function.update_apply]
    grind

/-- Each of the `count` cells from `lo` on goes `d` places up, round the top, and no other moves. -/
def Turned (lo count d : Nat) (data data' : Nat → α) : Prop :=
  (∀ j < count, data' (lo + (j + d) % count) = data (lo + j)) ∧
    ∀ i, i < lo ∨ lo + count ≤ i → data' i = data i

theorem turnUp_turned (lo n : Nat) (data : Nat → α) :
    Turned lo (n + 1) 1 data (turnUp lo n data) := by
  unfold Turned turnUp
  simp only [Function.update_apply, moveUp_apply]
  refine ⟨fun j hj => ?_, fun i hi => by grind⟩
  rcases Nat.lt_or_eq_of_le (Nat.le_of_lt_succ hj) with h | rfl
  · rw [Nat.mod_eq_of_lt (by omega)]
    grind
  · rw [Nat.mod_self]
    exact if_pos rfl

theorem turnDown_turned (lo n : Nat) (data : Nat → α) :
    Turned lo (n + 1) n data (turnDown lo n data) := by
  unfold Turned turnDown
  simp only [Function.update_apply, moveDown_apply]
  refine ⟨fun j hj => ?_, fun i hi => by grind⟩
  cases j with
  | zero =>
    rw [Nat.zero_add, Nat.mod_eq_of_lt (Nat.lt_succ_self n)]
    exact if_pos rfl
  | succ j =>
    rw [Nat.add_right_comm, Nat.add_assoc, Nat.add_mod_right, Nat.mod_eq_of_lt (by omega)]
    grind

theorem Turned.iterate {lo count d : Nat} {f : (Nat → α) → Nat → α} (hcount : 0 < count)
    (h : ∀ data, Turned lo count d data (f data)) (k : Nat) (data : Nat → α) :
    Turned lo count (k * d) data (f^[k] data) := by
  induction k generalizing data with
  | zero => exact ⟨fun j hj => by simp [Nat.mod_eq_of_lt hj], fun _ _ => rfl⟩
  | succ k ih =>
    obtain ⟨hmoved, hkept⟩ := h data
    obtain ⟨hmoved', hkept'⟩ := ih (f data)
    refine ⟨fun j hj => ?_, fun i hi => (hkept' i hi).trans (hkept i hi)⟩
    rw [← hmoved j hj, ← hmoved' _ (Nat.mod_lt _ hcount), Nat.mod_add_mod,
      Function.iterate_succ_apply, Nat.succ_mul, Nat.add_assoc, Nat.add_comm d]

/-- The remainder of C, brought above zero. -/
theorem wrapped_turns (n : Int) {count : Nat} (h : 0 < count) :
    (if n.tmod count < 0 then n.tmod count + count else n.tmod count) = n % count := by
  have hnonneg := Int.emod_nonneg n (Int.natCast_ne_zero.mpr (Nat.ne_of_gt h))
  have hlt := Int.emod_lt_of_pos n (Int.natCast_pos.mpr h)
  rw [Int.tmod_eq_emod]
  grind

/-- Both ways come to the same: the cells from the index on go `n` places up, round the top. Only
an index outside of the stack is refused. -/
theorem rotate_turns (stack : Stack w) (idx n : Int) :
    match stack.rotate idx n with
    | none => stack.arrayIdx idx = none
    | some stack' => ∃ lo < stack.sp, stack.arrayIdx idx = some lo ∧ stack'.sp = stack.sp ∧
        Turned lo (stack.sp - lo) (n % ↑(stack.sp - lo)).toNat stack.data stack'.data := by
  unfold rotate
  cases hlo : stack.arrayIdx idx with
  | none => rfl
  | some lo =>
    have hlt : lo < stack.sp := by grind [arrayIdx]
    obtain ⟨c, hc⟩ : ∃ c, stack.sp - lo = c + 1 := ⟨stack.sp - lo - 1, by omega⟩
    have hn := Int.emod_lt_of_pos n (b := ↑(c + 1)) (Int.natCast_pos.mpr (Nat.succ_pos c))
    have hup := fun k => Turned.iterate (Nat.succ_pos c) (turnUp_turned lo c) k stack.data
    have hok : ∀ data', Turned lo (c + 1) (n % ↑(c + 1)).toNat stack.data data' →
        ∃ lo' < stack.sp, some lo = some lo' ∧ stack.sp = stack.sp ∧
          Turned lo' (stack.sp - lo') (n % ↑(stack.sp - lo')).toNat stack.data data' :=
      fun data' h => ⟨lo, hlt, rfl, rfl, by rw [hc]; exact h⟩
    have hm : (n % ↑(c + 1)).toNat < c + 1 := by omega
    simp only [hc, wrapped_turns n (Nat.succ_pos c), Nat.add_sub_cancel]
    generalize (n % ↑(c + 1)).toNat = m at hm hok ⊢
    split_ifs with hone hzero hhalf
    · have hzero : m = 0 := by omega
      exact hok _ (by simpa [hzero] using hup 0)
    · exact hok _ (by simpa [hzero] using hup 0)
    · exact hok _ (by simpa using hup m)
    · -- a turn down is `c` places up
      obtain ⟨e, he⟩ := Nat.exists_eq_add_of_le (Nat.le_of_lt_succ hm)
      have hround : (c + 1 - m) * c = m + (c + 1) * e := by
        have hsub : c + 1 - m = e + 1 := by omega
        rw [hsub, he]
        grind
      obtain ⟨hmoved, hkept⟩ :=
        Turned.iterate (Nat.succ_pos c) (turnDown_turned lo c) (c + 1 - m) stack.data
      refine hok _ ⟨fun j hj => ?_, hkept⟩
      rw [← hmoved j hj, hround, ← Nat.add_assoc, Nat.add_mul_mod_self_left]

end motioncore.quads.Stack
