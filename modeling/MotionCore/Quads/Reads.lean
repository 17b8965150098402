-- What the readers of the operands give, in one law each: the value that is there, and a stack
-- without the cells that were popped.
import MotionCore.Quads.Machine

namespace motioncore.quads

variable {w : Nat}

/-- How many cells a read takes from the stack. -/
def Operand.pops : Operand w → Nat
  | .stack_pop => 1
  | _ => 0

/-- The instance with the top of the stack `k` cells lower. -/
def Inst.dropped (inst : Inst w) (k : Nat) : Inst w :=
  { inst with stack := { inst.stack with sp := inst.stack.sp - k } }

@[simp]
theorem Inst.dropped_zero (inst : Inst w) : inst.dropped 0 = inst := rfl

@[simp]
theorem Inst.dropped_dropped (inst : Inst w) (j k : Nat) :
    (inst.dropped j).dropped k = inst.dropped (j + k) := by
  simp [Inst.dropped, Nat.sub_sub]

/-- What the integer reader finds. -/
def intAt (F : FloatUnit w) (inst : Inst w) : Operand w → BitVec w
  | .stack_pop => (inst.stack.data (inst.stack.sp - 1)).bits
  | p => ((quad_read_int F inst p).map Prod.fst).getD 0

def floatAt (F : FloatUnit w) (inst : Inst w) : Operand w → BitVec w
  | .stack_pop => (inst.stack.data (inst.stack.sp - 1)).bits
  | p => ((quad_read_float F inst p).map Prod.fst).getD 0

variable {F : FloatUnit w} {inst : Inst w}

theorem pop_eq (stack : Stack w) : stack.pop = if 1 ≤ stack.sp then
      some (stack.data (stack.sp - 1), { stack with sp := stack.sp - 1 }) else none := by
  unfold Stack.pop
  split
  · next h => rw [if_neg (by omega)]
  · next h => rw [if_pos (by omega)]

variable (p : Operand w)

/-- A read succeeds when the stack has the cells that it takes. -/
theorem quad_read_int_eq : quad_read_int F inst p =
      if p.pops ≤ inst.stack.sp then some (intAt F inst p, inst.dropped p.pops) else none := by
  cases p with
  | stack_pop =>
    by_cases h : 1 ≤ inst.stack.sp <;>
      simp [quad_read_int, pop_eq, Operand.pops, intAt, Inst.dropped, h]
  | int | uint | float | stack_tos | stack_local | stack_push | null =>
    simp [quad_read_int, Operand.pops, intAt]
  | field field_offset field_size =>
    simp only [Operand.pops, Nat.zero_le, if_true, intAt, quad_read_int, Inst.dropped_zero]
    split
    · rfl
    · split
      · rfl
      · split <;> rfl
  | const_ref const_index const_size =>
    simp only [Operand.pops, Nat.zero_le, if_true, intAt, quad_read_int, Inst.dropped_zero]
    split
    · rfl
    · split <;> rfl

theorem quad_read_float_eq : quad_read_float F inst p =
      if p.pops ≤ inst.stack.sp then some (floatAt F inst p, inst.dropped p.pops) else none := by
  cases p with
  | stack_pop =>
    by_cases h : 1 ≤ inst.stack.sp <;>
      simp [quad_read_float, pop_eq, Operand.pops, floatAt, Inst.dropped, h]
  | int | uint | float | stack_tos | stack_local | stack_push | null =>
    simp [quad_read_float, Operand.pops, floatAt]
  | field field_offset field_size =>
    simp only [Operand.pops, Nat.zero_le, if_true, floatAt, quad_read_float, Inst.dropped_zero]
    split
    · rfl
    · split
      · rfl
      · split <;> rfl
  | const_ref const_index const_size =>
    simp only [Operand.pops, Nat.zero_le, if_true, floatAt, quad_read_float, Inst.dropped_zero]
    split
    · rfl
    · split
      · rfl
      · split <;> rfl

def quad_write (F : FloatUnit w) (is_f : Bool) (inst : Inst w) (dest : Operand w)
    (val : BitVec w) : Option (Inst w) :=
  if is_f then quad_write_float F inst dest val else quad_write_int inst dest val

def seen (F : FloatUnit w) (is_f : Bool) (inst : Inst w) (p : Operand w) : Option (BitVec w) :=
  (if is_f then quad_read_float F inst p else quad_read_int F inst p).map Prod.fst

/-- The cells that the quad takes from the stack. -/
def Quad.pops (F : FloatUnit w) (q : Quad w) : Nat :=
  match action F q.opcode with
  | .int1 _ | .float1 _ => q.src1.pops
  | _ => q.src1.pops + q.src2.pops

def Quad.writes_float (F : FloatUnit w) (q : Quad w) : Bool :=
  match action F q.opcode with
  | .float1 _ | .float2 _ => true
  | _ => false

theorem read_int_gives {p : Operand w} {r : BitVec w × Inst w}
    (h : quad_read_int F inst p = some r) : r = (intAt F inst p, inst.dropped p.pops) := by
  rw [quad_read_int_eq] at h
  split at h
  · cases h
    rfl
  · cases h

theorem read_float_gives {p : Operand w} {r : BitVec w × Inst w}
    (h : quad_read_float F inst p = some r) : r = (floatAt F inst p, inst.dropped p.pops) := by
  rw [quad_read_float_eq] at h
  split at h
  · cases h
    rfl
  · cases h

/-- A quad takes its cells from the stack and then writes a value. That of an operation with one
integer operand is computed from what is read there. -/
theorem se_quad_writes {q : Quad w} {inst' : Inst w} (h : se_quad F q inst = some inst') :
    ∃ val, quad_write F (q.writes_float F) (inst.dropped (q.pops F)) q.dest val = some inst' ∧
      ∀ f, action F q.opcode = .int1 f → f (intAt F inst q.src1) = some val := by
  unfold se_quad at h
  unfold Quad.pops Quad.writes_float
  cases haction : action F q.opcode with
  | int1 f =>
    rw [haction] at h
    obtain ⟨⟨i1, inst₁⟩, h1, h⟩ := Option.bind_eq_some_iff.mp h
    obtain ⟨val, hval, hwrite⟩ := Option.bind_eq_some_iff.mp h
    cases read_int_gives h1
    refine ⟨val, hwrite, fun f' hf' => ?_⟩
    cases hf'
    exact hval
  | int2 f =>
    rw [haction] at h
    obtain ⟨⟨i1, inst₁⟩, h1, h⟩ := Option.bind_eq_some_iff.mp h
    obtain ⟨⟨i2, inst₂⟩, h2, h⟩ := Option.bind_eq_some_iff.mp h
    obtain ⟨val, -, hwrite⟩ := Option.bind_eq_some_iff.mp h
    cases read_int_gives h1
    cases read_int_gives h2
    exact ⟨val, by rwa [Inst.dropped_dropped] at hwrite, nofun⟩
  | cmp f =>
    rw [haction] at h
    obtain ⟨⟨f1, inst₁⟩, h1, h⟩ := Option.bind_eq_some_iff.mp h
    obtain ⟨⟨f2, inst₂⟩, h2, hwrite⟩ := Option.bind_eq_some_iff.mp h
    cases read_float_gives h1
    cases read_float_gives h2
    exact ⟨_, by rwa [Inst.dropped_dropped] at hwrite, nofun⟩
  | float1 f =>
    rw [haction] at h
    obtain ⟨⟨f1, inst₁⟩, h1, hwrite⟩ := Option.bind_eq_some_iff.mp h
    cases read_float_gives h1
    exact ⟨_, hwrite, nofun⟩
  | float2 f =>
    rw [haction] at h
    obtain ⟨⟨f1, inst₁⟩, h1, h⟩ := Option.bind_eq_some_iff.mp h
    obtain ⟨⟨f2, inst₂⟩, h2, hwrite⟩ := Option.bind_eq_some_iff.mp h
    cases read_float_gives h1
    cases read_float_gives h2
    exact ⟨_, by rwa [Inst.dropped_dropped] at hwrite, nofun⟩

end motioncore.quads
