-- The machine of the quads: the parameter stack of a tree with its frames, the operations of
-- the engine on the stack, the blackboard and the constants, and single-precision floats on
-- their bits. A cell is a parameter: a type byte and a word.
import Mathlib.Algebra.Group.Nat.Defs
import Mathlib.Algebra.Group.Int.Defs
import MotionCore.Dsl.Stream

namespace motioncore.quads

open dsl.S_EXPR_PARAM

variable {w : Nat}

/-- A cell with `w` bits for its value. -/
structure Cell (w : Nat) where
  type : UInt8
  bits : BitVec w
deriving DecidableEq

structure Frame where
  base_ptr : Nat
  num_params : Nat
  num_locals : Nat
  scratch_base : Nat
deriving DecidableEq

/-- The current frame is the first one. -/
structure Stack (w : Nat) where
  data : Nat → Cell w
  capacity : Nat
  sp : Nat
  frames : List Frame

def S_EXPR_MAX_FRAMES : Nat := 16

namespace Stack

variable (stack : Stack w)

/-! ## Cells -/

/-- A full stack raises an exception. -/
def push (param : Cell w) : Option (Stack w) :=
  if stack.capacity ≤ stack.sp then none
  else some { stack with data := Function.update stack.data stack.sp param, sp := stack.sp + 1 }

/-- An empty stack raises an exception. The cell stays where it was. -/
def pop : Option (Cell w × Stack w) :=
  if stack.sp = 0 then none
  else some (stack.data (stack.sp - 1), { stack with sp := stack.sp - 1 })

/-- The index of a scratch cell, which is a `uint16_t`. -/
def scratchIndex (frame : Frame) (offset : Nat) : Nat := (frame.scratch_base + offset) % 65536

/-- The write to a scratch cell, which moves `sp` above it. Nothing is written where the stack
ends. Without a frame the code reads `frames[-1]`. -/
def poke (offset : Nat) (val : Cell w) : Option (Stack w) :=
  match stack.frames with
  | [] => none
  | frame :: _ =>
    let abs_idx := scratchIndex frame offset
    if stack.capacity ≤ abs_idx then some stack
    else some { stack with
      data := Function.update stack.data abs_idx val
      sp := if stack.sp ≤ abs_idx then abs_idx + 1 else stack.sp }

/-- The read of a scratch cell counts from the top of the stack. -/
def peek_tos (offset : Nat) : Option (Cell w) :=
  if stack.sp ≤ offset then none else some (stack.data (stack.sp - 1 - offset))

/-- The place of a parameter or a local of the current frame. -/
def localIndex (index : Nat) : Option Nat :=
  match stack.frames with
  | [] => none
  | frame :: _ =>
    if frame.num_params + frame.num_locals ≤ index then none else some (frame.base_ptr + index)

def get_local (index : Nat) : Option (Cell w) := (stack.localIndex index).map stack.data

/-- A write that finds no local changes nothing. -/
def set_local (index : Nat) (val : Cell w) : Stack w :=
  match stack.localIndex index with
  | none => stack
  | some i => { stack with data := Function.update stack.data i val }

/-! ## Frames -/

/-- The cells from `sp` on become zero. -/
def zeroed (n : Nat) : Stack w :=
  { stack with
    data := fun i => if stack.sp ≤ i ∧ i < stack.sp + n then ⟨INT, 0⟩ else stack.data i
    sp := stack.sp + n }

/-- `s_expr_stack_push_frame`. The parameters are on the stack. -/
def push_frame (num_params num_locals : Nat) : Option (Stack w) :=
  if S_EXPR_MAX_FRAMES ≤ stack.frames.length then none
  else if stack.capacity < stack.sp + num_locals then none
  else if stack.sp < num_params then none
  else
    let frame : Frame := ⟨stack.sp - num_params, num_params, num_locals, stack.sp + num_locals⟩
    some { stack.zeroed num_locals with frames := frame :: stack.frames }

/-- The cells of the frames are inside the stack, and the current frame is below `sp`. -/
structure Framed : Prop where
  sp_le : stack.sp ≤ stack.capacity
  capacity_le : stack.capacity ≤ 65535
  frame : ∀ frame ∈ stack.frames, frame.scratch_base = frame.base_ptr + frame.num_params + frame.num_locals ∧
    frame.scratch_base ≤ stack.capacity

end Stack

open dsl.S_EXPR_PARAM

/-! ## Operands -/

/-- A parameter as a quad reads it. `null` is every other opcode. -/
inductive Operand (w : Nat) where
  | int (int_val : BitVec w)
  | uint (uint_val : BitVec w)
  | float (float_val : BitVec w)
  | field (field_offset field_size : Nat)
  | stack_tos (stack_offset : Nat)
  | stack_local (stack_offset : Nat)
  | stack_pop
  | stack_push
  | const_ref (const_index const_size : Nat)
  | null
deriving DecidableEq

/-- The float functions of one operand. -/
inductive Float1 where
  | neg | sqrt | exp | log | log10 | log2 | abs | sin | cos | tan | asin | acos | atan
  | sinh | cosh | tanh
deriving DecidableEq

inductive Float2 where
  | add | sub | mul | div | mod | pow | atan2
deriving DecidableEq

/-- The floats of the platform, on their bits: `ct_float_t` has `w` of them. -/
structure FloatUnit (w : Nat) where
  ofInt : BitVec w → BitVec w
  ofUint : BitVec w → BitVec w
  toInt : BitVec w → BitVec w
  ofFloat : BitVec 32 → BitVec w
  ofDouble : BitVec 64 → BitVec w
  toFloat : BitVec w → BitVec 32
  toDouble : BitVec w → BitVec 64
  eq : BitVec w → BitVec w → Bool
  lt : BitVec w → BitVec w → Bool
  le : BitVec w → BitVec w → Bool
  fn1 : Float1 → BitVec w → BitVec w
  fn2 : Float2 → BitVec w → BitVec w → BitVec w

/-- The memory of a record or of a constant, by its bytes. -/
abbrev Bytes := Nat → UInt8

/-- The number in `n` bytes, low byte first. -/
def leNat (m : Bytes) (at_ : Nat) : Nat → Nat
  | 0 => 0
  | n + 1 => (m at_).toNat + 256 * leNat m (at_ + 1) n

def read32 (m : Bytes) (at_ : Nat) : BitVec 32 := BitVec.ofNat 32 (leNat m at_ 4)

def read64 (m : Bytes) (at_ : Nat) : BitVec 64 := BitVec.ofNat 64 (leNat m at_ 8)

/-- `n` bytes of a number are written. -/
def writeBytes (m : Bytes) (at_ n value : Nat) : Bytes := fun i =>
  if at_ ≤ i ∧ i < at_ + n then UInt8.ofNat (value / 256 ^ (i - at_)) else m i

/-- The instance of a tree, as far as quads see it. -/
structure Inst (w : Nat) where
  stack : Stack w
  blackboard : Option Bytes
  constants : Nat → Option Bytes

variable {w : Nat}

/-- A read of `ct_int_t` at a field of eight bytes. -/
def readWord (m : Bytes) (at_ : Nat) : BitVec w := BitVec.ofNat w (leNat m at_ (w / 8))

/-- `quad_read_int`. Cells of the stack are read as integers whatever their type is. A pop from
an empty stack raises an exception. -/
def quad_read_int (F : FloatUnit w) (inst : Inst w) : Operand w → Option (BitVec w × Inst w)
  | .int int_val => some (int_val, inst)
  | .uint uint_val => some (uint_val, inst)
  | .float float_val => some (F.toInt float_val, inst)
  | .field field_offset field_size =>
    match inst.blackboard with
    | none => some (0, inst)
    | some m =>
      if field_size = 4 then some ((read32 m field_offset).signExtend w, inst)
      else if field_size = 8 then some (readWord m field_offset, inst)
      else some (0, inst)
  | .stack_tos stack_offset =>
    some (((inst.stack.peek_tos stack_offset).map Cell.bits).getD 0, inst)
  | .stack_local stack_offset =>
    some (((inst.stack.get_local stack_offset).map Cell.bits).getD 0, inst)
  | .stack_pop => inst.stack.pop.map fun (sp, stack) => (sp.bits, { inst with stack := stack })
  | .const_ref const_index const_size =>
    match inst.constants const_index with
    | none => some (0, inst)
    | some m => if 4 ≤ const_size then some ((read32 m 0).signExtend w, inst) else some (0, inst)
  | .stack_push | .null => some (0, inst)

def quad_read_float (F : FloatUnit w) (inst : Inst w) : Operand w → Option (BitVec w × Inst w)
  | .float float_val => some (float_val, inst)
  | .int int_val => some (F.ofInt int_val, inst)
  | .uint uint_val => some (F.ofUint uint_val, inst)
  | .field field_offset field_size =>
    match inst.blackboard with
    | none => some (0, inst)
    | some m =>
      if field_size = 4 then some (F.ofFloat (read32 m field_offset), inst)
      else if field_size = 8 then some (F.ofDouble (read64 m field_offset), inst)
      else some (0, inst)
  | .stack_tos stack_offset =>
    some (((inst.stack.peek_tos stack_offset).map Cell.bits).getD 0, inst)
  | .stack_local stack_offset =>
    some (((inst.stack.get_local stack_offset).map Cell.bits).getD 0, inst)
  | .stack_pop => inst.stack.pop.map fun (sp, stack) => (sp.bits, { inst with stack := stack })
  | .const_ref const_index const_size =>
    match inst.constants const_index with
    | none => some (0, inst)
    | some m =>
      if const_size = 4 then some (F.ofFloat (read32 m 0), inst)
      else if const_size = 8 then some (F.ofDouble (read64 m 0), inst)
      else some (0, inst)
  | .stack_push | .null => some (0, inst)

/-- A cell is written to a place of the stack. -/
def write_cell (inst : Inst w) (p : Cell w) : Operand w → Option (Inst w)
  | .stack_local stack_offset =>
    some { inst with stack := inst.stack.set_local stack_offset p }
  | .stack_tos stack_offset =>
    (inst.stack.poke stack_offset p).map fun stack => { inst with stack := stack }
  | .stack_push => (inst.stack.push p).map fun stack => { inst with stack := stack }
  | _ => some inst

def quad_write_int (inst : Inst w) (dest : Operand w) (val : BitVec w) : Option (Inst w) :=
  match dest, inst.blackboard with
  | .field field_offset field_size, some m =>
    if field_size = 4 then
      some { inst with blackboard := some (writeBytes m field_offset 4 (val.setWidth 32).toNat) }
    else if field_size = 8 then
      some { inst with blackboard := some (writeBytes m field_offset (w / 8) val.toNat) }
    else some inst
  | dest, _ => write_cell inst ⟨INT, val⟩ dest

def quad_write_float (F : FloatUnit w) (inst : Inst w) (dest : Operand w) (val : BitVec w) :
    Option (Inst w) :=
  match dest, inst.blackboard with
  | .field field_offset field_size, some m =>
    if field_size = 4 then
      some { inst with blackboard := some (writeBytes m field_offset 4 (F.toFloat val).toNat) }
    else if field_size = 8 then
      some { inst with blackboard := some (writeBytes m field_offset 8 (F.toDouble val).toNat) }
    else some inst
  | dest, _ => write_cell inst ⟨FLOAT, val⟩ dest

/-! ## Integer operations -/

/-- A truth value of C. -/
def cbool (b : Bool) : BitVec w := if b then 1 else 0

/-- A shift of C has a meaning for amounts below the width only. -/
def shift (f : Nat → BitVec w) (amount : BitVec w) : Option (BitVec w) :=
  if amount.toNat < w then some (f amount.toNat) else none

/-- Division and remainder trap at the least number by -1. A zero divisor is asked for first. -/
def divide (f : BitVec w → BitVec w → BitVec w) (i1 i2 : BitVec w) : Option (BitVec w) :=
  if i2 = 0 then some 0
  else if i1 = BitVec.intMin w ∧ i2 = -1 then none
  else some (f i1 i2)

inductive Action (w : Nat) where
  | int1 (f : BitVec w → Option (BitVec w))
  | int2 (f : BitVec w → BitVec w → Option (BitVec w))
  | cmp (f : BitVec w → BitVec w → Bool)
  | float1 (f : BitVec w → BitVec w)
  | float2 (f : BitVec w → BitVec w → BitVec w)

/-- The operations of `se_quad`. -/
inductive Opcode where
  | IADD | ISUB | IMUL | IDIV | IMOD | INEG
  | FADD | FSUB | FMUL | FDIV | FMOD | FNEG
  | BIT_AND | BIT_OR | BIT_XOR | BIT_NOT | BIT_SHL | BIT_SHR
  | ICMP_EQ | ICMP_NE | ICMP_LT | ICMP_LE | ICMP_GT | ICMP_GE
  | FCMP_EQ | FCMP_NE | FCMP_LT | FCMP_LE | FCMP_GT | FCMP_GE
  | LOG_AND | LOG_OR | LOG_NOT | LOG_NAND | LOG_NOR | LOG_XOR
  | MOVE
  | FSQRT | FPOW | FEXP | FLOG | FLOG10 | FLOG2 | FABS
  | FSIN | FCOS | FTAN | FASIN | FACOS | FATAN | FATAN2
  | FSINH | FCOSH | FTANH
  | IABS | IMIN | IMAX
  | FMIN | FMAX
  | MOV
deriving DecidableEq, Repr

/-- What each opcode does. Sums, differences and products of integers are those of the machine. -/
def action (F : FloatUnit w) : Opcode → Action w
  | .IADD => .int2 fun i1 i2 => some (i1 + i2)
  | .ISUB => .int2 fun i1 i2 => some (i1 - i2)
  | .IMUL => .int2 fun i1 i2 => some (i1 * i2)
  | .IDIV => .int2 (divide BitVec.sdiv)
  | .IMOD => .int2 (divide BitVec.srem)
  | .INEG => .int1 fun i1 => some (-i1)
  | .BIT_AND => .int2 fun i1 i2 => some (i1 &&& i2)
  | .BIT_OR => .int2 fun i1 i2 => some (i1 ||| i2)
  | .BIT_XOR => .int2 fun i1 i2 => some (i1 ^^^ i2)
  | .BIT_NOT => .int1 fun i1 => some (~~~i1)
  | .BIT_SHL => .int2 fun i1 i2 => shift (fun n => i1 <<< n) i2
  | .BIT_SHR => .int2 fun i1 i2 => shift (fun n => i1.sshiftRight n) i2
  | .ICMP_EQ => .int2 fun i1 i2 => some (cbool (i1 == i2))
  | .ICMP_NE => .int2 fun i1 i2 => some (cbool (i1 != i2))
  | .ICMP_LT => .int2 fun i1 i2 => some (cbool (i1.slt i2))
  | .ICMP_LE => .int2 fun i1 i2 => some (cbool (i1.sle i2))
  | .ICMP_GT => .int2 fun i1 i2 => some (cbool (i2.slt i1))
  | .ICMP_GE => .int2 fun i1 i2 => some (cbool (i2.sle i1))
  | .LOG_AND => .int2 fun i1 i2 => some (cbool (i1 != 0 && i2 != 0))
  | .LOG_OR => .int2 fun i1 i2 => some (cbool (i1 != 0 || i2 != 0))
  | .LOG_NOT => .int1 fun i1 => some (cbool (i1 == 0))
  | .LOG_NAND => .int2 fun i1 i2 => some (cbool !(i1 != 0 && i2 != 0))
  | .LOG_NOR => .int2 fun i1 i2 => some (cbool !(i1 != 0 || i2 != 0))
  | .LOG_XOR => .int2 fun i1 i2 => some (cbool ((i1 == 0) != (i2 == 0)))
  | .MOVE | .MOV => .int1 some
  | .IABS => .int1 fun i1 => some (if i1.slt 0 then -i1 else i1)
  | .IMIN => .int2 fun i1 i2 => some (if i1.slt i2 then i1 else i2)
  | .IMAX => .int2 fun i1 i2 => some (if i2.slt i1 then i1 else i2)
  | .FADD => .float2 (F.fn2 .add)
  | .FSUB => .float2 (F.fn2 .sub)
  | .FMUL => .float2 (F.fn2 .mul)
  | .FDIV => .float2 fun f1 f2 => if F.eq f2 0 then 0 else F.fn2 .div f1 f2
  | .FMOD => .float2 fun f1 f2 => if F.eq f2 0 then 0 else F.fn2 .mod f1 f2
  | .FNEG => .float1 (F.fn1 .neg)
  | .FCMP_EQ => .cmp F.eq
  | .FCMP_NE => .cmp fun f1 f2 => !F.eq f1 f2
  | .FCMP_LT => .cmp F.lt
  | .FCMP_LE => .cmp F.le
  | .FCMP_GT => .cmp fun f1 f2 => F.lt f2 f1
  | .FCMP_GE => .cmp fun f1 f2 => F.le f2 f1
  | .FSQRT => .float1 (F.fn1 .sqrt)
  | .FPOW => .float2 (F.fn2 .pow)
  | .FEXP => .float1 (F.fn1 .exp)
  | .FLOG => .float1 (F.fn1 .log)
  | .FLOG10 => .float1 (F.fn1 .log10)
  | .FLOG2 => .float1 (F.fn1 .log2)
  | .FABS => .float1 (F.fn1 .abs)
  | .FSIN => .float1 (F.fn1 .sin)
  | .FCOS => .float1 (F.fn1 .cos)
  | .FTAN => .float1 (F.fn1 .tan)
  | .FASIN => .float1 (F.fn1 .asin)
  | .FACOS => .float1 (F.fn1 .acos)
  | .FATAN => .float1 (F.fn1 .atan)
  | .FATAN2 => .float2 (F.fn2 .atan2)
  | .FSINH => .float1 (F.fn1 .sinh)
  | .FCOSH => .float1 (F.fn1 .cosh)
  | .FTANH => .float1 (F.fn1 .tanh)
  | .FMIN => .float2 fun f1 f2 => if F.lt f1 f2 then f1 else f2
  | .FMAX => .float2 fun f1 f2 => if F.lt f2 f1 then f1 else f2

/-! ## Quads -/

structure Quad (w : Nat) where
  opcode : Opcode
  src1 : Operand w
  src2 : Operand w
  dest : Operand w
deriving DecidableEq

/-- `se_quad`: the operands are read in order, and the result is written. `none` is an exception
or an operation that C leaves without a meaning. -/
def se_quad (F : FloatUnit w) (q : Quad w) (inst : Inst w) : Option (Inst w) :=
  match action F q.opcode with
  | .int1 f => do
    let (i1, inst) ← quad_read_int F inst q.src1
    let val ← f i1
    quad_write_int inst q.dest val
  | .int2 f => do
    let (i1, inst) ← quad_read_int F inst q.src1
    let (i2, inst) ← quad_read_int F inst q.src2
    let val ← f i1 i2
    quad_write_int inst q.dest val
  | .cmp f => do
    let (f1, inst) ← quad_read_float F inst q.src1
    let (f2, inst) ← quad_read_float F inst q.src2
    quad_write_int inst q.dest (cbool (f f1 f2))
  | .float1 f => do
    let (f1, inst) ← quad_read_float F inst q.src1
    quad_write_float F inst q.dest (f f1)
  | .float2 f => do
    let (f1, inst) ← quad_read_float F inst q.src1
    let (f2, inst) ← quad_read_float F inst q.src2
    quad_write_float F inst q.dest (f f1 f2)

/-! ## The format -/

/-- The bits of the float next to a natural number, without the sign. Ties go to even. -/
def roundNat (n : Nat) : Nat :=
  if n = 0 then 0
  else
    let e := Nat.log2 n
    if e ≤ 23 then (e + 127) * 2 ^ 23 + (n * 2 ^ (23 - e) - 2 ^ 23)
    else
      let unit := 2 ^ (e - 23)
      let q := n / unit
      let up := if unit < 2 * (n % unit) ∨ (2 * (n % unit) = unit ∧ q % 2 = 1) then 1 else 0
      (e + 127) * 2 ^ 23 + (q + up - 2 ^ 23)

def signBit : Nat := 2 ^ 31

/-- `(float)` of an integer. -/
def floatOfInt (i : Int) : BitVec 32 :=
  BitVec.ofNat 32 (if i < 0 then signBit + roundNat i.natAbs else roundNat i.natAbs)

def magnitude (f : BitVec 32) : Nat := f.toNat % signBit

/-- The whole part of a float, without the sign. -/
def wholePart (f : BitVec 32) : Nat :=
  let e := magnitude f / 2 ^ 23
  let m := magnitude f % 2 ^ 23 + 2 ^ 23
  if e < 127 then 0
  else if e ≤ 150 then m / 2 ^ (150 - e)
  else m * 2 ^ (e - 150)

/-- `(int32_t)` of a float, where the value fits. -/
def intOfFloat (f : BitVec 32) : BitVec 32 :=
  if f.toNat < signBit then BitVec.ofNat 32 (wholePart f) else -BitVec.ofNat 32 (wholePart f)

/-- A NaN has all bits of the exponent, and is not infinite. -/
def isNaN (f : BitVec 32) : Bool := 255 * 2 ^ 23 < magnitude f

/-- Floats are ordered as these numbers. Both zeros have the same. -/
def orderKey (f : BitVec 32) : Int := if f.toNat < signBit then magnitude f else -magnitude f

/-- Single-precision floats, with the functions of the math library. A double is not read or
written where `ct_float_t` is a float of four bytes in a field of four. -/
def binary32 (fn1 : Float1 → BitVec 32 → BitVec 32) (fn2 : Float2 → BitVec 32 → BitVec 32 → BitVec 32)
    (ofDouble : BitVec 64 → BitVec 32) (toDouble : BitVec 32 → BitVec 64) : FloatUnit 32 where
  ofInt i := floatOfInt i.toInt
  ofUint i := floatOfInt i.toNat
  toInt := intOfFloat
  ofFloat f := f
  ofDouble := ofDouble
  toFloat f := f
  toDouble := toDouble
  eq f g := !isNaN f && !isNaN g && orderKey f = orderKey g
  lt f g := !isNaN f && !isNaN g && orderKey f < orderKey g
  le f g := !isNaN f && !isNaN g && orderKey f ≤ orderKey g
  fn1 := fn1
  fn2 := fn2

/-- For code that calls no function and has no doubles. -/
def simple32 : FloatUnit 32 :=
  binary32 (fun _ f1 => f1) (fun _ f1 _ => f1) (BitVec.setWidth 32) (BitVec.setWidth 64)

/-- 1.0, 3.0, the largest integer (as 2^31) and -2.0. -/
example : (floatOfInt 1, floatOfInt 3, floatOfInt (2 ^ 31 - 1), floatOfInt (-2)) =
    (0x3F800000, 0x40400000, 0x4F000000, 0xC0000000) := by decide

example : (intOfFloat 0x40600000, intOfFloat 0xC0000000) = (3, -2) := by decide

end motioncore.quads
