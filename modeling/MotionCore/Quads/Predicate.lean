-- `se_p_quad`, the quad that is a predicate: what it does, and when it leaves what `se_quad` leaves.
import MotionCore.Quads.Reads

namespace motioncore.quads

open dsl.S_EXPR_PARAM

variable {w : Nat}

/-! ## The predicate -/

/-- The operations of `se_p_quad`. -/
inductive POpcode where
  | BIT_AND | BIT_OR | BIT_XOR | BIT_NOT | BIT_SHL | BIT_SHR
  | ICMP_EQ | ICMP_NE | ICMP_LT | ICMP_LE | ICMP_GT | ICMP_GE
  | FCMP_EQ | FCMP_NE | FCMP_LT | FCMP_LE | FCMP_GT | FCMP_GE
  | LOG_AND | LOG_OR | LOG_NOT | LOG_NAND | LOG_NOR | LOG_XOR
  | ICMP_EQ_ACC | ICMP_NE_ACC | ICMP_LT_ACC | ICMP_LE_ACC | ICMP_GT_ACC | ICMP_GE_ACC
  | FCMP_EQ_ACC | FCMP_NE_ACC | FCMP_LT_ACC | FCMP_LE_ACC | FCMP_GT_ACC | FCMP_GE_ACC
deriving DecidableEq, Repr

/-- What the predicate does with its operands. An accumulation adds the answer to the
destination. -/
inductive PAction (w : Nat) where
  | int (f : BitVec w → BitVec w → BitVec w)
  | cmp (f : BitVec w → BitVec w → Bool)
  | int_acc (f : BitVec w → BitVec w → Bool)
  | cmp_acc (f : BitVec w → BitVec w → Bool)

def p_action (F : FloatUnit w) : POpcode → PAction w
  | .BIT_AND => .int fun i1 i2 => i1 &&& i2
  | .BIT_OR => .int fun i1 i2 => i1 ||| i2
  | .BIT_XOR => .int fun i1 i2 => i1 ^^^ i2
  | .BIT_NOT => .int fun i1 _ => ~~~i1
  | .BIT_SHL => .int fun i1 i2 => i1 <<< (i2 &&& 0x1F).toNat
  | .BIT_SHR => .int fun i1 i2 => i1 >>> (i2 &&& 0x1F).toNat
  | .ICMP_EQ => .int fun i1 i2 => cbool (i1 == i2)
  | .ICMP_NE => .int fun i1 i2 => cbool (i1 != i2)
  | .ICMP_LT => .int fun i1 i2 => cbool (i1.slt i2)
  | .ICMP_LE => .int fun i1 i2 => cbool (i1.sle i2)
  | .ICMP_GT => .int fun i1 i2 => cbool (i2.slt i1)
  | .ICMP_GE => .int fun i1 i2 => cbool (i2.sle i1)
  | .FCMP_EQ => .cmp F.eq
  | .FCMP_NE => .cmp fun f1 f2 => !F.eq f1 f2
  | .FCMP_LT => .cmp F.lt
  | .FCMP_LE => .cmp F.le
  | .FCMP_GT => .cmp fun f1 f2 => F.lt f2 f1
  | .FCMP_GE => .cmp fun f1 f2 => F.le f2 f1
  | .LOG_AND => .int fun i1 i2 => cbool (i1 != 0 && i2 != 0)
  | .LOG_OR => .int fun i1 i2 => cbool (i1 != 0 || i2 != 0)
  | .LOG_NOT => .int fun i1 _ => cbool (i1 == 0)
  | .LOG_NAND => .int fun i1 i2 => cbool !(i1 != 0 && i2 != 0)
  | .LOG_NOR => .int fun i1 i2 => cbool !(i1 != 0 || i2 != 0)
  | .LOG_XOR => .int fun i1 i2 => cbool ((i1 == 0) != (i2 == 0))
  | .ICMP_EQ_ACC => .int_acc fun i1 i2 => i1 == i2
  | .ICMP_NE_ACC => .int_acc fun i1 i2 => i1 != i2
  | .ICMP_LT_ACC => .int_acc fun i1 i2 => i1.slt i2
  | .ICMP_LE_ACC => .int_acc fun i1 i2 => i1.sle i2
  | .ICMP_GT_ACC => .int_acc fun i1 i2 => i2.slt i1
  | .ICMP_GE_ACC => .int_acc fun i1 i2 => i2.sle i1
  | .FCMP_EQ_ACC => .cmp_acc F.eq
  | .FCMP_NE_ACC => .cmp_acc fun f1 f2 => !F.eq f1 f2
  | .FCMP_LT_ACC => .cmp_acc F.lt
  | .FCMP_LE_ACC => .cmp_acc F.le
  | .FCMP_GT_ACC => .cmp_acc fun f1 f2 => F.lt f2 f1
  | .FCMP_GE_ACC => .cmp_acc fun f1 f2 => F.le f2 f1

structure PQuad (w : Nat) where
  opcode : POpcode
  src1 : Operand w
  src2 : Operand w
  dest : Operand w
deriving DecidableEq

/-- A result is written, and the answer is whether it is not zero. -/
def p_write (dest : Operand w) (result : BitVec w) (inst : Inst w) : Option (Bool × Inst w) := do
  let inst ← quad_write_int inst dest result
  return (result != 0, inst)

/-- The answer of a comparison is added to the destination. -/
def p_accumulate (F : FloatUnit w) (dest : Operand w) (b : Bool) (inst : Inst w) :
    Option (Bool × Inst w) := do
  let (old, inst) ← quad_read_int F inst dest
  let inst ← quad_write_int inst dest (old + cbool b)
  return (b, inst)

/-- `se_p_quad`: whatever the operation is, both operands are read as integers and then both are
read as floats. -/
def se_p_quad (F : FloatUnit w) (q : PQuad w) (inst : Inst w) : Option (Bool × Inst w) := do
  let (s1_i, inst) ← quad_read_int F inst q.src1
  let (s2_i, inst) ← quad_read_int F inst q.src2
  let (s1_f, inst) ← quad_read_float F inst q.src1
  let (s2_f, inst) ← quad_read_float F inst q.src2
  match p_action F q.opcode with
  | .int f => p_write q.dest (f s1_i s2_i) inst
  | .cmp f => p_write q.dest (cbool (f s1_f s2_f)) inst
  | .int_acc f => p_accumulate F q.dest (f s1_i s2_i) inst
  | .cmp_acc f => p_accumulate F q.dest (f s1_f s2_f) inst

/-- The operation of `se_quad` of the same name. The accumulations have none. -/
def POpcode.plain : POpcode → Option Opcode
  | .BIT_AND => some .BIT_AND | .BIT_OR => some .BIT_OR | .BIT_XOR => some .BIT_XOR
  | .BIT_NOT => some .BIT_NOT | .BIT_SHL => some .BIT_SHL | .BIT_SHR => some .BIT_SHR
  | .ICMP_EQ => some .ICMP_EQ | .ICMP_NE => some .ICMP_NE | .ICMP_LT => some .ICMP_LT
  | .ICMP_LE => some .ICMP_LE | .ICMP_GT => some .ICMP_GT | .ICMP_GE => some .ICMP_GE
  | .FCMP_EQ => some .FCMP_EQ | .FCMP_NE => some .FCMP_NE | .FCMP_LT => some .FCMP_LT
  | .FCMP_LE => some .FCMP_LE | .FCMP_GT => some .FCMP_GT | .FCMP_GE => some .FCMP_GE
  | .LOG_AND => some .LOG_AND | .LOG_OR => some .LOG_OR | .LOG_NOT => some .LOG_NOT
  | .LOG_NAND => some .LOG_NAND | .LOG_NOR => some .LOG_NOR | .LOG_XOR => some .LOG_XOR
  | _ => none

/-! ## What the two write -/

/-- The value that a quad with an integer result writes. -/
def written (F : FloatUnit w) (q : Quad w) (inst : Inst w) : Option (BitVec w) :=
  match action F q.opcode with
  | .int1 f => do
    let (i1, _) ← quad_read_int F inst q.src1
    f i1
  | .int2 f => do
    let (i1, inst) ← quad_read_int F inst q.src1
    let (i2, _) ← quad_read_int F inst q.src2
    f i1 i2
  | .cmp f => do
    let (f1, inst) ← quad_read_float F inst q.src1
    let (f2, _) ← quad_read_float F inst q.src2
    return cbool (f f1 f2)
  | .float1 _ | .float2 _ => none

/-- The value that a predicate writes which does not accumulate. -/
def p_written (F : FloatUnit w) (q : PQuad w) (inst : Inst w) : Option (BitVec w) := do
  let (s1_i, inst) ← quad_read_int F inst q.src1
  let (s2_i, inst) ← quad_read_int F inst q.src2
  let (s1_f, inst) ← quad_read_float F inst q.src1
  let (s2_f, _) ← quad_read_float F inst q.src2
  match p_action F q.opcode with
  | .int f => return f s1_i s2_i
  | .cmp f => return cbool (f s1_f s2_f)
  | .int_acc _ | .cmp_acc _ => none

/-- The predicate writes the value that the quad writes, answers whether it is not zero, and
leaves the same stack and the same blackboard. -/
def Agrees (F : FloatUnit w) (p : PQuad w) (q : Quad w) (inst : Inst w) : Prop :=
  ∀ inst', se_quad F q inst = some inst' →
    ∃ val b, written F q inst = some val ∧ p_written F p inst = some val ∧
      se_p_quad F p inst = some (b, inst') ∧ (b = true ↔ val ≠ 0)

/-! ## Shifts of a word -/

variable {y : BitVec w} {d : Nat}

variable {i1 i2 : BitVec w}

/-- The cells that the predicate takes. -/
def PQuad.pops (p : PQuad w) : Nat := 2 * (p.src1.pops + p.src2.pops)

variable {F : FloatUnit w} {inst inst' : Inst w} {op : Opcode} {pop : POpcode}

variable {val : BitVec w}

variable {dest : Operand w}

end motioncore.quads
