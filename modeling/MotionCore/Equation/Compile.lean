-- The quad operations: three-address instructions over the cells of a frame and
-- the fields of the blackboard, as `se_quad` runs them. The code generator of the
-- equation compiler: type inference, constant folding, the scratch allocator and
-- `quad_expr`.
import MotionCore.Equation.Syntax
import MotionCore.Lib.Straight

open motioncore.straight

namespace motioncore.equation

/-! ## Cells -/

/-- The number of bytes of an integer field. The record definition refuses smaller ones. -/
inductive FieldSize where
  | four
  | eight
deriving DecidableEq, Repr

/-- What is known of the names: the declared frame variables, each with its annotation
as float, and the size of each field. -/
structure Vars where
  is_float : String → Option Bool
  field_size : String → FieldSize

/-- A variable of the frame or a field of the blackboard. -/
inductive Cell where
  | var (name : String)
  | field (name : String)
deriving DecidableEq, Repr

inductive Ref where
  | int_val (v : Int)
  | uint_val (v : Int)
  | float_val (v : Int)
  | cell (c : Cell)
  | null
deriving DecidableEq, Repr

/-- The quad functions, integer and float. -/
inductive QuadFn where
  | quad_iadd | quad_isub | quad_imul | quad_idiv | quad_imod | quad_ineg
  | quad_fadd | quad_fsub | quad_fmul | quad_fdiv | quad_fmod | quad_fneg
  | quad_and | quad_or | quad_xor | quad_not | quad_shl | quad_shr
  | quad_ieq | quad_ine | quad_ilt | quad_ile | quad_igt | quad_ige
  | quad_feq | quad_fne | quad_flt | quad_fle | quad_fgt | quad_fge
  | quad_log_and | quad_log_or | quad_log_not
  | quad_mov
  | quad_sqrt | quad_sin | quad_cos | quad_tan | quad_asin | quad_acos | quad_atan
  | quad_exp | quad_log | quad_log10 | quad_log2 | quad_sinh | quad_cosh | quad_tanh
  | quad_pow | quad_atan2
  | quad_iabs | quad_imin | quad_imax | quad_fabs | quad_fmin | quad_fmax
deriving DecidableEq, Repr

structure Quad where
  fn : QuadFn
  src1 : Ref
  src2 : Ref
  dest : Cell
deriving DecidableEq, Repr

def Ref.cells : Ref → List Cell
  | .cell c => [c]
  | _ => []

/-- The cells that the operation reads. -/
def Quad.srcs (q : Quad) : List Cell := q.src1.cells ++ q.src2.cells

/-! ## Values -/

variable {w : Nat}

/-- What each cell holds, as a `ct_int_t` of `w` bits reads it. -/
abbrev Mem (w : Nat) := Cell → BitVec w

/-- The value as the cell can hold it: a field of four bytes keeps the low 32 bits, and a
read extends their sign. -/
def Vars.fit (v : Vars) : Cell → BitVec w → BitVec w
  | .var _, a => a
  | .field name, a =>
    match v.field_size name with
    | .four => (a.setWidth 32).signExtend w
    | .eight => a

def quad_read_int (v : Vars) (m : Mem w) : Ref → BitVec w
  | .int_val a | .uint_val a | .float_val a => BitVec.ofInt w a
  | .cell c => v.fit c (m c)
  | .null => 0

def quad_write_int (v : Vars) (m : Mem w) (c : Cell) (a : BitVec w) : Mem w :=
  Function.update m c (v.fit c a)

/-- A truth value of C. -/
def flag (b : Bool) : BitVec w := if b then 1 else 0

/-- What the integer operations compute. Where C leaves the result open (overflow, a shift by
more than the width) they wrap and shift everything out. The float operations are not run. -/
def quadValue : QuadFn → Option (BitVec w → BitVec w → BitVec w)
  | .quad_iadd => some fun a b => a + b
  | .quad_isub => some fun a b => a - b
  | .quad_imul => some fun a b => a * b
  | .quad_idiv => some fun a b => if b = 0 then 0 else a.sdiv b
  | .quad_imod => some fun a b => if b = 0 then 0 else a.srem b
  | .quad_ineg => some fun a _ => -a
  | .quad_and => some fun a b => a &&& b
  | .quad_or => some fun a b => a ||| b
  | .quad_xor => some fun a b => a ^^^ b
  | .quad_not => some fun a _ => ~~~a
  | .quad_shl => some fun a b => a <<< b.toNat
  | .quad_shr => some fun a b => a.sshiftRight b.toNat
  | .quad_ieq => some fun a b => flag (a == b)
  | .quad_ine => some fun a b => flag (a != b)
  | .quad_ilt => some fun a b => flag (a.slt b)
  | .quad_ile => some fun a b => flag (a.sle b)
  | .quad_igt => some fun a b => flag (b.slt a)
  | .quad_ige => some fun a b => flag (b.sle a)
  | .quad_log_and => some fun a b => flag (a != 0 && b != 0)
  | .quad_log_or => some fun a b => flag (a != 0 || b != 0)
  | .quad_log_not => some fun a _ => flag (a == 0)
  | .quad_mov => some fun a _ => a
  | .quad_iabs => some fun a _ => if a.slt 0 then -a else a
  | .quad_imin => some fun a b => if a.slt b then a else b
  | .quad_imax => some fun a b => if b.slt a then a else b
  | _ => none

/-- One operation runs: both sources are read, then the destination is written. -/
def se_quad (v : Vars) (q : Quad) (m : Mem w) : Option (Mem w) :=
  (quadValue q.fn).map fun f =>
    quad_write_int v m q.dest (f (quad_read_int v m q.src1) (quad_read_int v m q.src2))

def runQuads (v : Vars) : List Quad → Mem w → Option (Mem w) := runAll (se_quad v)

theorem se_quad_only_dest (v : Vars) : OnlyDest Quad.dest (se_quad (w := w) v) := by
  intro q m m' h c hc
  rw [se_quad, Option.map_eq_some_iff] at h
  obtain ⟨f, -, rfl⟩ := h
  exact Function.update_of_ne (Ne.symm hc) _ _

/-- An operation with a known meaning leaves its value in the destination. -/
theorem se_quad_writes {v : Vars} {q : Quad} {f : BitVec w → BitVec w → BitVec w}
    (hf : quadValue q.fn = some f) (m : Mem w) : ∃ m', se_quad v q m = some m' ∧
      m' q.dest = v.fit q.dest (f (quad_read_int v m q.src1) (quad_read_int v m q.src2)) := by
  refine ⟨quad_write_int v m q.dest (f (quad_read_int v m q.src1) (quad_read_int v m q.src2)),
    ?_, Function.update_self _ _ _⟩
  rw [se_quad, hf, Option.map_some]

/-- A read sees no difference in a memory that agrees on the cells of the parameter. -/
theorem quad_read_int_congr {v : Vars} {m m' : Mem w} {r : Ref}
    (h : ∀ c ∈ r.cells, m' c = m c) : quad_read_int v m' r = quad_read_int v m r := by
  cases r with
  | cell c =>
    have hc : m' c = m c := h c List.mem_cons_self
    simp only [quad_read_int, hc]
  | int_val | uint_val | float_val | null => rfl

/-! ## Type inference -/

inductive Kind where
  | logic | bitwise | cmp | arith
deriving DecidableEq, Repr

/-- The kind column of `op_info`. -/
def op_kind : Op → Option Kind
  | .lor | .land => some .logic
  | .bor | .bxor | .band | .shl | .shr => some .bitwise
  | .eq | .ne | .lt | .le | .gt | .ge => some .cmp
  | .add | .sub | .mul | .div | .mod => some .arith
  | .lnot | .bnot | .assign => none

/-- The float quad of a math function. -/
def Func.fn_f : Func → QuadFn
  | .sqrt => .quad_sqrt | .abs => .quad_fabs | .sin => .quad_sin | .cos => .quad_cos
  | .tan => .quad_tan | .asin => .quad_asin | .acos => .quad_acos | .atan => .quad_atan
  | .exp => .quad_exp | .log => .quad_log | .log10 => .quad_log10 | .log2 => .quad_log2
  | .sinh => .quad_sinh | .cosh => .quad_cosh | .tanh => .quad_tanh | .neg => .quad_fneg
  | .min => .quad_fmin | .max => .quad_fmax | .pow => .quad_pow | .atan2 => .quad_atan2

/-- The integer quad of a math function, where it has one. -/
def Func.fn_i : Func → Option QuadFn
  | .abs => some .quad_iabs
  | .neg => some .quad_ineg
  | .min => some .quad_imin
  | .max => some .quad_imax
  | _ => none

def infer_float (v : Vars) : Ast → Bool
  | .num _ is_float => is_float
  | .var name => (v.is_float name).getD false
  | .field _ => false
  | .unop _ operand => infer_float v operand
  | .binop op left right =>
    match op_kind op with
    | some .logic | some .bitwise | some .cmp => false
    | _ => infer_float v left || infer_float v right
  | .call1 f a => f.fn_i.isNone || infer_float v a
  | .call2 f a b => f.fn_i.isNone || (infer_float v a || infer_float v b)

/-! ## Constant folding -/

/-- What the numbers of Lua give for operators and functions on literals. -/
structure LuaNumbers where
  unop : Op → Int × Bool → Option (Int × Bool)
  binop : Op → Int × Bool → Int × Bool → Option (Int × Bool)
  call1 : Func → Int × Bool → Option (Int × Bool)
  call2 : Func → Int × Bool → Int × Bool → Option (Int × Bool)

def Ast.literal : Ast → Option (Int × Bool)
  | .num v is_float => some (v, is_float)
  | _ => none

/-- The node, or the literal that Lua computed for it. -/
def foldedTo (node : Ast) : Option (Int × Bool) → Ast
  | some (v, is_float) => .num v is_float
  | none => node

def fold_constants (lua : LuaNumbers) : Ast → Ast
  | .unop op x =>
    let x := fold_constants lua x
    foldedTo (.unop op x) (x.literal.bind (lua.unop op))
  | .binop op l r =>
    let l := fold_constants lua l
    let r := fold_constants lua r
    foldedTo (.binop op l r) (l.literal.bind fun a => r.literal.bind (lua.binop op a))
  | .call1 f a =>
    let a := fold_constants lua a
    foldedTo (.call1 f a) (a.literal.bind (lua.call1 f))
  | .call2 f a b =>
    let a := fold_constants lua a
    let b := fold_constants lua b
    foldedTo (.call2 f a b) (a.literal.bind fun x => b.literal.bind (lua.call2 f x))
  | leaf => leaf

/-! ## The code generator -/

inductive CompileError where
  | out_of_scratch (available need : Nat)
  | unknown_variable (name : String)
  | unknown_unary (op : Op)
  | no_quad_op (op : Op) (is_float : Bool)
  | no_quad_function (f : Func) (is_float : Bool)
  | parse_error
  | unexpected_tokens
deriving DecidableEq, Repr

/-- The state of `compile_ast`: the scratch counter, its highest value, and the
operations so far. -/
structure Gen where
  scratch_idx : Nat
  scratch_high : Nat
  ops : List Quad
deriving DecidableEq, Repr

def Gen.insert (g : Gen) (q : Quad) : Gen := { g with ops := g.ops ++ [q] }

/-- The counter goes up, and the scratch variable at the new count is the result. -/
def alloc_scratch (scratch_names : List String) (g : Gen) : Except CompileError (Cell × Gen) :=
  let scratch_idx := g.scratch_idx + 1
  match scratch_names[scratch_idx - 1]? with
  | some name =>
    .ok (.var name,
      { g with scratch_idx := scratch_idx, scratch_high := max g.scratch_high scratch_idx })
  | none => .error (.out_of_scratch scratch_names.length scratch_idx)

/-- The counter goes down. Which variable is free now is not recorded. -/
def free_scratch (g : Gen) : Gen := { g with scratch_idx := g.scratch_idx - 1 }

def ref_for (v : Vars) : Cell → Except CompileError Ref
  | .field name => .ok (.cell (.field name))
  | .var name =>
    if (v.is_float name).isSome then .ok (.cell (.var name)) else .error (.unknown_variable name)

def isLeaf : Ast → Bool
  | .num _ _ | .var _ | .field _ => true
  | _ => false

def literal_ref (value : Int) (is_float : Bool) : Ref :=
  if is_float then .float_val value
  else if value < 0 then .int_val value
  else .uint_val value

/-- `dest_name or alloc_scratch()` -/
def dest_or_scratch (scratch_names : List String) (dest_name : Option Cell) (g : Gen) :
    Except CompileError (Cell × Gen) :=
  match dest_name with
  | some c => .ok (c, g)
  | none => alloc_scratch scratch_names g

/-- A leaf is its own reference. With a destination it is moved there. -/
def emit_leaf (v : Vars) (lr : Ref) (dest_name : Option Cell) (g : Gen) :
    Except CompileError (Ref × Gen) :=
  match dest_name with
  | none => .ok (lr, g)
  | some c => do
    let dest_ref ← ref_for v c
    return (dest_ref, g.insert ⟨.quad_mov, lr, .null, c⟩)

def unop_fn (is_f : Bool) : Op → Except CompileError QuadFn
  | .sub => .ok (if is_f then .quad_fneg else .quad_ineg)
  | .lnot => .ok .quad_log_not
  | .bnot => .ok .quad_not
  | op => .error (.unknown_unary op)

def resolve_binop (op : Op) (is_f : Bool) : Except CompileError QuadFn :=
  match op with
  | .lor => .ok .quad_log_or
  | .land => .ok .quad_log_and
  | .bor => .ok .quad_or
  | .bxor => .ok .quad_xor
  | .band => .ok .quad_and
  | .eq => .ok (if is_f then .quad_feq else .quad_ieq)
  | .ne => .ok (if is_f then .quad_fne else .quad_ine)
  | .lt => .ok (if is_f then .quad_flt else .quad_ilt)
  | .le => .ok (if is_f then .quad_fle else .quad_ile)
  | .gt => .ok (if is_f then .quad_fgt else .quad_igt)
  | .ge => .ok (if is_f then .quad_fge else .quad_ige)
  | .shl => .ok .quad_shl
  | .shr => .ok .quad_shr
  | .add => .ok (if is_f then .quad_fadd else .quad_iadd)
  | .sub => .ok (if is_f then .quad_fsub else .quad_isub)
  | .mul => .ok (if is_f then .quad_fmul else .quad_imul)
  | .div => .ok (if is_f then .quad_fdiv else .quad_idiv)
  | .mod => .ok (if is_f then .quad_fmod else .quad_imod)
  | op => .error (.no_quad_op op is_f)

/-- `is_f and info.fn_f or (info.fn_i or info.fn_f)` -/
def call_fn (f : Func) (is_f : Bool) : QuadFn := if is_f then f.fn_f else f.fn_i.getD f.fn_f

/-- An operand that was computed gives its scratch variable back, unless the result goes
to the destination. -/
def free_operand (operand : Ast) (dest_name : Option Cell) (g : Gen) : Gen :=
  if !isLeaf operand && dest_name.isNone then free_scratch g else g

/-- The recursive emitter. A leaf operand emits nothing, so the four cases of the source
for a binary operator are the left operand followed by the right one. -/
def emit (v : Vars) (scratch_names : List String) :
    Ast → Option Cell → Gen → Except CompileError (Ref × Gen)
  | .num value is_float, dest_name, g => emit_leaf v (literal_ref value is_float) dest_name g
  | .var name, dest_name, g => do
    let lr ← ref_for v (.var name)
    emit_leaf v lr dest_name g
  | .field name, dest_name, g => emit_leaf v (.cell (.field name)) dest_name g
  | .unop op operand, dest_name, g => do
    let (operand_ref, g) ← emit v scratch_names operand none g
    let (scratch, g) ← dest_or_scratch scratch_names dest_name g
    let dest_ref ← ref_for v scratch
    let fn ← unop_fn (infer_float v operand) op
    return (dest_ref, g.insert ⟨fn, operand_ref, .null, scratch⟩)
  | .binop op left right, dest_name, g => do
    let (left_ref, g) ← emit v scratch_names left none g
    let (right_ref, g) ← emit v scratch_names right none g
    let (scratch, g) ← dest_or_scratch scratch_names dest_name g
    let dest_ref ← ref_for v scratch
    let fn ← resolve_binop op (infer_float v (.binop op left right))
    let g := g.insert ⟨fn, left_ref, right_ref, scratch⟩
    return (dest_ref, free_operand right dest_name (free_operand left dest_name g))
  | .call1 f a, dest_name, g => do
    let (arg_ref, g) ← emit v scratch_names a none g
    let (scratch, g) ← dest_or_scratch scratch_names dest_name g
    let dest_ref ← ref_for v scratch
    let fn := call_fn f (infer_float v (.call1 f a))
    return (dest_ref, g.insert ⟨fn, arg_ref, .null, scratch⟩)
  | .call2 f a b, dest_name, g => do
    let (a_ref, g) ← emit v scratch_names a none g
    let (b_ref, g) ← emit v scratch_names b none g
    let (scratch, g) ← dest_or_scratch scratch_names dest_name g
    let dest_ref ← ref_for v scratch
    let fn := call_fn f (infer_float v (.call2 f a b))
    return (dest_ref, g.insert ⟨fn, a_ref, b_ref, scratch⟩)

/-- `dest = expression`: parsed, folded and compiled. The tokens of the expression end
with `eof`. -/
def quad_expr (fuel : Nat) (lua : LuaNumbers) (v : Vars) (scratch : List String) (dest : Cell)
    (body : List Token) : Except CompileError (List Quad) :=
  match parse_expr fuel body 0 with
  | some (ast, [.eof]) => do
    let (_, g) ← emit v scratch (fold_constants lua ast) (some dest) ⟨0, 0, []⟩
    return g.ops
  | some _ => .error .unexpected_tokens
  | none => .error .parse_error

end motioncore.equation
