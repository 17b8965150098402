-- What an expression is worth, and the expressions that the compiler is meant for:
-- integers throughout, and no part that is constant.
import MotionCore.Equation.Layout

namespace motioncore.equation

/-! ## Values -/

variable {w : Nat}

def unopValue : Op → BitVec w → BitVec w
  | .sub, a => -a
  | .lnot, a => flag (a == 0)
  | .bnot, a => ~~~a
  | _, a => a

/-- The binary operators over `ct_int_t`. A division by zero gives zero. -/
def binopValue : Op → BitVec w → BitVec w → BitVec w
  | .lor, a, b => flag (a != 0 || b != 0)
  | .land, a, b => flag (a != 0 && b != 0)
  | .bor, a, b => a ||| b
  | .bxor, a, b => a ^^^ b
  | .band, a, b => a &&& b
  | .eq, a, b => flag (a == b)
  | .ne, a, b => flag (a != b)
  | .lt, a, b => flag (a.slt b)
  | .le, a, b => flag (a.sle b)
  | .gt, a, b => flag (b.slt a)
  | .ge, a, b => flag (b.sle a)
  | .shl, a, b => a <<< b.toNat
  | .shr, a, b => a.sshiftRight b.toNat
  | .add, a, b => a + b
  | .sub, a, b => a - b
  | .mul, a, b => a * b
  | .div, a, b => if b = 0 then 0 else a.sdiv b
  | .mod, a, b => if b = 0 then 0 else a.srem b
  | _, a, _ => a

/-- The math functions that work on integers. -/
def callValue : Func → Option (BitVec w → BitVec w → BitVec w)
  | .abs => some fun a _ => if a.slt 0 then -a else a
  | .neg => some fun a _ => -a
  | .min => some fun a b => if a.slt b then a else b
  | .max => some fun a b => if b.slt a then a else b
  | _ => none

/-- The value of the expression in a memory, where it is an integer. -/
def value (v : Vars) (m : Mem w) : Ast → Option (BitVec w)
  | .num a _ => some (BitVec.ofInt w a)
  | .var name => some (v.fit (.var name) (m (.var name)))
  | .field name => some (v.fit (.field name) (m (.field name)))
  | .unop op x => (value v m x).map (unopValue op)
  | .binop op l r => do
    let a ← value v m l
    let b ← value v m r
    return binopValue op a b
  | .call1 f x => do
    let g ← callValue f
    let a ← value v m x
    return g a 0
  | .call2 f x y => do
    let g ← callValue f
    let a ← value v m x
    let b ← value v m y
    return g a b

/-- The variables and fields of the expression. -/
def Ast.cells : Ast → List Cell
  | .num _ _ => []
  | .var name => [.var name]
  | .field name => [.field name]
  | .unop _ x | .call1 _ x => x.cells
  | .binop _ l r | .call2 _ l r => l.cells ++ r.cells

variable {v : Vars} {e : Ast}

theorem value_congr {m m' : Mem w} (h : ∀ c ∈ e.cells, m' c = m c) :
    value v m' e = value v m e := by
  induction e with
  | num => rfl
  | var name | field name =>
    rw [value, value, h _ List.mem_cons_self]
  | unop op x ih =>
    rw [value, value, ih h]
  | call1 f x ih =>
    rw [value, value, ih h]
  | binop op l r ihl ihr =>
    rw [value, value, ihl fun c hc => h c (List.mem_append_left _ hc),
      ihr fun c hc => h c (List.mem_append_right _ hc)]
  | call2 f x y ihx ihy =>
    rw [value, value, ihx fun c hc => h c (List.mem_append_left _ hc),
      ihy fun c hc => h c (List.mem_append_right _ hc)]

/-! ## Integer expressions -/

/-- Every literal, variable and function of the expression is an integer one. -/
def IntTyped (v : Vars) : Ast → Prop
  | .num _ is_float => is_float = false
  | .var name => v.is_float name = some false
  | .field _ => True
  | .unop _ x => IntTyped v x
  | .binop _ l r => IntTyped v l ∧ IntTyped v r
  | .call1 f x => f.fn_i.isSome ∧ IntTyped v x
  | .call2 f x y => f.fn_i.isSome ∧ IntTyped v x ∧ IntTyped v y

theorem int_infers_int (h : IntTyped v e) : infer_float v e = false := by
  induction e with
  | num => exact h
  | var name =>
    have hname : v.is_float name = some false := h
    rw [infer_float, hname]
    rfl
  | field => rfl
  | unop op x ih => exact ih h
  | binop op l r ihl ihr =>
    rw [infer_float, ihl h.1, ihr h.2]
    split <;> rfl
  | call1 f x ih =>
    rw [infer_float, ih h.2, Option.isNone_eq_false_iff.mpr h.1]
    rfl
  | call2 f x y ihx ihy =>
    rw [infer_float, ihx h.2.1, ihy h.2.2, Option.isNone_eq_false_iff.mpr h.1]
    rfl

/-! ## The quads mean the operators -/

theorem unop_quad_means {op : Op} {x : Ast} (hx : infer_float v x = false) :
    quadValue (w := w) (fnOf v (.unop op x)) = some fun a _ => unopValue op a := by
  rw [fnOf, hx]
  cases op <;> rfl

theorem binop_quad_means {op : Op} {l r : Ast} (hint : infer_float v (.binop op l r) = false) :
    quadValue (w := w) (fnOf v (.binop op l r)) = some (binopValue op) := by
  rw [fnOf, hint]
  cases op <;> rfl

theorem call_quad_means {f : Func} (hf : f.fn_i.isSome) :
    ∃ g, callValue (w := w) f = some g ∧ quadValue (call_fn f false) = some g := by
  cases f <;> first | exact ⟨_, rfl, rfl⟩ | cases hf

/-! ## Constant parts -/

/-- Every operand of the expression is a literal. -/
def constant : Ast → Bool
  | .num _ _ => true
  | .var _ | .field _ => false
  | .unop _ x | .call1 _ x => constant x
  | .binop _ l r | .call2 _ l r => constant l && constant r

/-- No operator or function of the expression works on literals only. -/
def NoConstantPart : Ast → Prop
  | .num _ _ | .var _ | .field _ => True
  | .unop _ x | .call1 _ x => constant x = false ∧ NoConstantPart x
  | .binop _ l r | .call2 _ l r =>
    (constant l && constant r) = false ∧ NoConstantPart l ∧ NoConstantPart r

theorem literal_of_not_constant (h : constant e = false) : e.literal = none := by
  cases e <;> first | rfl | cases h

theorem nothing_to_fold (lua : LuaNumbers) (h : NoConstantPart e) : fold_constants lua e = e := by
  have hpair : ∀ {l r : Ast} (f : Int × Bool → Int × Bool → Option (Int × Bool)),
      (constant l && constant r) = false →
      (l.literal.bind fun a => r.literal.bind (f a)) = none := by
    intro l r f hlr
    rcases Bool.and_eq_false_iff.mp hlr with hl | hr
    · rw [literal_of_not_constant hl]
      rfl
    · rw [literal_of_not_constant hr]
      cases l.literal <;> rfl
  induction e with
  | num | var | field => rfl
  | unop op x ih | call1 f x ih =>
    simp only [fold_constants, ih h.2, literal_of_not_constant h.1]
    rfl
  | binop op l r ihl ihr | call2 f l r ihl ihr =>
    simp only [fold_constants, ihl h.2.1, ihr h.2.2, hpair _ h.1]
    rfl

end motioncore.equation
