-- Expressions as conditions. The predicate compiler emits every operation of the
-- expression as a child of the control node, so that only a single comparison or
-- connective on leaves is one condition.
import MotionCore.Equation.Scratch

namespace motioncore.equation

/-! ## Predicate operations -/

/-- The predicate quads of comparisons and connectives. -/
inductive PQuadFn where
  | p_icmp_eq | p_icmp_ne | p_icmp_lt | p_icmp_le | p_icmp_gt | p_icmp_ge
  | p_fcmp_eq | p_fcmp_ne | p_fcmp_lt | p_fcmp_le | p_fcmp_gt | p_fcmp_ge
  | p_log_and | p_log_or
deriving DecidableEq, Repr

/-- What is emitted: a oneshot call or a predicate call. -/
inductive CallFn where
  | o_call (fn : QuadFn)
  | p_call (fn : PQuadFn)
deriving DecidableEq, Repr

structure CallOp where
  fn : CallFn
  src1 : Ref
  src2 : Ref
  dest : Cell
deriving DecidableEq, Repr

/-- `resolve_binop` with `use_pred`: comparisons and connectives are predicates, the other
operators are the oneshots of `quad_expr`. -/
def resolve_pred_binop (op : Op) (is_f : Bool) : Except CompileError CallFn :=
  match op with
  | .lor => .ok (.p_call .p_log_or)
  | .land => .ok (.p_call .p_log_and)
  | .eq => .ok (.p_call (if is_f then .p_fcmp_eq else .p_icmp_eq))
  | .ne => .ok (.p_call (if is_f then .p_fcmp_ne else .p_icmp_ne))
  | .lt => .ok (.p_call (if is_f then .p_fcmp_lt else .p_icmp_lt))
  | .le => .ok (.p_call (if is_f then .p_fcmp_le else .p_icmp_le))
  | .gt => .ok (.p_call (if is_f then .p_fcmp_gt else .p_icmp_gt))
  | .ge => .ok (.p_call (if is_f then .p_fcmp_ge else .p_icmp_ge))
  | op => do
    let fn ← resolve_binop op is_f
    return .o_call fn

/-! ## The compiler -/

/-- The scratch counter and the operations so far. -/
structure PredGen where
  scratch_idx : Nat
  ops : List CallOp
deriving DecidableEq, Repr

def PredGen.insert (g : PredGen) (op : CallOp) : PredGen := { g with ops := g.ops ++ [op] }

/-- The counter goes up, and the new scratch variable takes the result. -/
def pred_scratch (v : Vars) (scratch_names : List String) (g : PredGen) :
    Except CompileError (Cell × Ref × PredGen) := do
  let scratch_idx := g.scratch_idx + 1
  match scratch_names[scratch_idx - 1]? with
  | some name => do
    let dest_ref ← ref_for v (.var name)
    return (.var name, dest_ref, { g with scratch_idx := scratch_idx })
  | none => .error (.out_of_scratch scratch_names.length scratch_idx)

def free_pred_operand (operand : Ast) (g : PredGen) : PredGen :=
  if isLeaf operand then g else { g with scratch_idx := g.scratch_idx - 1 }

/-- The recursive emitter with `is_pred`, which is never given a destination. -/
def emit_pred (v : Vars) (scratch_names : List String) :
    Ast → PredGen → Except CompileError (Ref × PredGen)
  | .num value is_float, g => .ok (literal_ref value is_float, g)
  | .var name, g => do
    let lr ← ref_for v (.var name)
    return (lr, g)
  | .field name, g => .ok (.cell (.field name), g)
  | .unop op operand, g => do
    let (operand_ref, g) ← emit_pred v scratch_names operand g
    let (scratch, dest_ref, g) ← pred_scratch v scratch_names g
    let fn ← unop_fn (infer_float v operand) op
    return (dest_ref, g.insert ⟨.o_call fn, operand_ref, .null, scratch⟩)
  | .binop op left right, g => do
    let (left_ref, g) ← emit_pred v scratch_names left g
    let (right_ref, g) ← emit_pred v scratch_names right g
    let (scratch, dest_ref, g) ← pred_scratch v scratch_names g
    let fn ← resolve_pred_binop op (infer_float v (.binop op left right))
    let g := g.insert ⟨fn, left_ref, right_ref, scratch⟩
    return (dest_ref, free_pred_operand right (free_pred_operand left g))
  | .call1 f a, g => do
    let (arg_ref, g) ← emit_pred v scratch_names a g
    let (scratch, dest_ref, g) ← pred_scratch v scratch_names g
    let fn := call_fn f (infer_float v (.call1 f a))
    return (dest_ref, g.insert ⟨.o_call fn, arg_ref, .null, scratch⟩)
  | .call2 f a b, g => do
    let (a_ref, g) ← emit_pred v scratch_names a g
    let (b_ref, g) ← emit_pred v scratch_names b g
    let (scratch, dest_ref, g) ← pred_scratch v scratch_names g
    let fn := call_fn f (infer_float v (.call2 f a b))
    return (dest_ref, g.insert ⟨.o_call fn, a_ref, b_ref, scratch⟩)

/-- The operations that the closure emits, one call after the other. -/
def quad_pred (fuel : Nat) (lua : LuaNumbers) (v : Vars) (scratch : List String)
    (body : List Token) : Except CompileError (List CallOp) :=
  match parse_expr fuel body 0 with
  | some (ast, [.eof]) => do
    let (_, g) ← emit_pred v scratch (fold_constants lua ast) ⟨0, []⟩
    return g.ops
  | some _ => .error .unexpected_tokens
  | none => .error .parse_error

/-! ## Control nodes -/

/-- A logical child of a control node: a call that the condition emitted, or one of the
branches that the caller emits. -/
inductive Child where
  | call (op : CallOp)
  | then_child
  | else_child
  | body_child
deriving DecidableEq, Repr

/-- The children in the order in which they are emitted. -/
def se_if_then_else (pred_ops : List CallOp) : List Child :=
  pred_ops.map .call ++ [.then_child, .else_child]

def se_while (pred_ops : List CallOp) : List Child := pred_ops.map .call ++ [.body_child]

variable {w : Nat}

/-- What the predicates compute. The float comparisons are not run. -/
def pquadValue : PQuadFn → Option (BitVec w → BitVec w → BitVec w)
  | .p_icmp_eq => some fun a b => flag (a == b)
  | .p_icmp_ne => some fun a b => flag (a != b)
  | .p_icmp_lt => some fun a b => flag (a.slt b)
  | .p_icmp_le => some fun a b => flag (a.sle b)
  | .p_icmp_gt => some fun a b => flag (b.slt a)
  | .p_icmp_ge => some fun a b => flag (b.sle a)
  | .p_log_and => some fun a b => flag (a != 0 && b != 0)
  | .p_log_or => some fun a b => flag (a != 0 || b != 0)
  | _ => none

/-- A predicate quad: the result is written to the destination, and is true when it is not
zero. -/
def se_p_quad (v : Vars) (fn : PQuadFn) (src1 src2 : Ref) (dest : Cell) (m : Mem w) :
    Option (Bool × Mem w) :=
  (pquadValue fn).map fun f =>
    let result := f (quad_read_int v m src1) (quad_read_int v m src2)
    (result != 0, quad_write_int v m dest result)

/-- The condition of a control node: its first child as a predicate. The index of a oneshot
means another function in the table of predicates. -/
def invoke_condition (v : Vars) (children : List Child) (m : Mem w) : Option (Bool × Mem w) :=
  match children with
  | .call ⟨.p_call fn, src1, src2, dest⟩ :: _ => se_p_quad v fn src1 src2 dest m
  | _ => none

/-- The operations are one predicate call, and the branches stand where the control nodes
look for them. -/
structure OneCondition (ops : List CallOp) : Prop where
  one_call : ∃ fn src1 src2 dest, ops = [⟨.p_call fn, src1, src2, dest⟩]
  then_at : (se_if_then_else ops)[1]? = some .then_child
  else_at : (se_if_then_else ops)[2]? = some .else_child
  body_at : (se_while ops)[1]? = some .body_child

/-- Both control nodes see the condition true exactly when the expression is not zero. -/
structure Decides (v : Vars) (w : Nat) (ast : Ast) (ops : List CallOp) : Prop where
  one : OneCondition ops
  if_truth : ∀ m : Mem w, (invoke_condition v (se_if_then_else ops) m).map Prod.fst =
    some (decide (value v m ast ≠ some 0))
  while_truth : ∀ m : Mem w, (invoke_condition v (se_while ops) m).map Prod.fst =
    some (decide (value v m ast ≠ some 0))

/-! ## When it is one condition -/

/-- A single comparison or connective on leaves. -/
def isTest : Ast → Bool
  | .binop op l r => isLeaf l && isLeaf r && (op_kind op == some .cmp || op_kind op == some .logic)
  | _ => false

/-- Constant folding does not change whether the expression is zero. -/
def FoldKeepsTruth (lua : LuaNumbers) (v : Vars) (w : Nat) (ast : Ast) : Prop :=
  ∀ m : Mem w, value v m (fold_constants lua ast) ≠ some 0 ↔ value v m ast ≠ some 0

/-- The number of operators and functions. -/
def operations : Ast → Nat
  | .num _ _ | .var _ | .field _ => 0
  | .unop _ x | .call1 _ x => operations x + 1
  | .binop _ l r | .call2 _ l r => operations l + operations r + 1

theorem leaf_iff_no_operation {e : Ast} : isLeaf e = true ↔ operations e = 0 := by
  cases e <;> simp [isLeaf, operations]

section

variable {v : Vars} {names : List String}
variable {g g' : PredGen} {r : Ref}

theorem pred_scratch_ok {c : Cell} (h : pred_scratch v names g = .ok (c, r, g')) :
    g'.ops = g.ops := by
  unfold pred_scratch at h
  dsimp only at h
  split at h
  · obtain ⟨dest_ref, -, h⟩ := ok_of_bind h
    cases h
    rfl
  · cases h

@[simp] theorem free_pred_operand_ops (x : Ast) (g : PredGen) :
    (free_pred_operand x g).ops = g.ops := by
  unfold free_pred_operand
  split <;> rfl

variable {e : Ast}

/-- Every operator and function is one call. -/
theorem emit_pred_length (h : emit_pred v names e g = .ok (r, g')) :
    g'.ops.length = g.ops.length + operations e := by
  induction e generalizing g g' r with
  | num value is_float =>
    cases h
    rfl
  | var name =>
    obtain ⟨lr, -, h⟩ := ok_of_bind h
    cases h
    rfl
  | field name =>
    cases h
    rfl
  | unop op x ih =>
    obtain ⟨⟨x_ref, g₁⟩, hx, h⟩ := ok_of_bind h
    obtain ⟨⟨c, dest_ref, g₂⟩, hc, h⟩ := ok_of_bind h
    obtain ⟨fn, -, h⟩ := ok_of_bind h
    cases h
    simp [PredGen.insert, pred_scratch_ok hc, ih hx, operations]
    omega
  | binop op l r ihl ihr =>
    obtain ⟨⟨l_ref, g₁⟩, hl, h⟩ := ok_of_bind h
    obtain ⟨⟨r_ref, g₂⟩, hr, h⟩ := ok_of_bind h
    obtain ⟨⟨c, dest_ref, g₃⟩, hc, h⟩ := ok_of_bind h
    obtain ⟨fn, -, h⟩ := ok_of_bind h
    cases h
    simp [PredGen.insert, pred_scratch_ok hc, ihr hr, ihl hl, operations]
    omega
  | call1 f x ih =>
    obtain ⟨⟨x_ref, g₁⟩, hx, h⟩ := ok_of_bind h
    obtain ⟨⟨c, dest_ref, g₂⟩, hc, h⟩ := ok_of_bind h
    cases h
    simp [PredGen.insert, pred_scratch_ok hc, ih hx, operations]
    omega
  | call2 f x y ihx ihy =>
    obtain ⟨⟨x_ref, g₁⟩, hx, h⟩ := ok_of_bind h
    obtain ⟨⟨y_ref, g₂⟩, hy, h⟩ := ok_of_bind h
    obtain ⟨⟨c, dest_ref, g₃⟩, hc, h⟩ := ok_of_bind h
    cases h
    simp [PredGen.insert, pred_scratch_ok hc, ihy hy, ihx hx, operations]
    omega

theorem emit_pred_leaf (he : isLeaf e = true) (h : emit_pred v names e g = .ok (r, g')) :
    g'.ops = g.ops ∧ ∀ {w : Nat} (m : Mem w), value v m e = some (quad_read_int v m r) := by
  cases e with
  | num a is_float =>
    cases h
    refine ⟨rfl, fun m => ?_⟩
    unfold literal_ref
    split
    · rfl
    · split <;> rfl
  | var name =>
    obtain ⟨lr, hlr, h⟩ := ok_of_bind h
    cases h
    rw [ref_for_ok hlr]
    exact ⟨rfl, fun m => rfl⟩
  | field name =>
    cases h
    exact ⟨rfl, fun m => rfl⟩
  | _ => cases he

variable {op : Op} {fn : PQuadFn}

/-- A call that is a predicate belongs to a comparison or a connective. -/
theorem pred_call_kind {is_f : Bool} (h : resolve_pred_binop op is_f = .ok (.p_call fn)) :
    op_kind op = some .cmp ∨ op_kind op = some .logic := by
  cases op <;> first | exact Or.inl rfl | exact Or.inr rfl | cases h

theorem test_is_pred_call {is_f : Bool} {fn : CallFn} (h : resolve_pred_binop op is_f = .ok fn)
    (hkind : op_kind op = some .cmp ∨ op_kind op = some .logic) : ∃ pfn, fn = .p_call pfn := by
  cases op <;> first | (cases h; exact ⟨_, rfl⟩) | (rcases hkind with hkind | hkind <;> cases hkind)

/-- The predicate of a test computes its operator. -/
theorem test_value (h : resolve_pred_binop op false = .ok (.p_call fn)) :
    pquadValue (w := w) fn = some (binopValue op) := by
  cases op <;> cases h <;> rfl

/-- Comparisons and connectives are inferred to be integers whatever their operands are. -/
theorem test_infers_int {l r : Ast} (hkind : op_kind op = some .cmp ∨ op_kind op = some .logic) :
    infer_float v (.binop op l r) = false := by
  rcases hkind with hkind | hkind <;> simp [infer_float, hkind]

/-- So no float comparison is ever emitted. -/
theorem emitted_test_is_integer {l r : Ast}
    (h : resolve_pred_binop op (infer_float v (.binop op l r)) = .ok (.p_call fn)) :
    pquadValue (w := w) fn = some (binopValue op) := by
  rw [test_infers_int (pred_call_kind h)] at h
  exact test_value h

theorem oneCondition_of_call {src1 src2 : Ref} {dest : Cell} :
    OneCondition [⟨.p_call fn, src1, src2, dest⟩] :=
  ⟨⟨fn, src1, src2, dest, rfl⟩, rfl, rfl, rfl⟩

/-- A test is compiled to one predicate, that has its truth. -/
theorem test_is_condition (he : isTest e = true) (h : emit_pred v names e ⟨0, []⟩ = .ok (r, g')) :
    OneCondition g'.ops ∧ ∀ {w : Nat} (m : Mem w), ∀ rest,
      (invoke_condition v (g'.ops.map .call ++ rest) m).map Prod.fst =
        some (decide (value v m e ≠ some 0)) := by
  cases e with
  | binop op l r =>
    simp only [isTest, Bool.and_eq_true, Bool.or_eq_true, beq_iff_eq] at he
    obtain ⟨⟨hl, hr⟩, hkind⟩ := he
    obtain ⟨⟨l_ref, g₁⟩, hemitl, h⟩ := ok_of_bind h
    obtain ⟨⟨r_ref, g₂⟩, hemitr, h⟩ := ok_of_bind h
    obtain ⟨⟨c, dest_ref, g₃⟩, hc, h⟩ := ok_of_bind h
    obtain ⟨fn, hfn, h⟩ := ok_of_bind h
    cases h
    obtain ⟨hops₁, hvl⟩ := emit_pred_leaf hl hemitl
    obtain ⟨hops₂, hvr⟩ := emit_pred_leaf hr hemitr
    obtain ⟨pfn, rfl⟩ := test_is_pred_call hfn hkind
    have hops : (free_pred_operand r (free_pred_operand l
        (g₃.insert ⟨.p_call pfn, l_ref, r_ref, c⟩))).ops = [⟨.p_call pfn, l_ref, r_ref, c⟩] := by
      simp [PredGen.insert, pred_scratch_ok hc, hops₂, hops₁]
    rw [hops]
    refine ⟨oneCondition_of_call, fun m rest => ?_⟩
    have hvalue : value v m (.binop op l r) =
        some (binopValue op (quad_read_int v m l_ref) (quad_read_int v m r_ref)) := by
      simp [value, hvl, hvr]
    simp only [List.map_cons, List.map_nil, List.cons_append, invoke_condition, se_p_quad,
      emitted_test_is_integer hfn, Option.map_some, hvalue, Option.some.injEq]
    simp [bne, Bool.beq_eq_decide_eq]
  | _ => cases he

theorem condition_is_test (h : emit_pred v names e ⟨0, []⟩ = .ok (r, g'))
    (hone : OneCondition g'.ops) : isTest e = true := by
  obtain ⟨fn, src1, src2, dest, hops⟩ := hone.one_call
  have hlength : operations e = 1 := by
    have hlen := emit_pred_length h
    rw [hops] at hlen
    simpa using hlen.symm
  -- the only call is the one of the root
  have hlast : ∀ {g : PredGen} {op : CallOp} {ops : List CallOp}, ops = g.ops ++ [op] →
      ops = g'.ops → op.fn = .p_call fn := by
    intro g op ops hops' heq
    rw [hops', hops] at heq
    have hop := (List.append_eq_singleton_iff.mp heq)
    rcases hop with ⟨-, hop⟩ | ⟨-, hop⟩
    · rw [List.singleton_inj] at hop
      rw [hop]
    · cases hop
  cases e with
  | num | var | field => cases hlength
  | unop op x =>
    obtain ⟨⟨x_ref, g₁⟩, hx, h⟩ := ok_of_bind h
    obtain ⟨⟨c, dest_ref, g₂⟩, hc, h⟩ := ok_of_bind h
    obtain ⟨qfn, -, h⟩ := ok_of_bind h
    cases h
    cases hlast (g := g₂) rfl rfl
  | binop op l r =>
    obtain ⟨⟨l_ref, g₁⟩, hl, h⟩ := ok_of_bind h
    obtain ⟨⟨r_ref, g₂⟩, hr, h⟩ := ok_of_bind h
    obtain ⟨⟨c, dest_ref, g₃⟩, hc, h⟩ := ok_of_bind h
    obtain ⟨qfn, hfn, h⟩ := ok_of_bind h
    cases h
    have hinsert : (g₃.insert ⟨qfn, l_ref, r_ref, c⟩).ops = g₃.ops ++ [⟨qfn, l_ref, r_ref, c⟩] := rfl
    have hqfn := hlast hinsert (by simp)
    subst hqfn
    have hkind := pred_call_kind hfn
    have hl : isLeaf l = true := leaf_iff_no_operation.mpr (by rw [operations] at hlength; omega)
    have hr : isLeaf r = true := leaf_iff_no_operation.mpr (by rw [operations] at hlength; omega)
    simp [isTest, hl, hr, hkind]
  | call1 f x =>
    obtain ⟨⟨x_ref, g₁⟩, hx, h⟩ := ok_of_bind h
    obtain ⟨⟨c, dest_ref, g₂⟩, hc, h⟩ := ok_of_bind h
    cases h
    cases hlast (g := g₂) rfl rfl
  | call2 f x y =>
    obtain ⟨⟨x_ref, g₁⟩, hx, h⟩ := ok_of_bind h
    obtain ⟨⟨y_ref, g₂⟩, hy, h⟩ := ok_of_bind h
    obtain ⟨⟨c, dest_ref, g₃⟩, hc, h⟩ := ok_of_bind h
    cases h
    cases hlast (g := g₃) rfl rfl

end

/-! ## The compiled condition -/

/-- The closure is one condition exactly for a single comparison or connective on leaves. Over
integers it has the truth of the expression then, if folding constants did not change it. -/
theorem quad_pred_decides_iff {fuel : Nat} {lua : LuaNumbers} {v : Vars} {scratch : List String}
    {body : List Token} {ast : Ast} {ops : List CallOp} {w : Nat}
    (hparse : parse_expr fuel body 0 = some (ast, [.eof]))
    (hops : quad_pred fuel lua v scratch body = .ok ops) :
    (OneCondition ops ↔ isTest (fold_constants lua ast) = true) ∧
      (IntTyped v ast → (Decides v w ast ops ↔
        isTest (fold_constants lua ast) = true ∧ FoldKeepsTruth lua v w ast)) := by
  rw [quad_pred, hparse] at hops
  obtain ⟨⟨r, g⟩, hemit, hops⟩ := ok_of_bind hops
  cases hops
  have hone : OneCondition g.ops ↔ isTest (fold_constants lua ast) = true :=
    ⟨condition_is_test hemit, fun htest => (test_is_condition htest hemit).1⟩
  refine ⟨hone, fun _ => ⟨fun h => ?_, fun ⟨htest, hkeeps⟩ => ?_⟩⟩
  · have htest := hone.mp h.one
    refine ⟨htest, fun m => ?_⟩
    have hfolded := (test_is_condition htest hemit).2 m [.then_child, .else_child]
    have hvalue := h.if_truth m
    rw [se_if_then_else, hfolded, Option.some.injEq, decide_eq_decide] at hvalue
    exact hvalue
  · obtain ⟨hcond, htruth⟩ := test_is_condition htest hemit
    have hkept : ∀ m : Mem w, decide (value v m (fold_constants lua ast) ≠ some 0) =
        decide (value v m ast ≠ some 0) := fun m => decide_eq_decide.mpr (hkeeps m)
    refine ⟨hcond, fun m => ?_, fun m => ?_⟩
    · rw [se_if_then_else, htruth, hkept]
    · rw [se_while, htruth, hkept]

/-- Two integer variables and three for intermediate results. -/
def testVars : Vars where
  is_float name := if name ∈ ["x", "y", "t0", "t1", "t2"] then some false else none
  field_size _ := .four

/-- `x < y` -/
def oneTest : List Token := [.ident "x", .op .lt, .ident "y", .eof]

theorem one_test_decides : ∃ ops, quad_pred 20 noFolding testVars ["t0"] oneTest = .ok ops ∧
    Decides testVars 32 (.binop .lt (.var "x") (.var "y")) ops := by
  obtain ⟨ops, hops⟩ : ∃ ops, quad_pred 20 noFolding testVars ["t0"] oneTest = .ok ops := ⟨_, rfl⟩
  have hparse : parse_expr 20 oneTest 0 = some (.binop .lt (.var "x") (.var "y"), [.eof]) := rfl
  have h := quad_pred_decides_iff (w := 32) hparse hops
  exact ⟨ops, hops, (h.2 ⟨rfl, rfl⟩).mpr ⟨rfl, fun m => Iff.rfl⟩⟩

/-- `x > 5 && y <= 10` -/
def twoTests : List Token :=
  [.ident "x", .op .gt, .num 5 false, .op .land, .ident "y", .op .le, .num 10 false, .eof]

def twoTestsAst : Ast :=
  .binop .land (.binop .gt (.var "x") (.num 5 false)) (.binop .le (.var "y") (.num 10 false))

/-- Two comparisons and their connective are three children, and the second comparison stands
where the branch is expected. -/
theorem two_tests_are_three_children : parse_expr 20 twoTests 0 = some (twoTestsAst, [.eof]) ∧
    IntTyped testVars twoTestsAst ∧ ∃ ops,
      quad_pred 20 noFolding testVars ["t0", "t1", "t2"] twoTests = .ok ops ∧
      (se_if_then_else ops)[1]? =
        some (.call ⟨.p_call .p_icmp_le, .cell (.var "y"), .uint_val 10, .var "t1"⟩) ∧
      ¬ Decides testVars 32 twoTestsAst ops := by
  refine ⟨rfl, ⟨⟨rfl, rfl⟩, rfl, rfl⟩, _, rfl, rfl, fun h => ?_⟩
  have hthen := h.one.then_at
  revert hthen
  decide

end motioncore.equation
