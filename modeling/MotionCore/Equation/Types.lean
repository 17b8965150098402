-- The types of the compiler and of the runtime: for which expressions the emitted operations read
-- and write floats where the inference has floats.
import MotionCore.Equation.Predicates
import MotionCore.Quads.Predicate

open motioncore.quads (FloatUnit Opcode Action action POpcode PAction p_action)

namespace motioncore.equation

/-! ## The operations at run time -/

def QuadFn.opcode : QuadFn → Opcode
  | .quad_iadd => .IADD | .quad_isub => .ISUB | .quad_imul => .IMUL | .quad_idiv => .IDIV
  | .quad_imod => .IMOD | .quad_ineg => .INEG
  | .quad_fadd => .FADD | .quad_fsub => .FSUB | .quad_fmul => .FMUL | .quad_fdiv => .FDIV
  | .quad_fmod => .FMOD | .quad_fneg => .FNEG
  | .quad_and => .BIT_AND | .quad_or => .BIT_OR | .quad_xor => .BIT_XOR | .quad_not => .BIT_NOT
  | .quad_shl => .BIT_SHL | .quad_shr => .BIT_SHR
  | .quad_ieq => .ICMP_EQ | .quad_ine => .ICMP_NE | .quad_ilt => .ICMP_LT | .quad_ile => .ICMP_LE
  | .quad_igt => .ICMP_GT | .quad_ige => .ICMP_GE
  | .quad_feq => .FCMP_EQ | .quad_fne => .FCMP_NE | .quad_flt => .FCMP_LT | .quad_fle => .FCMP_LE
  | .quad_fgt => .FCMP_GT | .quad_fge => .FCMP_GE
  | .quad_log_and => .LOG_AND | .quad_log_or => .LOG_OR | .quad_log_not => .LOG_NOT
  | .quad_mov => .MOV
  | .quad_sqrt => .FSQRT | .quad_sin => .FSIN | .quad_cos => .FCOS | .quad_tan => .FTAN
  | .quad_asin => .FASIN | .quad_acos => .FACOS | .quad_atan => .FATAN
  | .quad_exp => .FEXP | .quad_log => .FLOG | .quad_log10 => .FLOG10 | .quad_log2 => .FLOG2
  | .quad_sinh => .FSINH | .quad_cosh => .FCOSH | .quad_tanh => .FTANH
  | .quad_pow => .FPOW | .quad_atan2 => .FATAN2
  | .quad_iabs => .IABS | .quad_imin => .IMIN | .quad_imax => .IMAX
  | .quad_fabs => .FABS | .quad_fmin => .FMIN | .quad_fmax => .FMAX

/-- How an operation reads its operands, and how it tags its result. -/
structure Access where
  reads_float : Bool
  writes_float : Bool
deriving DecidableEq

variable {w : Nat}

def accessOf : Action w → Access
  | .int1 _ | .int2 _ => ⟨false, false⟩
  | .cmp _ => ⟨true, false⟩
  | .float1 _ | .float2 _ => ⟨true, true⟩

def QuadFn.access (F : FloatUnit w) (fn : QuadFn) : Access := accessOf (action F fn.opcode)

def PQuadFn.opcode : PQuadFn → POpcode
  | .p_icmp_eq => .ICMP_EQ | .p_icmp_ne => .ICMP_NE | .p_icmp_lt => .ICMP_LT
  | .p_icmp_le => .ICMP_LE | .p_icmp_gt => .ICMP_GT | .p_icmp_ge => .ICMP_GE
  | .p_fcmp_eq => .FCMP_EQ | .p_fcmp_ne => .FCMP_NE | .p_fcmp_lt => .FCMP_LT
  | .p_fcmp_le => .FCMP_LE | .p_fcmp_gt => .FCMP_GT | .p_fcmp_ge => .FCMP_GE
  | .p_log_and => .LOG_AND | .p_log_or => .LOG_OR

/-- The values that a predicate works on. It reads its operands both ways. -/
def p_accessOf : PAction w → Access
  | .int _ | .int_acc _ => ⟨false, false⟩
  | .cmp _ | .cmp_acc _ => ⟨true, false⟩

def CallFn.access (F : FloatUnit w) : CallFn → Access
  | .o_call fn => fn.access F
  | .p_call fn => p_accessOf (p_action F fn.opcode)

/-! ## Nodes and their operations -/

def Ast.operands : Ast → List Ast
  | .num _ _ | .var _ | .field _ => []
  | .unop _ x | .call1 _ x => [x]
  | .binop _ l r | .call2 _ l r => [l, r]

/-- The nodes that an operation is emitted for, in the order of the operations. -/
def Ast.computed : Ast → List Ast
  | .num _ _ | .var _ | .field _ => []
  | .unop op x => x.computed ++ [.unop op x]
  | .binop op l r => l.computed ++ r.computed ++ [.binop op l r]
  | .call1 f x => x.computed ++ [.call1 f x]
  | .call2 f x y => x.computed ++ y.computed ++ [.call2 f x y]

/-- With a destination, a leaf has an operation too. -/
def Ast.assigned (e : Ast) : List Ast := if isLeaf e then [e] else e.computed

/-- The inference and the operation agree at a node. -/
structure NodeSound (v : Vars) (node : Ast) (a : Access) : Prop where
  result : infer_float v node = a.writes_float
  operands : ∀ x ∈ node.operands, infer_float v x = true → a.reads_float = true

/-- The operations are sound for the nodes that they are emitted for. -/
def Sound (v : Vars) (nodes : List Ast) (ops : List Access) : Prop :=
  List.Forall₂ (NodeSound v) nodes ops

/-- A complement, a connective, a bitwise operator or a comparison has no float operand. -/
def nodeFits (v : Vars) : Ast → Bool
  | .unop op x => op == .sub || !infer_float v x
  | .binop op l r => op_kind op == some .arith || (!infer_float v l && !infer_float v r)
  | _ => true

def FloatsInArithmetic (v : Vars) (e : Ast) : Prop := ∀ node ∈ e.computed, nodeFits v node = true

instance (v : Vars) (e : Ast) : Decidable (FloatsInArithmetic v e) :=
  inferInstanceAs (Decidable (∀ node ∈ e.computed, nodeFits v node = true))

section

variable {v : Vars} {names : List String} {F : FloatUnit w}

/-! ## Which operation belongs to which node -/

variable (e : Ast)

theorem code_fns (n : Nat) : (code v names e n).map Quad.fn = e.computed.map (fnOf v) := by
  induction e generalizing n with
  | num | var | field => rfl
  | unop op x ih | call1 f x ih =>
    simp only [code, Ast.computed, List.map_append, ih, List.map_cons, List.map_nil, lastOp]
  | binop op l r ihl ihr | call2 f l r ihl ihr =>
    simp only [code, Ast.computed, List.map_append, ihl, ihr, List.map_cons, List.map_nil, lastOp]

theorem emit_fns {e : Ast} {d : Cell} {ref : Ref} {g : Gen}
    (h : emit v names e (some d) ⟨0, 0, []⟩ = .ok (ref, g)) :
    g.ops.map Quad.fn = e.assigned.map (fnOf v) := by
  have hops := (emit_to_follows_layout h).ops
  rw [hops]
  cases e with
  | num | var | field => rfl
  | unop op x | call1 f x =>
    simp [operandCode, lastOp, code_fns, Ast.assigned, isLeaf, Ast.computed]
  | binop op l r | call2 f l r =>
    simp [operandCode, lastOp, code_fns, Ast.assigned, isLeaf, Ast.computed]

/-- The operation of a node of a condition. -/
def predFnOf (v : Vars) : Ast → CallFn
  | .binop op l r =>
    (resolve_pred_binop op (infer_float v (.binop op l r))).toOption.getD (.o_call .quad_mov)
  | e => .o_call (fnOf v e)

theorem emit_pred_fns {e : Ast} {g g' : PredGen} {ref : Ref}
    (h : emit_pred v names e g = .ok (ref, g')) :
    g'.ops.map CallOp.fn = g.ops.map CallOp.fn ++ e.computed.map (predFnOf v) := by
  induction e generalizing g g' ref with
  | num value is_float =>
    cases h
    simp [Ast.computed]
  | var name =>
    obtain ⟨lr, -, h⟩ := ok_of_bind h
    cases h
    simp [Ast.computed]
  | field name =>
    cases h
    simp [Ast.computed]
  | unop op x ih =>
    obtain ⟨⟨x_ref, g₁⟩, hx, h⟩ := ok_of_bind h
    obtain ⟨⟨c, dest_ref, g₂⟩, hc, h⟩ := ok_of_bind h
    obtain ⟨fn, hfn, h⟩ := ok_of_bind h
    cases h
    simp [PredGen.insert, pred_scratch_ok hc, ih hx, Ast.computed, predFnOf, fn_of_unop hfn]
  | binop op l r ihl ihr =>
    obtain ⟨⟨l_ref, g₁⟩, hl, h⟩ := ok_of_bind h
    obtain ⟨⟨r_ref, g₂⟩, hr, h⟩ := ok_of_bind h
    obtain ⟨⟨c, dest_ref, g₃⟩, hc, h⟩ := ok_of_bind h
    obtain ⟨fn, hfn, h⟩ := ok_of_bind h
    have hpred : predFnOf v (.binop op l r) = fn := by
      rw [predFnOf, hfn]
      rfl
    cases h
    simp [PredGen.insert, pred_scratch_ok hc, ihr hr, ihl hl, Ast.computed, hpred]
  | call1 f a ih =>
    obtain ⟨⟨a_ref, g₁⟩, ha, h⟩ := ok_of_bind h
    obtain ⟨⟨c, dest_ref, g₂⟩, hc, h⟩ := ok_of_bind h
    cases h
    simp [PredGen.insert, pred_scratch_ok hc, ih ha, Ast.computed, predFnOf, fnOf]
  | call2 f a b iha ihb =>
    obtain ⟨⟨a_ref, g₁⟩, ha, h⟩ := ok_of_bind h
    obtain ⟨⟨b_ref, g₂⟩, hb, h⟩ := ok_of_bind h
    obtain ⟨⟨c, dest_ref, g₃⟩, hc, h⟩ := ok_of_bind h
    cases h
    simp [PredGen.insert, pred_scratch_ok hc, ihb hb, iha ha, Ast.computed, predFnOf, fnOf]

/-! ## Soundness at a node -/

variable {node : Ast}

/-- An operation that knows integers only is sound where the node and its operands are
integers. -/
theorem int_access_sound_iff : NodeSound v node ⟨false, false⟩ ↔
      infer_float v node = false ∧ ∀ x ∈ node.operands, infer_float v x = false := by
  constructor
  · rintro ⟨hresult, hoperands⟩
    exact ⟨hresult, fun x hx => Bool.eq_false_iff.mpr fun hfloat => by cases hoperands x hx hfloat⟩
  · rintro ⟨hresult, hoperands⟩
    exact ⟨hresult, fun x hx hfloat => by rw [hoperands x hx] at hfloat; cases hfloat⟩

theorem float_access_sound (h : infer_float v node = true) :
    NodeSound v node ⟨true, true⟩ := ⟨h, fun _ _ _ => rfl⟩

variable {op : Op} {l r : Ast}

theorem arith_sound (hop : op_kind op = some .arith) {fn : QuadFn}
    (hfn : resolve_binop op (infer_float v (.binop op l r)) = .ok fn) :
    NodeSound v (.binop op l r) (fn.access F) := by
  have hinfer : infer_float v (.binop op l r) = (infer_float v l || infer_float v r) := by
    rw [infer_float, hop]
  cases hfloat : infer_float v (.binop op l r) with
  | true =>
    rw [hfloat] at hfn
    have haccess : fn.access F = ⟨true, true⟩ := by
      cases op <;> cases hop <;> cases hfn <;> rfl
    rw [haccess]
    exact float_access_sound hfloat
  | false =>
    rw [hfloat] at hfn
    have haccess : fn.access F = ⟨false, false⟩ := by
      cases op <;> cases hop <;> cases hfn <;> rfl
    rw [hinfer, Bool.or_eq_false_iff] at hfloat
    rw [haccess, int_access_sound_iff, hinfer]
    simp [Ast.operands, hfloat]

variable (f : Func)

/-- The function of a call has the type of its node. -/
theorem call_access (is_f : Bool) : (call_fn f (f.fn_i.isNone || is_f)).access F =
      ⟨f.fn_i.isNone || is_f, f.fn_i.isNone || is_f⟩ := by
  cases f <;> cases is_f <;> rfl

theorem same_access_sound
    (h : ∀ x ∈ node.operands, infer_float v x = true → infer_float v node = true) :
    NodeSound v node ⟨infer_float v node, infer_float v node⟩ :=
  ⟨rfl, h⟩

theorem unop_sound_iff (op : Op) (x : Ast) :
    NodeSound v (.unop op x) ((fnOf v (.unop op x)).access F) ↔ nodeFits v (.unop op x) = true := by
  by_cases hsub : op = .sub
  · subst hsub
    have haccess : (fnOf v (.unop .sub x)).access F = ⟨infer_float v x, infer_float v x⟩ := by
      rw [fnOf]
      cases infer_float v x <;> rfl
    rw [haccess]
    exact iff_of_true (same_access_sound (by simp [Ast.operands, infer_float])) (by simp [nodeFits])
  · have haccess : (fnOf v (.unop op x)).access F = ⟨false, false⟩ := by
      cases op <;> first | exact absurd rfl hsub | rfl
    rw [haccess, int_access_sound_iff]
    simp [nodeFits, hsub, Ast.operands, infer_float]

theorem call1_sound (x : Ast) : NodeSound v (.call1 f x) ((fnOf v (.call1 f x)).access F) := by
  rw [fnOf, infer_float, call_access]
  apply same_access_sound
  simp only [Ast.operands, List.mem_singleton, infer_float]
  rintro y rfl hfloat
  simp [hfloat]

theorem call2_sound (x y : Ast) :
    NodeSound v (.call2 f x y) ((fnOf v (.call2 f x y)).access F) := by
  rw [fnOf, infer_float, call_access]
  apply same_access_sound
  simp only [Ast.operands, List.mem_cons, List.not_mem_nil, or_false, infer_float]
  rintro z (rfl | rfl) hfloat <;> simp [hfloat]

theorem int_operands_infer_int (hl : infer_float v l = false) (hr : infer_float v r = false) :
    infer_float v (.binop op l r) = false := by
  rw [infer_float, hl, hr]
  split <;> rfl

/-- A binary operator that is no arithmetic has an operation on integers, in an assignment as in
a condition. -/
theorem int_binop_sound_iff (hop : op_kind op ≠ some .arith) :
    NodeSound v (.binop op l r) ⟨false, false⟩ ↔ nodeFits v (.binop op l r) = true := by
  rw [int_access_sound_iff]
  simp only [nodeFits, beq_iff_eq, hop, Ast.operands, List.mem_cons, List.not_mem_nil, or_false,
    forall_eq_or_imp, forall_eq, Bool.or_eq_true, Bool.and_eq_true, Bool.not_eq_true', false_or]
  exact ⟨fun h => h.2, fun h => ⟨int_operands_infer_int h.1 h.2, h⟩⟩

theorem arith_call (hop : op_kind op = some .arith) (is_f : Bool) :
    ∃ fn, resolve_binop op is_f = .ok fn ∧ resolve_pred_binop op is_f = .ok (.o_call fn) := by
  cases op <;> cases hop <;> exact ⟨_, rfl, rfl⟩

theorem binop_sound_iff (op : Op) (l r : Ast) :
    NodeSound v (.binop op l r) ((fnOf v (.binop op l r)).access F) ↔
      nodeFits v (.binop op l r) = true := by
  by_cases hop : op_kind op = some .arith
  · obtain ⟨fn, hfn, -⟩ := arith_call hop (infer_float v (.binop op l r))
    have hnode : fnOf v (.binop op l r) = fn := by
      rw [fnOf, hfn]
      rfl
    rw [hnode]
    exact iff_of_true (arith_sound hop hfn) (by simp [nodeFits, hop])
  · have haccess : (fnOf v (.binop op l r)).access F = ⟨false, false⟩ := by
      cases op <;> first | exact absurd rfl hop | rfl
    rw [haccess]
    exact int_binop_sound_iff hop

theorem pred_binop_sound_iff (op : Op) (l r : Ast) :
    NodeSound v (.binop op l r) ((predFnOf v (.binop op l r)).access F) ↔
      nodeFits v (.binop op l r) = true := by
  by_cases hop : op_kind op = some .arith
  · obtain ⟨fn, hfn, hcall⟩ := arith_call hop (infer_float v (.binop op l r))
    have hnode : predFnOf v (.binop op l r) = .o_call fn := by
      rw [predFnOf, hcall]
      rfl
    rw [hnode]
    exact iff_of_true (arith_sound hop hfn) (by simp [nodeFits, hop])
  · have haccess : (predFnOf v (.binop op l r)).access F = ⟨false, false⟩ := by
      cases op <;> first | exact absurd rfl hop | rfl
    rw [haccess]
    exact int_binop_sound_iff hop

/-! ## Soundness of an expression -/

theorem mem_computed {e : Ast} (h : node ∈ e.computed) : isLeaf node = false := by
  induction e with
  | num | var | field => cases h
  | unop op x ih | call1 f x ih =>
    rcases List.mem_append.mp h with h | h
    · exact ih h
    · rw [List.mem_singleton.mp h]
      rfl
  | binop op l r ihl ihr | call2 f l r ihl ihr =>
    rcases List.mem_append.mp h with h | h
    · exact (List.mem_append.mp h).elim ihl ihr
    · rw [List.mem_singleton.mp h]
      rfl

theorem node_sound_iff (h : isLeaf node = false) :
    NodeSound v node ((fnOf v node).access F) ↔ nodeFits v node = true := by
  cases node with
  | num | var | field => cases h
  | unop op x => exact unop_sound_iff op x
  | binop op l r => exact binop_sound_iff op l r
  | call1 f x => exact iff_of_true (call1_sound f x) rfl
  | call2 f x y => exact iff_of_true (call2_sound f x y) rfl

theorem pred_node_sound_iff (h : isLeaf node = false) :
    NodeSound v node ((predFnOf v node).access F) ↔ nodeFits v node = true := by
  cases node with
  | num | var | field => cases h
  | unop op x => exact unop_sound_iff op x
  | binop op l r => exact pred_binop_sound_iff op l r
  | call1 f x => exact iff_of_true (call1_sound f x) rfl
  | call2 f x y => exact iff_of_true (call2_sound f x y) rfl

theorem sound_map_iff {nodes : List Ast} {access : Ast → Access} {ops : List Access}
    (hops : ops = nodes.map access) :
    Sound v nodes ops ↔ ∀ node ∈ nodes, NodeSound v node (access node) := by
  rw [Sound, hops, List.forall₂_map_right_iff, List.forall₂_same]

theorem leaf_sound_iff {leaf : Ast} (h : isLeaf leaf = true) :
    NodeSound v leaf ((fnOf v leaf).access F) ↔ infer_float v leaf = false := by
  have haccess : (fnOf v leaf).access F = ⟨false, false⟩ := by
    cases leaf <;> first | rfl | cases h
  have hnone : leaf.operands = [] := by
    cases leaf <;> first | rfl | cases h
  rw [haccess, int_access_sound_iff, hnone]
  simp

theorem assigned_sound_iff : (∀ node ∈ e.assigned, NodeSound v node ((fnOf v node).access F)) ↔
      FloatsInArithmetic v e ∧ (isLeaf e = true → infer_float v e = false) := by
  cases hleaf : isLeaf e with
  | true =>
    have hnone : e.computed = [] := by
      cases e <;> first | rfl | cases hleaf
    simp [Ast.assigned, hleaf, leaf_sound_iff hleaf, FloatsInArithmetic, hnone]
  | false =>
    simp only [Ast.assigned, hleaf, Bool.false_eq_true, if_false, false_imp_iff, and_true]
    exact forall₂_congr fun node hnode => node_sound_iff (mem_computed hnode)

theorem computed_sound_iff : (∀ node ∈ e.computed, NodeSound v node ((predFnOf v node).access F)) ↔
      FloatsInArithmetic v e :=
  forall₂_congr fun _ hnode => pred_node_sound_iff (mem_computed hnode)

/-- Every operation of an expression reads and writes floats where the inference has floats when
only arithmetic and functions have float operands and no float is just copied. The operations of
a condition are sound in the same way. -/
theorem emitted_sound_iff (F : FloatUnit w) (v : Vars) (names : List String) (e : Ast)
    (ref : Ref) :
    (∀ (d : Cell) (g : Gen), emit v names e (some d) ⟨0, 0, []⟩ = .ok (ref, g) →
      (Sound v e.assigned (g.ops.map fun q => q.fn.access F) ↔
        FloatsInArithmetic v e ∧ (isLeaf e = true → infer_float v e = false))) ∧
    (∀ g : PredGen, emit_pred v names e ⟨0, []⟩ = .ok (ref, g) →
      (Sound v e.computed (g.ops.map fun q => q.fn.access F) ↔ FloatsInArithmetic v e)) := by
  constructor
  · intro d g hemit
    have hops : (g.ops.map fun q => q.fn.access F) =
        e.assigned.map fun node => (fnOf v node).access F := by
      have hfns := congrArg (List.map fun fn => fn.access F) (emit_fns hemit)
      simpa [Function.comp_def] using hfns
    rw [sound_map_iff hops]
    exact assigned_sound_iff e
  · intro g hemit
    have hops : (g.ops.map fun q => q.fn.access F) =
        e.computed.map fun node => (predFnOf v node).access F := by
      have hfns := congrArg (List.map fun fn => fn.access F) (emit_pred_fns hemit)
      simpa [Function.comp_def] using hfns
    rw [sound_map_iff hops]
    exact computed_sound_iff e

/-! ## A comparison of floats -/

/-- A frame with an integer variable and a float variable. -/
def mixed_vars : Vars where
  is_float name := if name == "n" then some false else if name == "x" then some true else none
  field_size _ := .four

def sum_is_float : Ast := .binop .add (.var "n") (.var "x")

def float_compared : Ast := .binop .lt (.var "x") (.var "n")

theorem sum_is_sound :
    Sound mixed_vars sum_is_float.assigned
      ([QuadFn.quad_fadd].map fun fn => fn.access quads.simple32) :=
  ((emitted_sound_iff quads.simple32 mixed_vars [] sum_is_float _).1 (.var "x") _ rfl).mpr
    ⟨by decide, by decide⟩

/-- A comparison with a float is the comparison of the integers. -/
theorem float_comparison_is_unsound :
    emit mixed_vars [] float_compared (some (.var "n")) ⟨0, 0, []⟩ =
      .ok (.cell (.var "n"), ⟨0, 0, [⟨.quad_ilt, .cell (.var "x"), .cell (.var "n"), .var "n"⟩]⟩) ∧
    ¬ Sound mixed_vars float_compared.assigned
      ([QuadFn.quad_ilt].map fun fn => fn.access quads.simple32) := by
  refine ⟨rfl, fun h => ?_⟩
  cases h with
  | cons hnode _ => exact absurd (hnode.operands (.var "x") (by simp [Ast.operands]) rfl) (by decide)

end

end motioncore.equation
