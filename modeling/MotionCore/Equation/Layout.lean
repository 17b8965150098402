-- Which scratch variable each intermediate result gets, and the code that is
-- emitted, in closed form. The generator refines this layout.
import MotionCore.Equation.Compile

namespace motioncore.equation

/-! ## The layout -/

/-- How many operands the node gives back after its operation: the computed ones of a
binary operator. The result stands that far above the counter. -/
def freed : Ast → Nat
  | .binop _ l r => (if isLeaf l then 0 else 1) + (if isLeaf r then 0 else 1)
  | _ => 0

/-- How far the counter goes up over the node. -/
def used : Ast → Nat
  | .num _ _ | .var _ | .field _ => 0
  | .unop _ x => used x + 1
  | .binop _ l r => used l + used r + 1 - ((if isLeaf l then 0 else 1) + (if isLeaf r then 0 else 1))
  | .call1 _ a => used a + 1
  | .call2 _ a b => used a + used b + 1

/-- The number of the scratch variable that holds the result of a node, when the counter
stands at `n` before it. -/
def slot (e : Ast) (n : Nat) : Nat := n + used e + freed e

variable (v : Vars) (names : List String)

/-- The scratch variable of the number, counted from one. -/
def tmp (k : Nat) : Cell := .var (names.getD (k - 1) "")

/-- Where the result of a node is found. -/
def refOf : Ast → Nat → Ref
  | .num value is_float, _ => literal_ref value is_float
  | .var name, _ => .cell (.var name)
  | .field name, _ => .cell (.field name)
  | e, n => .cell (tmp names (slot e n))

def fnOf : Ast → QuadFn
  | .unop op x => (unop_fn (infer_float v x) op).toOption.getD .quad_mov
  | .binop op l r =>
    (resolve_binop op (infer_float v (.binop op l r))).toOption.getD .quad_mov
  | .call1 f a => call_fn f (infer_float v (.call1 f a))
  | .call2 f a b => call_fn f (infer_float v (.call2 f a b))
  | _ => .quad_mov

/-- The operation of the node, with its destination. -/
def lastOp (e : Ast) (n : Nat) (d : Cell) : Quad :=
  match e with
  | .unop _ x | .call1 _ x => ⟨fnOf v e, refOf names x n, .null, d⟩
  | .binop _ l r | .call2 _ l r => ⟨fnOf v e, refOf names l n, refOf names r (n + used l), d⟩
  | leaf => ⟨.quad_mov, refOf names leaf n, .null, d⟩

/-- The code of a node whose result goes to a scratch variable. -/
def code : Ast → Nat → List Quad
  | .num _ _, _ | .var _, _ | .field _, _ => []
  | .unop op x, n => code x n ++ [lastOp v names (.unop op x) n (tmp names (slot (.unop op x) n))]
  | .binop op l r, n =>
    (code l n ++ code r (n + used l)) ++
      [lastOp v names (.binop op l r) n (tmp names (slot (.binop op l r) n))]
  | .call1 f a, n => code a n ++ [lastOp v names (.call1 f a) n (tmp names (slot (.call1 f a) n))]
  | .call2 f a b, n =>
    (code a n ++ code b (n + used a)) ++
      [lastOp v names (.call2 f a b) n (tmp names (slot (.call2 f a b) n))]

def operandCode : Ast → Nat → List Quad
  | .unop _ x, n | .call1 _ x, n => code v names x n
  | .binop _ l r, n | .call2 _ l r, n => code v names l n ++ code v names r (n + used l)
  | _, _ => []

/-- Every scratch variable that the node takes is one of the first `bound`. -/
def Within (bound : Nat) : Ast → Nat → Prop
  | .num _ _, _ | .var _, _ | .field _, _ => True
  | .unop op x, n => Within bound x n ∧ slot (.unop op x) n ≤ bound
  | .binop op l r, n =>
    (Within bound l n ∧ Within bound r (n + used l)) ∧ slot (.binop op l r) n ≤ bound
  | .call1 f a, n => Within bound a n ∧ slot (.call1 f a) n ≤ bound
  | .call2 f a b, n =>
    (Within bound a n ∧ Within bound b (n + used a)) ∧ slot (.call2 f a b) n ≤ bound

def OperandsWithin (bound : Nat) : Ast → Nat → Prop
  | .unop _ x, n | .call1 _ x, n => Within bound x n
  | .binop _ l r, n | .call2 _ l r, n => Within bound l n ∧ Within bound r (n + used l)
  | _, _ => True

variable {v names}
variable {e : Ast}

theorem code_leaf (he : isLeaf e) (n : Nat) : code v names e n = [] := by
  cases e <;> first | rfl | cases he

theorem code_node (he : isLeaf e = false) (n : Nat) : code v names e n =
      operandCode v names e n ++ [lastOp v names e n (tmp names (slot e n))] := by
  cases e <;> first | rfl | cases he

theorem refOf_node (he : isLeaf e = false) (n : Nat) :
    refOf names e n = .cell (tmp names (slot e n)) := by
  cases e <;> first | rfl | cases he

theorem within_node {bound : Nat} (he : isLeaf e = false) {n : Nat} :
    Within bound e n ↔ OperandsWithin bound e n ∧ slot e n ≤ bound := by
  cases e <;> first | exact Iff.rfl | cases he

@[simp] theorem lastOp_dest (e : Ast) (n : Nat) (d : Cell) : (lastOp v names e n d).dest = d := by
  cases e <;> rfl

theorem used_leaf (he : isLeaf e) : used e = 0 := by
  cases e <;> first | rfl | cases he

theorem used_pos (he : isLeaf e = false) : 0 < used e := by
  induction e with
  | num | var | field => cases he
  | unop | call1 | call2 => exact Nat.succ_pos _
  | binop op l r ihl ihr =>
    rw [used]
    cases hl : isLeaf l with
    | true =>
      cases hr : isLeaf r with
      | true => simp
      | false =>
        have := ihr hr
        simp only [if_true, Bool.false_eq_true, if_false]
        omega
    | false =>
      have := ihl hl
      cases hr : isLeaf r with
      | true =>
        simp only [if_true, Bool.false_eq_true, if_false]
        omega
      | false =>
        have := ihr hr
        simp only [Bool.false_eq_true, if_false]
        omega

/-- A computed operand took the variable that it gives back. -/
theorem given_back_le_used (e : Ast) : (if isLeaf e then 0 else 1) ≤ used e := by
  cases h : isLeaf e with
  | true => simp
  | false => exact used_pos h

/-- The operation of a node with two operands takes the next variable after both. -/
theorem slot_binop (op : Op) (l r : Ast) (n : Nat) :
    slot (.binop op l r) n = n + used l + used r + 1 := by
  have hl := given_back_le_used l
  have hr := given_back_le_used r
  rw [slot, used, freed]
  omega

theorem slot_unop (op : Op) (x : Ast) (n : Nat) : slot (.unop op x) n = n + used x + 1 := rfl

theorem slot_call1 (f : Func) (a : Ast) (n : Nat) : slot (.call1 f a) n = n + used a + 1 := rfl

theorem slot_call2 (f : Func) (a b : Ast) (n : Nat) :
    slot (.call2 f a b) n = n + used a + used b + 1 := by
  simp only [slot, used, freed]
  omega

/-- The result of a computed node stands above the counter before it. -/
theorem lt_slot (he : isLeaf e = false) (n : Nat) : n < slot e n := by
  have := used_pos he
  rw [slot]
  omega

/-! ## The generator follows the layout -/

theorem ok_of_bind {ε α β : Type} {x : Except ε α} {f : α → Except ε β} {b : β}
    (h : x >>= f = .ok b) : ∃ a, x = .ok a ∧ f a = .ok b := by
  cases x with
  | error e => cases h
  | ok a => exact ⟨a, rfl, h⟩

variable {g g' : Gen}

theorem alloc_scratch_ok {c : Cell} (h : alloc_scratch names g = .ok (c, g')) :
    c = tmp names (g.scratch_idx + 1) ∧ g.scratch_idx + 1 ≤ names.length ∧
      g'.scratch_idx = g.scratch_idx + 1 ∧ g'.ops = g.ops := by
  unfold alloc_scratch at h
  simp only [Nat.add_sub_cancel] at h
  rcases hn : names[g.scratch_idx]? with _ | name
  · rw [hn] at h
    cases h
  · rw [hn] at h
    obtain ⟨hlt, hget⟩ := List.getElem?_eq_some_iff.mp hn
    cases h
    refine ⟨?_, hlt, rfl, rfl⟩
    simp [tmp, List.getD_eq_getElem?_getD, hn]

variable {r : Ref}

theorem ref_for_ok {c : Cell} (h : ref_for v c = .ok r) : r = .cell c := by
  cases c with
  | field name => cases h; rfl
  | var name =>
    rw [ref_for] at h
    split at h
    · cases h; rfl
    · cases h

/-- What the emitter does to the state when the result goes to a scratch variable. -/
structure Emitted (v : Vars) (names : List String) (e : Ast) (g : Gen) (r : Ref) (g' : Gen) :
    Prop where
  ref : r = refOf names e g.scratch_idx
  ops : g'.ops = g.ops ++ code v names e g.scratch_idx
  idx : g'.scratch_idx = g.scratch_idx + used e
  within : Within names.length e g.scratch_idx

/-- What it does when the result goes to the destination. -/
structure EmittedTo (v : Vars) (names : List String) (e : Ast) (d : Cell) (g : Gen) (g' : Gen) :
    Prop where
  ops : g'.ops =
    g.ops ++ (operandCode v names e g.scratch_idx ++ [lastOp v names e g.scratch_idx d])
  within : OperandsWithin names.length e g.scratch_idx

theorem fn_of_unop {op : Op} {x : Ast} {fn : QuadFn}
    (h : unop_fn (infer_float v x) op = .ok fn) : fnOf v (.unop op x) = fn := by
  rw [fnOf, h]
  rfl

theorem fn_of_binop {op : Op} {l r : Ast} {fn : QuadFn}
    (h : resolve_binop op (infer_float v (.binop op l r)) = .ok fn) :
    fnOf v (.binop op l r) = fn := by
  rw [fnOf, h]
  rfl

@[simp] theorem free_operand_ops (x : Ast) (dest : Option Cell) (g : Gen) :
    (free_operand x dest g).ops = g.ops := by
  unfold free_operand free_scratch
  split <;> rfl

theorem free_operand_idx (x : Ast) (g : Gen) :
    (free_operand x none g).scratch_idx = g.scratch_idx - (if isLeaf x then 0 else 1) := by
  cases hx : isLeaf x <;> simp [free_operand, free_scratch, hx]

/-- Every node without a destination follows the layout. -/
theorem emit_follows_layout {ref : Ref} (h : emit v names e none g = .ok (ref, g')) :
    Emitted v names e g ref g' := by
  induction e generalizing g ref g' with
  | num a is_float =>
    cases h
    exact ⟨rfl, by simp [code], rfl, trivial⟩
  | var name =>
    obtain ⟨lr, hlr, h⟩ := ok_of_bind h
    have hlr := ref_for_ok hlr
    cases h
    exact ⟨hlr, by simp [code], rfl, trivial⟩
  | field name =>
    cases h
    exact ⟨rfl, by simp [code], rfl, trivial⟩
  | unop op x ih =>
    obtain ⟨⟨r₁, g₁⟩, h₁, h⟩ := ok_of_bind h
    obtain ⟨⟨c, g₂⟩, h₂, h⟩ := ok_of_bind h
    obtain ⟨dr, hdr, h⟩ := ok_of_bind h
    obtain ⟨fn, hfn, h⟩ := ok_of_bind h
    have hx := ih h₁
    obtain ⟨hc, hle, hidx, hops⟩ := alloc_scratch_ok h₂
    have hdr := ref_for_ok hdr
    cases h
    rw [hx.idx] at hc hle hidx
    subst hc hdr
    refine ⟨rfl, ?_, hidx, hx.within, hle⟩
    simp only [Gen.insert, hops, hx.ops, hx.ref, code, lastOp, fn_of_unop hfn, slot_unop,
      List.append_assoc]
  | binop op l r ihl ihr =>
    obtain ⟨⟨r₁, g₁⟩, h₁, h⟩ := ok_of_bind h
    obtain ⟨⟨r₂, g₂⟩, h₂, h⟩ := ok_of_bind h
    obtain ⟨⟨c, g₃⟩, h₃, h⟩ := ok_of_bind h
    obtain ⟨dr, hdr, h⟩ := ok_of_bind h
    obtain ⟨fn, hfn, h⟩ := ok_of_bind h
    have hl := ihl h₁
    have hr := ihr h₂
    have hidxl : g₁.scratch_idx = g.scratch_idx + used l := hl.idx
    have hidxr : g₂.scratch_idx = g.scratch_idx + used l + used r := by rw [hr.idx, hidxl]
    obtain ⟨hc, hle, hidx, hops⟩ := alloc_scratch_ok h₃
    have hdr := ref_for_ok hdr
    cases h
    rw [hidxr] at hc hle hidx
    have hslot := slot_binop op l r g.scratch_idx
    subst hc hdr
    refine ⟨?_, ?_, ?_, ⟨hl.within, hidxl ▸ hr.within⟩, hslot ▸ hle⟩
    · rw [refOf_node rfl, hslot]
    · simp only [free_operand_ops, Gen.insert, hops, hr.ops, hr.ref, hl.ops, hl.ref, hidxl, code,
        lastOp, fn_of_binop hfn, hslot, List.append_assoc]
    · have hlback := given_back_le_used l
      have hrback := given_back_le_used r
      simp only [free_operand_idx, Gen.insert, hidx, used]
      omega
  | call1 f a ih =>
    obtain ⟨⟨r₁, g₁⟩, h₁, h⟩ := ok_of_bind h
    obtain ⟨⟨c, g₂⟩, h₂, h⟩ := ok_of_bind h
    obtain ⟨dr, hdr, h⟩ := ok_of_bind h
    have ha := ih h₁
    obtain ⟨hc, hle, hidx, hops⟩ := alloc_scratch_ok h₂
    have hdr := ref_for_ok hdr
    cases h
    rw [ha.idx] at hc hle hidx
    subst hc hdr
    refine ⟨rfl, ?_, hidx, ha.within, hle⟩
    simp only [Gen.insert, hops, ha.ops, ha.ref, code, lastOp, fnOf, slot_call1, List.append_assoc]
  | call2 f a b iha ihb =>
    obtain ⟨⟨r₁, g₁⟩, h₁, h⟩ := ok_of_bind h
    obtain ⟨⟨r₂, g₂⟩, h₂, h⟩ := ok_of_bind h
    obtain ⟨⟨c, g₃⟩, h₃, h⟩ := ok_of_bind h
    obtain ⟨dr, hdr, h⟩ := ok_of_bind h
    have ha := iha h₁
    have hb := ihb h₂
    have hidxa : g₁.scratch_idx = g.scratch_idx + used a := ha.idx
    have hidxb : g₂.scratch_idx = g.scratch_idx + used a + used b := by rw [hb.idx, hidxa]
    obtain ⟨hc, hle, hidx, hops⟩ := alloc_scratch_ok h₃
    have hdr := ref_for_ok hdr
    cases h
    rw [hidxb] at hc hle hidx
    have hslot := slot_call2 f a b g.scratch_idx
    subst hc hdr
    refine ⟨?_, ?_, ?_, ⟨ha.within, hidxa ▸ hb.within⟩, hslot ▸ hle⟩
    · rw [refOf_node rfl, hslot]
    · simp only [Gen.insert, hops, hb.ops, hb.ref, ha.ops, ha.ref, hidxa, code, lastOp, fnOf,
        hslot, List.append_assoc]
    · simp only [Gen.insert, hidx, used]
      omega

theorem emit_leaf_to {lr : Ref} {d : Cell} (h : emit_leaf v lr (some d) g = .ok (r, g')) :
    g'.ops = g.ops ++ [⟨.quad_mov, lr, .null, d⟩] := by
  obtain ⟨dr, -, h⟩ := ok_of_bind h
  cases h
  rfl

/-- The root follows the layout, and its own operation writes the destination. -/
theorem emit_to_follows_layout {d : Cell} (h : emit v names e (some d) g = .ok (r, g')) :
    EmittedTo v names e d g g' := by
  cases e with
  | num a is_float => exact ⟨emit_leaf_to h, trivial⟩
  | var name =>
    obtain ⟨lr, hlr, h⟩ := ok_of_bind h
    rw [ref_for_ok hlr] at h
    exact ⟨emit_leaf_to h, trivial⟩
  | field name => exact ⟨emit_leaf_to h, trivial⟩
  | unop op x =>
    obtain ⟨⟨r₁, g₁⟩, h₁, h⟩ := ok_of_bind h
    obtain ⟨⟨c, g₂⟩, h₂, h⟩ := ok_of_bind h
    obtain ⟨dr, hdr, h⟩ := ok_of_bind h
    obtain ⟨fn, hfn, h⟩ := ok_of_bind h
    have hx := emit_follows_layout h₁
    cases h₂
    cases h
    refine ⟨?_, hx.within⟩
    simp only [Gen.insert, hx.ops, hx.ref, operandCode, lastOp, fn_of_unop hfn, List.append_assoc]
  | binop op l r =>
    obtain ⟨⟨r₁, g₁⟩, h₁, h⟩ := ok_of_bind h
    obtain ⟨⟨r₂, g₂⟩, h₂, h⟩ := ok_of_bind h
    obtain ⟨⟨c, g₃⟩, h₃, h⟩ := ok_of_bind h
    obtain ⟨dr, hdr, h⟩ := ok_of_bind h
    obtain ⟨fn, hfn, h⟩ := ok_of_bind h
    have hl := emit_follows_layout h₁
    have hr := emit_follows_layout h₂
    cases h₃
    cases h
    refine ⟨?_, hl.within, hl.idx ▸ hr.within⟩
    simp only [free_operand_ops, Gen.insert, hr.ops, hr.ref, hl.ops, hl.ref, hl.idx, operandCode,
      lastOp, fn_of_binop hfn, List.append_assoc]
  | call1 f a =>
    obtain ⟨⟨r₁, g₁⟩, h₁, h⟩ := ok_of_bind h
    obtain ⟨⟨c, g₂⟩, h₂, h⟩ := ok_of_bind h
    obtain ⟨dr, hdr, h⟩ := ok_of_bind h
    have ha := emit_follows_layout h₁
    cases h₂
    cases h
    refine ⟨?_, ha.within⟩
    simp only [Gen.insert, ha.ops, ha.ref, operandCode, lastOp, fnOf, List.append_assoc]
  | call2 f a b =>
    obtain ⟨⟨r₁, g₁⟩, h₁, h⟩ := ok_of_bind h
    obtain ⟨⟨r₂, g₂⟩, h₂, h⟩ := ok_of_bind h
    obtain ⟨⟨c, g₃⟩, h₃, h⟩ := ok_of_bind h
    obtain ⟨dr, hdr, h⟩ := ok_of_bind h
    have ha := emit_follows_layout h₁
    have hb := emit_follows_layout h₂
    cases h₃
    cases h
    refine ⟨?_, ha.within, ha.idx ▸ hb.within⟩
    simp only [Gen.insert, hb.ops, hb.ref, ha.ops, ha.ref, ha.idx, operandCode, lastOp, fnOf,
      List.append_assoc]

end motioncore.equation
