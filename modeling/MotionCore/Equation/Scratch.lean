-- The scratch variables of the equation compiler. The allocator is a counter that
-- goes down after an operation, while the result stands in the variable taken last:
-- the next operation may overwrite a result that is still wanted. This file says for
-- which expressions that happens.
import MotionCore.Equation.Value
import Mathlib.Data.List.Nodup

open motioncore.straight

namespace motioncore.equation

/-! ## The condition -/

/-- The node is a single operation on leaves. -/
def oneOperation : Ast → Bool
  | .num _ _ | .var _ | .field _ => false
  | .unop _ x | .call1 _ x => isLeaf x
  | .binop _ l r | .call2 _ l r => isLeaf l && isLeaf r

/-- The result of the left operand is still there when the right one was computed. A
binary operator with one computed operand leaves its result one above the counter, which
is where the right operand starts. With two, it is two above, and a single operation
does not get there. -/
def outlives (l r : Ast) : Bool :=
  isLeaf l || isLeaf r || freed l == 0 || (freed l == 2 && oneOperation r)

/-- At every node with two operands the left result outlives the right operand. -/
def operandsOutlive : Ast → Bool
  | .num _ _ | .var _ | .field _ => true
  | .unop _ x | .call1 _ x => operandsOutlive x
  | .binop _ l r | .call2 _ l r => outlives l r && operandsOutlive l && operandsOutlive r

/-! ## Scratch variables as cells -/

variable {v : Vars} {names : List String}

theorem tmp_mem {k : Nat} (hpos : 0 < k) (hle : k ≤ names.length) :
    ∃ s ∈ names, tmp names k = .var s := by
  have hlt : k - 1 < names.length := by omega
  refine ⟨names[k - 1], List.getElem_mem hlt, ?_⟩
  simp [tmp, List.getD_eq_getElem?_getD, List.getElem?_eq_getElem hlt]

theorem tmp_inj (hnodup : names.Nodup) {j k : Nat} (hj : 0 < j) (hjle : j ≤ names.length)
    (hk : 0 < k) (hkle : k ≤ names.length) (h : tmp names j = tmp names k) : j = k := by
  have hjlt : j - 1 < names.length := by omega
  have hklt : k - 1 < names.length := by omega
  simp only [tmp, List.getD_eq_getElem?_getD, List.getElem?_eq_getElem hjlt,
    List.getElem?_eq_getElem hklt, Option.getD_some, Cell.var.injEq] at h
  have := (hnodup.getElem_inj_iff).mp h
  omega

/-- No scratch variable is used in the expression. -/
def Apart (names : List String) (e : Ast) : Prop := ∀ s ∈ names, Cell.var s ∉ e.cells

theorem Apart.tmp_ne {e : Ast} (h : Apart names e) {c : Cell} (hc : c ∈ e.cells) {k : Nat}
    (hpos : 0 < k) (hle : k ≤ names.length) : tmp names k ≠ c := by
  obtain ⟨s, hs, heq⟩ := tmp_mem hpos hle
  rw [heq]
  rintro rfl
  exact h s hs hc

/-- The code of a node writes the scratch variables behind the counter. -/
theorem code_writes {e : Ast} {n : Nat} (hw : Within names.length e n) {q : Quad}
    (hq : q ∈ code v names e n) : ∃ k, n < k ∧ k ≤ names.length ∧ q.dest = tmp names k := by
  induction e generalizing n with
  | num | var | field => cases hq
  | unop op x ih | call1 f x ih =>
    obtain ⟨hx, hslot⟩ := hw
    rcases List.mem_append.mp hq with hq | hq
    · exact ih hx hq
    · rw [List.mem_singleton] at hq
      subst hq
      exact ⟨_, lt_slot rfl n, hslot, lastOp_dest _ _ _⟩
  | binop op l r ihl ihr | call2 f l r ihl ihr =>
    obtain ⟨⟨hl, hr⟩, hslot⟩ := hw
    rcases List.mem_append.mp hq with hq | hq
    · rcases List.mem_append.mp hq with hq | hq
      · exact ihl hl hq
      · obtain ⟨k, hk, hle, hdest⟩ := ihr hr hq
        exact ⟨k, by omega, hle, hdest⟩
    · rw [List.mem_singleton] at hq
      subst hq
      exact ⟨_, lt_slot rfl n, hslot, lastOp_dest _ _ _⟩

theorem operandCode_writes {e : Ast} {n : Nat} (hw : OperandsWithin names.length e n) {q : Quad}
    (hq : q ∈ operandCode v names e n) : ∃ k, n < k ∧ k ≤ names.length ∧ q.dest = tmp names k := by
  cases e with
  | num | var | field => cases hq
  | unop op x | call1 f x => exact code_writes hw hq
  | binop op l r | call2 f l r =>
    rcases List.mem_append.mp hq with hq | hq
    · exact code_writes hw.1 hq
    · obtain ⟨k, hk, hle, hdest⟩ := code_writes hw.2 hq
      exact ⟨k, by omega, hle, hdest⟩

theorem slot_of_one_operation {e : Ast} (h : oneOperation e) (n : Nat) : slot e n = n + 1 := by
  cases e with
  | num | var | field => cases h
  | unop op x =>
    rw [slot_unop, used_leaf h]
  | call1 f x =>
    rw [slot_call1, used_leaf h]
  | binop op l r =>
    obtain ⟨hl, hr⟩ := Bool.and_eq_true_iff.mp h
    rw [slot_binop, used_leaf hl, used_leaf hr]
  | call2 f l r =>
    obtain ⟨hl, hr⟩ := Bool.and_eq_true_iff.mp h
    rw [slot_call2, used_leaf hl, used_leaf hr]

theorem one_operation_computes {e : Ast} (h : oneOperation e) : isLeaf e = false := by
  cases e <;> first | rfl | cases h

theorem code_of_one_operation {e : Ast} (h : oneOperation e) (n : Nat) :
    code v names e n = [lastOp v names e n (tmp names (n + 1))] := by
  have hoperands : operandCode v names e n = [] := by
    cases e with
    | num | var | field => rfl
    | unop op x | call1 f x => exact code_leaf h n
    | binop op l r | call2 f l r =>
      obtain ⟨hl, hr⟩ := Bool.and_eq_true_iff.mp h
      rw [operandCode, code_leaf hl, code_leaf hr]
      rfl
  rw [code_node (one_operation_computes h), hoperands, slot_of_one_operation h]
  rfl

/-- The right operand does not write the result of the left one. -/
theorem right_spares_left (hnodup : names.Nodup) {l r : Ast} {n : Nat} (hl : isLeaf l = false)
    (hwl : Within names.length l n) (hwr : Within names.length r (n + used l))
    (hout : outlives l r) {q : Quad} (hq : q ∈ code v names r (n + used l)) :
    q.dest ≠ tmp names (slot l n) := by
  have hpos : 0 < slot l n := Nat.lt_of_le_of_lt (Nat.zero_le n) (lt_slot hl n)
  have hslot : slot l n ≤ names.length := ((within_node hl).mp hwl).2
  obtain ⟨k, hk, hkle, hdest⟩ := code_writes hwr hq
  rw [hdest]
  intro heq
  have hkeq : k = slot l n := tmp_inj hnodup (by omega) hkle hpos hslot heq
  unfold outlives at hout
  rw [hl, Bool.false_or] at hout
  rcases Bool.or_eq_true_iff.mp hout with h | h
  · rcases Bool.or_eq_true_iff.mp h with hleaf | hzero
    · rw [code_leaf hleaf] at hq
      cases hq
    · -- the result is the variable of the counter itself
      rw [beq_iff_eq] at hzero
      rw [slot, hzero] at hkeq
      omega
  · obtain ⟨htwo, hone⟩ := Bool.and_eq_true_iff.mp h
    rw [beq_iff_eq] at htwo
    -- the one operation writes the variable below the result
    rw [code_of_one_operation hone, List.mem_singleton] at hq
    have hwone : n + used l + 1 ≤ names.length := by
      have := ((within_node (one_operation_computes hone)).mp hwr).2
      rwa [slot_of_one_operation hone] at this
    have hd : q.dest = tmp names (n + used l + 1) := by rw [hq, lastOp_dest]
    have : k = n + used l + 1 := tmp_inj hnodup (by omega) hkle (by omega) hwone (hdest.symm.trans hd)
    rw [slot, htwo] at hkeq
    omega

/-! ## The value -/

variable {w : Nat}

/-- The code of the node leaves its value where `refOf` looks for it. -/
def LeavesValue (v : Vars) (names : List String) (e : Ast) (n : Nat) (m : Mem w) : Prop :=
  ∃ m' a, runQuads v (code v names e n) m = some m' ∧ value v m e = some a ∧
    quad_read_int v m' (refOf names e n) = a

/-- After the code of the operands, the operation of the node computes its value. -/
def OperandsReady (v : Vars) (names : List String) (e : Ast) (n : Nat) (m : Mem w) : Prop :=
  ∃ m' a, runQuads v (operandCode v names e n) m = some m' ∧ value v m e = some a ∧
    ∀ d, ∃ m'', se_quad v (lastOp v names e n d) m' = some m'' ∧ m'' d = v.fit d a

theorem read_literal (m : Mem w) (a : Int) (is_float : Bool) :
    quad_read_int v m (literal_ref a is_float) = BitVec.ofInt w a := by
  unfold literal_ref
  split
  · rfl
  · split <;> rfl

theorem leaf_leaves_value {e : Ast} (he : isLeaf e) (n : Nat) (m : Mem w) :
    LeavesValue v names e n m := by
  cases e with
  | num a is_float => exact ⟨m, _, rfl, rfl, read_literal m a is_float⟩
  | var | field => exact ⟨m, _, rfl, rfl, rfl⟩
  | unop | binop | call1 | call2 => cases he

theorem node_leaves_value {e : Ast} (he : isLeaf e = false) {n : Nat} {m : Mem w}
    (h : OperandsReady v names e n m) : LeavesValue v names e n m := by
  obtain ⟨m₁, a, hrun, ha, hlast⟩ := h
  obtain ⟨m₂, hstep, hval⟩ := hlast (tmp names (slot e n))
  refine ⟨m₂, a, ?_, ha, ?_⟩
  · rw [code_node he]
    refine runAll_trans hrun ?_
    rw [runAll_cons, hstep]
    rfl
  · rw [refOf_node he]
    exact hval

theorem operand_leaves_value {e : Ast} {n : Nat} {m : Mem w} (hw : Within names.length e n)
    (h : OperandsWithin names.length e n → OperandsReady v names e n m) :
    LeavesValue v names e n m := by
  cases he : isLeaf e with
  | true => exact leaf_leaves_value he n m
  | false => exact node_leaves_value he (h ((within_node he).mp hw).1)

/-- A cell that is no scratch variable behind the counter keeps its value. -/
theorem code_keeps_cell {e : Ast} {n : Nat} (hw : Within names.length e n) {m m' : Mem w}
    (hrun : runQuads v (code v names e n) m = some m') {c : Cell}
    (hc : ∀ k, n < k → k ≤ names.length → tmp names k ≠ c) : m' c = m c := by
  refine unwritten_cell_keeps (se_quad_only_dest v) hrun ?_
  intro q hq heq
  obtain ⟨k, hk, hle, hdest⟩ := code_writes hw hq
  exact hc k hk hle (hdest.symm.trans heq)

theorem refOf_leaf_cells {e : Ast} (he : isLeaf e) {n : Nat} {c : Cell}
    (hc : c ∈ (refOf names e n).cells) : c ∈ e.cells := by
  cases e with
  | num a is_float =>
    simp only [refOf, literal_ref] at hc
    split at hc
    · cases hc
    · split at hc <;> cases hc
  | var | field => exact hc
  | unop | binop | call1 | call2 => cases he

theorem two_operands (hnodup : names.Nodup) {l r : Ast} {n : Nat} {m : Mem w}
    (hapl : Apart names l) (hapr : Apart names r) (hwl : Within names.length l n)
    (hwr : Within names.length r (n + used l)) (hout : outlives l r)
    (hl : LeavesValue v names l n m) (hr : ∀ m, LeavesValue (w := w) v names r (n + used l) m) :
    ∃ m' a b, runQuads v (code v names l n ++ code v names r (n + used l)) m = some m' ∧
      value v m l = some a ∧ value v m r = some b ∧
      quad_read_int v m' (refOf names l n) = a ∧
      quad_read_int v m' (refOf names r (n + used l)) = b := by
  obtain ⟨m₁, a, hrun₁, ha, hread₁⟩ := hl
  obtain ⟨m₂, b, hrun₂, hb, hread₂⟩ := hr m₁
  refine ⟨m₂, a, b, runAll_trans hrun₁ hrun₂, ha, ?_, ?_, hread₂⟩
  · -- the left operand wrote scratch variables only
    rw [← hb]
    refine (value_congr fun c hc => ?_).symm
    exact code_keeps_cell hwl hrun₁ fun k hk hle => hapr.tmp_ne hc (by omega) hle
  · rw [← hread₁]
    refine quad_read_int_congr fun c hc => ?_
    cases hleaf : isLeaf l with
    | true =>
      have hcl := refOf_leaf_cells hleaf hc
      exact code_keeps_cell hwr hrun₂ fun k hk hle => hapl.tmp_ne hcl (by omega) hle
    | false =>
      rw [refOf_node hleaf] at hc
      have hceq : c = tmp names (slot l n) := List.mem_singleton.mp hc
      rw [hceq]
      refine unwritten_cell_keeps (se_quad_only_dest v) hrun₂ fun q hq => ?_
      exact right_spares_left hnodup hleaf hwl hwr hout hq

/-- An operation whose operands are in place computes the value of its node. -/
theorem last_op_computes {q : Cell → Quad} {m : Mem w} {f : BitVec w → BitVec w → BitVec w}
    {a b : BitVec w} (hf : ∀ d, quadValue (q d).fn = some f) (hdest : ∀ d, (q d).dest = d)
    (ha : ∀ d, quad_read_int v m (q d).src1 = a) (hb : ∀ d, quad_read_int v m (q d).src2 = b)
    (d : Cell) : ∃ m', se_quad v (q d) m = some m' ∧ m' d = v.fit d (f a b) := by
  obtain ⟨m', hrun, hval⟩ := se_quad_writes (hf d) m
  rw [hdest, ha, hb] at hval
  exact ⟨m', hrun, hval⟩

/-- When every left result outlives its right operand, the code computes the value. -/
theorem operands_ready (hnodup : names.Nodup) {e : Ast} {n : Nat} (m : Mem w)
    (hint : IntTyped v e) (hap : Apart names e) (hw : OperandsWithin names.length e n)
    (hout : operandsOutlive e) : OperandsReady v names e n m := by
  induction e generalizing n m with
  | num a is_float =>
    refine ⟨m, BitVec.ofInt w a, rfl, rfl, last_op_computes (f := fun a _ => a) (b := 0) ?_ ?_ ?_ ?_⟩
    · exact fun _ => rfl
    · exact fun _ => rfl
    · exact fun _ => read_literal m a is_float
    · exact fun _ => rfl
  | var name | field name =>
    refine ⟨m, _, rfl, rfl, last_op_computes (f := fun a _ => a) (b := 0) ?_ ?_ ?_ ?_⟩
    · exact fun _ => rfl
    · exact fun _ => rfl
    · exact fun _ => rfl
    · exact fun _ => rfl
  | unop op x ih =>
    obtain ⟨m₁, a, hrun, ha, hread⟩ : LeavesValue v names x n m :=
      operand_leaves_value hw fun hx => ih m hint hap hx hout
    refine ⟨m₁, unopValue op a, hrun, ?_, ?_⟩
    · rw [value, ha]
      rfl
    · exact last_op_computes (f := fun a _ => unopValue op a) (b := 0)
        (fun _ => unop_quad_means (int_infers_int hint)) (fun _ => rfl) (fun _ => hread)
        (fun _ => rfl)
  | call1 f x ih =>
    obtain ⟨m₁, a, hrun, ha, hread⟩ : LeavesValue v names x n m :=
      operand_leaves_value hw fun hx => ih m hint.2 hap hx hout
    obtain ⟨g, hg, hquad⟩ := call_quad_means (w := w) hint.1
    refine ⟨m₁, g a 0, hrun, ?_, ?_⟩
    · rw [value, hg, ha]
      rfl
    · refine last_op_computes (f := g) (b := 0) (fun _ => ?_) (fun _ => rfl) (fun _ => hread)
        (fun _ => rfl)
      rw [lastOp, fnOf, int_infers_int hint]
      exact hquad
  | binop op l r ihl ihr =>
    obtain ⟨hlr, hrout⟩ := Bool.and_eq_true_iff.mp hout
    obtain ⟨hpair, hlout⟩ := Bool.and_eq_true_iff.mp hlr
    have hapl : Apart names l := fun s hs hc => hap s hs (List.mem_append_left _ hc)
    have hapr : Apart names r := fun s hs hc => hap s hs (List.mem_append_right _ hc)
    obtain ⟨m₁, a, b, hrun, ha, hb, hreada, hreadb⟩ := two_operands hnodup hapl hapr hw.1 hw.2
      hpair (operand_leaves_value hw.1 fun hx => ihl m hint.1 hapl hx hlout)
      (fun m => operand_leaves_value hw.2 fun hx => ihr m hint.2 hapr hx hrout)
    refine ⟨m₁, binopValue op a b, hrun, ?_, ?_⟩
    · rw [value, ha, hb]
      rfl
    · exact last_op_computes (fun _ => binop_quad_means (int_infers_int hint)) (fun _ => rfl)
        (fun _ => hreada) (fun _ => hreadb)
  | call2 f l r ihl ihr =>
    obtain ⟨hlr, hrout⟩ := Bool.and_eq_true_iff.mp hout
    obtain ⟨hpair, hlout⟩ := Bool.and_eq_true_iff.mp hlr
    have hapl : Apart names l := fun s hs hc => hap s hs (List.mem_append_left _ hc)
    have hapr : Apart names r := fun s hs hc => hap s hs (List.mem_append_right _ hc)
    obtain ⟨m₁, a, b, hrun, ha, hb, hreada, hreadb⟩ := two_operands hnodup hapl hapr hw.1 hw.2
      hpair (operand_leaves_value hw.1 fun hx => ihl m hint.2.1 hapl hx hlout)
      (fun m => operand_leaves_value hw.2 fun hx => ihr m hint.2.2 hapr hx hrout)
    obtain ⟨g, hg, hquad⟩ := call_quad_means (w := w) hint.1
    refine ⟨m₁, g a b, hrun, ?_, ?_⟩
    · rw [value, hg, ha, hb]
      rfl
    · refine last_op_computes (f := g) (fun _ => ?_) (fun _ => rfl) (fun _ => hreada)
        (fun _ => hreadb)
      rw [lastOp, fnOf, int_infers_int hint]
      exact hquad

/-! ## Results that are kept -/

/-- No result is overwritten before it is read. -/
abbrev Keeps (ops : List Quad) : Prop := KeepsResults Quad.srcs Quad.dest ops

theorem src1_mem {q : Quad} {c : Cell} (h : q.src1 = .cell c) : c ∈ q.srcs := by
  simp [Quad.srcs, h, Ref.cells]

theorem src2_mem {q : Quad} {c : Cell} (h : q.src2 = .cell c) : c ∈ q.srcs := by
  simp [Quad.srcs, h, Ref.cells]

/-- The operands of the node are kept, whatever its operation writes and what follows,
when the result of the node is kept. -/
def OperandsKept (v : Vars) (names : List String) (e : Ast) (n : Nat) : Prop :=
  ∀ d rest, Consumed Quad.srcs Quad.dest d rest → Keeps rest →
    Keeps (operandCode v names e n ++ lastOp v names e n d :: rest)

/-- The code of an operand, followed by code that reads the result first. -/
theorem operand_kept {e : Ast} {n : Nat} {rest : List Quad}
    (h : isLeaf e = false → OperandsKept v names e n)
    (hread : isLeaf e = false → Consumed Quad.srcs Quad.dest (tmp names (slot e n)) rest)
    (hrest : Keeps rest) : Keeps (code v names e n ++ rest) := by
  cases he : isLeaf e with
  | true =>
    rw [code_leaf he]
    exact hrest
  | false =>
    rw [code_node he, List.append_assoc]
    exact h he _ rest (hread he) hrest

theorem two_operands_kept (hnodup : names.Nodup) {l r : Ast} {n : Nat} {q : Quad}
    {rest : List Quad} (hwl : Within names.length l n) (hwr : Within names.length r (n + used l))
    (hout : outlives l r) (hl : isLeaf l = false → OperandsKept v names l n)
    (hr : isLeaf r = false → OperandsKept v names r (n + used l))
    (hsrc1 : q.src1 = refOf names l n) (hsrc2 : q.src2 = refOf names r (n + used l))
    (hq : Consumed Quad.srcs Quad.dest q.dest rest) (hrest : Keeps rest) :
    Keeps ((code v names l n ++ code v names r (n + used l)) ++ q :: rest) := by
  rw [List.append_assoc]
  refine operand_kept hl (fun hleaf => ?_) (operand_kept hr (fun hleaf => ?_) ⟨hq, hrest⟩)
  · refine consumed_of_read rest (fun p hp => right_spares_left hnodup hleaf hwl hwr hout hp) ?_
    exact src1_mem (hsrc1.trans (refOf_node hleaf n))
  · exact Or.inl (src2_mem (hsrc2.trans (refOf_node hleaf (n + used l))))

theorem one_operand_kept {x : Ast} {n : Nat} {q : Quad} {rest : List Quad}
    (hx : isLeaf x = false → OperandsKept v names x n) (hsrc : q.src1 = refOf names x n)
    (hq : Consumed Quad.srcs Quad.dest q.dest rest) (hrest : Keeps rest) :
    Keeps (code v names x n ++ q :: rest) :=
  operand_kept hx (fun hleaf => Or.inl (src1_mem (hsrc.trans (refOf_node hleaf n)))) ⟨hq, hrest⟩

/-- When every left result outlives its right operand, every result is kept. -/
theorem operands_kept (hnodup : names.Nodup) {e : Ast} {n : Nat}
    (hw : OperandsWithin names.length e n) (hout : operandsOutlive e) :
    OperandsKept v names e n := by
  induction e generalizing n with
  | num | var | field => exact fun d rest hd hrest => ⟨hd, hrest⟩
  | unop op x ih | call1 f x ih =>
    intro d rest hd hrest
    exact one_operand_kept (fun hx => ih ((within_node hx).mp hw).1 hout) rfl hd hrest
  | binop op l r ihl ihr | call2 f l r ihl ihr =>
    intro d rest hd hrest
    obtain ⟨hlr, hrout⟩ := Bool.and_eq_true_iff.mp hout
    obtain ⟨hpair, hlout⟩ := Bool.and_eq_true_iff.mp hlr
    exact two_operands_kept hnodup hw.1 hw.2 hpair
      (fun hx => ihl ((within_node hx).mp hw.1).1 hlout)
      (fun hx => ihr ((within_node hx).mp hw.2).1 hrout) rfl rfl hd hrest

/-! ## Results that are lost -/

theorem lastOp_leaf_srcs {e : Ast} (h : oneOperation e) {n : Nat} {d c : Cell}
    (hc : c ∈ (lastOp v names e n d).srcs) : c ∈ e.cells := by
  cases e with
  | num | var | field => cases h
  | unop op x | call1 f x =>
    rcases List.mem_append.mp hc with hc | hc
    · exact refOf_leaf_cells h hc
    · cases hc
  | binop op l r | call2 f l r =>
    obtain ⟨hl, hr⟩ := Bool.and_eq_true_iff.mp h
    rcases List.mem_append.mp hc with hc | hc
    · exact List.mem_append_left _ (refOf_leaf_cells hl hc)
    · exact List.mem_append_right _ (refOf_leaf_cells hr hc)

/-- The code starts with an operation that reads leaves of the node only and takes the
variable next to the counter. -/
def StartsOnLeaves (v : Vars) (names : List String) (e : Ast) (n : Nat) : Prop :=
  ∃ q rest, code v names e n = q :: rest ∧ q.dest = tmp names (n + 1) ∧ ∀ c ∈ q.srcs, c ∈ e.cells

theorem one_operation_starts {e : Ast} (h : oneOperation e) (n : Nat) :
    StartsOnLeaves v names e n :=
  ⟨_, [], code_of_one_operation h n, lastOp_dest _ _ _, fun _ hc => lastOp_leaf_srcs h hc⟩

/-- The first operation of an operand is the first one of the node. -/
theorem StartsOnLeaves.of_append {x e : Ast} {n : Nat} (h : StartsOnLeaves v names x n)
    (hcode : code v names x n <+: code v names e n) (hcells : ∀ c ∈ x.cells, c ∈ e.cells) :
    StartsOnLeaves v names e n := by
  obtain ⟨q, rest, hq, hdest, hsrcs⟩ := h
  obtain ⟨more, hmore⟩ := hcode
  refine ⟨q, rest ++ more, ?_, hdest, fun c hc => hcells c (hsrcs c hc)⟩
  rw [← hmore, hq]
  rfl

theorem code_starts {e : Ast} (he : isLeaf e = false) (n : Nat) : StartsOnLeaves v names e n := by
  induction e with
  | num | var | field => cases he
  | unop op x ih | call1 f x ih =>
    cases hx : isLeaf x with
    | true =>
      refine one_operation_starts ?_ n
      exact hx
    | false => exact (ih hx).of_append (List.prefix_append _ _) fun c hc => hc
  | binop op l r ihl ihr | call2 f l r ihl ihr =>
    cases hl : isLeaf l with
    | false =>
      refine (ihl hl).of_append ?_ fun c hc => List.mem_append_left _ hc
      rw [code, List.append_assoc]
      exact List.prefix_append _ _
    | true =>
      cases hr : isLeaf r with
      | true =>
        refine one_operation_starts ?_ n
        exact Bool.and_eq_true_iff.mpr ⟨hl, hr⟩
      | false =>
        refine (ihr hr).of_append ?_ fun c hc => List.mem_append_right _ hc
        rw [code, code_leaf hl, used_leaf hl]
        exact List.prefix_append _ _

/-- The code starts with such an operation and a second one, which takes the variable two
above the counter. -/
def SecondAbove (v : Vars) (names : List String) (e : Ast) (n : Nat) : Prop :=
  ∃ q q' rest, code v names e n = q :: q' :: rest ∧
    q.dest = tmp names (n + 1) ∧ (∀ c ∈ q.srcs, c ∈ e.cells) ∧
    q'.dest = tmp names (n + 2) ∧ ∀ c ∈ q'.srcs, c ∈ e.cells ∨ c = tmp names (n + 1)

theorem SecondAbove.of_append {x e : Ast} {n : Nat} (h : SecondAbove v names x n)
    (hcode : code v names x n <+: code v names e n) (hcells : ∀ c ∈ x.cells, c ∈ e.cells) :
    SecondAbove v names e n := by
  obtain ⟨q, q', rest, hq, hdest, hsrcs, hdest', hsrcs'⟩ := h
  obtain ⟨more, hmore⟩ := hcode
  refine ⟨q, q', rest ++ more, ?_, hdest, fun c hc => hcells c (hsrcs c hc), hdest', ?_⟩
  · rw [← hmore, hq]
    rfl
  · exact fun c hc => (hsrcs' c hc).imp_left (hcells c)

/-- A single operation, then one that starts where the counter stands after it. -/
theorem second_after_one {x e : Ast} {n : Nat} {q' : Quad} {more : List Quad}
    (hx : oneOperation x) (hcode : code v names e n = code v names x n ++ q' :: more)
    (hcells : ∀ c ∈ x.cells, c ∈ e.cells) (hdest : q'.dest = tmp names (n + 2))
    (hsrcs : ∀ c ∈ q'.srcs, c ∈ e.cells ∨ c = tmp names (n + 1)) : SecondAbove v names e n := by
  refine ⟨lastOp v names x n (tmp names (n + 1)), q', more, ?_, lastOp_dest _ _ _, ?_, hdest, hsrcs⟩
  · rw [hcode, code_of_one_operation hx]
    rfl
  · exact fun c hc => hcells c (lastOp_leaf_srcs hx hc)

theorem used_of_one_operation {e : Ast} (h : oneOperation e) : used e = 1 := by
  have hslot := slot_of_one_operation h 0
  have hpos := used_pos (one_operation_computes h)
  rw [slot] at hslot
  omega

theorem refOf_of_one_operation {e : Ast} (h : oneOperation e) (n : Nat) :
    (refOf names e n).cells = [tmp names (n + 1)] := by
  rw [refOf_node (one_operation_computes h), slot_of_one_operation h]
  rfl

/-- Two operands that are not both leaves, and the operation on them. -/
theorem pair_second {l r e : Ast} {n : Nat} {q : Quad}
    (hcode : code v names e n = (code v names l n ++ code v names r (n + used l)) ++ [q])
    (hcells : e.cells = l.cells ++ r.cells) (hdest : q.dest = tmp names (n + used l + used r + 1))
    (hsrcs : q.srcs = (refOf names l n).cells ++ (refOf names r (n + used l)).cells)
    (hmany : (isLeaf l && isLeaf r) = false)
    (hl : isLeaf l = false → oneOperation l = false → SecondAbove v names l n)
    (hr : isLeaf r = false → oneOperation r = false → SecondAbove v names r n) :
    SecondAbove v names e n := by
  have hlcells : ∀ c ∈ l.cells, c ∈ e.cells := by
    rw [hcells]
    exact fun c hc => List.mem_append_left _ hc
  have hrcells : ∀ c ∈ r.cells, c ∈ e.cells := by
    rw [hcells]
    exact fun c hc => List.mem_append_right _ hc
  cases hleaf : isLeaf l with
  | true =>
    have hright : isLeaf r = false := by simpa [hleaf] using hmany
    rw [code_leaf hleaf, used_leaf hleaf] at hcode
    rw [used_leaf hleaf] at hdest hsrcs
    cases hone : oneOperation r with
    | false => exact (hr hright hone).of_append (hcode ▸ List.prefix_append _ _) hrcells
    | true =>
      refine second_after_one hone hcode hrcells ?_ ?_
      · rw [hdest, used_of_one_operation hone]
      · intro c hc
        rw [hsrcs] at hc
        rcases List.mem_append.mp hc with hc | hc
        · exact Or.inl (hlcells c (refOf_leaf_cells hleaf hc))
        · rw [refOf_of_one_operation hone] at hc
          exact Or.inr (List.mem_singleton.mp hc)
  | false =>
    cases hone : oneOperation l with
    | false =>
      rw [List.append_assoc] at hcode
      exact (hl hleaf hone).of_append (hcode ▸ List.prefix_append _ _) hlcells
    | true =>
      have hused := used_of_one_operation hone
      cases hright : isLeaf r with
      | true =>
        rw [code_leaf hright, List.append_nil] at hcode
        refine second_after_one hone hcode hlcells ?_ ?_
        · rw [hdest, hused, used_leaf hright]
        · intro c hc
          rw [hsrcs] at hc
          rcases List.mem_append.mp hc with hc | hc
          · rw [refOf_of_one_operation hone] at hc
            exact Or.inr (List.mem_singleton.mp hc)
          · exact Or.inl (hrcells c (refOf_leaf_cells hright hc))
      | false =>
        obtain ⟨p, rest, hp, hpdest, hpsrcs⟩ : StartsOnLeaves v names r (n + used l) :=
          code_starts hright _
        rw [hp, List.append_assoc, List.cons_append] at hcode
        refine second_after_one hone hcode hlcells ?_ fun c hc => Or.inl (hrcells c (hpsrcs c hc))
        rw [hpdest, hused]

theorem code_second {e : Ast} (he : isLeaf e = false) (hmany : oneOperation e = false) (n : Nat) :
    SecondAbove v names e n := by
  induction e with
  | num | var | field => cases he
  | unop op x ih | call1 f x ih =>
    have hx : isLeaf x = false := hmany
    cases hone : oneOperation x with
    | false => exact (ih hx hone).of_append (List.prefix_append _ _) fun c hc => hc
    | true =>
      refine second_after_one hone rfl (fun c hc => hc) ?_ ?_
      · rw [lastOp_dest, slot, used, used_of_one_operation hone]
        rfl
      · intro c hc
        rcases List.mem_append.mp hc with hc | hc
        · have hc : c ∈ (refOf names x n).cells := hc
          rw [refOf_of_one_operation hone] at hc
          exact Or.inr (List.mem_singleton.mp hc)
        · cases hc
  | binop op l r ihl ihr =>
    exact pair_second rfl rfl (by rw [lastOp_dest, slot_binop]) rfl hmany ihl ihr
  | call2 f l r ihl ihr =>
    exact pair_second rfl rfl (by rw [lastOp_dest, slot_call2]) rfl hmany ihl ihr

theorem freed_le (e : Ast) : freed e ≤ 2 := by
  cases e with
  | binop op l r =>
    rw [freed]
    split <;> split <;> decide
  | num | var | field | unop | call1 | call2 => exact Nat.zero_le 2

theorem right_overwrites_left (hnodup : names.Nodup) {l r : Ast} {n : Nat}
    (hapr : Apart names r) (hwl : Within names.length l n) (hl : isLeaf l = false)
    (hr : isLeaf r = false) (hout : outlives l r = false) :
    ¬ Consumed Quad.srcs Quad.dest (tmp names (slot l n)) (code v names r (n + used l)) := by
  have hslot : slot l n ≤ names.length := ((within_node hl).mp hwl).2
  have hpos : 0 < slot l n := Nat.lt_of_le_of_lt (Nat.zero_le n) (lt_slot hl n)
  have hnotleaf : ∀ c ∈ r.cells, tmp names (slot l n) ≠ c := fun c hc => hapr.tmp_ne hc hpos hslot
  unfold outlives at hout
  rw [hl, hr, Bool.false_or, Bool.false_or] at hout
  obtain ⟨hnotzero, hnottwo⟩ := Bool.or_eq_false_iff.mp hout
  rw [beq_eq_false_iff_ne] at hnotzero
  have hfreed : freed l = 1 ∨ freed l = 2 ∧ oneOperation r = false := by
    have hle := freed_le l
    by_cases htwo : freed l = 2
    · exact Or.inr ⟨htwo, by simpa [htwo] using hnottwo⟩
    · omega
  rcases hfreed with hone | ⟨htwo, hmany⟩
  · -- the first operation of the right operand takes the variable of the result
    obtain ⟨q, more, hq, hdest, hsrcs⟩ : StartsOnLeaves v names r (n + used l) :=
      code_starts hr _
    rw [hq]
    rintro (hread | ⟨hne, -⟩)
    · exact hnotleaf _ (hsrcs _ hread) rfl
    · apply hne
      rw [hdest, slot, hone]
  · -- the second one does
    obtain ⟨q, q', more, hq, hdest, hsrcs, hdest', hsrcs'⟩ :
        SecondAbove v names r (n + used l) := code_second hr hmany _
    rw [hq]
    rintro (hread | ⟨-, hread | ⟨hne, -⟩⟩)
    · exact hnotleaf _ (hsrcs _ hread) rfl
    · rcases hsrcs' _ hread with hleaf | heq
      · exact hnotleaf _ hleaf rfl
      · have hlow : n + used l + 1 ≤ names.length := by
          rw [slot, htwo] at hslot
          omega
        have := tmp_inj hnodup hpos hslot (by omega) hlow heq
        rw [slot, htwo] at this
        omega
    · apply hne
      rw [hdest', slot, htwo]

theorem leaf_outlives {e : Ast} (he : isLeaf e) : operandsOutlive e := by
  cases e with
  | num | var | field => rfl
  | unop | binop | call1 | call2 => cases he

theorem computed_of_loss {e : Ast} (h : operandsOutlive e = false) : isLeaf e = false := by
  cases he : isLeaf e with
  | false => rfl
  | true => exact absurd (leaf_outlives he) (by rw [h]; decide)

/-- The operands of the node lose a result. -/
def LosesResult (v : Vars) (names : List String) (e : Ast) (n : Nat) : Prop :=
  ¬ Keeps (operandCode v names e n)

/-- A node whose operands lose a result loses it, whatever stands around it. -/
theorem LosesResult.inside {e : Ast} {n : Nat} (he : isLeaf e = false)
    (h : LosesResult v names e n) (before after : List Quad) :
    ¬ Keeps (before ++ code v names e n ++ after) := by
  intro hkeeps
  have hcode := keepsResults_suffix (keepsResults_of_append hkeeps)
  rw [code_node he] at hcode
  exact h (keepsResults_of_append hcode)

/-- Of two operands, one loses a result, or the left result is overwritten. -/
theorem pair_loses (hnodup : names.Nodup) {l r : Ast} {n : Nat} (hapr : Apart names r)
    (hw : Within names.length l n ∧ Within names.length r (n + used l))
    (hl : OperandsWithin names.length l n → operandsOutlive l = false → LosesResult v names l n)
    (hr : OperandsWithin names.length r (n + used l) → operandsOutlive r = false →
      LosesResult v names r (n + used l))
    (hout : (outlives l r && operandsOutlive l && operandsOutlive r) = false) :
    ¬ Keeps (code v names l n ++ code v names r (n + used l)) := by
  intro hkeeps
  rcases Bool.and_eq_false_iff.mp hout with hlr | hrout
  · rcases Bool.and_eq_false_iff.mp hlr with hpair | hlout
    · have hlnode : isLeaf l = false := by
        by_contra hne
        simp [outlives, hne] at hpair
      have hrnode : isLeaf r = false := by
        by_contra hne
        simp [outlives, hne] at hpair
      rw [code_node hlnode, List.append_assoc] at hkeeps
      have hconsumed := hkeeps.consumed
      rw [lastOp_dest] at hconsumed
      exact right_overwrites_left hnodup hapr hw.1 hlnode hrnode hpair hconsumed
    · have hnode := computed_of_loss hlout
      exact (hl ((within_node hnode).mp hw.1).1 hlout).inside hnode [] _ hkeeps
  · have hnode := computed_of_loss hrout
    refine (hr ((within_node hnode).mp hw.2).1 hrout).inside hnode (code v names l n) [] ?_
    rw [List.append_nil]
    exact hkeeps

/-- Where a left result does not outlive its right operand, a result is lost. -/
theorem result_lost (hnodup : names.Nodup) {e : Ast} {n : Nat} (hap : Apart names e)
    (hw : OperandsWithin names.length e n) (hout : operandsOutlive e = false) :
    LosesResult v names e n := by
  induction e generalizing n with
  | num | var | field => cases hout
  | unop op x ih | call1 f x ih =>
    have hx : isLeaf x = false := computed_of_loss hout
    have hloses := (ih hap ((within_node hx).mp hw).1 hout).inside hx [] []
    rw [List.append_nil] at hloses
    exact hloses
  | binop op l r ihl ihr | call2 f l r ihl ihr =>
    have hapl : Apart names l := fun s hs hc => hap s hs (List.mem_append_left _ hc)
    have hapr : Apart names r := fun s hs hc => hap s hs (List.mem_append_right _ hc)
    exact pair_loses hnodup hapr hw (ihl hapl) (ihr hapr) hout

/-! ## The compiled assignment -/

/-- The operations compute the expression into the destination, in every memory and for
every width of `ct_int_t`. They change the destination and the scratch variables only, and
no intermediate result is overwritten before it is consumed. -/
structure Computes (v : Vars) (scratch : List String) (dest : Cell) (e : Ast)
    (ops : List Quad) : Prop where
  result : ∀ {w : Nat} (m : Mem w), ∃ m' a, runQuads v ops m = some m' ∧
    value v m e = some a ∧ m' dest = v.fit dest a ∧
    ∀ c, c ≠ dest → (∀ s ∈ scratch, c ≠ .var s) → m' c = m c
  kept : KeepsResults Quad.srcs Quad.dest ops

theorem compiled_code {fuel : Nat} {lua : LuaNumbers} {scratch : List String} {dest : Cell}
    {ts : List Token} {e : Ast} {ops : List Quad} (hexpr : Derives 0 ts e)
    (hvary : NoConstantPart e)
    (haccept : quad_expr fuel lua v scratch dest (ts ++ [.eof]) = .ok ops) :
    ops = operandCode v scratch e 0 ++ [lastOp v scratch e 0 dest] ∧
      OperandsWithin scratch.length e 0 := by
  obtain ⟨fuel', hparse⟩ := parser_reads_c_expressions hexpr
  unfold quad_expr at haccept
  split at haccept
  · rename_i ast hast
    have heq := parse_expr_unique hast hparse
    cases heq
    rw [nothing_to_fold lua hvary] at haccept
    obtain ⟨⟨r, g⟩, hemit, hops⟩ := ok_of_bind haccept
    cases hops
    have h := emit_to_follows_layout hemit
    exact ⟨by rw [h.ops]; rfl, h.within⟩
  · cases haccept
  · cases haccept

/-- The compiled assignment is right exactly when no left result has to outlive a right
operand that reaches its scratch variable. -/
theorem assignment_right_iff_operands_outlive {fuel : Nat} {lua : LuaNumbers} {v : Vars}
    {scratch : List String} {dest : Cell} {ts : List Token} {e : Ast} {ops : List Quad}
    (hexpr : Derives 0 ts e) (hint : IntTyped v e) (hvary : NoConstantPart e)
    (hnodup : scratch.Nodup) (hapart : ∀ s ∈ scratch, Cell.var s ≠ dest ∧ Cell.var s ∉ e.cells)
    (haccept : quad_expr fuel lua v scratch dest (ts ++ [.eof]) = .ok ops) :
    Computes v scratch dest e ops ↔ operandsOutlive e := by
  obtain ⟨rfl, hw⟩ := compiled_code hexpr hvary haccept
  have hap : Apart scratch e := fun s hs => (hapart s hs).2
  constructor
  · intro h
    by_contra hout
    exact result_lost hnodup hap hw ((Bool.not_eq_true _).mp hout) (keepsResults_of_append h.kept)
  · intro hout
    refine ⟨fun m => ?_, operands_kept hnodup hw hout dest [] trivial trivial⟩
    obtain ⟨m₁, a, hrun, ha, hlast⟩ := operands_ready (v := v) hnodup m hint hap hw hout
    obtain ⟨m₂, hstep, hval⟩ := hlast dest
    have hall : runQuads v (operandCode v scratch e 0 ++ [lastOp v scratch e 0 dest]) m = some m₂ :=
      runAll_trans hrun (by rw [runAll_cons, hstep]; rfl)
    refine ⟨m₂, a, hall, ha, hval, fun c hdest hscratch => ?_⟩
    refine unwritten_cell_keeps (se_quad_only_dest v) hall fun q hq => ?_
    rcases List.mem_append.mp hq with hq | hq
    · obtain ⟨k, hk, hle, hqdest⟩ := operandCode_writes hw hq
      obtain ⟨s, hs, htmp⟩ := tmp_mem hk hle
      rw [hqdest, htmp]
      exact Ne.symm (hscratch s hs)
    · rw [List.mem_singleton.mp hq, lastOp_dest]
      exact Ne.symm hdest

/-- Whatever is assigned, only the last operation writes the destination. The others write scratch
variables, and a run changes no other cell. -/
theorem assignment_keeps_cells {fuel : Nat} {lua : LuaNumbers} {scratch : List String} {dest : Cell}
    {body : List Token} {ops : List Quad}
    (haccept : quad_expr fuel lua v scratch dest body = .ok ops) :
    (∃ code q, ops = code ++ [q] ∧ q.dest = dest ∧ ∀ p ∈ code, ∃ s ∈ scratch, p.dest = .var s) ∧
      ∀ m m' : Mem w, runQuads v ops m = some m' →
        ∀ c, c ≠ dest → (∀ s ∈ scratch, c ≠ .var s) → m' c = m c := by
  unfold quad_expr at haccept
  split at haccept
  · rename_i ast _
    obtain ⟨⟨r, g⟩, hemit, hops⟩ := ok_of_bind haccept
    cases hops
    have h := emit_to_follows_layout hemit
    have hcode : g.ops = operandCode v scratch (fold_constants lua ast) 0 ++
        [lastOp v scratch (fold_constants lua ast) 0 dest] := by rw [h.ops]; rfl
    have hwrites : ∀ q ∈ operandCode v scratch (fold_constants lua ast) 0,
        ∃ s ∈ scratch, q.dest = .var s := by
      intro q hq
      obtain ⟨k, hk, hle, hdest⟩ := operandCode_writes h.within hq
      obtain ⟨s, hs, htmp⟩ := tmp_mem hk hle
      exact ⟨s, hs, hdest.trans htmp⟩
    refine ⟨⟨_, _, hcode, lastOp_dest _ _ _, hwrites⟩, fun m m' hrun c hdest hscratch => ?_⟩
    refine unwritten_cell_keeps (se_quad_only_dest v) hrun fun q hq => ?_
    rw [hcode] at hq
    rcases List.mem_append.mp hq with hq | hq
    · obtain ⟨s, hs, hq⟩ := hwrites q hq
      rw [hq]
      exact (hscratch s hs).symm
    · rw [List.mem_singleton.mp hq, lastOp_dest]
      exact hdest.symm
  · cases haccept
  · cases haccept

/-! ## Two assignments -/

def intVars : Vars where
  is_float name := if name ∈ ["y", "a", "b", "c", "d", "e", "t0", "t1"] then some false else none
  field_size _ := .four

def noFolding : LuaNumbers where
  unop _ _ := none
  binop _ _ _ := none
  call1 _ _ := none
  call2 _ _ _ := none

/-- `(a + b) * c` -/
def scaledSum : List Token :=
  [.lparen, .ident "a", .op .add, .ident "b", .rparen, .op .mul, .ident "c"]

def scaledSumAst : Ast := .binop .mul (.binop .add (.var "a") (.var "b")) (.var "c")

theorem scaled_sum_derives : Derives 0 scaledSum scaledSumAst := by
  have hsum : Derives 0 [.ident "a", .op .add, .ident "b"] (.binop .add (.var "a") (.var "b")) :=
    @Derives.binop 0 9 .add [.ident "a"] [.ident "b"] _ _ rfl (by decide) (.var _ "a") (.var _ "b")
  exact @Derives.binop 0 10 .mul [.lparen, .ident "a", .op .add, .ident "b", .rparen] [.ident "c"]
    _ _ rfl (by decide) (.paren _ hsum) (.var _ "c")

theorem scaled_sum_is_right : ∃ ops,
    quad_expr 20 noFolding intVars ["t0"] (.var "y") (scaledSum ++ [.eof]) = .ok ops ∧
      (Computes intVars ["t0"] (.var "y") scaledSumAst ops ↔ operandsOutlive scaledSumAst) := by
  obtain ⟨ops, hops⟩ : ∃ ops,
      quad_expr 20 noFolding intVars ["t0"] (.var "y") (scaledSum ++ [.eof]) = .ok ops := ⟨_, rfl⟩
  refine ⟨ops, hops, assignment_right_iff_operands_outlive scaled_sum_derives ?_ ?_ ?_ ?_ hops⟩
  · exact ⟨⟨rfl, rfl⟩, rfl⟩
  · exact ⟨rfl, ⟨rfl, trivial, trivial⟩, trivial⟩
  · decide
  · decide

theorem scaled_sum_keeps_cells : ∃ ops,
    quad_expr 20 noFolding intVars ["t0"] (.var "y") (scaledSum ++ [.eof]) = .ok ops ∧
      ∀ m m' : Mem 32, runQuads intVars ops m = some m' → m' (.var "a") = m (.var "a") := by
  obtain ⟨ops, hops⟩ : ∃ ops,
      quad_expr 20 noFolding intVars ["t0"] (.var "y") (scaledSum ++ [.eof]) = .ok ops := ⟨_, rfl⟩
  refine ⟨ops, hops, fun m m' hrun => ?_⟩
  exact (assignment_keeps_cells hops).2 m m' hrun _ (by decide) (by decide)

/-- `a * b + c + d * e` -/
def sumOfProducts : List Token :=
  [.ident "a", .op .mul, .ident "b", .op .add, .ident "c", .op .add,
    .ident "d", .op .mul, .ident "e"]

def sumOfProductsAst : Ast :=
  .binop .add (.binop .add (.binop .mul (.var "a") (.var "b")) (.var "c"))
    (.binop .mul (.var "d") (.var "e"))

theorem sum_of_products_derives : Derives 0 sumOfProducts sumOfProductsAst := by
  have hab : Derives 9 [.ident "a", .op .mul, .ident "b"] (.binop .mul (.var "a") (.var "b")) :=
    @Derives.binop 9 10 .mul [.ident "a"] [.ident "b"] _ _ rfl (by decide) (.var _ "a") (.var _ "b")
  have hde : Derives 10 [.ident "d", .op .mul, .ident "e"] (.binop .mul (.var "d") (.var "e")) :=
    @Derives.binop 10 10 .mul [.ident "d"] [.ident "e"] _ _ rfl (by decide) (.var _ "d")
      (.var _ "e")
  have habc := @Derives.binop 9 9 .add _ [.ident "c"] _ _ rfl (by decide) hab (.var _ "c")
  exact @Derives.binop 0 9 .add _ _ _ _ rfl (by decide) habc hde

/-- `a = 2`, `b = 3`, `c = 4`, `d = 5`, `e = 6`. -/
def twoToSix : Mem 32
  | .var "a" => 2
  | .var "b" => 3
  | .var "c" => 4
  | .var "d" => 5
  | .var "e" => 6
  | _ => 0

/-- `y = a * b + c + d * e` is accepted with two scratch variables. The result of `a * b + c`
stands in `t1`, and `d * e` overwrites it: `y` gets 60 for a value of 40. -/
theorem sum_of_products_is_wrong :
    Derives 0 sumOfProducts sumOfProductsAst ∧ IntTyped intVars sumOfProductsAst ∧
      NoConstantPart sumOfProductsAst ∧ ["t0", "t1"].Nodup ∧
      (∀ s ∈ ["t0", "t1"], Cell.var s ≠ .var "y" ∧ Cell.var s ∉ sumOfProductsAst.cells) ∧
      ∃ ops,
        quad_expr 20 noFolding intVars ["t0", "t1"] (.var "y") (sumOfProducts ++ [.eof]) = .ok ops ∧
        (runQuads intVars ops twoToSix).map (fun m => m (.var "y")) = some 60 ∧
        value intVars twoToSix sumOfProductsAst = some 40 ∧
        ¬ Computes intVars ["t0", "t1"] (.var "y") sumOfProductsAst ops := by
  refine ⟨sum_of_products_derives, ⟨⟨⟨rfl, rfl⟩, rfl⟩, rfl, rfl⟩,
    ⟨rfl, ⟨rfl, ⟨rfl, trivial, trivial⟩, trivial⟩, rfl, trivial, trivial⟩, by decide, by decide,
    _, rfl, by decide, by decide, ?_⟩
  intro h
  exact absurd h.kept (by decide)

end motioncore.equation
