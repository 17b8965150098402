-- What it is for a stream of parameters to be properly nested, and the streams of
-- trees whose braces are closed in the calls that opened them. The runtime skips
-- over an open token by its `brace_idx` and asks nothing (`skip_logical_param`).
import MotionCore.Dsl.Stream
import MotionCore.Lib.Brackets

open motioncore.brackets

namespace motioncore.dsl

/-! ## Properly nested streams -/

def S_EXPR_OPCODE_MASK : UInt8 := 0x3F

def ParamStruct.opcode (p : ParamStruct) : UInt8 := p.param_type &&& S_EXPR_OPCODE_MASK

/-- The role of an opcode. The kind of a token is the opcode that closes it. -/
def codeRole (opcode : UInt8) : Role UInt8 :=
  if opcode = S_EXPR_PARAM.OPEN ∨ opcode = S_EXPR_PARAM.OPEN_CALL then .opens S_EXPR_PARAM.CLOSE
  else if opcode = S_EXPR_PARAM.OPEN_DICT then .opens S_EXPR_PARAM.CLOSE_DICT
  else if opcode = S_EXPR_PARAM.OPEN_KEY then .opens S_EXPR_PARAM.CLOSE_KEY
  else if opcode = S_EXPR_PARAM.OPEN_ARRAY then .opens S_EXPR_PARAM.CLOSE_ARRAY
  else if opcode = S_EXPR_PARAM.OPEN_TUPLE then .opens S_EXPR_PARAM.CLOSE_TUPLE
  else if opcode = S_EXPR_PARAM.CLOSE ∨ opcode = S_EXPR_PARAM.CLOSE_DICT ∨
      opcode = S_EXPR_PARAM.CLOSE_KEY ∨ opcode = S_EXPR_PARAM.CLOSE_ARRAY ∨
      opcode = S_EXPR_PARAM.CLOSE_TUPLE then .closes opcode
  else .plain

def role (p : ParamStruct) : Role UInt8 := codeRole p.opcode

def ParamStruct.brace_idx (p : ParamStruct) : Option Nat :=
  match p.payload with
  | .u16s u16_a _ => some u16_a.toNat
  | _ => none

/-- An open token carries its distance, unless it is the token of a key. -/
def Carries (p : ParamStruct) (distance : Nat) : Prop :=
  p.opcode ≠ S_EXPR_PARAM.OPEN_KEY → p.brace_idx = some distance

/-- The items in their stream. A call is one span: its tokens, and between them a balanced
word with all that the call holds. -/
inductive Spans : List Item → List ParamStruct → Prop
  | nil : Spans [] []
  | param {p : DslParam} {t : ParamStruct} {items : List Item} {w : List ParamStruct} :
      Spans items w → Spans (.param p :: items) (t :: w)
  | call {func_name : LuaString} {call_type : CallType} {pointer_index : Option Nat}
      {inner items : List Item} {o f c : ParamStruct} {body w : List ParamStruct} :
      o.param_type = S_EXPR_PARAM.OPEN_CALL → f.param_type = funcCode call_type →
      c.param_type = S_EXPR_PARAM.CLOSE → Spans inner body → Balanced role body →
      Spans items w →
      Spans (.call func_name call_type pointer_index inner :: items) (o :: f :: (body ++ c :: w))

structure ProperlyNested (tree : Tree) (stream : List ParamStruct) : Prop where
  balanced : Balanced role stream
  carries : Spaced role Carries stream
  spans : Spans (tree.nodes.map Node.call) stream

/-! ## The roles of what is emitted -/

variable (brace_type : BraceType)

theorem openCode_masked : openCode brace_type &&& S_EXPR_OPCODE_MASK = openCode brace_type := by
  cases brace_type <;> rfl

variable {p : ParamStruct}

theorem role_open (h : p.param_type = openCode brace_type) :
    role p = .opens (closeCode brace_type) := by
  rw [role, ParamStruct.opcode, h]
  cases brace_type <;> rfl

theorem role_close (h : p.param_type = closeCode brace_type) :
    role p = .closes (closeCode brace_type) := by
  rw [role, ParamStruct.opcode, h]
  cases brace_type <;> rfl

theorem role_open_call (h : p.param_type = S_EXPR_PARAM.OPEN_CALL) :
    role p = .opens S_EXPR_PARAM.CLOSE := by
  rw [role, ParamStruct.opcode, h]
  rfl

theorem role_close_call (h : p.param_type = S_EXPR_PARAM.CLOSE) :
    role p = .closes S_EXPR_PARAM.CLOSE := role_close .list h

theorem role_func (call_type : CallType) (h : p.param_type = funcCode call_type) :
    role p = .plain := by
  rw [role, ParamStruct.opcode, h]
  cases call_type <;> rfl

def leafCode : Leaf → UInt8
  | .int _ => S_EXPR_PARAM.INT
  | .uint _ => S_EXPR_PARAM.UINT
  | .float _ => S_EXPR_PARAM.FLOAT
  | .str_hash _ => S_EXPR_PARAM.STR_HASH
  | .str_idx _ | .str_ptr _ => S_EXPR_PARAM.STR_IDX
  | .field_ref _ | .nested_field_ref _ => S_EXPR_PARAM.FIELD
  | .const_ref _ => S_EXPR_PARAM.CONST_REF
  | .result _ => S_EXPR_PARAM.RESULT
  | .stack_push => S_EXPR_PARAM.STACK_PUSH
  | .stack_pop => S_EXPR_PARAM.STACK_POP
  | .stack_tos _ => S_EXPR_PARAM.STACK_TOS
  | .stack_local _ => S_EXPR_PARAM.STACK_LOCAL
  | .null_param => S_EXPR_PARAM.NULL_PARAM

theorem fieldParam_type (place : Option (Nat × Nat)) (name : LuaString) :
    (fieldParam place name).param_type = S_EXPR_PARAM.FIELD := by
  cases place <;> rfl

variable (m : Module) (tree_record : Option LuaString)

theorem leafParam_type (value : Leaf) :
    (leafParam m tree_record value).param_type = leafCode value := by
  cases value with
  | field_ref name => exact fieldParam_type _ _
  | nested_field_ref path => exact fieldParam_type _ _
  | _ => rfl

theorem role_leaf (value : Leaf) : role (leafParam m tree_record value) = .plain := by
  rw [role, ParamStruct.opcode, leafParam_type]
  cases value <;> simp only [leafCode] <;> rfl

variable (parent_offset : Nat)

theorem startParam_type (brace : BraceStart) :
    (startParam parent_offset brace).param_type = openCode brace.brace_type := by
  cases brace <;> rfl

/-! ## Trees whose braces stay in their calls -/

/-- Braces are closed in the call that opened them, with their own type. -/
inductive Well : List Item → Prop
  | nil : Well []
  | leaf {value : Leaf} {items : List Item} : Well items → Well (.param (.leaf value) :: items)
  | brace {brace : BraceStart} {body items : List Item} : Well body → Well items →
      Well (.param (.start brace) :: (body ++ .param (.finish brace.brace_type) :: items))
  | call {func_name : LuaString} {call_type : CallType} {pointer_index : Option Nat}
      {inner items : List Item} : Well inner → Well items →
      Well (.call func_name call_type pointer_index inner :: items)

variable {v w : List Item}

theorem Well.append (hv : Well v) (hw : Well w) : Well (v ++ w) := by
  induction hv with
  | nil => exact hw
  | leaf _ ih => exact .leaf ih
  | brace hbody _ _ ih =>
    rw [List.cons_append, List.append_assoc, List.cons_append]
    exact .brace hbody ih
  | call hinner _ _ ih => exact .call hinner ih

variable {s t : List ParamStruct}

theorem Spans.append (hv : Spans v s) (hw : Spans w t) : Spans (v ++ w) (s ++ t) := by
  induction hv with
  | nil => exact hw
  | param _ ih => exact .param ih
  | call ho hf hc hinner hbal _ _ ih =>
    rw [List.cons_append, List.cons_append, List.cons_append, List.append_assoc, List.cons_append]
    exact .call ho hf hc hinner hbal ih

@[simp] theorem counts_append (v w : List Item) :
    Item.counts (v ++ w) = Item.counts v + Item.counts w := by
  induction v with
  | nil => simp [Item.counts]
  | cons item v ih => cases item <;> simp [Item.counts, ih, Nat.add_assoc]

/-- A part of a stream, as it stands when all its braces are closed. -/
structure Part (items : List Item) (seg : List ParamStruct) : Prop where
  length : seg.length = Item.counts items
  balanced : Balanced role seg
  carries : seg.length ≤ 65536 → Spaced role Carries seg
  spans : Spans items seg

theorem Part.nil : Part [] [] := ⟨rfl, .nil, fun _ => .nil, .nil⟩

theorem Part.append (hv : Part v s) (hw : Part w t) : Part (v ++ w) (s ++ t) where
  length := by simp [hv.length, hw.length]
  balanced := hv.balanced.append hw.balanced
  carries := by
    intro hlen
    rw [List.length_append] at hlen
    exact (hv.carries (by omega)).append hv.balanced (hw.carries (by omega))
  spans := hv.spans.append hw.spans

theorem Part.single {p : DslParam} {t : ParamStruct} (ht : role t = .plain) :
    Part [.param p] [t] where
  length := by simp [Item.counts]
  balanced := .single ht
  carries := fun _ => .single t
  spans := .param .nil

variable {seg : List ParamStruct}

theorem Part.brace {brace : BraceStart} {body : List Item} {o c : ParamStruct} (h : Part body seg)
    (hc : c.param_type = closeCode brace.brace_type) (ho : o.param_type = openCode brace.brace_type)
    (hcarries : seg.length + 1 < 65536 → Carries o (seg.length + 1)) :
    Part (.param (.start brace) :: (body ++ [.param (.finish brace.brace_type)]))
      (o :: (seg ++ [c])) where
  length := by simp [Item.counts, h.length]; omega
  balanced := .wrap (role_open _ ho) (role_close _ hc) h.balanced
  carries := by
    intro hlen
    rw [List.length_cons, List.length_append, List.length_singleton] at hlen
    exact .pair (role_close _ hc) h.balanced (h.carries (by omega)) (hcarries (by omega))
  spans := .param (h.spans.append (.param .nil))

/-- The token of a call, with its count and the offset of its parent. -/
def callParam (idx_to_ptr content_count parent_offset : Nat) : ParamStruct :=
  u16Param S_EXPR_PARAM.OPEN_CALL idx_to_ptr content_count parent_offset

theorem Part.call {func_name : LuaString} {call_type : CallType} {pointer_index : Option Nat}
    {inner : List Item} {f c : ParamStruct} (h : Part inner seg)
    (hf : f.param_type = funcCode call_type) (hc : c.param_type = S_EXPR_PARAM.CLOSE)
    (idx_to_ptr parent_offset : Nat) : Part [.call func_name call_type pointer_index inner]
      (callParam idx_to_ptr (2 + Item.counts inner) parent_offset :: f :: (seg ++ [c])) where
  length := by simp [Item.counts, Item.count, h.length]; omega
  balanced := by
    have hbody : Balanced role (f :: seg) := .plain (role_func _ hf) h.balanced
    exact .wrap (role_open_call rfl) (role_close_call hc) hbody
  carries := by
    intro hlen
    rw [List.length_cons, List.length_cons, List.length_append, List.length_singleton] at hlen
    have hbody : Balanced role (f :: seg) := .plain (role_func _ hf) h.balanced
    have hspaced : Spaced role Carries (f :: seg) :=
      (Spaced.single f).append (.single (role_func _ hf)) (h.carries (by omega))
    refine .pair (role_close_call hc) hbody hspaced fun _ => ?_
    have hlength := h.length
    have hmod : (2 + Item.counts inner) % 65536 = (f :: seg).length + 1 := by
      rw [List.length_cons]
      omega
    simpa [callParam, u16Param, ParamStruct.brace_idx] using hmod
  spans := .call rfl hf hc h.spans h.balanced .nil

/-! ## Their streams -/

/-- What an emission adds when it leaves everything before it as it was. -/
structure Appends (e e' : Emitter) (seg : List ParamStruct) : Prop where
  params : e'.params = e.params ++ seg
  brace_stack : e'.brace_stack = e.brace_stack
  parent_call_stack : e'.parent_call_stack = e.parent_call_stack

variable {e e' : Emitter}

theorem Appends.trans {e'' : Emitter} (h : Appends e e' s) (h' : Appends e' e'' t) :
    Appends e e'' (s ++ t) where
  params := by rw [h'.params, h.params, List.append_assoc]
  brace_stack := h'.brace_stack.trans h.brace_stack
  parent_call_stack := h'.parent_call_stack.trans h.parent_call_stack

theorem modify_append_cons {α : Type} (f : α → α) (pre : List α) (a : α) (post : List α) :
    (pre ++ a :: post).modify pre.length f = pre ++ f a :: post := by
  induction pre with
  | nil => rfl
  | cons b pre ih => simpa using ih

@[simp] theorem withFirst_type (p : ParamStruct) (v : Nat) :
    (p.withFirst v).param_type = p.param_type := by
  unfold ParamStruct.withFirst
  split <;> rfl

/-- The token of a brace that opens, once its brace is closed. -/
def closedStart (parent_offset : Nat) (brace : BraceStart) (brace_offset : Nat) : ParamStruct :=
  if brace.brace_type = .dict_key then startParam parent_offset brace
  else (startParam parent_offset brace).withFirst brace_offset

theorem closedStart_type (brace : BraceStart) (brace_offset : Nat) :
    (closedStart parent_offset brace brace_offset).param_type = openCode brace.brace_type := by
  unfold closedStart
  split
  · exact startParam_type _ _
  · rw [withFirst_type, startParam_type]

theorem closedStart_carries (brace : BraceStart) {brace_offset : Nat} (h : brace_offset < 65536) :
    Carries (closedStart parent_offset brace brace_offset) brace_offset := by
  have hmod : brace_offset % 65536 = brace_offset := Nat.mod_eq_of_lt h
  intro hkey
  rw [ParamStruct.opcode, closedStart_type, openCode_masked] at hkey
  cases brace with
  | dict_key key_str => exact (hkey rfl).elim
  | dict_key_hash hash_value => exact (hkey rfl).elim
  | _ => simp [closedStart, startParam, BraceStart.brace_type, u16Param, ParamStruct.withFirst,
      ParamStruct.brace_idx, hmod]

theorem emitFinish_start {brace : BraceStart} (h : Appends (emitStart e brace) e' seg) :
    ∃ c, c.param_type = closeCode brace.brace_type ∧
      Appends e (emitFinish e' brace.brace_type)
        (closedStart e.current_parent_offset brace (seg.length + 1) :: (seg ++ [c])) := by
  have hstack : e'.brace_stack = ⟨e.params.length, brace.brace_type⟩ :: e.brace_stack :=
    h.brace_stack
  have hparams : e'.params =
      e.params ++ startParam e.current_parent_offset brace :: seg := by
    rw [h.params]
    simp [emitStart, Emitter.emit]
  have hoffset : e'.param_count - e.params.length = seg.length + 1 := by
    rw [Emitter.param_count, hparams, List.length_append, List.length_cons]
    omega
  refine ⟨u16Param (closeCode brace.brace_type) 0 (seg.length + 1) e'.current_parent_offset,
    rfl, ?_⟩
  rw [emitFinish, hstack]
  simp only [if_true, Emitter.param_count] at hoffset ⊢
  rw [hoffset]
  refine ⟨?_, ?_, ?_⟩
  · by_cases hkey : brace.brace_type = .dict_key
    · simp [hkey, Emitter.emit, hparams, closedStart]
    · simp [hkey, Emitter.emit, Emitter.patch, hparams, closedStart, modify_append_cons]
  · split <;> rfl
  · split <;> exact h.parent_call_stack

theorem emitItems_append (v w : List Item) (e : Emitter) : emitItems m tree_record (v ++ w) e =
      emitItems m tree_record w (emitItems m tree_record v e) := by
  induction v generalizing e with
  | nil => rfl
  | cons item v ih => exact ih _

theorem emit_appends (e : Emitter) (p : ParamStruct) : Appends e (e.emit p) [p] := ⟨rfl, rfl, rfl⟩

theorem closeCall_openCall {m : Module} {func_name : LuaString} {call_type : CallType}
    {idx_to_ptr content_count : Nat}
    (h : Appends (openCall m e func_name call_type idx_to_ptr content_count) e' seg) :
    ∃ f c, f.param_type = funcCode call_type ∧ c.param_type = S_EXPR_PARAM.CLOSE ∧
      Appends e (closeCall e')
        (callParam idx_to_ptr content_count e.current_parent_offset :: f :: (seg ++ [c])) := by
  have hstack : e'.parent_call_stack = e.params.length :: e.parent_call_stack :=
    h.parent_call_stack
  refine ⟨u16Param (funcCode call_type) idx_to_ptr e.current_node_idx
      (m.func_index call_type func_name), u16Param S_EXPR_PARAM.CLOSE 0
      (e'.param_count - e.params.length)
      ({ e' with parent_call_stack := e.parent_call_stack } : Emitter).current_parent_offset,
    rfl, rfl, ?_⟩
  rw [closeCall, hstack]
  refine ⟨?_, h.brace_stack, rfl⟩
  have hparams : e'.params = e.params ++
      (callParam idx_to_ptr content_count e.current_parent_offset ::
        u16Param (funcCode call_type) idx_to_ptr e.current_node_idx
          (m.func_index call_type func_name) :: seg) := by
    rw [h.params]
    simp [openCall, Emitter.emit, callParam, Emitter.current_parent_offset, Emitter.param_count]
  simp [Emitter.emit, hparams, Emitter.current_parent_offset, Emitter.param_count]

/-- The stream of items whose braces stay in their calls. -/
theorem emitItems_part {items : List Item} (hw : Well items) (e : Emitter) :
    ∃ seg, Part items seg ∧ Appends e (emitItems m tree_record items e) seg := by
  induction hw generalizing e with
  | nil => exact ⟨[], .nil, by simp [emitItems], rfl, rfl⟩
  | @leaf value items _ ih =>
    obtain ⟨seg, hpart, happ⟩ := ih (e.emit (leafParam m tree_record value))
    refine ⟨_ :: seg, ?_, (emit_appends e _).trans happ⟩
    exact (Part.single (role_leaf m tree_record value)).append hpart
  | @brace brace body items _ _ ihbody ih =>
    obtain ⟨seg, hpart, happ⟩ := ihbody (emitStart e brace)
    obtain ⟨c, hc, hfinish⟩ := emitFinish_start happ
    obtain ⟨rest, hrest, happ'⟩ := ih _
    refine ⟨_, ?_, by rw [emitItems, emitItems_append]; exact hfinish.trans happ'⟩
    have hbrace := Part.brace hpart hc (closedStart_type e.current_parent_offset brace _)
      (closedStart_carries e.current_parent_offset brace)
    simpa using hbrace.append hrest
  | @call func_name call_type pointer_index inner items _ _ ihinner ih =>
    obtain ⟨seg, hpart, happ⟩ := ihinner (openCall m e func_name call_type
      (pointer_index.getD 0) (Item.count (.call func_name call_type pointer_index inner)))
    obtain ⟨f, c, hf, hc, hclose⟩ := closeCall_openCall happ
    obtain ⟨rest, hrest, happ'⟩ := ih _
    refine ⟨_, ?_, by rw [emitItems]; exact hclose.trans happ'⟩
    exact (hpart.call hf hc (pointer_index.getD 0) e.current_parent_offset).append hrest

end motioncore.dsl
