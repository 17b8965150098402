-- The slots of a tree. Each `pt_m_call` takes the next slot of its tree, however many there
-- are, and the generator puts its number into one byte.
import MotionCore.Dsl.Accepted
import Mathlib.Data.List.Range

open List (Perm)

namespace motioncore.dsl

/-! ## Items -/

mutual

/-- The `pointer_index` of each `pt_m_call`. -/
def Item.pointers : Item → List Nat
  | .param _ => []
  | .call _ call_type pointer_index items =>
    (if call_type = .pt_m_call then [pointer_index.getD 0] else []) ++ Item.pointersAll items

def Item.pointersAll : List Item → List Nat
  | [] => []
  | item :: items => item.pointers ++ Item.pointersAll items

end

theorem pointersAll_append (v w : List Item) :
    Item.pointersAll (v ++ w) = Item.pointersAll v ++ Item.pointersAll w := by
  induction v with
  | nil => rfl
  | cons item v ih => simp [Item.pointersAll, ih]

def View.pointers (v : View) : List Nat :=
  Item.pointersAll v.nodes ++ Item.pointersAll (v.calls.map OpenItems.call)

theorem pointers_put (v : View) (items : List Item) :
    Perm (v.put items).pointers (v.pointers ++ Item.pointersAll items) := by
  obtain ⟨nodes, _ | ⟨c, calls⟩, braces⟩ := v
  · simp [View.put, View.pointers, pointersAll_append, Item.pointersAll]
  · simp only [View.put, View.pointers, List.map_cons, Item.pointersAll, OpenItems.call, Item.pointers,
      pointersAll_append, List.append_assoc]
    refine (Perm.refl _).append ((Perm.refl _).append ((Perm.refl _).append ?_))
    exact List.perm_append_comm

/-! ## Programs -/

/-- The calls of a program that take a slot. -/
def Op.takesSlot : Op → Bool
  | .start_call _ .pt_m_call => true
  | _ => false

def slotCount (ops : List Op) : Nat := ops.countP Op.takesSlot

variable {op : Op}

theorem effect_pointers {v v' : View} (h : Effect op v v') (hop : op.starts = false) :
    Perm v'.pointers v.pointers := by
  cases h with
  | leaf | brace_start | brace_end =>
    refine (pointers_put _ _).trans ?_
    simp [Item.pointersAll, Item.pointers]
  | start_call => cases hop
  | end_call hcalls =>
    refine (pointers_put _ _).trans ?_
    simp only [View.pointers, hcalls, List.map_cons, Item.pointersAll, List.append_nil, List.append_assoc]
    exact (Perm.refl _).append List.perm_append_comm
  | _ => exact Perm.refl _

variable {b b' : Builder}

theorem add_param_count {p : DslParam} (h : b.add_param p = .ok b') :
    b'.pointer_count = b.pointer_count := by
  unfold Builder.add_param at h
  cases hstack : b.current_call_stack with
  | nil => simp [hstack] at h
  | cons c calls =>
    rw [hstack] at h
    obtain rfl := Except.ok.inj h
    rfl

theorem step_count (h : step b op = .ok b') :
    b'.pointer_count = b.pointer_count + (if op.takesSlot then 1 else 0) := by
  cases op with
  | add_leaf value =>
    obtain ⟨-, -, hadd⟩ := bind_eq_ok h
    rw [add_param_count hadd]
    cases value <;> rfl
  | brace_start brace =>
    obtain ⟨b₁, hpush, hadd⟩ := bind_eq_ok h
    obtain rfl := push_brace_ok hpush
    exact (add_param_count hadd).trans rfl
  | brace_end marker brace_type =>
    obtain ⟨b₁, hpop, hadd⟩ := bind_eq_ok h
    obtain ⟨top, rest, -, -, rfl⟩ := pop_brace_ok hpop
    exact (add_param_count hadd).trans rfl
  | start_call func_name call_type =>
    obtain rfl := Except.ok.inj h
    cases call_type <;> rfl
  | end_call node =>
    simp only [step, Builder.end_call] at h
    rcases hstack : b.current_call_stack with _ | ⟨top, _ | ⟨parent, calls⟩⟩
    · simp [hstack] at h
    · rw [hstack] at h
      obtain rfl := Except.ok.inj h
      rfl
    · rw [hstack] at h
      obtain rfl := Except.ok.inj h
      rfl
  | use_defaults const_name =>
    simp only [step, Builder.use_defaults] at h
    split at h
    · cases h
    · split at h
      · cases h
      · obtain rfl := Except.ok.inj h
        rfl
  | use_record | frame_push | frame_pop =>
    obtain rfl := Except.ok.inj h
    rfl

/-- The slots that are taken are those below the count, each taken once. -/
def Numbered (b : Builder) : Prop := Perm b.view.pointers (List.range b.pointer_count)

theorem start_call_numbered (h : Numbered b) (func_name : LuaString) (call_type : CallType) :
    Numbered (b.start_call func_name call_type) := by
  have hstep : step b (.start_call func_name call_type) = .ok (b.start_call func_name call_type) := rfl
  have hcount := step_count hstep
  unfold Numbered
  rw [hcount, start_call_view]
  simp only [View.pointers, List.map_cons, Item.pointersAll, OpenItems.call, Item.pointers,
    List.append_nil]
  by_cases hptr : call_type = .pt_m_call
  · subst hptr
    simp only [if_true, Option.getD_some, Op.takesSlot, List.range_succ]
    refine List.Perm.trans ?_ (h.append_right _)
    rw [View.pointers, List.append_assoc]
    exact (Perm.refl _).append List.perm_append_comm
  · have htakes : Op.takesSlot (.start_call func_name call_type) = false := by
      cases call_type <;> first | rfl | exact absurd rfl hptr
    simpa [Numbered, View.pointers, hptr, htakes] using h

theorem step_numbered (h : step b op = .ok b') (ho : Ordered b.current_call_stack) (hb : Numbered b)
    : Numbered b' := by
  by_cases hstart : op.starts = true
  · obtain ⟨func_name, call_type, rfl⟩ : ∃ func_name call_type, op = .start_call func_name call_type := by
      cases op <;> simp [Op.starts] at hstart ⊢
    obtain rfl := Except.ok.inj h
    exact start_call_numbered hb func_name call_type
  · rw [Bool.not_eq_true] at hstart
    have hcount : b'.pointer_count = b.pointer_count := by
      rw [step_count h]
      cases op <;> simp [Op.starts, Op.takesSlot] at hstart ⊢
    unfold Numbered
    rw [hcount]
    exact (effect_pointers (step_effect h ho).1 hstart).trans hb

variable {ops : List Op}

theorem run_numbered (h : run b ops = .ok b') (ho : Ordered b.current_call_stack)
    (hb : Numbered b) : Numbered b' ∧ b'.pointer_count = b.pointer_count + slotCount ops := by
  induction ops generalizing b with
  | nil =>
    obtain rfl := Except.ok.inj h
    exact ⟨hb, rfl⟩
  | cons op ops ih =>
    obtain ⟨b₁, hstep, hrest⟩ := bind_eq_ok (show (step b op >>= fun b => run b ops) = .ok b' from h)
    obtain ⟨hnumbered, hcount⟩ := ih hrest (step_effect hstep ho).2 (step_numbered hstep ho hb)
    refine ⟨hnumbered, ?_⟩
    rw [hcount, step_count hstep, slotCount, slotCount, List.countP_cons]
    omega

/-- The `pt_m_call`s of an accepted tree have the slots from zero on, in some order. -/
theorem build_numbered {m m' : Module} {name : LuaString} {tree : Tree}
    (h : build m name ops = .ok (m', tree)) :
    Perm (Item.pointersAll (tree.nodes.map Node.call)) (List.range tree.pointer_count) ∧
      tree.pointer_count = slotCount ops := by
  obtain ⟨b, hrun, hend⟩ := bind_eq_ok h
  have hstart : Numbered (start_tree m) := Perm.refl _
  obtain ⟨hnumbered, hcount⟩ := run_numbered hrun trivial hstart
  -- The calls that are open at the end are ended, which takes no slot.
  obtain ⟨hended, hsame⟩ := run_numbered (run_end_calls b) (run_effects hrun trivial).2 hnumbered
  have hnone : slotCount (List.replicate b.current_call_stack.length (.end_call none)) = 0 := by
    rw [slotCount, List.countP_replicate]
    rfl
  unfold Builder.end_tree at hend
  split at hend
  · cases hend
  · split at hend
    · cases hend
    · dsimp only at hend
      split at hend
      · cases hend
      · obtain ⟨-, rfl⟩ := Prod.mk.inj (Except.ok.inj hend)
        have hclosed : b.with_open_calls.current_call_stack = [] := by
          unfold Builder.with_open_calls
          split
          · assumption
          · rfl
        refine ⟨?_, ?_⟩
        · simpa [Numbered, View.pointers, hclosed, Item.pointersAll, Builder.view] using hended
        · dsimp only
          rw [hsame, hnone, hcount]
          simp [start_tree]
      · cases hend

/-! ## Streams -/

/-- The slot of a function in the parameters, as the engine takes it. -/
def ParamStruct.slot (p : ParamStruct) : Option UInt8 :=
  if p.param_type &&& S_EXPR_FLAG_POINTER ≠ 0 then some p.index_to_pointer else none

def slotsOf (params : List ParamStruct) : List UInt8 := params.filterMap ParamStruct.slot

@[simp] theorem slotsOf_append (s t : List ParamStruct) : slotsOf (s ++ t) = slotsOf s ++ slotsOf t :=
  List.filterMap_append

theorem slotsOf_plain {p : ParamStruct} (h : p.param_type &&& S_EXPR_FLAG_POINTER = 0) :
    slotsOf [p] = [] := by
  simp [slotsOf, ParamStruct.slot, h]

theorem slot_withFirst (p : ParamStruct) (v : Nat) : (p.withFirst v).slot = p.slot := by
  unfold ParamStruct.withFirst
  split <;> rfl

theorem slotsOf_modify (params : List ParamStruct) (i v : Nat) :
    slotsOf (params.modify i fun p => p.withFirst v) = slotsOf params := by
  induction params generalizing i with
  | nil => cases i <;> rfl
  | cons p params ih =>
    cases i with
    | zero => simp [slotsOf, List.filterMap_cons, slot_withFirst]
    | succ i =>
      have hrest := ih i
      unfold slotsOf at hrest ⊢
      rw [List.modify_succ_cons, List.filterMap_cons, List.filterMap_cons, hrest]

variable (m : Module)

theorem leaf_plain (tree_record : Option LuaString) (value : Leaf) :
    (leafParam m tree_record value).param_type &&& S_EXPR_FLAG_POINTER = 0 := by
  rw [leafParam_type]
  cases value <;> simp only [leafCode] <;> rfl

theorem start_plain (parent_offset : Nat) (brace : BraceStart) :
    (startParam parent_offset brace).param_type &&& S_EXPR_FLAG_POINTER = 0 := by
  rw [startParam_type]
  cases brace <;> simp only [BraceStart.brace_type, openCode] <;> rfl

theorem u16_slots (param_type : UInt8) (i a b : Nat) : slotsOf [u16Param param_type i a b] =
      if param_type &&& S_EXPR_FLAG_POINTER ≠ 0 then [UInt8.ofNat i] else [] := by
  by_cases h : param_type &&& S_EXPR_FLAG_POINTER = 0
  · simp [slotsOf, ParamStruct.slot, u16Param, h]
  · simp [slotsOf, ParamStruct.slot, u16Param, h]

@[simp] theorem close_slots (brace_type : BraceType) (i a b : Nat) :
    slotsOf [u16Param (closeCode brace_type) i a b] = [] := by
  have hplain : closeCode brace_type &&& S_EXPR_FLAG_POINTER = 0 := by
    cases brace_type <;> decide
  simp [u16_slots, hplain]

@[simp] theorem func_slots (call_type : CallType) (i a b : Nat) :
    slotsOf [u16Param (funcCode call_type) i a b] =
      if call_type = .pt_m_call then [UInt8.ofNat i] else [] := by
  have hptr : funcCode call_type &&& S_EXPR_FLAG_POINTER ≠ 0 ↔ call_type = .pt_m_call := by
    cases call_type <;> decide
  simp only [u16_slots, hptr]

theorem emitParam_slots (tree_record : Option LuaString) (e : Emitter) (p : DslParam) :
    slotsOf (emitParam m tree_record e p).params = slotsOf e.params := by
  cases p with
  | leaf value => simp [emitParam, Emitter.emit, slotsOf_plain (leaf_plain m tree_record value)]
  | start brace => simp [emitParam, emitStart, Emitter.emit, slotsOf_plain (start_plain _ brace)]
  | finish brace_type =>
    simp only [emitParam, emitFinish]
    split
    · simp [Emitter.emit]
    · split
      · split
        · simp [Emitter.emit]
        · simp [Emitter.emit, Emitter.patch, slotsOf_modify]
      · simp [Emitter.emit]

theorem openCall_slots (e : Emitter) (func_name : LuaString) (call_type : CallType)
    (idx_to_ptr content_count : Nat) :
    slotsOf (openCall m e func_name call_type idx_to_ptr content_count).params =
      slotsOf e.params ++ if call_type = .pt_m_call then [UInt8.ofNat idx_to_ptr] else [] := by
  have hopen : S_EXPR_PARAM.OPEN_CALL &&& S_EXPR_FLAG_POINTER = 0 := by decide
  simp only [openCall, Emitter.emit, slotsOf_append, func_slots]
  simp [u16_slots, hopen]

theorem closeCall_slots (e : Emitter) : slotsOf (closeCall e).params = slotsOf e.params := by
  unfold closeCall
  split
  · rfl
  · have hclose : S_EXPR_PARAM.CLOSE &&& S_EXPR_FLAG_POINTER = 0 := by decide
    simp [Emitter.emit, u16_slots, hclose]

mutual

/-- A slot is emitted as its last eight bits. -/
theorem emitItem_slots (m : Module) (tree_record : Option LuaString) : ∀ (item : Item) (e : Emitter),
    slotsOf (emitItem m tree_record item e).params = slotsOf e.params ++ item.pointers.map UInt8.ofNat
  | .param p, e => by
    rw [emitItem, emitParam_slots]
    simp [Item.pointers]
  | .call func_name call_type pointer_index items, e => by
    rw [emitItem]
    simp only [closeCall_slots, emitItems_slots m tree_record items, openCall_slots, Item.pointers]
    split <;> simp

theorem emitItems_slots (m : Module) (tree_record : Option LuaString) : ∀ (items : List Item) (e : Emitter),
    slotsOf (emitItems m tree_record items e).params =
      slotsOf e.params ++ (Item.pointersAll items).map UInt8.ofNat
  | [], e => by simp [emitItems, Item.pointersAll]
  | item :: items, e => by
    rw [emitItems, emitItems_slots m tree_record items, emitItem_slots m tree_record item]
    simp [Item.pointersAll]

end

theorem tree_slots (tree : Tree) : slotsOf (emit_tree_params m tree) =
      (Item.pointersAll (tree.nodes.map Node.call)).map UInt8.ofNat := by
  rw [emit_tree_params, emitItems_slots]
  simp [slotsOf]

/-- The slots of an accepted tree are those below the count, by their last eight bits. -/
theorem build_slots {m m' : Module} {name : LuaString} {tree : Tree}
    (h : build m name ops = .ok (m', tree)) (gen : Module) :
    Perm (slotsOf (emit_tree_params gen tree)) ((List.range (slotCount ops)).map UInt8.ofNat) := by
  obtain ⟨hnumbered, hcount⟩ := build_numbered h
  rw [tree_slots, ← hcount]
  exact hnumbered.map _

theorem bytes_nodup_iff (n : Nat) : ((List.range n).map UInt8.ofNat).Nodup ↔ n ≤ 256 := by
  constructor
  · intro h
    by_contra hn
    have hlen : 256 < ((List.range n).map UInt8.ofNat).length := by simpa using hn
    -- The slots 0 and 256 have the same byte.
    have heq : ((List.range n).map UInt8.ofNat).get ⟨0, by omega⟩ =
        ((List.range n).map UInt8.ofNat).get ⟨256, hlen⟩ := by simp
    have hsame := List.nodup_iff_injective_get.mp h heq
    simp at hsame
  · intro hn
    refine List.nodup_range.map_on fun a ha b hb heq => ?_
    have ha := List.mem_range.mp ha
    have hb := List.mem_range.mp hb
    have hmod := congrArg UInt8.toNat heq
    simp at hmod
    omega

end motioncore.dsl
