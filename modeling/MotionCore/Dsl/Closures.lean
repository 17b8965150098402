-- The helpers of the DSL hand functions to each other. Such a function emits calls, and may read
-- and write the locals of the file `se_control_flow.lua`.
import MotionCore.Dsl.Accepted

namespace motioncore.dsl

def ascii (s : String) : LuaString := s.toList.map fun c => c.toNat.toUInt8

/-- The locals that `se_cond` and its cases share. -/
structure CondLocals where
  cond_case_count : Nat
  cond_has_default : Bool
  in_cond : Bool
deriving DecidableEq

def CondLocals.start : CondLocals := ⟨0, false, false⟩

structure LuaState where
  builder : Builder
  cond : CondLocals

/-- An error of the DSL itself, or one that a helper raises with its text. -/
inductive LuaError where
  | builder (err : DslError)
  | raised (text : String)

/-- A function of Lua that is called for what it emits. -/
abbrev Closure := LuaState → Except LuaError LuaState

namespace Closure

/-- A call of a function of the DSL. -/
def op (o : Op) : Closure := fun st =>
  match step st.builder o with
  | .error err => .error (.builder err)
  | .ok builder => .ok { st with builder := builder }

def andThen (f g : Closure) : Closure := fun st => f st >>= g

def all : List Closure → Closure
  | [] => .ok
  | f :: fs => f.andThen (all fs)

/-- A call that is started, filled and ended. -/
def call (func_name : LuaString) (call_type : CallType) (body : Closure) : Closure :=
  (op (.start_call func_name call_type)).andThen (body.andThen (op (.end_call none)))

end Closure

/-! ## What a function emits -/

/-- The function always succeeds. It puts items into the innermost open call and changes nothing
else that could be seen. -/
def Emits (f : Closure) (P : List Item → Prop) : Prop :=
  ∀ st : LuaState, Ordered st.builder.current_call_stack → ∃ st' items, f st = .ok st' ∧ P items ∧
    st'.builder.view = st.builder.view.put items ∧ Ordered st'.builder.current_call_stack ∧
    st'.cond = st.cond

variable {P : List Item → Prop}

theorem Emits.mono {f : Closure} {Q : List Item → Prop} (h : Emits f P)
    (himp : ∀ items, P items → Q items) : Emits f Q := by
  intro st ho
  obtain ⟨st', items, hrun, hitems, hrest⟩ := h st ho
  exact ⟨st', items, hrun, himp items hitems, hrest⟩

theorem emits_all_nil : Emits (Closure.all []) (· = []) := fun st ho =>
  ⟨st, [], rfl, rfl, (put_nil _).symm, ho, rfl⟩

theorem Emits.andThen {f g : Closure} {Q : List Item → Prop} (hf : Emits f P) (hg : Emits g Q) :
    Emits (f.andThen g) fun items => ∃ v w, items = v ++ w ∧ P v ∧ Q w := by
  intro st ho
  obtain ⟨st₁, v, hrun₁, hv, hview₁, ho₁, hcond₁⟩ := hf st ho
  obtain ⟨st₂, w, hrun₂, hw, hview₂, ho₂, hcond₂⟩ := hg st₁ ho₁
  refine ⟨st₂, v ++ w, ?_, ⟨v, w, rfl, hv, hw⟩, ?_, ho₂, hcond₂.trans hcond₁⟩
  · simp only [Closure.andThen, hrun₁]
    exact hrun₂
  · rw [hview₂, hview₁, put_put]

theorem start_call_opens {func_name : LuaString} {call_type : CallType} {v v' : View}
    (h : Effect (.start_call func_name call_type) v v') (items : List Item) :
    (v'.put items).calls ≠ [] := by
  cases h with
  | start_call => simp [View.put]

theorem call_run {func_name : LuaString} {call_type : CallType} {body : Closure} (st : LuaState)
    {st₂ : LuaState} {items : List Item} (ho : Ordered st.builder.current_call_stack)
    (hbody : body { st with builder := st.builder.start_call func_name call_type } = .ok st₂)
    (hview : st₂.builder.view = (st.builder.start_call func_name call_type).view.put items)
    (ho₂ : Ordered st₂.builder.current_call_stack) :
    ∃ b pointer_index, Closure.call func_name call_type body st = .ok { st₂ with builder := b } ∧
      b.view = st.builder.view.put [.call func_name call_type pointer_index items] ∧
      Ordered b.current_call_stack := by
  obtain ⟨hopen, ho₁⟩ := start_call_effect func_name call_type ho
  have hcalls : st₂.builder.view.calls ≠ [] := by
    rw [hview]
    exact start_call_opens hopen items
  obtain ⟨b, hend⟩ : ∃ b, st₂.builder.end_call none = .ok b := by
    unfold Builder.end_call
    cases hstack : st₂.builder.current_call_stack with
    | nil => simp [Builder.view, hstack] at hcalls
    | cons top calls => exact ⟨_, rfl⟩
  obtain ⟨hclose, ho₃⟩ := end_call_effect hend ho₂
  rw [hview] at hclose
  obtain ⟨pointer_index, hput⟩ := effect_call hopen hclose
  refine ⟨b, pointer_index, ?_, hput, ho₃⟩
  have hstart : Closure.op (.start_call func_name call_type) st =
      .ok { st with builder := st.builder.start_call func_name call_type } := rfl
  have hstop : Closure.op (.end_call none) st₂ = .ok { st₂ with builder := b } := by
    simp only [Closure.op, step, hend]
  simp only [Closure.call, Closure.andThen, hstart]
  exact (congrArg (· >>= Closure.op (.end_call none)) hbody).trans hstop

theorem Emits.call {body : Closure} (h : Emits body P) (func_name : LuaString)
    (call_type : CallType) : Emits (Closure.call func_name call_type body) fun items =>
      ∃ pointer_index inner, items = [.call func_name call_type pointer_index inner] ∧ P inner := by
  intro st ho
  have ho₁ := (start_call_effect func_name call_type ho).2
  obtain ⟨st₂, inner, hrun, hinner, hview, ho₂, hcond⟩ :=
    h { st with builder := st.builder.start_call func_name call_type } ho₁
  obtain ⟨b, pointer_index, hcall, hput, ho₃⟩ := call_run st ho hrun hview ho₂
  exact ⟨_, _, hcall, ⟨pointer_index, inner, rfl, hinner⟩, hput, ho₃, hcond⟩

def Item.isPred : Item → Bool
  | .call _ .p_call _ _ | .call _ .p_call_composite _ _ => true
  | _ => false

def Item.isAction : Item → Bool
  | .call _ .p_call _ _ | .call _ .p_call_composite _ _ => false
  | .call _ _ _ _ => true
  | .param _ => false

def EmitsPred (f : Closure) : Prop := Emits f fun items => ∃ item, items = [item] ∧ item.isPred = true

def EmitsAction (f : Closure) : Prop :=
  Emits f fun items => ∃ item, items = [item] ∧ item.isAction = true

def new_tree : LuaState := ⟨start_tree (start_module (ascii "m") 4 false), .start⟩

theorem new_tree_ordered : Ordered new_tree.builder.current_call_stack := trivial

end motioncore.dsl
