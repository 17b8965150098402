-- The slots of a tree instance. A `pt_m_call` has a slot of 64 bits, which its function reads and
-- writes through the pointer context. The context is saved and restored around each call.
-- A node runs only the functions of the oneshots that stand inside it.
import MotionCore.Engine.Program
import MotionCore.Lib.Registers

namespace motioncore.slots

open engine registers

/-! ## Instances -/

/-- All of an instance but its slots and its context. -/
structure Others (E : Type) where
  node_states : Nat → NodeState
  current_event_id : Nat
  env : E

structure Inst (E : Type) where
  pointer_array : List UInt64
  in_pointer_call : Bool
  pointer_base : UInt8
  current_node_index : Nat
  others : Others E
  /-- The `pt_m_call` whose function runs. Only the proofs look at it, and at the logs. -/
  running : Option Nat
  log : List (Access (Option Nat) UInt64)
  fired : List Nat

variable {E α : Type}

namespace Inst

def pointer_count (s : Inst E) : Nat := s.pointer_array.length

def setNode (s : Inst E) (n : Nat) (st : NodeState) : Inst E :=
  { s with others := { s.others with
    node_states := fun m => if m = n then st else s.others.node_states m } }

def state (s : Inst E) (n : Nat) : NodeState := s.others.node_states n

/-- `s_expr_get_user_u64`. Outside of a `pt_m_call` and out of range it is an exception. -/
def s_expr_get_user_u64 (s : Inst E) : UInt64 × Inst E :=
  if !s.in_pointer_call then (0, s)
  else if s.pointer_count ≤ s.pointer_base.toNat then (0, s)
  else
    let v := s.pointer_array.getD s.pointer_base.toNat 0
    (v, { s with log := s.log ++ [.read s.running v] })

def s_expr_set_user_u64 (s : Inst E) (value : UInt64) : Inst E :=
  if !s.in_pointer_call then s
  else if s.pointer_count ≤ s.pointer_base.toNat then s
  else { s with
    pointer_array := s.pointer_array.set s.pointer_base.toNat value
    log := s.log ++ [.write s.running value] }

/-- The context of a call. A call that is no `pt_m_call` leaves the slot of the one around it. -/
def enter (s : Inst E) (node_index : Nat) (pointer : Option Nat) : Inst E :=
  match pointer with
  | some p => { s with
      current_node_index := node_index
      in_pointer_call := true
      pointer_base := UInt8.ofNat p
      running := some p }
  | none => { s with
      current_node_index := node_index
      running := none }

def leave (s saved : Inst E) : Inst E :=
  { s with
    current_node_index := saved.current_node_index
    in_pointer_call := saved.in_pointer_call
    pointer_base := saved.pointer_base
    running := saved.running }

end Inst

/-! ## Functions -/

/-- What a function does, one thing after the other. `effect` stands for all that it does to
anything but slots and children. -/
inductive Code (E α : Type) where
  | ret (a : α)
  | effect (f : Nat → Others E → Others E) (k : Nat → Others E → Code E α)
  | get_user_u64 (k : UInt64 → Code E α)
  | set_user_u64 (value : UInt64) (k : Code E α)
  | invoke (j : Nat) (k : Result → Code E α)
  | terminate (j : Nat) (k : Code E α)
  | reset (j : Nat) (k : Code E α)

/-- What a parent can do with a child. -/
structure Kid (E : Type) where
  invoke : Inst E → Result × Inst E
  terminate : Inst E → Inst E
  reset : Inst E → Inst E

def Kid.param : Kid E := ⟨fun s => (SE_TERMINATE, s), id, id⟩

def kidAt (kids : List (Kid E)) (j : Nat) : Kid E := kids[j]?.getD .param

def Code.run (kids : List (Kid E)) : Code E α → Inst E → α × Inst E
  | .ret a, s => (a, s)
  | .effect f k, s =>
    (k s.current_node_index s.others).run kids { s with others := f s.current_node_index s.others }
  | .get_user_u64 k, s => (k s.s_expr_get_user_u64.1).run kids s.s_expr_get_user_u64.2
  | .set_user_u64 value k, s => k.run kids (s.s_expr_set_user_u64 value)
  | .invoke j k, s => (k ((kidAt kids j).invoke s).1).run kids ((kidAt kids j).invoke s).2
  | .terminate j k, s => k.run kids ((kidAt kids j).terminate s)
  | .reset j k, s => k.run kids ((kidAt kids j).reset s)

/-! ## Trees -/

/-- A node with what stands inside its call. A `pt_m_call` has its `pointer_index`. -/
inductive Node where
  | param (value : Int)
  | main (func : Nat) (node_index : Nat) (pointer : Option Nat) (args : List Node)
  | oneshot (func : Nat) (node_index : Nat) (survives_reset : Bool) (args : List Node)
  | pred (func : Nat) (node_index : Nat) (args : List Node)

/-- The function tables of the module. `none` is a function that is not there. -/
structure World (E : Type) where
  main : Nat → Option (List Node → EventType → Nat → Code E Result)
  oneshot : Nat → Option (List Node → Nat → Code E Unit)
  pred : Nat → Option (List Node → Nat → Code E Bool)

/-- `s_expr_child_reset` -/
def resetNode (s : Inst E) (n : Nat) : Inst E :=
  s.setNode n ⟨true, false, (s.state n).ever_init, .zero⟩

section

variable (w : World E) (func node_index : Nat) (pointer : Option Nat) (args : List Node)
variable (kids : List (Kid E))

def first_call (fn : List Node → EventType → Nat → Code E Result) (event_id : Nat) (s : Inst E) : Inst E :=
  if (s.state node_index).initialized then s
  else
    let s := s.setNode node_index { s.state node_index with initialized := true }
    ((fn args EventType.SE_EVENT_INIT event_id).run kids s).2

def last_call (fn : List Node → EventType → Nat → Code E Result) (event_id : Nat) (result : Result)
    (s : Inst E) : Inst E :=
  if result = SE_PIPELINE_DISABLE then
    let s := ((fn args EventType.SE_EVENT_TERMINATE event_id).run kids s).2
    s.setNode node_index { s.state node_index with active := false }
  else s

def dispatch_main (s : Inst E) : Result × Inst E :=
  if !(s.state node_index).active then (SE_PIPELINE_CONTINUE, s)
  else
    let event_id := s.others.current_event_id
    let inside := s.enter node_index pointer
    match w.main func with
    | none => (SE_TERMINATE, inside.leave s)
    | some fn =>
      let started := first_call node_index args kids fn event_id inside
      let (result, ticked) := (fn args EventType.SE_EVENT_TICK event_id).run kids started
      (result, (last_call node_index args kids fn event_id result ticked).leave s)

/-- `terminate_at_physical_index`, for a node that is initialised. The event id is zero. -/
def terminate_main (s : Inst E) : Inst E :=
  if !(s.state node_index).initialized then s
  else match w.main func with
    | none => s
    | some fn =>
      let s' := ((fn args EventType.SE_EVENT_TERMINATE 0).run kids (s.enter node_index pointer)).2
      (s'.leave s).setNode node_index ⟨false, false, false, .zero⟩

/-- The pointer context stays that of the call around it. -/
def dispatch_oneshot (survives_reset : Bool) (s : Inst E) : Inst E :=
  let st := s.state node_index
  if (if survives_reset then st.ever_init else st.initialized) then s
  else
    let st := if survives_reset then { st with ever_init := true } else { st with initialized := true }
    let inside := (s.setNode node_index st).enter node_index none
    match w.oneshot func with
    | none => inside.leave s
    | some fn =>
      let inside := { inside with fired := inside.fired ++ [node_index] }
      ((fn args s.others.current_event_id).run kids inside).2.leave s

def dispatch_pred (s : Inst E) : Bool × Inst E :=
  let inside := s.enter node_index none
  match w.pred func with
  | none => (false, inside.leave s)
  | some fn =>
    let (result, s') := (fn args s.others.current_event_id).run kids inside
    (result, s'.leave s)

end

mutual

def Node.kid (w : World E) : Node → Kid E
  | .param _ => .param
  | .main func n pointer args =>
    ⟨dispatch_main w func n pointer args (Node.kids w args),
      terminate_main w func n pointer args (Node.kids w args), (resetNode · n)⟩
  | .oneshot func n survives_reset args =>
    ⟨fun s => (SE_PIPELINE_CONTINUE, dispatch_oneshot w func n args (Node.kids w args) survives_reset s),
      id, (resetNode · n)⟩
  | .pred func n args =>
    ⟨fun s =>
        let (result, s') := dispatch_pred w func n args (Node.kids w args) s
        (if result then SE_PIPELINE_CONTINUE else SE_PIPELINE_HALT, s'),
      id, (resetNode · n)⟩

def Node.inside (w : World E) : Node → List (Kid E)
  | .param _ => []
  | .main _ _ _ args | .oneshot _ _ _ args | .pred _ _ args => Node.kids w args

/-- A function goes by places, and so reaches all that stands inside its call. -/
def Node.kids (w : World E) : List Node → List (Kid E)
  | [] => []
  | t :: ts => t.kid w :: (t.inside w ++ Node.kids w ts)

end

/-- `s_expr_tree_terminate`. It goes by the call at the top, and does not save the context. -/
def s_expr_tree_terminate (w : World E) (root : Node) (s : Inst E) : Inst E :=
  let s := match root with
    | .main func n pointer args =>
      if !(s.state n).initialized then s
      else match w.main func with
        | none => s
        | some fn =>
          { ((fn args EventType.SE_EVENT_TERMINATE 0).run (Node.kids w args) (s.enter n pointer)).2 with
            in_pointer_call := false
            running := none }
    | _ => s
  { s with others := { s.others with node_states := fun _ => ⟨false, false, false, .zero⟩ } }

open engine

variable {E α : Type}

mutual

def Node.indices : Node → List Nat
  | .param _ => []
  | .main _ node_index _ args | .oneshot _ node_index _ args | .pred _ node_index args =>
    node_index :: Node.indicesAll args

def Node.indicesAll : List Node → List Nat
  | [] => []
  | t :: ts => t.indices ++ Node.indicesAll ts

end

/-- How often the function of the oneshot `n` has run. -/
def Inst.runs (s : Inst E) (n : Nat) : Nat := s.fired.count n

/-- Nothing that is done to the node runs the oneshot `n`. -/
structure Kid.Spares (n : Nat) (k : Kid E) : Prop where
  invoke : ∀ s, (k.invoke s).2.runs n = s.runs n
  terminate : ∀ s, (k.terminate s).runs n = s.runs n
  reset : ∀ s, (k.reset s).runs n = s.runs n

section

variable {n : Nat} {kids : List (Kid E)}

theorem param_spares (n : Nat) : (Kid.param : Kid E).Spares n := ⟨fun _ => rfl, fun _ => rfl, fun _ => rfl⟩

theorem kidAt_spares (h : ∀ k ∈ kids, k.Spares n) (j : Nat) : (kidAt kids j).Spares n := by
  unfold kidAt
  cases hj : kids[j]? with
  | none => exact param_spares n
  | some k => exact h k (List.mem_of_getElem? hj)

theorem run_spares (hkids : ∀ k ∈ kids, k.Spares n) (c : Code E α) (s : Inst E) :
    (c.run kids s).2.runs n = s.runs n := by
  induction c generalizing s with
  | ret a => rfl
  | effect f k ih => exact ih _ _ _
  | get_user_u64 k ih =>
    refine (ih _ _).trans ?_
    unfold Inst.s_expr_get_user_u64
    split
    · rfl
    · split <;> rfl
  | set_user_u64 value k ih =>
    refine (ih _).trans ?_
    unfold Inst.s_expr_set_user_u64
    split
    · rfl
    · split <;> rfl
  | invoke j k ih => exact (ih _ _).trans ((kidAt_spares hkids j).invoke s)
  | terminate j k ih => exact (ih _).trans ((kidAt_spares hkids j).terminate s)
  | reset j k ih => exact (ih _).trans ((kidAt_spares hkids j).reset s)

end

section

variable {w : World E} {n func node_index : Nat} {pointer : Option Nat} {args : List Node}
variable {kids : List (Kid E)} {fn : List Node → EventType → Nat → Code E Result}

theorem enter_runs (s : Inst E) (m : Nat) (pointer : Option Nat) : (s.enter m pointer).runs n = s.runs n := by
  cases pointer <;> rfl

theorem first_call_runs (hkids : ∀ k ∈ kids, k.Spares n) (event_id : Nat) (s : Inst E) :
    (first_call node_index args kids fn event_id s).runs n = s.runs n := by
  unfold first_call
  split
  · rfl
  · exact (run_spares hkids _ _).trans rfl

theorem last_call_runs (hkids : ∀ k ∈ kids, k.Spares n) (event_id : Nat) (result : Result) (s : Inst E) :
    (last_call node_index args kids fn event_id result s).runs n = s.runs n := by
  unfold last_call
  split
  · exact run_spares hkids _ _
  · rfl

theorem dispatch_main_runs (hkids : ∀ k ∈ kids, k.Spares n) (s : Inst E) :
    (dispatch_main w func node_index pointer args kids s).2.runs n = s.runs n := by
  unfold dispatch_main
  split
  · rfl
  · cases w.main func with
    | none => exact enter_runs s _ _
    | some fn =>
      refine (last_call_runs hkids _ _ _).trans ((run_spares hkids _ _).trans ?_)
      exact (first_call_runs hkids _ _).trans (enter_runs s _ _)

theorem terminate_main_runs (hkids : ∀ k ∈ kids, k.Spares n) (s : Inst E) :
    (terminate_main w func node_index pointer args kids s).runs n = s.runs n := by
  unfold terminate_main
  split
  · rfl
  · cases w.main func with
    | none => rfl
    | some fn => exact (run_spares hkids _ _).trans (enter_runs s _ _)

theorem dispatch_pred_runs (hkids : ∀ k ∈ kids, k.Spares n) (s : Inst E) :
    (dispatch_pred w func node_index args kids s).2.runs n = s.runs n := by
  unfold dispatch_pred
  cases w.pred func with
  | none => rfl
  | some fn => exact run_spares hkids _ _

/-- Whether the function of a oneshot runs at an invocation. -/
def ready (survives_reset : Bool) (st : NodeState) : Bool :=
  !(if survives_reset then st.ever_init else st.initialized)

theorem dispatch_oneshot_runs (hkids : ∀ k ∈ kids, k.Spares n) (survives_reset : Bool) (s : Inst E) :
    (dispatch_oneshot w func node_index args kids survives_reset s).runs n =
      s.runs n + if n = node_index ∧ ready survives_reset (s.state node_index) ∧ (w.oneshot func).isSome
        then 1 else 0 := by
  unfold dispatch_oneshot ready
  dsimp only
  generalize (if survives_reset = true then { s.state node_index with ever_init := true }
    else { s.state node_index with initialized := true }) = st
  generalize (if survives_reset = true then (s.state node_index).ever_init
    else (s.state node_index).initialized) = done
  cases done with
  | true => simp
  | false =>
    cases w.oneshot func with
    | none => simp [Inst.runs, Inst.enter, Inst.leave, Inst.setNode]
    | some fn =>
      simp only [Bool.false_eq_true, if_false]
      refine (run_spares hkids _ _).trans ?_
      have hcount : (s.fired ++ [node_index]).count n = s.fired.count n + if n = node_index then 1 else 0 := by
        rw [List.count_append, List.count_singleton]
        by_cases hn : n = node_index
        · simp [hn]
        · simp [hn, Ne.symm hn]
      simpa [Inst.runs, Inst.enter, Inst.setNode] using hcount

end

mutual

theorem node_spares {w : World E} {n : Nat} : ∀ t : Node, n ∉ t.indices → (t.kid w).Spares n
  | .param _, _ => param_spares n
  | .main func node_index pointer args, h => by
    have hkids := nodes_spare (w := w) args fun hmem => h (List.mem_cons_of_mem _ hmem)
    exact ⟨dispatch_main_runs hkids, terminate_main_runs hkids, fun _ => rfl⟩
  | .oneshot func node_index survives_reset args, h => by
    have hkids := nodes_spare (w := w) args fun hmem => h (List.mem_cons_of_mem _ hmem)
    refine ⟨fun s => ?_, fun _ => rfl, fun _ => rfl⟩
    have hne : n ≠ node_index := fun heq => h (heq ▸ List.mem_cons_self)
    exact (dispatch_oneshot_runs hkids survives_reset s).trans (by simp [hne])
  | .pred func node_index args, h => by
    have hkids := nodes_spare (w := w) args fun hmem => h (List.mem_cons_of_mem _ hmem)
    exact ⟨dispatch_pred_runs hkids, fun _ => rfl, fun _ => rfl⟩

theorem inside_spares {w : World E} {n : Nat} : ∀ t : Node, n ∉ t.indices → ∀ k ∈ t.inside w, k.Spares n
  | .param _, _ => by simp [Node.inside]
  | .main _ _ _ args, h | .oneshot _ _ _ args, h | .pred _ _ args, h =>
    nodes_spare args fun hmem => h (List.mem_cons_of_mem _ hmem)

theorem nodes_spare {w : World E} {n : Nat} : ∀ ts : List Node, n ∉ Node.indicesAll ts →
    ∀ k ∈ Node.kids w ts, k.Spares n
  | [], _ => by simp [Node.kids]
  | t :: ts, h => by
    have hfirst : n ∉ t.indices := fun hmem => h (List.mem_append_left _ hmem)
    intro k hk
    rcases List.mem_cons.mp hk with rfl | hk
    · exact node_spares t hfirst
    · rcases List.mem_append.mp hk with hk | hk
      · exact inside_spares t hfirst k hk
      · exact nodes_spare ts (fun hmem => h (List.mem_append_right _ hmem)) k hk

end

end motioncore.slots
