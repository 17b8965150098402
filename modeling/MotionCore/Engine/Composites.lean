-- The composite nodes of the engine, each as a program for the three events.
import MotionCore.Engine.Program

namespace motioncore.engine

open EventType

/-- Whether the parameter at the index is a call of a predicate. -/
def isPred (args : List ArgKind) (j : Nat) : Bool := args[j]? == some (.call .pred)

def isOneshot (args : List ArgKind) (j : Nat) : Bool := args[j]? == some (.call .oneshot)

/-- Whether it is a call of a main function. -/
def isMain (args : List ArgKind) (j : Nat) : Bool := args[j]? == some (.call .main)

/-- A child is terminated and reset, without its descendants. -/
def restart_child (j : Nat) : Prog Unit := do
  s_expr_child_terminate j
  s_expr_child_reset j

/-- A child is terminated and reset with its descendants. -/
def restart_recursive (j : Nat) : Prog Unit := do
  s_expr_child_terminate j
  s_expr_child_reset_recursive j

/-! ## Branches -/

def restart_branches (has_else : Bool) : Prog Unit := do
  restart_child 1
  if has_else then restart_child 2 else pure ()

def if_then_else_result (has_else : Bool) (r : Result) : Prog Result :=
  if r.layer ≠ .pipeline then return r
  else match r.code with
    | .CONTINUE | .HALT => return r
    | .RESET => do
      restart_branches has_else
      return SE_PIPELINE_RESET
    | .DISABLE | .TERMINATE => do
      restart_branches has_else
      return SE_PIPELINE_CONTINUE
    | .SKIP_CONTINUE => return SE_PIPELINE_CONTINUE

/-- Children: predicate, then branch, and perhaps an else branch. -/
def se_if_then_else (args : List ArgKind) : EventType → Prog Result
  | SE_EVENT_TERMINATE => do
    if args.length < 2 then return SE_PIPELINE_CONTINUE
    s_expr_children_terminate_all args
    return SE_PIPELINE_CONTINUE
  | SE_EVENT_INIT => return SE_PIPELINE_CONTINUE
  | SE_EVENT_TICK => do
    if args.length < 2 then return SE_PIPELINE_CONTINUE
    let has_else := decide (3 ≤ args.length)
    let condition ← s_expr_invoke_pred 0
    if condition then
      let r ← s_expr_invoke_any 1
      if_then_else_result has_else r
    else if has_else then
      let r ← s_expr_invoke_any 2
      if_then_else_result has_else r
    else
      return SE_PIPELINE_CONTINUE

/-- The action of the first case whose predicate is true. The children alternate between
predicates and actions. -/
def cond_match (args : List ArgKind) : Nat → Nat → Prog (Option Nat)
  | 0, _ => return none
  | n + 1, i =>
    if args.length ≤ i then return none
    else if isPred args i then do
      let result ← s_expr_invoke_pred i
      if result then return some (i + 1)
      else cond_match args n (i + 2)
    else cond_match args n (i + 1)

/-- No action is chosen. -/
def NO_ACTION : Nat := 0xFFFF

def cond_result (action : Nat) (r : Result) : Prog Result :=
  if r.layer ≠ .pipeline then return r
  else match r.code with
    | .CONTINUE | .HALT => return SE_PIPELINE_CONTINUE
    | .RESET => do
      restart_recursive action
      return SE_PIPELINE_CONTINUE
    | .DISABLE | .TERMINATE | .SKIP_CONTINUE => return r

def se_cond (args : List ArgKind) : EventType → Prog Result
  | SE_EVENT_TERMINATE => do
    s_expr_children_terminate_all args
    s_expr_set_user_flags NO_ACTION
    return SE_PIPELINE_CONTINUE
  | SE_EVENT_INIT => do
    s_expr_set_user_flags NO_ACTION
    return SE_PIPELINE_CONTINUE
  | SE_EVENT_TICK => do
    let active_child ← s_expr_get_user_flags
    let found ← cond_match args args.length 0
    match found with
    | none => return SE_PIPELINE_CONTINUE
    | some matched_action => do
      if matched_action ≠ active_child then
        if active_child ≠ NO_ACTION then restart_recursive active_child
        restart_recursive matched_action
        s_expr_set_user_flags matched_action
      let r ← s_expr_child_invoke matched_action
      cond_result matched_action r

/-- What `se_trigger_on_change` makes of the result of an action. -/
def trigger_result (action : Nat) (r : Result) : Prog Result :=
  if r.layer ≠ .pipeline then return r
  else match r.code with
    | .CONTINUE | .HALT | .SKIP_CONTINUE => return SE_PIPELINE_CONTINUE
    | .DISABLE | .TERMINATE | .RESET => do
      restart_child action
      return SE_PIPELINE_CONTINUE

/-- Children: initial state, predicate, rising action, and perhaps a falling action. -/
def se_trigger_on_change (args : List ArgKind) : EventType → Prog Result
  | SE_EVENT_TERMINATE => do
    if args.length < 3 then return SE_PIPELINE_CONTINUE
    s_expr_children_terminate_all args
    return SE_PIPELINE_CONTINUE
  | SE_EVENT_INIT => do
    if args.length < 3 then return SE_PIPELINE_CONTINUE
    match args.head? with
    | some (.int initial_state) => do
      -- a cast to `int32_t`
      s_expr_set_state (if initial_state % 4294967296 ≠ 0 then 1 else 0)
      return SE_PIPELINE_CONTINUE
    | _ => return SE_PIPELINE_CONTINUE
  | SE_EVENT_TICK => do
    if args.length < 3 then return SE_PIPELINE_CONTINUE
    let has_falling := decide (4 ≤ args.length)
    let current ← s_expr_invoke_pred 1
    let prev ← s_expr_get_state
    s_expr_set_state (if current then 1 else 0)
    if prev = 0 ∧ current then
      if has_falling then restart_child 3
      restart_child 2
      let r ← s_expr_invoke_any 2
      trigger_result 2 r
    else if prev ≠ 0 ∧ !current ∧ has_falling then
      restart_child 2
      restart_child 3
      let r ← s_expr_invoke_any 3
      trigger_result 3 r
    else
      return SE_PIPELINE_CONTINUE

/-! ## Sequences -/

/-- The loop of `se_sequence`, from the child of the state on. The state is a byte. The
fuel bounds how long a tick is followed. -/
def sequence_loop (args : List ArgKind) : Nat → Nat → Prog Result
  | 0, _ => .spin
  | fuel + 1, state =>
    let advance : Prog Result := do
      s_expr_set_state (state + 1)
      sequence_loop args fuel ((state + 1) % 256)
    if args.length ≤ state then return SE_PIPELINE_DISABLE
    else if isOneshot args state || isPred args state then do
      let _ ← s_expr_invoke_any state
      advance
    else if isMain args state then do
      let r ← s_expr_invoke_any state
      match r.layer with
      | .application => return r
      | .function => if r = SE_FUNCTION_HALT then return SE_PIPELINE_HALT else return r
      | .pipeline =>
        match r.code with
        | .CONTINUE | .HALT | .SKIP_CONTINUE => return SE_PIPELINE_CONTINUE
        | .DISABLE | .TERMINATE | .RESET => do
          s_expr_child_terminate state
          advance
    else advance

/-- One child after the other. On TERMINATE only the current child is terminated. -/
def se_sequence (fuel : Nat) (args : List ArgKind) : EventType → Prog Result
  | SE_EVENT_TERMINATE => do
    let state ← s_expr_get_state
    if state < args.length then
      let running ← s_expr_child_is_initialized state
      if running then s_expr_child_terminate state
    s_expr_set_state 0
    return SE_PIPELINE_CONTINUE
  | SE_EVENT_INIT => do
    s_expr_set_state 0
    return SE_PIPELINE_CONTINUE
  | SE_EVENT_TICK => do
    let state ← s_expr_get_state
    sequence_loop args fuel state

/-- Every initialised child is terminated, from the first to the last. -/
def terminate_initialized (args : List ArgKind) : Prog Unit :=
  forEach (List.range args.length) fun j => do
    let running ← s_expr_child_is_initialized j
    if running then s_expr_child_terminate j else pure ()

/-- The children of `se_sequence_once` from the given ones on, until a main child answers
something else than CONTINUE or DISABLE. -/
def sequence_once_loop (args : List ArgKind) : List Nat → Prog Unit
  | [] => pure ()
  | j :: js =>
    if isOneshot args j || isPred args j then do
      let _ ← s_expr_invoke_any j
      sequence_once_loop args js
    else if isMain args j then do
      let r ← s_expr_invoke_any j
      if r ≠ SE_PIPELINE_CONTINUE ∧ r ≠ SE_PIPELINE_DISABLE then pure ()
      else sequence_once_loop args js
    else sequence_once_loop args js

def se_sequence_once (args : List ArgKind) : EventType → Prog Result
  | SE_EVENT_TERMINATE => do
    terminate_initialized args
    s_expr_set_state 0
    return SE_PIPELINE_CONTINUE
  | SE_EVENT_INIT => do
    s_expr_set_state 0
    return SE_PIPELINE_CONTINUE
  | SE_EVENT_TICK => do
    sequence_once_loop args (List.range args.length)
    terminate_initialized args
    return SE_PIPELINE_DISABLE

/-! ## Parallel children -/

def FORK_STATE_RUNNING : Nat := 1
def FORK_STATE_COMPLETE : Nat := 2

/-- The children of `se_function_interface` from the given ones on, with the number of
active ones so far. `inl` is a result that goes to the caller at once. -/
def interface_loop (args : List ArgKind) : List Nat → Nat → Prog (Result ⊕ Nat)
  | [], active_count => return .inr active_count
  | j :: js, active_count =>
    if !isCall args j then interface_loop args js active_count
    else do
      let active ← s_expr_child_is_active j
      if !active then interface_loop args js active_count
      else
        let r ← s_expr_invoke_any j
        if r.layer ≠ .pipeline then return .inl r
        else match r.code with
          | .CONTINUE | .HALT => interface_loop args js (active_count + 1)
          | .DISABLE | .TERMINATE => do
            s_expr_child_terminate j
            interface_loop args js active_count
          | .RESET => do
            restart_child j
            interface_loop args js (active_count + 1)
          | .SKIP_CONTINUE => return .inr (active_count + 1)

/-- On INIT every callable child is reset. -/
def se_function_interface (args : List ArgKind) : EventType → Prog Result
  | SE_EVENT_INIT => do
    s_expr_set_state FORK_STATE_RUNNING
    s_expr_set_user_flags 0
    s_expr_children_reset_all args
    return SE_FUNCTION_CONTINUE
  | SE_EVENT_TERMINATE => do
    s_expr_children_terminate_all args
    s_expr_set_state FORK_STATE_COMPLETE
    return SE_FUNCTION_CONTINUE
  | SE_EVENT_TICK => do
    let state ← s_expr_get_state
    if state ≠ FORK_STATE_RUNNING then return SE_FUNCTION_DISABLE
    let out ← interface_loop args (List.range args.length) 0
    match out with
    | .inl r => return r
    | .inr active_count =>
      if active_count = 0 then do
        s_expr_set_state FORK_STATE_COMPLETE
        return SE_FUNCTION_DISABLE
      else return SE_FUNCTION_CONTINUE

/-- The children of `se_fork` and `se_fork_join` from the given ones on. `some` is a result
that goes to the caller at once. -/
def fork_loop (args : List ArgKind) : List Nat → Prog (Option Result)
  | [] => return none
  | j :: js =>
    if isOneshot args j || isPred args j then do
      let fired ← s_expr_child_is_initialized j
      if !fired then
        let _ ← s_expr_invoke_any j
      fork_loop args js
    else if isMain args j then do
      let active ← s_expr_child_is_active j
      if !active then fork_loop args js
      else
        let r ← s_expr_invoke_any j
        let r := if r = SE_FUNCTION_HALT then SE_PIPELINE_HALT else r
        if r.layer ≠ .pipeline then return some r
        else match r.code with
          | .CONTINUE | .HALT => fork_loop args js
          | .DISABLE | .TERMINATE => do
            s_expr_child_terminate j
            fork_loop args js
          | .RESET => do
            restart_recursive j
            fork_loop args js
          | .SKIP_CONTINUE => return none
    else fork_loop args js

def active_main_count (args : List ArgKind) : List Nat → Prog Nat
  | [] => return 0
  | j :: js =>
    if isMain args j then do
      let active ← s_expr_child_is_active j
      let n ← active_main_count args js
      return (if active then n + 1 else n)
    else active_main_count args js

def se_fork (args : List ArgKind) : EventType → Prog Result
  | SE_EVENT_TERMINATE => do
    s_expr_children_terminate_all args
    s_expr_set_state FORK_STATE_COMPLETE
    return SE_PIPELINE_CONTINUE
  | SE_EVENT_INIT => do
    s_expr_set_state FORK_STATE_RUNNING
    s_expr_set_user_flags 0
    s_expr_children_reset_all args
    return SE_PIPELINE_CONTINUE
  | SE_EVENT_TICK => do
    let state ← s_expr_get_state
    if state ≠ FORK_STATE_RUNNING then return SE_PIPELINE_DISABLE
    let out ← fork_loop args (List.range args.length)
    match out with
    | some r => return r
    | none => do
      let n ← active_main_count args (List.range args.length)
      if n = 0 then
        s_expr_set_state FORK_STATE_COMPLETE
        return SE_PIPELINE_DISABLE
      else return SE_PIPELINE_CONTINUE

def se_fork_join (args : List ArgKind) : EventType → Prog Result
  | SE_EVENT_TERMINATE => do
    s_expr_children_terminate_all args
    return SE_PIPELINE_CONTINUE
  | SE_EVENT_INIT => return SE_PIPELINE_CONTINUE
  | SE_EVENT_TICK => do
    let out ← fork_loop args (List.range args.length)
    match out with
    | some r => return r
    | none => do
      let n ← active_main_count args (List.range args.length)
      if n = 0 then return SE_PIPELINE_DISABLE else return SE_FUNCTION_HALT

/-- The children of `se_chain_flow` from the given ones on, with the number of active ones
so far. -/
def chain_flow_loop (args : List ArgKind) : List Nat → Nat → Prog Result
  | [], active_count => return (if active_count = 0 then SE_PIPELINE_DISABLE else SE_PIPELINE_CONTINUE)
  | j :: js, active_count =>
    if !isCall args j then chain_flow_loop args js active_count
    else do
      let active ← s_expr_child_is_active j
      if !active then chain_flow_loop args js active_count
      else if isOneshot args j || isPred args j then
        let _ ← s_expr_invoke_any j
        s_expr_child_terminate j
        chain_flow_loop args js active_count
      else
        let r ← s_expr_invoke_any j
        if r = SE_FUNCTION_HALT then return SE_PIPELINE_HALT
        else if r.layer ≠ .pipeline then return r
        else match r.code with
          | .CONTINUE => chain_flow_loop args js (active_count + 1)
          | .HALT => return SE_PIPELINE_CONTINUE
          | .DISABLE => do
            s_expr_child_terminate j
            chain_flow_loop args js active_count
          | .TERMINATE => do
            s_expr_children_terminate_all args
            return SE_PIPELINE_TERMINATE
          | .RESET => do
            s_expr_children_terminate_all args
            s_expr_children_reset_all args
            return SE_PIPELINE_CONTINUE
          | .SKIP_CONTINUE => return SE_PIPELINE_CONTINUE

def se_chain_flow (args : List ArgKind) : EventType → Prog Result
  | SE_EVENT_TERMINATE => do
    s_expr_children_terminate_all args
    return SE_PIPELINE_CONTINUE
  | SE_EVENT_INIT => return SE_PIPELINE_CONTINUE
  | SE_EVENT_TICK => chain_flow_loop args (List.range args.length) 0

/-! ## Loops -/

def SE_WHILE_STATE_EVAL_PRED : Nat := 0
def SE_WHILE_STATE_RUN_BODY : Nat := 1

/-- The body of `se_while` runs, until it completes. -/
def while_run_body : Prog Result := do
  let r ← s_expr_child_invoke 1
  if r.layer ≠ .pipeline then return r
  else match r.code with
    | .CONTINUE | .HALT | .SKIP_CONTINUE => return SE_FUNCTION_HALT
    | .DISABLE | .TERMINATE | .RESET => do
      restart_recursive 1
      s_expr_set_state SE_WHILE_STATE_EVAL_PRED
      return SE_PIPELINE_HALT

/-- Children: predicate and body. -/
def se_while : EventType → Prog Result
  | SE_EVENT_TERMINATE => do
    let running ← s_expr_child_is_initialized 1
    if running then s_expr_child_terminate 1
    return SE_PIPELINE_CONTINUE
  | SE_EVENT_INIT => do
    s_expr_set_state SE_WHILE_STATE_EVAL_PRED
    return SE_PIPELINE_CONTINUE
  | SE_EVENT_TICK => do
    let state ← s_expr_get_state
    if state = SE_WHILE_STATE_EVAL_PRED then
      let cond ← s_expr_invoke_pred 0
      if !cond then return SE_PIPELINE_DISABLE
      else
        s_expr_child_reset_recursive 1
        s_expr_set_state SE_WHILE_STATE_RUN_BODY
        while_run_body
    else if state = SE_WHILE_STATE_RUN_BODY then while_run_body
    else return SE_PIPELINE_DISABLE

/-! ## Dispatchers -/

/-- The action of the case with the value, or else of the last default case, or zero. The
parameters are pairs of a case value and an action. -/
def find_action (args : List ArgKind) (val : Int) : Nat → Nat → Nat → Nat
  | 0, _, default_idx => default_idx
  | n + 1, idx, default_idx =>
    match args[idx]? with
    | none => default_idx
    | some (.int case_val) =>
      if idx + 1 < args.length then
        if case_val = val then idx + 1
        else find_action args val n (idx + 2) (if case_val = -1 then idx + 1 else default_idx)
      else find_action args val n (idx + 2) default_idx
    | some _ => find_action args val n (idx + 1) default_idx

def invoke_and_handle_result (action_idx : Nat) : Prog Result := do
  let r ← s_expr_invoke_any action_idx
  if r.layer ≠ .pipeline then return r
  else match r.code with
    | .CONTINUE | .HALT => return r
    | .DISABLE | .TERMINATE | .RESET => do
      restart_recursive action_idx
      return SE_PIPELINE_CONTINUE
    | .SKIP_CONTINUE => return SE_PIPELINE_CONTINUE

/-- The action of the event. INIT and TERMINATE do nothing. -/
def se_event_dispatch (args : List ArgKind) (event_id : Nat) : EventType → Prog Result
  | SE_EVENT_INIT | SE_EVENT_TERMINATE => return SE_PIPELINE_CONTINUE
  | SE_EVENT_TICK =>
    let action_idx := find_action args event_id args.length 0 0
    if 0 < action_idx then invoke_and_handle_result action_idx
    else return SE_PIPELINE_CONTINUE

/-- The two dispatchers on a field clean up the branch that is active. -/
def terminate_branch : Prog Unit := do
  let prev_action_idx ← s_expr_get_user_flags
  if 0 < prev_action_idx ∧ prev_action_idx ≠ NO_ACTION then
    s_expr_child_terminate prev_action_idx
  s_expr_set_user_flags NO_ACTION

/-- They enter the branch of an action, when it is not the active one. -/
def enter_branch (prev_action_idx action_idx : Nat) : Prog Unit :=
  if action_idx ≠ prev_action_idx then do
    if 0 < prev_action_idx ∧ prev_action_idx ≠ NO_ACTION then restart_recursive prev_action_idx
    s_expr_child_reset_recursive action_idx
    s_expr_set_user_flags action_idx
  else pure ()

def fieldArg (args : List ArgKind) : Option Nat :=
  match args.head? with
  | some (.field f) => some f
  | _ => none

def state_machine_result (action_idx : Nat) (r : Result) : Prog Result :=
  if r = SE_FUNCTION_HALT then return SE_PIPELINE_HALT
  else if r.layer ≠ .pipeline then return r
  else match r.code with
    | .CONTINUE | .HALT => return r
    | .DISABLE | .TERMINATE | .RESET => do
      restart_recursive action_idx
      return SE_PIPELINE_CONTINUE
    | .SKIP_CONTINUE => return SE_PIPELINE_CONTINUE

/-- Parameters: a field, and pairs of a case value and an action. -/
def se_state_machine (args : List ArgKind) : EventType → Prog Result
  | SE_EVENT_TERMINATE => do
    terminate_branch
    return SE_PIPELINE_CONTINUE
  | SE_EVENT_INIT => do
    if args.length < 3 then return SE_PIPELINE_CONTINUE
    s_expr_set_user_flags NO_ACTION
    return SE_PIPELINE_CONTINUE
  | SE_EVENT_TICK => do
    let prev_action_idx ← s_expr_get_user_flags
    match fieldArg args with
    | none => return SE_PIPELINE_CONTINUE
    | some f => do
      let val ← field_value f
      let action_idx := find_action args val args.length 1 0
      if action_idx = 0 then return SE_PIPELINE_CONTINUE
      enter_branch prev_action_idx action_idx
      let r ← s_expr_invoke_any action_idx
      state_machine_result action_idx r

def field_dispatch_result (action_idx : Nat) (r : Result) : Prog Result :=
  if r = SE_PIPELINE_RESET ∨ r = SE_PIPELINE_DISABLE ∨ r = SE_PIPELINE_TERMINATE then do
    restart_recursive action_idx
    s_expr_set_user_flags NO_ACTION
    return SE_PIPELINE_CONTINUE
  else return r

def se_field_dispatch (args : List ArgKind) : EventType → Prog Result
  | SE_EVENT_TERMINATE => do
    terminate_branch
    return SE_CONTINUE
  | SE_EVENT_INIT => do
    if args.length < 3 then return SE_PIPELINE_CONTINUE
    s_expr_set_user_flags NO_ACTION
    return SE_PIPELINE_CONTINUE
  | SE_EVENT_TICK => do
    let prev_action_idx ← s_expr_get_user_flags
    match fieldArg args with
    | none => return SE_PIPELINE_CONTINUE
    | some f => do
      let val ← field_value f
      let action_idx := find_action args val args.length 1 0
      if action_idx = 0 then return SE_CONTINUE
      enter_branch prev_action_idx action_idx
      let r ← s_expr_invoke_any action_idx
      field_dispatch_result action_idx r

/-! ## All of them -/

/-- The functions of main nodes. A leaf has a function of its own. -/
inductive MainFn where
  | leaf (id : Nat)
  | se_if_then_else
  | se_cond
  | se_trigger_on_change
  | se_sequence
  | se_sequence_once
  | se_function_interface
  | se_fork
  | se_fork_join
  | se_chain_flow
  | se_while
  | se_event_dispatch
  | se_state_machine
  | se_field_dispatch
deriving DecidableEq, Repr

def mainProg (fuel : Nat) (fn : MainFn) (args : List ArgKind) (event_id : Nat)
    (event : EventType) : Prog Result :=
  match fn with
  | .leaf _ => .leaf .ret
  | .se_if_then_else => se_if_then_else args event
  | .se_cond => se_cond args event
  | .se_trigger_on_change => se_trigger_on_change args event
  | .se_sequence => se_sequence fuel args event
  | .se_sequence_once => se_sequence_once args event
  | .se_function_interface => se_function_interface args event
  | .se_fork => se_fork args event
  | .se_fork_join => se_fork_join args event
  | .se_chain_flow => se_chain_flow args event
  | .se_while => se_while event
  | .se_event_dispatch => se_event_dispatch args event_id event
  | .se_state_machine => se_state_machine args event
  | .se_field_dispatch => se_field_dispatch args event

/-- The functions of predicates. A `test` has no state of its own, a `counter` has. -/
inductive PredFn where
  | test (id : Nat)
  | counter (id : Nat)
  | se_pred_and
  | se_pred_or
  | se_pred_not
  | se_pred_nor
  | se_pred_nand
  | se_pred_xor
deriving DecidableEq, Repr

/-- Every predicate among the children is true, up to the first that is not. -/
def pred_all (args : List ArgKind) : List Nat → Prog Bool
  | [] => return true
  | j :: js =>
    if isPred args j then do
      let b ← s_expr_invoke_pred j
      if b then pred_all args js else return false
    else pred_all args js

def pred_any (args : List ArgKind) : List Nat → Prog Bool
  | [] => return false
  | j :: js =>
    if isPred args j then do
      let b ← s_expr_invoke_pred j
      if b then return true else pred_any args js
    else pred_any args js

/-- The negation of the first predicate among the children. -/
def pred_not (args : List ArgKind) : List Nat → Prog Bool
  | [] => return true
  | j :: js =>
    if isPred args j then do
      let b ← s_expr_invoke_pred j
      return !b
    else pred_not args js

/-- Exactly one predicate is true, and the loop stops at the second. -/
def pred_one (args : List ArgKind) : List Nat → Nat → Prog Bool
  | [], true_count => return true_count == 1
  | j :: js, true_count =>
    if isPred args j then do
      let b ← s_expr_invoke_pred j
      if b then
        if 1 < true_count + 1 then return false else pred_one args js (true_count + 1)
      else pred_one args js true_count
    else pred_one args js true_count

/-- The program of a composite predicate. -/
def predProg (fn : PredFn) (args : List ArgKind) : Prog Bool :=
  match fn with
  | .se_pred_and => pred_all args (List.range args.length)
  | .se_pred_or => pred_any args (List.range args.length)
  | .se_pred_not => pred_not args (List.range args.length)
  | .se_pred_nor => do
    let b ← pred_any args (List.range args.length)
    return !b
  | .se_pred_nand => do
    let b ← pred_all args (List.range args.length)
    return !b
  | .se_pred_xor => pred_one args (List.range args.length) 0
  | .test _ | .counter _ => return false

end motioncore.engine
