-- How a result code of a node travels through the composites around it. Most of them
-- hand a code of the application or the function layer on at once. `se_sequence_once`
-- keeps it, and `se_cond` and `se_while` turn an application-level DISABLE into CONTINUE.
import MotionCore.Engine.Steps

namespace motioncore.engine

open EventType

variable {E : Type} {α β : Type}

/-! ## Programs that pass a code on -/

/-- When a main child answers with a code in `P`, the program ends at once with it. -/
def Passes (args : List ArgKind) (P : Result → Prop) (g : Result → α) : Prog α → Prop
  | .ret _ | .spin => True
  | .leaf k => ∀ r, Passes args P g (k r)
  | .getData k => ∀ d, Passes args P g (k d)
  | .setData _ k => Passes args P g k
  | .readField _ k => ∀ v, Passes args P g (k v)
  | .childActive _ k | .childInitialized _ k => ∀ b, Passes args P g (k b)
  | .invokeAny j k => ∀ r, (isMain args j = true → P r → k r = .ret (g r)) ∧ Passes args P g (k r)
  | .invokePred _ k => ∀ b, Passes args P g (k b)
  | .childTerminate _ k | .childReset _ k | .childResetRecursive _ k => Passes args P g k

def Returns (Q : α → Prop) : Prog α → Prop
  | .ret a => Q a
  | .spin => True
  | .leaf k => ∀ r, Returns Q (k r)
  | .getData k => ∀ d, Returns Q (k d)
  | .setData _ k => Returns Q k
  | .readField _ k => ∀ v, Returns Q (k v)
  | .childActive _ k | .childInitialized _ k => ∀ b, Returns Q (k b)
  | .invokeAny _ k => ∀ r, Returns Q (k r)
  | .invokePred _ k => ∀ b, Returns Q (k b)
  | .childTerminate _ k | .childReset _ k | .childResetRecursive _ k => Returns Q k

/-- A program that invokes no child for its result. -/
def Silent : Prog α → Prop
  | .ret _ | .spin => True
  | .leaf k => ∀ r, Silent (k r)
  | .getData k => ∀ d, Silent (k d)
  | .setData _ k => Silent k
  | .readField _ k => ∀ v, Silent (k v)
  | .childActive _ k | .childInitialized _ k => ∀ b, Silent (k b)
  | .invokeAny _ _ => False
  | .invokePred _ k => ∀ b, Silent (k b)
  | .childTerminate _ k | .childReset _ k | .childResetRecursive _ k => Silent k

variable {p : Prog α}

theorem Returns.bind {Q : α → Prop} {Q' : β → Prop} {f : α → Prog β} (hp : Returns Q p)
    (hf : ∀ a, Q a → Returns Q' (f a)) : Returns Q' (p >>= f) := by
  change Returns Q' (p.andThen f)
  induction p with
  | ret a => exact hf a hp
  | spin => exact hp
  | leaf k ih => exact fun r => ih r (hp r)
  | getData k ih => exact fun d => ih d (hp d)
  | setData d k ih => exact ih hp
  | readField fd k ih => exact fun v => ih v (hp v)
  | childActive j k ih => exact fun b => ih b (hp b)
  | childInitialized j k ih => exact fun b => ih b (hp b)
  | invokeAny j k ih => exact fun r => ih r (hp r)
  | invokePred j k ih => exact fun b => ih b (hp b)
  | childTerminate j k ih => exact ih hp
  | childReset j k ih => exact ih hp
  | childResetRecursive j k ih => exact ih hp

theorem Returns.mono {Q Q' : α → Prop} (h : ∀ a, Q a → Q' a) (hp : Returns Q p) : Returns Q' p := by
  induction p with
  | ret a => exact h a hp
  | spin => trivial
  | leaf k ih => exact fun r => ih r (hp r)
  | getData k ih => exact fun d => ih d (hp d)
  | setData d k ih => exact ih hp
  | readField fd k ih => exact fun v => ih v (hp v)
  | childActive j k ih => exact fun b => ih b (hp b)
  | childInitialized j k ih => exact fun b => ih b (hp b)
  | invokeAny j k ih => exact fun r => ih r (hp r)
  | invokePred j k ih => exact fun b => ih b (hp b)
  | childTerminate j k ih => exact ih hp
  | childReset j k ih => exact ih hp
  | childResetRecursive j k ih => exact ih hp

theorem returns_true (p : Prog α) : Returns (fun _ => True) p := by
  induction p with
  | ret a => trivial
  | spin => trivial
  | leaf k ih => exact ih
  | getData k ih => exact ih
  | setData d k ih => exact ih
  | readField fd k ih => exact ih
  | childActive j k ih => exact ih
  | childInitialized j k ih => exact ih
  | invokeAny j k ih => exact ih
  | invokePred j k ih => exact ih
  | childTerminate j k ih => exact ih
  | childReset j k ih => exact ih
  | childResetRecursive j k ih => exact ih

/-- What a program goes on with decides what it answers. -/
theorem Returns.last {Q : β → Prop} (p : Prog α) {f : α → Prog β} (hf : ∀ a, Returns Q (f a)) :
    Returns Q (p >>= f) :=
  (returns_true p).bind fun a _ => hf a

section

variable {args : List ArgKind} {P : Result → Prop}
variable {g : Result → α} {p : Prog α} {f : α → Prog β}

/-- A loop hands a code to the code behind it, which ends with it. -/
theorem Passes.bind {g' : Result → β} (hp : Passes args P g p)
    (hend : ∀ r, P r → f (g r) = .ret (g' r)) (hf : ∀ a, Passes args P g' (f a)) :
    Passes args P g' (p >>= f) := by
  change Passes args P g' (p.andThen f)
  induction p with
  | ret a => exact hf a
  | spin => exact hp
  | leaf k ih => exact fun r => ih r (hp r)
  | getData k ih => exact fun d => ih d (hp d)
  | setData d k ih => exact ih hp
  | readField fd k ih => exact fun v => ih v (hp v)
  | childActive j k ih => exact fun b => ih b (hp b)
  | childInitialized j k ih => exact fun b => ih b (hp b)
  | invokeAny j k ih =>
    intro r
    refine ⟨fun hmain hr => ?_, ih r (hp r).2⟩
    change (k r).andThen f = .ret (g' r)
    rw [(hp r).1 hmain hr]
    exact hend r hr
  | invokePred j k ih => exact fun b => ih b (hp b)
  | childTerminate j k ih => exact ih hp
  | childReset j k ih => exact ih hp
  | childResetRecursive j k ih => exact ih hp

theorem Silent.bind {g : Result → β} (hp : Silent p) (hf : ∀ a, Passes args P g (f a)) :
    Passes args P g (p >>= f) := by
  change Passes args P g (p.andThen f)
  induction p with
  | ret a => exact hf a
  | spin => exact hp
  | leaf k ih => exact fun r => ih r (hp r)
  | getData k ih => exact fun d => ih d (hp d)
  | setData d k ih => exact ih hp
  | readField fd k ih => exact fun v => ih v (hp v)
  | childActive j k ih => exact fun b => ih b (hp b)
  | childInitialized j k ih => exact fun b => ih b (hp b)
  | invokeAny j k ih => exact absurd hp id
  | invokePred j k ih => exact fun b => ih b (hp b)
  | childTerminate j k ih => exact ih hp
  | childReset j k ih => exact ih hp
  | childResetRecursive j k ih => exact ih hp

theorem Silent.andThen (hp : Silent p) (hf : ∀ a, Silent (f a)) : Silent (p >>= f) := by
  change Silent (p.andThen f)
  induction p with
  | ret a => exact hf a
  | spin => exact hp
  | leaf k ih => exact fun r => ih r (hp r)
  | getData k ih => exact fun d => ih d (hp d)
  | setData d k ih => exact ih hp
  | readField fd k ih => exact fun v => ih v (hp v)
  | childActive j k ih => exact fun b => ih b (hp b)
  | childInitialized j k ih => exact fun b => ih b (hp b)
  | invokeAny j k ih => exact absurd hp id
  | invokePred j k ih => exact fun b => ih b (hp b)
  | childTerminate j k ih => exact ih hp
  | childReset j k ih => exact ih hp
  | childResetRecursive j k ih => exact ih hp

variable {j : Nat}

theorem passes_invoke {f : Result → Prog α} (hend : ∀ r, P r → f r = .ret (g r))
    (hf : ∀ r, Passes args P g (f r)) : Passes args P g (s_expr_invoke_any j >>= f) :=
  fun r => ⟨fun _ => hend r, hf r⟩

/-- The answer of a child that is no main node is not looked at. -/
theorem passes_other {f : Result → Prog α} (hother : isMain args j = false)
    (hf : ∀ r, Passes args P g (f r)) : Passes args P g (s_expr_invoke_any j >>= f) :=
  fun r => ⟨fun hmain => absurd hmain (by rw [hother]; exact Bool.noConfusion), hf r⟩

/-- `s_expr_child_invoke` hands on every code but an application-level DISABLE. -/
theorem passes_child_invoke {f : Result → Prog α} (hP : ∀ r, P r → r ≠ SE_DISABLE)
    (hend : ∀ r, P r → f r = .ret (g r)) (hf : ∀ r, Passes args P g (f r)) :
    Passes args P g (s_expr_child_invoke j >>= f) := by
  have hrun : (s_expr_child_invoke j >>= f) = .invokeAny j fun r =>
      if r = SE_DISABLE then .childTerminate j (f SE_CONTINUE) else f r := by
    apply congrArg (Prog.invokeAny j)
    funext r
    change (if r = SE_DISABLE then Prog.childTerminate j (.ret SE_CONTINUE) else .ret r).andThen f = _
    split
    · rfl
    · rfl
  rw [hrun]
  intro r
  refine ⟨fun _ hr => ?_, ?_⟩
  · dsimp only
    rw [if_neg (hP r hr)]
    exact hend r hr
  · dsimp only
    split
    · exact hf _
    · exact hf r

end

/-! ## The composites -/

/-- A code that the composites pass on: of the application or the function layer, but not
the HALT of the function layer, which they turn into their own. -/
def Outgoing (r : Result) : Prop := r.layer ≠ .pipeline ∧ r ≠ SE_FUNCTION_HALT

section

variable {args : List ArgKind}
variable (j : Nat)

theorem silent_invoke_pred : Silent (s_expr_invoke_pred j) := fun _ => trivial

theorem silent_get_state : Silent s_expr_get_state := fun _ => trivial

theorem silent_set_state (v : Nat) : Silent (s_expr_set_state v) := fun _ => trivial

theorem silent_get_user_flags : Silent s_expr_get_user_flags := fun _ => trivial

theorem silent_set_user_flags (v : Nat) : Silent (s_expr_set_user_flags v) := fun _ => trivial

theorem silent_field_value (f : Nat) : Silent (field_value f) := fun _ => trivial

theorem silent_child_is_active : Silent (s_expr_child_is_active j) := fun _ => trivial

theorem silent_child_is_initialized : Silent (s_expr_child_is_initialized j) :=
  fun _ => trivial

theorem silent_child_terminate : Silent (s_expr_child_terminate j) := trivial

theorem silent_child_reset : Silent (s_expr_child_reset j) := trivial

theorem silent_child_reset_recursive : Silent (s_expr_child_reset_recursive j) := trivial

theorem silent_restart_child : Silent (restart_child j) := trivial

theorem silent_restart_recursive : Silent (restart_recursive j) := trivial

theorem silent_forEach {f : Nat → Prog Unit} (hf : ∀ j, Silent (f j)) (js : List Nat) :
    Silent (forEach js f) := by
  induction js with
  | nil => trivial
  | cons j js ih => exact (hf j).andThen fun _ => ih

theorem silent_children_terminate_all : Silent (s_expr_children_terminate_all args) := by
  refine silent_forEach (fun j => ?_) _
  split
  · exact silent_restart_child j
  · trivial

theorem silent_children_reset_all : Silent (s_expr_children_reset_all args) := by
  refine silent_forEach (fun j => ?_) _
  split
  · exact silent_child_reset j
  · trivial

theorem silent_restart_branches (has_else : Bool) : Silent (restart_branches has_else) := by
  cases has_else
  · trivial
  · trivial

theorem if_then_else_passes : Passes args Outgoing id (se_if_then_else args SE_EVENT_TICK) := by
  have hend : ∀ has_else r, Outgoing r → if_then_else_result has_else r = .ret (id r) :=
    fun has_else r hr => if_pos hr.1
  have hresult : ∀ has_else r, Passes args Outgoing id (if_then_else_result has_else r) := by
    intro has_else r
    unfold if_then_else_result
    split
    · trivial
    · split
      · trivial
      · trivial
      · exact (silent_restart_branches has_else).bind fun _ => trivial
      · exact (silent_restart_branches has_else).bind fun _ => trivial
      · exact (silent_restart_branches has_else).bind fun _ => trivial
      · trivial
  simp only [se_if_then_else]
  split
  · trivial
  · refine (silent_invoke_pred 0).bind fun condition => ?_
    split
    · exact passes_invoke (hend _) (hresult _)
    · split
      · exact passes_invoke (hend _) (hresult _)
      · trivial

variable (js : List Nat) (n : Nat)

theorem silent_cond_match (i : Nat) : Silent (cond_match args n i) := by
  induction n generalizing i with
  | zero => trivial
  | succ n ih =>
    unfold cond_match
    split
    · trivial
    · split
      · refine (silent_invoke_pred i).andThen fun result => ?_
        split
        · trivial
        · exact ih _
      · exact ih _

/-- A code that `s_expr_child_invoke` passes on, too. -/
def OutgoingInvoked (r : Result) : Prop := Outgoing r ∧ r ≠ SE_DISABLE

theorem cond_passes : Passes args OutgoingInvoked id (se_cond args SE_EVENT_TICK) := by
  have hend : ∀ j r, OutgoingInvoked r → cond_result j r = .ret (id r) :=
    fun j r hr => if_pos hr.1.1
  have hresult : ∀ j r, Passes args OutgoingInvoked id (cond_result j r) := by
    intro j r
    unfold cond_result
    split
    · trivial
    · split
      all_goals trivial
  have hinvoke : ∀ j, Passes args OutgoingInvoked id (s_expr_child_invoke j >>= cond_result j) :=
    fun j => passes_child_invoke (fun _ hr => hr.2) (hend j) (hresult j)
  simp only [se_cond]
  refine silent_get_user_flags.bind fun active_child => ?_
  refine (silent_cond_match _ _).bind fun found => ?_
  cases found with
  | none => trivial
  | some j =>
    dsimp only
    split
    · split
      · refine (silent_restart_recursive _).bind fun _ => ?_
        refine (silent_restart_recursive _).bind fun _ => ?_
        exact (silent_set_user_flags _).bind fun _ => hinvoke j
      · refine (silent_restart_recursive _).bind fun _ => ?_
        exact (silent_set_user_flags _).bind fun _ => hinvoke j
    · exact hinvoke j

theorem trigger_passes : Passes args Outgoing id (se_trigger_on_change args SE_EVENT_TICK) := by
  have hend : ∀ j r, Outgoing r → trigger_result j r = .ret (id r) := fun j r hr => if_pos hr.1
  have hresult : ∀ j r, Passes args Outgoing id (trigger_result j r) := by
    intro j r
    unfold trigger_result
    split
    · trivial
    · split
      all_goals trivial
  simp only [se_trigger_on_change]
  split
  · trivial
  · refine (silent_invoke_pred 1).bind fun current => ?_
    refine silent_get_state.bind fun prev => ?_
    refine (silent_set_state _).bind fun _ => ?_
    split
    · split
      · refine (silent_restart_child 3).bind fun _ => ?_
        refine (silent_restart_child 2).bind fun _ => ?_
        exact passes_invoke (hend 2) (hresult 2)
      · refine (silent_restart_child 2).bind fun _ => ?_
        exact passes_invoke (hend 2) (hresult 2)
    · split
      · refine (silent_restart_child 2).bind fun _ => ?_
        refine (silent_restart_child 3).bind fun _ => ?_
        exact passes_invoke (hend 3) (hresult 3)
      · trivial

theorem isMain_of_other {j : Nat} (h : (isOneshot args j || isPred args j) = true) :
    isMain args j = false := by
  simp only [isOneshot, isPred, isMain, Bool.or_eq_true, beq_iff_eq] at h ⊢
  rcases h with h | h
  · rw [h]
    rfl
  · rw [h]
    rfl

theorem sequence_loop_passes (fuel state : Nat) :
    Passes args Outgoing id (sequence_loop args fuel state) := by
  induction fuel generalizing state with
  | zero => trivial
  | succ fuel ih =>
    have hadvance : Passes args Outgoing id (do
        s_expr_set_state (state + 1)
        sequence_loop args fuel ((state + 1) % 256)) :=
      (silent_set_state _).bind fun _ => ih _
    simp only [sequence_loop]
    split
    · trivial
    · split
      · rename_i hother
        exact passes_other (isMain_of_other hother) fun _ => hadvance
      · split
        · refine passes_invoke ?_ ?_
          · rintro ⟨layer, code⟩ ⟨hlayer, hhalt⟩
            cases layer with
            | application => rfl
            | function => exact if_neg hhalt
            | pipeline => exact absurd rfl hlayer
          · intro r
            split
            · trivial
            · split
              all_goals trivial
            · split
              · trivial
              · trivial
              · trivial
              · exact (silent_child_terminate _).bind fun _ => hadvance
              · exact (silent_child_terminate _).bind fun _ => hadvance
              · exact (silent_child_terminate _).bind fun _ => hadvance
        · exact hadvance

theorem sequence_passes (fuel : Nat) :
    Passes args Outgoing id (se_sequence fuel args SE_EVENT_TICK) :=
  silent_get_state.bind fun state => sequence_loop_passes fuel state

theorem interface_loop_passes :
    Passes args Outgoing (Sum.inl : Result → Result ⊕ Nat) (interface_loop args js n) := by
  induction js generalizing n with
  | nil => trivial
  | cons j js ih =>
    simp only [interface_loop]
    split
    · exact ih n
    · refine (silent_child_is_active j).bind fun active => ?_
      split
      · exact ih n
      · refine passes_invoke (fun r hr => if_pos hr.1) fun r => ?_
        split
        · trivial
        · split
          · exact ih _
          · exact ih _
          · exact (silent_child_terminate j).bind fun _ => ih _
          · exact (silent_child_terminate j).bind fun _ => ih _
          · exact (silent_restart_child j).bind fun _ => ih _
          · trivial

theorem function_interface_passes :
    Passes args Outgoing id (se_function_interface args SE_EVENT_TICK) := by
  simp only [se_function_interface]
  refine silent_get_state.bind fun state => ?_
  split
  · trivial
  · refine (interface_loop_passes _ _).bind (fun r _ => rfl) fun out => ?_
    cases out with
    | inl r => trivial
    | inr active_count =>
      dsimp only
      split
      · exact (silent_set_state _).bind fun _ => trivial
      · trivial

theorem fork_loop_passes :
    Passes args Outgoing (some : Result → Option Result) (fork_loop args js) := by
  induction js with
  | nil => trivial
  | cons j js ih =>
    simp only [fork_loop]
    split
    · rename_i hother
      refine (silent_child_is_initialized j).bind fun fired => ?_
      split
      · exact passes_other (isMain_of_other hother) fun _ => ih
      · exact ih
    · split
      · refine (silent_child_is_active j).bind fun active => ?_
        split
        · exact ih
        · refine passes_invoke (fun r hr => ?_) fun r => ?_
          · rw [if_neg hr.2, if_pos hr.1]
            rfl
          · generalize (if r = SE_FUNCTION_HALT then SE_PIPELINE_HALT else r) = answer
            split
            · trivial
            · split
              · exact ih
              · exact ih
              · exact (silent_child_terminate j).bind fun _ => ih
              · exact (silent_child_terminate j).bind fun _ => ih
              · exact (silent_restart_recursive j).bind fun _ => ih
              · trivial
      · exact ih

theorem silent_active_main_count : Silent (active_main_count args js) := by
  induction js with
  | nil => trivial
  | cons j js ih =>
    simp only [active_main_count]
    split
    · exact (silent_child_is_active j).andThen fun _ => ih.andThen fun _ => trivial
    · exact ih

theorem fork_passes : Passes args Outgoing id (se_fork args SE_EVENT_TICK) := by
  simp only [se_fork]
  refine silent_get_state.bind fun state => ?_
  split
  · trivial
  · refine (fork_loop_passes _).bind (fun r _ => rfl) fun out => ?_
    cases out with
    | some r => trivial
    | none =>
      refine (silent_active_main_count _).bind fun n => ?_
      split
      · exact (silent_set_state _).bind fun _ => trivial
      · trivial

theorem fork_join_passes : Passes args Outgoing id (se_fork_join args SE_EVENT_TICK) := by
  simp only [se_fork_join]
  refine (fork_loop_passes _).bind (fun r _ => rfl) fun out => ?_
  cases out with
  | some r => trivial
  | none =>
    refine (silent_active_main_count _).bind fun n => ?_
    split
    · trivial
    · trivial

theorem chain_flow_loop_passes : Passes args Outgoing id (chain_flow_loop args js n) := by
  induction js generalizing n with
  | nil => trivial
  | cons j js ih =>
    simp only [chain_flow_loop]
    split
    · exact ih n
    · refine (silent_child_is_active j).bind fun active => ?_
      split
      · exact ih n
      · split
        · rename_i hother
          refine passes_other (isMain_of_other hother) fun _ => ?_
          exact (silent_child_terminate j).bind fun _ => ih n
        · refine passes_invoke (fun r hr => ?_) fun r => ?_
          · rw [if_neg hr.2, if_pos hr.1]
            rfl
          · split
            · trivial
            · split
              · trivial
              · split
                · exact ih _
                · trivial
                · exact (silent_child_terminate j).bind fun _ => ih _
                · exact silent_children_terminate_all.bind fun _ => trivial
                · refine silent_children_terminate_all.bind fun _ => ?_
                  exact silent_children_reset_all.bind fun _ => trivial
                · trivial

theorem while_passes : Passes args OutgoingInvoked id (se_while SE_EVENT_TICK) := by
  have hbody : Passes args OutgoingInvoked id while_run_body := by
    refine passes_child_invoke (fun _ hr => hr.2) (fun r hr => if_pos hr.1.1) fun r => ?_
    split
    · trivial
    · split
      · trivial
      · trivial
      · trivial
      · exact (silent_restart_recursive 1).bind fun _ => (silent_set_state _).bind fun _ => trivial
      · exact (silent_restart_recursive 1).bind fun _ => (silent_set_state _).bind fun _ => trivial
      · exact (silent_restart_recursive 1).bind fun _ => (silent_set_state _).bind fun _ => trivial
  simp only [se_while]
  refine silent_get_state.bind fun state => ?_
  split
  · refine (silent_invoke_pred 0).bind fun cond => ?_
    split
    · trivial
    · refine (silent_child_reset_recursive 1).bind fun _ => ?_
      exact (silent_set_state _).bind fun _ => hbody
  · split
    · exact hbody
    · trivial

theorem event_dispatch_passes (event_id : Nat) :
    Passes args Outgoing id (se_event_dispatch args event_id SE_EVENT_TICK) := by
  simp only [se_event_dispatch]
  split
  · refine passes_invoke (fun r hr => if_pos hr.1) fun r => ?_
    split
    · trivial
    · split
      all_goals trivial
  · trivial

theorem silent_enter_branch (prev action : Nat) : Silent (enter_branch prev action) := by
  unfold enter_branch
  split
  · split
    · refine (silent_restart_recursive prev).andThen fun _ => ?_
      exact (silent_child_reset_recursive action).andThen fun _ => silent_set_user_flags action
    · exact (silent_child_reset_recursive action).andThen fun _ => silent_set_user_flags action
  · trivial

theorem state_machine_passes : Passes args Outgoing id (se_state_machine args SE_EVENT_TICK) := by
  simp only [se_state_machine]
  refine silent_get_user_flags.bind fun prev => ?_
  split
  · trivial
  · refine (silent_field_value _).bind fun val => ?_
    split
    · trivial
    · refine (silent_enter_branch _ _).bind fun _ => ?_
      refine passes_invoke (fun r hr => ?_) fun r => ?_
      · rw [state_machine_result, if_neg hr.2, if_pos hr.1]
        rfl
      · unfold state_machine_result
        split
        · trivial
        · split
          · trivial
          · split
            all_goals trivial

theorem field_dispatch_passes : Passes args Outgoing id (se_field_dispatch args SE_EVENT_TICK) := by
  simp only [se_field_dispatch]
  refine silent_get_user_flags.bind fun prev => ?_
  split
  · trivial
  · refine (silent_field_value _).bind fun val => ?_
    split
    · trivial
    · refine (silent_enter_branch _ _).bind fun _ => ?_
      refine passes_invoke (fun r hr => ?_) fun r => ?_
      · refine if_neg ?_
        rintro (h | h | h)
        all_goals
          rw [h] at hr
          exact hr.1 rfl
      · unfold field_dispatch_result
        split
        · exact (silent_restart_recursive _).bind fun _ =>
            (silent_set_user_flags _).bind fun _ => trivial
        · trivial

/-! Three of them keep a code to themselves. -/

theorem sequence_once_returns :
    Returns (· = SE_PIPELINE_DISABLE) (se_sequence_once args SE_EVENT_TICK) :=
  Returns.last _ fun _ => Returns.last _ fun _ => rfl

theorem child_invoke_returns : Returns (· ≠ SE_DISABLE) (s_expr_child_invoke j) := by
  refine Returns.last _ fun r => ?_
  split
  · exact Returns.last _ fun _ => (by decide : SE_CONTINUE ≠ SE_DISABLE)
  · rename_i hr
    exact hr

theorem cond_returns : Returns (· ≠ SE_DISABLE) (se_cond args SE_EVENT_TICK) := by
  have hresult : ∀ j r, r ≠ SE_DISABLE → Returns (· ≠ SE_DISABLE) (cond_result j r) := by
    intro j r hr
    unfold cond_result
    split
    · exact hr
    · split
      · exact (by decide : SE_PIPELINE_CONTINUE ≠ SE_DISABLE)
      · exact (by decide : SE_PIPELINE_CONTINUE ≠ SE_DISABLE)
      · exact Returns.last _ fun _ => (by decide : SE_PIPELINE_CONTINUE ≠ SE_DISABLE)
      · exact hr
      · exact hr
      · exact hr
  have hinvoke : ∀ j, Returns (· ≠ SE_DISABLE) (s_expr_child_invoke j >>= cond_result j) :=
    fun j => (child_invoke_returns j).bind (hresult j)
  simp only [se_cond]
  refine Returns.last _ fun active_child => Returns.last _ fun found => ?_
  cases found with
  | none => exact (by decide : SE_PIPELINE_CONTINUE ≠ SE_DISABLE)
  | some j =>
    dsimp only
    split
    · split
      · exact Returns.last _ fun _ => Returns.last _ fun _ => Returns.last _ fun _ => hinvoke j
      · exact Returns.last _ fun _ => Returns.last _ fun _ => hinvoke j
    · exact hinvoke j

theorem while_returns : Returns (· ≠ SE_DISABLE) (se_while SE_EVENT_TICK) := by
  have hbody : Returns (· ≠ SE_DISABLE) while_run_body := by
    refine (child_invoke_returns 1).bind fun r hr => ?_
    split
    · exact hr
    · split
      · exact (by decide : SE_FUNCTION_HALT ≠ SE_DISABLE)
      · exact (by decide : SE_FUNCTION_HALT ≠ SE_DISABLE)
      · exact (by decide : SE_FUNCTION_HALT ≠ SE_DISABLE)
      all_goals exact Returns.last _ fun _ => Returns.last _ fun _ =>
        (by decide : SE_PIPELINE_HALT ≠ SE_DISABLE)
  simp only [se_while]
  refine Returns.last _ fun state => ?_
  split
  · refine Returns.last _ fun cond => ?_
    split
    · exact (by decide : SE_PIPELINE_DISABLE ≠ SE_DISABLE)
    · exact Returns.last _ fun _ => Returns.last _ fun _ => hbody
  · split
    · exact hbody
    · exact (by decide : SE_PIPELINE_DISABLE ≠ SE_DISABLE)

end

/-! ## The invocations of a program -/

/-- An invocation of a child: the state before it, the answer and the state after it. -/
structure Call (E : Type) where
  child : Nat
  before : Eng E
  answer : Result
  after : Eng E

/-- The invocations that a program makes. -/
def calls (w : World E) (kids : List (Kid E)) (idx : Nat)
    (own : NodeData → E → Result × NodeData × E) : Prog α → Eng E → List (Call E)
  | .ret _, _ | .spin, _ => []
  | .leaf k, s =>
    let (r, d, env) := own (s.nodes idx).data s.env
    calls w kids idx own (k r) { s.setData idx d with env := env }
  | .getData k, s => calls w kids idx own (k (s.nodes idx).data) s
  | .setData d k, s => calls w kids idx own k (s.setData idx d)
  | .readField f k, s => calls w kids idx own (k (w.field f s.env)) s
  | .childActive j k, s => calls w kids idx own (k ((kidAt kids j).active s)) s
  | .childInitialized j k, s => calls w kids idx own (k ((kidAt kids j).initialized s)) s
  | .invokeAny j k, s =>
    match (kidAt kids j).invoke s with
    | none => []
    | some (r, s') => ⟨j, s, r, s'⟩ :: calls w kids idx own (k r) s'
  | .invokePred j k, s =>
    match (kidAt kids j).invokePred s with
    | none => []
    | some (b, s') => calls w kids idx own (k b) s'
  | .childTerminate j k, s =>
    match (kidAt kids j).terminate s with
    | none => []
    | some s' => calls w kids idx own k s'
  | .childReset j k, s => calls w kids idx own k ((kidAt kids j).reset s)
  | .childResetRecursive j k, s => calls w kids idx own k ((kidAt kids j).resetRecursive s)

section

variable {w : World E} {kids : List (Kid E)} {idx : Nat}
variable {own : NodeData → E → Result × NodeData × E}
variable {p : Prog α} {s : Eng E}

theorem calls_answer {c : Call E} (hc : c ∈ calls w kids idx own p s) :
    (kidAt kids c.child).invoke c.before = some (c.answer, c.after) := by
  induction p generalizing s with
  | ret a => cases hc
  | spin => cases hc
  | leaf k ih => exact ih _ hc
  | getData k ih => exact ih _ hc
  | setData d k ih => exact ih hc
  | readField f k ih => exact ih _ hc
  | childActive j k ih => exact ih _ hc
  | childInitialized j k ih => exact ih _ hc
  | invokeAny j k ih =>
    simp only [calls] at hc
    cases hk : (kidAt kids j).invoke s with
    | none => simp [hk] at hc
    | some out =>
      obtain ⟨r, s'⟩ := out
      simp only [hk, List.mem_cons] at hc
      rcases hc with rfl | hc
      · exact hk
      · exact ih _ hc
  | invokePred j k ih =>
    simp only [calls] at hc
    cases hk : (kidAt kids j).invokePred s with
    | none => simp [hk] at hc
    | some out =>
      simp only [hk] at hc
      exact ih _ hc
  | childTerminate j k ih =>
    simp only [calls] at hc
    cases hk : (kidAt kids j).terminate s with
    | none => simp [hk] at hc
    | some s' =>
      simp only [hk] at hc
      exact ih hc
  | childReset j k ih => exact ih hc
  | childResetRecursive j k ih => exact ih hc

/-- A program that passes a code on ends with it, as the child left the state. -/
theorem passes_ends {args : List ArgKind} {P : Result → Prop} {g : Result → α} {c : Call E}
    {s' : Eng E} {a : α} (hp : Passes args P g p) (hrun : runProg w kids idx own p s = some (a, s'))
    (hc : c ∈ calls w kids idx own p s) (hmain : isMain args c.child = true) (hP : P c.answer) :
    a = g c.answer ∧ s' = c.after := by
  induction p generalizing s with
  | ret a => cases hc
  | spin => cases hc
  | leaf k ih => exact ih _ (hp _) hrun hc
  | getData k ih => exact ih _ (hp _) hrun hc
  | setData d k ih => exact ih hp hrun hc
  | readField f k ih => exact ih _ (hp _) hrun hc
  | childActive j k ih => exact ih _ (hp _) hrun hc
  | childInitialized j k ih => exact ih _ (hp _) hrun hc
  | invokeAny j k ih =>
    simp only [runProg, Option.bind_eq_bind, Option.bind_eq_some_iff] at hrun
    obtain ⟨⟨r, s₁⟩, hk, hrun⟩ := hrun
    simp only [calls, hk, List.mem_cons] at hc
    rcases hc with rfl | hc
    · have hend := (hp r).1 hmain hP
      rw [hend] at hrun
      simp only [runProg, Option.some.injEq, Prod.mk.injEq] at hrun
      exact ⟨hrun.1.symm, hrun.2.symm⟩
    · exact ih r (hp r).2 hrun hc
  | invokePred j k ih =>
    simp only [runProg, Option.bind_eq_bind, Option.bind_eq_some_iff] at hrun
    obtain ⟨⟨b, s₁⟩, hk, hrun⟩ := hrun
    simp only [calls, hk] at hc
    exact ih b (hp b) hrun hc
  | childTerminate j k ih =>
    simp only [runProg, Option.bind_eq_bind, Option.bind_eq_some_iff] at hrun
    obtain ⟨s₁, hk, hrun⟩ := hrun
    simp only [calls, hk] at hc
    exact ih hp hrun hc
  | childReset j k ih => exact ih hp hrun hc
  | childResetRecursive j k ih => exact ih hp hrun hc

theorem returns_run {Q : α → Prop} {s' : Eng E} {a : α} (hp : Returns Q p)
    (hrun : runProg w kids idx own p s = some (a, s')) : Q a := by
  induction p generalizing s with
  | ret b =>
    simp only [runProg, Option.some.injEq, Prod.mk.injEq] at hrun
    exact hrun.1 ▸ hp
  | spin => cases hrun
  | leaf k ih => exact ih _ (hp _) hrun
  | getData k ih => exact ih _ (hp _) hrun
  | setData d k ih => exact ih hp hrun
  | readField f k ih => exact ih _ (hp _) hrun
  | childActive j k ih => exact ih _ (hp _) hrun
  | childInitialized j k ih => exact ih _ (hp _) hrun
  | invokeAny j k ih =>
    simp only [runProg, Option.bind_eq_bind, Option.bind_eq_some_iff] at hrun
    obtain ⟨⟨r, s₁⟩, -, hrun⟩ := hrun
    exact ih r (hp r) hrun
  | invokePred j k ih =>
    simp only [runProg, Option.bind_eq_bind, Option.bind_eq_some_iff] at hrun
    obtain ⟨⟨b, s₁⟩, -, hrun⟩ := hrun
    exact ih b (hp b) hrun
  | childTerminate j k ih =>
    simp only [runProg, Option.bind_eq_bind, Option.bind_eq_some_iff] at hrun
    obtain ⟨s₁, -, hrun⟩ := hrun
    exact ih hp hrun
  | childReset j k ih => exact ih hp hrun
  | childResetRecursive j k ih => exact ih hp hrun

end

/-! ## Enclosing composites -/

/-- The composites that pass a code on. -/
def MainFn.PassesOn (fn : MainFn) (r : Result) : Prop :=
  match fn with
  | .se_sequence_once => False
  | .se_cond | .se_while => r ≠ SE_DISABLE
  | _ => True

/-- A composite around an executed node, and what it answered. -/
structure Enclosing where
  fn : MainFn
  idx : Nat
  answer : Result

/-- In the invocation of a tree a node was executed, answered with a code and left a state.
The composites around it are listed from the inside out. -/
inductive Executed (w : World E) : Node → Eng E → List Enclosing → Result → Eng E → Prop
  | itself {fn : MainFn} {idx : Nat} {args : List Node} {s s' : Eng E} {r : Result}
      (hactive : (s.nodes idx).active = true)
      (hrun : dispatch_main w fn idx (Node.kids w args) s = some (r, s')) :
      Executed w (.main fn idx args) s [] r s'
  | inside {fn : MainFn} {idx : Nat} {args : List Node} {s s₁ s' : Eng E} {c : Call E} {t : Node}
      {path : List Enclosing} {r R : Result} {s'' : Eng E}
      (hactive : (s.nodes idx).active = true)
      (hrun : dispatch_main w fn idx (Node.kids w args) s = some (R, s''))
      (hfirst : first_call w fn idx (Node.kids w args) s = some s₁)
      (hc : c ∈ calls w (Node.kids w args) idx (ownFn w fn s₁.event_id SE_EVENT_TICK)
        (mainProg w.fuel fn ((Node.kids w args).map Kid.kind) s₁.event_id SE_EVENT_TICK) s₁)
      (ht : args[c.child]? = some t) (hbelow : Executed w t c.before path r s') :
      Executed w (.main fn idx args) s (path ++ [⟨fn, idx, R⟩]) r s'

/-- The enclosing composites up to the nearest function boundary. -/
def upToBoundary : List Enclosing → List Enclosing
  | [] => []
  | c :: cs => if c.fn = .se_function_interface then [c] else c :: upToBoundary cs

variable {args : List ArgKind}

theorem Passes.mono {P P' : Result → Prop} {g : Result → α} (h : ∀ r, P' r → P r)
    (hp : Passes args P g p) : Passes args P' g p := by
  induction p with
  | ret a => trivial
  | spin => trivial
  | leaf k ih => exact fun r => ih r (hp r)
  | getData k ih => exact fun d => ih d (hp d)
  | setData d k ih => exact ih hp
  | readField f k ih => exact fun v => ih v (hp v)
  | childActive j k ih => exact fun b => ih b (hp b)
  | childInitialized j k ih => exact fun b => ih b (hp b)
  | invokeAny j k ih => exact fun r => ⟨fun hm hr => (hp r).1 hm (h r hr), ih r (hp r).2⟩
  | invokePred j k ih => exact fun b => ih b (hp b)
  | childTerminate j k ih => exact ih hp
  | childReset j k ih => exact ih hp
  | childResetRecursive j k ih => exact ih hp

variable {event_id : Nat} {fn : MainFn} {r : Result}

/-- The function of every composite but three passes on what goes out. -/
theorem main_passes {fuel : Nat} (hr : Outgoing r) (hfn : fn.PassesOn r) :
    Passes args (· = r) id (mainProg fuel fn args event_id SE_EVENT_TICK) := by
  have hout : ∀ r', r' = r → Outgoing r' := fun r' h => h ▸ hr
  cases fn with
  | leaf id => exact fun _ => trivial
  | se_if_then_else => exact if_then_else_passes.mono hout
  | se_cond => exact cond_passes.mono fun r' h => ⟨hout r' h, h ▸ hfn⟩
  | se_trigger_on_change => exact trigger_passes.mono hout
  | se_sequence => exact (sequence_passes fuel).mono hout
  | se_sequence_once => exact absurd hfn id
  | se_function_interface => exact function_interface_passes.mono hout
  | se_fork => exact fork_passes.mono hout
  | se_fork_join => exact fork_join_passes.mono hout
  | se_chain_flow => exact (chain_flow_loop_passes _ _).mono hout
  | se_while => exact while_passes.mono fun r' h => ⟨hout r' h, h ▸ hfn⟩
  | se_event_dispatch => exact (event_dispatch_passes event_id).mono hout
  | se_state_machine => exact state_machine_passes.mono hout
  | se_field_dispatch => exact field_dispatch_passes.mono hout

theorem main_keeps {fuel : Nat} (hr : Outgoing r) (hfn : ¬ fn.PassesOn r) :
    Returns (· ≠ r) (mainProg fuel fn args event_id SE_EVENT_TICK) := by
  cases fn with
  | se_sequence_once =>
    refine Returns.mono (fun a ha heq => ?_) sequence_once_returns
    rw [← heq, ha] at hr
    exact hr.1 rfl
  | se_cond =>
    have hdisable : r = SE_DISABLE := not_not.mp hfn
    exact hdisable ▸ cond_returns
  | se_while =>
    have hdisable : r = SE_DISABLE := not_not.mp hfn
    exact hdisable ▸ while_returns
  | _ => exact absurd trivial hfn

section

variable {w : World E} {fn : MainFn} {idx : Nat} {args : List Node}

theorem kid_of_arg {j : Nat} {t : Node} (ht : args[j]? = some t) :
    kidAt (Node.kids w args) j = t.kid w := by
  have hkids : ∀ (ts : List Node) (i : Nat), (Node.kids w ts)[i]? = ts[i]?.map (Node.kid w) := by
    intro ts
    induction ts with
    | nil => exact fun i => rfl
    | cons u us ih =>
      intro i
      cases i with
      | zero => rfl
      | succ i => exact ih i
  rw [kidAt, hkids, ht]
  rfl

theorem isMain_of_arg {j : Nat} {fn' : MainFn} {idx' : Nat} {args' : List Node}
    (ht : args[j]? = some (.main fn' idx' args')) :
    isMain ((Node.kids w args).map Kid.kind) j = true := by
  have hkind : ∀ (ts : List Node) (i : Nat),
      ((Node.kids w ts).map Kid.kind)[i]? = ts[i]?.map fun t => (t.kid w).kind := by
    intro ts
    induction ts with
    | nil => exact fun i => rfl
    | cons u us ih =>
      intro i
      cases i with
      | zero => rfl
      | succ i => exact ih i
  rw [isMain, hkind, ht]
  rfl

/-- A composite around an answer that goes out ends at once with it, or with another one. -/
theorem enclosing_answers {s s₁ s'' : Eng E} {R : Result} {c : Call E} {fn' : MainFn}
    {idx' : Nat} {args' : List Node} (hactive : (s.nodes idx).active = true)
    (hrun : dispatch_main w fn idx (Node.kids w args) s = some (R, s''))
    (hfirst : first_call w fn idx (Node.kids w args) s = some s₁)
    (hc : c ∈ calls w (Node.kids w args) idx (ownFn w fn s₁.event_id SE_EVENT_TICK)
      (mainProg w.fuel fn ((Node.kids w args).map Kid.kind) s₁.event_id SE_EVENT_TICK) s₁)
    (ht : args[c.child]? = some (.main fn' idx' args')) (hout : Outgoing c.answer) :
    (fn.PassesOn c.answer → R = c.answer ∧ s'' = c.after.record (.tick idx c.answer)) ∧
      (¬ fn.PassesOn c.answer → R ≠ c.answer) := by
  rcases dispatch_main_cases hrun with ⟨hno, -⟩ | ⟨-, s₁', s₂, h₁, h₂, h₃⟩
  · rw [hactive] at hno
    cases hno
  · rw [hfirst] at h₁
    cases h₁
    constructor
    · intro hpass
      obtain ⟨hR, hs₂⟩ := passes_ends (main_passes hout hpass) h₂ hc (isMain_of_arg ht) rfl
      have hR' : R = c.answer := hR
      refine ⟨hR', ?_⟩
      have hgoes : R ≠ SE_PIPELINE_DISABLE := by
        intro h
        rw [← hR', h] at hout
        exact hout.1 rfl
      rw [last_call, if_neg hgoes, hs₂, hR'] at h₃
      exact (Option.some.inj h₃).symm
    · intro hpass
      exact returns_run (Q := (· ≠ c.answer)) (main_keeps hout hpass) h₂

end

/-- The state in which the enclosing composites have answered, and nothing else. -/
def answered (s : Eng E) (path : List Enclosing) : Eng E :=
  path.foldl (fun s e => s.record (.tick e.idx e.answer)) s

variable {w : World E} {t : Node} {s sn : Eng E} {path : List Enclosing}

theorem executed_answer (h : Executed w t s path r sn) : ∃ fn idx args, t = .main fn idx args ∧
    ∃ R s', (t.kid w).invoke s = some (R, s') := by
  cases h with
  | itself hactive hrun => exact ⟨_, _, _, rfl, _, _, hrun⟩
  | inside hactive hrun hfirst hc ht hbelow => exact ⟨_, _, _, rfl, _, _, hrun⟩

/-- As far out as every composite passes the code on, it is all that they answer, and at
once. -/
theorem passed_on (hout : Outgoing r) (h : Executed w t s path r sn) :
    (∀ e ∈ path, e.fn.PassesOn r) →
    ∀ {R s'}, (t.kid w).invoke s = some (R, s') →
      R = r ∧ (∀ e ∈ path, e.answer = r) ∧ s' = answered sn path := by
  induction h with
  | itself hactive hrun =>
    intro _ R s' hinvoke
    have hsame := hrun.symm.trans hinvoke
    simp only [Option.some.injEq, Prod.mk.injEq] at hsame
    exact ⟨hsame.1.symm, List.forall_mem_nil _, hsame.2.symm⟩
  | @inside fn idx args s s₁ sn c t path r R s'' hactive hrun hfirst hc ht hbelow ih =>
    intro hpath R' s' hinvoke
    have hsame := hrun.symm.trans hinvoke
    simp only [Option.some.injEq, Prod.mk.injEq] at hsame
    obtain ⟨rfl, rfl⟩ := hsame
    obtain ⟨fn', idx', args', rfl, -⟩ := executed_answer hbelow
    have hchild := calls_answer hc
    rw [kid_of_arg ht] at hchild
    obtain ⟨hanswer, hanswers, hafter⟩ :=
      ih hout (fun e he => hpath e (List.mem_append_left _ he)) hchild
    have hpass : fn.PassesOn c.answer := by
      rw [hanswer]
      exact hpath ⟨fn, idx, R⟩ (by simp)
    obtain ⟨hR, hs''⟩ := (enclosing_answers hactive hrun hfirst hc ht (hanswer ▸ hout)).1 hpass
    rw [hanswer] at hR
    refine ⟨hR, ?_, ?_⟩
    · intro e he
      rcases List.mem_append.mp he with he | he
      · exact hanswers e he
      · rw [List.mem_singleton.mp he]
        exact hR
    · rw [hs'', hafter, hanswer, answered, answered, List.foldl_append, ← hR]
      rfl

theorem head_or_whole {q : List Enclosing} {e : Enclosing} (h : q <+: path ++ [e]) :
    q <+: path ∨ q = path ++ [e] := by
  rcases List.prefix_concat_iff.mp h with rfl | h
  · exact Or.inr rfl
  · exact Or.inl h

/-- From the inside out, the composites answer with the code as far as they pass it on. -/
theorem answers_iff_passes (hout : Outgoing r) (h : Executed w t s path r sn) :
    ∀ q, q <+: path → ((∀ e ∈ q, e.answer = r) ↔ ∀ e ∈ q, e.fn.PassesOn r) := by
  induction h with
  | itself hactive hrun =>
    intro q hq
    rw [List.prefix_nil.mp hq]
    exact iff_of_true (List.forall_mem_nil _) (List.forall_mem_nil _)
  | @inside fn idx args s s₁ sn c t path r R s'' hactive hrun hfirst hc ht hbelow ih =>
    intro q hq
    rcases head_or_whole hq with hq | rfl
    · exact ih hout q hq
    · have hinner := ih hout path List.prefix_rfl
      obtain ⟨fn', idx', args', rfl, -⟩ := executed_answer hbelow
      have hchild := calls_answer hc
      rw [kid_of_arg ht] at hchild
      have hlast : (∀ e ∈ path, e.fn.PassesOn r) → (R = r ↔ fn.PassesOn r) := by
        intro hpath
        obtain ⟨hanswer, -, -⟩ := passed_on hout hbelow hpath hchild
        have hends := enclosing_answers hactive hrun hfirst hc ht (hanswer ▸ hout)
        rw [hanswer] at hends
        exact ⟨fun hR => by_contra fun hno => hends.2 hno hR, fun hpass => (hends.1 hpass).1⟩
      simp only [List.mem_append, List.mem_singleton, or_imp, forall_and, forall_eq]
      constructor
      · rintro ⟨hanswers, hR⟩
        have hpath := hinner.mp hanswers
        exact ⟨hpath, (hlast hpath).mp hR⟩
      · rintro ⟨hpath, hpass⟩
        exact ⟨hinner.mpr hpath, (hlast hpath).mpr hpass⟩

theorem upToBoundary_isHead (path : List Enclosing) : upToBoundary path <+: path := by
  induction path with
  | nil => exact List.prefix_rfl
  | cons c cs ih =>
    rw [upToBoundary]
    split
    · exact List.prefix_append [c] cs
    · exact (List.prefix_cons_inj c).mpr ih

theorem answered_env (s : Eng E) (path : List Enclosing) : (answered s path).env = s.env := by
  induction path generalizing s with
  | nil => rfl
  | cons c cs ih => exact ih _

theorem answered_log (s : Eng E) (path : List Enclosing) :
    (answered s path).log = s.log ++ path.map fun e => .tick e.idx e.answer := by
  induction path generalizing s with
  | nil => simp [answered]
  | cons c cs ih =>
    have h := ih (s.record (.tick c.idx c.answer))
    simp only [answered, List.foldl_cons, List.map_cons] at h ⊢
    rw [h, Eng.record, List.append_assoc]
    rfl

theorem Executed.active (h : Executed w t s path r sn) : (s.nodes (t.kid w).idx).active = true := by
  cases h with
  | itself hactive hrun => exact hactive
  | inside hactive hrun hfirst hc ht hbelow => exact hactive

/-- A code of the application layer is what the tick and every enclosing composite answer,
and nothing else is executed behind it, if and only if every enclosing composite passes it
on. A code of the function layer, HALT apart, is what the composites answer up to the
nearest function boundary if and only if these pass it on. -/
theorem codes_propagate_iff {w : World E} {root : Node} {event_id : Nat} {s s' sn : Eng E}
    {path : List Enclosing} {r R : Result}
    (hrun : s_expr_node_tick w root event_id s = some (R, s'))
    (h : Executed w root { s with event_id := event_id } path r sn) :
    (r.layer = .application →
      ((R = r ∧ (∀ e ∈ path, e.answer = r) ∧ s'.env = sn.env ∧
          s'.log = sn.log ++ path.map fun e => .tick e.idx e.answer) ↔
        ∀ e ∈ path, e.fn.PassesOn r)) ∧
    (r.layer = .function → r ≠ SE_FUNCTION_HALT →
      ((∀ e ∈ upToBoundary path, e.answer = r) ↔ ∀ e ∈ upToBoundary path, e.fn.PassesOn r)) := by
  have hactive : (s.nodes (root.kid w).idx).active = true := h.active
  simp only [s_expr_node_tick, hactive, if_true] at hrun
  constructor
  · intro hlayer
    have hout : Outgoing r := by
      refine ⟨by simp [hlayer], ?_⟩
      rintro rfl
      cases hlayer
    constructor
    · rintro ⟨-, hanswers, -⟩
      exact (answers_iff_passes hout h path List.prefix_rfl).mp hanswers
    · intro hpath
      obtain ⟨hR, hanswers, rfl⟩ := passed_on hout h hpath hrun
      exact ⟨hR, hanswers, answered_env sn path, answered_log sn path⟩
  · intro hlayer hhalt
    have hout : Outgoing r := ⟨by simp [hlayer], hhalt⟩
    exact answers_iff_passes hout h _ (upToBoundary_isHead path)

/-! ## A leaf in a composite -/

/-- Every leaf answers with the same code. -/
def answering (r : Result) : World Unit where
  fuel := 1
  main _ _ _ d env := (r, d, env)
  oneshot _ _ env := env
  test _ _ env := (true, env)
  counter _ _ st env := (true, st, env)
  field _ _ := 0

def around (fn : MainFn) : Node := .main fn 0 [.main (.leaf 0) 1 []]

/-- The leaf of a composite has answered with a code, and the composite with another one. -/
def LeafIn (w : World Unit) (fn : MainFn) (event_id : Nat) (r R : Result) (s' sn : Eng Unit) :
    Prop :=
  s_expr_node_tick w (around fn) event_id (createdState ()) = some (R, s') ∧
    Executed w (around fn) { createdState () with event_id := event_id } [⟨fn, 0, R⟩] r sn

theorem leaf_executed {w : World Unit} {R : Result} {s₁ s' : Eng Unit} {c : Call Unit}
    {rest : List (Call Unit)} (hfirst : first_call w fn 0 (Node.kids w [.main (.leaf 0) 1 []])
      { createdState () with event_id := event_id } = some s₁)
    (hcalls : calls w (Node.kids w [.main (.leaf 0) 1 []]) 0 (ownFn w fn s₁.event_id SE_EVENT_TICK)
      (mainProg w.fuel fn [.call .main] s₁.event_id SE_EVENT_TICK) s₁ = c :: rest)
    (hchild : c.child = 0) (hanswer : c.answer = r) (hactive : (c.before.nodes 1).active = true)
    (htick : s_expr_node_tick w (around fn) event_id (createdState ()) = some (R, s')) :
    LeafIn w fn event_id r R s' c.after := by
  have hc : c ∈ c :: rest := List.mem_cons_self
  rw [← hcalls] at hc
  have hleaf := calls_answer hc
  rw [hchild, hanswer] at hleaf
  have ht : [Node.main (.leaf 0) 1 []][c.child]? = some (.main (.leaf 0) 1 []) := by
    rw [hchild]
    rfl
  have hrun : dispatch_main w fn 0 (Node.kids w [.main (.leaf 0) 1 []])
      { createdState () with event_id := event_id } = some (R, s') := htick
  exact ⟨htick, Executed.inside rfl hrun hfirst hc ht (Executed.itself hactive hleaf)⟩

/-- A chain flow ends the tick with the code of its step. -/
theorem chain_flow_hands_on : ∃ s' sn : Eng Unit,
    s_expr_node_tick (answering SE_TERMINATE) (around .se_chain_flow) 4 (createdState ()) =
      some (SE_TERMINATE, s') ∧ s'.log = sn.log ++ [.tick 0 SE_TERMINATE] := by
  have hin : LeafIn (answering SE_TERMINATE) .se_chain_flow 4 SE_TERMINATE SE_TERMINATE _ _ :=
    leaf_executed rfl rfl rfl rfl rfl rfl
  have hends := ((codes_propagate_iff hin.1 hin.2).1 rfl).mpr (by simp [MainFn.PassesOn])
  exact ⟨_, _, hin.1, hends.2.2.2⟩

/-- A sequence keeps the code of the application layer that its step answers. -/
theorem sequence_once_keeps_code : ¬ ∀ (w : World Unit) (root : Node) (event_id : Nat)
    (s' sn : Eng Unit) (path : List Enclosing) (r R : Result),
    s_expr_node_tick w root event_id (createdState ()) = some (R, s') →
    Executed w root { createdState () with event_id := event_id } path r sn →
    r.layer = .application → R = r := by
  intro hall
  have hin : LeafIn (answering SE_TERMINATE) .se_sequence_once 4 SE_TERMINATE
      SE_PIPELINE_DISABLE _ _ :=
    leaf_executed rfl rfl rfl rfl rfl rfl
  exact absurd (hall _ _ _ _ _ _ _ _ hin.1 hin.2 rfl) (by decide)

end motioncore.engine
