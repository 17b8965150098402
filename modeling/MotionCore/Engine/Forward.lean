-- Programs of composites step by step. A program of two parts runs one after the other,
-- and a program that invokes nothing ends.
import MotionCore.Engine.Branches

namespace motioncore.engine

open EventType

variable {E : Type} {α β : Type}

section

variable (w : World E) (kids : List (Kid E)) (idx : Nat)
variable (own : NodeData → E → Result × NodeData × E)

theorem runProg_bind (p : Prog α) (f : α → Prog β) (s : Eng E) :
    runProg w kids idx own (p >>= f) s =
      (runProg w kids idx own p s).bind fun (a, s') => runProg w kids idx own (f a) s' := by
  change runProg w kids idx own (p.andThen f) s = _
  induction p generalizing s with
  | ret a => rfl
  | spin => rfl
  | leaf k ih => exact ih _ _
  | getData k ih => exact ih _ _
  | setData d k ih => exact ih _
  | readField f k ih => exact ih _ _
  | childActive j k ih => exact ih _ _
  | childInitialized j k ih => exact ih _ _
  | invokeAny j k ih =>
    simp only [Prog.andThen, runProg, Option.bind_eq_bind, Option.bind_assoc]
    exact Option.bind_congr fun a _ => ih _ _
  | invokePred j k ih =>
    simp only [Prog.andThen, runProg, Option.bind_eq_bind, Option.bind_assoc]
    exact Option.bind_congr fun a _ => ih _ _
  | childTerminate j k ih =>
    simp only [Prog.andThen, runProg, Option.bind_eq_bind, Option.bind_assoc]
    exact Option.bind_congr fun a _ => ih _
  | childReset j k ih => exact ih _
  | childResetRecursive j k ih => exact ih _

@[simp] theorem runProg_pure (a : α) (s : Eng E) :
    runProg w kids idx own (pure a) s = some (a, s) := rfl

variable (j : Nat) (s : Eng E)

@[simp] theorem run_get_state :
    runProg w kids idx own s_expr_get_state s = some ((s.nodes idx).data.state, s) := rfl

@[simp] theorem run_set_state (v : Nat) (s : Eng E) :
    runProg w kids idx own (s_expr_set_state v) s =
      some ((), s.setData idx { (s.nodes idx).data with state := v % 256 }) := rfl

@[simp] theorem run_get_user_flags :
    runProg w kids idx own s_expr_get_user_flags s = some ((s.nodes idx).data.user_data, s) := rfl

@[simp] theorem run_set_user_flags (v : Nat) (s : Eng E) :
    runProg w kids idx own (s_expr_set_user_flags v) s =
      some ((), s.setData idx { (s.nodes idx).data with user_data := v % 65536 }) := rfl

@[simp] theorem run_child_is_active :
    runProg w kids idx own (s_expr_child_is_active j) s = some ((kidAt kids j).active s, s) := rfl

@[simp] theorem run_child_is_initialized :
    runProg w kids idx own (s_expr_child_is_initialized j) s =
      some ((kidAt kids j).initialized s, s) := rfl

@[simp] theorem run_child_reset :
    runProg w kids idx own (s_expr_child_reset j) s = some ((), (kidAt kids j).reset s) := rfl

@[simp] theorem run_child_reset_recursive :
    runProg w kids idx own (s_expr_child_reset_recursive j) s =
      some ((), (kidAt kids j).resetRecursive s) := rfl

@[simp] theorem run_invoke_any :
    runProg w kids idx own (s_expr_invoke_any j) s = (kidAt kids j).invoke s := by
  simp only [s_expr_invoke_any, runProg, Option.bind_eq_bind]
  exact Option.bind_fun_some _

@[simp] theorem run_invoke_pred :
    runProg w kids idx own (s_expr_invoke_pred j) s = (kidAt kids j).invokePred s := by
  simp only [s_expr_invoke_pred, runProg, Option.bind_eq_bind]
  exact Option.bind_fun_some _

@[simp] theorem run_child_terminate : runProg w kids idx own (s_expr_child_terminate j) s =
      ((kidAt kids j).terminate s).map fun s' => ((), s') := by
  simp only [s_expr_child_terminate, runProg, Option.bind_eq_bind]
  cases (kidAt kids j).terminate s with
  | none => rfl
  | some s' => rfl

end

/-! ## Programs that end -/

/-- A program that neither invokes a child nor loops. -/
def Tame : Prog α → Prop
  | .ret _ => True
  | .spin => False
  | .leaf k => ∀ r, Tame (k r)
  | .getData k => ∀ d, Tame (k d)
  | .setData _ k => Tame k
  | .readField _ k => ∀ v, Tame (k v)
  | .childActive _ k | .childInitialized _ k => ∀ b, Tame (k b)
  | .invokeAny _ _ | .invokePred _ _ => False
  | .childTerminate _ k | .childReset _ k | .childResetRecursive _ k => Tame k

theorem Tame.bind {p : Prog α} {f : α → Prog β} (hp : Tame p) (hf : ∀ a, Tame (f a)) :
    Tame (p >>= f) := by
  change Tame (p.andThen f)
  induction p with
  | ret a => exact hf a
  | spin => exact hp
  | leaf k ih => exact fun r => ih r (hp r)
  | getData k ih => exact fun d => ih d (hp d)
  | setData d k ih => exact ih hp
  | readField fd k ih => exact fun v => ih v (hp v)
  | childActive j k ih => exact fun b => ih b (hp b)
  | childInitialized j k ih => exact fun b => ih b (hp b)
  | invokeAny j k ih => exact hp
  | invokePred j k ih => exact hp
  | childTerminate j k ih => exact ih hp
  | childReset j k ih => exact ih hp
  | childResetRecursive j k ih => exact ih hp

theorem tame_forEach {f : Nat → Prog Unit} (hf : ∀ j, Tame (f j)) (js : List Nat) :
    Tame (forEach js f) := by
  induction js with
  | nil => trivial
  | cons j js ih => exact (hf j).bind fun _ => ih

theorem tame_terminate_all (args : List ArgKind) : Tame (s_expr_children_terminate_all args) := by
  refine tame_forEach (fun j => ?_) _
  split
  · trivial
  · trivial

theorem tame_terminate_branch : Tame terminate_branch := by
  refine Tame.bind (fun _ => trivial) fun prev_action_idx => ?_
  dsimp only
  split
  · exact fun _ => trivial
  · exact fun _ => trivial

theorem tame_on_terminate (fuel : Nat) (fn : MainFn) (args : List ArgKind) (event_id : Nat) :
    Tame (mainProg fuel fn args event_id SE_EVENT_TERMINATE) := by
  have hall := tame_terminate_all args
  cases fn with
  | leaf id => exact fun _ => trivial
  | se_if_then_else =>
    simp only [mainProg, se_if_then_else]
    split
    · trivial
    · exact hall.bind fun _ => trivial
  | se_cond => exact hall.bind fun _ _ => trivial
  | se_trigger_on_change =>
    simp only [mainProg, se_trigger_on_change]
    split
    · trivial
    · exact hall.bind fun _ => trivial
  | se_sequence =>
    refine Tame.bind (fun _ => trivial) fun state => ?_
    dsimp only
    split
    · refine Tame.bind (fun _ => trivial) fun running => ?_
      cases running <;> exact fun _ => trivial
    · exact fun _ => trivial
  | se_sequence_once =>
    refine Tame.bind (tame_forEach (fun j => ?_) _) fun _ _ => trivial
    refine Tame.bind (fun _ => trivial) fun running => ?_
    cases running <;> trivial
  | se_function_interface => exact hall.bind fun _ _ => trivial
  | se_fork => exact hall.bind fun _ _ => trivial
  | se_fork_join => exact hall.bind fun _ => trivial
  | se_chain_flow => exact hall.bind fun _ => trivial
  | se_while =>
    intro b
    cases b <;> trivial
  | se_event_dispatch => trivial
  | se_state_machine | se_field_dispatch => exact tame_terminate_branch.bind fun _ => trivial

/-! ## The answers of a node -/

/-- What the ticks of a node have given, oldest first. -/
def answers (n : Nat) (log : List Callback) : List Result :=
  log.filterMap fun
    | .tick m r => if m = n then some r else none
    | _ => none

theorem answers_append (n : Nat) (log seg : List Callback) :
    answers n (log ++ seg) = answers n log ++ answers n seg :=
  List.filterMap_append

theorem answers_tick (n : Nat) (r : Result) : answers n [.tick n r] = [r] := by
  simp [answers]

variable {n : Nat}

theorem answers_other {seg : List Callback} (h : ∀ c ∈ seg, c.node ≠ n) : answers n seg = [] := by
  refine List.filterMap_eq_nil_iff.mpr fun c hc => ?_
  cases c with
  | tick m r => simp [show m ≠ n from h _ hc]
  | _ => rfl

/-- The history gets no tick of the node. -/
def Unticked (n : Nat) (s s' : Eng E) : Prop := answers n s'.log = answers n s.log

variable {s s' : Eng E}

theorem Unticked.trans {s'' : Eng E} (h : Unticked n s s') (h' : Unticked n s' s'') :
    Unticked n s s'' :=
  Eq.trans h' h

theorem unticked_follows (n : Nat) : Follows (Unticked (E := E) n) where
  refl _ := rfl
  trans _ _ _ := Unticked.trans
  env _ _ := rfl

theorem unticked_at {i : Nat} (h : i ≠ n) : RespectsAt (Unticked (E := E) n) i where
  setNode _ _ := rfl
  record s c hc := by
    have hnone : answers n [c] = [] := answers_other (by simp [hc, h])
    change answers n (s.log ++ [c]) = _
    rw [answers_append, hnone, List.append_nil]
  drop _ := rfl

theorem Apart.unticked {ns : List Nat} (h : Apart ns s s') (hn : n ∈ ns) : Unticked n s s' := by
  obtain ⟨seg, hlog, hseg⟩ := h.log
  have hnone : answers n seg = [] := answers_other fun c hc heq => hseg c hc (heq ▸ hn)
  rw [Unticked, hlog, answers_append, hnone, List.append_nil]

theorem Within.unticked {ns : List Nat} (h : Within ns s s') (hn : n ∉ ns) : Unticked n s s' := by
  obtain ⟨seg, hlog, hseg⟩ := h.log
  have hnone : answers n seg = [] := answers_other fun c hc heq => hn (heq ▸ hseg c hc)
  rw [Unticked, hlog, answers_append, hnone, List.append_nil]

section

variable {w : World E}

mutual

theorem reset_log : ∀ (t : Node) (s : Eng E), ((t.kid w).resetRecursive s).log = s.log
  | .int _, _ | .fieldRef _, _ | .literal, _ | .oneshot _ _ _, _ => rfl
  | .main _ idx args, s => by
    refine (reset_all_log args _).trans ?_
    change (s.resetMain idx).log = s.log
    unfold Eng.resetMain
    dsimp only
    split <;> rfl
  | .pred _ _ args, s => reset_all_log args _

theorem reset_all_log : ∀ (ts : List Node) (s : Eng E), (reset_all (Node.kids w ts) s).log = s.log
  | [], _ => rfl
  | t :: ts, s => (reset_all_log ts _).trans (reset_log t s)

end

variable {idx : Nat}

/-- A tame program ends, and ticks nobody. -/
theorem tame_run {kids : List (Kid E)}
    (hkids : ∀ k ∈ kids, (∀ s, ∃ s', k.terminate s = some s' ∧ ∀ n, Unticked n s s') ∧
      (∀ s, (k.resetRecursive s).log = s.log))
    {own : NodeData → E → Result × NodeData × E} {p : Prog α} (hp : Tame p) :
    ∀ s, ∃ a s', runProg w kids idx own p s = some (a, s') ∧ ∀ n, Unticked n s s' := by
  have hkid : ∀ j, (∀ s, ∃ s', (kidAt kids j).terminate s = some s' ∧ ∀ n, Unticked n s s') ∧
      ∀ s, ((kidAt kids j).resetRecursive s).log = s.log := by
    intro j
    unfold kidAt
    cases hj : kids[j]? with
    | none => exact ⟨fun s => ⟨s, rfl, fun _ => rfl⟩, fun _ => rfl⟩
    | some k => exact hkids k (List.mem_of_getElem? hj)
  induction p with
  | ret a => exact fun s => ⟨a, s, rfl, fun _ => rfl⟩
  | spin => exact hp.elim
  | leaf k ih => exact fun s => ih _ (hp _) _
  | getData k ih => exact fun s => ih _ (hp _) _
  | setData d k ih => exact fun s => ih hp _
  | readField f k ih => exact fun s => ih _ (hp _) _
  | childActive j k ih => exact fun s => ih _ (hp _) _
  | childInitialized j k ih => exact fun s => ih _ (hp _) _
  | invokeAny j k ih => exact hp.elim
  | invokePred j k ih => exact hp.elim
  | childTerminate j k ih =>
    intro s
    obtain ⟨s₁, hs₁, hun⟩ := (hkid j).1 s
    obtain ⟨a, s', hrun, hun'⟩ := ih hp s₁
    refine ⟨a, s', ?_, fun n => (hun n).trans (hun' n)⟩
    simp only [runProg, hs₁, Option.bind_eq_bind, Option.bind_some]
    exact hrun
  | childReset j k ih =>
    intro s
    obtain ⟨a, s', hrun, hun⟩ := ih hp ((kidAt kids j).reset s)
    refine ⟨a, s', hrun, fun n => Unticked.trans ?_ (hun n)⟩
    unfold Kid.reset Unticked
    split
    · unfold Eng.resetMain
      dsimp only
      split <;> rfl
    · rfl
    · rfl
  | childResetRecursive j k ih =>
    intro s
    obtain ⟨a, s', hrun, hun⟩ := ih hp ((kidAt kids j).resetRecursive s)
    refine ⟨a, s', hrun, fun n => Unticked.trans ?_ (hun n)⟩
    exact congrArg (answers n) ((hkid j).2 s)

theorem record_terminate_unticked (s : Eng E) (m n : Nat) : Unticked n s (s.record (.terminate m)) := by
  change answers n (s.log ++ [Callback.terminate m]) = _
  rw [answers_append]
  exact List.append_nil _

mutual

/-- A TERMINATE from the parent comes back, and nobody is ticked. -/
theorem kid_terminates : ∀ (t : Node) (s : Eng E),
    ∃ s', (t.kid w).terminate s = some s' ∧ ∀ n, Unticked n s s'
  | .int _, s | .fieldRef _, s | .literal, s | .oneshot _ _ _, s | .pred _ _ _, s =>
    ⟨s, rfl, fun _ => rfl⟩
  | .main fn idx args, s => by
    obtain ⟨r, s', hrun, hun⟩ : ∃ r s', callMain w fn idx (Node.kids w args) 0 SE_EVENT_TERMINATE
        (s.record (.terminate idx)) = some (r, s') ∧
          ∀ n, Unticked n (s.record (.terminate idx)) s' :=
      tame_run (kids_terminate args) (tame_on_terminate w.fuel fn _ 0) _
    by_cases hinit : (s.nodes idx).initialized = true
    · refine ⟨s'.clearNode idx, ?_, fun n => (record_terminate_unticked s idx n).trans (hun n)⟩
      simp [Kid.terminate, Node.kid, mainKid, terminate_main, hinit, hrun]
    · refine ⟨s, ?_, fun _ => rfl⟩
      simp [Kid.terminate, Node.kid, mainKid, hinit]

theorem kids_terminate : ∀ (ts : List Node), ∀ k ∈ Node.kids w ts,
    (∀ s, ∃ s', k.terminate s = some s' ∧ ∀ n, Unticked n s s') ∧
      ∀ s, (k.resetRecursive s).log = s.log
  | [], _, hk => by simp [Node.kids] at hk
  | t :: ts, k, hk => by
    simp only [Node.kids, List.mem_cons] at hk
    rcases hk with rfl | hk
    · exact ⟨kid_terminates t, reset_log t⟩
    · exact kids_terminate ts k hk

end

theorem own_terminate (fn : MainFn) (idx : Nat) (args : List Node) (event_id : Nat) (s : Eng E) :
    ∃ r s', callMain w fn idx (Node.kids w args) event_id SE_EVENT_TERMINATE s = some (r, s') ∧
      ∀ n, Unticked n s s' :=
  tame_run (kids_terminate args) (tame_on_terminate w.fuel fn _ event_id) s

variable {s s' : Eng E} {fn : MainFn} {args : List Node} {r : Result}

theorem call_unticked (hidx : idx ∉ Node.indicesAll args) {event_id : Nat} {event : EventType}
    (h : callMain w fn idx (Node.kids w args) event_id event s = some (r, s')) :
    Unticked idx s s' :=
  callMain_respects ((unticked_follows idx).into w)
    (kids_respect ((unticked_follows idx).into w) args fun _ hi =>
      unticked_at fun heq => hidx (heq ▸ hi))
    (fun _ _ => rfl) h

def SameFlags (n : Nat) (s s' : Eng E) : Prop :=
  (s'.nodes n).active = (s.nodes n).active ∧ (s'.nodes n).initialized = (s.nodes n).initialized

theorem sameFlags_follows (n : Nat) : Follows (SameFlags (E := E) n) where
  refl _ := ⟨rfl, rfl⟩
  trans _ _ _ h h' := ⟨h'.1.trans h.1, h'.2.trans h.2⟩
  env _ _ := ⟨rfl, rfl⟩

theorem sameFlags_of_node {n : Nat} (h : s'.nodes n = s.nodes n) : SameFlags n s s' :=
  ⟨by rw [h], by rw [h]⟩

theorem call_flags (hidx : idx ∉ Node.indicesAll args) {event_id : Nat} {event : EventType}
    (h : callMain w fn idx (Node.kids w args) event_id event s = some (r, s')) :
    SameFlags idx s s' := by
  refine callMain_respects ((sameFlags_follows idx).into w)
    (kids_respect ((sameFlags_follows idx).into w) args fun i hi => ?_) (fun s d => ?_) h
  · have hne : idx ≠ i := fun heq => hidx (heq ▸ hi)
    refine ⟨fun s st => sameFlags_of_node ?_, fun _ _ _ => ⟨rfl, rfl⟩, fun _ => ⟨rfl, rfl⟩⟩
    simp [Eng.setNode, hne]
  · simp [SameFlags, Eng.setData, Eng.setNode]

theorem invoked_initialized (hidx : idx ∉ Node.indicesAll args)
    (h : (Node.kid w (.main fn idx args)).invoke s = some (r, s'))
    (hact : (s.nodes idx).active = true) :
    (s'.nodes idx).initialized = true ∧ (s'.nodes idx).active = !(r == SE_PIPELINE_DISABLE) := by
  rcases dispatch_main_cases h with ⟨hact', -⟩ | ⟨-, s₁, s₂, h₁, h₂, h₃⟩
  · rw [hact] at hact'
    exact nomatch hact'
  · have hfirst : (s₁.nodes idx).initialized = true ∧ (s₁.nodes idx).active = true := by
      unfold first_call at h₁
      split at h₁
      · cases h₁
        exact ⟨‹_›, hact⟩
      · simp only [Option.map_eq_some_iff] at h₁
        obtain ⟨⟨r₀, s₀⟩, h₁, rfl⟩ := h₁
        have hflags := call_flags hidx h₁
        simp only [SameFlags, Eng.record, Eng.setNode, if_true] at hflags
        exact ⟨hflags.2, hflags.1.trans hact⟩
    have htick := call_flags hidx h₂
    unfold last_call at h₃
    split at h₃
    · rename_i hr
      simp only [Option.map_eq_some_iff] at h₃
      obtain ⟨⟨r₀, s₀⟩, h₃, rfl⟩ := h₃
      have hlast := call_flags hidx h₃
      simp only [SameFlags, Eng.record] at hlast
      simp only [Eng.setNode, if_true, hr, BEq.rfl, Bool.not_true, and_true]
      rw [hlast.2, htick.2]
      exact hfirst.1
    · rename_i hr
      cases h₃
      simp only [Eng.record]
      exact ⟨htick.2.trans hfirst.1, (htick.1.trans hfirst.2).trans (by simp [hr])⟩

theorem invoke_answers (hidx : idx ∉ Node.indicesAll args)
    (h : (Node.kid w (.main fn idx args)).invoke s = some (r, s')) :
    answers idx s'.log = answers idx s.log ++ if (s.nodes idx).active then [r] else [] := by
  rcases dispatch_main_cases h with ⟨hact, -, rfl⟩ | ⟨hact, s₁, s₂, h₁, h₂, h₃⟩
  · simp [hact]
  · have hinit : Unticked idx s s₁ := by
      unfold first_call at h₁
      split at h₁
      · cases h₁
        rfl
      · simp only [Option.map_eq_some_iff] at h₁
        obtain ⟨⟨r₀, s₀⟩, h₁, rfl⟩ := h₁
        refine Unticked.trans ?_ (call_unticked hidx h₁)
        change answers idx (s.log ++ [Callback.init idx]) = _
        rw [answers_append]
        exact List.append_nil _
    have htick : Unticked idx s₁ s₂ := call_unticked hidx h₂
    have hlast : Unticked idx (s₂.record (.tick idx r)) s' := by
      unfold last_call at h₃
      split at h₃
      · simp only [Option.map_eq_some_iff] at h₃
        obtain ⟨⟨r₀, s₀⟩, h₃, rfl⟩ := h₃
        exact Unticked.trans (record_terminate_unticked _ idx idx)
          ((call_unticked hidx h₃).trans rfl)
      · cases h₃
        rfl
    have hafter : answers idx (s₂.record (.tick idx r)).log = answers idx s₂.log ++ [r] := by
      change answers idx (s₂.log ++ [.tick idx r]) = _
      rw [answers_append, answers_tick]
    rw [hlast, hafter, htick, hinit, if_pos hact]

end

end motioncore.engine
