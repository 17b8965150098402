-- The loop `se_while` over a counter predicate. Its body runs to completion as often as the
-- counter meets its test, and that is limit / increment times exactly when the counter passes
-- the limit before it passes the end of its range.
import MotionCore.Engine.Forward
import MotionCore.Lib.CountedLoop

namespace motioncore.engine

open EventType countedloop motioncore.trace

variable {E : Type}

/-! ## The counter predicates -/

/-- The count is the user data of the predicate's own node. Parameters that are no numbers
are an exception. -/
def se_state_increment_and_test (params : List ArgKind) (st : NodeState) : Bool × NodeState :=
  match params with
  | .int increment :: .int limit :: _ =>
    let increment := (increment % 65536).toNat
    let limit := (limit % 65536).toNat
    let st := if st.initialized then st
      else { st with initialized := true, data := { st.data with user_data := 0 } }
    let count := (st.data.user_data + increment) % 65536
    (decide (count ≤ limit), { st with data := { st.data with user_data := count } })
  | _ => (false, st)

/-- The helper of the DSL checks the two numbers, and emits them as the parameters. -/
def state_increment_params (increment_value value_to_test : Int) : Except String (List ArgKind) :=
  if increment_value ≤ 0 ∨ 0xFFFF < increment_value then
    .error ("se_state_increment_and_test: increment_value must be 0-0xFFFF, got: " ++
      toString increment_value)
  else if value_to_test < 0 ∨ 0xFFFF < value_to_test then
    .error ("se_state_increment_and_test: value_to_test must be 0-0xFFFF, got: " ++
      toString value_to_test)
  else .ok [.int increment_value, .int value_to_test]

/-- The 32-bit fields of a blackboard. -/
structure Blackboard (E : Type) where
  get : Nat → E → Int32
  put : Nat → Int32 → E → E
  get_put : ∀ f v env, get f (put f v env) = v
  get_other : ∀ f g v env, g ≠ f → get g (put f v env) = get g env

/-- The count is a field, and so are the increment and the limit. -/
def se_field_increment_and_test (board : Blackboard E) (params : List ArgKind) (st : NodeState)
    (env : E) : Bool × NodeState × E :=
  match params with
  | .field f :: .field increment_field :: .field limit_field :: _ =>
    let (st, env) := if st.initialized then (st, env)
      else ({ st with initialized := true }, board.put f 0 env)
    let env := board.put f (board.get f env + board.get increment_field env) env
    (decide (board.get f env ≤ board.get limit_field env), st, env)
  | _ => (false, st, env)

/-! ## What is asked of the loop -/

/-- The answers that complete a body. -/
def completing (r : Result) : Bool :=
  r == SE_PIPELINE_DISABLE || r == SE_PIPELINE_TERMINATE || r == SE_PIPELINE_RESET

/-- The body goes on until it completes with an answer in `fin`, whatever happens elsewhere
between two ticks. `Keeps` tells how far the environment can be changed there. -/
inductive CompletesBy (w : World E) (body : Node) (Keeps : E → E → Prop) (fin : Result → Prop) :
    Eng E → Prop where
  | done {s s' : Eng E} {r : Result} (h : (body.kid w).invoke s = some (r, s')) (hr : fin r) :
    CompletesBy w body Keeps fin s
  | goes_on {s s' : Eng E} {r : Result} (h : (body.kid w).invoke s = some (r, s'))
    (hr : completing r = false) (hd : r ≠ SE_DISABLE)
    (next : ∀ s'', Apart body.indices s' s'' → Keeps s'.env s''.env →
      CompletesBy w body Keeps fin s'') : CompletesBy w body Keeps fin s

/-- How often a node has completed. -/
def completions (n : Nat) (log : List Callback) : Nat :=
  (answers n log).countP fun r => completing r || r == SE_DISABLE

/-- The node is ticked until it reports completion, and by then the node `b` has completed `k`
times. Before the tick number `i`, `out i` happens elsewhere. -/
inductive Reports (w : World E) (t : Node) (b : Nat) : (Nat → Eng E → Eng E) → Eng E → Nat → Prop
    where
  | now {out : Nat → Eng E → Eng E} {s s' : Eng E} {k : Nat}
    (h : (t.kid w).invoke (out 0 s) = some (SE_PIPELINE_DISABLE, s'))
    (hk : completions b s'.log = completions b s.log + k) : Reports w t b out s k
  | later {out : Nat → Eng E → Eng E} {s s' : Eng E} {r : Result} {j k : Nat}
    (h : (t.kid w).invoke (out 0 s) = some (r, s')) (hr : r ≠ SE_PIPELINE_DISABLE)
    (hj : completions b s'.log = completions b s.log + j)
    (rest : Reports w t b (fun i => out (i + 1)) s' k) : Reports w t b out s (j + k)

/-! ## A tick of the loop -/

section

variable (w : World E) (k₀ k₁ : Kid E) (idx : Nat)
variable (own : NodeData → E → Result × NodeData × E)

def inState (idx v : Nat) (s : Eng E) : Eng E :=
  s.setData idx { (s.nodes idx).data with state := v % 256 }

theorem run_while_body (s : Eng E) : runProg w [k₀, k₁] idx own while_run_body s =
    (k₁.invoke s).bind fun (r, s₁) =>
      if r = SE_DISABLE then (k₁.terminate s₁).map fun s₂ => (SE_CONTINUE, s₂)
      else if completing r then (k₁.terminate s₁).map fun s₂ =>
        (SE_PIPELINE_HALT, inState idx SE_WHILE_STATE_EVAL_PRED (k₁.resetRecursive s₂))
      else some (if r.layer ≠ .pipeline then r else SE_FUNCTION_HALT, s₁) := by
  have hkid : kidAt [k₀, k₁] 1 = k₁ := rfl
  simp only [while_run_body, s_expr_child_invoke, runProg_bind, run_invoke_any, hkid,
    Option.bind_assoc]
  refine Option.bind_congr fun a _ => ?_
  obtain ⟨r, s₁⟩ := a
  dsimp only
  by_cases hd : r = SE_DISABLE
  · simp only [hd, if_true, runProg_bind, run_child_terminate, hkid]
    cases k₁.terminate s₁ with
    | none => rfl
    | some s₂ => rfl
  · simp only [hd, if_false, runProg_pure, Option.bind_some]
    obtain ⟨layer, code⟩ := r
    cases layer with
    | application | function => rfl
    | pipeline =>
      have hrestart : runProg w [k₀, k₁] idx own (do
          restart_recursive 1
          s_expr_set_state SE_WHILE_STATE_EVAL_PRED
          return SE_PIPELINE_HALT) s₁ = (k₁.terminate s₁).map fun s₂ =>
            (SE_PIPELINE_HALT, inState idx SE_WHILE_STATE_EVAL_PRED (k₁.resetRecursive s₂)) := by
        simp only [restart_recursive, runProg_bind, run_child_terminate, hkid]
        cases k₁.terminate s₁ with
        | none => rfl
        | some s₂ => rfl
      cases code with
      | CONTINUE | HALT | SKIP_CONTINUE => rfl
      | DISABLE | TERMINATE | RESET => exact hrestart

variable (event_id : Nat)

theorem while_tests {s : Eng E} (h : (s.nodes idx).data.state = SE_WHILE_STATE_EVAL_PRED) :
    callMain w .se_while idx [k₀, k₁] event_id SE_EVENT_TICK s =
      (k₀.invokePred s).bind fun (cond, s₁) =>
        if cond then runProg w [k₀, k₁] idx (ownFn w .se_while event_id SE_EVENT_TICK) while_run_body
          (inState idx SE_WHILE_STATE_RUN_BODY (k₁.resetRecursive s₁))
        else some (SE_PIPELINE_DISABLE, s₁) := by
  have hkid₀ : kidAt [k₀, k₁] 0 = k₀ := rfl
  have hkid₁ : kidAt [k₀, k₁] 1 = k₁ := rfl
  simp only [callMain, mainProg, se_while, runProg_bind, run_get_state, Option.bind_some, h, if_true,
    run_invoke_pred, hkid₀]
  refine Option.bind_congr fun a _ => ?_
  obtain ⟨cond, s₁⟩ := a
  cases cond with
  | false => rfl
  | true =>
    simp only [Bool.not_true, Bool.false_eq_true, if_false, if_true, runProg_bind,
      run_child_reset_recursive, run_set_state, Option.bind_some, hkid₁]
    rfl

theorem while_runs {s : Eng E} (h : (s.nodes idx).data.state = SE_WHILE_STATE_RUN_BODY) :
    callMain w .se_while idx [k₀, k₁] event_id SE_EVENT_TICK s =
      runProg w [k₀, k₁] idx (ownFn w .se_while event_id SE_EVENT_TICK) while_run_body s := by
  have hne : ¬ SE_WHILE_STATE_RUN_BODY = SE_WHILE_STATE_EVAL_PRED := by decide
  simp only [callMain, mainProg, se_while, runProg_bind, run_get_state, Option.bind_some, h, hne,
    if_true, if_false]

theorem while_starts (s : Eng E) : callMain w .se_while idx [k₀, k₁] event_id SE_EVENT_INIT s =
      some (SE_PIPELINE_CONTINUE, inState idx SE_WHILE_STATE_EVAL_PRED s) := by
  simp only [callMain, mainProg, se_while, runProg_bind, run_set_state, Option.bind_some]
  rfl

end

/-! ## The counter of a loop -/

/-- The predicate counts. `Reads s v` tells that the counter stands at `v`. -/
structure Counts {V : Type} (w : World E) (cond body : Node) (Keeps : E → E → Prop) (next : V → V)
    (ok : V → Bool) (Reads : Eng E → V → Prop) : Prop where
  test : ∀ s v, Reads s v → ∃ s', (cond.kid w).invokePred s = some (ok (next v), s') ∧
    Reads s' (next v)
  body : (body.kid w).Respects fun s s' => ∀ v, Reads s v → Reads s' v
  elsewhere : ∀ s s' v, Apart cond.indices s s' → Keeps s.env s'.env → Reads s v → Reads s' v

/-- Started anew, anywhere, the body completes. -/
def Completes (w : World E) (body : Node) (Keeps : E → E → Prop) (fin : Result → Prop) : Prop :=
  ∀ s s', Apart body.indices ((body.kid w).resetRecursive s) s' → CompletesBy w body Keeps fin s'

/-- What happens elsewhere between the ticks. -/
structure Elsewhere (ns : List Nat) (Keeps : E → E → Prop) (out : Nat → Eng E → Eng E) : Prop where
  apart : ∀ i s, Apart ns s (out i s)
  keeps : ∀ i s, Keeps s.env (out i s).env

variable {out : Nat → Eng E → Eng E}

theorem Elsewhere.tail {ns : List Nat} {Keeps : E → E → Prop} (h : Elsewhere ns Keeps out) :
    Elsewhere ns Keeps fun i => out (i + 1) :=
  ⟨fun i => h.apart (i + 1), fun i => h.keeps (i + 1)⟩

/-- The loop is active, and it tests when it is ticked. -/
structure AtTest {V : Type} (idx : Nat) (Reads : Eng E → V → Prop) (v : V) (s : Eng E) : Prop where
  active : (s.nodes idx).active = true
  state : (s.nodes idx).initialized = true → (s.nodes idx).data.state = SE_WHILE_STATE_EVAL_PRED
  reads : Reads s v

structure Running {V : Type} (idx : Nat) (Reads : Eng E → V → Prop) (v : V) (s : Eng E) : Prop where
  active : (s.nodes idx).active = true
  initialized : (s.nodes idx).initialized = true
  state : (s.nodes idx).data.state = SE_WHILE_STATE_RUN_BODY
  reads : Reads s v

variable {s s' : Eng E}

theorem Reports.step {w : World E} {t : Node} {b : Nat} {r : Result} {j k : Nat}
    (h : (t.kid w).invoke (out 0 s) = some (r, s')) (hr : r ≠ SE_PIPELINE_DISABLE)
    (hj : completions b s'.log = completions b s.log + j) :
    Reports w t b out s k ↔ ∃ k', k = j + k' ∧ Reports w t b (fun i => out (i + 1)) s' k' := by
  constructor
  · intro hreports
    cases hreports with
    | now h' hk =>
      rw [h] at h'
      cases h'
      exact absurd rfl hr
    | later h' hr' hj' rest =>
      rw [h] at h'
      cases h'
      exact ⟨_, by omega, rest⟩
  · rintro ⟨k', rfl, rest⟩
    exact .later h hr hj rest

theorem Reports.last {w : World E} {t : Node} {b k : Nat}
    (h : (t.kid w).invoke (out 0 s) = some (SE_PIPELINE_DISABLE, s'))
    (hsame : completions b s'.log = completions b s.log) : Reports w t b out s k ↔ k = 0 := by
  constructor
  · intro hreports
    cases hreports with
    | now h' hk =>
      rw [h] at h'
      cases h'
      omega
    | later h' hr' hj' rest =>
      rw [h] at h'
      cases h'
      exact absurd rfl hr'
  · rintro rfl
    exact .now h hsame

theorem completions_of_unticked {n : Nat} (h : Unticked n s s') :
    completions n s'.log = completions n s.log := by
  unfold completions
  rw [h]

/-! ## One tick -/

section

variable {w : World E} {idx b : Nat} {cond : Node} {fn : MainFn} {args : List Node}

/-- The loop, its condition and its body have nodes of their own. -/
structure LoopTree (idx b : Nat) (cond : Node) (fn : MainFn) (args : List Node) : Prop where
  off_cond : idx ∉ cond.indices
  off_body : idx ∉ (Node.main fn b args).indices
  apart : ∀ n ∈ cond.indices, n ∉ (Node.main fn b args).indices
  kids : b ∉ Node.indicesAll args

theorem LoopTree.ne (h : LoopTree idx b cond fn args) : idx ≠ b := by
  rintro rfl
  exact h.off_body (by simp [Node.indices])

theorem loop_tree (h : (Node.indices (.main .se_while idx [cond, .main fn b args])).Nodup) :
    LoopTree idx b cond fn args := by
  rw [Node.indices, List.nodup_cons] at h
  simp only [Node.indicesAll, List.append_nil, List.nodup_append, List.mem_append, not_or] at h
  obtain ⟨⟨hcond, hbody⟩, -, hnodup, hapart⟩ := h
  rw [Node.indices, List.nodup_cons] at hnodup
  exact ⟨hcond, hbody, fun n hn hm => hapart n hn n hm rfl, hnodup.1⟩

/-- What is left of a tick after the function was called. -/
def finish (w : World E) (idx : Nat) (kids : List (Kid E)) (out : Result × Eng E) :
    Option (Result × Eng E) :=
  (last_call w .se_while idx kids out.1 (out.2.record (.tick idx out.1))).map fun s => (out.1, s)

theorem finish_other {kids : List (Kid E)} {r : Result} (hr : r ≠ SE_PIPELINE_DISABLE) (s : Eng E) :
    finish w idx kids (r, s) = some (r, s.record (.tick idx r)) := by
  simp [finish, last_call, hr]

theorem invoke_loop {kids : List Node} {s s₁ : Eng E} (hactive : (s.nodes idx).active = true)
    (hfirst : first_call w .se_while idx (Node.kids w kids) s = some s₁) :
    (Node.kid w (.main .se_while idx kids)).invoke s =
      (callMain w .se_while idx (Node.kids w kids) s₁.event_id SE_EVENT_TICK s₁).bind
        (finish w idx (Node.kids w kids)) := by
  change dispatch_main w .se_while idx (Node.kids w kids) s = _
  simp only [dispatch_main, hactive, hfirst, Bool.not_true, Bool.false_eq_true, if_false,
    Option.bind_eq_bind, Option.bind_some]
  refine Option.bind_congr fun a _ => ?_
  obtain ⟨r, s₂⟩ := a
  simp only [finish]
  cases last_call w .se_while idx (Node.kids w kids) r (s₂.record (.tick idx r)) with
  | none => rfl
  | some s₃ => rfl

variable {ns : List Nat} {s' : Eng E}

theorem own_change (hidx : idx ∉ ns) {s : Eng E} (seg : List Callback)
    (hnodes : ∀ n, n ≠ idx → s'.nodes n = s.nodes n) (hlog : s'.log = s.log ++ seg)
    (hseg : ∀ c ∈ seg, c.node = idx) : Apart ns s s' where
  nodes n hn := hnodes n fun heq => hidx (heq ▸ hn)
  log := ⟨seg, hlog, fun c hc hm => hidx (hseg c hc ▸ hm)⟩

theorem record_change (hidx : idx ∉ ns) (s : Eng E) (r : Result) :
    Apart ns s (s.record (.tick idx r)) :=
  own_change hidx [.tick idx r] (fun _ _ => rfl) rfl (by simp [Callback.node])

theorem inState_change (hidx : idx ∉ ns) (s : Eng E) (v : Nat) : Apart ns s (inState idx v s) :=
  own_change hidx [] (fun n hn => by simp [inState, Eng.setData, Eng.setNode, hn])
    (List.append_nil _).symm (by simp)

@[simp] theorem inState_node (s : Eng E) (v : Nat) : (inState idx v s).nodes idx =
      { s.nodes idx with data := { (s.nodes idx).data with state := v % 256 } } := by
  simp [inState, Eng.setData, Eng.setNode]

/-! ## The body -/

theorem completions_invoked (hb : b ∉ Node.indicesAll args) {s : Eng E} {r : Result}
    (h : (Node.kid w (.main fn b args)).invoke s = some (r, s')) :
    completions b s'.log = completions b s.log + if completing r || r == SE_DISABLE then 1 else 0 := by
  have hanswers := invoke_answers hb h
  unfold completions
  cases hact : (s.nodes b).active with
  | true =>
    rw [hact, if_pos rfl] at hanswers
    rw [hanswers, List.countP_append, List.countP_singleton]
  | false =>
    rw [hact, if_neg Bool.false_ne_true, List.append_nil] at hanswers
    rcases dispatch_main_cases h with ⟨-, rfl, -⟩ | ⟨hact', -⟩
    · rw [hanswers]
      rfl
    · rw [hact] at hact'
      exact nomatch hact'

section

variable {V : Type} {Keeps : E → E → Prop} {next : V → V} {ok : V → Bool}
variable {Reads : Eng E → V → Prop} {v : V}
variable {s : Eng E}

theorem Running.keep {s' : Eng E} (h : Running idx Reads v s) (hnode : s'.nodes idx = s.nodes idx)
    (hreads : Reads s v → Reads s' v) : Running idx Reads v s' where
  active := hnode ▸ h.active
  initialized := hnode ▸ h.initialized
  state := hnode ▸ h.state
  reads := hreads h.reads

theorem Counts.own (hcounts : Counts w cond (.main fn b args) Keeps next ok Reads)
    (hrefl : ∀ env, Keeps env env) {s' : Eng E} (hapart : Apart cond.indices s s')
    (henv : s'.env = s.env) (h : Reads s v) : Reads s' v :=
  hcounts.elsewhere s s' v hapart (henv ▸ hrefl s.env) h

variable {out : Nat → Eng E → Eng E}

theorem Running.elsewhere (hcounts : Counts w cond (.main fn b args) Keeps next ok Reads)
    (hout : Elsewhere (Node.indices (.main .se_while idx [cond, .main fn b args])) Keeps out)
    {i : Nat} (h : Running idx Reads v s) : Running idx Reads v (out i s) := by
  refine h.keep ((hout.apart i s).nodes idx (by simp [Node.indices])) ?_
  apply hcounts.elsewhere s _ v ((hout.apart i s).mono fun n hn => ?_) (hout.keeps i s)
  simp [Node.indices, Node.indicesAll, hn]

theorem AtTest.elsewhere (hcounts : Counts w cond (.main fn b args) Keeps next ok Reads)
    (hout : Elsewhere (Node.indices (.main .se_while idx [cond, .main fn b args])) Keeps out)
    {i : Nat} (h : AtTest idx Reads v s) : AtTest idx Reads v (out i s) := by
  have hnode := (hout.apart i s).nodes idx (by simp [Node.indices])
  refine ⟨hnode ▸ h.active, hnode ▸ h.state, ?_⟩
  apply hcounts.elsewhere s _ v ((hout.apart i s).mono fun n hn => ?_) (hout.keeps i s) h.reads
  simp [Node.indices, Node.indicesAll, hn]

theorem elsewhere_completions
    (hout : Elsewhere (Node.indices (.main .se_while idx [cond, .main fn b args])) Keeps out)
    (i : Nat) (s : Eng E) : completions b (out i s).log = completions b s.log := by
  apply completions_of_unticked
  exact (hout.apart i s).unticked (by simp [Node.indices, Node.indicesAll])

structure InTick (w : World E) (idx : Nat) (kids : List Node) (out : Nat → Eng E → Eng E)
    (s s₁ : Eng E) (b : Nat) : Prop where
  same : completions b s₁.log = completions b s.log
  runs : ∃ own, (Node.kid w (.main .se_while idx kids)).invoke (out 0 s) =
    (runProg w (Node.kids w kids) idx own while_run_body s₁).bind (finish w idx (Node.kids w kids))

theorem Running.ticked {kids : List Node} (hkids : ∃ c d, kids = [c, d])
    (h : Running idx Reads v (out 0 s))
    (hsame : completions b (out 0 s).log = completions b s.log) :
    InTick w idx kids out s (out 0 s) b := by
  obtain ⟨c, d, rfl⟩ := hkids
  have hfirst : first_call w .se_while idx (Node.kids w [c, d]) (out 0 s) = some (out 0 s) := by
    unfold first_call
    rw [if_pos h.initialized]
  have hcall : callMain w .se_while idx (Node.kids w [c, d]) (out 0 s).event_id SE_EVENT_TICK
      (out 0 s) = runProg w (Node.kids w [c, d]) idx
        (ownFn w .se_while (out 0 s).event_id SE_EVENT_TICK) while_run_body (out 0 s) :=
    while_runs w (c.kid w) (d.kid w) idx _ h.state
  exact ⟨hsame, _, by rw [invoke_loop h.active hfirst, hcall]⟩

variable {s₁ : Eng E}

theorem InTick.answer {kids : List Node} {s₂ : Eng E} {r : Result} {j k : Nat}
    (htick : InTick w idx kids out s s₁ b) (hb : idx ≠ b)
    (hrun : ∀ own, runProg w (Node.kids w kids) idx own while_run_body s₁ = some (r, s₂))
    (hr : r ≠ SE_PIPELINE_DISABLE) (hj : completions b s₂.log = completions b s₁.log + j) :
    Reports w (.main .se_while idx kids) b out s k ↔ ∃ k', k = j + k' ∧
      Reports w (.main .se_while idx kids) b (fun i => out (i + 1)) (s₂.record (.tick idx r)) k' := by
  obtain ⟨own, hinvoke⟩ := htick.runs
  rw [hrun, Option.bind_some, finish_other hr] at hinvoke
  refine Reports.step hinvoke hr ?_
  have hun : Unticked b s₂ (s₂.record (.tick idx r)) :=
    (record_change (by simpa using hb) s₂ r).unticked (List.mem_singleton_self b)
  rw [completions_of_unticked hun, hj, htick.same]

/-! ## A body that is no longer active -/

/-- The loop waits for a body that is no longer active. -/
structure Stuck (idx b : Nat) (s : Eng E) : Prop where
  active : (s.nodes idx).active = true
  initialized : (s.nodes idx).initialized = true
  state : (s.nodes idx).data.state = SE_WHILE_STATE_RUN_BODY
  body : (s.nodes b).active = false

theorem stuck_invoked (cond : Node) (h : Stuck idx b s) :
    (Node.kid w (.main .se_while idx [cond, .main fn b args])).invoke s =
      some (SE_FUNCTION_HALT, s.record (.tick idx SE_FUNCTION_HALT)) := by
  have hfirst : first_call w .se_while idx (Node.kids w [cond, .main fn b args]) s = some s := by
    unfold first_call
    rw [if_pos h.initialized]
  have hbody : (Node.kid w (.main fn b args)).invoke s = some (SE_PIPELINE_CONTINUE, s) := by
    change dispatch_main w fn b (Node.kids w args) s = _
    simp [dispatch_main, h.body]
  have hcall : callMain w .se_while idx (Node.kids w [cond, .main fn b args]) s.event_id SE_EVENT_TICK
      s = some (SE_FUNCTION_HALT, s) := by
    refine (while_runs w (cond.kid w) (Node.kid w (.main fn b args)) idx _ h.state).trans ?_
    rw [run_while_body, hbody]
    rfl
  rw [invoke_loop h.active hfirst, hcall]
  exact finish_other (by decide) s

theorem stuck_never_reports {t : Node} (ht : t = .main .se_while idx [cond, .main fn b args])
    {k : Nat} (hreports : Reports w t b out s k) (hout : Elsewhere t.indices Keeps out)
    (h : Stuck idx b s) : False := by
  have hmem : ∀ n, n = idx ∨ n = b → n ∈ t.indices := by
    intro n hn
    rw [ht]
    rcases hn with rfl | rfl <;> simp [Node.indices, Node.indicesAll]
  have helsewhere : ∀ (out : Nat → Eng E → Eng E) (i : Nat) (s : Eng E),
      Elsewhere t.indices Keeps out → Stuck idx b s → Stuck idx b (out i s) := by
    intro out i s hout h
    have hidx := (hout.apart i s).nodes idx (hmem idx (Or.inl rfl))
    have hb := (hout.apart i s).nodes b (hmem b (Or.inr rfl))
    exact ⟨hidx ▸ h.active, hidx ▸ h.initialized, hidx ▸ h.state, hb ▸ h.body⟩
  induction hreports with
  | @now out s s' k h' hk =>
    rw [ht, stuck_invoked cond (helsewhere out 0 s hout h)] at h'
    exact nomatch h'
  | @later out s s' r j k h' hr hj rest ih =>
    have hstuck := helsewhere out 0 s hout h
    rw [ht, stuck_invoked cond hstuck] at h'
    cases h'
    exact ih hout.tail ⟨hstuck.active, hstuck.initialized, hstuck.state, hstuck.body⟩

/-! ## The body -/

variable (htree : LoopTree idx b cond fn args)
variable (hcounts : Counts w cond (.main fn b args) Keeps next ok Reads)
variable (hrefl : ∀ env, Keeps env env)

include htree hcounts hrefl

theorem body_goes_on {s₂ : Eng E} {r : Result} (h : (Node.kid w (.main fn b args)).invoke s₁ = some (r, s₂))
    (hr : completing r = false) (hd : r ≠ SE_DISABLE)
    (hout : Elsewhere (Node.indices (.main .se_while idx [cond, .main fn b args])) Keeps out)
    (hrunning : Running idx Reads v s₁) (htick : InTick w idx [cond, .main fn b args] out s s₁ b) :
    ∃ s', Apart (Node.indices (.main fn b args)) s₂ (out 1 s') ∧ Keeps s₂.env (out 1 s').env ∧
      Running idx Reads v (out 1 s') ∧
      InTick w idx [cond, .main fn b args] (fun i => out (i + 1)) s' (out 1 s') b ∧
      ∀ k, Reports w (.main .se_while idx [cond, .main fn b args]) b out s k ↔
        Reports w (.main .se_while idx [cond, .main fn b args]) b (fun i => out (i + 1)) s' k := by
  have hrun : ∀ own, runProg w (Node.kids w [cond, .main fn b args]) idx own while_run_body s₁ =
      some (if r.layer ≠ .pipeline then r else SE_FUNCTION_HALT, s₂) := by
    intro own
    have hrun := run_while_body w (cond.kid w) (Node.kid w (.main fn b args)) idx own s₁
    rw [h, Option.bind_some] at hrun
    dsimp only at hrun
    rw [if_neg hd, if_neg (by simp [hr])] at hrun
    exact hrun
  have hne : (if r.layer ≠ .pipeline then r else SE_FUNCTION_HALT) ≠ SE_PIPELINE_DISABLE := by
    split
    · rename_i hlayer
      rintro rfl
      exact hlayer rfl
    · decide
  have hcount : completions b s₂.log = completions b s₁.log + 0 := by
    rw [completions_invoked htree.kids h, hr, Bool.false_or, if_neg (by simpa using hd)]
  generalize (if r.layer ≠ .pipeline then r else SE_FUNCTION_HALT) = r' at hrun hne
  have hapart : Apart (Node.indices (.main fn b args)) s₂ (out 1 (s₂.record (.tick idx r'))) := by
    refine (record_change htree.off_body s₂ r').trans ((hout.apart 1 _).mono fun n hn => ?_)
    simp only [Node.indices, Node.indicesAll, List.append_nil, List.mem_cons, List.mem_append] at hn ⊢
    exact Or.inr (Or.inr hn)
  have hstill : Running idx Reads v (s₂.record (.tick idx r')) := by
    have hnode := ((kid_within w (.main fn b args)).invoke _ _ _ h).nodes idx htree.off_body
    refine hrunning.keep hnode fun hv => ?_
    exact hcounts.own hrefl (record_change htree.off_cond s₂ r') rfl (hcounts.body.invoke _ _ _ h _ hv)
  have hnext : Running idx Reads v (out 1 (s₂.record (.tick idx r'))) := hstill.elsewhere hcounts hout
  refine ⟨s₂.record (.tick idx r'), hapart, hout.keeps 1 (s₂.record (.tick idx r')), hnext,
    Running.ticked ⟨_, _, rfl⟩ hnext (elsewhere_completions hout 1 _), fun k => ?_⟩
  rw [htick.answer htree.ne hrun hne hcount]
  constructor
  · rintro ⟨k', rfl, hk'⟩
    rw [Nat.zero_add]
    exact hk'
  · intro hk
    exact ⟨k, (Nat.zero_add k).symm, hk⟩

theorem body_completes (hbody : CompletesBy w (.main fn b args) Keeps (fun r => completing r = true) s₁) :
    ∀ (out : Nat → Eng E → Eng E) (s : Eng E),
      Elsewhere (Node.indices (.main .se_while idx [cond, .main fn b args])) Keeps out →
      Running idx Reads v s₁ → InTick w idx [cond, .main fn b args] out s s₁ b →
      ∃ out' s', Elsewhere (Node.indices (.main .se_while idx [cond, .main fn b args])) Keeps out' ∧
        AtTest idx Reads v s' ∧
        ∀ k, Reports w (.main .se_while idx [cond, .main fn b args]) b out s k ↔
          ∃ k', k = 1 + k' ∧ Reports w (.main .se_while idx [cond, .main fn b args]) b out' s' k' := by
  have hwithin := kid_within w (.main fn b args)
  induction hbody with
  | @done s₁ s₂ r h hr =>
    intro out s hout hrunning htick
    have hd : r ≠ SE_DISABLE := by
      rintro rfl
      exact nomatch hr
    obtain ⟨s₃, hterm, hun⟩ := kid_terminates (w := w) (.main fn b args) s₂
    have hrun : ∀ own, runProg w (Node.kids w [cond, .main fn b args]) idx own while_run_body s₁ =
        some (SE_PIPELINE_HALT, inState idx SE_WHILE_STATE_EVAL_PRED
          ((Node.kid w (.main fn b args)).resetRecursive s₃)) := by
      intro own
      have hrun := run_while_body w (cond.kid w) (Node.kid w (.main fn b args)) idx own s₁
      rw [h, Option.bind_some] at hrun
      dsimp only at hrun
      rw [if_neg hd, if_pos hr, hterm, Option.map_some] at hrun
      exact hrun
    have hcount : completions b s₂.log = completions b s₁.log + 1 := by
      rw [completions_invoked htree.kids h, hr, Bool.true_or, if_pos rfl]
    have hreset : Unticked b s₃ (inState idx SE_WHILE_STATE_EVAL_PRED
        ((Node.kid w (.main fn b args)).resetRecursive s₃)) :=
      congrArg (answers b) (reset_log _ s₃)
    rw [← completions_of_unticked ((hun b).trans hreset)] at hcount
    have hagain : Running idx Reads v ((Node.kid w (.main fn b args)).resetRecursive s₃) := by
      refine hrunning.keep ?_ fun hv => ?_
      · rw [(hwithin.resetRecursive s₃).nodes idx htree.off_body,
          (hwithin.terminate _ _ hterm).nodes idx htree.off_body,
          (hwithin.invoke _ _ _ h).nodes idx htree.off_body]
      · exact hcounts.body.resetRecursive _ _ (hcounts.body.terminate _ _ hterm _
          (hcounts.body.invoke _ _ _ h _ hv))
    have hchange := (inState_change htree.off_cond ((Node.kid w (.main fn b args)).resetRecursive s₃)
      SE_WHILE_STATE_EVAL_PRED).trans (record_change htree.off_cond _ SE_PIPELINE_HALT)
    refine ⟨_, _, hout.tail, ⟨?_, fun _ => ?_, hcounts.own hrefl hchange rfl hagain.reads⟩,
      fun k => htick.answer htree.ne hrun (by decide) hcount⟩
    · simp only [Eng.record, inState_node]
      exact hagain.active
    · simp [Eng.record, SE_WHILE_STATE_EVAL_PRED]
  | @goes_on s₁ s₂ r h hr hd _ ih =>
    intro out s hout hrunning htick
    obtain ⟨s', hapart, hkeeps, hnext, htick', hreports⟩ :=
      body_goes_on htree hcounts hrefl h hr hd hout hrunning htick
    obtain ⟨out', s'', hout', htest, hreports'⟩ := ih _ hapart hkeeps _ s' hout.tail hnext htick'
    exact ⟨out', s'', hout', htest, fun k => (hreports k).trans (hreports' k)⟩

/-- The loop waits for ever for a body that answers SE_DISABLE. -/
theorem body_disables (hbody : CompletesBy w (.main fn b args) Keeps (· = SE_DISABLE) s₁) :
    ∀ (out : Nat → Eng E → Eng E) (s : Eng E),
      Elsewhere (Node.indices (.main .se_while idx [cond, .main fn b args])) Keeps out →
      Running idx Reads v s₁ → InTick w idx [cond, .main fn b args] out s s₁ b →
      ∀ k, ¬ Reports w (.main .se_while idx [cond, .main fn b args]) b out s k := by
  have hwithin := kid_within w (.main fn b args)
  induction hbody with
  | @done s₁ s₂ r h hr =>
    intro out s hout hrunning htick k
    subst hr
    obtain ⟨s₃, hterm, hun⟩ := kid_terminates (w := w) (.main fn b args) s₂
    have hrun : ∀ own, runProg w (Node.kids w [cond, .main fn b args]) idx own while_run_body s₁ =
        some (SE_CONTINUE, s₃) := by
      intro own
      have hrun := run_while_body w (cond.kid w) (Node.kid w (.main fn b args)) idx own s₁
      rw [h, Option.bind_some] at hrun
      dsimp only at hrun
      rw [if_pos rfl, hterm, Option.map_some] at hrun
      exact hrun
    have hcount : completions b s₂.log = completions b s₁.log + 1 := by
      rw [completions_invoked htree.kids h]
      rfl
    rw [← completions_of_unticked (hun b)] at hcount
    have hinit : (s₂.nodes b).initialized = true := by
      cases hact : (s₁.nodes b).active with
      | true => exact (invoked_initialized htree.kids h hact).1
      | false =>
        rcases dispatch_main_cases h with ⟨-, hr, -⟩ | ⟨hact', -⟩
        · exact nomatch hr
        · rw [hact] at hact'
          exact nomatch hact'
    have hdown : (s₃.nodes b).active = false := by
      rcases terminate_cases hterm with ⟨hno, -⟩ | ⟨-, r, s₄, -, rfl⟩
      · rw [hinit] at hno
        exact nomatch hno
      · simp [Eng.clearNode, Eng.setNode]
    have hnode : s₃.nodes idx = s₁.nodes idx := by
      rw [(hwithin.terminate _ _ hterm).nodes idx htree.off_body,
        (hwithin.invoke _ _ _ h).nodes idx htree.off_body]
    rw [htick.answer htree.ne hrun (by decide) hcount]
    rintro ⟨k', -, hk'⟩
    refine stuck_never_reports rfl hk' hout.tail ⟨?_, ?_, ?_, hdown⟩
    · exact (congrArg NodeState.active hnode).trans hrunning.active
    · exact (congrArg NodeState.initialized hnode).trans hrunning.initialized
    · exact (congrArg (fun st => st.data.state) hnode).trans hrunning.state
  | @goes_on s₁ s₂ r h hr hd _ ih =>
    intro out s hout hrunning htick k
    obtain ⟨s', hapart, hkeeps, hnext, htick', hreports⟩ :=
      body_goes_on htree hcounts hrefl h hr hd hout hrunning htick
    rw [hreports]
    exact ih _ hapart hkeeps _ s' hout.tail hnext htick' k

/-! ## The test -/

theorem first_call_tests (h : AtTest idx Reads v s) :
    ∃ s₁, first_call w .se_while idx (Node.kids w [cond, .main fn b args]) s = some s₁ ∧
      (s₁.nodes idx).active = true ∧ (s₁.nodes idx).initialized = true ∧
      (s₁.nodes idx).data.state = SE_WHILE_STATE_EVAL_PRED ∧ Reads s₁ v ∧ Unticked b s s₁ := by
  by_cases hinit : (s.nodes idx).initialized = true
  · refine ⟨s, ?_, h.active, hinit, h.state hinit, h.reads, rfl⟩
    simp [first_call, hinit]
  · have hstart : ∀ ns, idx ∉ ns → Apart ns s (inState idx SE_WHILE_STATE_EVAL_PRED
        ((s.setNode idx { s.nodes idx with initialized := true }).record (.init idx))) := by
      intro ns hns
      refine own_change hns [.init idx] (fun n hn => ?_) rfl (by simp [Callback.node])
      simp [inState, Eng.setData, Eng.setNode, Eng.record, hn]
    refine ⟨inState idx SE_WHILE_STATE_EVAL_PRED
        ((s.setNode idx { s.nodes idx with initialized := true }).record (.init idx)),
      ?_, ?_, ?_, ?_, ?_, ?_⟩
    · have hinitial := while_starts w (cond.kid w) (Node.kid w (.main fn b args)) idx s.event_id
        ((s.setNode idx { s.nodes idx with initialized := true }).record (.init idx))
      simp only [first_call, hinit]
      exact congrArg (Option.map Prod.snd) hinitial
    · rw [inState_node]
      simp [Eng.record, Eng.setNode, h.active]
    · rw [inState_node]
      simp [Eng.record, Eng.setNode]
    · rw [inState_node]
      rfl
    · exact hcounts.own hrefl (hstart _ htree.off_cond) rfl h.reads
    · exact (hstart [b] (by simpa using htree.ne)).unticked (List.mem_singleton_self b)

theorem test_fails (hout : Elsewhere (Node.indices (.main .se_while idx [cond, .main fn b args])) Keeps out)
    (h : AtTest idx Reads v s) (hok : ok (next v) = false) (k : Nat) :
    Reports w (.main .se_while idx [cond, .main fn b args]) b out s k ↔ k = 0 := by
  have h₀ : AtTest idx Reads v (out 0 s) := h.elsewhere hcounts hout
  obtain ⟨s₁, hfirst, -, -, hstate, hreads, hun₁⟩ := first_call_tests htree hcounts hrefl h₀
  obtain ⟨s₂, htest, -⟩ := hcounts.test s₁ v hreads
  have hcall := while_tests w (cond.kid w) (Node.kid w (.main fn b args)) idx
    s₁.event_id hstate
  rw [htest, hok, Option.bind_some] at hcall
  obtain ⟨r, s₃, hterm, hun₃⟩ := own_terminate (w := w) .se_while idx [cond, .main fn b args]
    s₂.event_id ((s₂.record (.tick idx SE_PIPELINE_DISABLE)).record (.terminate idx))
  have hinvoke := invoke_loop h₀.active hfirst
  have hkids : Node.kids w [cond, .main fn b args] = [cond.kid w, Node.kid w (.main fn b args)] := rfl
  rw [hkids] at hinvoke hterm
  rw [hcall] at hinvoke
  have hdone : (Node.kid w (.main .se_while idx [cond, .main fn b args])).invoke (out 0 s) =
      some (SE_PIPELINE_DISABLE, s₃.setNode idx { s₃.nodes idx with active := false }) := by
    refine hinvoke.trans ?_
    simp only [Bool.false_eq_true, if_false, Option.bind_some, finish, last_call, if_true]
    rw [show ((s₂.record (.tick idx SE_PIPELINE_DISABLE)).event_id) = s₂.event_id from rfl, hterm]
    rfl
  refine Reports.last hdone ?_
  have hb : b ∉ cond.indices := fun hm => htree.apart b hm (by simp [Node.indices])
  have hun₂ : Unticked b s₁ s₂ := ((kid_within w cond).invokePred _ _ _ htest).unticked hb
  have hrec : Unticked b s₂ (s₂.record (.tick idx SE_PIPELINE_DISABLE)) :=
    (record_change (by simpa using htree.ne) s₂ _).unticked (List.mem_singleton_self b)
  have hall := (hun₁.trans hun₂).trans (hrec.trans
    ((record_terminate_unticked _ idx b).trans (hun₃ b)))
  exact (completions_of_unticked hall).trans (elsewhere_completions hout 0 s)

theorem test_meets {fin : Result → Prop} (hbody : Completes w (.main fn b args) Keeps fin)
    (hout : Elsewhere (Node.indices (.main .se_while idx [cond, .main fn b args])) Keeps out)
    (h : AtTest idx Reads v s) (hok : ok (next v) = true) :
    ∃ s₁, CompletesBy w (.main fn b args) Keeps fin s₁ ∧ Running idx Reads (next v) s₁ ∧
      InTick w idx [cond, .main fn b args] out s s₁ b := by
  have h₀ : AtTest idx Reads v (out 0 s) := h.elsewhere hcounts hout
  obtain ⟨s₁, hfirst, hactive, hinit, hstate, hreads, hun₁⟩ :=
    first_call_tests htree hcounts hrefl h₀
  obtain ⟨s₂, htest, hreads₂⟩ := hcounts.test s₁ v hreads
  have hcall := while_tests w (cond.kid w) (Node.kid w (.main fn b args)) idx
    s₁.event_id hstate
  rw [htest, hok, Option.bind_some] at hcall
  have hinvoke := invoke_loop h₀.active hfirst
  have hkids : Node.kids w [cond, .main fn b args] = [cond.kid w, Node.kid w (.main fn b args)] := rfl
  rw [hkids, hcall] at hinvoke
  have hnode : ((Node.kid w (.main fn b args)).resetRecursive s₂).nodes idx = s₁.nodes idx := by
    rw [((kid_within w (.main fn b args)).resetRecursive s₂).nodes idx htree.off_body,
      ((kid_within w cond).invokePred _ _ _ htest).nodes idx htree.off_cond]
  refine ⟨inState idx SE_WHILE_STATE_RUN_BODY ((Node.kid w (.main fn b args)).resetRecursive s₂),
    hbody s₂ _ (inState_change htree.off_body _ _), ⟨?_, ?_, ?_, ?_⟩, ?_, _, hinvoke⟩
  · rw [inState_node, hnode]
    exact hactive
  · rw [inState_node, hnode]
    exact hinit
  · rw [inState_node]
    rfl
  · exact hcounts.own hrefl (inState_change htree.off_cond _ _) rfl
      (hcounts.body.resetRecursive s₂ _ hreads₂)
  · have hb : b ∉ cond.indices := fun hm => htree.apart b hm (by simp [Node.indices])
    have hun₂ : Unticked b s₁ s₂ := ((kid_within w cond).invokePred _ _ _ htest).unticked hb
    have hreset : Unticked b s₂ (inState idx SE_WHILE_STATE_RUN_BODY
        ((Node.kid w (.main fn b args)).resetRecursive s₂)) :=
      congrArg (answers b) (reset_log _ s₂)
    have hall := hun₁.trans (hun₂.trans hreset)
    exact (completions_of_unticked hall).trans (elsewhere_completions hout 0 s)

/-! ## The whole loop -/

/-- The body completes as often as the test is met. -/
theorem loop_reports (hbody : Completes w (.main fn b args) Keeps fun r => completing r = true) (k : Nat) :
    ∀ (v : V) (out : Nat → Eng E → Eng E) (s : Eng E),
      Elsewhere (Node.indices (.main .se_while idx [cond, .main fn b args])) Keeps out →
      AtTest idx Reads v s →
      (Reports w (.main .se_while idx [cond, .main fn b args]) b out s k ↔
        LeavesAfter next ok k (next v)) := by
  induction k with
  | zero =>
    intro v out s hout h
    cases hok : ok (next v) with
    | false => simp [test_fails htree hcounts hrefl hout h hok, LeavesAfter, hok]
    | true =>
      obtain ⟨s₁, hc, hrunning, htick⟩ := test_meets htree hcounts hrefl hbody hout h hok
      obtain ⟨out', s', -, -, hreports⟩ :=
        body_completes htree hcounts hrefl hc out s hout hrunning htick
      simp only [hreports, LeavesAfter, hok, reduceCtorEq, iff_false]
      rintro ⟨k', hk', -⟩
      omega
  | succ k ih =>
    intro v out s hout h
    cases hok : ok (next v) with
    | false => simp [test_fails htree hcounts hrefl hout h hok, LeavesAfter, hok]
    | true =>
      obtain ⟨s₁, hc, hrunning, htick⟩ := test_meets htree hcounts hrefl hbody hout h hok
      obtain ⟨out', s', hout', htest, hreports⟩ :=
        body_completes htree hcounts hrefl hc out s hout hrunning htick
      have hrest := ih (next v) out' s' hout' htest
      simp only [hreports, LeavesAfter, hok, true_and, ← hrest]
      constructor
      · rintro ⟨k', hk', hrun⟩
        obtain rfl : k = k' := by omega
        exact hrun
      · intro hrun
        exact ⟨k, Nat.add_comm k 1, hrun⟩

/-- A loop over a body that answers SE_DISABLE reports only when it never enters the body. -/
theorem loop_disables (hbody : Completes w (.main fn b args) Keeps (· = SE_DISABLE))
    (hout : Elsewhere (Node.indices (.main .se_while idx [cond, .main fn b args])) Keeps out)
    (h : AtTest idx Reads v s) (k : Nat) :
    Reports w (.main .se_while idx [cond, .main fn b args]) b out s k ↔
      k = 0 ∧ LeavesAfter next ok k (next v) := by
  cases hok : ok (next v) with
  | false =>
    rw [test_fails htree hcounts hrefl hout h hok]
    constructor
    · rintro rfl
      exact ⟨rfl, hok⟩
    · exact And.left
  | true =>
    obtain ⟨s₁, hc, hrunning, htick⟩ := test_meets htree hcounts hrefl hbody hout h hok
    have hnever := body_disables htree hcounts hrefl hc out s hout hrunning htick k
    refine ⟨fun hreports => absurd hreports hnever, ?_⟩
    rintro ⟨rfl, hleaves⟩
    rw [LeavesAfter, hok] at hleaves
    cases hleaves

end

/-! ## The two counters -/

/-- The count that the node of the predicate keeps. A node that was reset keeps none. -/
def kept_count (p : Nat) (s : Eng E) : Nat :=
  if (s.nodes p).initialized then (s.nodes p).data.user_data else 0

theorem kept_count_of_node {p : Nat} {s : Eng E} (h : s'.nodes p = s.nodes p) :
    kept_count p s' = kept_count p s := by
  simp [kept_count, h]

/-- What the test leaves in its node. -/
def counted (count : Nat) (st : NodeState) : NodeState :=
  { st with initialized := true, data := { st.data with user_data := count } }

theorem state_test {increment limit : Nat} (hi : increment < 65536) (hl : limit < 65536)
    (st : NodeState) : se_state_increment_and_test [.int increment, .int limit] st =
      let count := ((if st.initialized then st.data.user_data else 0) + increment) % 65536
      (decide (count ≤ limit), counted count st) := by
  have hi' : ((increment : Int) % 65536).toNat = increment := by omega
  have hl' : ((limit : Int) % 65536).toNat = limit := by omega
  obtain ⟨active, initialized, ever_init, data⟩ := st
  simp only [se_state_increment_and_test, hi', hl']
  cases initialized with
  | true => rfl
  | false => rfl

theorem field_test (board : Blackboard E) {f increment_field limit_field : Nat}
    (hi : increment_field ≠ f) (hl : limit_field ≠ f) (st : NodeState) (env : E) :
    ∃ env', se_field_increment_and_test board
        [.field f, .field increment_field, .field limit_field] st env =
      (decide ((if st.initialized then board.get f env else 0) + board.get increment_field env ≤
        board.get limit_field env), { st with initialized := true }, env') ∧
      board.get f env' =
        (if st.initialized then board.get f env else 0) + board.get increment_field env ∧
      board.get increment_field env' = board.get increment_field env ∧
      board.get limit_field env' = board.get limit_field env := by
  obtain ⟨active, initialized, ever_init, data⟩ := st
  cases initialized with
  | true =>
    refine ⟨board.put f (board.get f env + board.get increment_field env) env, ?_, ?_, ?_, ?_⟩
    · simp [se_field_increment_and_test, board.get_put, board.get_other, hl]
    · simp [board.get_put]
    · exact board.get_other _ _ _ _ hi
    · exact board.get_other _ _ _ _ hl
  | false =>
    refine ⟨board.put f (0 + board.get increment_field env) (board.put f 0 env), ?_, ?_, ?_, ?_⟩
    · simp [se_field_increment_and_test, board.get_put, board.get_other, hi, hl]
    · simp [board.get_put]
    · rw [board.get_other _ _ _ _ hi, board.get_other _ _ _ _ hi]
    · rw [board.get_other _ _ _ _ hl, board.get_other _ _ _ _ hl]

section

variable {p id : Nat} {Keeps : E → E → Prop}

theorem state_counts (Keeps : E → E → Prop) {increment limit : Nat} (hi : increment < 65536) (hl : limit < 65536)
    (hp : p ∉ (Node.main fn b args).indices)
    (hcounter : ∀ event_id st env, w.counter id event_id st env =
      ((se_state_increment_and_test [.int increment, .int limit] st).1,
        (se_state_increment_and_test [.int increment, .int limit] st).2, env)) :
    Counts w (.pred (.counter id) p [.int increment, .int limit]) (.main fn b args) Keeps
      (fun v => (v + increment) % 65536) (fun v => decide (v ≤ limit))
      (fun s v => kept_count p s = v) where
  test s v hv := by
    subst hv
    refine ⟨{ s.setNode p (counted ((kept_count p s + increment) % 65536) (s.nodes p)) with
      env := s.env }, ?_, ?_⟩
    · simp only [Node.kid, predKid, dispatch_pred, hcounter, state_test hi hl]
      rfl
    · simp [kept_count, Eng.setNode, counted]
  body := by
    refine (kid_within w (.main fn b args)).mono fun s s' h v hv => ?_
    rw [kept_count_of_node (h.nodes p hp)]
    exact hv
  elsewhere s s' v h _ hv := by
    rw [kept_count_of_node (h.nodes p (by simp [Node.indices]))]
    exact hv

/-- The fields of a counter hold these numbers. -/
structure Holds (board : Blackboard E) (p f increment_field limit_field : Nat)
    (increment limit : Int32) (s : Eng E) (v : Int32) : Prop where
  count : (if (s.nodes p).initialized then board.get f s.env else 0) = v
  increment : board.get increment_field s.env = increment
  limit : board.get limit_field s.env = limit

def SameFields (board : Blackboard E) (f increment_field limit_field : Nat) (env env' : E) : Prop :=
  board.get f env' = board.get f env ∧
    board.get increment_field env' = board.get increment_field env ∧
    board.get limit_field env' = board.get limit_field env

theorem Holds.keep {board : Blackboard E} {f increment_field limit_field : Nat}
    {increment limit v : Int32} {s s' : Eng E}
    (h : Holds board p f increment_field limit_field increment limit s v)
    (hnode : s'.nodes p = s.nodes p)
    (hfields : SameFields board f increment_field limit_field s.env s'.env) :
    Holds board p f increment_field limit_field increment limit s' v where
  count := by
    rw [hnode, hfields.1]
    exact h.count
  increment := hfields.2.1.trans h.increment
  limit := hfields.2.2.trans h.limit

theorem field_counts (board : Blackboard E)
    {f increment_field limit_field : Nat} (increment limit : Int32) (hi : increment_field ≠ f) (hl : limit_field ≠ f)
    (hp : p ∉ (Node.main fn b args).indices)
    (hcounter : ∀ event_id st env, w.counter id event_id st env = se_field_increment_and_test board
      [.field f, .field increment_field, .field limit_field] st env)
    (hbody : (Node.kid w (.main fn b args)).Respects fun s s' =>
      SameFields board f increment_field limit_field s.env s'.env)
    (hkeeps : ∀ env env', Keeps env env' → SameFields board f increment_field limit_field env env') :
    Counts w (.pred (.counter id) p [.fieldRef f, .fieldRef increment_field, .fieldRef limit_field])
      (.main fn b args) Keeps (· + increment) (fun v => decide (v ≤ limit))
      (Holds board p f increment_field limit_field increment limit) where
  test s v hv := by
    obtain ⟨env', htest, hcount, hincr, hlimit⟩ := field_test board hi hl (s.nodes p) s.env
    rw [hv.count, hv.increment] at hcount
    rw [hv.count, hv.increment, hv.limit] at htest
    refine ⟨{ s.setNode p { s.nodes p with initialized := true } with env := env' }, ?_, ?_⟩
    · simp only [Node.kid, predKid, dispatch_pred, hcounter, htest]
    · refine ⟨?_, hincr.trans hv.increment, hlimit.trans hv.limit⟩
      simp only [Eng.setNode, if_true]
      exact hcount
  body := by
    have hwithin := kid_within w (.main fn b args)
    have hboth : (Node.kid w (.main fn b args)).Respects fun s s' => s'.nodes p = s.nodes p ∧
        SameFields board f increment_field limit_field s.env s'.env :=
      ⟨fun s r s' h => ⟨(hwithin.invoke s r s' h).nodes p hp, hbody.invoke s r s' h⟩,
        fun s b s' h => ⟨(hwithin.invokePred s b s' h).nodes p hp, hbody.invokePred s b s' h⟩,
        fun s s' h => ⟨(hwithin.terminate s s' h).nodes p hp, hbody.terminate s s' h⟩,
        fun s => ⟨(hwithin.reset s).nodes p hp, hbody.reset s⟩,
        fun s => ⟨(hwithin.resetRecursive s).nodes p hp, hbody.resetRecursive s⟩⟩
    exact hboth.mono fun s s' h v hv => hv.keep h.1 h.2
  elsewhere s s' v h hk hv := hv.keep (h.nodes p (by simp [Node.indices])) (hkeeps _ _ hk)

/-! ## How often the body runs -/

/-- A body completes by a code of the pipeline, or by the SE_DISABLE of the application. -/
inductive Ending where
  | pipeline
  | application
deriving DecidableEq

def Ending.answers : Ending → Result → Prop
  | .pipeline, r => completing r = true
  | .application, r => r = SE_DISABLE

section

variable {V : Type} {next : V → V} {ok : V → Bool} {Reads : Eng E → V → Prop} {v : V}
variable {ending : Ending} {out : Nat → Eng E → Eng E} {s : Eng E}

/-- The loop reports after `k` rounds that leave it. A body that ends at the application
ends no round. -/
theorem loop_reports_iff (htree : LoopTree idx b cond fn args)
    (hcounts : Counts w cond (.main fn b args) Keeps next ok Reads) (hrefl : ∀ env, Keeps env env)
    (hbody : Completes w (.main fn b args) Keeps ending.answers)
    (hout : Elsewhere (Node.indices (.main .se_while idx [cond, .main fn b args])) Keeps out)
    (hactive : (s.nodes idx).active = true) (hnew : (s.nodes idx).initialized = false)
    (hreads : Reads s v) (k : Nat) :
    Reports w (.main .se_while idx [cond, .main fn b args]) b out s k ↔
      (ending = .pipeline ∨ k = 0) ∧ LeavesAfter next ok k (next v) := by
  have htest : AtTest idx Reads v s := by
    refine ⟨hactive, fun hinit => ?_, hreads⟩
    rw [hnew] at hinit
    exact nomatch hinit
  cases ending with
  | pipeline =>
    rw [loop_reports htree hcounts hrefl hbody k v out s hout htest]
    simp
  | application =>
    rw [loop_disables htree hcounts hrefl hbody hout htest]
    simp

theorem state_loop_iff {increment limit : Nat} {params : List ArgKind}
    (hparams : state_increment_params increment limit = .ok params)
    (hcounter : ∀ event_id st env, w.counter id event_id st env =
      ((se_state_increment_and_test params st).1, (se_state_increment_and_test params st).2, env))
    (hnodup : (Node.indices (.main .se_while idx
      [.pred (.counter id) p [.int increment, .int limit], .main fn b args])).Nodup)
    (hrefl : ∀ env, Keeps env env) (hbody : Completes w (.main fn b args) Keeps ending.answers)
    (hout : Elsewhere (Node.indices (.main .se_while idx
      [.pred (.counter id) p [.int increment, .int limit], .main fn b args])) Keeps out)
    (hactive : (s.nodes idx).active = true) (hnew : (s.nodes idx).initialized = false) :
    Reports w (.main .se_while idx
        [.pred (.counter id) p [.int increment, .int limit], .main fn b args]) b out s
        (limit / increment) ↔
      (ending = .pipeline ∨ limit < increment) ∧
        PassesLimit 65536 increment limit ((kept_count p s + increment) % 65536 : Nat)
          (limit / increment) := by
  have htree := loop_tree hnodup
  have hp : p ∉ (Node.main fn b args).indices := htree.apart p (by simp [Node.indices])
  unfold state_increment_params at hparams
  split at hparams
  · exact nomatch hparams
  rename_i hi
  split at hparams
  · exact nomatch hparams
  rename_i hl
  cases hparams
  have hpos : 0 < increment := by omega
  have hcounts := state_counts Keeps (by omega) (by omega) hp hcounter
  rw [loop_reports_iff htree hcounts hrefl hbody hout hactive hnew rfl]
  have hrange : (kept_count p s + increment) % 65536 < 65536 := Nat.mod_lt _ (by omega)
  have hleaves : LeavesAfter (fun v => (v + increment) % 65536) (fun v => decide (v ≤ limit))
      (limit / increment) ((kept_count p s + increment) % 65536) ↔
      LeavesAfter (advance 0 65536 increment) (within limit) (limit / increment)
        ((kept_count p s + increment) % 65536 : Nat) := by
    refine leaves_map (V := Nat) (P := fun v => v < 65536) (fun v => (v : Int))
      (fun v _ => ?_) (fun v hv => ?_) (fun v => ?_) hrange
    · exact Nat.mod_lt _ (by omega)
    · unfold advance
      split <;> omega
    · simp [within]
  have hk : ((limit / increment : Nat) : Int) * increment ≤ limit := by
    exact_mod_cast Nat.div_mul_le_self limit increment
  have hzero : limit / increment = 0 ↔ limit < increment := by
    rw [Nat.div_eq_zero_iff]
    omega
  rw [hleaves, hzero, leaves_iff (Int.le_refl 0) (by omega) (by omega) hk ⟨by omega, by omega⟩]
  rfl

theorem int32_advance {increment : Int32} (h : 0 < increment.toInt) (v : Int32) :
    (v + increment).toInt = advance (-2147483648) 4294967296 increment.toInt v.toInt := by
  have hv := v.le_toInt
  have hv' := v.toInt_lt
  have hi := increment.toInt_lt
  have hsum : (v + increment).toInt = (v.toInt + increment.toInt).bmod 4294967296 :=
    Int32.toInt_add v increment
  rw [hsum]
  unfold advance Int.bmod
  dsimp only
  split <;> split <;> omega

theorem field_loop_iff (board : Blackboard E) {f increment_field limit_field : Nat}
    (hi : increment_field ≠ f) (hl : limit_field ≠ f)
    (hpos : 0 < (board.get increment_field s.env).toInt)
    (hlimit : 0 ≤ (board.get limit_field s.env).toInt)
    (hcounter : ∀ event_id st env, w.counter id event_id st env = se_field_increment_and_test board
      [.field f, .field increment_field, .field limit_field] st env)
    (hfields : (Node.kid w (.main fn b args)).Respects fun s s' =>
      SameFields board f increment_field limit_field s.env s'.env)
    (hkeeps : ∀ env env', Keeps env env' → SameFields board f increment_field limit_field env env')
    (hnodup : (Node.indices (.main .se_while idx [.pred (.counter id) p
      [.fieldRef f, .fieldRef increment_field, .fieldRef limit_field], .main fn b args])).Nodup)
    (hrefl : ∀ env, Keeps env env) (hbody : Completes w (.main fn b args) Keeps ending.answers)
    (hout : Elsewhere (Node.indices (.main .se_while idx [.pred (.counter id) p
      [.fieldRef f, .fieldRef increment_field, .fieldRef limit_field], .main fn b args])) Keeps out)
    (hactive : (s.nodes idx).active = true) (hnew : (s.nodes idx).initialized = false) :
    Reports w (.main .se_while idx [.pred (.counter id) p
        [.fieldRef f, .fieldRef increment_field, .fieldRef limit_field], .main fn b args]) b out s
        ((board.get limit_field s.env).toInt / (board.get increment_field s.env).toInt).toNat ↔
      (ending = .pipeline ∨
          (board.get limit_field s.env).toInt < (board.get increment_field s.env).toInt) ∧
        PassesLimit 2147483648 (board.get increment_field s.env).toInt
          (board.get limit_field s.env).toInt
          ((if (s.nodes p).initialized then board.get f s.env else 0) +
            board.get increment_field s.env).toInt
          ((board.get limit_field s.env).toInt / (board.get increment_field s.env).toInt).toNat := by
  have htree := loop_tree hnodup
  have hp : p ∉ (Node.main fn b args).indices := htree.apart p (by simp [Node.indices])
  have hcounts := field_counts board (board.get increment_field s.env)
    (board.get limit_field s.env) hi hl hp hcounter hfields hkeeps
  rw [loop_reports_iff htree hcounts hrefl hbody hout hactive hnew ⟨rfl, rfl, rfl⟩]
  generalize board.get increment_field s.env = increment at *
  generalize board.get limit_field s.env = limit at *
  generalize (if (s.nodes p).initialized then board.get f s.env else 0) + increment = first
  have hleaves : LeavesAfter (· + increment) (fun v => decide (v ≤ limit))
      (limit.toInt / increment.toInt).toNat first ↔
      LeavesAfter (advance (-2147483648) 4294967296 increment.toInt) (within limit.toInt)
        (limit.toInt / increment.toInt).toNat first.toInt :=
    leaves_map (P := fun _ => True) Int32.toInt (fun _ _ => trivial)
      (fun v _ => int32_advance hpos v)
      (fun v => by simp only [within, Int32.le_iff_toInt_le]) trivial
  have hdiv : 0 ≤ limit.toInt / increment.toInt := Int.ediv_nonneg hlimit hpos.le
  have hk : ((limit.toInt / increment.toInt).toNat : Int) * increment.toInt ≤ limit.toInt := by
    rw [Int.toNat_of_nonneg hdiv]
    exact Int.ediv_mul_le _ hpos.ne'
  have hzero : (limit.toInt / increment.toInt).toNat = 0 ↔ limit.toInt < increment.toInt := by
    rw [Int.toNat_eq_zero]
    constructor
    · intro hle
      by_contra hge
      have := Int.ediv_le_ediv hpos (Int.not_lt.mp hge)
      rw [Int.ediv_self hpos.ne'] at this
      omega
    · intro hlt
      rw [Int.ediv_eq_zero_of_lt hlimit hlt]
  have hlt := increment.toInt_lt
  have hrange : -2147483648 ≤ first.toInt ∧ first.toInt < -2147483648 + 4294967296 :=
    ⟨first.le_toInt, first.toInt_lt⟩
  rw [hleaves, hzero, leaves_iff (by decide) hpos (by omega) hk hrange]
  rfl

end

end

end

/-- The loop reports after limit / increment rounds exactly when the counter passes the limit
within its range, and when a body that is entered does not end at the application. -/
theorem counted_loop_reports_iff {w : World E} {idx p id b : Nat} {fn : MainFn} {args : List Node}
    {Keeps : E → E → Prop} {ending : Ending} {out : Nat → Eng E → Eng E} {s : Eng E}
    (hrefl : ∀ env, Keeps env env) (hbody : Completes w (.main fn b args) Keeps ending.answers)
    (hactive : (s.nodes idx).active = true) (hnew : (s.nodes idx).initialized = false) :
    (∀ (increment limit : Nat) (params : List ArgKind),
      state_increment_params increment limit = .ok params →
      (∀ event_id st env, w.counter id event_id st env =
        ((se_state_increment_and_test params st).1, (se_state_increment_and_test params st).2, env)) →
      ∀ loop, loop = Node.main .se_while idx
        [.pred (.counter id) p [.int increment, .int limit], .main fn b args] →
      loop.indices.Nodup → Elsewhere loop.indices Keeps out →
      (Reports w loop b out s (limit / increment) ↔
        (ending = .pipeline ∨ limit < increment) ∧
          PassesLimit 65536 increment limit ((kept_count p s + increment) % 65536 : Nat)
            (limit / increment))) ∧
    (∀ (board : Blackboard E) (f increment_field limit_field : Nat),
      increment_field ≠ f → limit_field ≠ f → 0 < (board.get increment_field s.env).toInt →
      0 ≤ (board.get limit_field s.env).toInt →
      (∀ event_id st env, w.counter id event_id st env = se_field_increment_and_test board
        [.field f, .field increment_field, .field limit_field] st env) →
      (Node.kid w (.main fn b args)).Respects (fun s s' =>
        SameFields board f increment_field limit_field s.env s'.env) →
      (∀ env env', Keeps env env' → SameFields board f increment_field limit_field env env') →
      ∀ loop, loop = Node.main .se_while idx [.pred (.counter id) p
        [.fieldRef f, .fieldRef increment_field, .fieldRef limit_field], .main fn b args] →
      loop.indices.Nodup → Elsewhere loop.indices Keeps out →
      (Reports w loop b out s
          ((board.get limit_field s.env).toInt / (board.get increment_field s.env).toInt).toNat ↔
        (ending = .pipeline ∨
            (board.get limit_field s.env).toInt < (board.get increment_field s.env).toInt) ∧
          PassesLimit 2147483648 (board.get increment_field s.env).toInt
            (board.get limit_field s.env).toInt
            ((if (s.nodes p).initialized then board.get f s.env else 0) +
              board.get increment_field s.env).toInt
            ((board.get limit_field s.env).toInt / (board.get increment_field s.env).toInt).toNat)) := by
  refine ⟨?_, ?_⟩
  · rintro increment limit params hparams hcounter loop rfl hnodup hout
    exact state_loop_iff hparams hcounter hnodup hrefl hbody hout hactive hnew
  · rintro board f increment_field limit_field hi hl hpos hlimit hcounter hfields hkeeps loop rfl
      hnodup hout
    exact field_loop_iff board hi hl hpos hlimit hcounter hfields hkeeps hnodup hrefl hbody hout
      hactive hnew

/-! ## Two loops -/

/-- A blackboard that is nothing but its fields. -/
def plain_board : Blackboard (Nat → Int32) where
  get f env := env f
  put f v env g := if g = f then v else env g
  get_put f v env := by simp
  get_other f g v env h := by simp [h]

/-- The body is done at once. -/
def counting (increment limit : Nat) : World (Nat → Int32) where
  fuel := 1
  main _ _ _ d env := (SE_PIPELINE_DISABLE, d, env)
  oneshot _ _ env := env
  test _ _ env := (true, env)
  counter id _ st env :=
    if id = 0 then
      ((se_state_increment_and_test [.int increment, .int limit] st).1,
        (se_state_increment_and_test [.int increment, .int limit] st).2, env)
    else se_field_increment_and_test plain_board [.field 0, .field 1, .field 2] st env
  field f env := (env f).toInt

variable (increment limit : Nat)

theorem quick_body_invoked {s : Eng (Nat → Int32)} (h : (s.nodes 2).active = true) :
    ((Node.kid (counting increment limit) (.main (.leaf 0) 2 [])).invoke s).map (fun a => (a.1, a.2.env)) =
      some (SE_PIPELINE_DISABLE, s.env) := by
  change (dispatch_main (counting increment limit) (.leaf 0) 2 [] s).map _ = _
  cases hinit : (s.nodes 2).initialized with
  | true =>
    simp only [dispatch_main, h, first_call, hinit]
    rfl
  | false =>
    simp only [dispatch_main, h, first_call, hinit]
    rfl

theorem quick_body_completes {Keeps : (Nat → Int32) → (Nat → Int32) → Prop} :
    Completes (counting increment limit) (.main (.leaf 0) 2 []) Keeps Ending.pipeline.answers := by
  intro s s' h
  have hactive : (s'.nodes 2).active = true := by
    rw [h.nodes 2 (by simp [Node.indices])]
    change ((s.resetMain 2).nodes 2).active = true
    unfold Eng.resetMain
    dsimp only
    split <;> simp [Eng.resetNode, Eng.setNode]
  obtain ⟨⟨r, s₁⟩, hinvoke, heq⟩ := Option.map_eq_some_iff.mp (quick_body_invoked increment limit hactive)
  have hr : r = SE_PIPELINE_DISABLE := congrArg Prod.fst heq
  exact .done hinvoke (by rw [hr]; rfl)

theorem quick_body_keeps : (Node.kid (counting increment limit) (.main (.leaf 0) 2 [])).Respects
    fun s s' => SameFields plain_board 0 1 2 s.env s'.env := by
  have hreset : ∀ s : Eng (Nat → Int32), (s.resetMain 2).env = s.env := by
    intro s
    unfold Eng.resetMain
    dsimp only
    split <;> rfl
  have hsame : (Node.kid (counting increment limit) (.main (.leaf 0) 2 [])).Respects
      fun s s' => s'.env = s.env := by
    refine ⟨fun s r s' h => ?_, fun s b s' h => ?_, fun s s' h => ?_, hreset, hreset⟩
    · cases hact : (s.nodes 2).active with
      | true =>
        have henv := quick_body_invoked increment limit hact
        rw [h] at henv
        exact congrArg Prod.snd (Option.some.inj henv)
      | false =>
        rcases dispatch_main_cases h with ⟨-, -, rfl⟩ | ⟨hact', -⟩
        · rfl
        · rw [hact] at hact'
          exact nomatch hact'
    · cases h
      rfl
    · rcases terminate_cases h with ⟨-, rfl⟩ | ⟨-, r, s₁, hcall, rfl⟩
      · rfl
      · cases hcall
        rfl
  refine hsame.mono fun s s' h => ?_
  rw [h]
  exact ⟨rfl, rfl, rfl⟩

def state_loop (increment limit : Nat) : Node :=
  .main .se_while 0 [.pred (.counter 0) 1 [.int increment, .int limit], .main (.leaf 0) 2 []]

def field_loop : Node :=
  .main .se_while 0 [.pred (.counter 1) 1 [.fieldRef 0, .fieldRef 1, .fieldRef 2], .main (.leaf 0) 2 []]

def five_fields (f : Nat) : Int32 := if f = 1 then 1 else if f = 2 then 5 else 0

theorem five_rounds :
    Reports (counting 1 5) (state_loop 1 5) 2 (fun _ s => s) (createdState five_fields) 5 ∧
      Reports (counting 1 5) field_loop 2 (fun _ s => s) (createdState five_fields) 5 := by
  have hsame : ∀ ns, Elsewhere ns (· = ·) fun (_ : Nat) (s : Eng (Nat → Int32)) => s := fun ns =>
    ⟨fun _ _ => ⟨fun _ _ => rfl, Adds.refl _⟩, fun _ _ => rfl⟩
  constructor
  · refine ((@counted_loop_reports_iff _ _ _ 1 0 _ _ _ _ _ _ _ (fun _ => rfl) (quick_body_completes 1 5)
      rfl rfl).1 1 5 _ rfl (fun _ _ _ => rfl) (state_loop 1 5) rfl (by decide) (hsame _)).mpr ?_
    exact ⟨Or.inl rfl, by constructor <;> decide⟩
  · refine ((@counted_loop_reports_iff _ _ _ 1 1 _ _ _ _ _ _ _ (fun _ => rfl) (quick_body_completes 1 5)
      rfl rfl).2 plain_board 0 1 2 (by decide) (by decide) (by decide) (by decide) (fun _ _ _ => rfl)
      (quick_body_keeps 1 5) (fun _ _ h => ?_) field_loop rfl (by decide) (hsame _)).mpr ?_
    · rw [h]
      exact ⟨rfl, rfl, rfl⟩
    · exact ⟨Or.inl rfl, by constructor <;> decide⟩

/-- With the limit 65535 the 16 bits of the count never pass it. -/
theorem largest_limit_never_reports : ¬ ∀ increment limit : Nat, 1 ≤ increment → increment ≤ 65535 →
    limit ≤ 65535 → Reports (counting increment limit) (state_loop increment limit) 2
      (fun _ s => s) (createdState five_fields) (limit / increment) := by
  intro hall
  have hout : Elsewhere (state_loop 1 65535).indices (· = ·)
      fun (_ : Nat) (s : Eng (Nat → Int32)) => s :=
    ⟨fun _ _ => ⟨fun _ _ => rfl, Adds.refl _⟩, fun _ _ => rfl⟩
  have hparams : state_increment_params (1 : Nat) (65535 : Nat) =
      .ok [.int (1 : Nat), .int (65535 : Nat)] := rfl
  have hreports := hall 1 65535 (by decide) (by decide) (by decide)
  have hpasses := (state_loop_iff hparams (fun _ _ _ => rfl) (by decide) (fun _ => rfl)
    (quick_body_completes 1 65535) hout rfl rfl).mp hreports
  exact absurd hpasses.2.inside (by decide)

end motioncore.engine
