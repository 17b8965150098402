-- Whole activations of the parallel composites. Every round serves the children as it should,
-- and the node reports its completion with the first round that leaves no main child active.
-- A oneshot or a predicate runs once when its run marks its node.
import Mathlib.Algebra.GroupWithZero.Nat
import MotionCore.Engine.Forks
import MotionCore.Engine.Activations
import Mathlib.Data.Nat.Find

namespace motioncore.engine

open EventType

variable {E : Type}

/-! ## A tick -/

inductive Parallel : MainFn → Prop where
  | se_fork : Parallel .se_fork
  | se_fork_join : Parallel .se_fork_join

/-- The node is ready for a round. Only `se_fork` keeps a state of its own. -/
def InRound (fn : MainFn) (idx : Nat) (s : Eng E) : Prop :=
  fn = .se_fork → (s.nodes idx).data.state = FORK_STATE_RUNNING

section

variable {w : World E} {fn : MainFn} {idx : Nat} {args : List Node} {s s' : Eng E} {r : Result}

theorem Round.own (hidx : idx ∉ Node.indicesAll args) {js : List Nat} {cs : List (Call E)}
    (h : Round w args js s cs s') : s'.nodes idx = s.nodes idx := by
  have hout : ∀ {j : Nat} {t : Node}, args[j]? = some t → idx ∉ t.indices := fun hj hm =>
    hidx (mem_indicesAll (List.mem_of_getElem? hj) hm)
  induction h with
  | nil => rfl
  | cons h _ ih =>
    refine ih.trans ?_
    cases h with
    | idle => rfl
    | aside ht _ _ hk => exact ((kid_within w _).invoke _ _ _ hk).nodes idx (hout ht)
    | stays ht _ hk _ => exact ((kid_within w _).invoke _ _ _ hk).nodes idx (hout ht)
    | ends ht _ hk _ hterm =>
      rw [((kid_within w _).terminate _ _ hterm).nodes idx (hout ht),
        ((kid_within w _).invoke _ _ _ hk).nodes idx (hout ht)]
    | restarts ht _ hk hterm =>
      rw [((kid_within w _).resetRecursive _).nodes idx (hout ht),
        ((kid_within w _).terminate _ _ hterm).nodes idx (hout ht),
        ((kid_within w _).invoke _ _ _ hk).nodes idx (hout ht)]
  | skips ht _ hk => exact ((kid_within w _).invoke _ _ _ hk).nodes idx (hout ht)

/-- The loop over the children is a round, and what comes after it invokes none. -/
theorem round_of_loop {own : NodeData → E → Result × NodeData × E} {tail : Option Result → Prog Result}
    (htail : ∀ out, Silent (tail out)) {js : List Nat}
    (hrun : runProg w (Node.kids w args) idx own (fork_loop (args.map Node.kind) js >>= tail) s =
      some (r, s'))
    (hhandled : ∀ c ∈ calls w (Node.kids w args) idx own (fork_loop (args.map Node.kind) js >>= tail) s,
      isMain (args.map Node.kind) c.child = true → handled c.answer) : ∃ s₁, Round w args js s
        (calls w (Node.kids w args) idx own (fork_loop (args.map Node.kind) js >>= tail) s) s₁ ∧
      runProg w (Node.kids w args) idx own (tail none) s₁ = some (r, s') := by
  have hcalls : calls w (Node.kids w args) idx own (fork_loop (args.map Node.kind) js >>= tail) s =
      calls w (Node.kids w args) idx own (fork_loop (args.map Node.kind) js) s := by
    rw [calls_bind]
    split
    · exact List.append_nil _
    · rw [silent_calls (htail _), List.append_nil]
  rw [hcalls] at hhandled ⊢
  rw [runProg_bind, Option.bind_eq_some_iff] at hrun
  obtain ⟨⟨out, s₁⟩, hloop, hrest⟩ := hrun
  obtain ⟨rfl, hround⟩ := fork_loop_round js s out s₁ hloop hhandled
  exact ⟨s₁, hround, hrest⟩

end

/-- What `se_fork` does after the loop. -/
def fork_tail (args : List Node) : Option Result → Prog Result
  | some r => .ret r
  | none => active_main_count (args.map Node.kind) (List.range args.length) >>= fun n =>
    if n = 0 then s_expr_set_state FORK_STATE_COMPLETE >>= fun _ => .ret SE_PIPELINE_DISABLE
    else .ret SE_PIPELINE_CONTINUE

/-- What `se_fork_join` does after the loop. -/
def fork_join_tail (args : List Node) : Option Result → Prog Result
  | some r => .ret r
  | none => active_main_count (args.map Node.kind) (List.range args.length) >>= fun n =>
    if n = 0 then .ret SE_PIPELINE_DISABLE else .ret SE_FUNCTION_HALT

section

variable {w : World E} {fn : MainFn} {idx : Nat} {args : List Node} {s s' : Eng E} {r : Result}

theorem silent_fork_tail (out : Option Result) : Silent (fork_tail args out) := by
  cases out with
  | some r => trivial
  | none =>
    refine (silent_active_main_count _).andThen fun n => ?_
    split
    · exact (silent_set_state _).andThen fun _ => trivial
    · trivial

theorem silent_fork_join_tail (out : Option Result) : Silent (fork_join_tail args out) := by
  cases out with
  | some r => trivial
  | none =>
    refine (silent_active_main_count _).andThen fun n => ?_
    split
    · trivial
    · trivial

theorem fork_program (fuel event_id : Nat) :
    mainProg fuel .se_fork (args.map Node.kind) event_id SE_EVENT_TICK = .getData fun d =>
      if d.state ≠ FORK_STATE_RUNNING then .ret SE_PIPELINE_DISABLE
      else fork_loop (args.map Node.kind) (List.range args.length) >>= fork_tail args := by
  simp only [mainProg, se_fork, List.length_map]
  refine congrArg Prog.getData (funext fun d => ?_)
  refine congrArg (ite _ _) (congrArg (bind _) (funext fun out => ?_))
  cases out with
  | some r => rfl
  | none =>
    simp only [fork_tail]
    rfl

theorem fork_join_program (fuel event_id : Nat) :
    mainProg fuel .se_fork_join (args.map Node.kind) event_id SE_EVENT_TICK =
      fork_loop (args.map Node.kind) (List.range args.length) >>= fork_join_tail args := by
  simp only [mainProg, se_fork_join, List.length_map]
  refine congrArg (bind _) (funext fun out => ?_)
  cases out with
  | some r => rfl
  | none =>
    simp only [fork_join_tail]
    rfl

theorem tick_round (hfn : Parallel fn) (hidx : idx ∉ Node.indicesAll args) (hstate : InRound fn idx s)
    (hcall : callMain w fn idx (Node.kids w args) s.event_id SE_EVENT_TICK s = some (r, s'))
    (hhandled : ∀ c ∈ tickCalls w fn idx args s,
      isMain (args.map Node.kind) c.child = true → handled c.answer) :
    ∃ s₁, Round w args (List.range args.length) s (tickCalls w fn idx args s) s₁ ∧
      (∀ n, n ≠ idx → s'.nodes n = s₁.nodes n) ∧
      (r = SE_PIPELINE_DISABLE ↔ ∀ j, activeMain args s₁ j = false) ∧
      (r ≠ SE_PIPELINE_DISABLE → s'.nodes idx = s.nodes idx) := by
  unfold callMain at hcall
  rw [kids_kinds] at hcall
  unfold tickCalls at hhandled ⊢
  cases hfn with
  | se_fork =>
    have hrunning := hstate rfl
    rw [fork_program] at hcall hhandled ⊢
    simp only [runProg, calls, hrunning, ne_eq, not_true_eq_false, if_false] at hcall hhandled ⊢
    obtain ⟨s₁, hround, hrest⟩ := round_of_loop silent_fork_tail hcall hhandled
    refine ⟨s₁, hround, ?_⟩
    simp only [fork_tail, runProg_bind, active_count_run, Option.bind_some] at hrest
    by_cases hnone : ∀ j, activeMain args s₁ j = false
    · rw [if_pos (no_active_iff.mpr hnone)] at hrest
      cases hrest
      refine ⟨fun n hn => ?_, ⟨fun _ => hnone, fun _ => rfl⟩, fun hr => absurd rfl hr⟩
      simp [Eng.setData, Eng.setNode, hn]
    · rw [if_neg fun h => hnone (no_active_iff.mp h)] at hrest
      cases hrest
      exact ⟨fun _ _ => rfl, ⟨fun h => (by cases h), fun h => absurd h hnone⟩, fun _ => hround.own hidx⟩
  | se_fork_join =>
    rw [fork_join_program] at hcall hhandled ⊢
    obtain ⟨s₁, hround, hrest⟩ := round_of_loop silent_fork_join_tail hcall hhandled
    refine ⟨s₁, hround, ?_⟩
    simp only [fork_join_tail, runProg_bind, active_count_run, Option.bind_some] at hrest
    by_cases hnone : ∀ j, activeMain args s₁ j = false
    · rw [if_pos (no_active_iff.mpr hnone)] at hrest
      cases hrest
      exact ⟨fun _ _ => rfl, ⟨fun _ => hnone, fun _ => rfl⟩, fun hr => absurd rfl hr⟩
    · rw [if_neg fun h => hnone (no_active_iff.mp h)] at hrest
      cases hrest
      exact ⟨fun _ _ => rfl, ⟨fun h => (by cases h), fun h => absurd h hnone⟩, fun _ => hround.own hidx⟩

end

/-! ## The first call -/

section

variable {w : World E} {idx : Nat} {args : List Node}
variable (js : List Nat) (s : Eng E)

theorem reset_all_run {own : NodeData → E → Result × NodeData × E} :
    runProg w (Node.kids w args) idx own
        (forEach js fun j => if isCall (args.map Node.kind) j then s_expr_child_reset j else pure ()) s =
      some ((), js.foldl (fun s j => (kidAt (Node.kids w args) j).reset s) s) := by
  induction js generalizing s with
  | nil => rfl
  | cons j js ih =>
    simp only [forEach, runProg_bind, List.foldl_cons]
    cases hj : isCall (args.map Node.kind) j with
    | true =>
      simp only [if_true, run_child_reset, Option.bind_some]
      exact ih _
    | false =>
      have hsame : (kidAt (Node.kids w args) j).reset s = s := by
        cases ht : args[j]? with
        | none =>
          rw [kidAt_none ht]
          rfl
        | some t =>
          rw [kidAt_some ht]
          cases t with
          | int | fieldRef | literal => rfl
          | main | oneshot | pred => simp [isCall, ht, Node.kind, ArgKind.isCall] at hj
      rw [hsame]
      exact ih s

theorem reset_within (j : Nat) (s : Eng E) : Within (Node.indicesAll args) s
    ((kidAt (Node.kids w args) j).reset s) := by
  cases ht : args[j]? with
  | none =>
    rw [kidAt_none ht]
    exact (within_follows _).refl s
  | some t =>
    rw [kidAt_some ht]
    obtain ⟨hnodes, seg, hlog, hseg⟩ := (kid_within w t).reset s
    have hmem : ∀ n ∈ t.indices, n ∈ Node.indicesAll args := fun n hn =>
      mem_indicesAll (List.mem_of_getElem? ht) hn
    exact ⟨fun n hn => hnodes n fun hm => hn (hmem n hm), seg, hlog, fun c hc => hmem _ (hseg c hc)⟩

theorem resets_within : Within (Node.indicesAll args) s
    (js.foldl (fun s j => (kidAt (Node.kids w args) j).reset s) s) := by
  induction js generalizing s with
  | nil => exact (within_follows _).refl s
  | cons j js ih => exact (within_follows _).trans _ _ _ (reset_within j s) (ih _)

/-- Resets of children leave a child that has been reset as it is. -/
theorem reset_keeps (hnodup : (Node.indicesAll args).Nodup) {j : Nat} {t : Node}
    (ht : args[j]? = some t) (hcall : t.kind.isCall = true) (i : Nat) {s : Eng E}
    (h : (s.nodes t.idx).initialized = false) :
    (((kidAt (Node.kids w args) i).reset s).nodes t.idx).initialized = false := by
  cases hi : args[i]? with
  | none =>
    rw [kidAt_none hi]
    exact h
  | some u =>
    rw [kidAt_some hi]
    by_cases hij : i = j
    · subst hij
      rw [ht] at hi
      cases hi
      rw [reset_node hcall]
    · have hout : t.idx ∉ u.indices :=
        indices_disjoint hnodup ht hi (Ne.symm hij) _ (idx_mem hcall)
      rw [((kid_within w u).reset s).nodes _ hout]
      exact h

theorem resets_node (hnodup : (Node.indicesAll args).Nodup) {j : Nat} {t : Node}
    (ht : args[j]? = some t) (hcall : t.kind.isCall = true) (js : List Nat) (s : Eng E)
    (h : j ∈ js ∨ (s.nodes t.idx).initialized = false) :
    ((js.foldl (fun s j => (kidAt (Node.kids w args) j).reset s) s).nodes t.idx).initialized = false := by
  induction js generalizing s with
  | nil => exact h.resolve_left List.not_mem_nil
  | cons i js ih =>
    rw [List.foldl_cons]
    refine ih _ ?_
    rcases h with h | h
    · rcases List.mem_cons.mp h with rfl | h
      · refine Or.inr ?_
        rw [kidAt_some ht]
        rw [reset_node hcall]
      · exact Or.inl h
    · exact Or.inr (reset_keeps hnodup ht hcall i h)

theorem resetNode_ever (m n : Nat) :
    ((s.resetNode m).nodes n).ever_init = (s.nodes n).ever_init := by
  by_cases hn : n = m <;> simp [Eng.resetNode, Eng.setNode, hn]

theorem reset_ever (t : Node) (s : Eng E) (n : Nat) :
    (((t.kid w).reset s).nodes n).ever_init = (s.nodes n).ever_init := by
  cases t with
  | int | fieldRef | literal => rfl
  | oneshot | pred => exact resetNode_ever _ _ _
  | main fn m as =>
    change ((s.resetMain m).nodes n).ever_init = _
    unfold Eng.resetMain
    dsimp only
    split <;> exact resetNode_ever _ _ _

theorem resets_ever (n : Nat) :
    ((js.foldl (fun s j => (kidAt (Node.kids w args) j).reset s) s).nodes n).ever_init =
      (s.nodes n).ever_init := by
  induction js generalizing s with
  | nil => rfl
  | cons j js ih =>
    rw [List.foldl_cons, ih]
    cases ht : args[j]? with
    | none =>
      rw [kidAt_none ht]
      rfl
    | some t =>
      rw [kidAt_some ht]
      exact reset_ever t s n

theorem fork_start_run {s s₁ : Eng E} (hnew : (s.nodes idx).initialized = false)
    (h : first_call w .se_fork idx (Node.kids w args) s = some s₁) :
    ∃ s₀ : Eng E, (s₀.nodes idx).data.state = FORK_STATE_RUNNING ∧
      (∀ n, n ≠ idx → s₀.nodes n = s.nodes n) ∧
      s₁ = (List.range args.length).foldl (fun s j => (kidAt (Node.kids w args) j).reset s) s₀ := by
  have hprog : ∀ e, mainProg w.fuel .se_fork (args.map Node.kind) e SE_EVENT_INIT =
      s_expr_set_state FORK_STATE_RUNNING >>= fun _ => s_expr_set_user_flags 0 >>= fun _ =>
        (forEach (List.range args.length) fun j =>
          if isCall (args.map Node.kind) j then s_expr_child_reset j else pure ()) >>= fun _ =>
          pure SE_PIPELINE_CONTINUE := by
    intro e
    simp only [mainProg, se_fork, s_expr_children_reset_all, List.length_map]
  simp only [first_call, hnew, Bool.false_eq_true, if_false, callMain, kids_kinds, hprog,
    runProg_bind, run_set_state, run_set_user_flags, reset_all_run, Option.bind_some, runProg_pure,
    Option.map_some, Option.some.injEq] at h
  refine ⟨_, ?_, fun n hn => ?_, h.symm⟩
  · simp [Eng.setData, Eng.setNode, FORK_STATE_RUNNING]
  · simp [Eng.setData, Eng.setNode, Eng.record, hn]

theorem fork_starts (hidx : idx ∉ Node.indicesAll args) (hnodup : (Node.indicesAll args).Nodup)
    {s s₁ : Eng E} (hnew : (s.nodes idx).initialized = false)
    (h : first_call w .se_fork idx (Node.kids w args) s = some s₁) :
    (s₁.nodes idx).data.state = FORK_STATE_RUNNING ∧
      (∀ (j : Nat) (t : Node), args[j]? = some t → t.kind.isCall = true →
        (s₁.nodes t.idx).initialized = false) ∧
      ∀ n, n ≠ idx → (s₁.nodes n).ever_init = (s.nodes n).ever_init := by
  obtain ⟨s₀, hstate, hother, rfl⟩ := fork_start_run hnew h
  refine ⟨?_, fun j t ht hcall => ?_, fun n hn => ?_⟩
  · rw [(resets_within _ _).nodes idx hidx, hstate]
  · have hj : j ∈ List.range args.length := List.mem_range.mpr (List.getElem?_eq_some_iff.mp ht).1
    exact resets_node hnodup ht hcall _ _ (Or.inl hj)
  · rw [resets_ever, hother n hn]

end

/-! ## Activations -/

/-- The main children answer with the codes that the composite handles itself. -/
def Handles (w : World E) (fn : MainFn) (idx : Nat) (args : List Node) (ts : List (TickOf E)) : Prop :=
  ∀ t ∈ ts, ∀ c ∈ tickCalls w fn idx args t.before,
    isMain (args.map Node.kind) c.child = true → handled c.answer

/-- What a parallel composite owes its main children, and its parent. -/
structure ForkLaw (w : World E) (fn : MainFn) (idx : Nat) (args : List Node) (ts : List (TickOf E)) :
    Prop where
  serves : ∀ t ∈ ts, Attends ((List.range args.length).filter (activeMain args t.before))
    ((tickCalls w fn idx args t.before).filter fun c => isMain (args.map Node.kind) c.child)
  ended : ∀ (i k : Nat) (t t' : TickOf E) (c : Call E), i < k → ts[i]? = some t → ts[k]? = some t' →
    c ∈ tickCalls w fn idx args t.before → isMain (args.map Node.kind) c.child = true →
    ending c.answer = true → ∀ c' ∈ tickCalls w fn idx args t'.before, c'.child ≠ c.child
  afresh : ∀ (i : Nat) (t t' : TickOf E) (c : Call E) (u : Node), ts[i]? = some t → ts[i + 1]? = some t' →
    c ∈ tickCalls w fn idx args t.before → isMain (args.map Node.kind) c.child = true →
    c.answer = SE_PIPELINE_RESET → args[c.child]? = some u → Fresh u t'.before
  reports : ∀ t ∈ ts, t.answer = SE_PIPELINE_DISABLE ↔ ∀ j, activeMain args t.after j = false

/-- How often a tick runs the function of the child. -/
def runsAt (w : World E) (fn : MainFn) (idx : Nat) (args : List Node) (j : Nat) (u : Node)
    (t : TickOf E) : Nat :=
  ((tickCalls w fn idx args t.before).filter (·.child == j)).countP fun c => u.runs c.before

/-- How often the function of a oneshot or a predicate was run. -/
def runsOf (w : World E) (fn : MainFn) (idx : Nat) (args : List Node) (j : Nat) (u : Node)
    (ts : List (TickOf E)) : Nat :=
  (ts.map (runsAt w fn idx args j u)).sum

/-- The tick comes to the child. -/
def ReachesAt (w : World E) (fn : MainFn) (idx : Nat) (args : List Node) (j : Nat)
    (ts : List (TickOf E)) (i : Nat) : Prop :=
  ∃ t, ts[i]? = some t ∧ Reaches j (tickCalls w fn idx args t.before)

/-- The child has not run before the activation, as far as its node tells. INIT of `se_fork`
clears all but a oneshot that survives a reset. -/
def Due (fn : MainFn) : Node → Eng E → Prop
  | .oneshot id n survives_reset, s =>
    (fn = .se_fork → survives_reset = true → (s.nodes n).ever_init = false) ∧
      (fn ≠ .se_fork → Clear (.oneshot id n survives_reset) s)
  | t, s => fn ≠ .se_fork → Clear t s

/-- The child is due when the activation starts. The activation completes, or else a tick comes to
the child. Either a run marks its node, or no two ticks come to it. -/
structure RunsOnce (w : World E) (fn : MainFn) (idx : Nat) (args : List Node) (j : Nat) (u : Node)
    (s : Eng E) (ts : List (TickOf E)) : Prop where
  due : Due fn u s
  reached : (∃ t ∈ ts, t.answer = SE_PIPELINE_DISABLE) ∨ ∃ i, ReachesAt w fn idx args j ts i
  marked : Marks w u ∨
    ∀ i k, ReachesAt w fn idx args j ts i → ReachesAt w fn idx args j ts k → i = k

section

variable {w : World E} {fn : MainFn} {idx : Nat} {args : List Node} {s : Eng E}
variable {ts : List (TickOf E)}

theorem Activation.in_round (h : Activation w fn idx args s ts) (hfn : Parallel fn)
    (hnodup : (Node.indices (.main fn idx args)).Nodup) (hhandled : Handles w fn idx args ts) :
    ∀ (i : Nat) (t : TickOf E), ts[i]? = some t → InRound fn idx t.before := by
  rw [Node.indices, List.nodup_cons] at hnodup
  intro i
  induction i with
  | zero =>
    rintro t ht rfl
    exact (fork_starts hnodup.1 hnodup.2 h.new (h.starts t ht)).1
  | succ i ih =>
    intro t' ht' heq
    have hlt : i < ts.length := by
      have := (List.getElem?_eq_some_iff.mp ht').1
      omega
    have ht : ts[i]? = some ts[i] := List.getElem?_eq_getElem hlt
    obtain ⟨hne, hapart⟩ := h.goes_on i _ _ ht ht'
    obtain ⟨s₁, -, -, -, hown⟩ := tick_round hfn hnodup.1 (ih _ ht) (h.ticks i _ ht)
      (hhandled _ (List.getElem_mem hlt))
    rw [hapart.nodes idx List.mem_cons_self]
    change (ts[i].after.nodes idx).data.state = FORK_STATE_RUNNING
    rw [hown hne]
    exact ih _ ht heq

variable {i j : Nat} {t : TickOf E} {u : Node}

theorem Activation.meets (h : Activation w fn idx args s ts) (hfn : Parallel fn)
    (hnodup : (Node.indices (.main fn idx args)).Nodup) (hhandled : Handles w fn idx args ts)
    (ht : ts[i]? = some t) (hu : args[j]? = some u) :
    ∃ reached s₁ s₂, (∀ n ∈ u.indices, s₁.nodes n = t.before.nodes n) ∧
      (∀ n ∈ u.indices, t.after.nodes n = s₂.nodes n) ∧
      (reached = true ↔ Reaches j (tickCalls w fn idx args t.before)) ∧
      Meets w args j reached s₁ ((tickCalls w fn idx args t.before).filter (·.child == j)) s₂ := by
  have hstate := h.in_round hfn hnodup hhandled i t ht
  rw [Node.indices, List.nodup_cons] at hnodup
  obtain ⟨s', hround, hnodes, -, -⟩ := tick_round hfn hnodup.1 hstate (h.ticks i t ht)
    (hhandled t (List.mem_of_getElem? ht))
  have hj : j ∈ List.range args.length := List.mem_range.mpr (List.getElem?_eq_some_iff.mp hu).1
  obtain ⟨reached, s₁, s₂, hbefore, hafter, hreaches, hmeets⟩ :=
    hround.meets hnodup.2 (List.pairwise_lt_range) hj hu
  refine ⟨reached, s₁, s₂, hbefore.nodes, fun n hn => ?_, hreaches, hmeets⟩
  have hne : n ≠ idx := by
    rintro rfl
    exact hnodup.1 (mem_indicesAll (List.mem_of_getElem? hu) hn)
  rw [hnodes n hne, hafter.nodes n hn]

theorem Activation.between (h : Activation w fn idx args s ts) {t' : TickOf E}
    (ht : ts[i]? = some t) (ht' : ts[i + 1]? = some t') (hu : args[j]? = some u) {n : Nat}
    (hn : n ∈ u.indices) : t'.before.nodes n = t.after.nodes n :=
  (h.goes_on i t t' ht ht').2.nodes n
    (List.mem_cons_of_mem _ (mem_indicesAll (List.mem_of_getElem? hu) hn))

theorem Activation.inactive (h : Activation w fn idx args s ts) (hfn : Parallel fn)
    (hnodup : (Node.indices (.main fn idx args)).Nodup) (hhandled : Handles w fn idx args ts)
    {n : Nat} {fn' : MainFn} {as : List Node} (hu : args[j]? = some (.main fn' n as)) :
    ∀ (k : Nat) (t t' : TickOf E), ts[i]? = some t → ts[i + k]? = some t' →
      (t.before.nodes n).active = false →
      (∀ c ∈ tickCalls w fn idx args t'.before, c.child ≠ j) ∧ (t'.after.nodes n).active = false := by
  have hn : n ∈ Node.indices (.main fn' n as) := by simp [Node.indices]
  have hstep : ∀ (i : Nat) (t : TickOf E), ts[i]? = some t → (t.before.nodes n).active = false →
      (∀ c ∈ tickCalls w fn idx args t.before, c.child ≠ j) ∧ (t.after.nodes n).active = false := by
    intro i t ht hdown
    obtain ⟨reached, s₁, s₂, hbefore, hafter, -, hmeets⟩ := h.meets hfn hnodup hhandled ht hu
    obtain ⟨hnone, hdown'⟩ := hmeets.inactive hu (by rw [hbefore n hn]; exact hdown)
    refine ⟨fun c hc heq => ?_, by rw [hafter n hn]; exact hdown'⟩
    exact List.filter_eq_nil_iff.mp hnone c hc (beq_iff_eq.mpr heq)
  intro k
  induction k with
  | zero =>
    intro t t' ht ht' hdown
    rw [Nat.add_zero, ht] at ht'
    cases ht'
    exact hstep i t ht hdown
  | succ k ih =>
    intro t t' ht ht' hdown
    have hlt : i + k < ts.length := by
      have := (List.getElem?_eq_some_iff.mp ht').1
      omega
    have hprev : ts[i + k]? = some ts[i + k] := List.getElem?_eq_getElem hlt
    refine hstep (i + (k + 1)) t' ht' ?_
    rw [h.between hprev ht' hu hn]
    exact (ih t _ ht hprev hdown).2

theorem fork_law (h : Activation w fn idx args s ts) (hfn : Parallel fn)
    (hnodup : (Node.indices (.main fn idx args)).Nodup) (hhandled : Handles w fn idx args ts) :
    ForkLaw w fn idx args ts := by
  have hsplit := hnodup
  rw [Node.indices, List.nodup_cons] at hsplit
  have hkids : ∀ {j n : Nat} {fn' : MainFn} {as : List Node}, args[j]? = some (.main fn' n as) →
      n ∉ Node.indicesAll as := by
    intro j n fn' as hj
    have hsub : (Node.indices (.main fn' n as)).Nodup := indices_nodup hsplit.2 hj
    rw [Node.indices, List.nodup_cons] at hsub
    exact hsub.1
  have hcall : ∀ {c : Call E} {cs : List (Call E)}, c ∈ cs → c ∈ cs.filter (·.child == c.child) :=
    fun hc => List.mem_filter.mpr ⟨hc, beq_self_eq_true _⟩
  refine ⟨fun t ht => ?_, ?_, ?_, fun t ht => ?_⟩
  · obtain ⟨i, hi⟩ := List.getElem?_of_mem ht
    obtain ⟨s₁, hround, -⟩ := tick_round hfn hsplit.1 (h.in_round hfn hnodup hhandled i t hi)
      (h.ticks i t hi) (hhandled t ht)
    exact hround.attends hsplit.2 List.nodup_range
  · intro i k t t' c hik ht ht' hc hmain hr
    obtain ⟨fn', n, as, hu⟩ := isMain_iff.mp hmain
    have hn : n ∈ Node.indices (.main fn' n as) := by simp [Node.indices]
    obtain ⟨reached, s₁, s₂, hbefore, hafter, -, hmeets⟩ := h.meets hfn hnodup hhandled ht hu
    have hdown := hmeets.ended hu (hkids hu) (hcall hc) hr
    have hlt : i + 1 < ts.length := by
      have := (List.getElem?_eq_some_iff.mp ht').1
      omega
    have hnext : ts[i + 1]? = some ts[i + 1] := List.getElem?_eq_getElem hlt
    obtain ⟨d, rfl⟩ := Nat.exists_eq_add_of_lt hik
    refine (h.inactive hfn hnodup hhandled hu d _ t' hnext ?_ ?_).1
    · rw [← ht']
      congr 1
      omega
    · rw [h.between ht hnext hu hn, hafter n hn]
      exact hdown
  · intro i t t' c u ht ht' hc hmain hr hu
    obtain ⟨fn', n, as, hu'⟩ := isMain_iff.mp hmain
    rw [hu] at hu'
    cases hu'
    obtain ⟨reached, s₁, s₂, hbefore, hafter, -, hmeets⟩ := h.meets hfn hnodup hhandled ht hu
    have hfresh := hmeets.restarted hu (hcall hc) hr
    intro m hm
    rw [h.between ht ht' hu hm, hafter m hm]
    exact hfresh m hm
  · obtain ⟨i, hi⟩ := List.getElem?_of_mem ht
    obtain ⟨s₁, -, hnodes, hreports, -⟩ := tick_round hfn hsplit.1
      (h.in_round hfn hnodup hhandled i t hi) (h.ticks i t hi) (hhandled t ht)
    rw [hreports]
    have hsame : ∀ j, activeMain args t.after j = activeMain args s₁ j := by
      intro j
      unfold activeMain
      split
      · rename_i n _ hj
        have hne : n ≠ idx := by
          rintro rfl
          exact hsplit.1 (mem_indicesAll (List.mem_of_getElem? hj) (by simp [Node.indices]))
        rw [hnodes n hne]
      · rfl
    simp only [hsame]

/-! ## The oneshots and the predicates -/

theorem Activation.clear (h : Activation w fn idx args s ts) (hfn : Parallel fn)
    (hnodup : (Node.indices (.main fn idx args)).Nodup) (hu : args[j]? = some u)
    (haside : u.isAside = true) (hdue : Due fn u s) :
    ∀ t : TickOf E, ts[0]? = some t → Clear u t.before := by
  intro t ht
  have hstart := h.starts t ht
  rw [Node.indices, List.nodup_cons] at hnodup
  have hcall : u.kind.isCall = true := by
    cases u with
    | oneshot | pred => rfl
    | int | fieldRef | literal | main => cases haside
  have hne : u.idx ≠ idx := fun heq =>
    hnodup.1 (heq ▸ mem_indicesAll (List.mem_of_getElem? hu) (idx_mem hcall))
  cases hfn with
  | se_fork =>
    obtain ⟨-, hreset, hever⟩ := fork_starts hnodup.1 hnodup.2 h.new hstart
    have hnew := hreset j u hu hcall
    refine ⟨hnew, ?_⟩
    cases u with
    | pred => exact hnew
    | oneshot id n survives_reset =>
      cases survives_reset with
      | false => exact hnew
      | true =>
        simp only [Node.done, if_true]
        exact (hever n hne).trans (hdue.1 rfl rfl)
    | int | fieldRef | literal | main => cases haside
  | se_fork_join =>
    have hclear : Clear u s := by
      cases u with
      | oneshot => exact hdue.2 (fun heq => by cases heq)
      | pred => exact hdue (fun heq => by cases heq)
      | int | fieldRef | literal | main => cases haside
    refine hclear.of_node ?_
    simp only [first_call, h.new, Bool.false_eq_true, if_false, callMain, kids_kinds] at hstart
    rw [← (Option.some.inj hstart : _ = t.before)]
    simp [Eng.record, Eng.setNode, hne]

/-- A child that has not run stays so until a tick comes to it. -/
theorem Activation.clear_until (h : Activation w fn idx args s ts) (hfn : Parallel fn)
    (hnodup : (Node.indices (.main fn idx args)).Nodup) (hhandled : Handles w fn idx args ts)
    (hu : args[j]? = some u) (haside : u.isAside = true) (hdue : Due fn u s) :
    ∀ (i : Nat) (t : TickOf E), ts[i]? = some t →
      (∀ k, k < i → ¬ ReachesAt w fn idx args j ts k) → Clear u t.before := by
  intro i
  induction i with
  | zero => exact fun t ht _ => h.clear hfn hnodup hu haside hdue t ht
  | succ i ih =>
    intro t ht hmissed
    have hlt : i < ts.length := by
      have := (List.getElem?_eq_some_iff.mp ht).1
      omega
    have hprev : ts[i]? = some ts[i] := List.getElem?_eq_getElem hlt
    have hclear := ih _ hprev fun k hk => hmissed k (Nat.lt_succ_of_lt hk)
    obtain ⟨reached, s₁, s₂, hbefore, hafter, hreaches, hmeets⟩ := h.meets hfn hnodup hhandled hprev hu
    have hmem : u.idx ∈ u.indices := by
      apply idx_mem
      cases u with
      | oneshot | pred => rfl
      | int | fieldRef | literal | main => cases haside
    have hno : reached = false := by
      cases reached with
      | false => rfl
      | true => exact absurd ⟨_, hprev, hreaches.mp rfl⟩ (hmissed i (Nat.lt_succ_self i))
    subst hno
    have hstill := (hmeets.first_run hu haside (hclear.of_node (hbefore _ hmem))).2
    refine Clear.of_node hstill ?_
    rw [h.between hprev ht hu hmem, hafter _ hmem]

theorem aside_mem (haside : u.isAside = true) : u.idx ∈ u.indices := by
  apply idx_mem
  cases u with
  | oneshot | pred => rfl
  | int | fieldRef | literal | main => cases haside

theorem Activation.done_since (h : Activation w fn idx args s ts) (hfn : Parallel fn)
    (hnodup : (Node.indices (.main fn idx args)).Nodup) (hhandled : Handles w fn idx args ts)
    (hu : args[j]? = some u) (haside : u.isAside = true) (hmarks : Marks w u) {t₀ : TickOf E}
    (ht₀ : ts[i]? = some t₀) (hdone : u.done t₀.after = true) :
    ∀ (d : Nat) (t : TickOf E), ts[i + 1 + d]? = some t → u.done t.before = true := by
  have hmem := aside_mem haside
  intro d
  induction d with
  | zero =>
    intro t ht
    rw [done_of_node (h.between ht₀ ht hu hmem)]
    exact hdone
  | succ d ih =>
    intro t ht
    have hlt : i + 1 + d < ts.length := by
      have := (List.getElem?_eq_some_iff.mp ht).1
      omega
    have hprev : ts[i + 1 + d]? = some ts[i + 1 + d] := List.getElem?_eq_getElem hlt
    obtain ⟨reached, s₁, s₂, hbefore, hafter, -, hmeets⟩ := h.meets hfn hnodup hhandled hprev hu
    have hstill := (hmeets.after_run hu haside hmarks
      (by rw [done_of_node (hbefore _ hmem)]; exact ih _ hprev)).2
    rw [done_of_node (h.between hprev ht hu hmem), done_of_node (hafter _ hmem)]
    exact hstill

theorem Activation.missed (h : Activation w fn idx args s ts) (hfn : Parallel fn)
    (hnodup : (Node.indices (.main fn idx args)).Nodup) (hhandled : Handles w fn idx args ts)
    (hu : args[j]? = some u) (ht : ts[i]? = some t) (hno : ¬ ReachesAt w fn idx args j ts i) :
    runsAt w fn idx args j u t = 0 := by
  obtain ⟨reached, s₁, s₂, -, -, hreaches, hmeets⟩ := h.meets hfn hnodup hhandled ht hu
  unfold runsAt
  generalize (tickCalls w fn idx args t.before).filter (·.child == j) = cs at hmeets
  cases hmeets with
  | missed => rfl
  | serves | skips => exact absurd ⟨t, ht, hreaches.mp rfl⟩ hno

theorem sum_of_one {α : Type} (f : α → Nat) : ∀ (ts : List α) (i : Nat) (t : α), ts[i]? = some t →
    f t = 1 → (∀ (k : Nat) (t' : α), k ≠ i → ts[k]? = some t' → f t' = 0) → (ts.map f).sum = 1
  | [], i, t, ht, _, _ => by simp at ht
  | t' :: ts, 0, t, ht, hone, hnone => by
    have hrest : (ts.map f).sum = 0 := by
      rw [List.sum_eq_zero_iff_forall_eq_nat]
      rintro x hx
      obtain ⟨u, hu, rfl⟩ := List.mem_map.mp hx
      obtain ⟨k, hk⟩ := List.getElem?_of_mem hu
      exact hnone (k + 1) u (Nat.succ_ne_zero k) (by rw [List.getElem?_cons_succ, hk])
    rw [List.getElem?_cons_zero, Option.some.injEq] at ht
    rw [List.map_cons, List.sum_cons, hrest, ht, hone]
  | t' :: ts, i + 1, t, ht, hone, hnone => by
    have hfirst : f t' = 0 := hnone 0 t' (Nat.succ_ne_zero i).symm (List.getElem?_cons_zero ..)
    rw [List.map_cons, List.sum_cons, hfirst, Nat.zero_add]
    refine sum_of_one f ts i t (by rwa [List.getElem?_cons_succ] at ht) hone fun k u hk hu => ?_
    exact hnone (k + 1) u (by omega) (by rw [List.getElem?_cons_succ, hu])

/-- The tick that completes the activation comes to every child, for none has skipped. -/
theorem Activation.reached (h : Activation w fn idx args s ts) (hfn : Parallel fn)
    (hnodup : (Node.indices (.main fn idx args)).Nodup) (hhandled : Handles w fn idx args ts)
    (ht : t ∈ ts) (hr : t.answer = SE_PIPELINE_DISABLE) (j : Nat) :
    ∃ i, ReachesAt w fn idx args j ts i := by
  obtain ⟨i, hi⟩ := List.getElem?_of_mem ht
  have hstate := h.in_round hfn hnodup hhandled i t hi
  rw [Node.indices, List.nodup_cons] at hnodup
  obtain ⟨s₁, hround, -, hreports, -⟩ := tick_round hfn hnodup.1 hstate (h.ticks i t hi) (hhandled t ht)
  refine ⟨i, t, hi, fun c hc hskip => ?_⟩
  have hact := hround.skipped hnodup.2 c hc hskip
  rw [hreports.mp hr c.child] at hact
  exact nomatch hact

/-- The function runs in the first tick that comes to the child, and in no other. -/
theorem Activation.runs_once (h : Activation w fn idx args s ts) (hfn : Parallel fn)
    (hnodup : (Node.indices (.main fn idx args)).Nodup) (hhandled : Handles w fn idx args ts)
    (hu : args[j]? = some u) (haside : u.isAside = true) (honce : RunsOnce w fn idx args j u s ts) :
    runsOf w fn idx args j u ts = 1 := by
  classical
  obtain ⟨hdue, hreached, hlater⟩ := honce
  have hsome : ∃ i, ReachesAt w fn idx args j ts i := by
    rcases hreached with ⟨t, ht, hr⟩ | hsome
    · exact h.reached hfn hnodup hhandled ht hr j
    · exact hsome
  obtain ⟨t, ht, hreach⟩ := Nat.find_spec hsome
  have hfirst : ∀ k, k < Nat.find hsome → ¬ ReachesAt w fn idx args j ts k :=
    fun k hk => Nat.find_min hsome hk
  have hmem := aside_mem haside
  have hclear := h.clear_until hfn hnodup hhandled hu haside hdue _ t ht hfirst
  obtain ⟨reached, s₁, s₂, hbefore, hafter, hreaches, hmeets⟩ := h.meets hfn hnodup hhandled ht hu
  have hyes : reached = true := hreaches.mpr hreach
  subst hyes
  obtain ⟨hruns, hdone⟩ := hmeets.first_run hu haside (hclear.of_node (hbefore _ hmem))
  refine sum_of_one _ ts (Nat.find hsome) t ht hruns fun k t' hk ht' => ?_
  rcases Nat.lt_or_gt_of_ne hk with hbef | haft
  · exact h.missed hfn hnodup hhandled hu ht' (hfirst k hbef)
  · rcases hlater with hmarks | honly
    · obtain ⟨d, rfl⟩ := Nat.exists_eq_add_of_lt haft
      have hpast : u.done t'.before = true := by
        refine h.done_since hfn hnodup hhandled hu haside hmarks ht ?_ d t' ?_
        · rw [done_of_node (hafter _ hmem)]
          exact hdone hmarks
        · rw [← ht']
          congr 1
          omega
      obtain ⟨reached', u₁, u₂, hbefore', -, -, hmeets'⟩ := h.meets hfn hnodup hhandled ht' hu
      exact (hmeets'.after_run hu haside hmarks (by rw [done_of_node (hbefore' _ hmem)]; exact hpast)).1
    · refine h.missed hfn hnodup hhandled hu ht' fun hagain => hk ?_
      exact honly _ _ hagain ⟨t, ht, hreach⟩

end

/-! ## The law of the parallel composites -/

/-- The main children are served in every activation as they should be. A oneshot or a predicate
runs once when it is due, a tick comes to it, and its run marks its node. -/
theorem parallel_activation_law {w : World E} {fn : MainFn} {idx : Nat} {args : List Node} {s : Eng E}
    {ts : List (TickOf E)} (hfn : Parallel fn) (hnodup : (Node.indices (.main fn idx args)).Nodup)
    (h : Activation w fn idx args s ts) (hhandled : Handles w fn idx args ts) :
    ForkLaw w fn idx args ts ∧ ∀ (j : Nat) (u : Node), args[j]? = some u → u.isAside = true →
      RunsOnce w fn idx args j u s ts → runsOf w fn idx args j u ts = 1 :=
  ⟨fork_law h hfn hnodup hhandled, fun _ _ hu haside honce =>
    h.runs_once hfn hnodup hhandled hu haside honce⟩

/-- The main function goes on for ever, and the predicate holds. -/
def steady : World Unit where
  fuel := 1
  main _ _ _ d env := (SE_PIPELINE_CONTINUE, d, env)
  oneshot _ _ env := env
  test _ _ env := (true, env)
  counter _ _ st env := (true, st, env)
  field _ _ := 0

def two_ticks (aside : Node) (s : Eng Unit) : List (TickOf Unit) :=
  [firstTick steady .se_fork 0 [aside, .main (.leaf 0) 2 []] s,
    secondTick steady .se_fork 0 [aside, .main (.leaf 0) 2 []] s]

def restarted : Eng Unit :=
  (Node.kid steady (.main .se_fork 0 [.oneshot 0 1 true, .main (.leaf 0) 2 []])).resetRecursive
    (firstTick steady .se_fork 0 [.oneshot 0 1 true, .main (.leaf 0) 2 []] (createdState ())).after

/-- A oneshot in its first activation, and one that survived a reset in its second. -/
def Sample (aside : Node) (s : Eng Unit) : Prop :=
  (aside = .oneshot 0 1 false ∧ s = createdState ()) ∨ (aside = .oneshot 0 1 true ∧ s = restarted)

theorem two_ticks_activation {aside : Node} {s : Eng Unit} (hsample : Sample aside s) :
    Activation steady .se_fork 0 [aside, .main (.leaf 0) 2 []] s (two_ticks aside s) := by
  apply TicksTwice.activation
  rcases hsample with ⟨rfl, rfl⟩ | ⟨rfl, rfl⟩ <;> constructor <;> decide

theorem two_ticks_handled {aside : Node} {s : Eng Unit} (hsample : Sample aside s) :
    Handles steady .se_fork 0 [aside, .main (.leaf 0) 2 []] (two_ticks aside s) := by
  unfold Handles handled
  rcases hsample with ⟨rfl, rfl⟩ | ⟨rfl, rfl⟩ <;> decide

theorem oneshot_once : runsOf steady .se_fork 0 [.oneshot 0 1 false, .main (.leaf 0) 2 []] 0
    (.oneshot 0 1 false) (two_ticks (.oneshot 0 1 false) (createdState ())) = 1 := by
  have hsample : Sample (.oneshot 0 1 false) (createdState ()) := Or.inl ⟨rfl, rfl⟩
  have hreached : ReachesAt steady .se_fork 0 [.oneshot 0 1 false, .main (.leaf 0) 2 []] 0
      (two_ticks (.oneshot 0 1 false) (createdState ())) 0 := by
    refine ⟨firstTick _ _ _ _ _, rfl, ?_⟩
    unfold Reaches
    decide
  have honce : RunsOnce steady .se_fork 0 [.oneshot 0 1 false, .main (.leaf 0) 2 []] 0
      (.oneshot 0 1 false) (createdState ()) (two_ticks (.oneshot 0 1 false) (createdState ())) :=
    ⟨⟨fun _ h => (nomatch h), fun h => absurd rfl h⟩, Or.inr ⟨0, hreached⟩,
      Or.inl (oneshot_marks _ _ _ _)⟩
  exact (parallel_activation_law .se_fork (by decide) (two_ticks_activation hsample)
    (two_ticks_handled hsample)).2 0 _ rfl rfl honce

/-- A oneshot that survives a reset is not run again in the next activation. -/
theorem surviving_oneshot_rests : ¬ ∀ (u : Node) (s : Eng Unit) (ts : List (TickOf Unit)),
    u.isAside = true → Activation steady .se_fork 0 [u, .main (.leaf 0) 2 []] s ts →
    Handles steady .se_fork 0 [u, .main (.leaf 0) 2 []] ts →
    (∃ i, ReachesAt steady .se_fork 0 [u, .main (.leaf 0) 2 []] 0 ts i) →
    runsOf steady .se_fork 0 [u, .main (.leaf 0) 2 []] 0 u ts = 1 := by
  intro hall
  have hsample : Sample (.oneshot 0 1 true) restarted := Or.inr ⟨rfl, rfl⟩
  have hreached : ReachesAt steady .se_fork 0 [.oneshot 0 1 true, .main (.leaf 0) 2 []] 0
      (two_ticks (.oneshot 0 1 true) restarted) 0 := by
    refine ⟨firstTick _ _ _ _ _, rfl, ?_⟩
    unfold Reaches
    decide
  have hone := hall _ _ _ rfl (two_ticks_activation hsample) (two_ticks_handled hsample) ⟨0, hreached⟩
  exact absurd hone (by decide)

end motioncore.engine
