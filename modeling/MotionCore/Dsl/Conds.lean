-- `se_cond` of the DSL. Its cases tell it what they are through the locals of the file. A nested
-- `se_cond` uses the same locals, so the outer one raises an error.
import MotionCore.Dsl.Closures

namespace motioncore.dsl

/-! ## The functions of the DSL -/

/-- The cases are called between the start and the end of the call. What `pcall` catches is
raised again. -/
def se_cond (cases : List Closure) : Closure := fun st =>
  match Closure.call (ascii "SE_COND") .m_call (Closure.all cases) { st with cond := ⟨0, false, true⟩ } with
  | .error err => .error err
  | .ok st' =>
    let case_count := st'.cond.cond_case_count
    let has_default := st'.cond.cond_has_default
    if case_count = 0 then .error (.raised "se_cond: must have at least one case")
    else if !has_default then
      .error (.raised "se_cond: must have a default case (use se_cond_default)")
    else .ok { st' with cond := .start }

def se_cond_case (pred_fn action_fn : Closure) : Closure := fun st =>
  if !st.cond.in_cond then .error (.raised "se_cond_case: must be used inside se_cond")
  else if st.cond.cond_has_default then
    .error (.raised
      "se_cond_case: cannot add cases after se_cond_default (default must be last)")
  else (pred_fn.andThen action_fn)
    { st with cond := { st.cond with cond_case_count := st.cond.cond_case_count + 1 } }

def se_true : Closure := Closure.call (ascii "SE_TRUE") .p_call .ok

def se_cond_default (action_fn : Closure) : Closure := fun st =>
  if !st.cond.in_cond then .error (.raised "se_cond_default: must be used inside se_cond")
  else if st.cond.cond_has_default then .error (.raised "se_cond_default: duplicate default case")
  else (se_true.andThen action_fn)
    { st with cond := ⟨st.cond.cond_case_count + 1, true, st.cond.in_cond⟩ }

/-! ## Programs -/

mutual

/-- What can be given for the action of a case: a function that has nothing to do with `se_cond`,
a call around more actions, or another `se_cond`. -/
inductive Action where
  | plain (f : Closure)
  | within (func_name : LuaString) (body : Actions)
  | cond (cases : Cases)

inductive Actions where
  | nil
  | cons (a : Action) (rest : Actions)

/-- The cases of a `se_cond`, the default last. -/
inductive Cases where
  | default (a : Action)
  | case (pred : Closure) (a : Action) (rest : Cases)

end

mutual

def Action.closure : Action → Closure
  | .plain f => f
  | .within func_name body => Closure.call func_name .m_call body.closure
  | .cond cases => se_cond cases.closures

def Actions.closure : Actions → Closure
  | .nil => .ok
  | .cons a rest => a.closure.andThen rest.closure

def Cases.closures : Cases → List Closure
  | .default a => [se_cond_default a.closure]
  | .case pred a rest => se_cond_case pred a.closure :: rest.closures

end

mutual

/-- There is a `se_cond` in the action. -/
def Action.hasCond : Action → Bool
  | .plain _ => false
  | .within _ body => body.hasCond
  | .cond _ => true

def Actions.hasCond : Actions → Bool
  | .nil => false
  | .cons a rest => a.hasCond || rest.hasCond

/-- There is a `se_cond` in the action of a case. -/
def Cases.nests : Cases → Bool
  | .default a => a.hasCond
  | .case _ a rest => a.hasCond || rest.nests

end

/-! ## What is emitted -/

/-- Predicates and actions in turn. The last predicate is `SE_TRUE`. -/
inductive Alternating : List Item → Prop where
  | default (pointer_index : Option Nat) {action : Item} (haction : action.isAction = true) :
    Alternating [.call (ascii "SE_TRUE") .p_call pointer_index [], action]
  | case {pred action : Item} {rest : List Item} (hpred : pred.isPred = true)
    (haction : action.isAction = true) (h : Alternating rest) : Alternating (pred :: action :: rest)

mutual

/-- What the program is made of emits one call each. -/
def Action.Sound : Action → Prop
  | .plain f => EmitsAction f
  | .within _ body => body.Sound
  | .cond cases => cases.Sound

def Actions.Sound : Actions → Prop
  | .nil => True
  | .cons a rest => a.Sound ∧ rest.Sound

def Cases.Sound : Cases → Prop
  | .default a => a.Sound
  | .case pred a rest => EmitsPred pred ∧ a.Sound ∧ rest.Sound

end

def Cases.count : Cases → Nat
  | .default _ => 1
  | .case _ _ rest => rest.count + 1

theorem se_true_emits : Emits se_true fun items =>
    ∃ pointer_index, items = [.call (ascii "SE_TRUE") .p_call pointer_index []] := by
  have hnone : Emits (Except.ok : Closure) (· = []) := emits_all_nil
  refine (hnone.call (ascii "SE_TRUE") .p_call).mono ?_
  rintro items ⟨pointer_index, inner, rfl, rfl⟩
  exact ⟨pointer_index, rfl⟩

/-- If the function succeeds, it leaves the locals as they are at the start. -/
def Clears (f : Closure) : Prop :=
  ∀ st st' : LuaState, Ordered st.builder.current_call_stack → f st = .ok st' →
    st'.cond = .start ∧ Ordered st'.builder.current_call_stack

variable {f g : Closure} {st st' : LuaState}

theorem andThen_ok (h : f.andThen g st = .ok st') :
    ∃ st₁, f st = .ok st₁ ∧ g st₁ = .ok st' := bind_eq_ok h

theorem op_start (func_name : LuaString) (call_type : CallType) (st : LuaState) :
    Closure.op (.start_call func_name call_type) st =
      .ok { st with builder := st.builder.start_call func_name call_type } := rfl

theorem op_end (ho : Ordered st.builder.current_call_stack)
    (h : Closure.op (.end_call none) st = .ok st') :
    st'.cond = st.cond ∧ Ordered st'.builder.current_call_stack := by
  simp only [Closure.op, step] at h
  split at h
  · cases h
  · rename_i b hend
    cases h
    exact ⟨rfl, (end_call_effect hend ho).2⟩

theorem Clears.call {body : Closure} (h : Clears body) (func_name : LuaString) (call_type : CallType) :
    Clears (Closure.call func_name call_type body) := by
  intro st st' ho hrun
  obtain ⟨st₁, hstart, hrun⟩ := andThen_ok hrun
  rw [op_start] at hstart
  cases hstart
  obtain ⟨st₂, hbody, hend⟩ := andThen_ok hrun
  obtain ⟨hcond, ho₂⟩ := h _ _ (start_call_effect func_name call_type ho).2 hbody
  obtain ⟨hsame, ho₃⟩ := op_end ho₂ hend
  exact ⟨hsame.trans hcond, ho₃⟩

theorem Clears.after {P : List Item → Prop} (hf : Emits f P) (hg : Clears g) :
    Clears (f.andThen g) := by
  intro st st' ho hrun
  obtain ⟨st₁, hf₁, hrun⟩ := andThen_ok hrun
  obtain ⟨st₁', items, hok, -, -, ho₁, -⟩ := hf st ho
  rw [hf₁] at hok
  cases hok
  exact hg _ _ ho₁ hrun

theorem Clears.before {P : List Item → Prop} (hf : Clears f) (hg : Emits g P) :
    Clears (f.andThen g) := by
  intro st st' ho hrun
  obtain ⟨st₁, hf₁, hrun⟩ := andThen_ok hrun
  obtain ⟨hcond, ho₁⟩ := hf _ _ ho hf₁
  obtain ⟨st₂, items, hok, -, -, ho₂, hsame⟩ := hg st₁ ho₁
  rw [hrun] at hok
  cases hok
  exact ⟨hsame.trans hcond, ho₂⟩

theorem Clears.both (hf : Clears f) (hg : Clears g) : Clears (f.andThen g) := by
  intro st st' ho hrun
  obtain ⟨st₁, hf₁, hrun⟩ := andThen_ok hrun
  exact hg _ _ (hf _ _ ho hf₁).2 hrun

/-! ## Cases without a nested `se_cond` -/

/-- Between the start and the end of its call a `se_cond` has seen `n` cases and no default. -/
def InCond (st : LuaState) (n : Nat) : Prop := st.cond = ⟨n, false, true⟩

structure CasesDone (st st' : LuaState) (total : Nat) : Prop where
  items : ∃ items, Alternating items ∧ st'.builder.view = st.builder.view.put items
  ordered : Ordered st'.builder.current_call_stack
  cond : st'.cond = ⟨total, true, true⟩

variable {action : Closure}

theorem pair_emits {pred : Closure} (hpred : EmitsPred pred) (haction : EmitsAction action) :
    Emits (pred.andThen action) fun items =>
      ∃ p a, items = [p, a] ∧ p.isPred = true ∧ a.isAction = true := by
  refine (hpred.andThen haction).mono ?_
  rintro items ⟨v, w, rfl, ⟨p, rfl, hp⟩, a, rfl, ha⟩
  exact ⟨p, a, rfl, hp, ha⟩

theorem default_done (haction : EmitsAction action) {n : Nat}
    (ho : Ordered st.builder.current_call_stack) (hin : InCond st n) :
    ∃ st', Closure.all [se_cond_default action] st = .ok st' ∧ CasesDone st st' (n + 1) := by
  unfold InCond at hin
  obtain ⟨st', items, hrun, hitems, hview, ho', hcond⟩ :=
    (se_true_emits.andThen haction) { st with cond := ⟨n + 1, true, true⟩ } ho
  obtain ⟨v, u, rfl, ⟨pointer_index, rfl⟩, a, rfl, ha⟩ := hitems
  refine ⟨st', ?_, ⟨⟨_, .default pointer_index ha, hview⟩, ho', hcond⟩⟩
  simp only [Closure.all, Closure.andThen, se_cond_default, hin]
  exact (congrArg (· >>= Except.ok) hrun).trans rfl

theorem case_done {pred : Closure} {rest : List Closure} (hpred : EmitsPred pred)
    (haction : EmitsAction action) {n total : Nat} (ho : Ordered st.builder.current_call_stack)
    (hin : InCond st n)
    (hrest : ∀ st₁ : LuaState, Ordered st₁.builder.current_call_stack → InCond st₁ (n + 1) →
      ∃ st', Closure.all rest st₁ = .ok st' ∧ CasesDone st₁ st' total) :
    ∃ st', Closure.all (se_cond_case pred action :: rest) st = .ok st' ∧ CasesDone st st' total := by
  unfold InCond at hin
  obtain ⟨st₁, items, hrun, ⟨p, a, rfl, hp, ha⟩, hview, ho₁, hcond⟩ :=
    pair_emits hpred haction { st with cond := ⟨n + 1, false, true⟩ } ho
  obtain ⟨st', hall, hdone⟩ := hrest st₁ ho₁ hcond
  obtain ⟨more, hmore, hview'⟩ := hdone.items
  refine ⟨st', ?_, ⟨⟨_, .case hp ha hmore, ?_⟩, hdone.ordered, hdone.cond⟩⟩
  · simp only [Closure.all, Closure.andThen, se_cond_case, hin]
    exact (congrArg (· >>= Closure.all rest) hrun).trans hall
  · rw [hview', hview, put_put]
    rfl

mutual

theorem Action.emits : ∀ a : Action, a.Sound → a.hasCond = false → EmitsAction a.closure
  | .plain _, hsound, _ => hsound
  | .within func_name body, hsound, hno => by
    refine ((Actions.emits body hsound hno).call func_name .m_call).mono ?_
    rintro items ⟨pointer_index, inner, rfl, -⟩
    exact ⟨_, rfl, rfl⟩
  | .cond _, _, hno => nomatch hno

theorem Actions.emits : ∀ body : Actions, body.Sound → body.hasCond = false →
    Emits body.closure fun _ => True
  | .nil, _, _ => emits_all_nil.mono fun _ _ => trivial
  | .cons a rest, hsound, hno => by
    simp only [Actions.hasCond, Bool.or_eq_false_iff] at hno
    exact ((Action.emits a hsound.1 hno.1).andThen (Actions.emits rest hsound.2 hno.2)).mono
      fun _ _ => trivial

end

theorem Cases.done : ∀ (cases : Cases), cases.Sound → cases.nests = false → ∀ (st : LuaState) (n : Nat),
    Ordered st.builder.current_call_stack → InCond st n →
    ∃ st', Closure.all cases.closures st = .ok st' ∧ CasesDone st st' (n + cases.count)
  | .default a, hsound, hno, _, _, ho, hin => default_done (a.emits hsound hno) ho hin
  | .case pred a rest, hsound, hno, st, n, ho, hin => by
    obtain ⟨hpred, haction, hrest⟩ := hsound
    simp only [Cases.nests, Bool.or_eq_false_iff] at hno
    refine case_done hpred (a.emits haction hno.1) ho hin fun st₁ ho₁ hin₁ => ?_
    have hcount : n + (Cases.case pred a rest).count = n + 1 + rest.count := by
      simp only [Cases.count]
      omega
    rw [hcount]
    exact Cases.done rest hrest hno.2 st₁ (n + 1) ho₁ hin₁

/-- Without a nested `se_cond` the DSL accepts the cases, and emits them in turn. -/
theorem se_cond_emits {cases : Cases} (hsound : cases.Sound) (hno : cases.nests = false)
    (ho : Ordered st.builder.current_call_stack) :
    ∃ st' pointer_index items, se_cond cases.closures st = .ok st' ∧ Alternating items ∧
      st'.builder.view =
        st.builder.view.put [.call (ascii "SE_COND") .m_call pointer_index items] ∧
      Ordered st'.builder.current_call_stack ∧ st'.cond = .start := by
  have ho₁ := (start_call_effect (ascii "SE_COND") .m_call ho).2
  obtain ⟨st₂, hall, ⟨items, halt, hview⟩, ho₂, hcond⟩ := cases.done hsound hno
    ⟨st.builder.start_call (ascii "SE_COND") .m_call, ⟨0, false, true⟩⟩ 0 ho₁ rfl
  obtain ⟨b, pointer_index, hcall, hput, ho₃⟩ :=
    call_run ⟨st.builder, ⟨0, false, true⟩⟩ ho hall hview ho₂
  have hcount : ¬ 0 + cases.count = 0 := by
    cases cases <;> simp [Cases.count]
  refine ⟨⟨b, .start⟩, pointer_index, items, ?_, halt, hput, ho₃, rfl⟩
  simp only [se_cond, hcall, hcond, if_neg hcount, Bool.not_true, Bool.false_eq_true, if_false]

/-! ## A nested `se_cond` -/

theorem Cases.outside (cases : Cases) (hout : st.cond = .start) :
    Closure.all cases.closures st ≠ .ok st' := by
  intro h
  cases cases with
  | default a =>
    obtain ⟨st₁, hrun, -⟩ := andThen_ok h
    simp [se_cond_default, hout, CondLocals.start] at hrun
  | case pred a rest =>
    obtain ⟨st₁, hrun, -⟩ := andThen_ok h
    simp [se_cond_case, hout, CondLocals.start] at hrun

theorem se_cond_none {cases : List Closure}
    (h : ∀ st₁ st₂ : LuaState, st₁.builder = st.builder.start_call (ascii "SE_COND") .m_call →
      InCond st₁ 0 → Closure.all cases st₁ = .ok st₂ → st₂.cond = .start ∧
      Ordered st₂.builder.current_call_stack) : se_cond cases st ≠ .ok st' := by
  intro hrun
  simp only [se_cond] at hrun
  split at hrun
  · exact nomatch hrun
  · rename_i st₃ hcall
    obtain ⟨st₁, hstart, hrest⟩ := andThen_ok hcall
    rw [op_start] at hstart
    cases hstart
    obtain ⟨st₂, hbody, hend⟩ := andThen_ok hrest
    obtain ⟨hcond, ho₂⟩ := h ⟨_, ⟨0, false, true⟩⟩ st₂ rfl rfl hbody
    rw [(op_end ho₂ hend).1, hcond] at hrun
    exact nomatch hrun

mutual

theorem Action.clears : ∀ a : Action, a.Sound → a.hasCond = true → Clears a.closure
  | .plain _, _, hhas => nomatch hhas
  | .within func_name body, hsound, hhas => (Actions.clears body hsound hhas).call func_name .m_call
  | .cond cases, hsound, _ => by
    intro st st' ho hrun
    cases hno : cases.nests with
    | true =>
      refine absurd hrun (se_cond_none fun st₁ st₂ hb hin hall => ?_)
      have ho₁ := (start_call_effect (ascii "SE_COND") .m_call ho).2
      rw [← hb] at ho₁
      exact Cases.clears cases hsound hno st₁ st₂ 0 ho₁ hin hall
    | false =>
      obtain ⟨st₁, -, -, hok, -, -, ho₁, hcond⟩ := se_cond_emits hsound hno ho
      obtain rfl : st₁ = st' := Except.ok.inj (hok.symm.trans hrun)
      exact ⟨hcond, ho₁⟩

theorem Actions.clears : ∀ body : Actions, body.Sound → body.hasCond = true → Clears body.closure
  | .nil, _, hhas => nomatch hhas
  | .cons a rest, hsound, hhas => by
    simp only [Actions.hasCond, Bool.or_eq_true] at hhas
    cases hfirst : a.hasCond with
    | false =>
      have hlater : rest.hasCond = true := hhas.resolve_left (by simp [hfirst])
      exact (Actions.clears rest hsound.2 hlater).after (a.emits hsound.1 hfirst)
    | true =>
      cases hlater : rest.hasCond with
      | false => exact (Action.clears a hsound.1 hfirst).before (rest.emits hsound.2 hlater)
      | true => exact (Action.clears a hsound.1 hfirst).both (Actions.clears rest hsound.2 hlater)

/-- After an action with a `se_cond` the cases are at an end, and none counts as seen. -/
theorem Cases.clears : ∀ cases : Cases, cases.Sound → cases.nests = true → ∀ (st st' : LuaState)
    (n : Nat), Ordered st.builder.current_call_stack → InCond st n →
    Closure.all cases.closures st = .ok st' →
    st'.cond = .start ∧ Ordered st'.builder.current_call_stack
  | .default a, hsound, hhas, st, st', n, ho, hin, hall => by
    unfold InCond at hin
    obtain ⟨st₁, hrun, hnil⟩ := andThen_ok hall
    cases hnil
    simp only [se_cond_default, hin] at hrun
    exact (Action.clears a hsound hhas).after se_true_emits
      { st with cond := ⟨n + 1, true, true⟩ } st' ho hrun
  | .case pred a rest, hsound, hhas, st, st', n, ho, hin, hall => by
    unfold InCond at hin
    obtain ⟨hpred, haction, hrest⟩ := hsound
    obtain ⟨st₁, hrun, hlater⟩ := andThen_ok hall
    simp only [se_cond_case, hin] at hrun
    simp only [Cases.nests, Bool.or_eq_true] at hhas
    cases hfirst : a.hasCond with
    | true =>
      obtain ⟨hcond, -⟩ := (Action.clears a haction hfirst).after hpred
        { st with cond := ⟨n + 1, false, true⟩ } st₁ ho hrun
      exact absurd hlater (rest.outside hcond)
    | false =>
      have hnests : rest.nests = true := hhas.resolve_left (by simp [hfirst])
      obtain ⟨st₁', items, hok, -, -, ho₁, hcond⟩ :=
        pair_emits hpred (a.emits haction hfirst) { st with cond := ⟨n + 1, false, true⟩ } ho
      obtain rfl : st₁' = st₁ := Except.ok.inj (hok.symm.trans hrun)
      exact Cases.clears rest hrest hnests st₁' st' (n + 1) ho₁ hcond hlater

end

/-- The DSL accepts the cases, and emits a predicate and an action for each of them. -/
def Accepts (cases : Cases) (st : LuaState) : Prop :=
  ∃ st' pointer_index items, se_cond cases.closures st = .ok st' ∧ Alternating items ∧
    st'.builder.view = st.builder.view.put [.call (ascii "SE_COND") .m_call pointer_index items]

/-- A `se_cond` is accepted exactly when none of its actions has a `se_cond` in it. -/
theorem accepts_iff {cases : Cases} (hsound : cases.Sound)
    (ho : Ordered st.builder.current_call_stack) : Accepts cases st ↔ cases.nests = false := by
  constructor
  · rintro ⟨st', -, -, hok, -⟩
    by_contra hnests
    rw [Bool.not_eq_false] at hnests
    refine se_cond_none (fun st₁ st₂ hb hin hall => ?_) hok
    have ho₁ := (start_call_effect (ascii "SE_COND") .m_call ho).2
    rw [← hb] at ho₁
    exact Cases.clears cases hsound hnests st₁ st₂ 0 ho₁ hin hall
  · intro hno
    obtain ⟨st', pointer_index, items, hok, halt, hview, -⟩ := se_cond_emits hsound hno ho
    exact ⟨st', pointer_index, items, hok, halt, hview⟩

end motioncore.dsl
