-- The functions that count events in their slot, and what one call of each of them does.
import Mathlib.Algebra.Group.Nat.Defs
import MotionCore.Lib.Mealy
import MotionCore.Slots.Isolation

namespace motioncore.slots

open engine

variable {E : Type}

/-! ## The functions -/

def TICK : UInt16 := 4

def paramValue (params : List Node) (j : Nat) : Int :=
  match params[j]? with
  | some (.param value) => value
  | _ => 0

/-- The cast to `uint32_t`. -/
def paramU32 (params : List Node) (j : Nat) : UInt32 := UInt32.ofInt (paramValue params j)

def se_tick_delay (params : List Node) : EventType → Nat → Code E Result
  | EventType.SE_EVENT_INIT, _ =>
    let ticks := if 0 < params.length then paramU32 params 0 else 0
    .set_user_u64 (ticks + 1).toUInt64 (.ret SE_PIPELINE_CONTINUE)
  | EventType.SE_EVENT_TERMINATE, _ => .ret SE_PIPELINE_CONTINUE
  | EventType.SE_EVENT_TICK, _ => .get_user_u64 fun remaining =>
    if 0 < remaining then .set_user_u64 (remaining - 1) (.ret SE_FUNCTION_HALT)
    else .ret SE_PIPELINE_DISABLE

/-- The two numbers of `se_wait_event` in one slot. -/
def packed (target_event count : UInt32) : UInt64 := target_event.toUInt64 <<< 32 ||| count.toUInt64

def se_wait_event (params : List Node) : EventType → Nat → Code E Result
  | EventType.SE_EVENT_TERMINATE, _ => .ret SE_PIPELINE_CONTINUE
  | EventType.SE_EVENT_INIT, _ =>
    if params.length < 2 then .ret SE_PIPELINE_DISABLE
    else .set_user_u64 (packed (paramU32 params 0) (paramU32 params 1)) (.ret SE_PIPELINE_CONTINUE)
  | EventType.SE_EVENT_TICK, event_id => .get_user_u64 fun state =>
    let target_event := (state >>> 32).toUInt32
    let remaining := (state &&& 0xFFFFFFFF).toUInt32
    if remaining = 0 then .ret SE_PIPELINE_DISABLE
    else if event_id = target_event.toNat then
      let remaining := remaining - 1
      .set_user_u64 (packed target_event remaining)
        (if remaining = 0 then .ret SE_PIPELINE_DISABLE else .ret SE_PIPELINE_HALT)
    else .ret SE_PIPELINE_HALT

def se_verify_and_check_elapsed_events (params : List Node) : EventType → Nat → Code E Result
  | EventType.SE_EVENT_TERMINATE, _ => .ret SE_PIPELINE_CONTINUE
  | EventType.SE_EVENT_INIT, _ =>
    if params.length < 4 then .ret SE_PIPELINE_DISABLE
    else .set_user_u64 0 (.ret SE_PIPELINE_CONTINUE)
  | EventType.SE_EVENT_TICK, event_id =>
    let target_event := paramU32 params 0
    let max_count := paramU32 params 1
    let reset_flag := paramValue params 2 ≠ 0
    if event_id ≠ target_event.toNat then .ret SE_PIPELINE_CONTINUE
    else .get_user_u64 fun current_count =>
      let current_count := current_count + 1
      .set_user_u64 current_count <|
        if max_count.toUInt64 < current_count then
          .reset 3 <| .invoke 3 fun _ =>
            .ret (if reset_flag then SE_PIPELINE_RESET else SE_PIPELINE_TERMINATE)
        else .ret SE_PIPELINE_CONTINUE

variable (t c : UInt32)

theorem packed_toNat : (packed t c).toNat = 2 ^ 32 * t.toNat + c.toNat := by
  have ht := t.toNat_lt
  have hc := c.toNat_lt
  have hshift : 32 % 2 ^ 64 % 64 = 32 := by decide
  rw [Nat.two_pow_add_eq_or_of_lt hc]
  simp only [packed, UInt64.toNat_or, UInt64.toNat_shiftLeft, UInt32.toNat_toUInt64, UInt64.toNat_ofNat,
    Nat.shiftLeft_eq, hshift]
  congr 1
  omega

theorem packed_target : (packed t c >>> 32).toUInt32 = t := by
  have ht := t.toNat_lt
  have hc := c.toNat_lt
  have hshift : 32 % 2 ^ 64 % 64 = 32 := by decide
  apply UInt32.toNat_inj.mp
  simp only [UInt64.toNat_toUInt32, UInt64.toNat_shiftRight, packed_toNat, UInt64.toNat_ofNat,
    Nat.shiftRight_eq_div_pow, hshift]
  omega

theorem packed_count : (packed t c &&& 0xFFFFFFFF).toUInt32 = c := by
  have ht := t.toNat_lt
  have hc := c.toNat_lt
  have hmask : 4294967295 % 2 ^ 64 = 2 ^ 32 - 1 := by decide
  apply UInt32.toNat_inj.mp
  simp only [UInt64.toNat_toUInt32, UInt64.toNat_and, packed_toNat, UInt64.toNat_ofNat, hmask,
    Nat.and_two_pow_sub_one_eq_mod]
  omega

/-! ## Slots -/

section

variable {p : Nat} {v : UInt64} {s : Inst E}

theorem slot_exists (h : s.pointer_array[p % 256]? = some v) : p % 256 < s.pointer_count := by
  by_contra hlen
  rw [List.getElem?_eq_none (Nat.le_of_not_lt hlen)] at h
  cases h

theorem get_slot (hin : InCall p s) (h : s.pointer_array[p % 256]? = some v) :
    s.s_expr_get_user_u64 = (v, { s with log := s.log ++ [.read s.running v] }) := by
  have hlt := slot_exists h
  have hbase : s.pointer_base.toNat = p % 256 := by simp [hin.pointer_base]
  have hcount : ¬ s.pointer_count ≤ p % 256 := by omega
  simp [Inst.s_expr_get_user_u64, hin.in_pointer_call, hcount, hbase, List.getD_eq_getElem?_getD, h]

theorem get_value (hin : InCall p s) (h : s.pointer_array[p % 256]? = some v) :
    s.s_expr_get_user_u64.1 = v := by
  rw [get_slot hin h]

theorem set_slot (hin : InCall p s) (hlt : p % 256 < s.pointer_count) (value : UInt64) :
    s.s_expr_set_user_u64 value = { s with
      pointer_array := s.pointer_array.set (p % 256) value
      log := s.log ++ [.write s.running value] } := by
  have hbase : s.pointer_base.toNat = p % 256 := by simp [hin.pointer_base]
  have hcount : ¬ s.pointer_count ≤ p % 256 := by omega
  simp [Inst.s_expr_set_user_u64, hin.in_pointer_call, hcount, hbase]

end

/-! ## Counters -/

/-- An active node whose slot exists. Its counter is the number in the slot, or the one that its
first call is going to put there. -/
structure Counter (node_index p : Nat) (start v : UInt64) (s : Inst E) : Prop where
  active : (s.state node_index).active = true
  in_range : p % 256 < s.pointer_count
  running : (s.state node_index).initialized = true → s.pointer_array[p % 256]? = some v
  fresh : (s.state node_index).initialized = false → v = start

/-- The call after INIT: the counter is in the slot, and the rest is as it was. -/
structure Started (node_index p : Nat) (v : UInt64) (s s' : Inst E) : Prop where
  in_call : InCall p s'
  slot : s'.pointer_array[p % 256]? = some v
  pointer_count : s'.pointer_count = s.pointer_count
  active : (s'.state node_index).active = (s.state node_index).active
  initialized : (s'.state node_index).initialized = true
  rest : ∀ m, m ≠ node_index → s'.state m = s.state m
  event : s'.others.current_event_id = s.others.current_event_id
  fired : s'.fired = s.fired

theorem first_call_started {node_index p : Nat} {start v : UInt64} {s : Inst E} {args : List Node}
    {fn : List Node → EventType → Nat → Code E Result} {event_id : Nat} {r : Result}
    (kids : List (Kid E)) (hinit : fn args EventType.SE_EVENT_INIT event_id = .set_user_u64 start (.ret r))
    (h : Counter node_index p start v s) :
    Started node_index p v s (first_call node_index args kids fn event_id (s.enter node_index (some p))) := by
  have hrange : p % 256 < s.pointer_array.length := h.in_range
  unfold first_call
  split
  · next hdone =>
    exact ⟨⟨rfl, rfl, rfl⟩, h.running hdone, rfl, rfl, hdone, fun _ _ => rfl, rfl, rfl⟩
  · next hfresh =>
    rw [Bool.not_eq_true] at hfresh
    obtain rfl := h.fresh hfresh
    have hin : InCall p ((s.enter node_index (some p)).setNode node_index
        { (s.enter node_index (some p)).state node_index with initialized := true }) := ⟨rfl, rfl, rfl⟩
    simp only [hinit, Code.run, set_slot hin hrange]
    refine ⟨⟨rfl, rfl, rfl⟩, ?_, ?_, ?_, ?_, fun m hm => ?_, rfl, rfl⟩
    · simp [Inst.setNode, Inst.enter, hrange]
    · simp [Inst.pointer_count, Inst.setNode, Inst.enter]
    · simp [Inst.state, Inst.setNode, Inst.enter]
    · simp [Inst.state, Inst.setNode]
    · simp [Inst.state, Inst.setNode, Inst.enter, hm]

/-! ## Calls -/

section

variable {w : World E} {func node_index p : Nat} {args : List Node} (kids : List (Kid E))
variable {fn : List Node → EventType → Nat → Code E Result} {start v : UInt64} {s s' : Inst E} {r : Result}

theorem dispatch_started (hfn : w.main func = some fn)
    (hinit : ∀ event_id, ∃ r, fn args EventType.SE_EVENT_INIT event_id = .set_user_u64 start (.ret r))
    (h : Counter node_index p start v s) : ∃ s', Started node_index p v s s' ∧
      dispatch_main w func node_index (some p) args kids s =
        (((fn args EventType.SE_EVENT_TICK s.others.current_event_id).run kids s').1,
          (last_call node_index args kids fn s.others.current_event_id
            ((fn args EventType.SE_EVENT_TICK s.others.current_event_id).run kids s').1
            ((fn args EventType.SE_EVENT_TICK s.others.current_event_id).run kids s').2).leave s) := by
  obtain ⟨r, hr⟩ := hinit s.others.current_event_id
  refine ⟨_, first_call_started kids hr h, ?_⟩
  simp only [dispatch_main, h.active, hfn, Bool.not_true, Bool.false_eq_true, if_false]

/-- The function has put a number into its slot, and the rest is as it was. -/
structure Stored (p : Nat) (v : UInt64) (s s' : Inst E) : Prop where
  slot : s'.pointer_array[p % 256]? = some v
  pointer_count : s'.pointer_count = s.pointer_count
  others : s'.others = s.others
  fired : s'.fired = s.fired

theorem get_stored (hin : InCall p s) (h : s.pointer_array[p % 256]? = some v) :
    Stored p v s s.s_expr_get_user_u64.2 := by
  rw [get_slot hin h]
  exact ⟨h, rfl, rfl, rfl⟩

theorem get_set_stored (hin : InCall p s) (h : s.pointer_array[p % 256]? = some v) (v' : UInt64) :
    Stored p v' s (s.s_expr_get_user_u64.2.s_expr_set_user_u64 v') := by
  have hlt : p % 256 < s.pointer_array.length := slot_exists h
  have hin' : InCall p { s with log := s.log ++ [.read s.running v] } := ⟨hin.1, hin.2, hin.3⟩
  rw [get_slot hin h, set_slot hin' hlt]
  refine ⟨by simp [hlt], by simp [Inst.pointer_count], rfl, rfl⟩

theorem dispatch_stores (hfn : w.main func = some fn)
    (hinit : ∀ event_id, ∃ r, fn args EventType.SE_EVENT_INIT event_id = .set_user_u64 start (.ret r))
    (h : Counter node_index p start v s) (v' : UInt64)
    (hbody : ∀ s', InCall p s' → s'.pointer_array[p % 256]? = some v →
      ∃ s'', (fn args EventType.SE_EVENT_TICK s.others.current_event_id).run kids s' = (r, s'') ∧ Stored p v' s' s'') :
    (dispatch_main w func node_index (some p) args kids s).1 = r ∧
      (r ≠ SE_PIPELINE_DISABLE →
        Counter node_index p start v' (dispatch_main w func node_index (some p) args kids s).2 ∧
        (∀ m, (dispatch_main w func node_index (some p) args kids s).2.runs m = s.runs m) ∧
        ∀ m, m ≠ node_index → (dispatch_main w func node_index (some p) args kids s).2.state m = s.state m) := by
  obtain ⟨s', hs, hdispatch⟩ := dispatch_started kids hfn hinit h
  obtain ⟨s'', hrun, hstored⟩ := hbody s' hs.in_call hs.slot
  rw [hdispatch, hrun]
  refine ⟨rfl, fun hr => ?_⟩
  have hstate : ∀ m, s''.state m = s'.state m := fun m => by simp [Inst.state, hstored.others]
  simp only [last_call, if_neg hr]
  have hfired : s''.fired = s.fired := hstored.fired.trans hs.fired
  refine ⟨⟨?_, ?_, fun _ => hstored.slot, fun hfresh => ?_⟩, fun m => congrArg (List.count m) hfired,
    fun m hm => ?_⟩
  · exact (congrArg NodeState.active (hstate node_index)).trans (hs.active.trans h.active)
  · have hcount : s''.pointer_count = s.pointer_count := hstored.pointer_count.trans hs.pointer_count
    exact hcount ▸ h.in_range
  · have hdone : (s''.state node_index).initialized = true :=
      (congrArg NodeState.initialized (hstate node_index)).trans hs.initialized
    exact absurd (hdone.symm.trans hfresh) (by decide)
  · exact (hstate m).trans (hs.rest m hm)

end

/-! ## One event -/

section

variable {w : World E} {func node_index p : Nat} {kids : List (Kid E)} {s : Inst E}

theorem paramU32_nat {params : List Node} {j n : Nat} (h : params[j]? = some (.param n)) :
    paramU32 params j = UInt32.ofNat n := by
  have hint : ((n : Int) % 2 ^ 32).toNat = n % 2 ^ 32 := by omega
  apply UInt32.toNat_inj.mp
  simp only [paramU32, paramValue, h, UInt32.ofInt, hint, UInt32.toNat_ofNat']
  omega

/-- `remaining` events are still waited for, whatever they are. -/
def delayStep (remaining : Nat) (_ : UInt16) : Nat × Result :=
  if 0 < remaining then (remaining - 1, SE_FUNCTION_HALT) else (remaining, SE_PIPELINE_DISABLE)

def delayStart (n : Nat) : Nat := (n + 1) % 2 ^ 32

theorem tick_delay_call (hfn : w.main func = some se_tick_delay) (n : Nat) {v : Nat} (hv : v < 2 ^ 64)
    (h : Counter node_index p (UInt64.ofNat (delayStart n)) (UInt64.ofNat v) s) (event : UInt16) :
    (dispatch_main w func node_index (some p) [.param n] kids s).1 = (delayStep v event).2 ∧
      ((delayStep v event).2 ≠ SE_PIPELINE_DISABLE →
        Counter node_index p (UInt64.ofNat (delayStart n)) (UInt64.ofNat (delayStep v event).1)
          (dispatch_main w func node_index (some p) [.param n] kids s).2) := by
  have hinit : ∀ event_id, ∃ r, (se_tick_delay [.param n] EventType.SE_EVENT_INIT event_id : Code E Result) =
      .set_user_u64 (UInt64.ofNat (delayStart n)) (.ret r) := by
    intro event_id
    have hstart : (UInt32.ofNat n + 1).toUInt64 = UInt64.ofNat (delayStart n) := by
      apply UInt64.toNat_inj.mp
      simp [delayStart]
      omega
    have hparam : paramU32 [.param n] 0 = UInt32.ofNat n := paramU32_nat rfl
    exact ⟨SE_PIPELINE_CONTINUE, by simp [se_tick_delay, hparam, hstart]⟩
  have hpos : 0 < UInt64.ofNat v ↔ 0 < v := by
    rw [UInt64.lt_iff_toNat_lt]
    simp
    omega
  have hbody := dispatch_stores kids (r := (delayStep v event).2) hfn hinit h
    (UInt64.ofNat (delayStep v event).1) fun s' hin hslot => by
      simp only [se_tick_delay, Code.run, get_value hin hslot, hpos]
      by_cases hv0 : 0 < v
      · have hdec : UInt64.ofNat v - 1 = UInt64.ofNat (v - 1) := by
          apply UInt64.toNat_inj.mp
          rw [UInt64.toNat_sub_of_le]
          · simp
            omega
          · rw [UInt64.le_iff_toNat_le]
            simp
            omega
        simp only [delayStep, hv0, if_true, Code.run, hdec]
        exact ⟨_, rfl, get_set_stored hin hslot _⟩
      · simp only [delayStep, hv0, if_false, Code.run]
        exact ⟨_, rfl, get_stored hin hslot⟩
  exact ⟨hbody.1, fun hr => (hbody.2 hr).1⟩

def waitStep (e : UInt16) (remaining : Nat) (event : UInt16) : Nat × Result :=
  if remaining = 0 then (0, SE_PIPELINE_DISABLE)
  else if event = e then (remaining - 1, if remaining = 1 then SE_PIPELINE_DISABLE else SE_PIPELINE_HALT)
  else (remaining, SE_PIPELINE_HALT)

def waitSlot (e : UInt16) (remaining : Nat) : UInt64 := packed e.toUInt32 (UInt32.ofNat remaining)

theorem wait_event_call (hfn : w.main func = some se_wait_event) (e : UInt16) (n : Nat) {v : Nat}
    (hv : v < 2 ^ 32) (h : Counter node_index p (waitSlot e (n % 2 ^ 32)) (waitSlot e v) s)
    {event : UInt16} (hevent : s.others.current_event_id = event.toNat) :
    (dispatch_main w func node_index (some p) [.param e.toNat, .param n] kids s).1 = (waitStep e v event).2 ∧
      ((waitStep e v event).2 ≠ SE_PIPELINE_DISABLE →
        Counter node_index p (waitSlot e (n % 2 ^ 32)) (waitSlot e (waitStep e v event).1)
          (dispatch_main w func node_index (some p) [.param e.toNat, .param n] kids s).2) := by
  have hinit : ∀ event_id, ∃ r,
      (se_wait_event [.param e.toNat, .param n] EventType.SE_EVENT_INIT event_id : Code E Result) =
        .set_user_u64 (waitSlot e (n % 2 ^ 32)) (.ret r) := by
    intro event_id
    have htarget : paramU32 [.param e.toNat, .param n] 0 = e.toUInt32 := by
      rw [paramU32_nat (n := e.toNat) rfl]
      apply UInt32.toNat_inj.mp
      simp
    have hcount : paramU32 [.param e.toNat, .param n] 1 = UInt32.ofNat (n % 2 ^ 32) := by
      rw [paramU32_nat (n := n) rfl]
      apply UInt32.toNat_inj.mp
      simp
    exact ⟨SE_PIPELINE_CONTINUE, by simp [se_wait_event, htarget, hcount, waitSlot]⟩
  have hzero : UInt32.ofNat v = 0 ↔ v = 0 := by
    rw [← UInt32.toNat_inj]
    simp
    omega
  have hmatch : event.toNat = e.toUInt32.toNat ↔ event = e := by
    rw [UInt16.toNat_toUInt32, UInt16.toNat_inj]
  have hbody := dispatch_stores kids (r := (waitStep e v event).2) hfn hinit h
    (waitSlot e (waitStep e v event).1) fun s' hin hslot => by
      simp only [se_wait_event, Code.run, get_value hin hslot, hevent, waitSlot, packed_target, packed_count,
        hzero, hmatch]
      by_cases hv0 : v = 0
      · subst hv0
        simp only [waitStep, if_true, Code.run]
        exact ⟨_, rfl, get_stored hin hslot⟩
      · simp only [waitStep, hv0, if_false]
        by_cases he : event = e
        · have hdec : UInt32.ofNat v - 1 = UInt32.ofNat (v - 1) := by
            apply UInt32.toNat_inj.mp
            rw [UInt32.toNat_sub_of_le]
            · simp
              omega
            · rw [UInt32.le_iff_toNat_le]
              simp
              omega
          have hone : UInt32.ofNat (v - 1) = 0 ↔ v = 1 := by
            rw [← UInt32.toNat_inj]
            simp
            omega
          simp only [he, if_true, Code.run, hdec, hone]
          refine ⟨_, ?_, get_set_stored hin hslot _⟩
          split <;> rfl
        · simp only [he, if_false, Code.run]
          exact ⟨_, rfl, get_stored hin hslot⟩
  exact ⟨hbody.1, fun hr => (hbody.2 hr).1⟩

/-- `count` of the events `e` have been seen, and more than `max` are an error. -/
def verifyStep (e : UInt16) (max : Nat) (reset_flag : Bool) (count : Nat) (event : UInt16) : Nat × Result :=
  if event = e then
    (count + 1, if max < count + 1 then (if reset_flag then SE_PIPELINE_RESET else SE_PIPELINE_TERMINATE)
      else SE_PIPELINE_CONTINUE)
  else (count, SE_PIPELINE_CONTINUE)

theorem verifyStep_not_disable (e : UInt16) (max : Nat) (reset_flag : Bool) (count : Nat) (event : UInt16) :
    (verifyStep e max reset_flag count event).2 ≠ SE_PIPELINE_DISABLE := by
  unfold verifyStep
  split
  · dsimp only
    split
    · cases reset_flag <;> simp [SE_PIPELINE_RESET, SE_PIPELINE_TERMINATE, SE_PIPELINE_DISABLE]
    · simp [SE_PIPELINE_CONTINUE, SE_PIPELINE_DISABLE]
  · simp [SE_PIPELINE_CONTINUE, SE_PIPELINE_DISABLE]

section

variable (e : UInt16) (n reset_value handler_func handler : Nat) (survives_reset : Bool) (handler_args : List Node)

/-- The parameters of the call, the last of them the error handler. -/
def verifyParams : List Node :=
  [.param e.toNat, .param n, .param reset_value, .oneshot handler_func handler survives_reset handler_args]

theorem verify_init (event_id : Nat) : ∃ r, (se_verify_and_check_elapsed_events
    (verifyParams e n reset_value handler_func handler survives_reset handler_args) EventType.SE_EVENT_INIT event_id :
      Code E Result) = .set_user_u64 0 (.ret r) :=
  ⟨SE_PIPELINE_CONTINUE, by simp [se_verify_and_check_elapsed_events, verifyParams]⟩

variable {e n reset_value handler_func handler survives_reset handler_args}

theorem verify_tick (event : UInt16) : (se_verify_and_check_elapsed_events
    (verifyParams e n reset_value handler_func handler survives_reset handler_args) EventType.SE_EVENT_TICK event.toNat :
      Code E Result) =
    if event = e then
      .get_user_u64 fun count => .set_user_u64 (count + 1) <|
        if UInt64.ofNat (n % 2 ^ 32) < count + 1 then
          .reset 3 <| .invoke 3 fun _ =>
            .ret (if reset_value ≠ 0 then SE_PIPELINE_RESET else SE_PIPELINE_TERMINATE)
        else .ret SE_PIPELINE_CONTINUE else .ret SE_PIPELINE_CONTINUE := by
  have htarget : (paramU32 (verifyParams e n reset_value handler_func handler survives_reset handler_args)
      0).toNat = e.toNat := by
    rw [paramU32_nat (n := e.toNat) rfl]
    simp
  have hmax : (paramU32 (verifyParams e n reset_value handler_func handler survives_reset handler_args)
      1).toUInt64 = UInt64.ofNat (n % 2 ^ 32) := by
    rw [paramU32_nat (n := n) rfl]
    apply UInt64.toNat_inj.mp
    simp
    omega
  have hreset : paramValue (verifyParams e n reset_value handler_func handler survives_reset handler_args)
      2 = reset_value := rfl
  simp only [se_verify_and_check_elapsed_events, htarget, hmax, hreset, ne_eq, UInt16.toNat_inj, ite_not,
    Int.natCast_eq_zero]

variable (kids) {count : Nat} {event : UInt16}

theorem verify_call (hfn : w.main func = some se_verify_and_check_elapsed_events)
    (h : Counter node_index p 0 (UInt64.ofNat count) s)
    (hevent : s.others.current_event_id = event.toNat) (hquiet : event = e → count < n % 2 ^ 32) :
    let out := dispatch_main w func node_index (some p)
      (verifyParams e n reset_value handler_func handler survives_reset handler_args) kids s
    out.1 = (verifyStep e (n % 2 ^ 32) (reset_value ≠ 0) count event).2 ∧
      Counter node_index p 0 (UInt64.ofNat (verifyStep e (n % 2 ^ 32) (reset_value ≠ 0) count event).1) out.2 ∧
      (∀ m, out.2.runs m = s.runs m) ∧ ∀ m, m ≠ node_index → out.2.state m = s.state m := by
  have hbody := dispatch_stores kids (r := (verifyStep e (n % 2 ^ 32) (reset_value ≠ 0) count event).2) hfn
    (verify_init e n reset_value handler_func handler survives_reset handler_args) h
    (UInt64.ofNat (verifyStep e (n % 2 ^ 32) (reset_value ≠ 0) count event).1)
    fun s' hin hslot => by
      rw [hevent, verify_tick]
      by_cases he : event = e
      · have hinc : UInt64.ofNat count + 1 = UInt64.ofNat (count + 1) := by
          apply UInt64.toNat_inj.mp
          simp
        have hlt : ¬ UInt64.ofNat (n % 2 ^ 32) < UInt64.ofNat (count + 1) := by
          have := hquiet he
          rw [UInt64.lt_iff_toNat_lt]
          simp
          omega
        have hmax : ¬ n % 2 ^ 32 < count + 1 := by
          have := hquiet he
          omega
        simp only [verifyStep, he, if_true, if_false, hmax, Code.run, get_value hin hslot, hinc, hlt]
        exact ⟨_, rfl, get_set_stored hin hslot _⟩
      · simp only [verifyStep, he, if_false, Code.run]
        exact ⟨_, rfl, hslot, rfl, rfl, rfl⟩
  obtain ⟨hcounter, hruns, hstate⟩ := hbody.2 (verifyStep_not_disable _ _ _ _ _)
  exact ⟨hbody.1, hcounter, hruns, hstate⟩

/-- The call that runs it. A handler that survives resets runs only if it never has before. -/
theorem verify_error_call (hfn : w.main func = some se_verify_and_check_elapsed_events)
    (hhandler : (w.oneshot handler_func).isSome) (hne : handler ≠ node_index)
    (hargs : handler ∉ Node.indicesAll handler_args)
    (h : Counter node_index p 0 (UInt64.ofNat (n % 2 ^ 32)) s)
    (hevent : s.others.current_event_id = e.toNat) :
    let params := verifyParams e n reset_value handler_func handler survives_reset handler_args
    let out := dispatch_main w func node_index (some p) params (Node.kids w params) s
    out.1 = (if reset_value ≠ 0 then SE_PIPELINE_RESET else SE_PIPELINE_TERMINATE) ∧
      out.2.runs handler =
        s.runs handler + if survives_reset && (s.state handler).ever_init then 0 else 1 := by
  intro params out
  obtain ⟨s', hs, hdispatch⟩ := dispatch_started (Node.kids w params) hfn
    (verify_init e n reset_value handler_func handler survives_reset handler_args) h
  have hover : UInt64.ofNat (n % 2 ^ 32) < UInt64.ofNat (n % 2 ^ 32) + 1 := by
    rw [UInt64.lt_iff_toNat_lt]
    simp
    omega
  obtain ⟨s₁, hs₁⟩ : ∃ s₁, s₁ = s'.s_expr_get_user_u64.2.s_expr_set_user_u64 (UInt64.ofNat (n % 2 ^ 32) + 1) :=
    ⟨_, rfl⟩
  have hstored : Stored p _ s' s₁ := hs₁ ▸ get_set_stored hs.in_call hs.slot _
  have hkid : kidAt (Node.kids w params) 3 =
      (Node.oneshot handler_func handler survives_reset handler_args).kid w := rfl
  have hanswer : (if reset_value ≠ 0 then SE_PIPELINE_RESET else SE_PIPELINE_TERMINATE) ≠
      SE_PIPELINE_DISABLE := by
    split <;> simp [SE_PIPELINE_RESET, SE_PIPELINE_TERMINATE, SE_PIPELINE_DISABLE]
  have hrun : (se_verify_and_check_elapsed_events params EventType.SE_EVENT_TICK s.others.current_event_id).run
      (Node.kids w params) s' =
      (if reset_value ≠ 0 then SE_PIPELINE_RESET else SE_PIPELINE_TERMINATE,
        dispatch_oneshot w handler_func handler handler_args (Node.kids w handler_args) survives_reset
          (resetNode s₁ handler)) := by
    rw [hevent, verify_tick]
    simp only [if_true, Code.run, get_value hs.in_call hs.slot, hover, hkid, ← hs₁]
    rfl
  have hever : (s₁.state handler).ever_init = (s.state handler).ever_init := by
    rw [show s₁.state handler = s'.state handler by simp [Inst.state, hstored.others], hs.rest handler hne]
  have hready : ready survives_reset ((resetNode s₁ handler).state handler) =
      !(survives_reset && (s.state handler).ever_init) := by
    rw [← hever]
    cases survives_reset <;> simp [ready, resetNode, Inst.state, Inst.setNode]
  have hbefore : (resetNode s₁ handler).runs handler = s.runs handler :=
    congrArg (List.count handler) (hstored.fired.trans hs.fired)
  rw [show out = _ from hdispatch, hrun]
  refine ⟨rfl, ?_⟩
  simp only [last_call, if_neg hanswer]
  refine (dispatch_oneshot_runs (nodes_spare handler_args hargs) survives_reset _).trans ?_
  rw [hbefore, hready]
  cases survives_reset && (s.state handler).ever_init <;> simp [hhandler]

end

end

end motioncore.slots
