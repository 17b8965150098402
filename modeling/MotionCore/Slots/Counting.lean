-- What the functions that count events answer in a whole activation, for every stream of events.
-- A composite around the node hands it each event; what else it does leaves the node alone.
import MotionCore.Slots.Delays

namespace motioncore.slots

open engine mealy

variable {E : Type}

/-! ## Activations -/

/-- What happens elsewhere does not touch what is the node's own: its slots, and the states of the
nodes in it. -/
structure Elsewhere (t : Node) (s s' : Inst E) : Prop where
  pointer_count : s'.pointer_count = s.pointer_count
  values : ∀ p ∈ t.pointers, s'.pointer_array[p % 256]? = s.pointer_array[p % 256]?
  states : ∀ m ∈ t.indices, s'.state m = s.state m
  runs : ∀ m ∈ t.indices, s'.runs m = s.runs m

structure Delivery (E : Type) where
  before : Inst E
  answer : Result
  after : Inst E

def deliver (w : World E) (t : Node) (s : Inst E) : Delivery E :=
  ⟨s, ((t.kid w).invoke s).1, ((t.kid w).invoke s).2⟩

/-- The answers with which a composite ends the activation. -/
def completes (r : Result) : Bool :=
  decide (r = SE_PIPELINE_DISABLE ∨ r = SE_PIPELINE_TERMINATE ∨ r = SE_PIPELINE_RESET)

/-- The node gets each event once, until it completes or there are no more. -/
inductive Activation (w : World E) (t : Node) : Inst E → List UInt16 → List (Delivery E) → Prop where
  | ended {s : Inst E} : Activation w t s [] []
  | completed {s s' : Inst E} {event : UInt16} {events : List UInt16} :
    Elsewhere t s s' → s'.others.current_event_id = event.toNat →
    completes (deliver w t s').answer = true →
    Activation w t s (event :: events) [deliver w t s']
  | goes_on {s s' : Inst E} {event : UInt16} {events : List UInt16} {ds : List (Delivery E)} :
    Elsewhere t s s' → s'.others.current_event_id = event.toNat →
    completes (deliver w t s').answer = false →
    Activation w t (deliver w t s').after events ds →
    Activation w t s (event :: events) (deliver w t s' :: ds)

variable {s : Inst E}

/-- A node that follows a machine event by event follows it in its whole activation. -/
theorem activation_run {w : World E} {t : Node} {σ : Type} (step : σ → UInt16 → σ × Result)
    (I : σ → Inst E → Prop) (helse : ∀ v s s', I v s → Elsewhere t s s' → I v s')
    (hstep : ∀ v s event, I v s → s.others.current_event_id = event.toNat →
      (deliver w t s).answer = (step v event).2 ∧ (completes (step v event).2 = false →
      I (step v event).1 (deliver w t s).after))
    {events : List UInt16} {ds : List (Delivery E)} (h : Activation w t s events ds) {v : σ}
    (hv : I v s) : ds.map Delivery.answer = mealy.answers step completes v events ∧
      ∀ i d, ds[i]? = some d → ∃ event, events[i]? = some event ∧
        I (after step v (events.take i)) d.before ∧ d.before.others.current_event_id = event.toNat ∧
        d = deliver w t d.before := by
  induction h generalizing v with
  | ended => simp [mealy.answers]
  | @completed s s' event events hs hevent hend =>
    have hv' := helse v s s' hv hs
    obtain ⟨hanswer, -⟩ := hstep v s' event hv' hevent
    refine ⟨?_, fun i d hd => ?_⟩
    · rw [hanswer] at hend
      simp [mealy.answers, hend, hanswer]
    · cases i with
      | zero =>
        obtain rfl : deliver w t s' = d := Option.some.inj hd
        exact ⟨event, rfl, hv', hevent, rfl⟩
      | succ i => simp at hd
  | @goes_on s s' event events ds hs hevent hend _ ih =>
    have hv' := helse v s s' hv hs
    obtain ⟨hanswer, hnext⟩ := hstep v s' event hv' hevent
    rw [hanswer] at hend
    obtain ⟨hanswers, hds⟩ := ih (hnext hend)
    refine ⟨?_, fun i d hd => ?_⟩
    · simp [mealy.answers, hend, hanswer, hanswers]
    · cases i with
      | zero =>
        obtain rfl : deliver w t s' = d := Option.some.inj hd
        exact ⟨event, rfl, hv', hevent, rfl⟩
      | succ i => exact hds i d hd

/-- The node has been reset, and its slot is there. -/
structure Waiting (node_index p : Nat) (s : Inst E) : Prop where
  active : (s.state node_index).active = true
  fresh : (s.state node_index).initialized = false
  in_range : p < s.pointer_count

theorem waiting_counter {node_index p : Nat} (h : Waiting node_index p s) (start : UInt64) :
    Counter node_index p start start s where
  active := h.active
  in_range := Nat.lt_of_le_of_lt (Nat.mod_le p 256) h.in_range
  running hdone := absurd (h.fresh.symm.trans hdone) (by decide)
  fresh _ := rfl

theorem counter_elsewhere {func node_index p : Nat} {args : List Node} {start v : UInt64}
    {s' : Inst E} (h : Counter node_index p start v s)
    (hs : Elsewhere (.main func node_index (some p) args) s s') :
    Counter node_index p start v s' := by
  have hstate : s'.state node_index = s.state node_index := hs.states node_index List.mem_cons_self
  have hslot := hs.values p List.mem_cons_self
  refine ⟨?_, ?_, fun hdone => ?_, fun hfresh => ?_⟩
  · rw [hstate]
    exact h.active
  · rw [hs.pointer_count]
    exact h.in_range
  · rw [hstate] at hdone
    exact hslot.trans (h.running hdone)
  · rw [hstate] at hfresh
    exact h.fresh hfresh

/-! ## Delays -/

/-- What `se_tick_delay(n)` is for: it halts on its first `n` ticks, and completes on the next. -/
def DelaysTicks (n : Nat) (events : List UInt16) (ds : List (Delivery E)) : Prop :=
  ∀ i d, ds[i]? = some d →
    (d.answer = SE_PIPELINE_DISABLE ↔ events[i]? = some TICK ∧ (events.take i).count TICK = n) ∧
    (events[i]? = some TICK → (d.answer = SE_FUNCTION_HALT ↔ (events.take i).count TICK < n))

/-- `delayStart n` events are waited for, of any kind. It is right when just one of them is no
tick, and a tick follows; or when the events end before. -/
def DelayFits (n : Nat) (events : List UInt16) : Prop :=
  if events.length ≤ delayStart n then events.count TICK ≤ n
  else events[delayStart n]? = some TICK ∧ (events.take (delayStart n)).count TICK = n

instance (n : Nat) (events : List UInt16) : Decidable (DelayFits n events) :=
  inferInstanceAs (Decidable (if events.length ≤ delayStart n then events.count TICK ≤ n
    else events[delayStart n]? = some TICK ∧ (events.take (delayStart n)).count TICK = n))

section

variable {w : World E} {func node_index p : Nat} {s : Inst E} {events : List UInt16} {ds : List (Delivery E)}
variable (e : UInt16) (v : Nat)

theorem delay_after (events : List UInt16) : after delayStep v events = v - events.length := by
  induction events generalizing v with
  | nil => rfl
  | cons event events ih =>
    have hfirst : (delayStep v event).1 = v - 1 := by
      unfold delayStep
      split
      · rfl
      · dsimp only
        omega
    rw [after, List.foldl_cons, hfirst]
    exact (ih (v - 1)).trans (by rw [List.length_cons]; omega)

variable (max : Nat) (reset_flag : Bool) (event : UInt16)

theorem delay_completes : completes (delayStep v event).2 = false ↔ 0 < v := by
  unfold delayStep
  split
  · next h => simp [h, completes, SE_FUNCTION_HALT, SE_PIPELINE_DISABLE, SE_PIPELINE_TERMINATE, SE_PIPELINE_RESET]
  · next h => simp [h, completes]

theorem delay_ongoing (events : List UInt16) :
    Ongoing delayStep completes v events ↔ events.length ≤ v := by
  refine ongoing_iff delayStep completes (P := fun es => es.length ≤ v) (fun es e _ => ?_) (Nat.zero_le v)
    (fun es e h => ?_) events
  · rw [delay_completes, delay_after, List.length_append, List.length_singleton]
    omega
  · rw [List.length_append] at h
    omega

/-- Whatever the events are, it halts on the first of them and then completes. -/
theorem tick_delay_answers (hfn : w.main func = some se_tick_delay) (n : Nat) (hs : Waiting node_index p s)
    (h : Activation w (.main func node_index (some p) [.param n]) s events ds) (i : Nat) (r : Result) :
    (ds.map Delivery.answer)[i]? = some r ↔ i < events.length ∧ i ≤ delayStart n ∧
      r = if i < delayStart n then SE_FUNCTION_HALT else SE_PIPELINE_DISABLE := by
  have hstart : delayStart n < 2 ^ 32 := Nat.mod_lt _ (by decide)
  obtain ⟨hanswers, -⟩ := activation_run delayStep
    (fun v s => v ≤ delayStart n ∧ Counter node_index p (UInt64.ofNat (delayStart n)) (UInt64.ofNat v) s)
    (fun v s s' hv helse => ⟨hv.1, counter_elsewhere hv.2 helse⟩)
    (fun v s event hv _ => by
      obtain ⟨hanswer, hnext⟩ := tick_delay_call hfn n (by omega) hv.2 event
      refine ⟨hanswer, fun hgo => ⟨?_, hnext fun heq => ?_⟩⟩
      · unfold delayStep
        split
        · exact Nat.le_trans (Nat.sub_le v 1) hv.1
        · exact hv.1
      · rw [heq] at hgo
        simp [completes] at hgo)
    h ⟨Nat.le_refl _, waiting_counter hs _⟩
  rw [hanswers, answers_get]
  constructor
  · rintro ⟨event, hget, hgo, rfl⟩
    obtain ⟨hlt, -⟩ := List.getElem?_eq_some_iff.mp hget
    rw [delay_ongoing, List.length_take_of_le (by omega)] at hgo
    refine ⟨hlt, hgo, ?_⟩
    rw [delay_after, List.length_take_of_le (by omega), delayStep]
    by_cases hi : i < delayStart n
    · rw [if_pos hi, if_pos (by omega)]
    · rw [if_neg hi, if_neg (by omega)]
  · rintro ⟨hlt, hle, rfl⟩
    refine ⟨events[i], List.getElem?_eq_getElem hlt, ?_, ?_⟩
    · rw [delay_ongoing, List.length_take_of_le (by omega)]
      exact hle
    · rw [delay_after, List.length_take_of_le (by omega), delayStep]
      by_cases hi : i < delayStart n
      · rw [if_pos hi, if_pos (by omega)]
      · rw [if_neg hi, if_neg (by omega)]

theorem tick_delay_iff (hfn : w.main func = some se_tick_delay) (n : Nat) (hs : Waiting node_index p s)
    (h : Activation w (.main func node_index (some p) [.param n]) s events ds) :
    DelaysTicks n events ds ↔ DelayFits n events := by
  have hanswers := tick_delay_answers hfn n hs h
  have hget : ∀ i d, ds[i]? = some d → i < events.length ∧ i ≤ delayStart n ∧
      d.answer = if i < delayStart n then SE_FUNCTION_HALT else SE_PIPELINE_DISABLE := by
    intro i d hd
    exact (hanswers i d.answer).mp (by simp [hd])
  have hdelivered : ∀ i, i < events.length → i ≤ delayStart n → ∃ d, ds[i]? = some d := by
    intro i hlt hle
    have hsome := (hanswers i _).mpr ⟨hlt, hle, rfl⟩
    rw [List.getElem?_map, Option.map_eq_some_iff] at hsome
    obtain ⟨d, hd, -⟩ := hsome
    exact ⟨d, hd⟩
  have hne : SE_FUNCTION_HALT ≠ SE_PIPELINE_DISABLE := by decide
  constructor
  · intro hright
    unfold DelayFits
    split
    · next hshort =>
      -- The tick after the first `n` would find the node halted.
      by_contra hmany
      obtain ⟨i, hi, hcount⟩ := exists_counted (Nat.lt_of_not_le hmany)
      obtain ⟨hlt, -⟩ := List.getElem?_eq_some_iff.mp hi
      obtain ⟨d, hd⟩ := hdelivered i hlt (by omega)
      obtain ⟨-, -, hanswer⟩ := hget i d hd
      rw [if_pos (by omega)] at hanswer
      exact hne (hanswer.symm.trans ((hright i d hd).1.mpr ⟨hi, hcount⟩))
    · next hlong =>
      obtain ⟨d, hd⟩ := hdelivered (delayStart n) (by omega) (Nat.le_refl _)
      obtain ⟨-, -, hanswer⟩ := hget _ d hd
      rw [if_neg (Nat.lt_irrefl _)] at hanswer
      exact (hright _ d hd).1.mp hanswer
  · intro hfits i d hd
    obtain ⟨hlt, hle, hanswer⟩ := hget i d hd
    by_cases hi : i < delayStart n
    · -- It halts here, and the tick that ends the delay is still to come.
      have hfew : events[i]? = some TICK → (events.take i).count TICK < n := by
        intro htick
        have hsucc := count_take_succ htick
        unfold DelayFits at hfits
        split at hfits
        · have := count_take_le events TICK (i + 1)
          omega
        · have := count_take_mono events TICK (show i + 1 ≤ delayStart n from hi)
          omega
      rw [if_pos hi] at hanswer
      rw [hanswer]
      refine ⟨⟨fun heq => absurd heq hne, fun hend => ?_⟩, fun htick => ⟨fun _ => hfew htick, fun _ => rfl⟩⟩
      have := hfew hend.1
      omega
    · obtain rfl : i = delayStart n := by omega
      rw [if_neg hi] at hanswer
      have hlong : ¬ events.length ≤ delayStart n := by omega
      rw [DelayFits, if_neg hlong] at hfits
      rw [hanswer]
      refine ⟨⟨fun _ => hfits, fun _ => rfl⟩, fun _ => ⟨fun heq => absurd heq.symm hne, fun hlt => ?_⟩⟩
      omega

/-! ## Waits -/

/-- What `se_wait_event(e, n)` is for: it completes at the `n`-th event `e`. -/
def WaitsFor (e : UInt16) (n : Nat) (events : List UInt16) (ds : List (Delivery E)) : Prop :=
  ∀ i d, ds[i]? = some d →
    (d.answer = SE_PIPELINE_DISABLE ↔ events[i]? = some e ∧ (events.take i).count e + 1 = n)

/-- The count has 32 bits. -/
def WaitFits (e : UInt16) (n : Nat) (events : List UInt16) : Prop :=
  n < 2 ^ 32 ∨ events.count e < n % 2 ^ 32 ∨ events = []

theorem wait_after (events : List UInt16) : after (waitStep e) v events = v - events.count e := by
  induction events generalizing v with
  | nil => rfl
  | cons event events ih =>
    have hfirst : (waitStep e v event).1 = v - if event = e then 1 else 0 := by
      unfold waitStep
      split
      · next hv => simp [hv]
      · split <;> simp
    rw [after, List.foldl_cons, hfirst]
    refine (ih _).trans ?_
    by_cases he : event = e
    · subst he
      simp only [if_true, List.count_cons_self]
      omega
    · simp only [he, if_false, List.count_cons_of_ne he]
      omega

theorem wait_completes :
    completes (waitStep e v event).2 = true ↔ (waitStep e v event).2 = SE_PIPELINE_DISABLE := by
  unfold waitStep
  split
  · simp [completes]
  · split
    · dsimp only
      split
      · simp [completes]
      · simp [completes, SE_PIPELINE_HALT, SE_PIPELINE_DISABLE, SE_PIPELINE_TERMINATE, SE_PIPELINE_RESET]
    · simp [completes, SE_PIPELINE_HALT, SE_PIPELINE_DISABLE, SE_PIPELINE_TERMINATE, SE_PIPELINE_RESET]

theorem wait_disables :
    (waitStep e v event).2 = SE_PIPELINE_DISABLE ↔ v = 0 ∨ (event = e ∧ v = 1) := by
  have hne : SE_PIPELINE_HALT ≠ SE_PIPELINE_DISABLE := by decide
  unfold waitStep
  split
  · next hv => simp [hv]
  · next hv =>
    split
    · next he =>
      by_cases hone : v = 1
      · simp [he, hone]
      · simp [he, hone, hv, hne]
    · next he => simp [he, hv, hne]

theorem wait_ongoing (events : List UInt16) :
    Ongoing (waitStep e) completes v events ↔ events = [] ∨ events.count e < v := by
  refine ongoing_iff (waitStep e) completes (P := fun es => es = [] ∨ es.count e < v) (fun es a _ => ?_)
    (Or.inl rfl) (fun es a h => ?_) events
  · rw [← Bool.not_eq_true, wait_completes, wait_disables, wait_after, List.count_append]
    by_cases ha : a = e
    · subst ha
      simp
      omega
    · simp [ha]
      omega
  · rw [List.count_append] at h
    rcases h with h | h
    · simp at h
    · exact Or.inr (by omega)

theorem wait_event_answers (hfn : w.main func = some se_wait_event) (e : UInt16) (n : Nat)
    (hs : Waiting node_index p s)
    (h : Activation w (.main func node_index (some p) [.param e.toNat, .param n]) s events ds) (i : Nat)
    (r : Result) : (ds.map Delivery.answer)[i]? = some r ↔ ∃ event, events[i]? = some event ∧
      (i = 0 ∨ (events.take i).count e < n % 2 ^ 32) ∧
      r = (waitStep e (n % 2 ^ 32 - (events.take i).count e) event).2 := by
  have hstart : n % 2 ^ 32 < 2 ^ 32 := Nat.mod_lt _ (by decide)
  obtain ⟨hanswers, -⟩ := activation_run (waitStep e)
    (fun v s => v ≤ n % 2 ^ 32 ∧ Counter node_index p (waitSlot e (n % 2 ^ 32)) (waitSlot e v) s)
    (fun v s s' hv helse => ⟨hv.1, counter_elsewhere hv.2 helse⟩)
    (fun v s event hv hevent => by
      obtain ⟨hanswer, hnext⟩ := wait_event_call hfn e n (by omega) hv.2 hevent
      refine ⟨hanswer, fun hgo => ⟨?_, hnext fun heq => ?_⟩⟩
      · have hafter := wait_after e v [event]
        rw [after, List.foldl_cons, List.foldl_nil] at hafter
        rw [hafter]
        omega
      · rw [(wait_completes e v event).mpr heq] at hgo
        cases hgo)
    h ⟨Nat.le_refl _, waiting_counter hs _⟩
  rw [hanswers, answers_get]
  refine exists_congr fun event => and_congr_right fun hget => ?_
  obtain ⟨hlt, -⟩ := List.getElem?_eq_some_iff.mp hget
  have hnil : events.take i = [] ↔ i = 0 := by
    rw [List.take_eq_nil_iff]
    refine or_iff_left fun hevents => ?_
    subst hevents
    cases hlt
  rw [wait_ongoing, wait_after, hnil]

theorem wait_event_iff (hfn : w.main func = some se_wait_event) (e : UInt16) {n : Nat} (hn : 1 ≤ n)
    (hs : Waiting node_index p s)
    (h : Activation w (.main func node_index (some p) [.param e.toNat, .param n]) s events ds) :
    WaitsFor e n events ds ↔ WaitFits e n events := by
  have hanswers := wait_event_answers hfn e n hs h
  have hmod : n % 2 ^ 32 ≤ n := Nat.mod_le _ _
  constructor
  · intro hright
    unfold WaitFits
    by_contra hnot
    push Not at hnot
    obtain ⟨hbig, hmany, hsome⟩ := hnot
    have hlow : n % 2 ^ 32 < 2 ^ 32 := Nat.mod_lt _ (by decide)
    -- The node completes at the event number `n % 2 ^ 32`, or at the first one if this is zero.
    obtain ⟨i, event, hi, hreached, hdone⟩ : ∃ i event, events[i]? = some event ∧
        (i = 0 ∨ (events.take i).count e < n % 2 ^ 32) ∧
        (n % 2 ^ 32 - (events.take i).count e = 0 ∨ event = e ∧ n % 2 ^ 32 - (events.take i).count e = 1) ∧
        (events.take i).count e + 1 < n := by
      by_cases hzero : n % 2 ^ 32 = 0
      · obtain ⟨event, rest, rfl⟩ := List.exists_cons_of_ne_nil hsome
        exact ⟨0, event, rfl, Or.inl rfl, Or.inl (by omega), by rw [List.take_zero, List.count_nil]; omega⟩
      · obtain ⟨i, hi, hcount⟩ := exists_counted (show n % 2 ^ 32 - 1 < events.count e by omega)
        exact ⟨i, e, hi, Or.inr (by omega), Or.inr ⟨rfl, by omega⟩, by omega⟩
    obtain ⟨hdone, hearly⟩ := hdone
    have hanswer := (hanswers i _).mpr ⟨event, hi, hreached, rfl⟩
    rw [List.getElem?_map, Option.map_eq_some_iff] at hanswer
    obtain ⟨d, hd, hanswer⟩ := hanswer
    have hspec := (hright i d hd).mp (hanswer.trans ((wait_disables e _ event).mpr hdone))
    omega
  · intro hfits i d hd
    obtain ⟨event, hget, hreached, hanswer⟩ := (hanswers i d.answer).mp (by simp [hd])
    rw [hanswer, wait_disables, hget, Option.some_inj]
    have hzero : i = 0 → (events.take i).count e = 0 := by
      rintro rfl
      simp
    rcases hfits with hsmall | hfew | rfl
    · rw [Nat.mod_eq_of_lt hsmall] at hreached ⊢
      constructor
      · rintro (hdone | ⟨rfl, hdone⟩)
        · omega
        · exact ⟨rfl, by omega⟩
      · rintro ⟨rfl, hdone⟩
        exact Or.inr ⟨rfl, by omega⟩
    · have hnever : event = e → (events.take i).count e + 1 < n % 2 ^ 32 := by
        rintro rfl
        have := count_take_succ hget
        have := count_take_le events event (i + 1)
        omega
      have hle := count_take_le events e i
      constructor
      · rintro (hdone | ⟨he, hdone⟩)
        · omega
        · have := hnever he
          omega
      · rintro ⟨he, hdone⟩
        have := hnever he
        omega
    · simp at hget

/-! ## Checks -/

section

variable (e : UInt16) (n reset_value handler_func handler : Nat) (survives_reset : Bool) (handler_args : List Node)

/-- What `se_verify_and_check_elapsed_events(e, n)` is for: its error handler runs at the event
number `n + 1` of the events `e`, which ends the activation, and at no other. -/
def VerifiesEvents (events : List UInt16) (ds : List (Delivery E)) : Prop :=
  ∀ i d, ds[i]? = some d →
    if events[i]? = some e ∧ (events.take i).count e = n then
      d.after.runs handler = d.before.runs handler + 1 ∧
        d.answer = if reset_value ≠ 0 then SE_PIPELINE_RESET else SE_PIPELINE_TERMINATE
    else d.after.runs handler = d.before.runs handler ∧ d.answer = SE_PIPELINE_CONTINUE

/-- The count has 32 bits. A handler that survives resets and has run does not run again. -/
def VerifyFits (s : Inst E) (events : List UInt16) : Prop :=
  events.count e ≤ n % 2 ^ 32 ∨ (n < 2 ^ 32 ∧ ¬ (survives_reset && (s.state handler).ever_init))

def verifyNode (func node_index p : Nat) : Node :=
  .main func node_index (some p)
    (verifyParams e n reset_value handler_func handler survives_reset handler_args)

end

theorem verify_after (count : Nat) (events : List UInt16) :
    after (verifyStep e max reset_flag) count events = count + events.count e := by
  induction events generalizing count with
  | nil => rfl
  | cons event events ih =>
    rw [after, List.foldl_cons]
    refine (ih _).trans ?_
    unfold verifyStep
    by_cases he : event = e
    · subst he
      rw [if_pos rfl, List.count_cons_self]
      dsimp only
      omega
    · rw [if_neg he, List.count_cons_of_ne he]

theorem verify_completes (count : Nat) (event : UInt16) :
    completes (verifyStep e max reset_flag count event).2 = false ↔ (event = e → count < max) := by
  have hgo : completes SE_PIPELINE_CONTINUE = false := by decide
  unfold verifyStep
  by_cases he : event = e
  · rw [if_pos he]
    dsimp only
    by_cases hmax : max < count + 1
    · rw [if_pos hmax]
      have hend : completes (if reset_flag = true then SE_PIPELINE_RESET else SE_PIPELINE_TERMINATE) = true := by
        cases reset_flag <;> decide
      simp [hend, he]
      omega
    · rw [if_neg hmax]
      simp [hgo, he]
      omega
  · simp [he, hgo]

theorem verify_ongoing (events : List UInt16) :
    Ongoing (verifyStep e max reset_flag) completes 0 events ↔ events.count e ≤ max := by
  refine ongoing_iff _ completes (P := fun es => es.count e ≤ max) (fun es a hes => ?_) (Nat.zero_le _)
    (fun es a h => ?_) events
  · rw [verify_completes, verify_after, List.count_append]
    by_cases ha : a = e
    · subst ha
      rw [List.count_singleton_self, eq_self_iff_true, true_imp_iff]
      omega
    · simpa [ha] using hes
  · rw [List.count_append] at h
    omega

section

variable {e : UInt16} {n reset_value handler_func handler : Nat} {survives_reset : Bool}
  {handler_args : List Node}

theorem verify_delivery (hfn : w.main func = some se_verify_and_check_elapsed_events)
    (hhandler : (w.oneshot handler_func).isSome) (hne : handler ≠ node_index)
    (hargs : handler ∉ Node.indicesAll handler_args) (hs : Waiting node_index p s)
    (h : Activation w (verifyNode e n reset_value handler_func handler survives_reset handler_args func
      node_index p) s events ds) :
    (∀ i, (∃ d, ds[i]? = some d) ↔ i < events.length ∧ (events.take i).count e ≤ n % 2 ^ 32) ∧
    ∀ i d, ds[i]? = some d →
      (events[i]? = some e ∧ (events.take i).count e = n % 2 ^ 32 →
        d.after.runs handler =
            d.before.runs handler + (if survives_reset && (s.state handler).ever_init then 0 else 1) ∧
          d.answer = if reset_value ≠ 0 then SE_PIPELINE_RESET else SE_PIPELINE_TERMINATE) ∧
      (¬ (events[i]? = some e ∧ (events.take i).count e = n % 2 ^ 32) →
        d.after.runs handler = d.before.runs handler ∧ d.answer = SE_PIPELINE_CONTINUE) := by
  have hmem : handler ∈ (verifyNode e n reset_value handler_func handler survives_reset handler_args func
      node_index p).indices := List.mem_cons_of_mem _ List.mem_cons_self
  obtain ⟨hanswers, hds⟩ := activation_run (verifyStep e (n % 2 ^ 32) (reset_value ≠ 0))
    (fun count s' => count ≤ n % 2 ^ 32 ∧ Counter node_index p 0 (UInt64.ofNat count) s' ∧
      (s'.state handler).ever_init = (s.state handler).ever_init)
    (fun count s₁ s₂ hc helse => by
      refine ⟨hc.1, counter_elsewhere hc.2.1 helse, ?_⟩
      rw [helse.states handler hmem]
      exact hc.2.2)
    (fun count s₁ event hc hevent => by
      by_cases hquiet : event = e → count < n % 2 ^ 32
      · obtain ⟨hanswer, hcounter, -, hstate⟩ := verify_call (Node.kids w _) hfn hc.2.1 hevent hquiet
        refine ⟨hanswer, fun _ => ⟨?_, hcounter, ?_⟩⟩
        · have hafter := verify_after e (n % 2 ^ 32) (reset_value ≠ 0) count [event]
          rw [after, List.foldl_cons, List.foldl_nil] at hafter
          rw [hafter]
          by_cases he : event = e
          · have := hquiet he
            simp [he]
            omega
          · simpa [he] using hc.1
        · rw [← hc.2.2]
          exact congrArg NodeState.ever_init (hstate handler hne)
      · push Not at hquiet
        obtain ⟨rfl, hmany⟩ := hquiet
        obtain rfl : count = n % 2 ^ 32 := by omega
        obtain ⟨hanswer, -⟩ := verify_error_call hfn hhandler hne hargs hc.2.1 hevent
        refine ⟨hanswer.trans (by simp [verifyStep]), fun hgo => ?_⟩
        rw [verify_completes] at hgo
        exact absurd (hgo rfl) (Nat.lt_irrefl _))
    h ⟨Nat.zero_le _, waiting_counter hs _, rfl⟩
  refine ⟨fun i => ?_, fun i d hd => ?_⟩
  · have hsome : (∃ d, ds[i]? = some d) ↔ ∃ r, (ds.map Delivery.answer)[i]? = some r := by
      simp [List.getElem?_map]
    rw [hsome, hanswers]
    simp only [answers_get, verify_ongoing]
    constructor
    · rintro ⟨r, event, hget, hfew, -⟩
      exact ⟨(List.getElem?_eq_some_iff.mp hget).1, hfew⟩
    · rintro ⟨hlt, hfew⟩
      exact ⟨_, events[i], List.getElem?_eq_getElem hlt, hfew, rfl⟩
  · obtain ⟨event, hget, ⟨hfew, hcounter, hever⟩, hevent, hdeliver⟩ := hds i d hd
    rw [verify_after, Nat.zero_add] at hfew hcounter
    rw [hdeliver, hget, Option.some_inj]
    constructor
    · rintro ⟨rfl, hcount⟩
      rw [hcount] at hcounter
      obtain ⟨hanswer, hruns⟩ := verify_error_call hfn hhandler hne hargs hcounter hevent
      rw [hever] at hruns
      exact ⟨hruns, hanswer⟩
    · intro hnot
      have hquiet : event = e → (events.take i).count e < n % 2 ^ 32 := by
        intro he
        have : (events.take i).count e ≠ n % 2 ^ 32 := fun heq => hnot ⟨he, heq⟩
        omega
      obtain ⟨hanswer, -, hruns, -⟩ := verify_call (Node.kids w _) hfn hcounter hevent hquiet
      refine ⟨hruns handler, hanswer.trans ?_⟩
      unfold verifyStep
      by_cases he : event = e
      · have := hquiet he
        rw [if_pos he]
        dsimp only
        rw [if_neg (by omega)]
      · rw [if_neg he]

theorem verify_events_iff (hfn : w.main func = some se_verify_and_check_elapsed_events)
    (hhandler : (w.oneshot handler_func).isSome) (hne : handler ≠ node_index)
    (hargs : handler ∉ Node.indicesAll handler_args) (hs : Waiting node_index p s)
    (h : Activation w (verifyNode e n reset_value handler_func handler survives_reset handler_args func
      node_index p) s events ds) :
    VerifiesEvents e n reset_value handler events ds ↔ VerifyFits e n handler survives_reset s events := by
  obtain ⟨hdelivered, hds⟩ := verify_delivery hfn hhandler hne hargs hs h
  have hmod : n % 2 ^ 32 ≤ n := Nat.mod_le _ _
  constructor
  · intro hright
    by_cases hfew : events.count e ≤ n % 2 ^ 32
    · exact Or.inl hfew
    · obtain ⟨i, hi, hcount⟩ := exists_counted (Nat.lt_of_not_le hfew)
      obtain ⟨d, hd⟩ := (hdelivered i).mpr ⟨(List.getElem?_eq_some_iff.mp hi).1, Nat.le_of_eq hcount⟩
      obtain ⟨hruns, hanswer⟩ := (hds i d hd).1 ⟨hi, hcount⟩
      have hspec := hright i d hd
      have hends : d.answer ≠ SE_PIPELINE_CONTINUE := by
        rw [hanswer]
        split <;> simp [SE_PIPELINE_RESET, SE_PIPELINE_TERMINATE, SE_PIPELINE_CONTINUE]
      by_cases hn : (events.take i).count e = n
      · rw [if_pos ⟨hi, hn⟩] at hspec
        have hlow : n % 2 ^ 32 < 2 ^ 32 := Nat.mod_lt _ (by decide)
        refine Or.inr ⟨by omega, fun hskips => ?_⟩
        have hran := hspec.1
        rw [hruns, if_pos hskips] at hran
        omega
      · rw [if_neg fun hand => hn hand.2] at hspec
        exact absurd hspec.2 hends
  · intro hfits i d hd
    obtain ⟨herror, hquiet⟩ := hds i d hd
    rcases hfits with hfew | ⟨hsmall, hruns⟩
    · -- The handler does not run, and its event is not among the events.
      have hnever : events[i]? = some e → (events.take i).count e < n % 2 ^ 32 := by
        intro hi
        have := count_take_succ hi
        have := count_take_le events e (i + 1)
        omega
      have hnot : ¬ (events[i]? = some e ∧ (events.take i).count e = n) := by
        rintro ⟨hi, hn⟩
        have := hnever hi
        omega
      rw [if_neg hnot]
      refine hquiet ?_
      rintro ⟨hi, hn⟩
      have := hnever hi
      omega
    · rw [Nat.mod_eq_of_lt hsmall] at herror hquiet
      split
      · next hhit =>
        obtain ⟨hran, hanswer⟩ := herror hhit
        rw [if_neg hruns] at hran
        exact ⟨hran, hanswer⟩
      · next hmiss => exact hquiet hmiss

end

end

/-! ## The three counting functions -/

/-- Any stream of events can be handed to the node. -/
theorem activation_exists (w : World E) (t : Node) (events : List UInt16) (s : Inst E) :
    ∃ ds, Activation w t s events ds := by
  induction events generalizing s with
  | nil => exact ⟨[], .ended⟩
  | cons event events ih =>
    obtain ⟨s', hs'⟩ : ∃ s' : Inst E,
        s' = { s with others := { s.others with current_event_id := event.toNat } } := ⟨_, rfl⟩
    have helse : Elsewhere t s s' := by
      subst hs'
      exact ⟨rfl, fun _ _ => rfl, fun _ _ => rfl, fun _ _ => rfl⟩
    have hevent : s'.others.current_event_id = event.toNat := by rw [hs']
    cases hend : completes (deliver w t s').answer with
    | true => exact ⟨_, .completed helse hevent hend⟩
    | false =>
      obtain ⟨ds, hds⟩ := ih (deliver w t s').after
      exact ⟨_, .goes_on helse hevent hend hds⟩

/-- When each of the three functions does what it is for: `se_tick_delay` only where one other
event stands before its last tick, `se_wait_event` and the check wherever their counts have 32
bits and the handler runs at all, or too few events come. -/
theorem counting_iff (w : World E) (delay wait verify : Nat) (hdelay : w.main delay = some se_tick_delay)
    (hwait : w.main wait = some se_wait_event)
    (hverify : w.main verify = some se_verify_and_check_elapsed_events) (node_index p : Nat) (s : Inst E)
    (hs : Waiting node_index p s) (events : List UInt16) (ds : List (Delivery E)) :
    (∀ n : Nat, Activation w (.main delay node_index (some p) [.param n]) s events ds →
      (DelaysTicks n events ds ↔ DelayFits n events)) ∧
    (∀ (e : UInt16) (n : Nat), 1 ≤ n →
      Activation w (.main wait node_index (some p) [.param e.toNat, .param n]) s events ds →
      (WaitsFor e n events ds ↔ WaitFits e n events)) ∧
    ∀ (e : UInt16) (n reset_value handler_func handler : Nat) (survives_reset : Bool)
      (handler_args : List Node), (w.oneshot handler_func).isSome → handler ≠ node_index →
      handler ∉ Node.indicesAll handler_args →
      Activation w (verifyNode e n reset_value handler_func handler survives_reset handler_args verify
        node_index p) s events ds →
      (VerifiesEvents e n reset_value handler events ds ↔ VerifyFits e n handler survives_reset s events) := by
  refine ⟨fun n h => ?_, fun e n hn h => ?_, ?_⟩
  · exact tick_delay_iff hdelay n hs h
  · exact wait_event_iff hwait e hn hs h
  · intro e n reset_value handler_func handler survives_reset handler_args hhandler hne hargs h
    exact verify_events_iff hverify hhandler hne hargs hs h

/-- The three functions, and a handler that does nothing. -/
def threeCounters : World Unit where
  main func := match func with
    | 0 => some se_tick_delay
    | 1 => some se_wait_event
    | _ => some se_verify_and_check_elapsed_events
  oneshot _ := some fun _ _ => .ret ()
  pred _ := none

/-- An instance before its first tick, with one slot. -/
def beforeTicks : Inst Unit :=
  created 1 ⟨fun _ => ⟨true, false, false, .zero⟩, 0, ()⟩

theorem beforeTicks_waiting : Waiting 0 0 beforeTicks := ⟨rfl, rfl, by decide⟩

theorem counters_fit :
    (∃ ds, Activation threeCounters (.main 0 0 (some 0) [.param (0 : Nat)]) beforeTicks [7, TICK] ds ∧
      DelaysTicks 0 [7, TICK] ds) ∧
    (∃ ds, Activation threeCounters (.main 1 0 (some 0) [.param (7 : UInt16).toNat, .param (2 : Nat)])
      beforeTicks [7, TICK, 7] ds ∧ WaitsFor 7 2 [7, TICK, 7] ds) ∧
    ∃ ds, Activation threeCounters (verifyNode 7 1 0 0 1 false [] 2 0 0) beforeTicks [7, 7] ds ∧
      VerifiesEvents 7 1 0 1 [7, 7] ds := by
  refine ⟨?_, ?_, ?_⟩
  · obtain ⟨ds, h⟩ := activation_exists threeCounters (.main 0 0 (some 0) [.param (0 : Nat)]) [7, TICK] beforeTicks
    exact ⟨ds, h, ((counting_iff threeCounters 0 1 2 rfl rfl rfl 0 0 beforeTicks beforeTicks_waiting _ ds).1 0 h).mpr
      (by decide)⟩
  · obtain ⟨ds, h⟩ := activation_exists threeCounters
      (.main 1 0 (some 0) [.param (7 : UInt16).toNat, .param (2 : Nat)]) [7, TICK, 7] beforeTicks
    exact ⟨ds, h, ((counting_iff threeCounters 0 1 2 rfl rfl rfl 0 0 beforeTicks beforeTicks_waiting _ ds).2.1 7 2
      (by decide) h).mpr (Or.inl (by decide))⟩
  · obtain ⟨ds, h⟩ := activation_exists threeCounters (verifyNode 7 1 0 0 1 false [] 2 0 0) [7, 7] beforeTicks
    exact ⟨ds, h, ((counting_iff threeCounters 0 1 2 rfl rfl rfl 0 0 beforeTicks beforeTicks_waiting _ ds).2.2
      7 1 0 0 1 false [] rfl (by decide) (by decide) h).mpr (Or.inr ⟨by decide, by decide⟩)⟩

/-- `se_tick_delay(0)` halts on its first tick. -/
theorem delay_of_none_halts :
    ∃ ds, Activation threeCounters (.main 0 0 (some 0) [.param (0 : Nat)]) beforeTicks [TICK, TICK] ds ∧
      ¬ DelaysTicks 0 [TICK, TICK] ds := by
  obtain ⟨ds, h⟩ := activation_exists threeCounters (.main 0 0 (some 0) [.param (0 : Nat)]) [TICK, TICK] beforeTicks
  refine ⟨ds, h, fun hright => ?_⟩
  have hfits := (tick_delay_iff rfl 0 beforeTicks_waiting h).mp hright
  revert hfits
  decide

end motioncore.slots
