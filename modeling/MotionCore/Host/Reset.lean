-- The reset of the tracker (`cmd_tracker_reset`): it aborts every command, slot
-- by slot, and its callbacks may submit again while a queue is half drained.
-- It keeps the law of the commands when no such submit gets a command of the
-- slot being drained on the wire, and when these submits come to an end.
import MotionCore.Host.SubmitSend

open motioncore.ring motioncore.machine motioncore.trace

namespace motioncore.host

variable {env : Env} {send : Send}

/-! ## The condition -/

/-- Each submit of a callback meets `P` in the state it is made in. -/
def EachSubmit (send : Send) (P : Host → Submit → Prop) : Host → List Submit → Prop
  | _, [] => True
  | h, c :: cs => P h c ∧ EachSubmit send P (cmdTrackerSubmit send h c).1 cs

/-- Each submit of the callback `cb`, which is called in the state `h`. -/
def EachResubmit (env : Env) (P : Host → Submit → Prop) (h : Host) (cb : DoneCb) : Prop :=
  cb = .client →
    EachSubmit (linkSend env) P { h with calls := h.calls + 1 } (env.on_done h.calls)

/-- How many of the submits are put into the queue of slot `i`. -/
def acceptedIn (env : Env) (i : Fin SLOT_MAX) : Host → List Submit → Nat
  | _, [] => 0
  | h, c :: cs =>
    (if AcceptsFor h i c then 1 else 0) +
      acceptedIn env i (cmdTrackerSubmit (linkSend env) h c).1 cs

/-- How many commands the callback `cb` puts into the queue of slot `i`. -/
def resubmitted (env : Env) (i : Fin SLOT_MAX) (h : Host) (cb : DoneCb) : Nat :=
  if cb = .client then acceptedIn env i { h with calls := h.calls + 1 } (env.on_done h.calls)
  else 0

/-- The state in which the callback of the front of the queue is called. -/
def Host.aborting (h : Host) (i : Fin SLOT_MAX) (abort_status : UInt8) : Host :=
  h.note (.done i (h.slots i).q.front.handle abort_status .reset h.clock)

def drainRound (env : Env) (send : Send) (h : Host) (i : Fin SLOT_MAX) (abort_status : UInt8) :
    Host :=
  let e := (h.slots i).q.front
  (runDone env send (h.aborting i abort_status) e.on_done e.handle (h.slots i).addr abort_status
    []).modSlot i fun s => { s with q := s.q.pop }

/-- In the next `n` rounds no callback gets a command of the slot transmitted. -/
def CalmDrain (env : Env) (i : Fin SLOT_MAX) (abort_status : UInt8) : Nat → Host → Prop
  | 0, _ => True
  | n + 1, h => (h.slots i).q.count ≠ 0 →
    EachResubmit env (fun h c => ¬ Transmits env i h c) (h.aborting i abort_status)
        (h.slots i).q.front.on_done ∧
      CalmDrain env i abort_status n (drainRound env (linkSend env) h i abort_status)

/-- How many commands the callbacks of the next `n` rounds put into the queue. -/
def resubmits (env : Env) (i : Fin SLOT_MAX) (abort_status : UInt8) : Nat → Host → Nat
  | 0, _ => 0
  | n + 1, h =>
    if (h.slots i).q.count = 0 then 0
    else
      resubmitted env i (h.aborting i abort_status) (h.slots i).q.front.on_done +
        resubmits env i abort_status n (drainRound env (linkSend env) h i abort_status)

/-- The state in which the callback of the command in flight is called. -/
def Host.finishing (h : Host) (i : Fin SLOT_MAX) (status : UInt8) (cause : Cause) : Host :=
  (h.setSlot i { h.slots i with has_inflight := false, inflight_rid := 0, state := .idle }).note
    (.done i (h.slots i).inflight.handle status cause h.clock)

/-- The callbacks leave the slot that is being reset alone. The one of the
command in flight gets no command of the slot in flight (a request with the id
that stands for a failure stays in the queue). Those of the queue get none
transmitted, and resubmit to the slot only so many times. -/
structure CleanSlot (env : Env) (abort_status : UInt8) (h : Host) (i : Fin SLOT_MAX) : Prop where
  inflight : (h.slots i).has_inflight = true → EachResubmit env
    (fun h c => Transmits env i h c → UInt16.ofNat h.next_id = NO_REQUEST)
    (h.finishing i abort_status .reset) (h.slots i).inflight.on_done
  queue : ∀ n, CalmDrain env i abort_status n
    (completeInflight env (linkSend env) h i abort_status [] .reset)
  ends : ∃ b, ∀ n, resubmits env i abort_status n
    (completeInflight env (linkSend env) h i abort_status [] .reset) ≤ b

/-- The callbacks of a whole reset leave each slot alone while it is reset. -/
def CleanReset (env : Env) (h : Host) (abort_status : UInt8) : Prop :=
  ∀ fuel, Meets (resetSlot env (linkSend env) fuel abort_status)
    (fun h i => (h.slots i).in_use = true → CleanSlot env abort_status h i) h
    (List.finRange SLOT_MAX)

/-- What the reset owes to the commands: it ends, each command that the tracker
held is done, and the law of the commands still holds. -/
def AbortsEachCommand (env : Env) (h : Host) (abort_status : UInt8) : Prop :=
  ∃ fuel h', cmdTrackerReset env (linkSend env) fuel h abort_status = some h' ∧
    TracksEachCommand h' ∧ ∀ x ∈ places h, x ∈ doneAll h'.log

theorem drainQueue_succ (env : Env) (send : Send) (h : Host) (i : Fin SLOT_MAX)
    (abort_status : UInt8) (fuel : Nat) : drainQueue env send h i abort_status (fuel + 1) =
      if (h.slots i).q.count = 0 then some h
      else drainQueue env send (drainRound env send h i abort_status) i abort_status fuel := rfl

variable {h : Host} {i : Fin SLOT_MAX}

theorem completeInflight_eq {status : UInt8} {result : List UInt8} {cause : Cause}
    (hin : (h.slots i).has_inflight = true) : completeInflight env send h i status result cause =
      runDone env send (h.finishing i status cause) (h.slots i).inflight.on_done
        (h.slots i).inflight.handle (h.slots i).addr status result := by
  unfold completeInflight
  rw [if_pos hin]
  rfl

/-! ## Logs only grow -/

/-- The log grows, and the set of slaves stays. -/
structure Later (h h' : Host) : Prop where
  log : h.log <+: h'.log
  in_use : ∀ j, (h'.slots j).in_use = (h.slots j).in_use

theorem Later.refl (h : Host) : Later h h := ⟨List.prefix_refl _, fun _ => rfl⟩

theorem Later.trans {a b c : Host} (hab : Later a b) (hbc : Later b c) : Later a c :=
  ⟨hab.log.trans hbc.log, fun j => (hbc.in_use j).trans (hab.in_use j)⟩

theorem Later.modSlot (h : Host) (i : Fin SLOT_MAX) (f : Slot → Slot)
    (hf : ∀ s, (f s).in_use = s.in_use) : Later h (h.modSlot i f) := by
  refine ⟨List.prefix_refl _, ?_⟩
  exact forall_update (P := fun j s => s.in_use = (h.slots j).in_use) (hf _) fun _ _ => rfl

theorem Later.note (h : Host) (e : Ev) : Later h (h.note e) :=
  ⟨List.prefix_append _ _, fun _ => rfl⟩

theorem sendInflight_later (hs : Plain send) (h : Host) (i : Fin SLOT_MAX) :
    Later h (sendInflight send h i).1 := by
  obtain ⟨t, rid, new, hslots, -, hlog, -⟩ := sendInflight_spec hs h i
  refine ⟨⟨new, hlog.symm⟩, ?_⟩
  rw [hslots]
  exact forall_update (P := fun j s => s.in_use = (h.slots j).in_use) (by simp) fun _ _ => rfl

theorem pumpSlot_later (hs : Plain send) (h : Host) (i : Fin SLOT_MAX) :
    Later h (pumpSlot send h i) := by
  have hset : Later h (h.modSlot i fun s =>
      { s with inflight := s.q.front, has_inflight := true, retries := 0 }) :=
    Later.modSlot h i _ fun _ => rfl
  have hsent := hset.trans (sendInflight_later hs _ i)
  unfold pumpSlot
  dsimp only
  split
  · exact Later.refl h
  split
  · exact Later.refl h
  split
  · exact hsent.trans (Later.modSlot _ i (fun s => { s with q := s.q.pop }) fun _ => rfl)
  · exact hsent.trans (Later.modSlot _ i (fun s => { s with has_inflight := false }) fun _ => rfl)

theorem enqueue_later (h : Host) (i : Fin SLOT_MAX) (c : Submit) : Later h (h.enqueue i c) := by
  have hnext : Later h { h with next_handle := h.next_handle + 1 } :=
    ⟨List.prefix_refl _, fun _ => rfl⟩
  exact (hnext.trans (Later.modSlot _ i
    (fun s => { s with q := s.q.push (c.entry h.next_handle) }) fun _ => rfl)).trans
      (Later.note _ _)

theorem submit_later (hs : Plain send) (h : Host) (c : Submit) :
    Later h (cmdTrackerSubmit send h c).1 := by
  rcases submit_cases send h c with ⟨-, hsame⟩ | ⟨i, -, hpump⟩
  · rw [hsame]
    exact Later.refl h
  · rw [hpump]
    exact (enqueue_later h i c).trans (pumpSlot_later hs _ i)

theorem submitAll_later (hs : Plain send) (h : Host) (cs : List Submit) :
    Later h (submitAll send h cs) := by
  induction cs generalizing h with
  | nil => exact Later.refl h
  | cons c cs ih => exact (submit_later hs h c).trans (ih _)

theorem runDone_later (hs : Plain send) (h : Host) (cb : DoneCb) (handle : Nat)
    (addr status : UInt8) (result : List UInt8) :
    Later h (runDone env send h cb handle addr status result) := by
  unfold runDone
  cases cb with
  | null => exact Later.refl h
  | event =>
    obtain ⟨q, hq⟩ := evqPush_eq h
      { kind := .cmdDone, addr, status, handle, aux := 0, data := result }
    dsimp only
    rw [hq]
    exact ⟨List.prefix_refl _, fun _ => rfl⟩
  | client =>
    have hcall : Later h { h with calls := h.calls + 1 } := ⟨List.prefix_refl _, fun _ => rfl⟩
    exact hcall.trans (submitAll_later hs _ _)

theorem finishing_later (h : Host) (i : Fin SLOT_MAX) (status : UInt8) (cause : Cause) :
    Later h (h.finishing i status cause) :=
  (Later.modSlot h i
    (fun s => { s with has_inflight := false, inflight_rid := 0, state := .idle })
      fun _ => rfl).trans (Later.note _ _)

variable (env) in
theorem completeInflight_later (hs : Plain send) (h : Host) (i : Fin SLOT_MAX) (status : UInt8)
    (result : List UInt8) (cause : Cause) :
    Later h (completeInflight env send h i status result cause) := by
  by_cases hin : (h.slots i).has_inflight = true
  · rw [completeInflight_eq hin]
    exact (finishing_later h i status cause).trans (runDone_later hs _ _ _ _ _ _)
  · unfold completeInflight
    rw [if_neg hin]
    exact Later.refl h

theorem drainRound_later (hs : Plain send) (h : Host) (i : Fin SLOT_MAX) (abort_status : UInt8) :
    Later h (drainRound env send h i abort_status) :=
  ((Later.note h _).trans (runDone_later hs _ _ _ _ _ _)).trans
    (Later.modSlot _ i (fun s => { s with q := s.q.pop }) fun _ => rfl)

variable {abort_status : UInt8} {fuel : Nat} {h' : Host}

theorem drainQueue_later (hs : Plain send)
    (hdrain : drainQueue env send h i abort_status fuel = some h') : Later h h' := by
  induction fuel generalizing h with
  | zero =>
    simp only [drainQueue] at hdrain
    split at hdrain
    · cases hdrain
      exact Later.refl _
    · cases hdrain
  | succ fuel ih =>
    rw [drainQueue_succ] at hdrain
    split at hdrain
    · cases hdrain
      exact Later.refl _
    · exact (drainRound_later hs h i abort_status).trans (ih hdrain)

/-! ## A clean drain keeps the law -/

/-- The invariant of the callback that runs for the front of the queue: the
front is done, and the rest of the queue is what the slot still holds. -/
structure Draining (i : Fin SLOT_MAX) (h : Host) : Prop where
  ordered : OrderedOn
    (Function.update h.slots i { h.slots i with q := (h.slots i).q.pop }) h.next_handle h.log
  waiting : (h.slots i).q.count ≠ 0
  rests : (h.slots i).has_inflight = false
  aborted : (h.slots i).q.front.handle ∈ doneOf i h.log

/-- A submit to slot `j` is accepted and pumped. The law may be about other
slots `V`, which agree at `j`. -/
theorem OrderedOn.submitted (hs : Plain send) {V : Fin SLOT_MAX → Slot}
    (hv : OrderedOn V h.next_handle h.log) {j : Fin SLOT_MAX} {c : Submit} (hj : V j = h.slots j)
    (ha : AcceptsFor h j c) :
    ∃ s, (pumpSlot send (h.enqueue j c) j).slots = Function.update h.slots j s ∧
      OrderedOn (Function.update V j s) (pumpSlot send (h.enqueue j c) j).next_handle
        (pumpSlot send (h.enqueue j c) j).log := by
  have hbusy := hv.busy j
  rw [hj] at hbusy
  have hslot : (h.enqueue j c).slots j =
      { h.slots j with q := (h.slots j).q.push (c.entry h.next_handle) } := by
    rw [enqueue_slots, Function.update_self]
  have hacc : OrderedOn (Function.update V j ((h.enqueue j c).slots j)) (h.enqueue j c).next_handle
      (h.enqueue j c).log := by
    refine OrderedOn.accept hv ?_ ?_ ?_
    · rw [hslot]
      exact ha.in_use
    · rw [hslot, hj]
      unfold Slot.held
      dsimp only
      rw [Ring.contents_push _ ha.lt]
      simp [Submit.entry]
    · rw [hslot]
      exact hbusy
  have hbusy' : ((h.enqueue j c).slots j).has_inflight = true ↔
      ((h.enqueue j c).slots j).state ≠ .idle := by
    rw [hslot]
    exact hbusy
  obtain ⟨s, new, x, hslots, hnext, hlog, hnew, hturn, hheld, hbusy, huse⟩ :=
    pumpSlot_spec hs (h.enqueue j c) j hbusy'
  refine ⟨s, ?_, ?_⟩
  · rw [hslots, enqueue_slots, Function.update_idem]
  · have ht := OrderedOn.transmit (i := j) (s := s) hacc (by simpa using hturn) hnew
      (by simpa using hheld) hbusy (by simp [huse])
    rw [Function.update_idem] at ht
    rw [hnext, hlog]
    exact ht

/-- A submit of the callback that gets nothing of the slot transmitted only
lengthens the queue. -/
theorem submit_draining (henv : env.NeverDrops) {c : Submit} (hd : Draining i h)
    (hc : ¬ Transmits env i h c) : Draining i (cmdTrackerSubmit (linkSend env) h c).1 ∧
      ((cmdTrackerSubmit (linkSend env) h c).1.slots i).q.count =
        (if AcceptsFor h i c then 1 else 0) + (h.slots i).q.count := by
  rcases submit_cases (linkSend env) h c with ⟨hno, hsame⟩ | ⟨j, ha, hpump⟩
  · rw [hsame, if_neg (hno i), Nat.zero_add]
    exact ⟨hd, rfl⟩
  rw [hpump]
  by_cases hji : j = i
  · subst hji
    have hout : ¬ GetsOut env (h.enqueue j c) j := fun hg => hc ⟨ha, hg⟩
    have hbusy : (h.slots j).has_inflight = true ↔ (h.slots j).state ≠ .idle := by
      have := hd.ordered.busy j
      rwa [Function.update_self] at this
    obtain ⟨s, hslots, hnext, hlog, hq, hst, hin, huse⟩ := pumpSlot_holds hout
      (by rw [enqueue_slots, Function.update_self]; exact hbusy)
    rw [enqueue_slots, Function.update_self] at hq hst hin huse
    rw [enqueue_slots, Function.update_idem] at hslots
    dsimp only at hq hst hin huse
    have hacc : OrderedOn (Function.update h.slots j { s with q := s.q.pop })
        (h.next_handle + 1) (h.log ++ [.accepted j h.next_handle]) := by
      have := OrderedOn.accept hd.ordered (i := j) (s := { s with q := s.q.pop }) ?_ ?_ ?_
      · rwa [Function.update_idem] at this
      · exact huse.trans ha.in_use
      · rw [Function.update_self]
        unfold Slot.held
        dsimp only
        rw [hin, hd.rests, hq, Ring.contents_pop, Ring.contents_push _ ha.lt, Ring.contents_pop,
          List.tail_append_of_ne_nil (fun hnil => hd.waiting (Ring.contents_eq_nil.mp hnil))]
        simp [Submit.entry]
      · simpa [hin, hst] using hbusy
    refine ⟨⟨?_, ?_, ?_, ?_⟩, ?_⟩
    · rw [hslots, hnext, hlog, Function.update_self, Function.update_idem]
      exact hacc
    · rw [hslots, Function.update_self, hq, Ring.count_push _ ha.lt]
      exact Nat.succ_ne_zero _
    · rw [hslots, Function.update_self, hin]
      exact hd.rests
    · rw [hslots, hlog, Function.update_self, hq, Ring.front_push _ hd.waiting]
      simp only [Host.enqueue, Host.note, Host.modSlot, Host.setSlot, doneOf_append]
      exact List.mem_append_left _ hd.aborted
    · rw [hslots, Function.update_self, hq, Ring.count_push _ ha.lt, if_pos ha, Nat.add_comm]
  · have hij : i ≠ j := fun h => hji h.symm
    obtain ⟨s, hslots, hord⟩ := OrderedOn.submitted (linkSend_plain henv) hd.ordered
      (Function.update_of_ne hji _ _) ha
    have hlater := (enqueue_later h j c).trans (pumpSlot_later (linkSend_plain henv) _ j)
    refine ⟨⟨?_, ?_, ?_, ?_⟩, ?_⟩
    · rw [hslots, Function.update_of_ne hij, Function.update_comm hji]
      exact hord
    · rw [hslots, Function.update_of_ne hij]
      exact hd.waiting
    · rw [hslots, Function.update_of_ne hij]
      exact hd.rests
    · rw [hslots, Function.update_of_ne hij]
      obtain ⟨new, hnew⟩ := hlater.log
      rw [← hnew, doneOf_append]
      exact List.mem_append_left _ hd.aborted
    · rw [hslots, Function.update_of_ne hij, if_neg (fun hi => hji (ha.unique hi)), Nat.zero_add]

theorem submitAll_draining (henv : env.NeverDrops) {cs : List Submit} (hd : Draining i h)
    (hcs : EachSubmit (linkSend env) (fun h c => ¬ Transmits env i h c) h cs) :
    Draining i (submitAll (linkSend env) h cs) ∧
      ((submitAll (linkSend env) h cs).slots i).q.count =
        acceptedIn env i h cs + (h.slots i).q.count := by
  induction cs generalizing h with
  | nil => exact ⟨hd, (Nat.zero_add _).symm⟩
  | cons c cs ih =>
    obtain ⟨hd1, hcount⟩ := submit_draining henv hd hcs.1
    obtain ⟨hd2, hrest⟩ := ih hd1 hcs.2
    refine ⟨hd2, ?_⟩
    simp only [acceptedIn]
    have hfold : submitAll (linkSend env) h (c :: cs) =
        submitAll (linkSend env) (cmdTrackerSubmit (linkSend env) h c).1 cs := rfl
    rw [hfold, hrest, hcount]
    omega

theorem evqPush_draining (hd : Draining i h) (e : CtrlEvent) :
    Draining i (h.evqPush e) ∧ ((h.evqPush e).slots i).q.count = (h.slots i).q.count := by
  obtain ⟨q, hq⟩ := evqPush_eq h e
  rw [hq]
  exact ⟨⟨hd.ordered, hd.waiting, hd.rests, hd.aborted⟩, rfl⟩

theorem runDone_draining (henv : env.NeverDrops) (hd : Draining i h) {cb : DoneCb}
    (hcb : EachResubmit env (fun h c => ¬ Transmits env i h c) h cb) (handle : Nat)
    (addr status : UInt8) (result : List UInt8) :
    Draining i (runDone env (linkSend env) h cb handle addr status result) ∧
      ((runDone env (linkSend env) h cb handle addr status result).slots i).q.count =
        resubmitted env i h cb + (h.slots i).q.count := by
  cases cb with
  | null => exact ⟨hd, (Nat.zero_add _).symm⟩
  | event =>
    obtain ⟨hpush, hcount⟩ := evqPush_draining hd
      { kind := .cmdDone, addr, status, handle, aux := 0, data := result }
    exact ⟨hpush, hcount.trans (Nat.zero_add _).symm⟩
  | client =>
    have hcall : Draining i { h with calls := h.calls + 1 } :=
      ⟨hd.ordered, hd.waiting, hd.rests, hd.aborted⟩
    exact submitAll_draining henv hcall (hcb rfl)

theorem aborting_draining (ho : Ordered h) (hrests : (h.slots i).has_inflight = false)
    (hq : (h.slots i).q.count ≠ 0) (abort_status : UInt8) :
    Draining i (h.aborting i abort_status) where
  ordered := by
    refine OrderedOn.finish ho (s := { h.slots i with q := (h.slots i).q.pop }) ?_ (ho.busy i) rfl
      abort_status .reset h.clock
    rw [held_of_idle hrests hq]
    simp [Slot.held, hrests]
  waiting := hq
  rests := hrests
  aborted := by simp [Host.aborting, Host.note, doneOf]

/-- A round of the drain with a callback that gets nothing of the slot transmitted. -/
theorem drainRound_calm (henv : env.NeverDrops) (ho : Ordered h)
    (hrests : (h.slots i).has_inflight = false) (hq : (h.slots i).q.count ≠ 0)
    (hcb : EachResubmit env (fun h c => ¬ Transmits env i h c) (h.aborting i abort_status) (h.slots
      i).q.front.on_done) : Ordered (drainRound env (linkSend env) h i abort_status) ∧
      ((drainRound env (linkSend env) h i abort_status).slots i).has_inflight = false ∧
      ((drainRound env (linkSend env) h i abort_status).slots i).q.count + 1 =
        resubmitted env i (h.aborting i abort_status) (h.slots i).q.front.on_done +
          (h.slots i).q.count := by
  obtain ⟨hd, hcount⟩ := runDone_draining henv (aborting_draining ho hrests hq abort_status) hcb
    (h.slots i).q.front.handle (h.slots i).addr abort_status []
  unfold drainRound
  dsimp only
  generalize runDone env (linkSend env) (h.aborting i abort_status) _ _ _ _ _ = r at hd hcount ⊢
  refine ⟨hd.ordered, ?_, ?_⟩
  · simp only [Host.modSlot, Host.setSlot, Function.update_self]
    exact hd.rests
  · have hpos := hd.waiting
    have hsame : ((h.aborting i abort_status).slots i).q.count = (h.slots i).q.count := rfl
    simp only [Host.modSlot, Host.setSlot, Function.update_self, Ring.count_pop]
    omega

/-- The drain ends when the callbacks resubmit only so many times. -/
theorem drainQueue_calm (henv : env.NeverDrops) (ho : Ordered h)
    (hrests : (h.slots i).has_inflight = false) (hcalm : ∀ n, CalmDrain env i abort_status n h)
    (hfuel : ∀ n, (h.slots i).q.count + resubmits env i abort_status n h ≤ fuel) :
    ∃ h', drainQueue env (linkSend env) h i abort_status fuel = some h' ∧ Ordered h' ∧
      (h'.slots i).held = [] := by
  have hempty : ∀ h : Host, (h.slots i).has_inflight = false → (h.slots i).q.count = 0 →
      (h.slots i).held = [] := by
    intro h hrests hq
    simp [Slot.held, hrests, Ring.contents_eq_nil.mpr hq]
  induction fuel generalizing h with
  | zero =>
    have hq : (h.slots i).q.count = 0 := by
      have := hfuel 0
      omega
    exact ⟨h, by simp [drainQueue, hq], ho, hempty h hrests hq⟩
  | succ fuel ih =>
    rw [drainQueue_succ]
    by_cases hq : (h.slots i).q.count = 0
    · rw [if_pos hq]
      exact ⟨h, rfl, ho, hempty h hrests hq⟩
    rw [if_neg hq]
    obtain ⟨ho', hrests', hcount⟩ := drainRound_calm henv ho hrests hq (hcalm 1 hq).1
    refine ih ho' hrests' (fun n => (hcalm (n + 1) hq).2) ?_
    intro n
    have hn := hfuel (n + 1)
    simp only [resubmits] at hn
    rw [if_neg hq] at hn
    omega

/-! ## The callback of the command in flight -/

/-- A submit puts a command of an idle slot in flight just when it transmits
one with a proper request id. -/
theorem submit_rests (henv : env.NeverDrops) (ho : Ordered h)
    (hrests : (h.slots i).has_inflight = false) (c : Submit) :
    ((cmdTrackerSubmit (linkSend env) h c).1.slots i).has_inflight = true ↔
      ¬ (Transmits env i h c → UInt16.ofNat h.next_id = NO_REQUEST) := by
  rcases submit_cases (linkSend env) h c with ⟨hno, hsame⟩ | ⟨j, ha, hpump⟩
  · rw [hsame, hrests]
    simp [Transmits, hno i]
  rw [hpump]
  by_cases hji : j = i
  · subst hji
    by_cases hout : GetsOut env (h.enqueue j c) j
    · have hsame : (h.enqueue j c).next_id = h.next_id := rfl
      rw [(pumpSlot_sends henv hout).2, hsame]
      exact ⟨fun hid himp => hid (himp ⟨ha, hout⟩), fun hid heq => hid fun _ => heq⟩
    · obtain ⟨s, hslots, -, -, -, -, hin, -⟩ := pumpSlot_holds hout
        (by rw [enqueue_slots, Function.update_self]; exact ho.busy j)
      rw [enqueue_slots, Function.update_self] at hin
      rw [hslots, Function.update_self, hin]
      simp [Transmits, hout, hrests]
  · obtain ⟨s, hslots, -⟩ := OrderedOn.submitted (linkSend_plain henv) ho rfl ha
    rw [hslots, Function.update_of_ne (fun hij => hji hij.symm), hrests]
    have hother : ¬ AcceptsFor h i c := fun hi => hji (ha.unique hi)
    simp [Transmits, hother]

theorem submit_stays (henv : env.NeverDrops) (ho : Ordered h)
    (hin : (h.slots i).has_inflight = true) (c : Submit) :
    ((cmdTrackerSubmit (linkSend env) h c).1.slots i).has_inflight = true := by
  rcases submit_cases (linkSend env) h c with ⟨-, hsame⟩ | ⟨j, ha, hpump⟩
  · rw [hsame]
    exact hin
  rw [hpump]
  by_cases hji : j = i
  · subst hji
    rw [pumpSlot_busy (by rw [enqueue_slots, Function.update_self]; exact (ho.busy j).mp hin),
      enqueue_slots, Function.update_self]
    exact hin
  · obtain ⟨s, hslots, -⟩ := OrderedOn.submitted (linkSend_plain henv) ho rfl ha
    rw [hslots, Function.update_of_ne (fun hij => hji hij.symm)]
    exact hin

theorem submitAll_stays (henv : env.NeverDrops) {cs : List Submit} (ho : Ordered h)
    (hin : (h.slots i).has_inflight = true) :
    ((submitAll (linkSend env) h cs).slots i).has_inflight = true := by
  induction cs generalizing h with
  | nil => exact hin
  | cons c cs ih =>
    exact ih (submit_ordered (linkSend_plain henv) ho c) (submit_stays henv ho hin c)

theorem submitAll_rests (henv : env.NeverDrops) {l : List Submit} (ho : Ordered h)
    (hrests : (h.slots i).has_inflight = false) :
    ((submitAll (linkSend env) h l).slots i).has_inflight = false ↔
      EachSubmit (linkSend env)
        (fun h c => Transmits env i h c → UInt16.ofNat h.next_id = NO_REQUEST) h l := by
  induction l generalizing h with
  | nil => exact ⟨fun _ => trivial, fun _ => hrests⟩
  | cons c l ih =>
    have ho' := submit_ordered (linkSend_plain henv) ho c
    have hone := submit_rests henv ho hrests c
    have hfold : submitAll (linkSend env) h (c :: l) =
        submitAll (linkSend env) (cmdTrackerSubmit (linkSend env) h c).1 l := rfl
    rw [hfold]
    cases hin : ((cmdTrackerSubmit (linkSend env) h c).1.slots i).has_inflight with
    | true =>
      have hbad := hone.mp hin
      constructor
      · intro hrest
        rw [submitAll_stays henv ho' hin] at hrest
        exact absurd hrest Bool.noConfusion
      · exact fun heach => absurd heach.1 hbad
    | false =>
      have hgood : Transmits env i h c → UInt16.ofNat h.next_id = NO_REQUEST := by
        by_contra hbad
        rw [hone.mpr hbad] at hin
        exact Bool.noConfusion hin
      rw [ih ho' hin]
      exact ⟨fun heach => ⟨hgood, heach⟩, fun heach => heach.2⟩

theorem runDone_rests (henv : env.NeverDrops) (ho : Ordered h)
    (hrests : (h.slots i).has_inflight = false) (cb : DoneCb) (handle : Nat) (addr status : UInt8)
    (result : List UInt8) :
    ((runDone env (linkSend env) h cb handle addr status result).slots i).has_inflight = false ↔
      EachResubmit env
        (fun h c => Transmits env i h c → UInt16.ofNat h.next_id = NO_REQUEST) h cb := by
  cases cb with
  | null => exact ⟨fun _ hcb => DoneCb.noConfusion hcb, fun _ => hrests⟩
  | event =>
    refine ⟨fun _ hcb => DoneCb.noConfusion hcb, fun _ => ?_⟩
    obtain ⟨q, hq⟩ := evqPush_eq h
      { kind := .cmdDone, addr, status, handle, aux := 0, data := result }
    have hrun : runDone env (linkSend env) h .event handle addr status result =
      { h with evq := q } := hq
    rw [hrun]
    exact hrests
  | client =>
    have hcall : Ordered { h with calls := h.calls + 1 } := ho
    have hiff := submitAll_rests henv (l := env.on_done h.calls) hcall hrests
    exact ⟨fun hrest _ => hiff.mp hrest, fun heach => hiff.mpr (heach rfl)⟩

theorem finishing_ordered (ho : Ordered h) (hin : (h.slots i).has_inflight = true) (status : UInt8)
    (cause : Cause) : Ordered (h.finishing i status cause) := by
  refine OrderedOn.finish ho ?_ ?_ ?_ status cause h.clock
  · simp [Slot.held, hin]
  · simp
  · rfl

/-- Nothing is in flight after the callback of the command in flight, just when
the callback puts nothing in flight. -/
theorem completeInflight_rests (henv : env.NeverDrops) (ho : Ordered h) {status : UInt8}
    {result : List UInt8} {cause : Cause} (hin : (h.slots i).has_inflight = true) :
    ((completeInflight env (linkSend env) h i status result cause).slots i).has_inflight = false ↔
      EachResubmit env (fun h c => Transmits env i h c → UInt16.ofNat h.next_id = NO_REQUEST)
        (h.finishing i status cause) (h.slots i).inflight.on_done := by
  rw [completeInflight_eq hin]
  exact runDone_rests henv (finishing_ordered ho hin status cause)
    (by simp [Host.finishing, Host.note, Host.setSlot]) _ _ _ _ _

/-! ## A clean reset -/

variable {fuel' : Nat}

theorem drainQueue_mono (hdrain : drainQueue env send h i abort_status fuel = some h')
    (hle : fuel ≤ fuel') : drainQueue env send h i abort_status fuel' = some h' := by
  induction fuel generalizing h fuel' with
  | zero =>
    simp only [drainQueue] at hdrain
    split at hdrain
    · rename_i hq
      cases fuel' with
      | zero => simpa [drainQueue, hq] using hdrain
      | succ n =>
        rw [drainQueue_succ, if_pos hq]
        exact hdrain
    · cases hdrain
  | succ fuel ih =>
    obtain ⟨n, rfl⟩ := Nat.exists_eq_add_of_le hle
    have hsucc : fuel + 1 + n = (fuel + n) + 1 := by omega
    rw [drainQueue_succ] at hdrain
    rw [hsucc, drainQueue_succ]
    split at hdrain
    · rename_i hq
      rw [if_pos hq]
      exact hdrain
    · rename_i hq
      rw [if_neg hq]
      exact ih hdrain (Nat.le_add_right _ _)

theorem resetSlot_mono (hreset : resetSlot env send fuel abort_status h i = some h')
    (hle : fuel ≤ fuel') : resetSlot env send fuel' abort_status h i = some h' := by
  unfold resetSlot at hreset ⊢
  split at hreset
  · rename_i huse
    rw [if_pos huse]
    obtain ⟨h1, hdrain, hclear⟩ := Option.map_eq_some_iff.mp hreset
    exact Option.map_eq_some_iff.mpr ⟨h1, drainQueue_mono hdrain hle, hclear⟩
  · rename_i huse
    rw [if_neg huse]
    exact hreset

theorem resets_mono {l : List (Fin SLOT_MAX)}
    (hruns : runs (resetSlot env send fuel abort_status) h l = some h') (hle : fuel ≤ fuel') :
    runs (resetSlot env send fuel' abort_status) h l = some h' := by
  induction l generalizing h with
  | nil => exact hruns
  | cons i l ih =>
    rw [runs_cons] at hruns ⊢
    obtain ⟨h1, hreset, hrest⟩ := Option.bind_eq_some_iff.mp hruns
    rw [resetSlot_mono hreset hle]
    exact ih hrest

theorem resetSlot_later (hs : Plain send)
    (hreset : resetSlot env send fuel abort_status h i = some h') :
    h.log <+: h'.log ∧ (h'.slots i).in_use = false ∧
      ∀ j, j ≠ i → (h'.slots j).in_use = (h.slots j).in_use := by
  unfold resetSlot at hreset
  split at hreset
  · obtain ⟨h2, hdrain, hclear⟩ := Option.map_eq_some_iff.mp hreset
    have hlater := (completeInflight_later env hs h i abort_status [] .reset).trans
      (drainQueue_later hs hdrain)
    subst hclear
    refine ⟨hlater.log.trans (List.prefix_append _ _), ?_, ?_⟩
    · simp [Host.note, Host.setSlot, Slot.cleared]
    · intro j hj
      simp only [Host.note, Host.setSlot, Function.update_of_ne hj]
      exact hlater.in_use j
  · rename_i huse
    cases hreset
    exact ⟨List.prefix_refl _, Bool.eq_false_iff.mpr huse, fun _ _ => rfl⟩

theorem resetSlot_clean (henv : env.NeverDrops) (ho : Ordered h)
    (hc : (h.slots i).in_use = true → CleanSlot env abort_status h i) :
    ∃ h' fuel, resetSlot env (linkSend env) fuel abort_status h i = some h' ∧ Ordered h' := by
  by_cases huse : (h.slots i).in_use = true
  · obtain ⟨hin, hcalm, b, hb⟩ := hc huse
    have ho1 : Ordered (completeInflight env (linkSend env) h i abort_status [] .reset) :=
      completeInflight_ordered (linkSend_plain henv) ho i abort_status [] .reset
    have hrests : ((completeInflight env (linkSend env) h i abort_status [] .reset).slots
        i).has_inflight = false := by
      cases hi : (h.slots i).has_inflight with
      | true => exact (completeInflight_rests henv ho hi).mpr (hin hi)
      | false =>
        unfold completeInflight
        rw [if_neg (Bool.eq_false_iff.mp hi)]
        exact hi
    obtain ⟨h2, hdrain, ho2, hheld⟩ := drainQueue_calm henv ho1 hrests hcalm
      (fun n => Nat.add_le_add_left (hb n) _)
    have hcleared : Ordered ((h2.setSlot i .cleared).note (.cleared i)) :=
      Ordered.note (h := h2.setSlot i .cleared) (OrderedOn.clear ho2 hheld) trivial
    refine ⟨_, ((completeInflight env (linkSend env) h i abort_status [] .reset).slots i).q.count +
      b, ?_, hcleared⟩
    unfold resetSlot
    rw [if_pos huse]
    dsimp only
    rw [hdrain]
    rfl
  · refine ⟨h, 0, ?_, ho⟩
    unfold resetSlot
    rw [if_neg huse]

/-- A reset of the slots `is`, when it is clean, ends and keeps the law. -/
theorem resets_clean (henv : env.NeverDrops) {is : List (Fin SLOT_MAX)} {m : Nat} (ho : Ordered h)
    (hc : ∀ n, m ≤ n → Meets (resetSlot env (linkSend env) n abort_status) (fun h i => (h.slots
      i).in_use = true → CleanSlot env abort_status h i) h is) :
    ∃ h' fuel, runs (resetSlot env (linkSend env) fuel abort_status) h is = some h' ∧
      Ordered h' := by
  induction is generalizing h m with
  | nil => exact ⟨h, 0, rfl, ho⟩
  | cons i is ih =>
    obtain ⟨h1, fuel, hreset, ho1⟩ := resetSlot_clean henv ho (hc m (Nat.le_refl _)).1
    have hrest : ∀ n, max m fuel ≤ n → Meets (resetSlot env (linkSend env) n abort_status)
        (fun h i => (h.slots i).in_use = true → CleanSlot env abort_status h i) h1 is := by
      intro n hn
      exact (hc n (by omega)).2 h1 (resetSlot_mono hreset (by omega))
    obtain ⟨h2, fuel2, hruns, ho2⟩ := ih ho1 hrest
    refine ⟨h2, max fuel fuel2, ?_, ho2⟩
    rw [runs_cons, resetSlot_mono hreset (Nat.le_max_left _ _)]
    exact resets_mono hruns (Nat.le_max_right _ _)

theorem resets_later (hs : Plain send) {is : List (Fin SLOT_MAX)}
    (hruns : runs (resetSlot env send fuel abort_status) h is = some h') :
    h.log <+: h'.log ∧ ∀ j, j ∈ is ∨ (h.slots j).in_use = false → (h'.slots j).in_use = false := by
  induction is generalizing h with
  | nil =>
    cases hruns
    exact ⟨List.prefix_refl _, fun j hj => hj.resolve_left List.not_mem_nil⟩
  | cons i is ih =>
    rw [runs_cons] at hruns
    obtain ⟨h1, hreset, hrest⟩ := Option.bind_eq_some_iff.mp hruns
    obtain ⟨hlog1, hself, hother⟩ := resetSlot_later hs hreset
    obtain ⟨hlog2, hlast⟩ := ih hrest
    refine ⟨hlog1.trans hlog2, ?_⟩
    intro j hj
    apply hlast
    by_cases hji : j = i
    · exact Or.inr (hji ▸ hself)
    · rcases hj with hj | hj
      · exact Or.inl ((List.mem_cons.mp hj).resolve_left hji)
      · exact Or.inr ((hother j hji).trans hj)

/-- A tracker without slaves that keeps the law has completed every command. -/
theorem Ordered.all_done (ho : Ordered h) (hempty : ∀ i, (h.slots i).in_use = false) :
    ∀ x ∈ acceptedAll h.log, x ∈ doneAll h.log := by
  intro x hx
  by_contra hnot
  have hplaces : places h = [] := by
    unfold places
    exact List.flatMap_eq_nil_iff.mpr fun i _ => ho.unused i (hempty i)
  have hone := ho.tracks.one_place x hx hnot
  rw [hplaces] at hone
  exact absurd hone (by simp)

theorem held_accepted (ho : Ordered h) {x : Nat} (hx : x ∈ places h) : x ∈ acceptedAll h.log := by
  obtain ⟨i, hi⟩ := mem_places.mp hx
  refine mem_acceptedAll.mpr ⟨i, ?_⟩
  rw [ho.account i]
  exact List.mem_append_right _ hi

theorem clean_reset_aborts (henv : env.NeverDrops) (ho : Ordered h)
    (hc : CleanReset env h abort_status) : AbortsEachCommand env h abort_status := by
  obtain ⟨h', fuel, hruns, ho'⟩ := resets_clean (m := 0) henv ho fun n _ => hc n
  obtain ⟨⟨new, hnew⟩, hempty⟩ := resets_later (linkSend_plain henv) hruns
  refine ⟨fuel, h', hruns, ho'.tracks, ?_⟩
  intro x hx
  apply ho'.all_done fun i => hempty i (Or.inl (List.mem_finRange i))
  rw [← hnew, acceptedAll_append]
  exact List.mem_append_left _ (held_accepted ho hx)

end motioncore.host
