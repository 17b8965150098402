-- The deadline of a command that the slave has acknowledged. The tracker waits
-- for the exec timeout and its margin, but the sweep of the demux has an age
-- limit of its own. A run in which the sweep never comes first keeps the deadline.
import MotionCore.Host.Leaves
import MotionCore.Lib.Trace

open motioncore.ring motioncore.machine motioncore.trace

namespace motioncore.host

/-! ## The law -/

/-- The command of slot `i` whose ACK is the last that happened to the slot,
with the time of the ACK and the exec timeout of the command. -/
def lastAck (i : Fin SLOT_MAX) (log : List Ev) : Option (Nat × Nat × Nat) :=
  log.foldl (fun last e =>
    match e with
    | .acked j x ack_ms exec => if j = i then some (x, ack_ms, exec) else last
    | .done j _ _ _ _ => if j = i then none else last
    | .cleared j => if j = i then none else last
    | _ => last) none

/-- The causes that end a command because of time alone. -/
def Cause.timesOut : Cause → Bool
  | .sweep => true
  | .ackTimeout => true
  | .execDeadline => true
  | _ => false

/-- A timeout that ends a command after its ACK is the end of that very
command, and comes no sooner than its exec timeout and the margin. -/
def NotTooSoon (past : List Ev) : Ev → Prop
  | .done i x _ cause t =>
    cause.timesOut = true → ∀ y ack_ms exec, lastAck i past = some (y, ack_ms, exec) →
      x = y ∧ ack_ms + exec + EXEC_MARGIN_MS ≤ t
  | _ => True

/-- Events that do not touch the ACK of any slot. -/
def Ev.ackless : Ev → Bool
  | .acked .. => false
  | .done .. => false
  | .cleared _ => false
  | _ => true

theorem lastAck_ackless {e : Ev} (he : e.ackless = true) (i : Fin SLOT_MAX) (log : List Ev) :
    lastAck i (log ++ [e]) = lastAck i log := by
  unfold lastAck
  rw [List.foldl_append]
  cases e with
  | acked => exact absurd he Bool.noConfusion
  | done => exact absurd he Bool.noConfusion
  | cleared => exact absurd he Bool.noConfusion
  | _ => rfl

@[simp] theorem lastAck_acked (i j : Fin SLOT_MAX) (log : List Ev) (x t d : Nat) :
    lastAck i (log ++ [.acked j x t d]) = if j = i then some (x, t, d) else lastAck i log := by
  unfold lastAck
  rw [List.foldl_append]
  rfl

@[simp] theorem lastAck_done (i j : Fin SLOT_MAX) (log : List Ev) (x : Nat) (st : UInt8) (c : Cause)
    (t : Nat) : lastAck i (log ++ [.done j x st c t]) = if j = i then none else lastAck i log := by
  unfold lastAck
  rw [List.foldl_append]
  rfl

@[simp] theorem lastAck_cleared (i j : Fin SLOT_MAX) (log : List Ev) :
    lastAck i (log ++ [.cleared j]) = if j = i then none else lastAck i log := by
  unfold lastAck
  rw [List.foldl_append]
  rfl

/-! ## The invariant -/

/-- A slot whose last event is an ACK executes that command, and keeps its times. -/
structure Timed (h : Host) : Prop where
  acked : ∀ i x ack_ms exec, lastAck i h.log = some (x, ack_ms, exec) →
    (h.slots i).state = .inflight ∧ (h.slots i).inflight.handle = x ∧
      (h.slots i).ack_ms = ack_ms ∧ (h.slots i).inflight.exec_timeout_ms.toNat = exec
  not_too_soon : Past NotTooSoon h.log
  now_le : h.now ≤ h.clock

/-- Two slots agree on the command that executes. -/
structure SameCommand (s s' : Slot) : Prop where
  state : s'.state = s.state
  has_inflight : s'.has_inflight = s.has_inflight
  inflight : s'.inflight = s.inflight
  inflight_rid : s'.inflight_rid = s.inflight_rid
  ack_ms : s'.ack_ms = s.ack_ms

theorem SameCommand.refl (s : Slot) : SameCommand s s := ⟨rfl, rfl, rfl, rfl, rfl⟩

theorem SameCommand.trans {a b c : Slot} (h : SameCommand a b) (h' : SameCommand b c) :
    SameCommand a c :=
  ⟨h'.state.trans h.state, h'.has_inflight.trans h.has_inflight, h'.inflight.trans h.inflight,
    h'.inflight_rid.trans h.inflight_rid, h'.ack_ms.trans h.ack_ms⟩

/-- What one function leaves behind: no time passes, no command starts to
execute, and no request in the table is older than it was. -/
structure Settles (h h' : Host) : Prop where
  clock : h'.clock = h.clock
  now : h'.now = h.now
  executing : ∀ i, (h'.slots i).state = .inflight → SameCommand (h.slots i) (h'.slots i)
  pending : ∀ k p, h'.pending k = some p → p.sent_ms = h.clock ∨ h.pending k = some p

theorem Settles.refl (h : Host) : Settles h h :=
  ⟨rfl, rfl, fun _ _ => SameCommand.refl _, fun _ _ hp => Or.inr hp⟩

theorem Settles.trans {a b c : Host} (hab : Settles a b) (hbc : Settles b c) : Settles a c where
  clock := hbc.clock.trans hab.clock
  now := hbc.now.trans hab.now
  executing := by
    intro i hi
    have h2 := hbc.executing i hi
    exact (hab.executing i (h2.state ▸ hi)).trans h2
  pending := by
    intro k p hp
    rcases hbc.pending k p hp with h | h
    · exact Or.inl (h.trans hab.clock)
    · exact hab.pending k p h

/-- A function that settles, and keeps the invariant. -/
structure Keeps (h h' : Host) : Prop where
  timed : Timed h → Timed h'
  settles : Settles h h'

theorem Keeps.refl (h : Host) : Keeps h h := ⟨id, Settles.refl h⟩

theorem Keeps.trans {a b c : Host} (hab : Keeps a b) (hbc : Keeps b c) : Keeps a c :=
  ⟨fun ht => hbc.timed (hab.timed ht), hab.settles.trans hbc.settles⟩

theorem Timed.of_eq {h h' : Host} (ht : Timed h) (hslots : h'.slots = h.slots)
    (hlog : h'.log = h.log) (hclock : h'.clock = h.clock) (hnow : h'.now = h.now) : Timed h' := by
  refine ⟨?_, ?_, ?_⟩
  · rw [hslots, hlog]
    exact ht.acked
  · rw [hlog]
    exact ht.not_too_soon
  · rw [hclock, hnow]
    exact ht.now_le

theorem Keeps.of_eq {h h' : Host} (hslots : h'.slots = h.slots) (hlog : h'.log = h.log)
    (hclock : h'.clock = h.clock) (hnow : h'.now = h.now) (hpending : h'.pending = h.pending) :
    Keeps h h' where
  timed ht := ht.of_eq hslots hlog hclock hnow
  settles := by
    refine ⟨hclock, hnow, ?_, ?_⟩
    · rw [hslots]
      exact fun _ _ => SameCommand.refl _
    · rw [hpending]
      exact fun _ _ hp => Or.inr hp

theorem Keeps.note {e : Ev} (he : e.ackless = true) (h : Host) : Keeps h (h.note e) where
  timed ht := by
    refine ⟨?_, ?_, ht.now_le⟩
    · intro i x a d hl
      exact ht.acked i x a d ((lastAck_ackless he i h.log) ▸ hl)
    · refine ht.not_too_soon.snoc ?_
      cases e with
      | done => exact absurd he Bool.noConfusion
      | _ => trivial
  settles := ⟨rfl, rfl, fun _ _ => SameCommand.refl _, fun _ _ hp => Or.inr hp⟩

/-- A slot may change in any way as long as it does not execute a command,
before or after. -/
theorem Keeps.setSlot {h : Host} {i : Fin SLOT_MAX} {s : Slot}
    (hs : SameCommand (h.slots i) s ∨ (h.slots i).state ≠ .inflight ∧ s.state ≠ .inflight) :
    Keeps h (h.setSlot i s) where
  timed ht := by
    refine ⟨?_, ht.not_too_soon, ht.now_le⟩
    intro j x a d hl
    have hj := ht.acked j x a d hl
    by_cases hji : j = i
    · subst hji
      rcases hs with hs | hs
      · simp only [Host.setSlot, Function.update_self, hs.state, hs.inflight, hs.ack_ms]
        exact hj
      · exact absurd hj.1 hs.1
    · simp only [Host.setSlot, Function.update_of_ne hji]
      exact hj
  settles := by
    refine ⟨rfl, rfl, ?_, fun _ _ hp => Or.inr hp⟩
    intro j hj
    by_cases hji : j = i
    · subst hji
      simp only [Host.setSlot, Function.update_self] at hj ⊢
      rcases hs with hs | hs
      · exact hs
      · exact absurd hj hs.2
    · simp only [Host.setSlot, Function.update_of_ne hji]
      exact SameCommand.refl _

theorem Keeps.setPending {h : Host} {k : Fin PENDING_MAX} {p : Option Pending}
    (hp : ∀ q, p = some q → q.sent_ms = h.clock) : Keeps h (h.setPending k p) where
  timed ht := ⟨ht.acked, ht.not_too_soon, ht.now_le⟩
  settles := by
    refine ⟨rfl, rfl, fun _ _ => SameCommand.refl _, ?_⟩
    intro m q hq
    by_cases hm : m = k
    · subst hm
      simp only [Host.setPending, Function.update_self] at hq
      exact Or.inl (hp q hq)
    · simp only [Host.setPending, Function.update_of_ne hm] at hq
      exact Or.inr hq

/-- The command of a slot ends. A timeout after an ACK must not be too soon. -/
theorem Keeps.done {h : Host} {i : Fin SLOT_MAX} {s : Slot} {status : UInt8} {cause : Cause}
    {t : Nat} (hidle : s.state ≠ .inflight)
    (hlate : cause.timesOut = true → Timed h → ∀ x ack_ms exec,
      lastAck i h.log = some (x, ack_ms, exec) → ack_ms + exec + EXEC_MARGIN_MS ≤ t) :
    Keeps h ((h.setSlot i s).note (.done i (h.slots i).inflight.handle status cause t)) where
  timed ht := by
    refine ⟨?_, ht.not_too_soon.snoc ?_, ht.now_le⟩
    · intro j x a d hl
      simp only [Host.note, Host.setSlot, lastAck_done] at hl
      split at hl
      · simp at hl
      · rename_i hij
        simp only [Host.note, Host.setSlot, Function.update_of_ne (Ne.symm hij)]
        exact ht.acked j x a d hl
    · intro hc y a d hl
      exact ⟨(ht.acked i y a d hl).2.1, hlate hc ht y a d hl⟩
  settles := by
    refine ⟨rfl, rfl, ?_, fun _ _ hp => Or.inr hp⟩
    intro j hj
    by_cases hji : j = i
    · subst hji
      simp only [Host.note, Host.setSlot, Function.update_self] at hj
      exact absurd hj hidle
    · simp only [Host.note, Host.setSlot, Function.update_of_ne hji]
      exact SameCommand.refl _

/-! ## The functions of the demux and the tracker -/

variable {env : Env} {send : Send}

section

variable (hs : ∀ h f, Keeps h (send h f).1)

include hs

theorem sendFrameAddr_keeps (h : Host) (addr : UInt8) (opcode : UInt16) (payload : List UInt8) :
    Keeps h (sendFrameAddr send h addr opcode payload).1 := by
  unfold sendFrameAddr
  refine Keeps.trans ?_ (hs _ _)
  exact Keeps.of_eq rfl rfl rfl rfl rfl

theorem demuxRequest_keeps (h : Host) (hdr args_len : Nat)
    (addr : UInt8) (opcode : UInt16) (body : UInt16 → List UInt8) (cb : ReplyCb) (handle : Nat) :
    Keeps h (demuxRequest send h hdr args_len addr opcode body cb handle).1 := by
  unfold demuxRequest
  split
  · exact Keeps.refl h
  split
  · exact Keeps.refl h
  have hid : Keeps h { h with next_id := h.next_id + 1 } := Keeps.of_eq rfl rfl rfl rfl rfl
  have hsent := hid.trans (sendFrameAddr_keeps hs { h with next_id := h.next_id + 1 } addr opcode
    (body (UInt16.ofNat h.next_id)))
  dsimp only
  split
  · refine (hsent.trans (Keeps.setPending ?_)).trans (Keeps.note rfl _)
    rintro q hq
    rw [← Option.some.inj hq]
  · exact hsent

/-- A slot that does not execute a command may transmit. -/
theorem sendInflight_keeps (h : Host) (i : Fin SLOT_MAX) (hst : (h.slots i).state ≠ .inflight) :
    Keeps h (sendInflight send h i).1 ∧ ((sendInflight send h i).1.slots i).state ≠ .inflight := by
  have hreq := demuxRequest_keeps hs h BUS_EXEC_HDR (h.slots i).inflight.args.length
    (h.slots i).addr OP_BUS_EXEC (busExecBody (h.slots i).inflight.command_id
      (wireTimeout (h.slots i).inflight.exec_timeout_ms) (h.slots i).inflight.args) (.slot i)
      (h.slots i).inflight.handle
  unfold sendInflight demuxSendBusExec
  dsimp only
  generalize demuxRequest send h BUS_EXEC_HDR _ _ _ _ _ _ = r at hreq ⊢
  have hr : (r.1.slots i).state ≠ .inflight := by
    intro hin
    have := (hreq.settles.executing i hin).state
    exact hst (this ▸ hin)
  have hclock : Keeps h (r.1.modSlot i fun s => { s with sent_ms := r.1.now }) :=
    hreq.trans (Keeps.setSlot (Or.inr ⟨hr, hr⟩))
  split
  · refine ⟨hclock, ?_⟩
    simpa [Host.modSlot, Host.setSlot] using hr
  · refine ⟨hclock.trans (Keeps.setSlot (Or.inr ⟨?_, SlotState.noConfusion⟩)), ?_⟩
    · simpa [Host.modSlot, Host.setSlot] using hr
    · simp [Host.modSlot, Host.setSlot]

theorem pumpSlot_keeps (h : Host) (i : Fin SLOT_MAX) : Keeps h (pumpSlot send h i) := by
  unfold pumpSlot
  dsimp only
  split
  · exact Keeps.refl h
  split
  · exact Keeps.refl h
  rename_i hidle
  have hst : (h.slots i).state = .idle := not_not.mp (not_or.mp hidle).1
  have hne : (h.slots i).state ≠ .inflight := by simp [hst]
  have hset : Keeps h (h.setSlot i
      { h.slots i with inflight := (h.slots i).q.front, has_inflight := true, retries := 0 }) :=
    Keeps.setSlot (Or.inr ⟨hne, hne⟩)
  obtain ⟨hsent, hne'⟩ := sendInflight_keeps hs (h.setSlot i
    { h.slots i with inflight := (h.slots i).q.front, has_inflight := true, retries := 0 }) i
    (by simpa [Host.setSlot] using hne)
  split
  · exact (hset.trans hsent).trans (Keeps.setSlot (Or.inr ⟨hne', hne'⟩))
  · exact (hset.trans hsent).trans (Keeps.setSlot (Or.inr ⟨hne', hne'⟩))

theorem submit_keeps (h : Host) (c : Submit) : Keeps h (cmdTrackerSubmit send h c).1 := by
  unfold cmdTrackerSubmit
  split
  · exact Keeps.refl h
  split
  · exact Keeps.refl h
  rename_i i hi
  split
  · exact Keeps.refl h
  · have hnext : Keeps h { h with next_handle := h.next_handle + 1 } :=
      Keeps.of_eq rfl rfl rfl rfl rfl
    refine (hnext.trans ?_).trans ((Keeps.note rfl _).trans (pumpSlot_keeps hs _ i))
    exact Keeps.setSlot (Or.inl ⟨rfl, rfl, rfl, rfl, rfl⟩)

theorem submitAll_keeps (h : Host) (cs : List Submit) : Keeps h (submitAll send h cs) := by
  unfold submitAll
  induction cs generalizing h with
  | nil => exact Keeps.refl h
  | cons c cs ih => exact (submit_keeps hs h c).trans (ih _)

omit hs in
theorem evqPush_keeps (h : Host) (e : CtrlEvent) : Keeps h (h.evqPush e) := by
  have hc := evqPush_core h e
  exact Keeps.of_eq hc.slots hc.log hc.clock hc.now hc.pending

variable (env) in
theorem runDone_keeps (h : Host) (cb : DoneCb) (handle : Nat)
    (addr status : UInt8) (result : List UInt8) :
    Keeps h (runDone env send h cb handle addr status result) := by
  unfold runDone
  cases cb with
  | null => exact Keeps.refl h
  | event => exact evqPush_keeps h _
  | client =>
    have hcall : Keeps h { h with calls := h.calls + 1 } := Keeps.of_eq rfl rfl rfl rfl rfl
    exact hcall.trans (submitAll_keeps hs _ _)

/-- The deadline of the command that slot `i` executes has passed. -/
def Late (h : Host) (i : Fin SLOT_MAX) : Prop :=
  (h.slots i).state = .inflight →
    (h.slots i).ack_ms + (h.slots i).inflight.exec_timeout_ms.toNat + EXEC_MARGIN_MS ≤ h.clock

theorem completeInflight_keeps (h : Host) (i : Fin SLOT_MAX)
    (status : UInt8) (result : List UInt8) (cause : Cause)
    (hlate : cause.timesOut = true → (h.slots i).has_inflight = true → Late h i) :
    Keeps h (completeInflight env send h i status result cause) := by
  unfold completeInflight
  dsimp only
  split
  · rename_i hin
    refine (Keeps.done SlotState.noConfusion ?_).trans (runDone_keeps env hs _ _ _ _ _ _)
    intro hc ht x a d hl
    obtain ⟨hst, -, ha, hd⟩ := ht.acked i x a d hl
    have := hlate hc hin hst
    rw [ha, hd] at this
    exact this
  · exact Keeps.refl h

theorem onTrackerReply_keeps (h : Host) (i : Fin SLOT_MAX)
    (rid : UInt16) (status : UInt8) (result : List UInt8) (cause : Cause)
    (hlate : cause.timesOut = true → (h.slots i).has_inflight = true →
      (h.slots i).inflight_rid = rid → Late h i) :
    Keeps h (onTrackerReply env send h i rid status result cause) := by
  unfold onTrackerReply
  dsimp only
  split
  · exact Keeps.refl h
  · rename_i hrid
    have hrid : rid = (h.slots i).inflight_rid := not_not.mp (not_or.mp hrid).2
    refine Keeps.trans (completeInflight_keeps hs h i status result cause ?_)
      (pumpSlot_keeps hs _ i)
    exact fun hc hin => hlate hc hin hrid.symm

/-! ## The controller -/

theorem sendShell_keeps (h : Host) (addr : UInt8)
    (command_id : UInt16) (args : List UInt8) (cb : ReplyCb) :
    Keeps h (demuxSendShellTo send h addr command_id args cb).1 :=
  demuxRequest_keeps hs h _ _ _ _ _ cb 0

omit hs in
theorem resetSync_keeps (h : Host) : Keeps h (resetSync h) := by
  unfold resetSync
  refine Keeps.trans ?_ (Keeps.note rfl _)
  exact Keeps.of_eq rfl rfl rfl rfl rfl

theorem provAfterSlaves_keeps (h : Host) : Keeps h (provAfterSlaves send h) := by
  unfold provAfterSlaves
  refine ite_keeps (J := Keeps h) ?_ ?_
  · refine Keeps.trans ?_ (sendShell_keeps hs _ _ _ _ _)
    exact Keeps.of_eq rfl rfl rfl rfl rfl
  · refine Keeps.trans ?_ (sendShell_keeps hs _ _ _ _ _)
    exact Keeps.of_eq rfl rfl rfl rfl rfl

theorem onProvReply_keeps (h : Host) (status : UInt8)
    (result : List UInt8) : Keeps h (onProvReply send h status result) := by
  unfold onProvReply
  split
  · exact Keeps.of_eq rfl rfl rfl rfl rfl
  split
  · split
    · refine Keeps.trans ?_ (sendShell_keeps hs _ _ _ _ _)
      exact Keeps.of_eq rfl rfl rfl rfl rfl
    · exact provAfterSlaves_keeps hs h
  · have hidx : Keeps h { h with prov_idx := h.prov_idx + 1 } := Keeps.of_eq rfl rfl rfl rfl rfl
    dsimp only
    split
    · exact hidx.trans (sendShell_keeps hs _ _ _ _ _)
    · exact hidx.trans (provAfterSlaves_keeps hs _)
  · refine Keeps.trans ?_ (sendShell_keeps hs _ _ _ _ _)
    exact Keeps.of_eq rfl rfl rfl rfl rfl
  · exact Keeps.of_eq rfl rfl rfl rfl rfl
  · exact Keeps.refl h

/-- The request `p` runs out of time too soon for no slot. -/
def Harmless (h : Host) (p : Pending) : Prop :=
  ∀ i, p.cb = .slot i → (h.slots i).has_inflight = true → (h.slots i).inflight_rid = p.request_id →
    Late h i

theorem resolve_keeps (h : Host) (k : Fin PENDING_MAX)
    (status : UInt8) (result : List UInt8) (cause : Cause)
    (hlate : cause.timesOut = true → ∀ p, h.pending k = some p → Harmless h p) :
    Keeps h (resolve env send h k status result cause) := by
  unfold resolve
  split
  · exact Keeps.refl h
  rename_i p hp
  have hfree : Keeps h ((h.setPending k none).note (.resolved p.serial p.cb status cause)) := by
    refine Keeps.trans (Keeps.setPending ?_) (Keeps.note rfl _)
    exact fun q hq => absurd hq (by simp)
  refine hfree.trans ?_
  unfold replyCb
  split
  · rename_i i hcb
    refine onTrackerReply_keeps hs _ i _ _ _ _ ?_
    exact fun hc hin hrid => hlate hc p hp i hcb hin hrid
  · exact onProvReply_keeps hs _ _ _
  · exact evqPush_keeps _ _
  · exact Keeps.refl _
  · exact Keeps.refl _

theorem onShellReply_keeps (h : Host) (payload : List UInt8) :
    Keeps h (onShellReply env send h payload) := by
  unfold onShellReply
  split
  · exact Keeps.refl h
  split
  · exact Keeps.refl h
  · exact resolve_keeps hs h _ _ _ _ (fun hc => absurd hc Bool.noConfusion)

omit hs in
theorem foldl_keeps_rel {α : Type} {f : Host → α → Host} (hf : ∀ h a, Keeps h (f h a)) (h : Host)
    (l : List α) : Keeps h (l.foldl f h) :=
  foldl_keeps (J := Keeps h) (fun g a hg => hg.trans (hf g a)) (Keeps.refl h) l

omit hs in
theorem onState_keeps (h : Host) (st : LinkState) : Keeps h (onState h st) := by
  have hlink : Keeps h ({ h with link := st }.evqPush (linkEvent st)) := by
    refine Keeps.trans ?_ (evqPush_keeps _ _)
    exact Keeps.of_eq rfl rfl rfl rfl rfl
  unfold onState
  cases st with
  | down =>
    refine (hlink.trans ?_).trans (resetSync_keeps _)
    exact Keeps.of_eq rfl rfl rfl rfl rfl
  | up => exact hlink

theorem onLinkState_keeps (h : Host) (st : LinkState) : Keeps h (onLinkState env send h st) := by
  unfold onLinkState
  cases st with
  | down =>
    refine Keeps.trans (foldl_keeps_rel ?_ h _) (onState_keeps _ _)
    exact fun h k => resolve_keeps hs h k _ _ _ (fun hc => absurd hc Bool.noConfusion)
  | up => exact onState_keeps h .up

omit hs in
theorem linkClosed_keeps (h : Host) (f : LinkFrame) : Keeps h (linkClosed h f).1 := Keeps.refl h

omit hs in
theorem linkSend_keeps (h : Host) (f : LinkFrame) : Keeps h (linkSend env h f).1 := by
  have hcount : Keeps h { h with sends := h.sends + 1 } := Keeps.of_eq rfl rfl rfl rfl rfl
  unfold linkSend
  split
  · exact Keeps.refl h
  dsimp only
  split
  · exact hcount
  · exact hcount.trans (Keeps.note rfl _)
  · refine (hcount.trans (Keeps.note (e := .queued f) rfl _)).trans ?_
    refine Keeps.trans ?_ (onLinkState_keeps linkClosed_keeps _ .down)
    exact Keeps.of_eq rfl rfl rfl rfl rfl

/-! ## The sweep -/

/-- No request that the sweep would time out belongs to a command that the
slave has acknowledged and that may still run. -/
def SweepsLate (h : Host) : Prop :=
  ∀ k, ∀ p ∈ h.pending k, REPLY_TIMEOUT_MS ≤ h.clock - p.sent_ms → Harmless h p

omit hs in
theorem demuxSweep_timed {h : Host} (ht : Timed h) (hlate : SweepsLate h) :
    Timed (demuxSweep env (linkSend env) h) := by
  -- The requests that are old now were old at the start, and so were their commands.
  have hold : ∀ g, Settles h g → ∀ k p, g.pending k = some p →
      REPLY_TIMEOUT_MS ≤ g.clock - p.sent_ms → Harmless g p := by
    intro g hg k p hp hage i hcb hin hrid hst
    have hcmd := hg.executing i hst
    have hp' : h.pending k = some p := by
      refine (hg.pending k p hp).resolve_left fun hnew => ?_
      rw [hnew, hg.clock, Nat.sub_self] at hage
      exact absurd hage (by decide)
    rw [hg.clock] at hage
    have := hlate k p hp' hage i hcb (hcmd.has_inflight ▸ hin) (hcmd.inflight_rid ▸ hrid)
      (hcmd.state ▸ hst)
    rw [hcmd.ack_ms, hcmd.inflight, hg.clock]
    exact this
  have hinv : Keeps h (demuxSweep env (linkSend env) h) := by
    refine foldl_keeps (J := Keeps h) ?_ (Keeps.refl h) _
    intro g k hg
    unfold sweepPending
    split
    · exact hg
    rename_i p hp
    split
    · rename_i hage
      refine hg.trans (resolve_keeps linkSend_keeps g k _ _ _ ?_)
      intro _ q hq
      rw [hp] at hq
      rw [← Option.some.inj hq]
      exact hold g hg.settles k p hp hage
    · exact hg
  exact hinv.timed ht

/-! ## The other steps -/

theorem onFlagged_keeps (h : Host) (addr flags : UInt8) :
    Keeps h (cmdTrackerOnFlagged send h addr flags) := by
  unfold cmdTrackerOnFlagged
  split
  · exact Keeps.refl h
  rename_i i hi
  have hset : Keeps h (h.setSlot i { h.slots i with
      il_known := true, il_flags := flags, faulted := flags &&& 1 != 0 }) :=
    Keeps.setSlot (Or.inl ⟨rfl, rfl, rfl, rfl, rfl⟩)
  dsimp only
  exact ite_keeps (J := Keeps h) (hset.trans (pumpSlot_keeps hs _ i)) hset

omit hs in
theorem onInterlockMsg_keeps (h : Host) (addr : UInt8) (msg : List UInt8) :
    Keeps h (cmdTrackerOnInterlockMsg h addr msg) := by
  unfold cmdTrackerOnInterlockMsg
  split
  · exact Keeps.refl h
  · exact Keeps.setSlot (Or.inl ⟨rfl, rfl, rfl, rfl, rfl⟩)

theorem retry_keeps (h : Host) (i : Fin SLOT_MAX) (hst : (h.slots i).state = .sent) (n : Nat) :
    Keeps h (sendInflight send (h.setSlot i { h.slots i with retries := n }) i).1 := by
  have hset : Keeps h (h.setSlot i { h.slots i with retries := n }) :=
    Keeps.setSlot (Or.inl ⟨rfl, rfl, rfl, rfl, rfl⟩)
  refine hset.trans (sendInflight_keeps hs _ i ?_).1
  simp [Host.setSlot, hst]

theorem onNak_keeps (h : Host) (addr : UInt8)
    (req_id : UInt16) : Keeps h (cmdTrackerOnNak env send h addr req_id) := by
  unfold cmdTrackerOnNak
  split
  · exact Keeps.refl h
  rename_i i hi
  dsimp only
  split
  · exact Keeps.refl h
  rename_i hst
  split
  · exact retry_keeps hs h i (not_not.mp (not_or.mp hst).1) _
  · refine (completeInflight_keeps hs h i _ _ _ ?_).trans (pumpSlot_keeps hs _ i)
    exact fun hc => absurd hc Bool.noConfusion

omit hs in
theorem onAck_timed {h : Host} (ht : Timed h) (addr : UInt8) (req_id : UInt16) :
    Timed (cmdTrackerOnAck h addr req_id) := by
  unfold cmdTrackerOnAck
  split
  · exact ht
  rename_i i hi
  dsimp only
  split
  · exact ht
  refine ⟨?_, ht.not_too_soon.snoc trivial, ht.now_le⟩
  intro j x a d hl
  simp only [Host.note, Host.setSlot, lastAck_acked] at hl ⊢
  by_cases hij : i = j
  · subst hij
    simp only [if_true, Option.some.injEq, Prod.mk.injEq] at hl
    obtain ⟨rfl, rfl, rfl⟩ := hl
    simp
  · rw [if_neg hij] at hl
    rw [Function.update_of_ne (Ne.symm hij)]
    exact ht.acked j x a d hl

theorem timed_leaves : Leaves env send (fun _ => True) Timed where
  core hc ht := ht.of_eq hc.slots hc.log hc.clock hc.now
  raw h _ _ ht := (sendFrameAddr_keeps hs h _ _ _).timed ht
  shell h _ _ _ _ _ ht := (sendShell_keeps hs h _ _ _ _).timed ht
  quiet _ _ := trivial
  resetSync h _ ht := (resetSync_keeps h).timed ht
  linkDown h k ht := (resolve_keeps hs h k _ _ _ (fun hc => absurd hc Bool.noConfusion)).timed ht
  flagged h _ _ ht := (onFlagged_keeps hs h _ _).timed ht
  ack _ _ _ ht := onAck_timed ht _ _
  nak h _ _ ht := (onNak_keeps hs h _ _).timed ht
  interlock h _ _ ht := (onInterlockMsg_keeps h _ _).timed ht

/-- The tracker itself ends an acknowledged command only at its deadline. -/
theorem pollSlot_timed {h : Host} (ht : Timed h)
    (i : Fin SLOT_MAX) : Timed (pollSlot env send h i) := by
  unfold pollSlot
  dsimp only
  split
  · exact ht
  split
  · rename_i hsent
    split
    · exact (retry_keeps hs h i hsent.1 _).timed ht
    · refine (Keeps.trans (completeInflight_keeps hs h i _ _ _ ?_) (pumpSlot_keeps hs _ i)).timed ht
      intro _ _ hin
      rw [hsent.1] at hin
      exact absurd hin SlotState.noConfusion
  split
  · split
    · rename_i hdue
      refine (Keeps.trans (completeInflight_keeps hs h i _ _ _ ?_) (pumpSlot_keeps hs _ i)).timed ht
      intro _ _ _
      have := ht.now_le
      have hm : 0 < EXEC_MARGIN_MS := by decide
      omega
    · exact ht
  · exact ite_keeps ((pumpSlot_keeps hs h i).timed ht) ht

theorem cmdTrackerPoll_timed {h : Host} (ht : Timed h) : Timed (cmdTrackerPoll env send h) := by
  have hnow : Timed { h with now := h.clock } := ⟨ht.acked, ht.not_too_soon, Nat.le_refl _⟩
  refine foldl_keeps ?_ hnow _
  exact fun h i ht => pollSlot_timed hs ht i

omit hs in
theorem note_reset_timed {h : Host} (ht : Timed h) (i : Fin SLOT_MAX) (x : Nat) (status : UInt8)
    (t : Nat) : Timed (h.note (.done i x status .reset t)) := by
  refine ⟨?_, ht.not_too_soon.snoc ?_, ht.now_le⟩
  · intro j y a d hl
    simp only [Host.note, lastAck_done] at hl
    split at hl
    · simp at hl
    · exact ht.acked j y a d hl
  · exact fun hc => absurd hc Bool.noConfusion

omit hs in
theorem clear_timed {h : Host} (ht : Timed h) (i : Fin SLOT_MAX) (s : Slot) :
    Timed ((h.setSlot i s).note (.cleared i)) := by
  refine ⟨?_, ht.not_too_soon.snoc trivial, ht.now_le⟩
  intro j y a d hl
  simp only [Host.note, Host.setSlot, lastAck_cleared] at hl ⊢
  split at hl
  · simp at hl
  · rename_i hij
    rw [Function.update_of_ne (Ne.symm hij)]
    exact ht.acked j y a d hl

theorem drainQueue_timed {h h' : Host} (ht : Timed h)
    (i : Fin SLOT_MAX) (abort_status : UInt8) {fuel : Nat}
    (hd : drainQueue env send h i abort_status fuel = some h') : Timed h' := by
  induction fuel generalizing h with
  | zero =>
    simp only [drainQueue, Option.ite_none_right_eq_some, Option.some.injEq] at hd
    exact hd.2 ▸ ht
  | succ fuel ih =>
    unfold drainQueue at hd
    dsimp only at hd
    split at hd
    · exact Option.some.inj hd ▸ ht
    · refine ih ?_ hd
      have hnote := note_reset_timed ht i (h.slots i).q.front.handle abort_status h.clock
      have hrun := runDone_keeps env hs (h.note (.done i (h.slots i).q.front.handle abort_status
        .reset h.clock)) (h.slots i).q.front.on_done (h.slots i).q.front.handle
        (h.slots i).addr abort_status []
      have hdone := hrun.timed hnote
      refine Keeps.timed ?_ hdone
      exact Keeps.setSlot (Or.inl ⟨rfl, rfl, rfl, rfl, rfl⟩)

theorem resetSlot_timed {h h' : Host} (ht : Timed h)
    (fuel : Nat) (abort_status : UInt8) (i : Fin SLOT_MAX)
    (hr : resetSlot env send fuel abort_status h i = some h') : Timed h' := by
  unfold resetSlot at hr
  split at hr
  · obtain ⟨g, hg, rfl⟩ := Option.map_eq_some_iff.mp hr
    apply clear_timed
    refine drainQueue_timed hs ?_ i abort_status hg
    refine (completeInflight_keeps hs h i _ _ _ ?_).timed ht
    exact fun hc => absurd hc Bool.noConfusion
  · exact Option.some.inj hr ▸ ht

theorem cmdTrackerReset_timed {h h' : Host} (ht : Timed h) (fuel : Nat) (abort_status : UInt8)
    (hr : cmdTrackerReset env send fuel h abort_status = some h') : Timed h' :=
  inv_runs (P := fun _ _ => True)
    (fun _ i _ ht _ hr => resetSlot_timed hs ht fuel abort_status i hr)
    ht (Meets.of_forall (fun _ _ => trivial) _ _) hr

omit hs in
theorem addSlave_timed {h : Host} (ht : Timed h) (addr : UInt8) :
    Timed (cmdTrackerAddSlave h addr) := by
  unfold cmdTrackerAddSlave
  split
  · exact ht
  split
  · exact ht
  · exact clear_timed ht _ _

theorem attachRoster_timed {h h' : Host} (ht : Timed h)
    (fuel : Nat) (r : Option Roster) (hr : controllerAttachRoster env send fuel h r = some h') :
    Timed h' := by
  unfold controllerAttachRoster at hr
  obtain ⟨g, hg, rfl⟩ := Option.map_eq_some_iff.mp hr
  have hstart : Timed
      ({ h with
          roster := r.getD .empty
          have_roster := r.isSome
          prov := .idle
          prov_idx := 0
          bc_total := 0 }.note .provReset) := by
    refine (Keeps.note rfl _).timed ?_
    exact ht.of_eq rfl rfl rfl rfl
  have hreset := cmdTrackerReset_timed hs hstart fuel _ hg
  have hslaves : Timed (g.roster.slaves.foldl (fun h s => cmdTrackerAddSlave h s.addr) g) := by
    refine foldl_keeps ?_ hreset _
    exact fun h s ht => addSlave_timed ht s.addr
  exact hslaves.of_eq rfl rfl rfl rfl

theorem provGate_timed {h : Host} (ht : Timed h) : Timed (provGate send h) := by
  unfold provGate
  split
  · split
    · exact ht
    · refine ite_keeps ?_ ?_
      · refine (sendShell_keeps hs _ _ _ _ _).timed ?_
        exact ht.of_eq rfl rfl rfl rfl
      · exact ht.of_eq rfl rfl rfl rfl
  · exact ht

end

/-! ## Every run -/

/-- The sweep of the demux comes after the deadline of each command that it ends. -/
def SweepsInTime (h : Host) : Op → Prop
  | .demuxSweep => SweepsLate h
  | _ => True

instance (h : Host) (i : Fin SLOT_MAX) : Decidable (Late h i) :=
  inferInstanceAs (Decidable (_ → _))

instance (h : Host) (p : Pending) : Decidable (Harmless h p) :=
  inferInstanceAs (Decidable (∀ i, p.cb = .slot i → (h.slots i).has_inflight = true →
    (h.slots i).inflight_rid = p.request_id → Late h i))

instance : ∀ h op, Decidable (SweepsInTime h op)
  | h, .demuxSweep => inferInstanceAs (Decidable
    (∀ k, ∀ p ∈ h.pending k, REPLY_TIMEOUT_MS ≤ h.clock - p.sent_ms → Harmless h p))
  | _, .frame _ => isTrue trivial
  | _, .linkUp => isTrue trivial
  | _, .linkDown => isTrue trivial
  | _, .manifestDue => isTrue trivial
  | _, .provGate => isTrue trivial
  | _, .trackerPoll => isTrue trivial
  | _, .reconcile => isTrue trivial
  | _, .submit _ => isTrue trivial
  | _, .sendShell .. => isTrue trivial
  | _, .addSlave _ => isTrue trivial
  | _, .attachRoster .. => isTrue trivial
  | _, .drain => isTrue trivial
  | _, .tick _ => isTrue trivial

theorem step_timed {h h' : Host} {op : Op} (ht : Timed h) (hop : SweepsInTime h op)
    (hstep : step env h op = some h') : Timed h' := by
  have hs : ∀ h f, Keeps h (linkSend env h f).1 := linkSend_keeps
  have hl : Leaves env (linkSend env) (fun _ => True) Timed := timed_leaves hs
  cases op with
  | frame f =>
    cases hstep
    exact hl.onLinkFrame ht f ((onShellReply_keeps hs h f.payload).timed ht) fun _ => trivial
  | linkUp =>
    rcases step_cases hstep with ⟨-, rfl⟩ | rfl
    · refine hl.onLinkState ?_ .up fun _ => trivial
      exact ht.of_eq rfl rfl rfl rfl
    · exact ht
  | linkDown =>
    rcases step_cases hstep with ⟨-, rfl⟩ | rfl
    · refine (timed_leaves linkClosed_keeps).onLinkState ?_ .down fun _ => trivial
      exact ht.of_eq rfl rfl rfl rfl
    · exact ht
  | demuxSweep =>
    cases hstep
    exact demuxSweep_timed ht hop
  | manifestDue =>
    cases hstep
    exact hl.manifestDue ht
  | provGate =>
    cases hstep
    exact provGate_timed hs ht
  | trackerPoll =>
    cases hstep
    exact cmdTrackerPoll_timed hs ht
  | reconcile =>
    cases hstep
    exact hl.reconcileInterlocks ht
  | submit c =>
    cases hstep
    exact (submit_keeps hs h c).timed ht
  | sendShell dest_addr command_id args cb =>
    obtain ⟨-, rfl⟩ := step_cases hstep
    exact (sendShell_keeps hs h _ _ _ _).timed ht
  | addSlave addr =>
    cases hstep
    exact addSlave_timed ht addr
  | attachRoster fuel r => exact attachRoster_timed hs ht fuel r hstep
  | drain =>
    cases hstep
    exact ht.of_eq rfl rfl rfl rfl
  | tick ms =>
    cases hstep
    exact ⟨ht.acked, ht.not_too_soon, Nat.le_trans ht.now_le (Nat.le_add_right _ _)⟩

theorem create_timed : Timed .create where
  acked i x a d hl := by simp [lastAck, Host.create] at hl
  not_too_soon := past_nil _
  now_le := Nat.le_refl _

/-- In every run in which the sweep of the demux comes late enough, a command
that the slave acknowledged is not timed out before its own deadline. -/
theorem an_acknowledged_command_keeps_its_time (ops : List Op) (h : Host)
    (hok : Meets (step env) SweepsInTime .create ops)
    (hrun : runs (step env) .create ops = some h) : Past NotTooSoon h.log :=
  (inv_runs (fun _ _ _ ht hop hstep => step_timed ht hop hstep) create_timed hok hrun).not_too_soon

/-! ## A sweep that comes too soon -/

/-- A command with an exec timeout of its own. -/
def timedCommand (exec_timeout_ms : UInt32) : Submit where
  addr := 1
  command_id := 7
  args := []
  exec_timeout_ms := exec_timeout_ms
  on_done := .client

/-- The ACK of the first request, from the slave at address 1. -/
def firstAck : LinkFrame where
  addr := 0
  cmd := OP_BUS_CMD_ACK
  seq := 0
  payload := [1, 1, 0]

def quietEnv : Env where
  link_send := fun _ _ => .queued
  on_done := fun _ => []

/-- A command is acknowledged at once, and `controller_poll` runs some time later. -/
def ackThenPoll (exec_timeout_ms : UInt32) (ms : Nat) : List Op :=
  [.linkUp, .addSlave 1, .submit (timedCommand exec_timeout_ms), .frame firstAck, .tick ms] ++
    controllerPoll

set_option maxRecDepth 4000 in
/-- A command that may run for five seconds is timed out after two and a half. -/
theorem long_command_is_timed_out_too_soon :
    ¬ ∀ (env : Env) (ops : List Op) (h : Host), runs (step env) .create ops = some h →
      Past NotTooSoon h.log := by
  intro hall
  have hlog : (runs (step quietEnv) .create (ackThenPoll 5000 2500)).map (fun h => h.log.drop 4) =
      some [.acked 0 1 0 5000, .resolved 1 (.slot 0) DEMUX_STATUS_TIMEOUT .sweep,
        .done 0 1 DEMUX_STATUS_TIMEOUT .sweep 2500] := by decide
  obtain ⟨h, hrun, hdrop⟩ := Option.map_eq_some_iff.mp hlog
  have hsplit := (List.take_append_drop 4 h.log).symm
  rw [hdrop] at hsplit
  have hlaw := hall quietEnv _ h hrun
    (h.log.take 4 ++ [.acked 0 1 0 5000, .resolved 1 (.slot 0) DEMUX_STATUS_TIMEOUT .sweep])
    (.done 0 1 DEMUX_STATUS_TIMEOUT .sweep 2500) [] (hsplit.trans (by simp))
  have hack : lastAck 0 (h.log.take 4 ++ [.acked 0 1 0 5000,
      .resolved 1 (.slot 0) DEMUX_STATUS_TIMEOUT .sweep]) = some (1, 0, 5000) := by
    simp [lastAck]
  exact absurd (hlaw rfl 1 0 5000 hack).2 (by decide)

set_option maxRecDepth 4000 in
/-- A command that may run for one second meets its own deadline first. -/
theorem short_command_keeps_its_time :
    ∃ h, runs (step quietEnv) .create (ackThenPoll 1000 2000) = some h ∧ Past NotTooSoon h.log := by
  have hsome : (runs (step quietEnv) .create (ackThenPoll 1000 2000)).isSome := by decide
  obtain ⟨h, hrun⟩ := Option.isSome_iff_exists.mp hsome
  exact ⟨h, hrun, an_acknowledged_command_keeps_its_time _ h (by decide) hrun⟩

end motioncore.host
