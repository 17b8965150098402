-- The chain of the dongle takes the events of the link, state by state
-- (`register_dongle_v2.lua`, `user_functions.c`). The payload of a shell command waits
-- in a queue of its own. An OP_SHELL_EXEC event that no state but OPERATIONAL handles
-- leaves its payload behind, and every later command gets the payload of an earlier one.
import MotionCore.Firmware.RxDrain

open motioncore.bytes motioncore.ring motioncore.wire

namespace motioncore.firmware

/-! ## The dongle -/

inductive DongleState where
  | BOOT
  | L1_DONE
  | OPERATIONAL
deriving DecidableEq

abbrev COMMISSIONING_UNCOMMISSIONED : UInt8 := 0
abbrev COMMISSIONING_COMMISSIONED : UInt8 := 1
abbrev NAK_ERR_STATE : UInt8 := 1
abbrev NAK_ERR_NO_RESOURCES : UInt8 := 3
abbrev NAK_ERR_ARGS : UInt8 := 4
abbrev SHELL_EXEC_HEADER_LEN : Nat := 4

/-- The identity that the flash keeps over a reset. -/
structure Commissioning where
  instance_id : UInt32
  state : UInt8
deriving DecidableEq

/-- What the chain sends to the host. -/
inductive Sent where
  | nak (reason : UInt8) (rejected_cmd : UInt16)
  | commissionReply (stored_instance_id : UInt32) (status : UInt8)
  | manifestReply
  | pong
  /-- The reply to a shell command, which is run for it. -/
  | shellReply (payload : List UInt8)
deriving DecidableEq

/-- One run of `handle_shell_exec`: the payload of the frame that it was triggered by, and the
payload that it took, if there was one. -/
structure ShellRun where
  trigger : List UInt8
  taken : Option (List UInt8)
deriving DecidableEq

/-- The state of the dongle. Two fields are not in the source: `shellRuns`, and `passed`, the
number of OP_SHELL_EXEC events that were dispatched in another state than OPERATIONAL. -/
structure Dongle where
  rx : RxState
  dongle_state : DongleState
  commissioning : Commissioning
  tx : List Sent
  rebootRequested : Bool
  shellRuns : List ShellRun
  passed : Nat

def Dongle.boot (commissioning : Commissioning) : Dongle where
  rx := .boot
  dongle_state := .BOOT
  commissioning := commissioning
  tx := []
  rebootRequested := false
  shellRuns := []
  passed := 0

namespace Dongle

def send (d : Dongle) (f : Sent) : Dongle := { d with tx := d.tx ++ [f] }

def emitNak (d : Dongle) (reason : UInt8) (rejected_cmd : UInt16) : Dongle :=
  d.send (.nak reason rejected_cmd)

/-! ## The handlers -/

/-- `send_nak`. The tick, the opcodes of the dongle and the internal events are silent. -/
def sendNak (d : Dongle) (event_id : UInt16) : Dongle :=
  if event_id < 0x0100 then d
  else if 0xFE00 ≤ event_id then d
  else d.emitNak NAK_ERR_STATE event_id

def handleRegisterAck (d : Dongle) : Dongle :=
  if d.commissioning.state = COMMISSIONING_COMMISSIONED then { d with dongle_state := .L1_DONE }
  else d.emitNak NAK_ERR_STATE OP_REGISTER_ACK

/-- `flash_storage_write`, which may fail, and what follows it. -/
def storeCommissioning (d : Dongle) (flash_ok : Bool) (c : Commissioning) : Dongle :=
  let d := if flash_ok then { d with commissioning := c } else d
  let d := d.send (.commissionReply c.instance_id (if flash_ok then 0 else 1))
  { d with rebootRequested := true }

def handleCommissionSet (d : Dongle) (flash_ok : Bool) : Dongle :=
  if d.commissioning.state ≠ COMMISSIONING_UNCOMMISSIONED then
    d.emitNak NAK_ERR_STATE OP_COMMISSION_SET
  else if d.rx.pending_instance_id = 0 then d.emitNak NAK_ERR_ARGS OP_COMMISSION_SET
  else
    let c := { instance_id := d.rx.pending_instance_id, state := COMMISSIONING_COMMISSIONED }
    d.storeCommissioning flash_ok c

def handleCommissionClear (d : Dongle) (flash_ok : Bool) : Dongle :=
  d.storeCommissioning flash_ok { instance_id := 0, state := COMMISSIONING_UNCOMMISSIONED }

def shellPendingPop (d : Dongle) : Option (List UInt8 × Dongle) :=
  if d.rx.shell.count = 0 then none
  else some (d.rx.shell.front, { d with rx := { d.rx with shell := d.rx.shell.pop } })

/-- `handle_shell_exec`. The event brings no payload: the oldest of the queue is taken. -/
def handleShellExec (d : Dongle) (trigger : List UInt8) : Dongle :=
  match d.shellPendingPop with
  | none =>
    { d.emitNak NAK_ERR_NO_RESOURCES OP_SHELL_EXEC with
      shellRuns := d.shellRuns ++ [⟨trigger, none⟩] }
  | some (payload, d) =>
    let d : Dongle := { d with shellRuns := d.shellRuns ++ [⟨trigger, some payload⟩] }
    if payload.length < SHELL_EXEC_HEADER_LEN then d.emitNak NAK_ERR_ARGS OP_SHELL_EXEC
    else d.send (.shellReply payload)

def handleInternalEvents (d : Dongle) (event_id : UInt16) : Dongle :=
  if event_id = EV_HOST_REATTACH then { d with dongle_state := .BOOT } else d

/-! ## The chain -/

def bootDispatch (d : Dongle) (flash_ok : Bool) (event_id : UInt16) : Dongle :=
  if event_id = OP_REGISTER_ACK then d.handleRegisterAck
  else if event_id = OP_COMMISSION_SET then d.handleCommissionSet flash_ok
  else if event_id = OP_COMMISSION_CLEAR then d.handleCommissionClear flash_ok
  else d.sendNak event_id

def l1DoneDispatch (d : Dongle) (flash_ok : Bool) (event_id : UInt16) : Dongle :=
  if event_id = OP_GET_MANIFEST then d.send .manifestReply
  else if event_id = OP_OPERATIONAL_BEGIN then { d with dongle_state := .OPERATIONAL }
  else if event_id = OP_COMMISSION_CLEAR then d.handleCommissionClear flash_ok
  else d.sendNak event_id

def opDispatch (d : Dongle) (flash_ok : Bool) (e : Event) : Dongle :=
  if e.id = OP_PING then d.send .pong
  else if e.id = OP_GET_MANIFEST then d.send .manifestReply
  else if e.id = OP_COMMISSION_CLEAR then d.handleCommissionClear flash_ok
  else if e.id = OP_SHELL_EXEC then d.handleShellExec e.payload
  else d.sendNak e.id

/-- The OP_SHELL_EXEC events that another state than OPERATIONAL takes are counted. -/
def countPassed (d : Dongle) (event_id : UInt16) : Dongle :=
  if event_id = OP_SHELL_EXEC ∧ d.dongle_state ≠ .OPERATIONAL then
    { d with passed := d.passed + 1 }
  else d

/-- One tick of the tree with an event: the internal events, and then the state machine. -/
def nodeTick (d : Dongle) (flash_ok : Bool) (e : Event) : Dongle :=
  let d := (d.handleInternalEvents e.id).countPassed e.id
  match d.dongle_state with
  | .BOOT => d.bootDispatch flash_ok e.id
  | .L1_DONE => d.l1DoneDispatch flash_ok e.id
  | .OPERATIONAL => d.opDispatch flash_ok e

/-- `s_expr_event_pop`. The event itself is the front of the queue. -/
def popEvent (d : Dongle) : Dongle :=
  { d with rx := { d.rx with events := d.rx.events.pop } }

/-- The loop over the event queue. No handler pushes an event. -/
def drain (flash_ok : Bool) : Nat → Dongle → Dongle
  | 0, d => d
  | n + 1, d => drain flash_ok n (d.popEvent.nodeTick flash_ok d.rx.events.front)

def tickAndDrain (d : Dongle) (flash_ok : Bool) : Dongle :=
  let d := d.nodeTick flash_ok ⟨SE_EVENT_TICK, []⟩
  drain flash_ok d.rx.events.count d

end Dongle

/-! ## Runs -/

inductive DongleOp where
  | rx (bs : List UInt8)
  /-- The host closed the port and opened it again. -/
  | reattach
  /-- A tick, in which writes of the flash succeed or not. -/
  | tick (flash_ok : Bool)
  /-- A reset, with what the flash holds by then. -/
  | reset (stored : Commissioning)

/-- A step of the main loop. `none` is a dongle that waits for its watchdog. -/
def dongleStep (role : Role) : Option Dongle → DongleOp → Option Dongle
  | _, .reset stored => some (.boot stored)
  | none, _ => none
  | some d, .rx bs => (rxDrain role d.rx bs).map fun rx => { d with rx }
  | some d, .reattach => (eventPush d.rx ⟨EV_HOST_REATTACH, []⟩).map fun rx => { d with rx }
  | some d, .tick flash_ok => some (d.tickAndDrain flash_ok)

def dongleRun (role : Role) (boot : Commissioning) (ops : List DongleOp) : Option Dongle :=
  ops.foldl (dongleStep role) (some (.boot boot))

/-! ## The two queues -/

/-- The OP_SHELL_EXEC events that are still queued, by the payload of their frame. -/
def queuedTriggers (rx : RxState) : List (List UInt8) :=
  (rx.events.contents.filter fun e => e.id = OP_SHELL_EXEC).map Event.payload

/-- As many payloads are queued as events, and every run of the handler took the payload of
its own frame. -/
structure Paired (d : Dongle) : Prop where
  queued : d.rx.shell.count = (queuedTriggers d.rx).length
  own : ∀ r ∈ d.shellRuns, r.taken = some r.trigger

/-- One place of the payload queue is always empty. -/
def HasRoom (rx : RxState) : Prop := rx.shell.count < SHELL_PENDING_DEPTH

/-- Each event that was passed over left one payload behind. As long as there is none, the
queues hold the same payloads in the same order. -/
structure Skewed (d : Dongle) : Prop where
  room : HasRoom d.rx
  count : d.rx.shell.count = (queuedTriggers d.rx).length + d.passed
  same : d.passed = 0 → d.rx.shell.contents = queuedTriggers d.rx
  own : d.passed = 0 → ∀ r ∈ d.shellRuns, r.taken = some r.trigger

theorem Skewed.paired_iff {d : Dongle} (h : Skewed d) : Paired d ↔ d.passed = 0 := by
  constructor
  · intro hp
    have hcount := h.count
    rw [hp.queued] at hcount
    omega
  · intro h0
    refine ⟨?_, h.own h0⟩
    rw [h.count, h0]
    rfl

/-! ## The link -/

/-- What the link does to the two queues: a payload goes with its event. -/
structure Feeds (rx rx' : RxState) : Prop where
  room : HasRoom rx → HasRoom rx'
  appended : HasRoom rx → ∃ ps, rx'.shell.contents = rx.shell.contents ++ ps ∧
    queuedTriggers rx' = queuedTriggers rx ++ ps

variable {rx rx' : RxState}

theorem feeds_refl (hshell : rx'.shell = rx.shell) (hevents : rx'.events = rx.events) :
    Feeds rx rx' := by
  refine ⟨fun h => ?_, fun _ => ⟨[], ?_, ?_⟩⟩
  · unfold HasRoom
    rw [hshell]
    exact h
  · rw [hshell, List.append_nil]
  · rw [queuedTriggers, hevents, List.append_nil]
    rfl

theorem Feeds.trans {a b c : RxState} (h : Feeds a b) (h' : Feeds b c) : Feeds a c := by
  refine ⟨fun ha => h'.room (h.room ha), fun ha => ?_⟩
  obtain ⟨ps, hs, ht⟩ := h.appended ha
  obtain ⟨qs, hs', ht'⟩ := h'.appended (h.room ha)
  refine ⟨ps ++ qs, ?_, ?_⟩
  · rw [hs', hs, List.append_assoc]
  · rw [ht', ht, List.append_assoc]

variable {e : Event}

theorem eventPush_queued (h : eventPush rx e = some rx') :
    rx'.shell = rx.shell ∧ queuedTriggers rx' = queuedTriggers rx ++
      if e.id = OP_SHELL_EXEC then [e.payload] else [] := by
  unfold eventPush at h
  split at h
  · cases h
  · rename_i hfull
    cases h
    refine ⟨rfl, ?_⟩
    have hlt : rx.events.count < S_EXPR_EVENT_QUEUE_SIZE := by
      simpa [Ring.isFull] using hfull
    unfold queuedTriggers
    dsimp only
    rw [Ring.contents_push e hlt, List.filter_append, List.map_append]
    congr 1
    by_cases he : e.id = OP_SHELL_EXEC <;> simp [he]

theorem eventPush_feeds (hid : e.id ≠ OP_SHELL_EXEC) (h : eventPush rx e = some rx') :
    Feeds rx rx' := by
  obtain ⟨hs, ht⟩ := eventPush_queued h
  rw [if_neg hid] at ht
  refine ⟨fun hroom => ?_, fun _ => ⟨[], by rw [hs, List.append_nil], ht⟩⟩
  unfold HasRoom
  rw [hs]
  exact hroom

variable {role : Role}

theorem rxFrame_feeds {f : Frame} (h : rxFrame role rx f = some rx') : Feeds rx rx' := by
  have hstage : Feeds rx (stageInstanceId rx f) := by
    unfold stageInstanceId
    split <;> exact feeds_refl rfl rfl
  unfold rxFrame at h
  split at h
  · cases h
    exact feeds_refl rfl rfl
  · dsimp only at h
    refine hstage.trans ?_
    generalize stageInstanceId rx f = s at h
    split at h
    · cases h
      exact feeds_refl rfl rfl
    · split at h
      · rename_i hshell
        split at h
        · -- the queue of the payloads is full: neither payload nor event
          cases h
          exact feeds_refl rfl rfl
        · rename_i shell hpush
          obtain ⟨hs, ht⟩ := eventPush_queued h
          rw [if_pos hshell] at ht
          have hpushed : HasRoom s → shell.contents = s.shell.contents ++ [f.payload] ∧
              shell.count < SHELL_PENDING_DEPTH := by
            intro hroom
            unfold shellPendingPush at hpush
            split at hpush
            · cases hpush
            · rename_i hlast
              cases hpush
              refine ⟨Ring.contents_push _ hroom, ?_⟩
              rw [Ring.count_push _ hroom]
              exact Nat.lt_of_le_of_ne hroom hlast
          refine ⟨fun hroom => ?_, fun hroom => ⟨[f.payload], ?_, ht⟩⟩
          · unfold HasRoom
            rw [hs]
            exact (hpushed hroom).2
          · rw [hs]
            exact (hpushed hroom).1
      · rename_i hother
        have hpushed : Feeds s { s with pushed := s.pushed ++ [f.cmd] } := feeds_refl rfl rfl
        exact hpushed.trans (eventPush_feeds hother (show eventPush _ ⟨f.cmd, f.payload⟩ = some rx' from h))

theorem rxFrames_feed (fs : List Frame) :
    ∀ {rx rx' : RxState}, machine.runs (rxFrame role) rx fs = some rx' → Feeds rx rx' := by
  induction fs with
  | nil =>
    intro rx rx' h
    cases h
    exact feeds_refl rfl rfl
  | cons f fs ih =>
    intro rx rx' h
    simp only [machine.runs_cons, Option.bind_eq_some_iff] at h
    obtain ⟨t, ht, h⟩ := h
    exact (rxFrame_feeds ht).trans (ih h)

/-- Whatever one read returned, each payload was queued together with its event. -/
theorem rxDrain_feeds (bs : List UInt8) :
    ∀ {rx rx' : RxState}, rxDrain role rx bs = some rx' → Feeds rx rx' := by
  unfold rxDrain
  induction bs with
  | nil =>
    intro rx rx' h
    cases h
    exact feeds_refl rfl rfl
  | cons b bs ih =>
    intro rx rx' h
    simp only [machine.runs_cons, Option.bind_eq_some_iff] at h
    obtain ⟨t, ht, h⟩ := h
    have hdecoded : Feeds rx { rx with decoder := (decodeStep .m2s rx.decoder b).1 } :=
      feeds_refl rfl rfl
    exact (hdecoded.trans (rxFrames_feed _ ht)).trans (ih h)

theorem Skewed.feed {d : Dongle} (h : Skewed d) (hf : Feeds d.rx rx) : Skewed { d with rx } := by
  obtain ⟨ps, hs, ht⟩ := hf.appended h.room
  refine ⟨hf.room h.room, ?_, fun h0 => ?_, h.own⟩
  · have hlen := congrArg List.length hs
    have hcount := h.count
    simp only [Ring.length_contents, List.length_append] at hlen
    dsimp only
    rw [ht, List.length_append]
    omega
  · dsimp only
    rw [hs, ht, h.same h0]

/-! ## The chain -/

/-- Only the handler of shell commands takes a payload. -/
structure Leaves (d d' : Dongle) : Prop where
  rx : d'.rx = d.rx
  shellRuns : d'.shellRuns = d.shellRuns
  passed : d'.passed = d.passed

variable (d : Dongle) (flash_ok : Bool) (id : UInt16)

theorem sendNak_leaves : Leaves d (d.sendNak id) := by
  unfold Dongle.sendNak
  split
  · exact ⟨rfl, rfl, rfl⟩
  · split <;> exact ⟨rfl, rfl, rfl⟩

theorem storeCommissioning_leaves (c : Commissioning) :
    Leaves d (d.storeCommissioning flash_ok c) := by
  cases flash_ok <;> exact ⟨rfl, rfl, rfl⟩

theorem handleCommissionSet_leaves : Leaves d (d.handleCommissionSet flash_ok) := by
  unfold Dongle.handleCommissionSet
  split
  · exact ⟨rfl, rfl, rfl⟩
  · split
    · exact ⟨rfl, rfl, rfl⟩
    · exact storeCommissioning_leaves d flash_ok _

theorem handleRegisterAck_leaves : Leaves d d.handleRegisterAck := by
  unfold Dongle.handleRegisterAck
  split <;> exact ⟨rfl, rfl, rfl⟩

theorem bootDispatch_leaves : Leaves d (d.bootDispatch flash_ok id) := by
  unfold Dongle.bootDispatch
  split
  · exact handleRegisterAck_leaves d
  · split
    · exact handleCommissionSet_leaves d flash_ok
    · split
      · exact storeCommissioning_leaves d flash_ok _
      · exact sendNak_leaves d id

theorem l1DoneDispatch_leaves : Leaves d (d.l1DoneDispatch flash_ok id) := by
  unfold Dongle.l1DoneDispatch
  split
  · exact ⟨rfl, rfl, rfl⟩
  · split
    · exact ⟨rfl, rfl, rfl⟩
    · split
      · exact storeCommissioning_leaves d flash_ok _
      · exact sendNak_leaves d id

theorem opDispatch_leaves (h : e.id ≠ OP_SHELL_EXEC) : Leaves d (d.opDispatch flash_ok e) := by
  unfold Dongle.opDispatch
  rw [if_neg h]
  split
  · exact ⟨rfl, rfl, rfl⟩
  · split
    · exact ⟨rfl, rfl, rfl⟩
    · split
      · exact storeCommissioning_leaves d flash_ok _
      · exact sendNak_leaves d e.id

theorem opDispatch_shell (h : e.id = OP_SHELL_EXEC) :
    d.opDispatch flash_ok e = d.handleShellExec e.payload := by
  unfold Dongle.opDispatch
  rw [h]
  rfl

theorem handleShellExec_takes (trigger : List UInt8) (h : d.rx.shell.count ≠ 0) :
    (d.handleShellExec trigger).rx = { d.rx with shell := d.rx.shell.pop } ∧
    (d.handleShellExec trigger).shellRuns = d.shellRuns ++ [⟨trigger, some d.rx.shell.front⟩] ∧
    (d.handleShellExec trigger).passed = d.passed := by
  unfold Dongle.handleShellExec Dongle.shellPendingPop
  rw [if_neg h]
  dsimp only
  split <;> exact ⟨rfl, rfl, rfl⟩

/-- An OP_SHELL_EXEC event went by, and its payload stays in the queue. -/
structure Passes (d d' : Dongle) : Prop where
  rx : d'.rx = d.rx
  shellRuns : d'.shellRuns = d.shellRuns
  passed : d'.passed = d.passed + 1

variable {d' : Dongle}

theorem Passes.leaves {d d'' : Dongle} (h : Passes d d') (hl : Leaves d' d'') : Passes d d'' :=
  ⟨hl.rx.trans h.rx, hl.shellRuns.trans h.shellRuns, hl.passed.trans h.passed⟩

theorem countPassed_passes {d : Dongle} {id : UInt16} (hid : id = OP_SHELL_EXEC)
    (hst : d.dongle_state ≠ .OPERATIONAL) :
    Passes d (d.countPassed id) ∧ (d.countPassed id).dongle_state = d.dongle_state := by
  unfold Dongle.countPassed
  rw [if_pos ⟨hid, hst⟩]
  exact ⟨⟨rfl, rfl, rfl⟩, rfl⟩

/-- What a tick with an event does to the queues. An OP_SHELL_EXEC event takes a payload
in the state OPERATIONAL, and else it is passed over. -/
theorem nodeTick_cases (e : Event) : (e.id ≠ OP_SHELL_EXEC ∧ Leaves d (d.nodeTick flash_ok e)) ∨
    (e.id = OP_SHELL_EXEC ∧ Passes d (d.nodeTick flash_ok e)) ∨
    (e.id = OP_SHELL_EXEC ∧ d.nodeTick flash_ok e = d.handleShellExec e.payload) := by
  unfold Dongle.nodeTick
  by_cases hid : e.id = OP_SHELL_EXEC
  · have hint : d.handleInternalEvents e.id = d := by
      unfold Dongle.handleInternalEvents
      rw [if_neg (by rw [hid]; decide)]
    rw [hint]
    cases hst : d.dongle_state with
    | OPERATIONAL =>
      refine Or.inr (Or.inr ⟨hid, ?_⟩)
      have hcount : d.countPassed e.id = d := by
        unfold Dongle.countPassed
        rw [if_neg (by simp [hst])]
      rw [hcount]
      simp only [hst]
      exact opDispatch_shell d flash_ok hid
    | BOOT =>
      obtain ⟨hpassed, hstate⟩ := countPassed_passes hid (show d.dongle_state ≠ _ by simp [hst])
      rw [hst] at hstate
      simp only [hstate]
      exact Or.inr (Or.inl ⟨hid, hpassed.leaves (bootDispatch_leaves _ flash_ok e.id)⟩)
    | L1_DONE =>
      obtain ⟨hpassed, hstate⟩ := countPassed_passes hid (show d.dongle_state ≠ _ by simp [hst])
      rw [hst] at hstate
      simp only [hstate]
      exact Or.inr (Or.inl ⟨hid, hpassed.leaves (l1DoneDispatch_leaves _ flash_ok e.id)⟩)
  · refine Or.inl ⟨hid, ?_⟩
    have hfront : Leaves d ((d.handleInternalEvents e.id).countPassed e.id) := by
      unfold Dongle.countPassed Dongle.handleInternalEvents
      rw [if_neg fun h => hid h.1]
      split <;> exact ⟨rfl, rfl, rfl⟩
    generalize (d.handleInternalEvents e.id).countPassed e.id = d' at hfront
    have hrest : ∀ d'', Leaves d' d'' → Leaves d d'' := fun d'' h =>
      ⟨h.rx.trans hfront.rx, h.shellRuns.trans hfront.shellRuns, h.passed.trans hfront.passed⟩
    dsimp only
    split
    · exact hrest _ (bootDispatch_leaves d' flash_ok e.id)
    · exact hrest _ (l1DoneDispatch_leaves d' flash_ok e.id)
    · exact hrest _ (opDispatch_leaves d' flash_ok hid)

/-- An event that is not queued, such as the tick, and is no shell command. -/
theorem Skewed.leaves {d : Dongle} (h : Skewed d) (hl : Leaves d d') : Skewed d' := by
  refine ⟨?_, ?_, ?_, ?_⟩
  · rw [hl.rx]
    exact h.room
  · rw [hl.rx, hl.passed]
    exact h.count
  · rw [hl.rx, hl.passed]
    exact h.same
  · rw [hl.shellRuns, hl.passed]
    exact h.own

theorem queuedTriggers_pop {d : Dongle} (h : d.rx.events.count ≠ 0) :
    queuedTriggers d.rx = (if d.rx.events.front.id = OP_SHELL_EXEC
      then [d.rx.events.front.payload] else []) ++ queuedTriggers d.popEvent.rx := by
  unfold queuedTriggers
  rw [Ring.contents_eq_cons h, List.filter_cons]
  by_cases hid : d.rx.events.front.id = OP_SHELL_EXEC <;> simp [hid, Dongle.popEvent]

theorem popEvent_same : d.popEvent.rx.shell = d.rx.shell ∧
    d.popEvent.shellRuns = d.shellRuns ∧ d.popEvent.passed = d.passed :=
  ⟨rfl, rfl, rfl⟩

theorem Skewed.event {d : Dongle} (h : Skewed d) (hev : d.rx.events.count ≠ 0) (flash_ok : Bool) :
    Skewed (d.popEvent.nodeTick flash_ok d.rx.events.front) := by
  have hpop := queuedTriggers_pop hev
  obtain ⟨hshell, hruns, hpassed⟩ := popEvent_same d
  have hcount := h.count
  have hsame := h.same
  have hown := h.own
  have hroom := h.room
  unfold HasRoom at hroom
  rw [← hshell] at hroom
  rw [hpop, List.length_append, ← hshell, ← hpassed] at hcount
  rw [hpop, ← hshell, ← hpassed] at hsame
  rw [← hruns, ← hpassed] at hown
  generalize d.popEvent = d₁ at *
  rcases nodeTick_cases d₁ flash_ok d.rx.events.front with
    ⟨hid, hl⟩ | ⟨hid, hp⟩ | ⟨hid, htick⟩
  · rw [if_neg hid] at hcount hsame
    simp only [List.length_nil, Nat.zero_add] at hcount
    exact Skewed.leaves ⟨hroom, hcount, hsame, hown⟩ hl
  · -- the payload stays behind
    rw [if_pos hid, List.length_singleton] at hcount
    refine ⟨?_, ?_, fun h0 => ?_, fun h0 => ?_⟩
    · rw [hp.rx]
      exact hroom
    · rw [hp.rx, hp.passed]
      omega
    · rw [hp.passed] at h0
      cases h0
    · rw [hp.passed] at h0
      cases h0
  · rw [if_pos hid] at hsame
    rw [if_pos hid, List.length_singleton] at hcount
    have hne : d₁.rx.shell.count ≠ 0 := by omega
    obtain ⟨hrx, hruns', hpassed'⟩ := handleShellExec_takes d₁ d.rx.events.front.payload hne
    rw [Ring.contents_eq_cons hne, List.singleton_append, List.cons.injEq] at hsame
    rw [htick]
    refine ⟨?_, ?_, fun h0 => ?_, fun h0 => ?_⟩
    · rw [hrx]
      exact Nat.lt_of_le_of_lt (Nat.sub_le _ _) hroom
    · have hq : queuedTriggers { d₁.rx with shell := d₁.rx.shell.pop } = queuedTriggers d₁.rx := rfl
      rw [hrx, hpassed', hq, Ring.count_pop]
      omega
    · rw [hpassed'] at h0
      rw [hrx]
      exact (hsame h0).2
    · rw [hpassed'] at h0
      rw [hruns']
      intro r hr
      rcases List.mem_append.mp hr with hr | hr
      · exact hown h0 r hr
      · simp only [List.mem_singleton] at hr
        subst hr
        exact congrArg some (hsame h0).1

theorem nodeTick_events (e : Event) : (d.nodeTick flash_ok e).rx.events = d.rx.events := by
  rcases nodeTick_cases d flash_ok e with ⟨_, hl⟩ | ⟨_, hp⟩ | ⟨_, htick⟩
  · rw [hl.rx]
  · rw [hp.rx]
  · rw [htick]
    unfold Dongle.handleShellExec Dongle.shellPendingPop
    by_cases h : d.rx.shell.count = 0
    · rw [if_pos h]
      rfl
    · rw [if_neg h]
      dsimp only
      split <;> rfl

theorem Skewed.drain {flash_ok : Bool} (n : Nat) :
    ∀ {d : Dongle}, n ≤ d.rx.events.count → Skewed d → Skewed (Dongle.drain flash_ok n d) := by
  induction n with
  | zero => exact fun _ h => h
  | succ n ih =>
    intro d hn h
    refine ih ?_ (h.event (by omega) flash_ok)
    rw [nodeTick_events]
    simp only [Dongle.popEvent, Ring.count_pop]
    omega

theorem Skewed.tick {d : Dongle} (h : Skewed d) (flash_ok : Bool) :
    Skewed (d.tickAndDrain flash_ok) := by
  refine Skewed.drain _ (Nat.le_refl _) ?_
  rcases nodeTick_cases d flash_ok ⟨SE_EVENT_TICK, []⟩ with ⟨_, hl⟩ | ⟨hid, _⟩ | ⟨hid, _⟩
  · exact h.leaves hl
  · exact absurd hid (by decide)
  · exact absurd hid (by decide)

/-! ## Every run -/

theorem boot_skewed (c : Commissioning) : Skewed (.boot c) := by
  refine ⟨show 0 < SHELL_PENDING_DEPTH by decide, rfl, fun _ => rfl, fun _ r hr => ?_⟩
  simp [Dongle.boot] at hr

theorem step_skewed {d : Option Dongle} {op : DongleOp} (hd : ∀ x, d = some x → Skewed x)
    (h : dongleStep role d op = some d') : Skewed d' := by
  cases op with
  | reset stored =>
    cases d <;> cases h <;> exact boot_skewed stored
  | rx bs =>
    cases d with
    | none => cases h
    | some d =>
      simp only [dongleStep, Option.map_eq_some_iff] at h
      obtain ⟨rx, hrx, rfl⟩ := h
      exact (hd d rfl).feed (rxDrain_feeds bs hrx)
  | reattach =>
    cases d with
    | none => cases h
    | some d =>
      simp only [dongleStep, Option.map_eq_some_iff] at h
      obtain ⟨rx, hrx, rfl⟩ := h
      exact (hd d rfl).feed (eventPush_feeds (by decide) hrx)
  | tick flash_ok =>
    cases d with
    | none => cases h
    | some d =>
      cases h
      exact (hd d rfl).tick flash_ok

theorem run_skewed (role : Role) (ops : List DongleOp) : ∀ (d : Option Dongle) (d' : Dongle),
    (∀ x, d = some x → Skewed x) → ops.foldl (dongleStep role) d = some d' → Skewed d' := by
  induction ops with
  | nil => exact fun d d' hd h => hd d' h
  | cons op ops ih =>
    intro d d' hd h
    exact ih _ d' (fun x hx => step_skewed hd hx) h

/-- In every state that a run reaches, the queues are paired, and every shell command since
the last reset ran with its own payload, exactly when no OP_SHELL_EXEC event was dispatched
outside of OPERATIONAL. -/
theorem shells_paired_iff_none_passed (role : Role) (boot : Commissioning) (ops : List DongleOp)
    (d : Dongle) (h : dongleRun role boot ops = some d) : Paired d ↔ d.passed = 0 := by
  refine (run_skewed role ops _ d (fun x hx => ?_) h).paired_iff
  cases hx
  exact boot_skewed boot

/-! ## A command before its time -/

/-- A shell command with a request id. -/
def command (request_id : UInt8) : Frame :=
  { bareFrame OP_SHELL_EXEC with
    payload := [request_id, 0, 1, 0]
    len_le := show 4 ≤ COMM_PAYLOAD_MAX by decide }

/-- A frame arrives, and a tick follows. -/
def arrives (f : Frame) : List DongleOp := [.rx (frameBytes .m2s f), .tick true]

/-- The host registers the dongle and brings it into operation. -/
def intoOperation : List DongleOp :=
  arrives (bareFrame OP_REGISTER_ACK) ++ arrives (bareFrame OP_OPERATIONAL_BEGIN)

def commissioned : Commissioning := { instance_id := 7, state := COMMISSIONING_COMMISSIONED }

theorem a_command_in_operation_is_paired : ∃ d,
    dongleRun .dongle commissioned (intoOperation ++ arrives (command 1)) = some d ∧
      d.shellRuns = [⟨[1, 0, 1, 0], some [1, 0, 1, 0]⟩] ∧ Paired d := by
  have hrun : (dongleRun .dongle commissioned (intoOperation ++ arrives (command 1))).map
      (fun d => (d.shellRuns, d.passed)) =
        some ([⟨[1, 0, 1, 0], some [1, 0, 1, 0]⟩], 0) := by decide +kernel
  obtain ⟨d, hd, hd'⟩ := Option.map_eq_some_iff.mp hrun
  simp only [Prod.mk.injEq] at hd'
  exact ⟨d, hd, hd'.1, (shells_paired_iff_none_passed _ _ _ d hd).mpr hd'.2⟩

/-- A command that comes while the dongle boots is run in place of the next one. -/
theorem an_early_command_runs_later : ¬ ∀ (role : Role) (boot : Commissioning)
    (ops : List DongleOp) (d : Dongle), dongleRun role boot ops = some d → Paired d := by
  intro h
  have hrun : (dongleRun .dongle commissioned
      (arrives (command 1) ++ intoOperation ++ arrives (command 2))).map (·.shellRuns) =
        some [⟨[2, 0, 1, 0], some [1, 0, 1, 0]⟩] := by decide +kernel
  obtain ⟨d, hd, hruns⟩ := Option.map_eq_some_iff.mp hrun
  have hown := (h _ _ _ d hd).own
  rw [hruns] at hown
  exact absurd (hown _ List.mem_cons_self) (by decide)

end motioncore.firmware
