-- The controller (`controller.c`): the sync ladder, the provisioning of the
-- roster, the frames of the dongle and the reconciliation of the interlocks.
-- Last come the link, and the steps that `controller_poll` is made of.
import MotionCore.Host.CmdTracker
import MotionCore.Lib.Runs

open motioncore.bytes motioncore.ring motioncore.bus motioncore.machine

namespace motioncore.host

def REGISTER_V2_LEN : Nat := 38
def REGISTER_V2_VER : UInt8 := 2
def CLASS_ID_BUS_CONTROLLER : UInt32 := 0x5E589000

/-- The tripped value of a trigger in the status of the interlocks. -/
def IL_TF_FALSE_BYTE : UInt8 := 2

def SHELL_STATUS_OK : UInt8 := 0

/-! ## The sync ladder -/

/-- Start the ladder again, and provision again after it. -/
def resetSync (h : Host) : Host :=
  { h with
    get_manifest_pending := false
    get_manifest_at := 0
    last_ack_ms := 0
    manifest := none
    prov := .idle
    prov_idx := 0
    bc_total := 0
    proto := .unknown }.note .provReset

/-- Acknowledge a REGISTER, no more often than the throttle allows. -/
def driveBoot (send : Send) (h : Host) : Host :=
  let now := h.clock
  if h.last_ack_ms ≠ 0 ∧ now - h.last_ack_ms < ACK_THROTTLE_MS then h
  else
    let h := demuxSendRaw send h OP_REGISTER_ACK []
    { h with
      last_ack_ms := now
      get_manifest_at := now + MANIFEST_GAP_MS
      get_manifest_pending := true
      proto := .l1Acked }

/-- The class id of a REGISTER payload, when it is one of version 2. -/
def identityParseRegister (payload : List UInt8) : Option UInt32 :=
  if payload.length < REGISTER_V2_LEN ∨ payload.getD 0 0 ≠ REGISTER_V2_VER then none
  else some (le32 (payload.drop 1))

def manifestOf (payload : List UInt8) : Manifest where
  schema_hash := le32 payload
  fw_version := le32 (payload.drop 4)
  m2s_count := payload.getD 8 0

/-! ## Provisioning -/

def provSendClear (send : Send) (h : Host) : Host :=
  (demuxSendShell send h CMD_BUS_CLEAR_ROSTER [] .prov).1

def registerArgs (s : RosterSlave) : List UInt8 := s.addr :: bytes32 s.class_id ++ [s.flags]

/-- A slave past the end of the roster is a zeroed entry. -/
def Roster.slave (r : Roster) (i : Nat) : RosterSlave :=
  r.slaves.getD i { addr := 0, class_id := 0, flags := 0 }

def provSendRegister (send : Send) (h : Host) (i : Nat) : Host :=
  (demuxSendShell send h CMD_BUS_REGISTER_SLAVE (registerArgs (h.roster.slave i)) .prov).1

def setPollArgs (r : Roster) : List UInt8 :=
  match r.poll with
  | some (period, misses, retries) => [lo16 period, hi16 period, misses, retries]
  | none => [0, 0, 0, 0]

def provSendSetpoll (send : Send) (h : Host) : Host :=
  (demuxSendShell send h CMD_BUS_SET_POLL (setPollArgs h.roster) .prov).1

def provSendList (send : Send) (h : Host) : Host :=
  (demuxSendShell send h CMD_BUS_LIST_SLAVES [] .prov).1

/-- After the last slave comes SET_POLL, when the roster configures it, and then LIST. -/
def provAfterSlaves (send : Send) (h : Host) : Host :=
  if h.roster.poll.isSome then provSendSetpoll send { h with prov := .setPoll }
  else provSendList send { h with prov := .list }

def provStart (send : Send) (h : Host) : Host :=
  provSendClear send { h with prov := .clear, prov_idx := 0, bc_total := 0 }

/-- The reply of a provisioning command. The request id is not looked at. -/
def onProvReply (send : Send) (h : Host) (status : UInt8) (result : List UInt8) : Host :=
  if status ≠ SHELL_STATUS_OK then { h with prov := .fail }
  else
    match h.prov with
    | .clear =>
      if 0 < h.roster.slaves.length then
        provSendRegister send { h with prov := .register, prov_idx := 0 } 0
      else provAfterSlaves send h
    | .register =>
      let i := h.prov_idx + 1
      let h := { h with prov_idx := i }
      if i < h.roster.slaves.length then provSendRegister send h i else provAfterSlaves send h
    | .setPoll => provSendList send { h with prov := .list }
    | .list =>
      let total := result.getD 0 0
      { h with
        bc_total := total
        prov := if h.roster.slaves.length ≤ total.toNat then .done else .fail }
    | _ => h

/-! ## The replies of the demux -/

section

variable (env : Env) (send : Send)

def replyCb (h : Host) (cb : ReplyCb) (rid : UInt16) (status : UInt8) (result : List UInt8)
    (cause : Cause) : Host :=
  match cb with
  | .slot i => onTrackerReply env send h i rid status result cause
  | .prov => onProvReply send h status result
  | .ungated =>
    h.evqPush
      { kind := .cmdDone, addr := 0, status, handle := rid.toNat + 2 ^ 31, aux := 0,
        data := result }
  | .client => h
  | .null => h

/-- `resolve`: the place is free before the callback runs. -/
def resolve (h : Host) (k : Fin PENDING_MAX) (status : UInt8) (result : List UInt8)
    (cause : Cause) : Host :=
  match h.pending k with
  | none => h
  | some p =>
    replyCb env send ((h.setPending k none).note (.resolved p.serial p.cb status cause)) p.cb
      p.request_id status result cause

/-- An `OP_SHELL_REPLY` frame. A reply that no request waits for is dropped. -/
def onShellReply (h : Host) (payload : List UInt8) : Host :=
  if payload.length < SHELL_REPLY_HDR then h
  else
    match h.pendingFind (le16 (payload.getD 0 0) (payload.getD 1 0)) with
    | none => h
    | some k => resolve env send h k (payload.getD 2 0) (payload.drop SHELL_REPLY_HDR) .reply

/-! ## The events of the dongle -/

/-- The identity is learned from the first REGISTER of a session. -/
def learnIdentity (h : Host) (payload : List UInt8) : Host :=
  if h.identity.isNone then { h with identity := identityParseRegister payload } else h

/-- A dongle that announces itself again was reset under us. -/
def resyncOnReset (h : Host) : Host :=
  if h.proto = .operational ∨ h.proto = .manifestOk then resetSync h else h

def enterBoot (h : Host) : Host := if h.proto = .unknown then { h with proto := .boot } else h

def onRegister (h : Host) (payload : List UInt8) : Host :=
  let h := enterBoot (resyncOnReset (learnIdentity h payload))
  if h.proto = .boot ∨ h.proto = .l1Acked then driveBoot send h else h

/-- The fields of a manifest reply, when it is long enough. -/
def storeManifest (h : Host) (payload : List UInt8) : Host :=
  if 9 ≤ payload.length then { h with manifest := some (manifestOf payload) } else h

def onManifestReply (h : Host) (payload : List UInt8) : Host :=
  let h := { storeManifest h payload with get_manifest_pending := false }
  let h := demuxSendRaw send h OP_OPERATIONAL_BEGIN []
  { h with proto := .manifestOk }

def onHeartbeat (h : Host) : Host :=
  if h.proto ≠ .operational then { h with get_manifest_pending := false, proto := .operational }
  else h

def livenessEvent (addr status : UInt8) (class_id : UInt32) : CtrlEvent where
  kind := .liveness
  addr := addr
  status := status
  handle := 0
  aux := class_id.toNat
  data := []

def flaggedEvent (addr flags : UInt8) : CtrlEvent where
  kind := .flagged
  addr := addr
  status := 0
  handle := 0
  aux := flags.toNat
  data := []

def interlockEvent (addr : UInt8) (msg : List UInt8) : CtrlEvent where
  kind := .interlock
  addr := addr
  status := 0
  handle := 0
  aux := 0
  data := msg

def linkEvent (st : LinkState) : CtrlEvent where
  kind := .link
  addr := 0
  status := 0
  handle := 0
  aux := match st with | .down => 0 | .up => 1
  data := []

/-- The fields `[addr:u8][req_id:u16]` of a command ACK or NAK. -/
def cmdRid (p : List UInt8) : UInt16 := le16 (p.getD 1 0) (p.getD 2 0)

def onEvent (h : Host) (f : LinkFrame) : Host :=
  let p := f.payload
  if f.cmd = OP_REGISTER then onRegister send h p
  else if f.cmd = OP_MANIFEST_REPLY then onManifestReply send h p
  else if f.cmd = OP_HEARTBEAT then onHeartbeat h
  else if f.cmd = OP_BUS_SLAVE_DOWN then
    if 1 ≤ p.length then h.evqPush (livenessEvent (p.getD 0 0) 0 0) else h
  else if f.cmd = OP_BUS_SLAVE_UP then
    if 5 ≤ p.length then h.evqPush (livenessEvent (p.getD 0 0) 1 (le32 (p.drop 1))) else h
  else if f.cmd = OP_BUS_SLAVE_FLAGGED then
    if 2 ≤ p.length then
      (cmdTrackerOnFlagged send h (p.getD 0 0) (p.getD 1 0)).evqPush
        (flaggedEvent (p.getD 0 0) (p.getD 1 0))
    else h
  else if f.cmd = OP_BUS_CMD_ACK then
    if 3 ≤ p.length then cmdTrackerOnAck h (p.getD 0 0) (cmdRid p) else h
  else if f.cmd = OP_BUS_CMD_NAK then
    if 3 ≤ p.length then cmdTrackerOnNak env send h (p.getD 0 0) (cmdRid p) else h
  else if f.cmd = OP_BUS_INTERLOCK_MSG then
    (cmdTrackerOnInterlockMsg h f.addr p).evqPush (interlockEvent f.addr p)
  else if f.cmd = OP_BUS_STATUS_REPORT then
    if 2 ≤ p.length then
      let h := cmdTrackerOnFlagged send h (p.getD 0 0) (p.getD 1 0)
      { h with status_reports := h.status_reports + 1 }
    else h
  else h

def onLinkFrame (h : Host) (f : LinkFrame) : Host :=
  if f.cmd = OP_SHELL_REPLY then onShellReply env send h f.payload else onEvent env send h f

def onState (h : Host) (st : LinkState) : Host :=
  let h := { h with link := st }.evqPush (linkEvent st)
  match st with
  | .down => resetSync { h with identity := none }
  | .up => h

/-- `on_link_state`: a link that goes down resolves every request. -/
def onLinkState (h : Host) (st : LinkState) : Host :=
  match st with
  | .down =>
    onState ((List.finRange PENDING_MAX).foldl
      (fun h k => resolve env send h k DEMUX_STATUS_LINK_DOWN [] .linkDown) h) .down
  | .up => onState h .up

/-- The sweep of `demux_poll`. -/
def sweepPending (h : Host) (k : Fin PENDING_MAX) : Host :=
  match h.pending k with
  | none => h
  | some p =>
    if REPLY_TIMEOUT_MS ≤ h.clock - p.sent_ms then
      resolve env send h k DEMUX_STATUS_TIMEOUT [] .sweep
    else h

def demuxSweep (h : Host) : Host := (List.finRange PENDING_MAX).foldl (sweepPending env send) h

/-! ## The parts of `controller_poll` -/

def manifestDue (h : Host) : Host :=
  if h.get_manifest_pending ∧ h.get_manifest_at ≤ h.clock then
    { demuxSendRaw send h OP_GET_MANIFEST [] with get_manifest_pending := false }
  else h

/-- A roster is pushed once the dongle is operational and has said that it is a
bus controller. -/
def provGate (h : Host) : Host :=
  if h.have_roster ∧ h.prov = .idle ∧ h.proto = .operational then
    match h.identity with
    | none => h
    | some class_id =>
      if class_id = CLASS_ID_BUS_CONTROLLER then provStart send h else { h with prov := .fail }
  else h

/-- The host's own reading of an interlock message: slot 0 is tripped. -/
def msgTripped (msg : List UInt8) : Bool :=
  decide (6 ≤ msg.length) && msg.getD 5 0 == IL_TF_FALSE_BYTE

/-- When the gap of a slave was first seen. -/
def gapStart (h : Host) (i : Fin ROSTER_MAX_SLAVES) : Nat :=
  if h.gap_since i = 0 then h.clock else h.gap_since i

def Host.setGap (h : Host) (i : Fin ROSTER_MAX_SLAVES) (t : Nat) : Host :=
  { h with gap_since := Function.update h.gap_since i t }

/-- Poke a slave to push its interlock message again, past the held queue. -/
def sendRepush (h : Host) (i : Fin ROSTER_MAX_SLAVES) (addr : UInt8) : Host :=
  let r := (demuxSendShellTo send h addr CMD_INTERLOCK_REPUSH [] .null).1
  { r with repush_at := Function.update r.repush_at i h.clock, repushes := r.repushes + 1 }

def reconcileSlave (h : Host) (i : Fin ROSTER_MAX_SLAVES) : Host :=
  if h.roster.slaves.length ≤ i.val then h
  else
    let addr := (h.roster.slave i).addr
    match cmdTrackerInterlock h addr with
    | none => h.setGap i 0
    | some (tripped, _) =>
      if tripped = msgTripped (cmdTrackerInterlockMsg h addr) then h.setGap i 0
      else
        let since := gapStart h i
        if h.clock - since < GAP_SETTLE_MS then h.setGap i since
        else if h.repush_at i ≠ 0 ∧ h.clock - h.repush_at i < REPUSH_COOLDOWN_MS then
          h.setGap i since
        else sendRepush send (h.setGap i since) i addr

def reconcileInterlocks (h : Host) : Host :=
  if h.have_roster then (List.finRange ROSTER_MAX_SLAVES).foldl (reconcileSlave send) h else h

/-- A new roster: the tracker is reset, and gets a slot for each slave. -/
def controllerAttachRoster (fuel : Nat) (h : Host) (r : Option Roster) : Option Host :=
  let h : Host :=
    { h with
      roster := r.getD .empty
      have_roster := r.isSome
      prov := .idle
      prov_idx := 0
      bc_total := 0 }.note .provReset
  (cmdTrackerReset env send fuel h DEMUX_STATUS_LINK_DOWN).map fun h =>
    let h := h.roster.slaves.foldl (fun h s => cmdTrackerAddSlave h s.addr) h
    { h with gap_since := fun _ => 0, repush_at := fun _ => 0 }

end

/-! ## The link -/

/-- A link that is down takes nothing. -/
def linkClosed : Send := fun h _ => (h, false)

/-- The link of `usb_link.c`. It may go down inside the send: then the requests
that wait are resolved before the send returns. -/
def linkSend (env : Env) : Send := fun h f =>
  if h.ep_state = .down then (h, false)
  else
    let n := h.sends
    let h := { h with sends := n + 1 }
    match env.link_send n f with
    | .refused => (h, false)
    | .queued => (h.note (.queued f), true)
    | .queuedThenDown =>
      (onLinkState env linkClosed { h.note (.queued f) with ep_state := .down } .down, true)

/-! ## The host as a machine -/

inductive Op where
  /-- A frame that the link received. -/
  | frame (f : LinkFrame)
  | linkUp
  | linkDown
  /-- The parts of `controller_poll` after the link was served. -/
  | demuxSweep
  | manifestDue
  | provGate
  | trackerPoll
  | reconcile
  /-- The calls of the client. -/
  | submit (c : Submit)
  | sendShell (dest_addr : UInt8) (command_id : UInt16) (args : List UInt8) (cb : ReplyCb)
  | addSlave (addr : UInt8)
  | attachRoster (fuel : Nat) (r : Option Roster)
  | drain
  | tick (ms : Nat)

/-- A callback that a client may hand to the demux. -/
def ReplyCb.ofClient : ReplyCb → Bool
  | .ungated => true
  | .client => true
  | .null => true
  | _ => false

/-- One step of the host. A step that the source does not define has no result:
a callback that belongs to the stack, or a block of arguments so long that the
length check of the demux wraps at 16 bits. -/
def step (env : Env) (h : Host) : Op → Option Host
  | .frame f => some (onLinkFrame env (linkSend env) h f)
  | .linkUp =>
    if h.ep_state = .down then some (onLinkState env (linkSend env) { h with ep_state := .up } .up)
    else some h
  | .linkDown =>
    if h.ep_state = .up then some (onLinkState env linkClosed { h with ep_state := .down } .down)
    else some h
  | .demuxSweep => some (demuxSweep env (linkSend env) h)
  | .manifestDue => some (manifestDue (linkSend env) h)
  | .provGate => some (provGate (linkSend env) h)
  | .trackerPoll => some (cmdTrackerPoll env (linkSend env) h)
  | .reconcile => some (reconcileInterlocks (linkSend env) h)
  | .submit c => some (cmdTrackerSubmit (linkSend env) h c).1
  | .sendShell dest_addr command_id args cb =>
    if cb.ofClient ∧ args.length + SHELL_EXEC_HDR < 2 ^ 16 then
      some (demuxSendShellTo (linkSend env) h dest_addr command_id args cb).1
    else none
  | .addSlave addr => some (cmdTrackerAddSlave h addr)
  | .attachRoster fuel r => controllerAttachRoster env (linkSend env) fuel h r
  | .drain => some { h with evq := if h.evq.count = 0 then h.evq else h.evq.pop }
  | .tick ms => some { h with clock := h.clock + ms }

theorem step_cases {env : Env} {h h' : Host} {op : Op} (hstep : step env h op = some h') :
    match op with
    | .linkUp => h.ep_state = .down ∧
        h' = onLinkState env (linkSend env) { h with ep_state := .up } .up ∨ h' = h
    | .linkDown => h.ep_state = .up ∧
        h' = onLinkState env linkClosed { h with ep_state := .down } .down ∨ h' = h
    | .sendShell dest_addr command_id args cb =>
      (cb.ofClient ∧ args.length + SHELL_EXEC_HDR < 2 ^ 16) ∧
        h' = (demuxSendShellTo (linkSend env) h dest_addr command_id args cb).1
    | op => step env h op = some h' := by
  cases op with
  | linkUp | linkDown =>
    unfold step at hstep
    dsimp only at hstep
    split at hstep
    · rename_i hstate
      exact Or.inl ⟨hstate, (Option.some.inj hstep).symm⟩
    · exact Or.inr (Option.some.inj hstep).symm
  | sendShell dest_addr command_id args cb =>
    obtain ⟨hcb, heq⟩ := Option.ite_none_right_eq_some.mp hstep
    exact ⟨hcb, (Option.some.inj heq).symm⟩
  | _ => exact hstep

/-- `controller_poll` after the link was served. -/
def controllerPoll : List Op := [.demuxSweep, .manifestDue, .provGate, .trackerPoll, .reconcile]

end motioncore.host
