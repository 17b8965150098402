-- The demux (`demux.c`): requests get an id and a place in the pending table,
-- and a reply frees the place. The functions that send take the link as an
-- argument, because a send may itself take the link down. Above it the command
-- tracker (`cmd_tracker.c`): a queue and one command in flight for each slave. A
-- completion callback of the client may submit again, in the middle of the
-- function that calls it.
import MotionCore.Bus.Frame
import MotionCore.Host.State

open motioncore.bytes motioncore.ring motioncore.bus

namespace motioncore.host

def DONGLE_ADDR : UInt8 := 0
def SHELL_EXEC_HDR : Nat := 4
def BUS_EXEC_HDR : Nat := 6
def SHELL_REPLY_HDR : Nat := 3

/-- A link takes a frame and says whether it took it. -/
abbrev Send := Host → LinkFrame → Host × Bool

namespace Host

def pendingFind (h : Host) (rid : UInt16) : Option (Fin PENDING_MAX) :=
  (List.finRange PENDING_MAX).find? fun k => (h.pending k).any fun p => p.request_id == rid

def pendingAlloc (h : Host) : Option (Fin PENDING_MAX) :=
  (List.finRange PENDING_MAX).find? fun k => (h.pending k).isNone

end Host

/-- `send_frame_addr`. The sequence number is used up, whatever the link says. -/
def sendFrameAddr (send : Send) (h : Host) (addr : UInt8) (opcode : UInt16) (payload : List UInt8) :
    Host × Bool :=
  send { h with tx_seq := h.tx_seq + 1 } { addr, cmd := opcode, seq := h.tx_seq, payload }

def demuxSendRaw (send : Send) (h : Host) (opcode : UInt16) (payload : List UInt8) : Host :=
  (sendFrameAddr send h DONGLE_ADDR opcode payload).1

/-- What both kinds of request do: take a free place and the next id, send the
frame, and register the request when the link took it. An id is used up also
when the link refuses the frame. -/
def demuxRequest (send : Send) (h : Host) (hdr args_len : Nat) (addr : UInt8) (opcode : UInt16)
    (body : UInt16 → List UInt8) (cb : ReplyCb) (handle : Nat) : Host × UInt16 :=
  if COMM_PAYLOAD_MAX < hdr + args_len then (h, NO_REQUEST)
  else
    match h.pendingAlloc with
    | none => (h, NO_REQUEST)
    | some k =>
      let serial := h.next_id
      let rid := UInt16.ofNat serial
      let f : LinkFrame := { addr, cmd := opcode, seq := h.tx_seq, payload := body rid }
      let r := sendFrameAddr send { h with next_id := serial + 1 } addr opcode (body rid)
      if r.2 then
        let p : Pending := { request_id := rid, serial, cb, sent_ms := r.1.clock }
        ((r.1.setPending k (some p)).note (.request serial cb handle f), rid)
      else (r.1, NO_REQUEST)

/-- The payload of `OP_SHELL_EXEC`: request id, command id, arguments. -/
def shellExecBody (command_id : UInt16) (args : List UInt8) (rid : UInt16) : List UInt8 :=
  [lo16 rid, hi16 rid, lo16 command_id, hi16 command_id] ++ args

/-- The payload of `OP_BUS_EXEC`: the exec timeout goes before the request. -/
def busExecBody (command_id exec_timeout_ms : UInt16) (args : List UInt8) (rid : UInt16) :
    List UInt8 :=
  [lo16 exec_timeout_ms, hi16 exec_timeout_ms] ++ shellExecBody command_id args rid

def demuxSendShellTo (send : Send) (h : Host) (dest_addr : UInt8) (command_id : UInt16)
    (args : List UInt8) (cb : ReplyCb) : Host × UInt16 :=
  demuxRequest send h SHELL_EXEC_HDR args.length dest_addr OP_SHELL_EXEC
    (shellExecBody command_id args) cb 0

def demuxSendShell (send : Send) (h : Host) (command_id : UInt16) (args : List UInt8)
    (cb : ReplyCb) : Host × UInt16 :=
  demuxSendShellTo send h DONGLE_ADDR command_id args cb

def demuxSendBusExec (send : Send) (h : Host) (dest_addr : UInt8)
    (command_id exec_timeout_ms : UInt16) (args : List UInt8) (cb : ReplyCb) (handle : Nat) :
    Host × UInt16 :=
  demuxRequest send h BUS_EXEC_HDR args.length dest_addr OP_BUS_EXEC
    (busExecBody command_id exec_timeout_ms args) cb handle

namespace Host

def slotFor (h : Host) (addr : UInt8) : Option (Fin SLOT_MAX) :=
  (List.finRange SLOT_MAX).find? fun i => (h.slots i).in_use && (h.slots i).addr == addr

def modSlot (h : Host) (i : Fin SLOT_MAX) (f : Slot → Slot) : Host := h.setSlot i (f (h.slots i))

/-- `evq_push`: an event is dropped when the queue is full. -/
def evqPush (h : Host) (e : CtrlEvent) : Host :=
  if h.evq.isFull then h
  else { h with evq := h.evq.push { e with data := e.data.take CTRL_EV_DATA_MAX } }

end Host

/-! ## Sending and queueing -/

/-- The exec timeout on the wire has 16 bits, the one of the API 32. -/
def wireTimeout (exec_timeout_ms : UInt32) : UInt16 :=
  UInt16.ofNat (min exec_timeout_ms.toNat 0xFFFF)

/-- Transmit the command in flight, for the first time or again. -/
def sendInflight (send : Send) (h : Host) (i : Fin SLOT_MAX) : Host × Bool :=
  let s := h.slots i
  let e := s.inflight
  let r := demuxSendBusExec send h s.addr e.command_id (wireTimeout e.exec_timeout_ms) e.args
    (.slot i) e.handle
  -- The clock of the ACK timeout restarts either way.
  let h := r.1.modSlot i fun s => { s with sent_ms := r.1.now }
  if r.2 = NO_REQUEST then (h, false)
  else (h.modSlot i fun s => { s with inflight_rid := r.2, state := .sent, ack_ms := 0 }, true)

/-- An idle slot sends the front of its queue. The command leaves the queue
only after the send, and stays in it when the send fails. -/
def pumpSlot (send : Send) (h : Host) (i : Fin SLOT_MAX) : Host :=
  let s := h.slots i
  if s.faulted then h
  else if s.state ≠ .idle ∨ s.q.count = 0 then h
  else
    let h := h.setSlot i { s with inflight := s.q.front, has_inflight := true, retries := 0 }
    let r := sendInflight send h i
    if r.2 then r.1.modSlot i fun s => { s with q := s.q.pop }
    else r.1.modSlot i fun s => { s with has_inflight := false }

def cmdTrackerSubmit (send : Send) (h : Host) (c : Submit) : Host × Nat :=
  if CMD_ARG_MAX < c.args.length then (h, 0)
  else
    match h.slotFor c.addr with
    | none => (h, 0)
    | some i =>
      if (h.slots i).q.isFull then (h, 0)
      else
        let handle := h.next_handle
        let e : CmdEntry :=
          { handle, command_id := c.command_id, args := c.args,
            exec_timeout_ms := c.exec_timeout_ms, on_done := c.on_done }
        let h := { h with next_handle := handle + 1 }.modSlot i fun s => { s with q := s.q.push e }
        (pumpSlot send (h.note (.accepted i handle)) i, handle)

/-! ## Completion -/

section

variable (env : Env) (send : Send)

def submitAll (h : Host) (cs : List Submit) : Host :=
  cs.foldl (fun h c => (cmdTrackerSubmit send h c).1) h

/-- The completion callback `cb` of a command. -/
def runDone (h : Host) (cb : DoneCb) (handle : Nat) (addr status : UInt8) (result : List UInt8) :
    Host :=
  match cb with
  | .null => h
  | .event => h.evqPush { kind := .cmdDone, addr, status, handle, aux := 0, data := result }
  | .client => submitAll send { h with calls := h.calls + 1 } (env.on_done h.calls)

/-- The slot is idle again before its callback runs. -/
def completeInflight (h : Host) (i : Fin SLOT_MAX) (status : UInt8) (result : List UInt8)
    (cause : Cause) : Host :=
  let s := h.slots i
  if s.has_inflight then
    let e := s.inflight
    let h := h.setSlot i { s with has_inflight := false, inflight_rid := 0, state := .idle }
    runDone env send (h.note (.done i e.handle status cause h.clock)) e.on_done e.handle s.addr
      status result
  else h

def onTrackerReply (h : Host) (i : Fin SLOT_MAX) (rid : UInt16) (status : UInt8)
    (result : List UInt8) (cause : Cause) : Host :=
  let s := h.slots i
  -- A reply for a command that this slot no longer awaits is ignored.
  if !s.has_inflight ∨ rid ≠ s.inflight_rid then h
  else pumpSlot send (completeInflight env send h i status result cause) i

/-! ## The events of the bus -/

def cmdTrackerOnAck (h : Host) (addr : UInt8) (req_id : UInt16) : Host :=
  match h.slotFor addr with
  | none => h
  | some i =>
    let s := h.slots i
    if s.state ≠ .sent ∨ s.inflight_rid ≠ req_id then h
    else
      let h := h.setSlot i { s with state := .inflight, ack_ms := h.now, retries := 0 }
      { h with total_acks := h.total_acks + 1 }.note
        (.acked i s.inflight.handle h.now s.inflight.exec_timeout_ms.toNat)

def cmdTrackerOnNak (h : Host) (addr : UInt8) (req_id : UInt16) : Host :=
  match h.slotFor addr with
  | none => h
  | some i =>
    let s := h.slots i
    if s.state ≠ .sent ∨ s.inflight_rid ≠ req_id then h
    else if s.retries < MAX_ACK_RETRIES then
      (sendInflight send (h.setSlot i { s with retries := s.retries + 1 }) i).1
    else pumpSlot send (completeInflight env send h i CMD_STATUS_BUSY [] .nak) i

/-- The summary flags of a slave: bit 0 holds its queue. -/
def cmdTrackerOnFlagged (h : Host) (addr flags : UInt8) : Host :=
  match h.slotFor addr with
  | none => h
  | some i =>
    let s := h.slots i
    let tripped := flags &&& 1 != 0
    let h := h.setSlot i { s with il_known := true, il_flags := flags, faulted := tripped }
    if s.faulted && !tripped then pumpSlot send h i else h

def cmdTrackerOnInterlockMsg (h : Host) (addr : UInt8) (msg : List UInt8) : Host :=
  match h.slotFor addr with
  | none => h
  | some i =>
    h.modSlot i fun s =>
      { s with il_msg := msg.take CMD_IL_MSG_MAX, il_msg_count := s.il_msg_count + 1 }

/-! ## The timers -/

def pollSlot (h : Host) (i : Fin SLOT_MAX) : Host :=
  let s := h.slots i
  if !s.in_use then h
  else if s.state = .sent ∧ ACK_TIMEOUT_MS ≤ h.now - s.sent_ms then
    if s.retries < MAX_ACK_RETRIES then
      (sendInflight send (h.setSlot i { s with retries := s.retries + 1 }) i).1
    else pumpSlot send (completeInflight env send h i DEMUX_STATUS_TIMEOUT [] .ackTimeout) i
  else if s.state = .inflight then
    if s.inflight.exec_timeout_ms.toNat + EXEC_MARGIN_MS ≤ h.now - s.ack_ms then
      pumpSlot send (completeInflight env send h i DEMUX_STATUS_TIMEOUT [] .execDeadline) i
    else h
  else if s.state = .idle then pumpSlot send h i
  else h

def cmdTrackerPoll (h : Host) : Host :=
  (List.finRange SLOT_MAX).foldl (pollSlot env send) { h with now := h.clock }

/-! ## Reset and the set of slaves -/

/-- The queue of a slot is drained. Each callback runs before its command
leaves the queue. `none` when the fuel is used up first. -/
def drainQueue (h : Host) (i : Fin SLOT_MAX) (abort_status : UInt8) : Nat → Option Host
  | 0 => if (h.slots i).q.count = 0 then some h else none
  | fuel + 1 =>
    let s := h.slots i
    if s.q.count = 0 then some h
    else
      let e := s.q.front
      let h := runDone env send (h.note (.done i e.handle abort_status .reset h.clock)) e.on_done
        e.handle s.addr abort_status []
      drainQueue (h.modSlot i fun s => { s with q := s.q.pop }) i abort_status fuel

def resetSlot (fuel : Nat) (abort_status : UInt8) (h : Host) (i : Fin SLOT_MAX) : Option Host :=
  if (h.slots i).in_use then
    let h := completeInflight env send h i abort_status [] .reset
    (drainQueue env send h i abort_status fuel).map fun h =>
      (h.setSlot i .cleared).note (.cleared i)
  else some h

def cmdTrackerReset (fuel : Nat) (h : Host) (abort_status : UInt8) : Option Host :=
  (List.finRange SLOT_MAX).foldlM (resetSlot env send fuel abort_status) h

end

def cmdTrackerAddSlave (h : Host) (addr : UInt8) : Host :=
  match h.slotFor addr with
  | some _ => h
  | none =>
    match (List.finRange SLOT_MAX).find? fun i => !(h.slots i).in_use with
    | none => h
    | some i => (h.setSlot i { Slot.cleared with in_use := true, addr }).note (.cleared i)

def cmdTrackerInterlock (h : Host) (addr : UInt8) : Option (Bool × UInt8) :=
  match h.slotFor addr with
  | none => none
  | some i =>
    let s := h.slots i
    if s.il_known then some (s.il_flags &&& 1 != 0, s.il_flags) else none

def cmdTrackerInterlockMsg (h : Host) (addr : UInt8) : List UInt8 :=
  match h.slotFor addr with
  | none => []
  | some i => (h.slots i).il_msg

end motioncore.host
