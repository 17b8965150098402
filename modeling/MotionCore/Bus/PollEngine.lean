-- The bus controller (`main.c`, ROLE_BUS_CONTROLLER): one slot of the bus at a
-- time, for a poll or for a queued command, and the relays to the host. A relay
-- waits in a buffer of one place until the USB ring has room for it. Frames
-- arrive whole here: half a frame is as good as none for `rs485_recv`.
import MotionCore.Bus.Frame
import MotionCore.Bus.Roster
import MotionCore.Lib.Runs

open motioncore.bytes motioncore.machine

namespace motioncore.bus

def BUS_CONTROLLER_LOCAL_ADDR : UInt8 := 0
def BRIDGE_TIMEOUT_MS : UInt32 := 1500

/-- How long a polled slave has for its answer. -/
def POLL_SLOT_TIMEOUT_MS : UInt32 := 20

/-- How long a slave has to ACK a command. -/
def CMD_ACK_TIMEOUT_MS : UInt32 := 40
def BUS_STATUS_INTERVAL_MS : UInt32 := 3000
def NAK_ERR_NO_RESOURCES : UInt8 := 3

/-! ## The state -/

/-- A frame for the host, without its sequence number. -/
structure Relay where
  addr : UInt8
  cmd : UInt16
  payload : List UInt8
deriving DecidableEq

/-- A frame of a slave in the receive ring. `polled` is no field of the source:
it says that the frame came while polling was on, so that its slave was polled. -/
structure Heard where
  frame : Rs485Frame
  polled : Bool
deriving DecidableEq

/-- An ACK or NAK that waits for its relay. -/
structure CmdAck where
  addr : UInt8
  reqid : UInt16
  is_nak : Bool
  polled : Bool
deriving DecidableEq

inductive PollState where
  | idle
  | wait
deriving DecidableEq

inductive CmdState where
  | idle
  | queued
  | sent
deriving DecidableEq

/-- What the bus controller heard, and what it told the host and the bus. -/
inductive BusEv where
  | heard (f : Rs485Frame)
  /-- A frame of a slave goes on to the host. -/
  | relayed (r : Relay) (seq : UInt8) (polled : Bool)
  /-- A frame of the bus controller's own goes to the host. -/
  | pushed (r : Relay) (seq : UInt8)
  | sent (f : Rs485Frame)
deriving DecidableEq

structure BusController where
  roster : BusRoster
  poll_period_ms : UInt16
  max_misses : UInt8
  tcp_retries : UInt8
  enabled : Bool
  -- The poll engine.
  poll_state : PollState
  cursor : Nat
  cur_addr : UInt8
  poll_seq : UInt8
  next_ms : UInt32
  deadline : UInt32
  -- The command for the next slot.
  cmd_state : CmdState
  cmd_slave : UInt8
  cmd_buf : List UInt8
  -- The relays that wait: a buffer and its `fresh` flag are an `Option`.
  cmd_reply : Option Heard
  cmd_ack : Option CmdAck
  -- The bridge, for a bus without polling.
  bridge_pending : Bool
  bridge_slave : UInt8
  bridge_deadline : UInt32
  bridge_seq : UInt8
  bridge_req_seq : UInt8
  bridge_reply : Option Heard
  -- The status report.
  status_next_ms : UInt32
  status_cursor : Nat
  status_active : Bool
  -- The receive ring, the clock and the record of what happened.
  rx : List Heard
  clock : UInt32
  log : List BusEv

def BusController.boot : BusController where
  roster := fun _ => .empty
  poll_period_ms := 100
  max_misses := 3
  tcp_retries := 2
  enabled := false
  poll_state := .idle
  cursor := 0
  cur_addr := 0
  poll_seq := 0
  next_ms := 0
  deadline := 0
  cmd_state := .idle
  cmd_slave := 0
  cmd_buf := []
  cmd_reply := none
  cmd_ack := none
  bridge_pending := false
  bridge_slave := 0
  bridge_deadline := 0
  bridge_seq := 0
  bridge_req_seq := 0
  bridge_reply := none
  status_next_ms := 0
  status_cursor := 0
  status_active := false
  rx := []
  clock := 0
  log := []

def BusController.note (c : BusController) (e : BusEv) : BusController :=
  { c with log := c.log ++ [e] }

def BusController.setSlave (c : BusController) (k : Fin BUS_ROSTER_MAX) (s : BusSlave) :
    BusController := { c with roster := Function.update c.roster k s }

/-- `(int32_t)(now - t) >= 0`: the time `t` has come, by a clock that wraps. -/
def due (now t : UInt32) : Bool := decide ((now - t).toNat < 2 ^ 31)

/-! ## Commands of the host -/

/-- The payload of the frame to the slave: the opcode, and as much of the body
as one frame of the bus holds. -/
def busCommand (opcode : UInt16) (exec : List UInt8) : List UInt8 :=
  withOpcode opcode (exec.take (RS485_PAYLOAD_MAX - 2))

/-- `bus_cmd_enqueue`: a command waits for the next slot. A second one is dropped. -/
def busCmdEnqueue (c : BusController) (opcode : UInt16) (slave : UInt8) (exec : List UInt8) :
    BusController :=
  if c.cmd_state ≠ .idle then c
  else { c with cmd_buf := busCommand opcode exec, cmd_slave := slave, cmd_state := .queued }

def bridgeStart (c : BusController) (opcode : UInt16) (slave : UInt8) (exec : List UInt8) :
    BusController :=
  if c.enabled then c
  else if c.bridge_pending then c
  else
    let seq := c.bridge_req_seq + 1
    { c with
      bridge_req_seq := seq
      bridge_slave := slave
      bridge_deadline := c.clock + BRIDGE_TIMEOUT_MS
      bridge_pending := true }.note
      (.sent (txFrame slave BUS_CONTROLLER_LOCAL_ADDR RS485_FT_DATA seq (busCommand opcode exec)))

/-- A frame of the host (`rx_drain_to_event_queue`): one for a slave is queued,
or goes over the bridge while polling is off. -/
def fromHost (c : BusController) (opcode : UInt16) (addr : UInt8) (payload : List UInt8) :
    BusController :=
  if addr = BUS_CONTROLLER_LOCAL_ADDR then c
  else if c.enabled then busCmdEnqueue c opcode addr payload
  else bridgeStart c opcode addr payload

/-! ## The poll engine -/

def busMarkAlive (c : BusController) (addr : UInt8) : BusController :=
  match busRosterFind c.roster addr with
  | none => c
  | some k =>
    c.setSlave k
      { c.roster k with consecutive_misses := 0, last_seen_ms := c.clock, state := .alive }

/-- A miss is counted up to 255, and `max_misses` of them make a slave dead. -/
def busMarkMiss (c : BusController) (addr : UInt8) : BusController :=
  match busRosterFind c.roster addr with
  | none => c
  | some k =>
    let s := c.roster k
    let misses := if s.consecutive_misses < 0xFF then s.consecutive_misses + 1 else 0xFF
    c.setSlave k
      { s with
        consecutive_misses := misses
        state := if c.max_misses ≤ misses then .dead else s.state }

/-- A slot begins. What the ring still holds is stale, and is flushed. A transmit
that finds the wire busy is tried again, with the next sequence number. -/
def openSlot (c : BusController) (txFree : Bool) : BusController :=
  if !due c.clock c.next_ms then c
  else
    let c := { c with rx := [] }
    if c.cmd_state = .queued then
      let c := { c with poll_seq := c.poll_seq + 1 }
      if txFree then
        { c with
          cur_addr := c.cmd_slave
          cmd_state := .sent
          deadline := c.clock + CMD_ACK_TIMEOUT_MS
          poll_state := .wait }.note
          (.sent (txFrame c.cmd_slave BUS_CONTROLLER_LOCAL_ADDR RS485_FT_DATA c.poll_seq c.cmd_buf))
      else c
    else
      match busRosterNextEnabled c.roster c.cursor with
      | none => { c with next_ms := c.clock + c.poll_period_ms.toUInt32 }
      | some k =>
        let addr := (c.roster k).addr
        let c := { c with cursor := (k.val + 1) % BUS_ROSTER_MAX, poll_seq := c.poll_seq + 1 }
        if txFree then
          { c with
            cur_addr := addr
            deadline := c.clock + POLL_SLOT_TIMEOUT_MS
            poll_state := .wait }.note
            (.sent (txFrame addr BUS_CONTROLLER_LOCAL_ADDR RS485_FT_POLL c.poll_seq []))
        else c

def Rs485Frame.isAck (f : Rs485Frame) : Bool := f.cls == RS485_FT_ACK || f.cls == RS485_FT_NAK

/-- A command reply or an interlock message. -/
def Rs485Frame.isReply (f : Rs485Frame) : Bool :=
  f.cls == RS485_FT_DATA && decide (2 ≤ f.payload.length)

/-- The request id of an ACK or NAK. -/
def ackRid (f : Rs485Frame) : UInt16 :=
  if 2 ≤ f.payload.length then le16 (f.payload.getD 0 0) (f.payload.getD 1 0) else 0

/-- An ACK or NAK is kept for its relay, unless one waits there already. -/
def stageAck (c : BusController) (h : Heard) : BusController :=
  if h.frame.isAck && c.cmd_ack.isNone then
    { c with
      cmd_ack := some
        { addr := c.cmd_slave, reqid := ackRid h.frame, is_nak := h.frame.cls == RS485_FT_NAK,
          polled := h.polled } }
  else c

/-- A reply is kept for its relay, unless one waits there already. -/
def stageReply (c : BusController) (h : Heard) : BusController :=
  if c.cmd_reply.isNone then { c with cmd_reply := some h } else c

/-- A frame without a reply carries the summary of the interlocks. -/
def storeSummary (c : BusController) (f : Rs485Frame) : BusController :=
  match busRosterFind c.roster c.cur_addr with
  | none => c
  | some k =>
    c.setSlave k
      { c.roster k with summary := if 1 ≤ f.payload.length then f.payload.getD 0 0 else 0 }

def closeSlot (c : BusController) : BusController :=
  { c with poll_state := .idle, next_ms := c.clock + c.poll_period_ms.toUInt32 }

def takeAnswer (c : BusController) (h : Heard) : BusController :=
  let c := busMarkAlive c c.cur_addr
  closeSlot
    (if c.cmd_state = .sent then { stageAck c h with cmd_state := .idle }
    else if h.frame.isReply then stageReply c h
    else storeSummary c h.frame)

/-- No answer. After the deadline the slot is a miss. -/
def awaitAnswer (c : BusController) : BusController :=
  if due c.clock c.deadline then
    let c := busMarkMiss c c.cur_addr
    closeSlot (if c.cmd_state = .sent then { c with cmd_state := .idle } else c)
  else c

/-- `bus_poll_engine`. One frame is taken from the ring, also when it comes from
another slave. -/
def busPollEngine (c : BusController) (txFree : Bool) : BusController :=
  if !c.enabled then { c with poll_state := .idle }
  else
    match c.poll_state with
    | .idle => openSlot c txFree
    | .wait =>
      match c.rx with
      | [] => awaitAnswer c
      | h :: rx =>
        let c := { c with rx }
        if h.frame.src = c.cur_addr then takeAnswer c h else awaitAnswer c

/-! ## Relays to the host -/

/-- `frame_encode_s2m`, for a frame of the bus controller's own. The sequence
number moves on when the ring had room. -/
def BusController.push (c : BusController) (addr : UInt8) (cmd : UInt16) (payload : List UInt8) :
    BusController :=
  { c with bridge_seq := c.bridge_seq + 1 }.note (.pushed ⟨addr, cmd, payload⟩ c.bridge_seq)

/-- The relay of a reply: the opcode and the body of the slave, from its address. -/
def replyRelay (f : Rs485Frame) : Relay where
  addr := f.src
  cmd := opcodeOf f.payload
  payload := f.payload.drop 2

def busDrainCmdReply (c : BusController) (room : Bool) : BusController :=
  match c.cmd_reply with
  | none => c
  | some h =>
    if room then
      { c with bridge_seq := c.bridge_seq + 1, cmd_reply := none }.note
        (.relayed (replyRelay h.frame) c.bridge_seq h.polled)
    else c

def ackRelay (addr : UInt8) (reqid : UInt16) (is_nak : Bool) : Relay where
  addr := addr
  cmd := if is_nak then OP_BUS_CMD_NAK else OP_BUS_CMD_ACK
  payload := [addr, lo16 reqid, hi16 reqid]

def busDrainCmdAck (c : BusController) (room : Bool) : BusController :=
  match c.cmd_ack with
  | none => c
  | some a =>
    if room then
      { c with bridge_seq := c.bridge_seq + 1, cmd_ack := none }.note
        (.relayed (ackRelay a.addr a.reqid a.is_nak) c.bridge_seq a.polled)
    else c

/-- The loop of `bus_drain_events`: one edge of a slave is told to the host. An
unknown slave that comes alive is not announced. -/
def drainEventsFrom (room : Bool) (c : BusController) : List (Fin BUS_ROSTER_MAX) → BusController
  | [] => c
  | i :: is =>
    if (c.roster i).state = (c.roster i).announced_state then drainEventsFrom room c is
    else
      match busRosterFind c.roster (c.roster i).addr with
      | none => drainEventsFrom room c is
      | some k =>
        let s := c.roster k
        match s.state with
        | .dead =>
          if room then
            (c.push s.addr OP_BUS_SLAVE_DOWN [s.addr]).setSlave k { s with announced_state := .dead }
          else c
        | .alive =>
          if s.announced_state = .dead then
            if room then
              (c.push s.addr OP_BUS_SLAVE_UP (s.addr :: bytes32 s.class_id)).setSlave k
                { s with announced_state := .alive }
            else c
          else drainEventsFrom room (c.setSlave k { s with announced_state := .alive }) is
        | .unknown => drainEventsFrom room c is

def busDrainEvents (c : BusController) (room : Bool) : BusController :=
  drainEventsFrom room c (occupied c.roster)

/-- The loop of `bus_drain_flagged`: one edge of a summary is told to the host. -/
def drainFlaggedFrom (room : Bool) (c : BusController) : List (Fin BUS_ROSTER_MAX) → BusController
  | [] => c
  | i :: is =>
    if (c.roster i).summary = (c.roster i).announced_summary then drainFlaggedFrom room c is
    else
      match busRosterFind c.roster (c.roster i).addr with
      | none => drainFlaggedFrom room c is
      | some k =>
        let s := c.roster k
        if room then
          (c.push s.addr OP_BUS_SLAVE_FLAGGED [s.addr, s.summary]).setSlave k
            { s with announced_summary := s.summary }
        else c

def busDrainFlagged (c : BusController) (room : Bool) : BusController :=
  drainFlaggedFrom room c (occupied c.roster)

/-- A new snapshot of the roster is due. -/
def startStatus (c : BusController) : BusController :=
  if !c.status_active && due c.clock c.status_next_ms then
    { c with
      status_active := true
      status_cursor := 0
      status_next_ms := c.clock + BUS_STATUS_INTERVAL_MS }
  else c

def busDrainStatusReport (c : BusController) (room : Bool) : BusController :=
  if !c.enabled then { c with status_active := false }
  else
    let c := startStatus c
    if !c.status_active then c
    else
      match (occupied c.roster)[c.status_cursor]? with
      | none => { c with status_active := false }
      | some k =>
        let s := c.roster k
        if room then
          { c.push s.addr OP_BUS_STATUS_REPORT [s.addr, s.summary] with
            status_cursor := c.status_cursor + 1 }
        else c

/-! ## The bridge -/

/-- The NAK of the bridge. Its sequence number is used up also without room. -/
def bridgeNak (c : BusController) (room : Bool) : BusController :=
  let payload := [NAK_ERR_NO_RESOURCES, lo16 OP_SHELL_EXEC, hi16 OP_SHELL_EXEC]
  let told := if room then c.push c.bridge_slave OP_NAK payload
    else { c with bridge_seq := c.bridge_seq + 1 }
  { told with bridge_pending := false }

/-- The bridge still waits for its slave, until the deadline. -/
def awaitBridge (c : BusController) (room : Bool) : BusController :=
  if due c.clock c.bridge_deadline then bridgeNak c room else c

def rs485BridgePoll (c : BusController) (room : Bool) : BusController :=
  if !c.bridge_pending then c
  else
    match c.bridge_reply with
    | some h =>
      if room then
        { c with bridge_seq := c.bridge_seq + 1, bridge_reply := none, bridge_pending := false }.note
          (.relayed { replyRelay h.frame with addr := c.bridge_slave } c.bridge_seq h.polled)
      else if due c.clock c.bridge_deadline then
        -- The ring stayed full past the deadline: the reply is dropped.
        { c with bridge_reply := none, bridge_pending := false }
      else c
    | none =>
      match c.rx with
      | [] => awaitBridge c room
      | h :: rx =>
        let c := { c with rx }
        if h.frame.isReply && h.frame.src == c.bridge_slave then { c with bridge_reply := some h }
        else awaitBridge c room

/-! ## The bus controller as a machine -/

inductive BusOp where
  /-- A frame is in the ring, whole and with a good checksum. -/
  | hear (f : Rs485Frame)
  /-- The calls of the main loop, in any order. `room` says that the USB ring has
  room for a frame. -/
  | engine (txFree : Bool)
  | drainEvents (room : Bool)
  | drainFlagged (room : Bool)
  | drainCmdAck (room : Bool)
  | drainCmdReply (room : Bool)
  | drainStatusReport (room : Bool)
  | bridgePoll (room : Bool)
  /-- What the host sends: a frame for a slave, and the commands of the roster. -/
  | fromHost (opcode : UInt16) (addr : UInt8) (payload : List UInt8)
  | register (addr : UInt8) (class_id : UInt32) (flags : UInt8)
  | unregister (addr : UInt8)
  | clearRoster
  | setPoll (period : UInt16) (misses retries : UInt8)
  | pollEnable (on : Bool)
  | tick (ms : UInt32)

/-- A frame of the ring. It counts as one of a polled slave when polling is on
and the master did not send it. -/
def hear (c : BusController) (f : Rs485Frame) : BusController :=
  let polled := c.enabled && f.src != BUS_CONTROLLER_LOCAL_ADDR
  let c := if polled then c.note (.heard f) else c
  { c with rx := c.rx ++ [{ frame := f, polled }] }

/-- The calls of the main loop while polling is on. -/
def whilePolling (c : BusController) (c' : BusController) : BusController :=
  if c.enabled then c' else c

/-- `cmd_bus_set_poll`. A period or a number of misses of zero is refused. -/
def cmdBusSetPoll (c : BusController) (period : UInt16) (misses retries : UInt8) : BusController :=
  if period = 0 ∨ misses = 0 then c
  else { c with poll_period_ms := period, max_misses := misses, tcp_retries := retries }

def busStep (c : BusController) : BusOp → Option BusController
  | .hear f => some (hear c f)
  | .engine txFree => some (whilePolling c (busPollEngine c txFree))
  | .drainEvents room => some (whilePolling c (busDrainEvents c room))
  | .drainFlagged room => some (whilePolling c (busDrainFlagged c room))
  | .drainCmdAck room => some (whilePolling c (busDrainCmdAck c room))
  | .drainCmdReply room => some (whilePolling c (busDrainCmdReply c room))
  | .drainStatusReport room => some (whilePolling c (busDrainStatusReport c room))
  | .bridgePoll room => some (if c.enabled then c else rs485BridgePoll c room)
  | .fromHost opcode addr payload => some (fromHost c opcode addr payload)
  | .register addr class_id flags =>
    some { c with roster := busRosterRegister c.roster addr class_id flags }
  | .unregister addr => some { c with roster := busRosterUnregister c.roster addr }
  | .clearRoster => some { c with roster := busRosterClear c.roster }
  | .setPoll period misses retries => some (cmdBusSetPoll c period misses retries)
  | .pollEnable on => some { c with enabled := on }
  | .tick ms => some { c with clock := c.clock + ms }

end motioncore.bus
