-- The state of the host stack: the link endpoint, the demux, the command
-- tracker and the controller, in one record. `log` is no field of the source:
-- it records what the functions did, for the laws to speak about.
import MotionCore.Lib.Bytes
import MotionCore.Lib.Ring
import MotionCore.Opcodes

open motioncore.ring

namespace motioncore.host

/-! ## Sizes, times and ids -/

def COMM_PAYLOAD_MAX : Nat := 128

/-- The most requests that wait for a reply at one time (`demux.c`). -/
abbrev PENDING_MAX : Nat := 24
abbrev SLOT_MAX : Nat := 16
abbrev CMD_QUEUE_DEPTH : Nat := 5
def CMD_ARG_MAX : Nat := 96
def CMD_IL_MSG_MAX : Nat := 64
def ACK_TIMEOUT_MS : Nat := 1500
def MAX_ACK_RETRIES : Nat := 2
def EXEC_MARGIN_MS : Nat := 1000
def ACK_THROTTLE_MS : Nat := 150
def MANIFEST_GAP_MS : Nat := 60
def GAP_SETTLE_MS : Nat := 1500
def REPUSH_COOLDOWN_MS : Nat := 2000
def CTRL_EV_DATA_MAX : Nat := 64
abbrev CTRL_EVQ_CAP : Nat := 128

/-- The age limit that `controller_poll` gives to `demux_poll`. -/
def REPLY_TIMEOUT_MS : Nat := 2500

def CMD_STATUS_BUSY : UInt8 := 0xFD
def DEMUX_STATUS_LINK_DOWN : UInt8 := 0xFE
def DEMUX_STATUS_TIMEOUT : UInt8 := 0xFF

/-- What a send returns in place of a request id when it fails. -/
def NO_REQUEST : UInt16 := 0xFFFF

def CMD_INTERLOCK_REPUSH : UInt16 := 0x0144
def CMD_BUS_REGISTER_SLAVE : UInt16 := 0x0160
def CMD_BUS_LIST_SLAVES : UInt16 := 0x0162
def CMD_BUS_SET_POLL : UInt16 := 0x0163
def CMD_BUS_CLEAR_ROSTER : UInt16 := 0x0165

/-! ## The link and the demux -/

inductive LinkState where
  | down
  | up
deriving DecidableEq

/-- A frame to the dongle: `frame_meta_t` and its payload. -/
structure LinkFrame where
  addr : UInt8
  cmd : UInt16
  seq : UInt8
  payload : List UInt8
deriving DecidableEq

/-- Who is called when a request is resolved. -/
inductive ReplyCb where
  /-- `on_tracker_reply`, for the slot that sent the command. -/
  | slot (i : Fin SLOT_MAX)
  /-- `on_prov_reply`. -/
  | prov
  /-- `ev_on_done_ungated`. -/
  | ungated
  /-- A callback of the client, which does not call back into the controller. -/
  | client
  | null
deriving DecidableEq

/-- A request that waits for its reply, `pending_t`. `serial` is the value of
the id counter before it is cut to 16 bits. -/
structure Pending where
  request_id : UInt16
  serial : Nat
  cb : ReplyCb
  sent_ms : Nat
deriving DecidableEq

/-! ## The command tracker -/

/-- Who is called when a command of the tracker is done. -/
inductive DoneCb where
  | null
  /-- `ev_on_done`: the event queue of the controller. -/
  | event
  /-- A callback of the client, which may submit again. -/
  | client
deriving DecidableEq

/-- The arguments of `cmd_tracker_submit`. -/
structure Submit where
  addr : UInt8
  command_id : UInt16
  args : List UInt8
  exec_timeout_ms : UInt32
  on_done : DoneCb
deriving DecidableEq

/-- A command of the tracker, `cmd_entry_t`. -/
structure CmdEntry where
  handle : Nat
  command_id : UInt16
  args : List UInt8
  exec_timeout_ms : UInt32
  on_done : DoneCb
deriving DecidableEq

def CmdEntry.zero : CmdEntry where
  handle := 0
  command_id := 0
  args := []
  exec_timeout_ms := 0
  on_done := .null

inductive SlotState where
  | idle
  | sent
  | inflight
deriving DecidableEq

/-- One slave of the tracker, `slot_t`. -/
structure Slot where
  in_use : Bool
  addr : UInt8
  state : SlotState
  q : Ring CmdEntry CMD_QUEUE_DEPTH
  has_inflight : Bool
  inflight : CmdEntry
  inflight_rid : UInt16
  sent_ms : Nat
  ack_ms : Nat
  retries : Nat
  il_known : Bool
  il_flags : UInt8
  faulted : Bool
  il_msg : List UInt8
  il_msg_count : Nat

/-- A slot after `clear_slot`. -/
def Slot.cleared : Slot where
  in_use := false
  addr := 0
  state := .idle
  q := { buf := fun _ => .zero, head := 0, count := 0, count_le := Nat.zero_le _ }
  has_inflight := false
  inflight := .zero
  inflight_rid := 0
  sent_ms := 0
  ack_ms := 0
  retries := 0
  il_known := false
  il_flags := 0
  faulted := false
  il_msg := []
  il_msg_count := 0

/-! ## The controller -/

inductive ProtoState where
  | unknown
  | boot
  | l1Acked
  | manifestOk
  | operational
deriving DecidableEq

inductive ProvState where
  | idle
  | clear
  | register
  | setPoll
  | list
  | done
  | fail
deriving DecidableEq

structure Manifest where
  schema_hash : UInt32
  fw_version : UInt32
  m2s_count : UInt8
deriving DecidableEq

structure RosterSlave where
  addr : UInt8
  class_id : UInt32
  flags : UInt8
deriving DecidableEq

abbrev ROSTER_MAX_SLAVES : Nat := 16

/-- The roster of the bus, `roster_t`. `poll` holds the period, the misses and
the retries of a `poll` line. -/
structure Roster where
  poll : Option (UInt16 × UInt8 × UInt8)
  slaves : List RosterSlave
  count_le : slaves.length ≤ ROSTER_MAX_SLAVES
deriving DecidableEq

def Roster.empty : Roster where
  poll := none
  slaves := []
  count_le := Nat.zero_le _

inductive EventKind where
  | cmdDone
  | flagged
  | interlock
  | liveness
  | link
deriving DecidableEq

/-- An event for the client, `ctrl_event_t` with its own copy of the bytes. -/
structure CtrlEvent where
  kind : EventKind
  addr : UInt8
  status : UInt8
  handle : Nat
  aux : Nat
  data : List UInt8
deriving DecidableEq

def CtrlEvent.zero : CtrlEvent where
  kind := .link
  addr := 0
  status := 0
  handle := 0
  aux := 0
  data := []

/-! ## The record of what happened -/

/-- Why a request or a command ended. -/
inductive Cause where
  | reply
  /-- The sweep of `demux_poll`. -/
  | sweep
  | linkDown
  | nak
  | ackTimeout
  | execDeadline
  | reset
deriving DecidableEq

inductive Ev where
  /-- The link took the frame. -/
  | queued (f : LinkFrame)
  /-- A request is registered. `handle` is the command of the tracker that it carries. -/
  | request (serial : Nat) (cb : ReplyCb) (handle : Nat) (f : LinkFrame)
  | resolved (serial : Nat) (cb : ReplyCb) (status : UInt8) (cause : Cause)
  /-- `cmd_tracker_submit` returned the handle. -/
  | accepted (i : Fin SLOT_MAX) (handle : Nat)
  | acked (i : Fin SLOT_MAX) (handle : Nat) (ack_ms exec_timeout_ms : Nat)
  /-- The completion callback of the command. -/
  | done (i : Fin SLOT_MAX) (handle : Nat) (status : UInt8) (cause : Cause) (t : Nat)
  | cleared (i : Fin SLOT_MAX)
  /-- `reset_sync`, or `controller_attach_roster`. -/
  | provReset
deriving DecidableEq

/-! ## The whole host -/

structure Host where
  -- The link endpoint.
  ep_state : LinkState
  -- The demux.
  next_id : Nat
  tx_seq : UInt8
  pending : Fin PENDING_MAX → Option Pending
  -- The command tracker.
  slots : Fin SLOT_MAX → Slot
  next_handle : Nat
  now : Nat
  total_acks : Nat
  -- The controller.
  link : LinkState
  identity : Option UInt32
  proto : ProtoState
  manifest : Option Manifest
  last_ack_ms : Nat
  get_manifest_at : Nat
  get_manifest_pending : Bool
  have_roster : Bool
  roster : Roster
  prov : ProvState
  prov_idx : Nat
  bc_total : UInt8
  status_reports : Nat
  gap_since : Fin ROSTER_MAX_SLAVES → Nat
  repush_at : Fin ROSTER_MAX_SLAVES → Nat
  repushes : Nat
  evq : Ring CtrlEvent CTRL_EVQ_CAP
  -- The clock, and how often the link and the client were asked.
  clock : Nat
  sends : Nat
  calls : Nat
  log : List Ev

def Host.create : Host where
  ep_state := .down
  next_id := 1
  tx_seq := 0
  pending := fun _ => none
  slots := fun _ => .cleared
  next_handle := 1
  now := 0
  total_acks := 0
  link := .down
  identity := none
  proto := .unknown
  manifest := none
  last_ack_ms := 0
  get_manifest_at := 0
  get_manifest_pending := false
  have_roster := false
  roster := .empty
  prov := .idle
  prov_idx := 0
  bc_total := 0
  status_reports := 0
  gap_since := fun _ => 0
  repush_at := fun _ => 0
  repushes := 0
  evq := { buf := fun _ => .zero, head := 0, count := 0, count_le := Nat.zero_le _ }
  clock := 0
  sends := 0
  calls := 0
  log := []

inductive SendResult where
  /-- The staging buffer is full. -/
  | refused
  | queued
  /-- The frame is staged, the write fails, and the link is taken down before
  the send returns its success. -/
  | queuedThenDown
deriving DecidableEq

/-- What is outside the host: the link, and the completion callbacks of the
client. Both may answer each call in a different way. -/
structure Env where
  link_send : Nat → LinkFrame → SendResult
  on_done : Nat → List Submit

/-- A link that takes every frame, and callbacks that submit nothing. -/
def silentEnv : Env where
  link_send := fun _ _ => .queued
  on_done := fun _ => []

namespace Host

def note (h : Host) (e : Ev) : Host := { h with log := h.log ++ [e] }

def setSlot (h : Host) (i : Fin SLOT_MAX) (s : Slot) : Host :=
  { h with slots := Function.update h.slots i s }

def setPending (h : Host) (k : Fin PENDING_MAX) (p : Option Pending) : Host :=
  { h with pending := Function.update h.pending k p }

end Host

end motioncore.host
