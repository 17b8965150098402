-- What the dongle does with the bytes of the host (`rx_drain_to_event_queue`,
-- `main.c`): each frame for the dongle becomes an event of the engine, and the
-- payload of a shell command waits in a queue of its own (`user_functions.c`).
import Mathlib.Logic.Function.Iterate
import MotionCore.Lib.Ring
import MotionCore.Opcodes
import MotionCore.Wire.Slip

open motioncore.bytes motioncore.machine motioncore.ring motioncore.wire

namespace motioncore.firmware

abbrev S_EXPR_EVENT_QUEUE_SIZE : Nat := 16
abbrev SHELL_PENDING_DEPTH : Nat := 8
def BUS_CONTROLLER_LOCAL_ADDR : UInt8 := 0

/-- The build of the firmware. Only the bus controller has slaves behind it. -/
inductive Role where
  | dongle
  | slave
  | busController
deriving DecidableEq

/-- An event of the engine's queue. `payload` is no field of the source: it is
the payload of the frame that the event was pushed for. -/
structure Event where
  id : UInt16
  payload : List UInt8
deriving DecidableEq

/-- The state between the link and the engine. `pushed` is no field of the source:
it lists the events that the link has pushed. -/
structure RxState where
  decoder : Decoder
  pending_instance_id : UInt32
  shell : Ring (List UInt8) SHELL_PENDING_DEPTH
  events : Ring Event S_EXPR_EVENT_QUEUE_SIZE
  pushed : List UInt16

theorem event_queue_pos : 0 < S_EXPR_EVENT_QUEUE_SIZE := by decide

def RxState.boot : RxState where
  decoder := .init
  pending_instance_id := 0
  shell := { buf := fun _ => [], head := 0, count := 0, count_le := Nat.zero_le _ }
  events := { buf := fun _ => ⟨0, []⟩, head := ⟨0, event_queue_pos⟩, count := 0, count_le := Nat.zero_le _ }
  pushed := []

/-- `shell_pending_push`. One place of the queue always stays empty. -/
def shellPendingPush (q : Ring (List UInt8) SHELL_PENDING_DEPTH) (payload : List UInt8) :
    Option (Ring (List UInt8) SHELL_PENDING_DEPTH) :=
  if q.count + 1 = SHELL_PENDING_DEPTH then none else some (q.push payload)

/-- `s_expr_event_push`. A full queue is an exception, and the chip waits there
for its watchdog: nothing follows in this run. -/
def eventPush (s : RxState) (e : Event) : Option RxState :=
  if s.events.isFull then none else some { s with events := s.events.push e }

def pushFrame (s : RxState) (f : Frame) : Option RxState :=
  eventPush { s with pushed := s.pushed ++ [f.cmd] } ⟨f.cmd, f.payload⟩

def forSlave (role : Role) (f : Frame) : Bool :=
  role == .busController && f.addr != BUS_CONTROLLER_LOCAL_ADDR

/-- The instance id of a commissioning frame is staged for its handler. -/
def stageInstanceId (s : RxState) (f : Frame) : RxState :=
  if f.cmd = OP_COMMISSION_SET ∧ 4 ≤ f.payload.length then
    { s with pending_instance_id := le32 f.payload }
  else s

/-- One frame of the host. `OP_POLL` is answered on the spot. -/
def rxFrame (role : Role) (s : RxState) (f : Frame) : Option RxState :=
  if forSlave role f then some s
  else
    let s := stageInstanceId s f
    if f.cmd = OP_POLL then some s
    else if f.cmd = OP_SHELL_EXEC then
      match shellPendingPush s.shell f.payload with
      | none => some s
      | some shell => pushFrame { s with shell } f
    else pushFrame s f

def rxByte (role : Role) (s : RxState) (b : UInt8) : Option RxState :=
  runs (rxFrame role) { s with decoder := (decodeStep .m2s s.decoder b).1 }
    (decodeStep .m2s s.decoder b).2

/-- `rx_drain_to_event_queue`, over the bytes that one read returned. -/
def rxDrain (role : Role) (s : RxState) (bs : List UInt8) : Option RxState :=
  runs (rxByte role) s bs

/-! ## The link as a machine -/

inductive RxOp where
  | rx (bs : List UInt8)
  /-- The host closed the port and opened it again. -/
  | reattach
  /-- A tick: the engine takes every event, and some of the payloads. -/
  | engine (taken : Nat)

def RxState.tick (s : RxState) (taken : Nat) : RxState :=
  { s with
    events := Ring.pop^[s.events.count] s.events
    shell := Ring.pop^[taken] s.shell }

def rxStep (role : Role) (s : RxState) : RxOp → Option RxState
  | .rx bs => rxDrain role s bs
  | .reattach => eventPush s ⟨EV_HOST_REATTACH, []⟩
  | .engine taken => some (s.tick taken)

/-- The byte stream of the host. -/
def received : List RxOp → List UInt8
  | [] => []
  | .rx bs :: is => bs ++ received is
  | _ :: is => received is

/-- The frames of the stream that are meant for the dongle. -/
def framesOf (role : Role) (bs : List UInt8) : List Frame :=
  (emits (decodeStep .m2s) .init bs).2.filter fun f => !forSlave role f

/-! ## What is pushed -/

/-- The ids that no host may use: the tick of the engine, and its own events. -/
def reserved (id : UInt16) : Bool := id == SE_EVENT_TICK || decide (EV_HOST_REATTACH ≤ id)

theorem wire_opcode_not_reserved {id : UInt16} (h : id ∈ m2sOpcodes) : reserved id = false := by
  unfold m2sOpcodes at h
  simp only [List.mem_cons, List.not_mem_nil, or_false] at h
  rcases h with rfl | rfl | rfl | rfl | rfl | rfl | rfl | rfl | rfl <;> decide

/-- What one frame does to the list of the pushed events. -/
structure Pushes (role : Role) (f : Frame) (s s' : RxState) : Prop where
  decoder : s'.decoder = s.decoder
  pushed : s'.pushed = s.pushed ∨ s'.pushed = s.pushed ++ [f.cmd]
  slave : forSlave role f = true → s'.pushed = s.pushed
  /-- Only the opcodes that have a case of their own may go without an event. -/
  other : forSlave role f = false → f.cmd ∉ m2sOpcodes → s'.pushed = s.pushed ++ [f.cmd]

variable {s s' : RxState} {f : Frame}

theorem pushFrame_eq (h : pushFrame s f = some s') :
    s'.decoder = s.decoder ∧ s'.pushed = s.pushed ++ [f.cmd] := by
  unfold pushFrame eventPush at h
  split at h
  · cases h
  · cases h
    exact ⟨rfl, rfl⟩

theorem stageInstanceId_eq (s : RxState) (f : Frame) :
    (stageInstanceId s f).decoder = s.decoder ∧ (stageInstanceId s f).pushed = s.pushed := by
  unfold stageInstanceId
  split <;> exact ⟨rfl, rfl⟩

variable {role : Role}

theorem rxFrame_pushes (h : rxFrame role s f = some s') : Pushes role f s s' := by
  have hstage := stageInstanceId_eq s f
  unfold rxFrame at h
  split at h
  · rename_i hs
    cases h
    exact ⟨rfl, Or.inl rfl, fun _ => rfl, fun hn => absurd hs (Bool.eq_false_iff.mp hn)⟩
  · rename_i hs
    dsimp only at h
    split at h
    · rename_i hpoll
      cases h
      refine ⟨hstage.1, Or.inl hstage.2, fun hn => absurd hn hs, fun _ hn => absurd ?_ hn⟩
      rw [hpoll]
      decide
    · split at h
      · rename_i hshell
        have hmem : f.cmd ∈ m2sOpcodes := by
          rw [hshell]
          decide
        split at h
        · cases h
          exact ⟨hstage.1, Or.inl hstage.2, fun hn => absurd hn hs, fun _ hn => absurd hmem hn⟩
        · obtain ⟨hd, hp⟩ := pushFrame_eq h
          exact ⟨hd.trans hstage.1, Or.inr (hp.trans (congrArg (· ++ [f.cmd]) hstage.2)),
            fun hn => absurd hn hs, fun _ hn => absurd hmem hn⟩
      · obtain ⟨hd, hp⟩ := pushFrame_eq h
        have hall := hp.trans (congrArg (· ++ [f.cmd]) hstage.2)
        exact ⟨hd.trans hstage.1, Or.inr hall, fun hn => absurd hn hs, fun _ _ => hall⟩

/-- The pushed ids are all of the wire exactly when the frames behind them are. -/
structure Agrees (role : Role) (fs : List Frame) (s s' : RxState) : Prop where
  decoder : s'.decoder = s.decoder
  wire : (∀ id ∈ s'.pushed, id ∈ m2sOpcodes) ↔
    (∀ id ∈ s.pushed, id ∈ m2sOpcodes) ∧ ∀ f ∈ fs, forSlave role f = false → f.cmd ∈ m2sOpcodes

theorem forall_snoc (l : List UInt16) (a : UInt16) :
    (∀ id ∈ l ++ [a], id ∈ m2sOpcodes) ↔ (∀ id ∈ l, id ∈ m2sOpcodes) ∧ a ∈ m2sOpcodes := by
  rw [List.forall_mem_append, List.forall_mem_singleton]

theorem Pushes.agrees (h : Pushes role f s s') : Agrees role [f] s s' := by
  refine ⟨h.decoder, ?_⟩
  rw [List.forall_mem_singleton]
  cases hs : forSlave role f with
  | true =>
    rw [h.slave hs]
    exact ⟨fun hall => ⟨hall, fun hn => nomatch hn⟩, And.left⟩
  | false =>
    by_cases hmem : f.cmd ∈ m2sOpcodes
    · rcases h.pushed with hp | hp
      · rw [hp]
        exact ⟨fun hall => ⟨hall, fun _ => hmem⟩, And.left⟩
      · rw [hp, forall_snoc]
        exact ⟨fun hall => ⟨hall.1, fun _ => hmem⟩, fun hall => ⟨hall.1, hmem⟩⟩
    · rw [h.other hs hmem, forall_snoc]
      exact ⟨fun hall => ⟨hall.1, fun _ => hall.2⟩, fun hall => ⟨hall.1, hall.2 rfl⟩⟩

theorem Agrees.trans {fs gs : List Frame} {t u : RxState} (h1 : Agrees role fs s t)
    (h2 : Agrees role gs t u) : Agrees role (fs ++ gs) s u := by
  refine ⟨h2.decoder.trans h1.decoder, ?_⟩
  rw [h2.wire, h1.wire, List.forall_mem_append, and_assoc]

theorem rxFrames_agree {l : List Frame} (h : runs (rxFrame role) s l = some s') :
    Agrees role l s s' := by
  induction l generalizing s with
  | nil =>
    cases h
    refine ⟨rfl, fun hall => ⟨hall, ?_⟩, And.left⟩
    exact fun _ hf => absurd hf List.not_mem_nil
  | cons f l ih =>
    simp only [runs_cons, Option.bind_eq_some_iff] at h
    obtain ⟨t, ht, h⟩ := h
    exact (rxFrame_pushes ht).agrees.trans (ih h)

variable {bs : List UInt8}

/-- One read: the decoder moves on over the bytes, and its frames are handled. -/
theorem rxDrain_agrees (h : rxDrain role s bs = some s') :
    Agrees role (emits (decodeStep .m2s) s.decoder bs).2
      { s with decoder := (emits (decodeStep .m2s) s.decoder bs).1 } s' := by
  unfold rxDrain at h
  induction bs generalizing s with
  | nil => exact rxFrames_agree (l := []) h
  | cons b bs ih =>
    simp only [runs_cons, Option.bind_eq_some_iff] at h
    obtain ⟨t, ht, h⟩ := h
    have hone := rxFrames_agree ht
    have hrest := ih h
    have hd : t.decoder = (decodeStep .m2s s.decoder b).1 := hone.decoder
    rw [hd] at hrest
    refine ⟨hrest.decoder, ?_⟩
    rw [hrest.wire]
    dsimp only [emits]
    rw [hone.wire, List.forall_mem_append, and_assoc]

/-! ## Every run -/

/-- What a run has kept, at each of its ends. -/
structure Listened (role : Role) (bs : List UInt8) (s : RxState) : Prop where
  decoder : s.decoder = (emits (decodeStep .m2s) .init bs).1
  wire : (∀ id ∈ s.pushed, id ∈ m2sOpcodes) ↔
    ∀ f ∈ (emits (decodeStep .m2s) .init bs).2, forSlave role f = false → f.cmd ∈ m2sOpcodes

theorem boot_listened (role : Role) : Listened role [] .boot := by
  refine ⟨rfl, fun _ => ?_, fun _ => ?_⟩
  · exact fun _ hf => absurd hf List.not_mem_nil
  · exact fun _ hid => absurd hid List.not_mem_nil

theorem eventPush_keeps {e : Event} (h : eventPush s e = some s') :
    s'.decoder = s.decoder ∧ s'.pushed = s.pushed := by
  unfold eventPush at h
  split at h
  · cases h
  · cases h
    exact ⟨rfl, rfl⟩

theorem Listened.of_same (h : Listened role bs s)
    (hsame : s'.decoder = s.decoder ∧ s'.pushed = s.pushed) : Listened role bs s' := by
  refine ⟨hsame.1.trans h.decoder, ?_⟩
  rw [hsame.2]
  exact h.wire

theorem Listened.rx {cs : List UInt8} (h : Listened role bs s) (hrx : rxDrain role s cs = some s') :
    Listened role (bs ++ cs) s' := by
  have hag := rxDrain_agrees hrx
  rw [h.decoder] at hag
  refine ⟨?_, ?_⟩
  · rw [emits_append]
    exact hag.decoder
  · rw [hag.wire, h.wire, emits_append, List.forall_mem_append]

theorem run_listened {is : List RxOp} (h : Listened role bs s)
    (hrun : runs (rxStep role) s is = some s') : Listened role (bs ++ received is) s' := by
  induction is generalizing s bs with
  | nil =>
    cases hrun
    rw [received, List.append_nil]
    exact h
  | cons i is ih =>
    simp only [runs_cons, Option.bind_eq_some_iff] at hrun
    obtain ⟨t, ht, hrun⟩ := hrun
    cases i with
    | rx cs =>
      rw [received, ← List.append_assoc]
      exact ih (h.rx ht) hrun
    | reattach => exact ih (h.of_same (eventPush_keeps ht)) hrun
    | engine taken =>
      cases ht
      exact ih (s := s.tick taken) (h.of_same ⟨rfl, rfl⟩) hrun

/-- The link pushes only opcodes of the wire, and no reserved id, exactly when
every frame of the stream for the dongle carries an opcode that the host may send.
The drain itself checks nothing. -/
theorem only_defined_opcodes_are_pushed (role : Role) (is : List RxOp) (s : RxState)
    (hrun : runs (rxStep role) .boot is = some s) :
    (∀ id ∈ s.pushed, id ∈ m2sOpcodes ∧ reserved id = false) ↔
      ∀ f ∈ framesOf role (received is), f.cmd ∈ m2sOpcodes := by
  have hl := run_listened (boot_listened role) hrun
  rw [List.nil_append] at hl
  have hframes : (∀ f ∈ framesOf role (received is), f.cmd ∈ m2sOpcodes) ↔
      ∀ f ∈ (emits (decodeStep .m2s) .init (received is)).2,
        forSlave role f = false → f.cmd ∈ m2sOpcodes := by
    unfold framesOf
    simp only [List.mem_filter, Bool.not_eq_true', and_imp]
  rw [hframes, ← hl.wire]
  constructor
  · exact fun h id hid => (h id hid).1
  · exact fun h id hid => ⟨h id hid, wire_opcode_not_reserved (h id hid)⟩

/-- A frame of the host without a payload. -/
def bareFrame (cmd : UInt16) : Frame where
  addr := 1
  cmd := cmd
  seq := 0
  ack_seq := 0
  ack_status := 0
  payload := []
  len_le := Nat.zero_le _

set_option maxRecDepth 8000 in
theorem a_ping_is_pushed : ∃ s,
    runs (rxStep .dongle) .boot [.rx (frameBytes .m2s (bareFrame OP_PING))] = some s ∧
      s.pushed = [OP_PING] ∧ ∀ id ∈ s.pushed, id ∈ m2sOpcodes ∧ reserved id = false := by
  have hrun : (runs (rxStep .dongle) .boot [.rx (frameBytes .m2s (bareFrame OP_PING))]).map
      (·.pushed) = some [OP_PING] := by decide
  obtain ⟨s, hs, hpushed⟩ := Option.map_eq_some_iff.mp hrun
  refine ⟨s, hs, hpushed, (only_defined_opcodes_are_pushed .dongle _ s hs).mpr ?_⟩
  decide

set_option maxRecDepth 8000 in
/-- A frame with the command 0xFFFD reaches the engine as its TERMINATE event. -/
theorem a_frame_pushes_terminate :
    ¬ ∀ (role : Role) (is : List RxOp) (s : RxState), runs (rxStep role) .boot is = some s →
      ∀ id ∈ s.pushed, id ∈ m2sOpcodes ∧ reserved id = false := by
  intro h
  have hrun : (runs (rxStep .dongle) .boot [.rx (frameBytes .m2s (bareFrame SE_EVENT_TERMINATE))]).map
      (·.pushed) = some [SE_EVENT_TERMINATE] := by decide
  obtain ⟨s, hs, hpushed⟩ := Option.map_eq_some_iff.mp hrun
  have hbad := (h _ _ s hs SE_EVENT_TERMINATE (by rw [hpushed]; exact List.mem_singleton_self _)).2
  exact absurd hbad (by decide)

end motioncore.firmware
