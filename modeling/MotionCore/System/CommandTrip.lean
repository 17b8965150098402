-- The trip of a command from the host to the shell of a slave: the USB link, the
-- queue or the bridge of the bus controller, the words of the bus, and the slave.
-- Frames can be lost on the bus, and the parties take their steps in any order.
import MotionCore.Bus.Assembler
import MotionCore.Bus.Sends
import MotionCore.Bus.SlaveTraffic
import MotionCore.Host.DemuxRuns
import MotionCore.Wire.Slip

open motioncore.bus motioncore.bytes motioncore.host motioncore.machine motioncore.wire

namespace motioncore.system

/-! ## What the shell is given -/

structure ShellCall where
  request_id : UInt16
  command_id : UInt16
  args : List UInt8
deriving DecidableEq

/-- The header that `shell_dispatch_payload` reads. -/
def shellCall (exec : List UInt8) : ShellCall where
  request_id := le16 (exec.getD 0 0) (exec.getD 1 0)
  command_id := le16 (exec.getD 2 0) (exec.getD 3 0)
  args := exec.drop RS485_SHELL_EXEC_HEADER_LEN

/-- A request of the host, with the id that the demux gave it. -/
structure Asked where
  request : Request
  rid : UInt16

def Asked.call (a : Asked) : ShellCall where
  request_id := a.rid
  command_id := a.request.command_id
  args := a.request.args

/-- The timeout of a request. A shell command has none. -/
def Asked.execTimeout (a : Asked) : UInt16 :=
  match a.request.kind with
  | .shell => 0
  | .busExec exec_timeout_ms => exec_timeout_ms

def Asked.accepted (a : Asked) : Prop :=
  a.request.kind.hdr + a.request.args.length ≤ wire.COMM_PAYLOAD_MAX

/-- The request is for a slave, and the slave at `me` listens to its address. -/
def Asked.forwarded (a : Asked) (me : UInt8) : Prop :=
  a.request.dest_addr ≠ bus.BUS_CONTROLLER_LOCAL_ADDR ∧ listensTo me a.request.dest_addr = true

/-- The request, after the opcode, fits into one frame of the bus. -/
def Asked.fits (a : Asked) : Prop :=
  a.request.kind.hdr + a.request.args.length ≤ RS485_PAYLOAD_MAX - 2

theorem length_body_of_request (a : Asked) :
    (a.request.body a.rid).length = a.request.kind.hdr + a.request.args.length := by
  unfold Request.body RequestKind.hdr
  cases a.request.kind with
  | shell =>
    unfold shellExecBody SHELL_EXEC_HDR
    rw [List.length_append]
    rfl
  | busExec exec_timeout_ms =>
    unfold busExecBody shellExecBody BUS_EXEC_HDR
    rw [List.length_append, List.length_append, ← Nat.add_assoc]
    rfl

/-- The frame of a request on the USB link (`send_frame_addr`). -/
def Asked.frame (a : Asked) (seq : UInt8) (h : a.accepted) : Frame where
  addr := a.request.dest_addr
  cmd := a.request.opcode
  seq := seq
  ack_seq := 0
  ack_status := 0
  payload := a.request.body a.rid
  len_le := (length_body_of_request a).trans_le h

/-! ## The parties -/

structure Trip where
  /-- The requests of the host, in the order of their frames. -/
  asked : List Asked
  decoder : Decoder
  bc : BusController
  /-- How many frames of the bus controller have left the bus again. -/
  carried : Nat
  asm : Asm
  slave : Slave
  slave_log : List SlaveEv

def Trip.boot : Trip where
  asked := []
  decoder := .init
  bc := .boot
  carried := 0
  asm := .idle
  slave := .boot
  slave_log := []

def sentOf (log : List BusEv) : List Rs485Frame :=
  log.filterMap fun e => match e with | .sent f => some f | _ => none

def Trip.onBus (s : Trip) : Option Rs485Frame := (sentOf s.bc.log)[s.carried]?

def fromLink (c : BusController) (f : Frame) : BusController := fromHost c f.cmd f.addr f.payload

/-- The bus controller reads the bytes of a request. -/
def Trip.ask (s : Trip) (a : Asked) (seq : UInt8) (h : a.accepted) : Trip :=
  let rx := emits (decodeStep .m2s) s.decoder (frameBytes .m2s (a.frame seq h))
  { s with asked := s.asked ++ [a], decoder := rx.1, bc := rx.2.foldl fromLink s.bc }

def Trip.hear (me : UInt8) (s : Trip) (f : Rs485Frame) (txFree : Bool) : Trip :=
  let rx := emits (asmStep me) s.asm (rs485FrameWords f)
  let r := emits (fun s g => slaveRxIsr me s g txFree) s.slave rx.2
  { s with
    carried := s.carried + 1
    asm := rx.1
    slave := r.1
    slave_log := s.slave_log ++ r.2 }

inductive TripOp where
  | ask (a : Asked) (seq : UInt8)
  | bus (op : BusOp)
  /-- The frame on the bus arrives, or is lost. -/
  | arrive (txFree : Bool)
  | lose
  | slave (i : LoopInput)
  | slaveTick (ms : Nat)

instance (a : Asked) : Decidable a.accepted := inferInstanceAs (Decidable (_ ≤ _))

def tripStep (me : UInt8) (s : Trip) : TripOp → Option Trip
  | .ask a seq => if h : a.accepted then some (s.ask a seq h) else none
  | .bus op => if op.ownOp then (busStep s.bc op).map fun bc => { s with bc } else none
  | .arrive txFree => s.onBus.map fun f => s.hear me f txFree
  | .lose => s.onBus.map fun _ => { s with carried := s.carried + 1 }
  | .slave i =>
    let r := rs485SlavePoll s.slave i
    some { s with slave := r.1, slave_log := s.slave_log ++ r.2 }
  | .slaveTick ms => some { s with slave := { s.slave with clock := s.slave.clock + ms } }

/-! ## The law -/

/-- The shell was given `exec`, from the frame `f`, for the request `a`. -/
def Given (s : Trip) (f : Rs485Frame) (exec : List UInt8) (a : Asked) : Prop :=
  shellCall exec = a.call ∧ ∃ t, .pickedUp f a.execTimeout t ∈ s.slave_log

/-- The bus controller tells the host of an error: a NAK of a slave, or its own. -/
def toldError (log : List BusEv) : Prop :=
  ∃ r seq, (∃ polled, .relayed r seq polled ∈ log ∧ r.cmd = OP_BUS_CMD_NAK) ∨
    .pushed r seq ∈ log ∧ r.cmd = OP_NAK

/-- The shell is given what the host has asked for, or the host is told of an error. -/
def Faithful (me : UInt8) (s : Trip) : Prop :=
  ∀ f exec body, .dispatched f exec body ∈ s.slave_log →
    (∃ a ∈ s.asked, a.forwarded me ∧ Given s f exec a) ∨ toldError s.bc.log

/-- A request goes out on a fresh bus: by the queue of the polled bus, or over the bridge. -/
def tripStart (polled : Bool) (a : Asked) (seq : UInt8) : List TripOp :=
  if polled then [.bus (.pollEnable true), .ask a seq, .bus (.engine true)] else [.ask a seq]

def quietTrip (polled : Bool) (a : Asked) (seq : UInt8) (i : LoopInput) : List TripOp :=
  tripStart polled a seq ++ [.arrive true, .slave i, .slave i]

/-- What holds when all requests of the host are of the kind `R`. -/
structure TripHolds (me : UInt8) (R : Asked → Prop) : Prop where
  exact : ∀ ops s, runs (tripStep me) .boot ops = some s → (∀ a ∈ s.asked, R a) → Faithful me s
  arrives : ∀ a seq polled i, R a → a.accepted → a.forwarded me →
    ∃ s f exec body, runs (tripStep me) .boot (quietTrip polled a seq i) = some s ∧
      .dispatched f exec body ∈ s.slave_log ∧ Given s f exec a

/-! ## The bytes of a command -/

theorem parse_shellExec (command_id : UInt16) (args : List UInt8) (rid : UInt16) :
    slaveCmdParse (busCommand OP_SHELL_EXEC (shellExecBody command_id args rid)) =
      some (2, 0) := by
  have hlen : ¬ (withOpcode OP_SHELL_EXEC ((shellExecBody command_id args rid).take
      (RS485_PAYLOAD_MAX - 2))).length < 2 + RS485_SHELL_EXEC_HEADER_LEN := by
    rw [length_withOpcode, List.length_take]
    unfold shellExecBody RS485_PAYLOAD_MAX RS485_SHELL_EXEC_HEADER_LEN
    rw [List.length_append, List.length_cons, List.length_cons, List.length_cons,
      List.length_cons, List.length_nil]
    omega
  unfold busCommand slaveCmdParse
  rw [opcodeOf_withOpcode, if_neg, if_neg, if_pos rfl, if_neg hlen]
  · decide
  · rw [length_withOpcode]
    omega

theorem parse_busExec (command_id exec_timeout_ms : UInt16) (args : List UInt8) (rid : UInt16) :
    slaveCmdParse (busCommand OP_BUS_EXEC (busExecBody command_id exec_timeout_ms args rid)) =
      some (4, exec_timeout_ms) := by
  have hlen : ¬ (withOpcode OP_BUS_EXEC ((busExecBody command_id exec_timeout_ms args rid).take
      (RS485_PAYLOAD_MAX - 2))).length < 4 + RS485_SHELL_EXEC_HEADER_LEN := by
    rw [length_withOpcode, List.length_take]
    unfold busExecBody shellExecBody RS485_PAYLOAD_MAX RS485_SHELL_EXEC_HEADER_LEN
    simp only [List.length_append, List.length_cons, List.length_nil]
    omega
  unfold busCommand slaveCmdParse
  rw [opcodeOf_withOpcode, if_neg, if_pos rfl, if_neg hlen]
  · have hto : le16 (lo16 exec_timeout_ms) (hi16 exec_timeout_ms) = exec_timeout_ms :=
      le16_lo_hi _
    exact congrArg (fun t => some (4, t)) hto
  · rw [length_withOpcode]
    omega

/-- The frame of the bus carries the header, and as many arguments as fit. -/
theorem command_parses (a : Asked) :
    slaveCmdParse (busCommand a.request.opcode (a.request.body a.rid)) =
      some (a.request.kind.hdr - 2, a.execTimeout) := by
  unfold Request.opcode Request.body RequestKind.hdr Asked.execTimeout
  cases a.request.kind with
  | shell => exact parse_shellExec _ _ _
  | busExec exec_timeout_ms => exact parse_busExec _ _ _ _

theorem command_call (a : Asked) :
    shellCall ((busCommand a.request.opcode (a.request.body a.rid)).drop (a.request.kind.hdr - 2)) =
      { a.call with args := a.request.args.take (RS485_PAYLOAD_MAX - 2 - a.request.kind.hdr) } := by
  have hcall : ∀ m, shellCall ([lo16 a.rid, hi16 a.rid, lo16 a.request.command_id,
      hi16 a.request.command_id] ++ a.request.args.take m) =
      { a.call with args := a.request.args.take m } := by
    intro m
    unfold shellCall Asked.call
    rw [ShellCall.mk.injEq]
    exact ⟨le16_lo_hi _, le16_lo_hi _, rfl⟩
  rw [← hcall]
  unfold busCommand Request.opcode Request.body RequestKind.hdr
  cases a.request.kind with
  | shell => rfl
  | busExec exec_timeout_ms => rfl

theorem txFrame_payload {dest src type seq : UInt8} {p : List UInt8}
    (h : p.length ≤ RS485_PAYLOAD_MAX) : (txFrame dest src type seq p).payload = p :=
  List.take_of_length_le h

variable {a : Asked}

theorem call_of_fits (h : a.fits) :
    a.request.args.take (RS485_PAYLOAD_MAX - 2 - a.request.kind.hdr) = a.request.args := by
  apply List.take_of_length_le
  unfold Asked.fits at h
  omega

theorem call_of_not_fits (h : ¬ a.fits) :
    a.request.args.take (RS485_PAYLOAD_MAX - 2 - a.request.kind.hdr) ≠ a.request.args := by
  intro heq
  have hlen := congrArg List.length heq
  rw [List.length_take] at hlen
  have hhdr : a.request.kind.hdr ≤ 6 := by
    unfold RequestKind.hdr
    cases a.request.kind with
    | shell => decide
    | busExec exec_timeout_ms => exact Nat.le_refl 6
  unfold Asked.fits at h
  unfold RS485_PAYLOAD_MAX at h hlen
  omega

/-! ## The invariant -/

/-- A command of the bus that was made for one of the requests. -/
def IsCommand (asked : List Asked) (dest : UInt8) (p : List UInt8) : Prop :=
  ∃ a ∈ asked, a.request.dest_addr = dest ∧ dest ≠ bus.BUS_CONTROLLER_LOCAL_ADDR ∧
    p = busCommand a.request.opcode (a.request.body a.rid)

/-- A frame for the slave at `me` that carries one of the requests. -/
def Carries (me : UInt8) (asked : List Asked) (f : Rs485Frame) : Prop :=
  ∃ a ∈ asked, a.forwarded me ∧ f.payload = busCommand a.request.opcode (a.request.body a.rid)

/-- The slave has picked up the request of the frame, which starts after `hdr` bytes. -/
def PickedUp (me : UInt8) (s : Trip) (f : Rs485Frame) (hdr : Nat) : Prop :=
  Carries me s.asked f ∧ ∃ exec_timeout t, slaveCmdParse f.payload = some (hdr, exec_timeout) ∧
    .pickedUp f exec_timeout t ∈ s.slave_log

structure TripInv (me : UInt8) (s : Trip) : Prop where
  accepted : ∀ a ∈ s.asked, a.accepted
  decoder : s.decoder.in_frame = false
  asm : s.asm = .idle
  bc : SendsOnly (IsCommand s.asked) s.bc
  input : s.slave.work_fresh = true → Carries me s.asked s.slave.input
  executing : ∀ f hdr, s.slave.executing = some (f, hdr) → PickedUp me s f hdr
  log : ∀ f exec body, .dispatched f exec body ∈ s.slave_log →
    ∃ hdr, exec = f.payload.drop hdr ∧ PickedUp me s f hdr

variable {me : UInt8} {f : Rs485Frame}

theorem Carries.mono {asked asked' : List Asked} (h : Carries me asked f) (hsub : asked ⊆ asked') :
    Carries me asked' f := by
  obtain ⟨a, ha, hfor, hp⟩ := h
  exact ⟨a, hsub ha, hfor, hp⟩

variable {s : Trip}

theorem PickedUp.mono {s' : Trip} {hdr : Nat} (h : PickedUp me s f hdr)
    (hasked : s.asked ⊆ s'.asked) (hlog : s.slave_log ⊆ s'.slave_log) : PickedUp me s' f hdr := by
  obtain ⟨hcar, exec_timeout, t, hparse, hmem⟩ := h
  exact ⟨hcar.mono hasked, exec_timeout, t, hparse, hlog hmem⟩

theorem ask_inv (hi : TripInv me s) (a : Asked) (seq : UInt8) (h : a.accepted) :
    TripInv me (s.ask a seq h) := by
  have hsub : s.asked ⊆ s.asked ++ [a] := List.subset_append_left _ _
  have harrive := frameBytes_arrive .m2s hi.decoder (a.frame seq h)
  have hask : s.ask a seq h =
      { s with
        asked := s.asked ++ [a]
        decoder := .init
        bc := fromLink s.bc ((a.frame seq h).carried .m2s) } := by
    unfold Trip.ask
    rw [harrive]
    rfl
  rw [hask]
  refine ⟨fun b hb => ?_, rfl, hi.asm, ?_, fun hw => (hi.input hw).mono hsub,
    fun f hdr he => (hi.executing f hdr he).mono hsub (List.Subset.refl _),
    fun f exec body hd => ?_⟩
  · rcases List.mem_append.mp hb with hb | hb
    · exact hi.accepted b hb
    · exact List.mem_singleton.mp hb ▸ h
  · have hbc : SendsOnly (IsCommand (s.asked ++ [a])) s.bc := by
      refine hi.bc.mono fun dest p hp => ?_
      obtain ⟨b, hb, hrest⟩ := hp
      exact ⟨b, hsub hb, hrest⟩
    refine fromHost_sendsOnly hbc fun hne => ?_
    exact ⟨a, List.mem_append_right _ (List.mem_singleton_self a), rfl, hne, rfl⟩
  · obtain ⟨hdr, hexec, hup⟩ := hi.log f exec body hd
    exact ⟨hdr, hexec, hup.mono hsub (List.Subset.refl _)⟩

/-! ## The slave -/

theorem mem_sentOf {log : List BusEv} (h : f ∈ sentOf log) : .sent f ∈ log := by
  unfold sentOf at h
  rw [List.mem_filterMap] at h
  obtain ⟨e, he, hf⟩ := h
  cases e with
  | sent g =>
    rw [Option.some.inj hf] at he
    exact he
  | _ => exact nomatch hf

/-- The words of a frame reach a slave that listens, and nobody else. -/
theorem words_arrive (me : UInt8) (f : Rs485Frame) : emits (asmStep me) .idle (rs485FrameWords f) =
      (.idle, if listensTo me f.dest = true then [f] else []) := by
  have hrec := receives_frames me .idle
  by_cases hme : listensTo me f.dest = true
  · rw [(hrec.arrives f hme).2, if_pos hme]
    rfl
  · rw [hrec.ignores f (Bool.eq_false_iff.mpr hme), if_neg hme]
    rfl

theorem hear_inv (hi : TripInv me s) (hf : s.onBus = some f) (txFree : Bool) :
    TripInv me (s.hear me f txFree) := by
  have hwords := words_arrive me f
  by_cases hme : listensTo me f.dest = true
  · rw [if_pos hme] at hwords
    have hhear : s.hear me f txFree =
        { s with
          carried := s.carried + 1
          asm := .idle
          slave := (slaveRxIsr me s.slave f txFree).1
          slave_log := s.slave_log ++ (slaveRxIsr me s.slave f txFree).2 } := by
      unfold Trip.hear
      rw [hi.asm, hwords]
      dsimp only [emits]
      rw [List.append_nil]
    have hisr := slaveRxIsr_step me s.slave f txFree
    have hlog : s.slave_log ⊆ s.slave_log ++ (slaveRxIsr me s.slave f txFree).2 :=
      List.subset_append_left _ _
    rw [hhear]
    refine ⟨hi.accepted, hi.decoder, rfl, hi.bc, fun hw => ?_, fun g hdr he => ?_, fun g exec body hd => ?_⟩
    · rcases hisr.claim hw with ⟨hold, hsame⟩ | ⟨hcls, hnew⟩
      · have hcar := hi.input hold
        rw [← hsame] at hcar
        exact hcar
      · obtain ⟨seq, p, ⟨a, ha, hdest, hne, rfl⟩, heq⟩ :=
          hi.bc.sent f (mem_sentOf (List.mem_of_getElem? hf)) hcls
        refine ⟨a, ha, ⟨?_, ?_⟩, ?_⟩
        · rw [hdest]
          exact hne
        · rw [hdest]
          exact hme
        · change (slaveRxIsr me s.slave f txFree).1.input.payload = _
          rw [hnew, heq]
          exact txFrame_payload (length_busCommand _ _)
    · exact (hi.executing g hdr (hisr.executing.symm.trans he)).mono (List.Subset.refl _) hlog
    · rcases List.mem_append.mp hd with hd | hd
      · obtain ⟨hdr, hexec, hup⟩ := hi.log g exec body hd
        exact ⟨hdr, hexec, hup.mono (List.Subset.refl _) hlog⟩
      · exact absurd hd (hisr.quiet g exec body)
  · rw [if_neg hme] at hwords
    have hhear : s.hear me f txFree = { s with carried := s.carried + 1 } := by
      unfold Trip.hear
      rw [hi.asm, hwords]
      dsimp only [emits]
      rw [List.append_nil, ← hi.asm]
    rw [hhear]
    exact ⟨hi.accepted, hi.decoder, hi.asm, hi.bc, hi.input, hi.executing, hi.log⟩

theorem slavePoll_inv (hi : TripInv me s) (i : LoopInput) : TripInv me
      { s with
        slave := (rs485SlavePoll s.slave i).1
        slave_log := s.slave_log ++ (rs485SlavePoll s.slave i).2 } := by
  have hlog : s.slave_log ⊆ s.slave_log ++ (rs485SlavePoll s.slave i).2 :=
    List.subset_append_left _ _
  unfold rs485SlavePoll at hlog ⊢
  cases hexec : s.slave.executing with
  | some p =>
    obtain ⟨f, hdr⟩ := p
    rw [hexec] at hlog
    refine ⟨hi.accepted, hi.decoder, hi.asm, hi.bc, hi.input, fun g hdr' h => (nomatch h),
      fun g exec body hd => ?_⟩
    rcases List.mem_append.mp hd with hd | hd
    · obtain ⟨hdr', hex, hup⟩ := hi.log g exec body hd
      exact ⟨hdr', hex, hup.mono (List.Subset.refl _) hlog⟩
    · have heq := List.mem_singleton.mp hd
      rw [SlaveEv.dispatched.injEq] at heq
      obtain ⟨rfl, rfl, rfl⟩ := heq
      exact ⟨hdr, rfl, (hi.executing g hdr hexec).mono (List.Subset.refl _) hlog⟩
  | none =>
    rw [hexec] at hlog
    dsimp only at hlog ⊢
    have hbefore := busyWatchdog_before s.slave i
    have hpick := pickup_step (busyWatchdog (primeSummary s.slave i)).1
    refine ⟨hi.accepted, hi.decoder, hi.asm, hi.bc, fun hw => ?_, fun f hdr h => ?_, fun g exec body hd => ?_⟩
    · exact absurd (hw.symm.trans hpick.fresh) (by decide)
    · rcases hpick.executing f hdr h with hold | ⟨hwork, rfl, exec_timeout, t, hparse, hmem⟩
      · exact nomatch (hexec.symm.trans (hbefore.executing.symm.trans hold))
      · refine ⟨?_, exec_timeout, t, hparse, ?_⟩
        · rw [hbefore.input]
          exact hi.input (hbefore.fresh hwork)
        · exact List.mem_append_right _ (List.mem_append_right _ hmem)
    · rcases List.mem_append.mp hd with hd | hd
      · obtain ⟨hdr, hex, hup⟩ := hi.log g exec body hd
        exact ⟨hdr, hex, hup.mono (List.Subset.refl _) hlog⟩
      · rcases List.mem_append.mp hd with hd | hd
        · exact absurd hd (not_dispatched hbefore.shows g exec body)
        · exact absurd hd (not_dispatched hpick.shows g exec body)

theorem tripStep_inv {s' : Trip} {op : TripOp} (hi : TripInv me s)
    (hstep : tripStep me s op = some s') : TripInv me s' := by
  cases op with
  | ask a seq =>
    unfold tripStep at hstep
    dsimp only at hstep
    split at hstep
    · cases hstep
      exact ask_inv hi a seq _
    · cases hstep
  | bus op =>
    unfold tripStep at hstep
    dsimp only at hstep
    split at hstep
    · rename_i hop
      obtain ⟨bc, hbc, rfl⟩ := Option.map_eq_some_iff.mp hstep
      exact ⟨hi.accepted, hi.decoder, hi.asm, busStep_sendsOnly hi.bc hop hbc, hi.input, hi.executing, hi.log⟩
    · cases hstep
  | arrive txFree =>
    obtain ⟨f, hf, rfl⟩ := Option.map_eq_some_iff.mp hstep
    exact hear_inv hi hf txFree
  | lose =>
    obtain ⟨f, hf, rfl⟩ := Option.map_eq_some_iff.mp hstep
    exact ⟨hi.accepted, hi.decoder, hi.asm, hi.bc, hi.input, hi.executing, hi.log⟩
  | slave i =>
    cases hstep
    exact slavePoll_inv hi i
  | slaveTick ms =>
    cases hstep
    exact ⟨hi.accepted, hi.decoder, hi.asm, hi.bc, hi.input, hi.executing, hi.log⟩

theorem boot_inv (me : UInt8) : TripInv me .boot :=
  { accepted := fun _ h => nomatch h
    decoder := rfl
    asm := rfl
    bc := boot_sendsOnly _
    input := fun h => absurd h Bool.false_ne_true
    executing := fun _ _ h => nomatch h
    log := fun _ _ _ h => nomatch h }

/-- In every run, the shell is given the arguments of a request as far as they fit. -/
theorem dispatched_call {ops : List TripOp} (hrun : runs (tripStep me) .boot ops = some s)
    {exec body : List UInt8} (hd : .dispatched f exec body ∈ s.slave_log) :
    ∃ a ∈ s.asked, a.accepted ∧ a.forwarded me ∧
      (∃ t, .pickedUp f a.execTimeout t ∈ s.slave_log) ∧ shellCall exec = { a.call with
        args := a.request.args.take (RS485_PAYLOAD_MAX - 2 - a.request.kind.hdr) } := by
  have hi : TripInv me s :=
    inv_runs (P := fun _ _ => True) (fun _ _ _ h _ hs => tripStep_inv h hs) (boot_inv me)
      (.of_forall (fun _ _ => trivial) _ _) hrun
  obtain ⟨hdr, rfl, ⟨a, ha, hfor, hp⟩, exec_timeout, t, hparse, hmem⟩ := hi.log f exec body hd
  have hcmd := command_parses a
  rw [← hp, hparse, Option.some.injEq, Prod.mk.injEq] at hcmd
  obtain ⟨rfl, rfl⟩ := hcmd
  refine ⟨a, ha, hi.accepted a ha, hfor, ⟨t, hmem⟩, ?_⟩
  rw [hp]
  exact command_call a

/-! ## A trip without losses -/

theorem slave_step (me : UInt8) {i : LoopInput} {t : Slave} {es : List SlaveEv}
    (h : rs485SlavePoll s.slave i = (t, es)) :
    tripStep me s (.slave i) = some { s with slave := t, slave_log := s.slave_log ++ es } := by
  unfold tripStep
  dsimp only
  rw [h]

/-- The slave claims a command of a fresh bus, picks it up, and dispatches it. -/
theorem rest_of_trip {hdr : Nat} {exec_timeout : UInt16} (hasm : s.asm = .idle)
    (hslave : s.slave = .boot) (hbus : s.onBus = some f) (hme : listensTo me f.dest = true)
    (hcls : f.cls = RS485_FT_DATA) (hparse : slaveCmdParse f.payload = some (hdr, exec_timeout))
    (i : LoopInput) : ∃ s', runs (tripStep me) s [.arrive true, .slave i, .slave i] = some s' ∧
      s'.asked = s.asked ∧ s'.bc = s.bc ∧ .pickedUp f exec_timeout 0 ∈ s'.slave_log ∧
      .dispatched f (f.payload.drop hdr) i.body ∈ s'.slave_log := by
  have hnot : ¬ f.cls = RS485_FT_POLL := by
    rw [hcls]
    decide
  have hclaim : ∃ acks, slaveRxIsr me .boot f true =
      ({ Slave.boot with input := f, busy := true, work_fresh := true }, acks) := by
    unfold slaveRxIsr
    dsimp only
    rw [if_neg hnot, if_pos hcls, hparse]
    exact ⟨_, rfl⟩
  obtain ⟨acks, hclaim⟩ := hclaim
  have harrive : tripStep me s (.arrive true) =
      some { s with
        carried := s.carried + 1
        slave := { Slave.boot with input := f, busy := true, work_fresh := true }
        slave_log := s.slave_log ++ acks } := by
    unfold tripStep
    dsimp only
    rw [hbus, Option.map_some]
    unfold Trip.hear
    rw [hasm, words_arrive, if_pos hme, hslave]
    dsimp only [emits]
    rw [hclaim, ← hasm, List.append_nil]
  have hpick : ∃ t : Slave, t.executing = some (f, hdr) ∧
      rs485SlavePoll { Slave.boot with input := f, busy := true, work_fresh := true } i =
        (t, [.pickedUp f exec_timeout 0]) := by
    unfold rs485SlavePoll
    have hwatch : ∃ u : Slave, u.work_fresh = true ∧ u.input = f ∧ u.clock = 0 ∧
        busyWatchdog (primeSummary
          { Slave.boot with input := f, busy := true, work_fresh := true } i) = (u, []) := by
      unfold primeSummary
      dsimp only
      split <;> exact ⟨_, rfl, rfl, rfl, rfl⟩
    obtain ⟨u, hwork, hin, hclock, hwatch⟩ := hwatch
    dsimp only [Slave.boot] at hwatch ⊢
    rw [hwatch]
    dsimp only
    unfold pickup
    rw [if_pos hwork]
    dsimp only
    rw [hin, hparse, hclock]
    exact ⟨_, rfl, rfl⟩
  obtain ⟨t, hexec, hpick⟩ := hpick
  have harm : ∃ u, rs485SlavePoll t i = (u, [.dispatched f (f.payload.drop hdr) i.body]) := by
    unfold rs485SlavePoll
    rw [hexec]
    exact ⟨_, rfl⟩
  obtain ⟨u, harm⟩ := harm
  refine ⟨{ s with
    carried := s.carried + 1
    slave := u
    slave_log := s.slave_log ++ acks ++ [.pickedUp f exec_timeout 0] ++
      [.dispatched f (f.payload.drop hdr) i.body] }, ?_, rfl, rfl, ?_, ?_⟩
  · rw [runs_cons, harrive, Option.bind_some, runs_cons, slave_step me hpick, Option.bind_some,
      runs_cons, slave_step me harm]
    rfl
  · simp
  · simp

def Asked.busFrame (a : Asked) : Rs485Frame :=
  txFrame a.request.dest_addr bus.BUS_CONTROLLER_LOCAL_ADDR RS485_FT_DATA 1
    (busCommand a.request.opcode (a.request.body a.rid))

theorem ask_step (me : UInt8) (h : a.accepted) (seq : UInt8) (hdec : s.decoder.in_frame = false) :
    tripStep me s (.ask a seq) = some
      { s with
        asked := s.asked ++ [a]
        decoder := .init
        bc := fromHost s.bc a.request.opcode a.request.dest_addr (a.request.body a.rid) } := by
  unfold tripStep
  dsimp only
  rw [dif_pos h]
  unfold Trip.ask
  rw [frameBytes_arrive .m2s hdec (a.frame seq h)]
  rfl

/-- Over the queue or over the bridge, the same frame goes out. -/
theorem start_of_trip (me : UInt8) (h : a.accepted)
    (hne : a.request.dest_addr ≠ bus.BUS_CONTROLLER_LOCAL_ADDR) (polled : Bool) (seq : UInt8) :
    ∃ s, runs (tripStep me) .boot (tripStart polled a seq) = some s ∧ s.asked = [a] ∧
      s.asm = .idle ∧ s.slave = .boot ∧ s.onBus = some a.busFrame ∧
      s.bc.log = [.sent a.busFrame] := by
  cases polled with
  | false =>
    have hbridge : (fromHost .boot a.request.opcode a.request.dest_addr (a.request.body a.rid)).log =
        [.sent a.busFrame] := by
      unfold fromHost
      rw [if_neg hne]
      rfl
    refine ⟨{ Trip.boot with
      asked := [a]
      bc := fromHost .boot a.request.opcode a.request.dest_addr (a.request.body a.rid) },
      ?_, rfl, rfl, rfl, ?_, hbridge⟩
    · unfold tripStart
      rw [if_neg Bool.false_ne_true, runs_cons, ask_step me h seq rfl]
      rfl
    · unfold Trip.onBus
      rw [hbridge]
      rfl
  | true =>
    have hqueue : fromHost { BusController.boot with enabled := true } a.request.opcode
        a.request.dest_addr (a.request.body a.rid) =
        { BusController.boot with
          enabled := true
          cmd_buf := busCommand a.request.opcode (a.request.body a.rid)
          cmd_slave := a.request.dest_addr
          cmd_state := .queued } := by
      unfold fromHost
      rw [if_neg hne]
      rfl
    have hslot : ∃ c, busStep
        { BusController.boot with
          enabled := true
          cmd_buf := busCommand a.request.opcode (a.request.body a.rid)
          cmd_slave := a.request.dest_addr
          cmd_state := .queued } (.engine true) = some c ∧ c.log = [.sent a.busFrame] := by
      have hdue : ¬ (!due BusController.boot.clock BusController.boot.next_ms) = true := by decide
      refine ⟨_, rfl, ?_⟩
      change (openSlot _ true).log = _
      unfold openSlot
      rw [if_neg hdue]
      rfl
    obtain ⟨c, hslot, hlog⟩ := hslot
    refine ⟨{ Trip.boot with asked := [a], bc := c }, ?_, rfl, rfl, rfl, ?_, hlog⟩
    · have hpoll : tripStep me .boot (.bus (.pollEnable true)) =
          some { Trip.boot with bc := { BusController.boot with enabled := true } } := rfl
      unfold tripStart
      rw [if_pos rfl, runs_cons, hpoll, Option.bind_some, runs_cons, ask_step me h seq rfl,
        Option.bind_some, runs_cons]
      dsimp only
      rw [hqueue]
      unfold tripStep
      dsimp only
      have hown : (BusOp.engine true).ownOp = true := rfl
      rw [if_pos hown, hslot]
      rfl
    · unfold Trip.onBus
      rw [hlog]
      rfl

theorem data_cls : RS485_FT_DATA &&& RS485_FT_MASK = RS485_FT_DATA := by decide

/-- What the shell is given after a trip without losses: the arguments that fit. -/
theorem quiet_trip (h : a.accepted) (hfor : a.forwarded me) (polled : Bool) (seq : UInt8)
    (i : LoopInput) :
    ∃ s exec, runs (tripStep me) .boot (quietTrip polled a seq i) = some s ∧ s.asked = [a] ∧
      s.bc.log = [.sent a.busFrame] ∧ .pickedUp a.busFrame a.execTimeout 0 ∈ s.slave_log ∧
      .dispatched a.busFrame exec i.body ∈ s.slave_log ∧
      shellCall exec = { a.call with
        args := a.request.args.take (RS485_PAYLOAD_MAX - 2 - a.request.kind.hdr) } := by
  obtain ⟨s, hrun, hasked, hasm, hslave, hbus, hlog⟩ := start_of_trip me h hfor.1 polled seq
  have hpay : a.busFrame.payload = busCommand a.request.opcode (a.request.body a.rid) :=
    txFrame_payload (length_busCommand _ _)
  have hparse := command_parses a
  rw [← hpay] at hparse
  obtain ⟨s', hrun', hasked', hbc, hup, hd⟩ :=
    rest_of_trip hasm hslave hbus hfor.2 data_cls hparse i
  refine ⟨s', a.busFrame.payload.drop (a.request.kind.hdr - 2), ?_, hasked'.trans hasked, ?_, hup,
    hd, ?_⟩
  · unfold quietTrip
    rw [runs_append, hrun]
    exact hrun'
  · rw [hbc]
    exact hlog
  · rw [hpay]
    exact command_call a

theorem no_error_told : ¬ toldError [.sent f] := by
  rintro ⟨r, seq, ⟨polled, hmem, _⟩ | ⟨hmem, _⟩⟩
  · exact BusEv.noConfusion (List.mem_singleton.mp hmem)
  · exact BusEv.noConfusion (List.mem_singleton.mp hmem)

/-- A command that does not fit is cut on its way, and nobody is told. -/
theorem cut_command {R : Asked → Prop} (hR : R a) (hacc : a.accepted) (hfor : a.forwarded me)
    (hnot : ¬ a.fits) : ¬ TripHolds me R := by
  intro h
  obtain ⟨s, exec, hrun, hasked, hlog, _, hd, hcall⟩ :=
    quiet_trip hacc hfor false 0 ⟨0, false, [], []⟩
  have hall : ∀ b ∈ s.asked, R b := by
    intro b hb
    rw [hasked, List.mem_singleton] at hb
    exact hb ▸ hR
  rcases h.exact _ s hrun hall _ _ _ hd with ⟨b, hb, _, hgiven, _⟩ | htold
  · rw [hasked, List.mem_singleton] at hb
    subst hb
    rw [hcall] at hgiven
    exact call_of_not_fits hnot (congrArg ShellCall.args hgiven)
  · rw [hlog] at htold
    exact no_error_told htold

/-- The slave gets the requests of the host whole, or the host is told, exactly when
each request that is forwarded fits into a frame of the bus behind its opcode. -/
theorem commands_arrive_whole (me : UInt8) (R : Asked → Prop) :
    TripHolds me R ↔ ∀ a, R a → a.accepted → a.forwarded me → a.fits := by
  constructor
  · intro h a hR hacc hfor
    by_contra hnot
    exact cut_command hR hacc hfor hnot h
  · intro h
    refine ⟨fun ops s hrun hall f exec body hd => Or.inl ?_, fun a seq polled i hR hacc hfor => ?_⟩
    · obtain ⟨a, ha, hacc, hfor, hup, hcall⟩ := dispatched_call hrun hd
      refine ⟨a, ha, hfor, ?_, hup⟩
      rw [hcall, call_of_fits (h a (hall a ha) hacc hfor)]
      rfl
    · obtain ⟨s, exec, hrun, _, _, hup, hd, hcall⟩ := quiet_trip hacc hfor polled seq i
      refine ⟨s, _, exec, _, hrun, hd, ?_, 0, hup⟩
      rw [hcall, call_of_fits (h a hR hacc hfor)]
      rfl

def CMD_RS485_SEND_FRAME : UInt16 := 0x0151

/-- The slave at address 5 is to send a frame of 109 bytes to the node 9. -/
def longSend : Asked where
  request :=
    { kind := .busExec 1000
      dest_addr := 5
      command_id := CMD_RS485_SEND_FRAME
      args := [9, 5, 2, 1] ++ List.replicate 109 0x55
      len_lt := by decide }
  rid := 1

theorem long_send_is_cut : ¬ ∀ me R, TripHolds me R := by
  intro h
  have hacc : longSend.accepted := by decide
  have hfor : longSend.forwarded 5 := ⟨by decide, by decide⟩
  have hnot : ¬ longSend.fits := by
    unfold Asked.fits
    decide
  exact cut_command (R := fun a => a = longSend) rfl hacc hfor hnot (h 5 _)

end motioncore.system
