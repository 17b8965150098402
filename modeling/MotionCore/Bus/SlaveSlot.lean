-- The RS-485 slave (`main.c`, ROLE_SLAVE): the interrupt answers the frames
-- of the bus, and the main loop executes the claimed command. A call of
-- `rs485_slave_poll` is two steps here, so that frames and clock ticks can
-- fall between the pickup of a command and the arming of its reply. A command is
-- claimed, picked up, dispatched, and then freed by its own reply or by its own
-- watchdog, in every run in which the watchdog does not fire over a command that
-- the main loop has not yet picked up.
import MotionCore.Bus.Frame
import MotionCore.Lib.Runs

open motioncore.bytes motioncore.machine

namespace motioncore.bus

def RS485_SHELL_EXEC_HEADER_LEN : Nat := 4

/-- The slack of the BUSY watchdog over the exec timeout. -/
def SLAVE_ABORT_MARGIN_MS : Nat := 1000

/-! ## The state -/

structure Slave where
  summary : UInt8
  /-- A command is claimed, and is held until its reply ships. -/
  busy : Bool
  /-- The claimed command awaits the main loop. -/
  work_fresh : Bool
  /-- The claimed command, from the interrupt to the main loop. -/
  input : Rs485Frame
  reply_ready : Bool
  /-- When the main loop picked up the last command, by the 32-bit counter. -/
  claim_ms : Nat
  exec_to : UInt16
  /-- Buffer 1: the reply of the command. -/
  reply : List UInt8
  /-- Buffer 2: the interlock message. -/
  il_msg : List UInt8
  il_msg_fresh : Bool
  prev_summary : UInt8
  /-- The frame and the header length of the call that now executes. -/
  executing : Option (Rs485Frame × Nat)
  clock : Nat
deriving DecidableEq

def Slave.boot : Slave where
  summary := 0
  busy := false
  work_fresh := false
  input := Rs485Frame.zero
  reply_ready := false
  claim_ms := 0
  exec_to := 0
  reply := []
  il_msg := []
  il_msg_fresh := false
  prev_summary := 0
  executing := none
  clock := 0

inductive SlaveEv where
  | claimed (f : Rs485Frame)
  | refused (f : Rs485Frame)
  | pickedUp (f : Rs485Frame) (exec_timeout : UInt16) (t : Nat)
  /-- The shell is given `exec`, and answers with `body`. -/
  | dispatched (f : Rs485Frame) (exec body : List UInt8)
  | shipped (reply : List UInt8)
  | expired (t : Nat)
  | sent (f : Rs485Frame)
deriving DecidableEq

/-! ## The interrupt -/

/-- Where the request starts in a command frame, and the exec timeout of the
command. `none` when the payload is no command. -/
def slaveCmdParse (p : List UInt8) : Option (Nat × UInt16) :=
  if p.length < 2 then none
  else if opcodeOf p = OP_BUS_EXEC then
    if p.length < 4 + RS485_SHELL_EXEC_HEADER_LEN then none
    else some (4, le16 (p.getD 2 0) (p.getD 3 0))
  else if opcodeOf p = OP_SHELL_EXEC then
    if p.length < 2 + RS485_SHELL_EXEC_HEADER_LEN then none
    else some (2, 0)
  else none

/-- `rs485_tx_async_start` shows a frame on the wire when no other transmit is active. -/
def txAsync (txFree : Bool) (f : Rs485Frame) : List SlaveEv := if txFree then [.sent f] else []

def slaveRxIsr (me : UInt8) (s : Slave) (f : Rs485Frame) (txFree : Bool) : Slave × List SlaveEv :=
  let answer (type : UInt8) (payload : List UInt8) : List SlaveEv :=
    txAsync txFree (txFrame RS485_ADDR_MASTER me type f.seq payload)
  if f.cls = RS485_FT_POLL then
    if s.il_msg_fresh then
      -- The safety message goes first, and stays fresh when the transmit is busy.
      ({ s with il_msg_fresh := !txFree }, answer RS485_FT_DATA s.il_msg)
    else if s.reply_ready then
      if txFree then
        ({ s with reply_ready := false, busy := false },
          answer RS485_FT_DATA s.reply ++ [.shipped s.reply])
      else (s, [])
    else (s, answer RS485_FT_NO_MESSAGE [s.summary])
  else if f.cls = RS485_FT_DATA then
    match slaveCmdParse f.payload with
    | none => (s, [])
    | some (hdr, _) =>
      let rid := [f.payload.getD hdr 0, f.payload.getD (hdr + 1) 0]
      -- The result of the transmit is not looked at, here or for the NAK.
      if !s.busy then
        ({ s with input := f, busy := true, work_fresh := true },
          answer RS485_FT_ACK rid ++ [.claimed f])
      else (s, answer RS485_FT_NAK rid ++ [.refused f])
  else (s, [])

/-! ## The main loop -/

/-- What one call of `rs485_slave_poll` reads from the rest of the firmware. -/
structure LoopInput where
  /-- `interlock_summary_flags`. -/
  summary : UInt8
  /-- `interlock_take_repush`. -/
  repush : Bool
  /-- The bytes of `interlock_build_status_v2`. -/
  status : List UInt8
  /-- The reply of `shell_dispatch_payload`, when a command is executed. -/
  body : List UInt8
deriving DecidableEq

/-- The interlock message is filled anew on an edge of the summary, or on a repush. -/
def primeSummary (s : Slave) (i : LoopInput) : Slave :=
  let edge := i.summary != s.prev_summary
  let s := { s with summary := i.summary, prev_summary := i.summary }
  if edge || i.repush then
    { s with
      il_msg := withOpcode OP_BUS_INTERLOCK_MSG (i.status.take (RS485_PAYLOAD_MAX - 2))
      il_msg_fresh := true }
  else s

/-- The BUSY watchdog fires. It reads the record of the last pickup. -/
def Slave.overruns (s : Slave) : Bool :=
  s.busy && decide (0 < s.exec_to.toNat) &&
    decide (s.exec_to.toNat + SLAVE_ABORT_MARGIN_MS < since (millis s.clock) s.claim_ms)

def busyWatchdog (s : Slave) : Slave × List SlaveEv :=
  if s.overruns then
    ({ s with busy := false, work_fresh := false, reply_ready := false, exec_to := 0 },
      [.expired s.clock])
  else (s, [])

/-- The main loop takes the claimed command and stamps the record of its pickup. -/
def pickup (s : Slave) : Slave × List SlaveEv :=
  if s.work_fresh then
    let s := { s with work_fresh := false }
    match slaveCmdParse s.input.payload with
    | none => ({ s with busy := false }, [])
    | some (hdr, exec_timeout) =>
      ({ s with
          claim_ms := millis s.clock
          exec_to := exec_timeout
          executing := some (s.input, hdr) },
        [.pickedUp s.input exec_timeout s.clock])
  else (s, [])

/-- The shell answers, and its reply is armed for the interrupt. -/
def armReply (s : Slave) (f : Rs485Frame) (hdr : Nat) (body : List UInt8) : Slave × List SlaveEv :=
  ({ s with
      reply := withOpcode OP_SHELL_REPLY (body.take (RS485_PAYLOAD_MAX - 2))
      reply_ready := true
      executing := none },
    [.dispatched f (f.payload.drop hdr) body])

/-- The next half of `rs485_slave_poll`. -/
def rs485SlavePoll (s : Slave) (i : LoopInput) : Slave × List SlaveEv :=
  match s.executing with
  | some (f, hdr) => armReply s f hdr i.body
  | none =>
    let (s, e₁) := busyWatchdog (primeSummary s i)
    let (s, e₂) := pickup s
    (s, e₁ ++ e₂)

/-! ## The slave as a machine -/

inductive SlaveIn where
  | rx (f : Rs485Frame) (txFree : Bool)
  | loop (i : LoopInput)
  | tick (ms : Nat)
deriving DecidableEq

def slaveStep (me : UInt8) (s : Slave) : SlaveIn → Slave × List SlaveEv
  | .rx f txFree => slaveRxIsr me s f txFree
  | .loop i => rs485SlavePoll s i
  | .tick ms => ({ s with clock := s.clock + ms }, [])

/-! ## The life of a command -/

/-- Where the one command of the slave is. -/
inductive SlotLife where
  | idle
  | claimed (f : Rs485Frame)
  | running (f : Rs485Frame) (t : Nat)
  | executed (f : Rs485Frame) (t : Nat) (reply : List UInt8)
deriving DecidableEq

/-- The exec timeout that a command frame carries, and 0 for every other frame. -/
def execTimeoutOf (f : Rs485Frame) : UInt16 := ((slaveCmdParse f.payload).map (·.2)).getD 0

/-- The request inside a command frame: its id, its command and the arguments. -/
def requestOf (f : Rs485Frame) : List UInt8 :=
  f.payload.drop (((slaveCmdParse f.payload).map (·.1)).getD 0)

/-- The reply frame of a command that the shell answered with `body`. -/
def replyOf (body : List UInt8) : List UInt8 :=
  withOpcode OP_SHELL_REPLY (body.take (RS485_PAYLOAD_MAX - 2))

/-- The one event that each stage of a life waits for. A command is refused
only while another is held, and a watchdog frees the slot only when the exec
timeout of that same command has passed since its own pickup. -/
def slotLife : SlotLife → SlaveEv → Option SlotLife
  | .idle, .claimed f => some (.claimed f)
  | .claimed f, .pickedUp g exec_timeout t =>
    if g = f ∧ exec_timeout = execTimeoutOf f then some (.running f t) else none
  | .running f t, .dispatched g exec body =>
    if g = f ∧ exec = requestOf f then some (.executed f t (replyOf body)) else none
  | .executed _ _ reply, .shipped sent => if sent = reply then some .idle else none
  | .executed f t _, .expired now =>
    if 0 < (execTimeoutOf f).toNat ∧ t + (execTimeoutOf f).toNat + SLAVE_ABORT_MARGIN_MS < now then
      some .idle
    else none
  | .idle, .refused _ => none
  | l, .refused _ => some l
  | l, .sent _ => some l
  | _, _ => none

/-- The command that is claimed and not yet dispatched. -/
def SlotLife.waiting : SlotLife → List Rs485Frame
  | .claimed f => [f]
  | .running f _ => [f]
  | _ => []

def claimedOf (log : List SlaveEv) : List Rs485Frame :=
  log.filterMap fun e => match e with | .claimed f => some f | _ => none

def dispatchedOf (log : List SlaveEv) : List Rs485Frame :=
  log.filterMap fun e => match e with | .dispatched f _ _ => some f | _ => none

@[simp] theorem claimedOf_append (a b : List SlaveEv) :
    claimedOf (a ++ b) = claimedOf a ++ claimedOf b := List.filterMap_append

@[simp] theorem dispatchedOf_append (a b : List SlaveEv) :
    dispatchedOf (a ++ b) = dispatchedOf a ++ dispatchedOf b := List.filterMap_append

variable {l : SlotLife}

/-- Along one life a claim adds to what waits, and a dispatch takes it away. -/
theorem slotLife_waiting {l' : SlotLife} {e : SlaveEv} (h : slotLife l e = some l') :
    l.waiting ++ claimedOf [e] = dispatchedOf [e] ++ l'.waiting := by
  cases l <;> cases e <;> simp only [slotLife, reduceCtorEq, Option.ite_none_right_eq_some,
    Option.some.injEq] at h
  case running.dispatched f t g exec body =>
    obtain ⟨⟨rfl, -⟩, rfl⟩ := h
    rfl
  case claimed.pickedUp =>
    obtain ⟨-, rfl⟩ := h
    rfl
  case executed.shipped =>
    obtain ⟨-, rfl⟩ := h
    rfl
  case executed.expired =>
    obtain ⟨-, rfl⟩ := h
    rfl
  all_goals
    subst h
    rfl

/-- Over a whole log: what was claimed is what was dispatched, in the same
order and each once, and then the one command that still waits. -/
theorem claimed_eq_dispatched {l' : SlotLife} {log : List SlaveEv}
    (h : runs slotLife l log = some l') :
    l.waiting ++ claimedOf log = dispatchedOf log ++ l'.waiting := by
  induction log generalizing l with
  | nil =>
    cases h
    simp [claimedOf, dispatchedOf]
  | cons e log ih =>
    simp only [runs_cons, Option.bind_eq_some_iff] at h
    obtain ⟨m, hm, h⟩ := h
    calc l.waiting ++ claimedOf (e :: log)
        = (l.waiting ++ claimedOf [e]) ++ claimedOf log := by
          rw [List.append_assoc, ← claimedOf_append]
          rfl
      _ = dispatchedOf [e] ++ (m.waiting ++ claimedOf log) := by
          rw [slotLife_waiting hm, List.append_assoc]
      _ = dispatchedOf (e :: log) ++ l'.waiting := by
          rw [ih h, ← List.append_assoc, ← dispatchedOf_append]
          rfl

/-! ## The slave follows the life -/

/-- The flags of the slave stand for one stage of a life. -/
inductive Follows (s : Slave) : SlotLife → Prop where
  | idle (hbusy : s.busy = false) (hwork : s.work_fresh = false) (hready : s.reply_ready = false)
      (hexec : s.executing = none) : Follows s .idle
  | claimed {f : Rs485Frame} (hbusy : s.busy = true) (hwork : s.work_fresh = true)
      (hready : s.reply_ready = false) (hexec : s.executing = none) (hin : s.input = f)
      (hcmd : (slaveCmdParse f.payload).isSome) : Follows s (.claimed f)
  | running {f : Rs485Frame} {hdr t : Nat} (hbusy : s.busy = true) (hwork : s.work_fresh = false)
      (hready : s.reply_ready = false) (hexec : s.executing = some (f, hdr))
      (hcmd : slaveCmdParse f.payload = some (hdr, s.exec_to)) (hclaim : s.claim_ms = millis t)
      (ht : t ≤ s.clock) : Follows s (.running f t)
  | executed {f : Rs485Frame} {t : Nat} {reply : List UInt8} (hbusy : s.busy = true)
      (hwork : s.work_fresh = false) (hready : s.reply_ready = true) (hexec : s.executing = none)
      (hto : s.exec_to = execTimeoutOf f) (hclaim : s.claim_ms = millis t) (ht : t ≤ s.clock)
      (hreply : s.reply = reply) : Follows s (.executed f t reply)

/-- The watchdog does not fire over a command that still awaits its pickup. -/
def Timely (s : Slave) : SlaveIn → Prop
  | .loop _ => s.executing = none → s.work_fresh = true → s.overruns = false
  | _ => True

/-- The inputs that run the main loop. -/
def loops (is : List SlaveIn) : Nat :=
  is.countP fun i => match i with | .loop _ => true | _ => false

/-- How many halves of `rs485_slave_poll` a waiting command is from its dispatch. -/
def SlotLife.halves : SlotLife → Nat
  | .claimed _ => 2
  | .running _ _ => 1
  | _ => 0

/-! ### The interrupt -/

@[simp] theorem slotLife_sent (l : SlotLife) (f : Rs485Frame) : slotLife l (.sent f) = some l := by
  cases l <;> rfl

@[simp] theorem runs_txAsync (l : SlotLife) (txFree : Bool) (f : Rs485Frame)
    (es : List SlaveEv) : runs slotLife l (txAsync txFree f ++ es) = runs slotLife l es := by
  cases txFree <;> simp [txAsync]

@[simp] theorem runs_txAsync_nil (l : SlotLife) (txFree : Bool) (f : Rs485Frame) :
    runs slotLife l (txAsync txFree f) = some l := by
  simpa using runs_txAsync l txFree f []

variable {s : Slave}

/-- The interlock buffer is no part of the life of a command. -/
theorem Follows.il_msg (h : Follows s l) (sum prev : UInt8) (msg : List UInt8) (fresh : Bool) :
    Follows { s with summary := sum, prev_summary := prev, il_msg := msg, il_msg_fresh := fresh }
      l := by
  cases h with
  | idle h1 h2 h3 h4 => exact .idle h1 h2 h3 h4
  | claimed h1 h2 h3 h4 h5 h6 => exact .claimed h1 h2 h3 h4 h5 h6
  | running h1 h2 h3 h4 h5 h6 h7 => exact .running h1 h2 h3 h4 h5 h6 h7
  | executed h1 h2 h3 h4 h5 h6 h7 h8 => exact .executed h1 h2 h3 h4 h5 h6 h7 h8

theorem Follows.busy_iff (h : Follows s l) : s.busy = true ↔ l ≠ .idle := by
  cases h with
  | idle h1 => simp [h1]
  | claimed h1 => simp [h1]
  | running h1 => simp [h1]
  | executed h1 => simp [h1]

theorem slotLife_refused (f : Rs485Frame) (h : l ≠ .idle) : slotLife l (.refused f) = some l := by
  cases l with
  | idle => exact absurd rfl h
  | claimed => rfl
  | running => rfl
  | executed => rfl

variable (me : UInt8)

/-- The interrupt never executes a command. -/
theorem isr_dispatched (s : Slave) (f : Rs485Frame) (txFree : Bool) :
    dispatchedOf (slaveRxIsr me s f txFree).2 = [] := by
  have hsent : ∀ g, dispatchedOf (txAsync txFree g) = [] := by
    intro g
    cases txFree <;> rfl
  unfold slaveRxIsr
  dsimp only
  repeat' split
  all_goals simp [hsent]
  all_goals rfl

theorem isr_follows (h : Follows s l) (f : Rs485Frame) (txFree : Bool) :
    ∃ l', runs slotLife l (slaveRxIsr me s f txFree).2 = some l' ∧
      Follows (slaveRxIsr me s f txFree).1 l' ∧ (l.waiting ≠ [] → l' = l) := by
  unfold slaveRxIsr
  split
  · split
    · -- The interlock message: no flag of the slot changes.
      exact ⟨l, by simp, h.il_msg s.summary s.prev_summary s.il_msg _, fun _ => rfl⟩
    split
    · rename_i hready
      cases h with
      | idle _ _ h3 _ => simp [h3] at hready
      | claimed _ _ h3 => simp [h3] at hready
      | running _ _ h3 => simp [h3] at hready
      | executed h1 h2 h3 h4 h5 h6 h7 h8 =>
        cases txFree with
        | false => exact ⟨_, rfl, .executed h1 h2 h3 h4 h5 h6 h7 h8, fun _ => rfl⟩
        | true =>
          exact ⟨.idle, by simp [slotLife, h8], .idle rfl h2 rfl h4, by simp [SlotLife.waiting]⟩
    · exact ⟨l, by simp, h, fun _ => rfl⟩
  split
  · split
    · exact ⟨l, rfl, h, fun _ => rfl⟩
    · rename_i hdr exec_timeout hcmd
      by_cases hbusy : s.busy = true
      · -- A slot that holds a command refuses the next.
        have hl := h.busy_iff.mp hbusy
        exact ⟨l, by simp [hbusy, slotLife_refused f hl], by simpa [hbusy] using h, fun _ => rfl⟩
      · cases h with
        | idle h1 h2 h3 h4 =>
          refine ⟨.claimed f, by simp [h1, slotLife], ?_, by simp [SlotLife.waiting]⟩
          simp only [h1, Bool.not_false, if_true]
          exact .claimed rfl rfl h3 h4 rfl (by simp [hcmd])
        | claimed h1 => exact absurd h1 hbusy
        | running h1 => exact absurd h1 hbusy
        | executed h1 => exact absurd h1 hbusy
  · exact ⟨l, rfl, h, fun _ => rfl⟩

/-! ### The main loop -/

theorem primeSummary_follows (h : Follows s l) (i : LoopInput) : Follows (primeSummary s i) l := by
  unfold primeSummary
  dsimp only
  split
  · exact h.il_msg _ _ _ _
  · exact h.il_msg _ _ s.il_msg s.il_msg_fresh

@[simp] theorem primeSummary_overruns (s : Slave) (i : LoopInput) :
    (primeSummary s i).overruns = s.overruns := by
  unfold primeSummary
  dsimp only
  split <;> rfl

@[simp] theorem primeSummary_work_fresh (s : Slave) (i : LoopInput) :
    (primeSummary s i).work_fresh = s.work_fresh := by
  unfold primeSummary
  dsimp only
  split <;> rfl

@[simp] theorem primeSummary_executing (s : Slave) (i : LoopInput) :
    (primeSummary s i).executing = s.executing := by
  unfold primeSummary
  dsimp only
  split <;> rfl

/-- A watchdog that fires over an executed command has waited for the exec
timeout and the margin of that very command. -/
theorem overruns_elapsed {t : Nat} (hclaim : s.claim_ms = millis t) (ht : t ≤ s.clock)
    (h : s.overruns = true) :
    0 < s.exec_to.toNat ∧ t + s.exec_to.toNat + SLAVE_ABORT_MARGIN_MS < s.clock := by
  simp only [Slave.overruns, Bool.and_eq_true, decide_eq_true_eq, hclaim] at h
  have := since_millis_le ht
  omega

@[simp] theorem busyWatchdog_dispatched (s : Slave) : dispatchedOf (busyWatchdog s).2 = [] := by
  unfold busyWatchdog
  split <;> rfl

@[simp] theorem pickup_dispatched (s : Slave) : dispatchedOf (pickup s).2 = [] := by
  unfold pickup
  dsimp only
  split
  · split <;> rfl
  · rfl

theorem enter_follows (h : Follows s l) (hexec : s.executing = none)
    (hok : s.work_fresh = true → s.overruns = false) :
    ∃ l', runs slotLife l ((busyWatchdog s).2 ++ (pickup (busyWatchdog s).1).2) = some l' ∧
      Follows (pickup (busyWatchdog s).1).1 l' ∧
      (∀ f, l = .claimed f → l' = .running f s.clock) := by
  cases h with
  | idle h1 h2 h3 h4 =>
    have hno : s.overruns = false := by simp [Slave.overruns, h1]
    refine ⟨.idle, ?_, ?_, by simp⟩
    · simp [busyWatchdog, pickup, hno, h2]
    · simpa [busyWatchdog, pickup, hno, h2] using .idle h1 h2 h3 h4
  | @claimed f h1 h2 h3 h4 h5 h6 =>
    have hno := hok h2
    obtain ⟨⟨hdr, exec_timeout⟩, hcmd⟩ := Option.isSome_iff_exists.mp h6
    subst h5
    refine ⟨.running s.input s.clock, ?_, ?_, by simp⟩
    · simp [busyWatchdog, pickup, hno, h2, hcmd, slotLife, execTimeoutOf]
    · simp only [busyWatchdog, pickup, hno, h2, hcmd, Bool.false_eq_true, if_false, if_true]
      exact .running h1 rfl h3 rfl hcmd rfl (Nat.le_refl _)
  | running _ _ _ h4 => simp [h4] at hexec
  | @executed f t reply h1 h2 h3 h4 h5 h6 h7 h8 =>
    by_cases ho : s.overruns = true
    · have hel := overruns_elapsed h6 h7 ho
      rw [h5] at hel
      refine ⟨.idle, ?_, ?_, by simp⟩
      · simp [busyWatchdog, pickup, ho, slotLife, hel]
      · simpa [busyWatchdog, pickup, ho] using .idle rfl rfl rfl h4
    · refine ⟨.executed f t reply, ?_, ?_, by simp⟩
      · simp [busyWatchdog, pickup, ho, h2]
      · simpa [busyWatchdog, pickup, ho, h2] using .executed h1 h2 h3 h4 h5 h6 h7 h8

theorem loop_follows (h : Follows s l) (i : LoopInput) (hok : Timely s (.loop i)) :
    ∃ l', runs slotLife l (rs485SlavePoll s i).2 = some l' ∧ Follows (rs485SlavePoll s i).1 l' ∧
      (l.waiting ≠ [] →
        dispatchedOf (rs485SlavePoll s i).2 = l.waiting ∨
          dispatchedOf (rs485SlavePoll s i).2 = [] ∧ l'.halves < l.halves) := by
  unfold rs485SlavePoll
  split
  · rename_i f hdr hexec
    cases h with
    | idle _ _ _ h4 => simp [h4] at hexec
    | claimed _ _ _ h4 => simp [h4] at hexec
    | executed _ _ _ h4 => simp [h4] at hexec
    | @running g hdr' t h1 h2 h3 h4 h5 h6 h7 =>
      obtain ⟨rfl, rfl⟩ : g = f ∧ hdr' = hdr := by simpa [h4] using hexec
      refine ⟨.executed g t (replyOf i.body), ?_, ?_, fun _ => .inl rfl⟩
      · simp [armReply, slotLife, requestOf, h5]
      · exact .executed h1 h2 rfl rfl (by simp [execTimeoutOf, h5, armReply]) h6 h7 rfl
  · rename_i hexec
    have h' := primeSummary_follows h i
    obtain ⟨l', hrun, hfol, hclaimed⟩ := enter_follows h' (by simp [hexec])
      (by simpa using hok hexec)
    refine ⟨l', hrun, hfol, fun hw => .inr ⟨by simp, ?_⟩⟩
    cases h with
    | idle => exact absurd rfl hw
    | claimed =>
      rw [hclaimed _ rfl]
      simp only [SlotLife.halves]
      omega
    | running _ _ _ h4 => simp [h4] at hexec
    | executed => exact absurd rfl hw

theorem step_follows (h : Follows s l) (i : SlaveIn) (hok : Timely s i) :
    ∃ l', runs slotLife l (slaveStep me s i).2 = some l' ∧ Follows (slaveStep me s i).1 l' ∧
      (l.waiting ≠ [] →
        dispatchedOf (slaveStep me s i).2 = l.waiting ∨
          dispatchedOf (slaveStep me s i).2 = [] ∧ l'.halves + loops [i] ≤ l.halves) := by
  cases i with
  | rx f txFree =>
    obtain ⟨l', hrun, hfol, hsame⟩ := isr_follows me h f txFree
    refine ⟨l', hrun, hfol, fun hw => .inr ⟨isr_dispatched me s f txFree, ?_⟩⟩
    rw [hsame hw]
    exact Nat.le_refl _
  | loop i => exact loop_follows h i hok
  | tick ms =>
    refine ⟨l, rfl, ?_, fun _ => .inr ⟨rfl, Nat.le_refl _⟩⟩
    cases h with
    | idle h1 h2 h3 h4 => exact .idle h1 h2 h3 h4
    | claimed h1 h2 h3 h4 h5 h6 => exact .claimed h1 h2 h3 h4 h5 h6
    | running h1 h2 h3 h4 h5 h6 h7 => exact .running h1 h2 h3 h4 h5 h6 (Nat.le_add_right_of_le h7)
    | executed h1 h2 h3 h4 h5 h6 h7 h8 =>
      exact .executed h1 h2 h3 h4 h5 h6 (Nat.le_add_right_of_le h7) h8

instance : ∀ s i, Decidable (Timely s i)
  | s, .loop _ => inferInstanceAs
    (Decidable (s.executing = none → s.work_fresh = true → s.overruns = false))
  | _, .rx _ _ => isTrue trivial
  | _, .tick _ => isTrue trivial

/-! ## Every run -/

/-- The events of a run of the slave from its boot. -/
def slaveLog (me : UInt8) (is : List SlaveIn) : List SlaveEv :=
  (emits (slaveStep me) .boot is).2

/-- A command that waits is dispatched as soon as the main loop has come round. -/
theorem waiting_dispatched {is : List SlaveIn} (h : Follows s l)
    (hok : EmitMeets (slaveStep me) Timely s is) (hw : l.waiting ≠ []) (hn : l.halves ≤ loops is) :
    l.waiting <+: dispatchedOf (emits (slaveStep me) s is).2 := by
  induction is generalizing s l with
  | nil => cases l <;> simp_all [SlotLife.waiting, SlotLife.halves, loops]
  | cons i is ih =>
    simp only [emits, dispatchedOf_append]
    obtain ⟨l', hrun, hfol, hstep⟩ := step_follows me h i hok.1
    rcases hstep hw with hd | ⟨hd, hle⟩
    · rw [hd]
      exact List.prefix_append _ _
    · -- No dispatch yet: the same command still waits, and one half less is to go.
      have hsame : l.waiting ++ claimedOf (slaveStep me s i).2 = l'.waiting := by
        simpa [hd] using claimed_eq_dispatched hrun
      have hloops : loops (i :: is) = loops [i] + loops is := by
        simp only [loops, ← List.countP_append, List.singleton_append]
      have hw' : l'.waiting ≠ [] := by
        rw [← hsame]
        simp [hw]
      rw [hd, List.nil_append]
      exact (hsame ▸ List.prefix_append _ _).trans (ih hfol hok.2 hw' (by omega))

/-- What the slave owes to each command that it claims. -/
structure ServesItsClaims (me : UInt8) (is : List SlaveIn) : Prop where
  /-- The log is one life after another: each command is picked up and
  dispatched, and is freed by its own reply or by its own watchdog. -/
  lives : ∃ l, runs slotLife .idle (slaveLog me is) = some l
  /-- Each claimed command is dispatched once, in order, but for the last one. -/
  once : ∃ waiting : List Rs485Frame, waiting.length ≤ 1 ∧
    claimedOf (slaveLog me is) = dispatchedOf (slaveLog me is) ++ waiting
  /-- Two halves of `rs485_slave_poll` after a claim, the command is dispatched. -/
  soon : ∀ is₁ is₂, is = is₁ ++ is₂ → 2 ≤ loops is₂ →
    claimedOf (slaveLog me is₁) <+: dispatchedOf (slaveLog me is)

theorem boot_follows : Follows .boot .idle := .idle rfl rfl rfl rfl

/-- In each run in which the watchdog does not fire over a command that still
awaits its pickup, the slave serves every command it claims. -/
theorem timely_slave_serves_its_claims (me : UInt8) (is : List SlaveIn)
    (hok : EmitMeets (slaveStep me) Timely .boot is) : ServesItsClaims me is := by
  have hsim : ∀ s i l, Follows s l → Timely s i →
      ∃ l', runs slotLife l (slaveStep me s i).2 = some l' ∧ Follows (slaveStep me s i).1 l' := by
    intro s i l h hok
    obtain ⟨l', hrun, hfol, -⟩ := step_follows me h i hok
    exact ⟨l', hrun, hfol⟩
  obtain ⟨l, hl, -⟩ := simulates hsim boot_follows hok
  refine ⟨⟨l, hl⟩, ⟨l.waiting, ?_, claimed_eq_dispatched hl⟩, ?_⟩
  · cases l <;> simp [SlotLife.waiting]
  rintro is₁ is₂ rfl hn
  obtain ⟨hok₁, hok₂⟩ := EmitMeets.append hok
  obtain ⟨l₁, hl₁, hfol⟩ := simulates hsim boot_follows hok₁
  have hclaimed : claimedOf (slaveLog me is₁) = dispatchedOf (slaveLog me is₁) ++ l₁.waiting :=
    claimed_eq_dispatched hl₁
  have hlog : dispatchedOf (slaveLog me (is₁ ++ is₂)) = dispatchedOf (slaveLog me is₁) ++
      dispatchedOf (emits (slaveStep me) (emits (slaveStep me) .boot is₁).1 is₂).2 := by
    simp only [slaveLog, emits_append, dispatchedOf_append]
  rw [hlog, hclaimed]
  by_cases hw : l₁.waiting = []
  · rw [hw, List.append_nil]
    exact List.prefix_append _ _
  · have hhalves : l₁.halves ≤ loops is₂ := by
      cases l₁ <;> simp only [SlotLife.halves] <;> omega
    exact (List.prefix_append_right_inj _).mpr (waiting_dispatched me hfol hok₂ hw hhalves)

/-! ## The record of an earlier command -/

/-- A command for the shell of the slave at address 5, with an exec timeout of
10 ms, a request id and the id of the command. -/
def execFrame (rid : UInt8) : Rs485Frame :=
  txFrame 5 RS485_ADDR_MASTER RS485_FT_DATA 0 (withOpcode OP_BUS_EXEC [10, 0, rid, 0, 7, 0])

def pollFrame : Rs485Frame := txFrame 5 RS485_ADDR_MASTER RS485_FT_POLL 0 []

def quiet : LoopInput := { summary := 0, repush := false, status := [], body := [1, 0, 0] }

/-- A first command runs and its reply ships. After two idle seconds a second
command is claimed, and the main loop comes round twice. -/
def claimAfterGap : List SlaveIn :=
  [.rx (execFrame 1) true, .loop quiet, .loop quiet, .rx pollFrame true, .tick 2000,
    .rx (execFrame 2) true, .loop quiet, .loop quiet]

/-- The slave ACKs the second command, and its watchdog then drops it by the
record of the first one. -/
theorem claim_after_gap_is_dropped :
    ¬ ∀ (me : UInt8) (is : List SlaveIn), ServesItsClaims me is := by
  intro h
  have hsoon := (h 5 claimAfterGap).soon (claimAfterGap.take 6) (claimAfterGap.drop 6) rfl
    (by decide)
  exact absurd hsoon (by decide)

/-- The same two commands, with the second one at once after the first. -/
theorem claim_without_gap_is_served :
    ServesItsClaims 5 (claimAfterGap.filter fun i => decide (i ≠ .tick 2000)) :=
  timely_slave_serves_its_claims 5 _ (by decide)

end motioncore.bus
