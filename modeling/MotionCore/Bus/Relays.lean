-- Each reply, interlock message, ACK and NAK of a polled slave is relayed once,
-- or still waits: the law counts the frames that were heard, the relays, and
-- what the buffers hold. A second reply finds the buffer of the first one full
-- when the USB ring has no room, as the last section shows.
import MotionCore.Bus.PollEngine
import MotionCore.Lib.Trace

open motioncore.bytes motioncore.machine motioncore.trace

namespace motioncore.bus

/-! ## The law -/

/-- What the host has to get for a frame of a slave. -/
def relayOf (f : Rs485Frame) : Option Relay :=
  if f.isAck then some (ackRelay f.src (ackRid f) (f.cls == RS485_FT_NAK))
  else if f.isReply then some (replyRelay f)
  else none

/-- The relays that the bus controller owes to the host. -/
def owed (log : List BusEv) : List Relay :=
  log.filterMap fun e => match e with
    | .heard f => relayOf f
    | _ => none

/-- The relays of the frames of polled slaves. -/
def relayed (log : List BusEv) : List Relay :=
  log.filterMap fun e => match e with
    | .relayed r _ true => some r
    | _ => none

def Heard.relay (h : Heard) : Option Relay := if h.polled then relayOf h.frame else none

def CmdAck.relay (a : CmdAck) : Option Relay :=
  if a.polled then some (ackRelay a.addr a.reqid a.is_nak) else none

/-- The relays that wait in the buffers: one of the bridge, one reply, one ACK or NAK. -/
def staged (c : BusController) : List Relay :=
  ((c.bridge_reply.bind Heard.relay).toList ++ (c.cmd_reply.bind Heard.relay).toList) ++
    (c.cmd_ack.bind CmdAck.relay).toList

/-- The relays that wait in the receive ring. -/
def unread (c : BusController) : List Relay := c.rx.filterMap Heard.relay

structure RelaysEach (c : BusController) : Prop where
  /-- Each frame is relayed once, or waits. -/
  once : (owed c.log).Perm (relayed c.log ++ (staged c ++ unread c))
  /-- With room in the USB ring nothing stays in the buffers of the poll engine. -/
  drains : staged (busDrainCmdAck (busDrainCmdReply c true) true) =
    (c.bridge_reply.bind Heard.relay).toList

/-! ## When no frame is discarded -/

/-- The poll engine has a place for the next frame of the ring. -/
def Placed (c : BusController) (h : Heard) : Prop :=
  h.frame.src = c.cur_addr ∧
    if c.cmd_state = .sent then h.frame.isAck = true ∧ c.cmd_ack = none
    else h.frame.isReply = true ∧ c.cmd_reply = none

/-- The step discards no frame that is owed to the host. -/
def KeepsFrames (c : BusController) : BusOp → Prop
  | .engine _ =>
    c.enabled = true →
      (c.poll_state = .idle → due c.clock c.next_ms = true → unread c = []) ∧
      (c.poll_state = .wait → ∀ h ∈ c.rx.head?, h.relay ≠ none → Placed c h)
  | .bridgePoll room =>
    c.enabled = false → c.bridge_pending = true →
      (∀ h ∈ c.bridge_reply, h.relay ≠ none → room = false →
        due c.clock c.bridge_deadline = false) ∧
      (c.bridge_reply = none → ∀ h ∈ c.rx.head?, h.relay ≠ none →
        h.frame.isReply = true ∧ h.frame.src = c.bridge_slave)
  | _ => True

instance (c : BusController) (h : Heard) : Decidable (Placed c h) :=
  inferInstanceAs (Decidable (_ ∧ ite _ _ _))

instance (c : BusController) (op : BusOp) : Decidable (KeepsFrames c op) :=
  match op with
  | .engine _ => inferInstanceAs (Decidable (_ → _ ∧ _))
  | .bridgePoll _ => inferInstanceAs (Decidable (_ → _ → _ ∧ _))
  | .hear _ | .drainEvents _ | .drainFlagged _ | .drainCmdAck _ | .drainCmdReply _
  | .drainStatusReport _ | .fromHost .. | .register .. | .unregister _ | .clearRoster | .setPoll ..
  | .pollEnable _ | .tick _ => isTrue trivial

/-! ## The invariant -/

/-- Each frame that was heard is relayed, staged or unread. -/
def Balanced (c : BusController) : Prop := ∀ r, (owed c.log).count r =
  (relayed c.log).count r + ((staged c).count r + (unread c).count r)

structure Accounts (c : BusController) : Prop where
  balanced : Balanced c
  sent : c.cmd_state = .sent → c.poll_state = .wait ∧ c.cur_addr = c.cmd_slave
  reply : ∀ h, c.cmd_reply = some h → h.frame.isReply = true
  bridge : ∀ h, c.bridge_reply = some h → h.frame.isReply = true ∧ h.frame.src = c.bridge_slave ∧
    c.bridge_pending = true

variable {c : BusController}

theorem Accounts.once (ha : Accounts c) :
    (owed c.log).Perm (relayed c.log ++ (staged c ++ unread c)) := by
  rw [List.perm_iff_count]
  intro r
  rw [List.count_append, List.count_append]
  exact ha.balanced r

/-! ## Logs and relays -/

/-- Events that are neither a frame of a polled slave nor a relay of one. -/
def BusEv.beside : BusEv → Bool
  | .heard _ => false
  | .relayed .. => false
  | _ => true

variable {new : List BusEv}

theorem owed_beside (hnew : ∀ e ∈ new, e.beside = true) (log : List BusEv) :
    owed (log ++ new) = owed log := by
  have hnone : owed new = [] := by
    apply List.filterMap_eq_nil_iff.mpr
    intro e he
    cases e with
    | heard f => exact absurd (hnew _ he) Bool.noConfusion
    | _ => rfl
  unfold owed at hnone ⊢
  rw [List.filterMap_append, hnone, List.append_nil]

theorem relayed_beside (hnew : ∀ e ∈ new, e.beside = true) (log : List BusEv) :
    relayed (log ++ new) = relayed log := by
  have hnone : relayed new = [] := by
    apply List.filterMap_eq_nil_iff.mpr
    intro e he
    cases e with
    | relayed r seq polled => exact absurd (hnew _ he) Bool.noConfusion
    | _ => rfl
  unfold relayed at hnone ⊢
  rw [List.filterMap_append, hnone, List.append_nil]

variable (log : List BusEv)

theorem owed_heard (f : Rs485Frame) :
    owed (log ++ [.heard f]) = owed log ++ (relayOf f).toList := by
  unfold owed
  rw [List.filterMap_append]
  cases hf : relayOf f with
  | none => simp [hf]
  | some r => simp [hf]

theorem owed_relayed (r : Relay) (seq : UInt8) (polled : Bool) :
    owed (log ++ [.relayed r seq polled]) = owed log := by
  unfold owed
  rw [List.filterMap_append]
  exact List.append_nil _

theorem relayed_heard (f : Rs485Frame) : relayed (log ++ [.heard f]) = relayed log := by
  unfold relayed
  rw [List.filterMap_append]
  exact List.append_nil _

theorem relayed_relayed (r : Relay) (seq : UInt8) (polled : Bool) :
    relayed (log ++ [.relayed r seq polled]) =
      relayed log ++ (if polled then some r else none).toList := by
  unfold relayed
  rw [List.filterMap_append]
  cases polled with
  | false => rfl
  | true => rfl

theorem isAck_false_of_isReply {f : Rs485Frame} (hf : f.isReply = true) : f.isAck = false := by
  have hcls : f.cls = RS485_FT_DATA := by
    unfold Rs485Frame.isReply at hf
    simp only [Bool.and_eq_true, beq_iff_eq] at hf
    exact hf.1
  unfold Rs485Frame.isAck
  rw [hcls]
  rfl

variable {h : Heard}

theorem relay_of_isReply (hf : h.frame.isReply = true) :
    h.relay = if h.polled then some (replyRelay h.frame) else none := by
  unfold Heard.relay relayOf
  rw [if_neg (Bool.eq_false_iff.mp (isAck_false_of_isReply hf)), if_pos hf]

theorem relay_of_isAck (hf : h.frame.isAck = true) : h.relay = if h.polled then
      some (ackRelay h.frame.src (ackRid h.frame) (h.frame.cls == RS485_FT_NAK)) else none := by
  unfold Heard.relay relayOf
  rw [if_pos hf]

/-! ## Changes beside the relays -/

/-- Two states that differ beside the relays, and in events beside them. -/
structure Beside (c c' : BusController) : Prop where
  rx : c'.rx = c.rx
  cmd_reply : c'.cmd_reply = c.cmd_reply
  cmd_ack : c'.cmd_ack = c.cmd_ack
  cmd_state : c'.cmd_state = c.cmd_state
  cmd_slave : c'.cmd_slave = c.cmd_slave
  poll_state : c'.poll_state = c.poll_state
  cur_addr : c'.cur_addr = c.cur_addr
  bridge_reply : c'.bridge_reply = c.bridge_reply
  bridge_slave : c'.bridge_slave = c.bridge_slave
  bridge_pending : c'.bridge_pending = c.bridge_pending
  log : ∃ new : List BusEv, c'.log = c.log ++ new ∧ ∀ e ∈ new, e.beside = true

variable {c' : BusController}

theorem balanced_of (hb : Balanced c) (hstaged : staged c' = staged c)
    (hunread : unread c' = unread c) (hlog : c'.log = c.log ++ new)
    (hnew : ∀ e ∈ new, e.beside = true) : Balanced c' := by
  intro r
  rw [hlog, owed_beside hnew, relayed_beside hnew, hstaged, hunread]
  exact hb r

theorem Accounts.beside (ha : Accounts c) (hb : Beside c c') : Accounts c' := by
  obtain ⟨new, hlog, hnew⟩ := hb.log
  have hstaged : staged c' = staged c := by
    unfold staged
    rw [hb.bridge_reply, hb.cmd_reply, hb.cmd_ack]
  have hunread : unread c' = unread c := by
    unfold unread
    rw [hb.rx]
  refine ⟨balanced_of ha.balanced hstaged hunread hlog hnew, ?_, ?_, ?_⟩
  · rw [hb.cmd_state, hb.poll_state, hb.cur_addr, hb.cmd_slave]
    exact ha.sent
  · rw [hb.cmd_reply]
    exact ha.reply
  · rw [hb.bridge_reply, hb.bridge_slave, hb.bridge_pending]
    exact ha.bridge

theorem Beside.refl (c : BusController) : Beside c c :=
  ⟨rfl, rfl, rfl, rfl, rfl, rfl, rfl, rfl, rfl, rfl, Adds.refl _⟩

theorem Beside.trans {a b : BusController} (hab : Beside a b) (hbc : Beside b c) : Beside a c := by
  exact ⟨hbc.rx.trans hab.rx, hbc.cmd_reply.trans hab.cmd_reply, hbc.cmd_ack.trans hab.cmd_ack,
    hbc.cmd_state.trans hab.cmd_state, hbc.cmd_slave.trans hab.cmd_slave,
    hbc.poll_state.trans hab.poll_state, hbc.cur_addr.trans hab.cur_addr,
    hbc.bridge_reply.trans hab.bridge_reply, hbc.bridge_slave.trans hab.bridge_slave,
    hbc.bridge_pending.trans hab.bridge_pending, Adds.trans hab.log hbc.log⟩

theorem Beside.setSlave (c : BusController) (k : Fin BUS_ROSTER_MAX) (s : BusSlave) :
    Beside c (c.setSlave k s) :=
  ⟨rfl, rfl, rfl, rfl, rfl, rfl, rfl, rfl, rfl, rfl, Adds.refl _⟩

theorem Beside.push (c : BusController) (addr : UInt8) (cmd : UInt16) (payload : List UInt8) :
    Beside c (c.push addr cmd payload) := by
  exact ⟨rfl, rfl, rfl, rfl, rfl, rfl, rfl, rfl, rfl, rfl, (Adds.refl _).snoc rfl⟩

theorem busMarkAlive_beside (c : BusController) (addr : UInt8) : Beside c (busMarkAlive c addr) := by
  unfold busMarkAlive
  split
  · exact .refl c
  · exact .setSlave c _ _

theorem busMarkMiss_beside (c : BusController) (addr : UInt8) : Beside c (busMarkMiss c addr) := by
  unfold busMarkMiss
  split
  · exact .refl c
  · exact .setSlave c _ _

theorem storeSummary_beside (c : BusController) (f : Rs485Frame) : Beside c (storeSummary c f) := by
  unfold storeSummary
  split
  · exact .refl c
  · exact .setSlave c _ _

theorem drainEventsFrom_beside (room : Bool) (c : BusController) (is : List (Fin BUS_ROSTER_MAX)) :
    Beside c (drainEventsFrom room c is) := by
  induction is generalizing c with
  | nil => exact .refl c
  | cons i is ih =>
    unfold drainEventsFrom
    split
    · exact ih c
    split
    · exact ih c
    dsimp only
    split
    · split
      · exact (Beside.push c _ _ _).trans (.setSlave _ _ _)
      · exact .refl c
    · split
      · split
        · exact (Beside.push c _ _ _).trans (.setSlave _ _ _)
        · exact .refl c
      · exact (Beside.setSlave c _ _).trans (ih _)
    · exact ih c

theorem drainFlaggedFrom_beside (room : Bool) (c : BusController)
    (is : List (Fin BUS_ROSTER_MAX)) : Beside c (drainFlaggedFrom room c is) := by
  induction is generalizing c with
  | nil => exact .refl c
  | cons i is ih =>
    unfold drainFlaggedFrom
    split
    · exact ih c
    split
    · exact ih c
    dsimp only
    split
    · exact (Beside.push c _ _ _).trans (.setSlave _ _ _)
    · exact .refl c

theorem busDrainStatusReport_beside (c : BusController) (room : Bool) :
    Beside c (busDrainStatusReport c room) := by
  have hstart : Beside c (startStatus c) := by
    unfold startStatus
    split
    · exact ⟨rfl, rfl, rfl, rfl, rfl, rfl, rfl, rfl, rfl, rfl, Adds.refl _⟩
    · exact .refl c
  have hstatus : ∀ (c : BusController) (active : Bool) (n : Nat),
      Beside c { c with status_active := active, status_cursor := n } := fun c _ _ =>
    ⟨rfl, rfl, rfl, rfl, rfl, rfl, rfl, rfl, rfl, rfl, Adds.refl _⟩
  unfold busDrainStatusReport
  split
  · exact hstatus c false c.status_cursor
  dsimp only
  split
  · exact hstart
  split
  · exact hstart.trans (hstatus _ false _)
  split
  · exact (hstart.trans (.push _ _ _ _)).trans (hstatus _ _ _)
  · exact hstart

/-! ## Frames come in -/

theorem balanced_heard (hb : Balanced c) {f : Rs485Frame} (hstaged : staged c' = staged c)
    (hunread : unread c' = unread c ++ (relayOf f).toList) (hlog : c'.log = c.log ++ [.heard f]) :
    Balanced c' := by
  intro r
  have hcount := hb r
  rw [hlog, owed_heard, relayed_heard, hstaged, hunread, List.count_append, List.count_append]
  omega

theorem hear_accounts (ha : Accounts c) (f : Rs485Frame) : Accounts (hear c f) := by
  have hunread : ∀ polled, (c.rx ++ [Heard.mk f polled]).filterMap Heard.relay =
      unread c ++ (if polled then relayOf f else none).toList := by
    intro polled
    rw [List.filterMap_append]
    cases hrel : (if polled then relayOf f else none) with
    | none => simp [unread, Heard.relay, hrel]
    | some r => simp [unread, Heard.relay, hrel]
  unfold hear
  dsimp only
  split
  · rename_i hpolled
    have hrx := hunread (c.enabled && f.src != BUS_CONTROLLER_LOCAL_ADDR)
    rw [if_pos hpolled] at hrx
    exact ⟨balanced_heard ha.balanced rfl hrx rfl, ha.sent, ha.reply, ha.bridge⟩
  · rename_i hpolled
    have hrx := hunread (c.enabled && f.src != BUS_CONTROLLER_LOCAL_ADDR)
    rw [if_neg hpolled, Option.toList_none, List.append_nil] at hrx
    exact ⟨balanced_of ha.balanced rfl hrx (List.append_nil _).symm (by simp), ha.sent, ha.reply,
      ha.bridge⟩

/-! ## The poll engine -/

theorem balanced_sent (hb : Balanced c) (hstaged : staged c' = staged c)
    (hunread : unread c' = unread c) {f : Rs485Frame} (hlog : c'.log = c.log ++ [.sent f]) :
    Balanced c' := by
  refine balanced_of hb hstaged hunread hlog ?_
  intro e he
  rw [List.mem_singleton.mp he]
  rfl

theorem openSlot_accounts (ha : Accounts c) (hidle : c.poll_state = .idle)
    (hstale : due c.clock c.next_ms = true → unread c = []) (txFree : Bool) :
    Accounts (openSlot c txFree) := by
  have hnot : c.cmd_state ≠ .sent := by
    intro hsent
    have hwait := (ha.sent hsent).1
    rw [hidle] at hwait
    exact PollState.noConfusion hwait
  unfold openSlot
  split
  · exact ha
  rename_i hdue
  have hnone : unread c = [] := hstale (by simpa using hdue)
  dsimp only
  split
  · split
    · exact ⟨balanced_sent ha.balanced rfl hnone.symm rfl, fun _ => ⟨rfl, rfl⟩, ha.reply, ha.bridge⟩
    · exact ⟨balanced_of ha.balanced rfl hnone.symm (List.append_nil _).symm (by simp),
        fun hsent => absurd hsent hnot, ha.reply, ha.bridge⟩
  split
  · exact ⟨balanced_of ha.balanced rfl hnone.symm (List.append_nil _).symm (by simp),
      fun hsent => absurd hsent hnot, ha.reply, ha.bridge⟩
  split
  · exact ⟨balanced_sent ha.balanced rfl hnone.symm rfl, fun hsent => absurd hsent hnot, ha.reply,
      ha.bridge⟩
  · exact ⟨balanced_of ha.balanced rfl hnone.symm (List.append_nil _).symm (by simp),
      fun hsent => absurd hsent hnot, ha.reply, ha.bridge⟩

theorem closeSlot_accounts (hb : Balanced c) (hnot : c.cmd_state ≠ .sent)
    (hreply : ∀ h, c.cmd_reply = some h → h.frame.isReply = true)
    (hbridge : ∀ h, c.bridge_reply = some h → h.frame.isReply = true ∧
      h.frame.src = c.bridge_slave ∧ c.bridge_pending = true) : Accounts (closeSlot c) :=
  ⟨hb, fun hsent => absurd hsent hnot, hreply, hbridge⟩

theorem awaitAnswer_accounts (ha : Accounts c) : Accounts (awaitAnswer c) := by
  have hmiss := ha.beside (busMarkMiss_beside c c.cur_addr)
  unfold awaitAnswer
  split
  · dsimp only
    split
    · exact closeSlot_accounts (c := { busMarkMiss c c.cur_addr with cmd_state := .idle })
        hmiss.balanced CmdState.noConfusion hmiss.reply hmiss.bridge
    · rename_i hnot
      exact closeSlot_accounts hmiss.balanced hnot hmiss.reply hmiss.bridge
  · exact ha

theorem staged_stageAck (hsrc : h.frame.src = c.cmd_slave)
    (hplace : h.relay ≠ none → h.frame.isAck = true ∧ c.cmd_ack = none) :
    staged (stageAck c h) = staged c ++ h.relay.toList := by
  unfold stageAck
  split
  · rename_i hack
    simp only [Bool.and_eq_true, Option.isNone_iff_eq_none] at hack
    have hrelay := relay_of_isAck hack.1
    unfold staged
    rw [hack.2, hrelay]
    simp only [Option.bind_some, Option.bind_none, CmdAck.relay, Option.toList_none,
      List.append_nil, hsrc]
  · rename_i hack
    have hnone : h.relay = none := by
      by_contra hne
      have hplaced := hplace hne
      rw [hplaced.1, hplaced.2] at hack
      exact hack rfl
    rw [hnone]
    exact (List.append_nil _).symm

theorem count_stageReply (hplace : h.relay ≠ none → c.cmd_reply = none) (r : Relay) :
    (staged (stageReply c h)).count r = (staged c).count r + h.relay.toList.count r := by
  unfold stageReply
  split
  · rename_i hnone
    rw [Option.isNone_iff_eq_none] at hnone
    unfold staged
    rw [hnone]
    simp only [Option.bind_some, Option.bind_none, Option.toList_none, List.count_append,
      List.count_nil]
    omega
  · rename_i hsome
    have hnone : h.relay = none := by
      by_contra hne
      rw [hplace hne] at hsome
      exact hsome rfl
    rw [hnone]
    rfl

/-- The frame `h` is taken from the ring, and is not staged yet. -/
def InHand (c : BusController) (h : Heard) : Prop := ∀ r, (owed c.log).count r =
  (relayed c.log).count r + ((staged c).count r + (h.relay.toList.count r + (unread c).count r))

theorem InHand.beside (hh : InHand c h) (hb : Beside c c') : InHand c' h := by
  obtain ⟨new, hlog, hnew⟩ := hb.log
  intro r
  unfold staged unread
  rw [hlog, owed_beside hnew, relayed_beside hnew, hb.bridge_reply, hb.cmd_reply, hb.cmd_ack, hb.rx]
  exact hh r

theorem inHand_of_cons {rx : List Heard} (hb : Balanced c) (hrx : c.rx = h :: rx) :
    InHand { c with rx } h := by
  intro r
  have hcount := hb r
  have hunread : (unread c).count r = h.relay.toList.count r + (unread { c with rx }).count r := by
    unfold unread
    rw [hrx]
    cases hrel : h.relay with
    | none => simp [hrel]
    | some s =>
      simp only [List.filterMap_cons, hrel, Option.toList_some, List.count_cons, List.count_nil]
      omega
  rw [hunread] at hcount
  exact hcount

theorem InHand.balanced (hh : InHand c h) (hnone : h.relay = none) : Balanced c := by
  intro r
  have hcount := hh r
  rw [hnone] at hcount
  simpa using hcount

theorem stageAck_fields (c : BusController) (h : Heard) :
    (stageAck c h).cmd_reply = c.cmd_reply ∧ (stageAck c h).bridge_reply = c.bridge_reply ∧
      (stageAck c h).bridge_slave = c.bridge_slave ∧
      (stageAck c h).bridge_pending = c.bridge_pending ∧ (stageAck c h).log = c.log ∧
      unread (stageAck c h) = unread c := by
  unfold stageAck
  split
  · exact ⟨rfl, rfl, rfl, rfl, rfl, rfl⟩
  · exact ⟨rfl, rfl, rfl, rfl, rfl, rfl⟩

theorem takeAnswer_accounts (hh : InHand c h) (hsrc : h.frame.src = c.cur_addr)
    (hplace : h.relay ≠ none → Placed c h)
    (hsent : c.cmd_state = .sent → c.poll_state = .wait ∧ c.cur_addr = c.cmd_slave)
    (hreply : ∀ h, c.cmd_reply = some h → h.frame.isReply = true)
    (hbridge : ∀ h, c.bridge_reply = some h → h.frame.isReply = true ∧
      h.frame.src = c.bridge_slave ∧ c.bridge_pending = true) : Accounts (takeAnswer c h) := by
  have hb := busMarkAlive_beside c c.cur_addr
  unfold takeAnswer
  dsimp only
  generalize busMarkAlive c c.cur_addr = d at hb ⊢
  have hh' := hh.beside hb
  rw [← hb.cur_addr] at hsrc
  rw [← hb.cmd_state, ← hb.poll_state, ← hb.cur_addr, ← hb.cmd_slave] at hsent
  rw [← hb.cmd_reply] at hreply
  rw [← hb.bridge_reply, ← hb.bridge_slave, ← hb.bridge_pending] at hbridge
  unfold Placed at hplace
  rw [← hb.cmd_state, ← hb.cmd_ack, ← hb.cmd_reply] at hplace
  split
  · -- The slot of a command: an ACK or NAK is due.
    rename_i hcmd
    rw [if_pos hcmd] at hplace
    have hstaged := staged_stageAck (hsrc.trans (hsent hcmd).2) fun hne => (hplace hne).2
    obtain ⟨hcmdreply, hbreply, hbslave, hbpending, hlog, hunread⟩ := stageAck_fields d h
    refine closeSlot_accounts ?_ CmdState.noConfusion ?_ ?_
    · intro r
      have hcount := hh' r
      change (owed (stageAck d h).log).count r = (relayed (stageAck d h).log).count r +
        ((staged (stageAck d h)).count r + (unread (stageAck d h)).count r)
      rw [hlog, hstaged, hunread, List.count_append]
      omega
    · dsimp only
      rw [hcmdreply]
      exact hreply
    · dsimp only
      rw [hbreply, hbslave, hbpending]
      exact hbridge
  · rename_i hcmd
    rw [if_neg hcmd] at hplace
    split
    · -- A reply of an earlier command, or an interlock message.
      rename_i hisReply
      have hstaged := count_stageReply (c := d) (h := h) fun hne => (hplace hne).2.2
      have hcases : stageReply d h = d ∨ stageReply d h = { d with cmd_reply := some h } := by
        unfold stageReply
        split
        · exact Or.inr rfl
        · exact Or.inl rfl
      have hbal : Balanced (stageReply d h) := by
        intro r
        have hcount := hh' r
        rw [hstaged r]
        rcases hcases with heq | heq
        · rw [heq]
          omega
        · rw [heq]
          change (owed d.log).count r = (relayed d.log).count r +
            ((staged d).count r + h.relay.toList.count r + (unread d).count r)
          omega
      rcases hcases with heq | heq
      · rw [heq] at hbal ⊢
        exact closeSlot_accounts hbal hcmd hreply hbridge
      · rw [heq] at hbal ⊢
        refine closeSlot_accounts hbal hcmd ?_ hbridge
        intro g hg
        rw [← Option.some.inj hg]
        exact hisReply
    · rename_i hnotReply
      have hnone : h.relay = none := by
        by_contra hne
        exact hnotReply (hplace hne).2.1
      have hs := storeSummary_beside d h.frame
      have hstored := hh'.beside hs
      refine closeSlot_accounts (hstored.balanced hnone) ?_ ?_ ?_
      · rw [hs.cmd_state]
        exact hcmd
      · rw [hs.cmd_reply]
        exact hreply
      · rw [hs.bridge_reply, hs.bridge_slave, hs.bridge_pending]
        exact hbridge

theorem busPollEngine_accounts (ha : Accounts c) (henabled : c.enabled = true) {txFree : Bool}
    (hkeeps : KeepsFrames c (.engine txFree)) : Accounts (busPollEngine c txFree) := by
  have hkeeps := hkeeps henabled
  unfold busPollEngine
  rw [if_neg (by simp [henabled])]
  cases hstate : c.poll_state with
  | idle => exact openSlot_accounts ha hstate (hkeeps.1 hstate) txFree
  | wait =>
    have hkeeps := hkeeps.2 hstate
    cases hrx : c.rx with
    | nil => exact awaitAnswer_accounts ha
    | cons h rx =>
      rw [hrx] at hkeeps
      have hplace : h.relay ≠ none → Placed c h := hkeeps h rfl
      have hh := inHand_of_cons ha.balanced hrx
      dsimp only
      split
      · rename_i hsrc
        exact takeAnswer_accounts hh hsrc hplace (fun hsent => ⟨rfl, (ha.sent hsent).2⟩) ha.reply
          ha.bridge
      · rename_i hsrc
        have hnone : h.relay = none := by
          by_contra hne
          exact hsrc (hplace hne).1
        exact awaitAnswer_accounts
          ⟨hh.balanced hnone, fun hsent => ⟨rfl, (ha.sent hsent).2⟩, ha.reply, ha.bridge⟩

/-! ## Relays to the host -/

theorem balanced_relayed (hb : Balanced c) {r : Relay} {seq : UInt8} {polled : Bool}
    (hstaged : ∀ s, (staged c).count s = (staged c').count s + (if polled then some r else
      none).toList.count s)
    (hunread : unread c' = unread c) (hlog : c'.log = c.log ++ [.relayed r seq polled]) :
    Balanced c' := by
  intro s
  have hcount := hb s
  rw [hstaged s] at hcount
  rw [hlog, owed_relayed, relayed_relayed, hunread, List.count_append]
  omega

theorem busDrainCmdReply_accounts (ha : Accounts c) (room : Bool) :
    Accounts (busDrainCmdReply c room) := by
  unfold busDrainCmdReply
  split
  · exact ha
  rename_i h hreply
  split
  · refine ⟨balanced_relayed ha.balanced ?_ rfl rfl, ha.sent, fun g hg => (nomatch hg), ha.bridge⟩
    intro s
    rw [← relay_of_isReply (ha.reply h hreply)]
    simp only [staged, BusController.note, hreply, Option.bind_some, Option.bind_none,
      Option.toList_none, List.count_append, List.count_nil]
    omega
  · exact ha

theorem busDrainCmdAck_accounts (ha : Accounts c) (room : Bool) :
    Accounts (busDrainCmdAck c room) := by
  unfold busDrainCmdAck
  split
  · exact ha
  rename_i a hack
  split
  · refine ⟨balanced_relayed ha.balanced ?_ rfl rfl, ha.sent, ha.reply, ha.bridge⟩
    intro s
    simp only [staged, BusController.note, hack, Option.bind_some, Option.bind_none, CmdAck.relay,
      Option.toList_none, List.count_append, List.count_nil]
    omega
  · exact ha

theorem staged_drained (c : BusController) :
    staged (busDrainCmdAck (busDrainCmdReply c true) true) =
      (c.bridge_reply.bind Heard.relay).toList := by
  unfold busDrainCmdReply
  cases hreply : c.cmd_reply with
  | none =>
    unfold busDrainCmdAck
    cases hack : c.cmd_ack with
    | none => simp [staged, hreply, hack]
    | some a => simp [staged, BusController.note, hreply]
  | some h =>
    unfold busDrainCmdAck
    cases hack : c.cmd_ack with
    | none => simp [staged, BusController.note]
    | some a => simp [staged, BusController.note]

/-! ## The bridge -/

theorem bridgeStart_accounts (ha : Accounts c) (opcode : UInt16) (slave : UInt8) (exec : List UInt8)
    : Accounts (bridgeStart c opcode slave exec) := by
  unfold bridgeStart
  split
  · exact ha
  split
  · exact ha
  rename_i hpending
  refine ⟨balanced_sent ha.balanced rfl rfl rfl, ha.sent, ha.reply, ?_⟩
  intro h hh
  exact absurd (ha.bridge h hh).2.2 hpending

theorem fromHost_accounts (ha : Accounts c) (opcode : UInt16) (addr : UInt8) (payload : List UInt8)
    : Accounts (fromHost c opcode addr payload) := by
  unfold fromHost
  split
  · exact ha
  split
  · unfold busCmdEnqueue
    split
    · exact ha
    · exact ⟨ha.balanced, CmdState.noConfusion, ha.reply, ha.bridge⟩
  · exact bridgeStart_accounts ha opcode addr payload

theorem awaitBridge_accounts (ha : Accounts c) (hnone : c.bridge_reply = none) (room : Bool) :
    Accounts (awaitBridge c room) := by
  have hbridge : ∀ {d : BusController}, d.bridge_reply = none → ∀ h, d.bridge_reply = some h →
      h.frame.isReply = true ∧ h.frame.src = d.bridge_slave ∧ d.bridge_pending = true := by
    intro d hd h hh
    rw [hd] at hh
    exact nomatch hh
  unfold awaitBridge
  split
  · unfold bridgeNak
    dsimp only
    split
    · have hpush := ha.beside (.push c c.bridge_slave OP_NAK
        [NAK_ERR_NO_RESOURCES, lo16 OP_SHELL_EXEC, hi16 OP_SHELL_EXEC])
      exact ⟨hpush.balanced, hpush.sent, hpush.reply, hbridge hnone⟩
    · exact ⟨ha.balanced, ha.sent, ha.reply, hbridge hnone⟩
  · exact ha

theorem rs485BridgePoll_accounts (ha : Accounts c) (hoff : c.enabled = false) {room : Bool}
    (hkeeps : KeepsFrames c (.bridgePoll room)) : Accounts (rs485BridgePoll c room) := by
  unfold rs485BridgePoll
  split
  · exact ha
  rename_i hpending
  have hkeeps := hkeeps hoff (by simpa using hpending)
  cases hreply : c.bridge_reply with
  | some h =>
    have hkeeps := hkeeps.1 h hreply
    obtain ⟨hisReply, hsrc, -⟩ := ha.bridge h hreply
    dsimp only
    split
    · refine ⟨balanced_relayed ha.balanced ?_ rfl rfl, ha.sent, ha.reply, fun g hg => nomatch hg⟩
      intro s
      have haddr : { replyRelay h.frame with addr := c.bridge_slave } = replyRelay h.frame := by
        rw [← hsrc]
        rfl
      rw [haddr, ← relay_of_isReply hisReply]
      simp only [staged, BusController.note, hreply, Option.bind_some, Option.bind_none,
        Option.toList_none, List.count_append, List.count_nil]
      omega
    rename_i hroom
    split
    · rename_i hdue
      have hnone : h.relay = none := by
        by_contra hne
        rw [hkeeps hne (Bool.eq_false_iff.mpr hroom)] at hdue
        exact Bool.noConfusion hdue
      refine ⟨balanced_of ha.balanced ?_ rfl (List.append_nil _).symm (by simp), ha.sent, ha.reply,
        fun g hg => nomatch hg⟩
      simp [staged, hreply, hnone]
    · exact ha
  | none =>
    have hkeeps := hkeeps.2 hreply
    dsimp only
    cases hrx : c.rx with
    | nil => exact awaitBridge_accounts ha hreply room
    | cons h rx =>
      rw [hrx] at hkeeps
      have hplace := hkeeps h rfl
      have hh := inHand_of_cons ha.balanced hrx
      dsimp only
      split
      · rename_i htaken
        simp only [Bool.and_eq_true, beq_iff_eq] at htaken
        refine ⟨?_, ha.sent, ha.reply, ?_⟩
        · intro s
          have hcount := hh s
          simp only [staged, hreply, Option.bind_none, Option.bind_some, Option.toList_none,
            List.count_append, List.count_nil] at hcount ⊢
          change (owed c.log).count s = (relayed c.log).count s + (_ + (rx.filterMap Heard.relay).count s)
          change (owed c.log).count s = (relayed c.log).count s +
            (_ + (_ + (rx.filterMap Heard.relay).count s)) at hcount
          omega
        · intro g hg
          rw [← Option.some.inj hg]
          exact ⟨htaken.1, htaken.2, by simpa using hpending⟩
      · rename_i hother
        have hnone : h.relay = none := by
          by_contra hne
          have hmine := hplace hne
          rw [hmine.1, hmine.2] at hother
          exact hother (by simp)
        have hrest : Accounts { c with rx } := ⟨hh.balanced hnone, ha.sent, ha.reply, ha.bridge⟩
        have hawait := awaitBridge_accounts hrest hreply room
        rw [hreply] at hawait
        exact hawait

/-! ## Every run -/

theorem busStep_accounts (ha : Accounts c) {op : BusOp} (hkeeps : KeepsFrames c op)
    (hstep : busStep c op = some c') : Accounts c' := by
  have hpolling : ∀ {d : BusController}, (c.enabled = true → Accounts d) →
      Accounts (whilePolling c d) := by
    intro d hd
    unfold whilePolling
    split
    · rename_i henabled
      exact hd henabled
    · exact ha
  have hroster : ∀ roster, Accounts { c with roster } := fun _ =>
    ha.beside ⟨rfl, rfl, rfl, rfl, rfl, rfl, rfl, rfl, rfl, rfl, Adds.refl _⟩
  cases op with
  | hear f =>
    cases hstep
    exact hear_accounts ha f
  | engine txFree =>
    cases hstep
    exact hpolling fun henabled => busPollEngine_accounts ha henabled hkeeps
  | drainEvents room =>
    cases hstep
    exact hpolling fun _ => ha.beside (drainEventsFrom_beside room c _)
  | drainFlagged room =>
    cases hstep
    exact hpolling fun _ => ha.beside (drainFlaggedFrom_beside room c _)
  | drainCmdAck room =>
    cases hstep
    exact hpolling fun _ => busDrainCmdAck_accounts ha room
  | drainCmdReply room =>
    cases hstep
    exact hpolling fun _ => busDrainCmdReply_accounts ha room
  | drainStatusReport room =>
    cases hstep
    exact hpolling fun _ => ha.beside (busDrainStatusReport_beside c room)
  | bridgePoll room =>
    cases hstep
    split
    · exact ha
    · rename_i hoff
      exact rs485BridgePoll_accounts ha (Bool.eq_false_iff.mpr hoff) hkeeps
  | fromHost opcode addr payload =>
    cases hstep
    exact fromHost_accounts ha opcode addr payload
  | register addr class_id flags =>
    cases hstep
    exact hroster _
  | unregister addr =>
    cases hstep
    exact hroster _
  | clearRoster =>
    cases hstep
    exact hroster _
  | setPoll period misses retries =>
    cases hstep
    unfold cmdBusSetPoll
    split
    · exact ha
    · exact ⟨ha.balanced, ha.sent, ha.reply, ha.bridge⟩
  | pollEnable on =>
    cases hstep
    exact ⟨ha.balanced, ha.sent, ha.reply, ha.bridge⟩
  | tick ms =>
    cases hstep
    exact ⟨ha.balanced, ha.sent, ha.reply, ha.bridge⟩

theorem boot_accounts : Accounts .boot where
  balanced _ := rfl
  sent := CmdState.noConfusion
  reply _ hnone := nomatch hnone
  bridge _ hnone := nomatch hnone

/-- In every run that discards no frame of a polled slave, each of them is
relayed once, or waits for room. -/
theorem each_frame_is_relayed (ops : List BusOp) (c : BusController)
    (hkeeps : Meets busStep KeepsFrames .boot ops) (hrun : runs busStep .boot ops = some c) :
    RelaysEach c := by
  have ha := inv_runs (fun _ _ _ ha hok hstep => busStep_accounts ha hok hstep) boot_accounts hkeeps
    hrun
  exact ⟨ha.once, staged_drained c⟩

/-! ## A second reply while the USB ring is full -/

def slaveReply (addr : UInt8) : BusOp :=
  .hear (txFrame RS485_ADDR_MASTER addr RS485_FT_DATA 0 (withOpcode OP_SHELL_REPLY [addr, 0, 0]))

/-- Two slaves are polled in turn, and each ships the reply of its command. The
USB ring has room at the first reply, or not. -/
def twoReplies (room : Bool) : List BusOp :=
  [.register 1 0 BUS_FLAG_ENABLED, .register 2 0 BUS_FLAG_ENABLED, .pollEnable true,
    .engine true, slaveReply 1, .engine true, .drainCmdReply room, .tick 100,
    .engine true, slaveReply 2, .engine true, .drainCmdReply true, .drainCmdReply true]

/-- The first reply still waits for room, so the second one is dropped. Its slave
has freed its own copy with the answer. -/
theorem second_reply_is_dropped_while_the_ring_is_full :
    ¬ ∀ (ops : List BusOp) (c : BusController), runs busStep .boot ops = some c → RelaysEach c := by
  intro hall
  have hlengths : (runs busStep .boot (twoReplies false)).map (fun c =>
      ((owed c.log).length, (relayed c.log ++ (staged c ++ unread c)).length)) = some (2, 1) := by
    decide
  obtain ⟨c, hrun, hlen⟩ := Option.map_eq_some_iff.mp hlengths
  have hperm := (hall _ c hrun).once.length_eq
  rw [(Prod.mk.inj hlen).1, (Prod.mk.inj hlen).2] at hperm
  exact absurd hperm (by decide)

/-- The same replies, with room for the first one at once. -/
theorem two_replies_are_relayed :
    ∃ c, runs busStep .boot (twoReplies true) = some c ∧ RelaysEach c := by
  have hsome : (runs busStep .boot (twoReplies true)).isSome := by decide
  obtain ⟨c, hrun⟩ := Option.isSome_iff_exists.mp hsome
  exact ⟨c, hrun, each_frame_is_relayed _ c (by decide) hrun⟩

end motioncore.bus
