-- What each part of the bus controller does with the commands and the replies that
-- pass through it: a command that waits is kept, sent or dropped, a reply that is
-- held is kept, relayed or dropped, and nothing else is sent as one of them.
import MotionCore.Bus.PollEngine
import MotionCore.Lib.Trace

open motioncore.bytes motioncore.machine motioncore.trace

namespace motioncore.bus

/-! ## Replies -/

def BusController.Holds (c : BusController) (f : Rs485Frame) : Prop :=
  (∃ h ∈ c.rx, h.frame = f ∧ f.isReply = true) ∨ (∃ h, c.cmd_reply = some h ∧ h.frame = f) ∨
    ∃ h, c.bridge_reply = some h ∧ h.frame = f

variable {c' : BusController}

theorem holds_congr {c : BusController} (hrx : c'.rx = c.rx) (hreply : c'.cmd_reply = c.cmd_reply)
    (hbridge : c'.bridge_reply = c.bridge_reply) (f : Rs485Frame) (hf : c'.Holds f) :
    c.Holds f := by
  unfold BusController.Holds at hf
  rw [hrx, hreply, hbridge] at hf
  exact hf

/-- The relay tells the host what the reply of a slave says. -/
def Relay.Tells (r : Relay) (f : Rs485Frame) : Prop :=
  opcodeOf f.payload = r.cmd ∧ f.payload.drop 2 = r.payload

/-- An event of a bus controller that holds the replies `P`. -/
def BusEv.Honest (P : Rs485Frame → Prop) : BusEv → Prop
  | .relayed r _ _ => r.cmd = OP_SHELL_REPLY → ∃ f, P f ∧ r.Tells f
  | .pushed r _ => r.cmd ≠ OP_SHELL_REPLY
  | _ => True

theorem BusEv.Honest.mono {P Q : Rs485Frame → Prop} {e : BusEv} (he : e.Honest P)
    (hpq : ∀ f, P f → Q f) : e.Honest Q := by
  cases e with
  | relayed r seq polled =>
    intro hr
    obtain ⟨f, hf, htells⟩ := he hr
    exact ⟨f, hpq f hf, htells⟩
  | _ => exact he

/-! ## Commands -/

/-- A command on the bus: the address of its slave, and the payload of its frame. -/
abbrev Command := UInt8 × List UInt8

def Rs485Frame.command (f : Rs485Frame) : Option Command :=
  if f.cls = RS485_FT_DATA then some (f.dest, f.payload) else none

def BusEv.command : BusEv → Option Command
  | .sent f => f.command
  | _ => none

theorem length_busCommand (opcode : UInt16) (exec : List UInt8) :
    (busCommand opcode exec).length ≤ RS485_PAYLOAD_MAX := by
  unfold busCommand
  rw [length_withOpcode, List.length_take]
  unfold RS485_PAYLOAD_MAX
  omega

/-! ## Steps that send no command -/

/-- No command is queued, changed or sent, and no reply is made up. -/
structure Passes (c c' : BusController) : Prop where
  cmd : c'.cmd_state = .queued →
    c.cmd_state = .queued ∧ c'.cmd_slave = c.cmd_slave ∧ c'.cmd_buf = c.cmd_buf
  holds : ∀ f, c'.Holds f → c.Holds f
  log : Adds (fun e => e.Honest c.Holds ∧ e.command = none) c.log c'.log

variable (c : BusController)

theorem Passes.refl : Passes c c :=
  ⟨fun hq => ⟨hq, rfl, rfl⟩, fun _ hf => hf, .refl _⟩

theorem Passes.trans {a b c : BusController} (hab : Passes a b) (hbc : Passes b c) :
    Passes a c := by
  refine ⟨fun hq => ?_, fun f hf => hab.holds f (hbc.holds f hf), ?_⟩
  · obtain ⟨hq', hslave, hbuf⟩ := hbc.cmd hq
    obtain ⟨hq'', hslave', hbuf'⟩ := hab.cmd hq'
    exact ⟨hq'', hslave.trans hslave', hbuf.trans hbuf'⟩
  · exact hab.log.trans (hbc.log.mono fun e he => ⟨he.1.mono hab.holds, he.2⟩)

theorem Passes.same {c : BusController} (hstate : c'.cmd_state = c.cmd_state)
    (hslave : c'.cmd_slave = c.cmd_slave) (hbuf : c'.cmd_buf = c.cmd_buf)
    (hholds : ∀ f, c'.Holds f → c.Holds f) (hlog : c'.log = c.log) : Passes c c' := by
  refine ⟨fun hq => ⟨hstate.symm.trans hq, hslave, hbuf⟩, hholds, ?_⟩
  rw [hlog]
  exact .refl _

theorem Passes.note {c : BusController} {e : BusEv} (hstate : c'.cmd_state = c.cmd_state)
    (hslave : c'.cmd_slave = c.cmd_slave) (hbuf : c'.cmd_buf = c.cmd_buf)
    (hholds : ∀ f, c'.Holds f → c.Holds f) (hlog : c'.log = c.log ++ [e]) (he : e.Honest c.Holds)
    (hnone : e.command = none) : Passes c c' := by
  refine ⟨fun hq => ⟨hstate.symm.trans hq, hslave, hbuf⟩, hholds, ?_⟩
  rw [hlog]
  exact (Adds.refl _).snoc ⟨he, hnone⟩

variable (room : Bool) (addr : UInt8)

theorem Passes.push (cmd : UInt16) (hcmd : cmd ≠ OP_SHELL_REPLY) (payload : List UInt8) :
    Passes c (c.push addr cmd payload) :=
  .note rfl rfl rfl (holds_congr rfl rfl rfl) rfl hcmd rfl

theorem Passes.setSlave (k : Fin BUS_ROSTER_MAX) (s : BusSlave) :
    Passes c (c.setSlave k s) := .same rfl rfl rfl (holds_congr rfl rfl rfl) rfl

theorem busMarkAlive_passes : Passes c (busMarkAlive c addr) := by
  unfold busMarkAlive
  split
  · exact .refl c
  · exact .setSlave c _ _

theorem busMarkMiss_passes : Passes c (busMarkMiss c addr) := by
  unfold busMarkMiss
  split
  · exact .refl c
  · exact .setSlave c _ _

theorem storeSummary_passes (f : Rs485Frame) : Passes c (storeSummary c f) := by
  unfold storeSummary
  split
  · exact .refl c
  · exact .setSlave c _ _

theorem drainEventsFrom_passes (c : BusController) (is : List (Fin BUS_ROSTER_MAX)) :
    Passes c (drainEventsFrom room c is) := by
  induction is generalizing c with
  | nil => exact .refl c
  | cons i is ih =>
    unfold drainEventsFrom
    split
    · exact ih c
    split
    · exact ih c
    dsimp only
    split
    · split
      · exact (Passes.push c _ OP_BUS_SLAVE_DOWN (by decide) _).trans (.setSlave _ _ _)
      · exact .refl c
    · split
      · split
        · exact (Passes.push c _ OP_BUS_SLAVE_UP (by decide) _).trans (.setSlave _ _ _)
        · exact .refl c
      · exact (Passes.setSlave c _ _).trans (ih _)
    · exact ih c

theorem drainFlaggedFrom_passes (c : BusController) (is : List (Fin BUS_ROSTER_MAX)) :
    Passes c (drainFlaggedFrom room c is) := by
  induction is generalizing c with
  | nil => exact .refl c
  | cons i is ih =>
    unfold drainFlaggedFrom
    split
    · exact ih c
    split
    · exact ih c
    dsimp only
    split
    · exact (Passes.push c _ OP_BUS_SLAVE_FLAGGED (by decide) _).trans (.setSlave _ _ _)
    · exact .refl c

theorem busDrainStatusReport_passes : Passes c (busDrainStatusReport c room) := by
  have hstart : Passes c (startStatus c) := by
    unfold startStatus
    split
    · exact .same rfl rfl rfl (holds_congr rfl rfl rfl) rfl
    · exact .refl c
  have hstatus : ∀ (c : BusController) (active : Bool) (n : Nat),
      Passes c { c with status_active := active, status_cursor := n } := fun c _ _ =>
    .same rfl rfl rfl (holds_congr rfl rfl rfl) rfl
  unfold busDrainStatusReport
  split
  · exact hstatus c false c.status_cursor
  dsimp only
  split
  · exact hstart
  split
  · exact hstart.trans (hstatus _ false _)
  split
  · exact (hstart.trans (.push _ _ OP_BUS_STATUS_REPORT (by decide) _)).trans (hstatus _ _ _)
  · exact hstart

theorem busDrainCmdReply_passes : Passes c (busDrainCmdReply c room) := by
  unfold busDrainCmdReply
  split
  · exact .refl c
  · rename_i h hreply
    split
    · refine .note rfl rfl rfl (fun f hf => ?_) rfl (fun _ => ?_) rfl
      · rcases hf with hf | ⟨_, hnone, _⟩ | hf
        · exact Or.inl hf
        · exact nomatch hnone
        · exact Or.inr (Or.inr hf)
      · exact ⟨h.frame, Or.inr (Or.inl ⟨h, hreply, rfl⟩), rfl, rfl⟩
    · exact .refl c

theorem ackRelay_cmd (reqid : UInt16) (is_nak : Bool) :
    (ackRelay addr reqid is_nak).cmd ≠ OP_SHELL_REPLY := by
  unfold ackRelay
  dsimp only
  split
  · decide
  · decide

theorem busDrainCmdAck_passes : Passes c (busDrainCmdAck c room) := by
  unfold busDrainCmdAck
  split
  · exact .refl c
  · split
    · exact .note rfl rfl rfl (holds_congr rfl rfl rfl) rfl
        (fun h => absurd h (ackRelay_cmd _ _ _)) rfl
    · exact .refl c

theorem awaitBridge_passes : Passes c (awaitBridge c room) := by
  unfold awaitBridge
  split
  · unfold bridgeNak
    dsimp only
    split
    · exact (Passes.push c _ OP_NAK (by decide) _).trans
        (.same rfl rfl rfl (holds_congr rfl rfl rfl) rfl)
    · exact .same rfl rfl rfl (holds_congr rfl rfl rfl) rfl
  · exact .refl c

theorem taken_passes {c : BusController} {h : Heard} {rx : List Heard} (hrx : c.rx = h :: rx) :
    Passes c { c with rx } := by
  refine .same rfl rfl rfl (fun f hf => ?_) rfl
  rcases hf with ⟨g, hg, hrest⟩ | hf
  · refine Or.inl ⟨g, ?_, hrest⟩
    rw [hrx]
    exact List.mem_cons_of_mem _ hg
  · exact Or.inr hf

theorem rs485BridgePoll_passes : Passes c (rs485BridgePoll c room) := by
  have hdrop : ∀ f, (∃ g ∈ c.rx, g.frame = f ∧ f.isReply = true) ∨
      (∃ g, c.cmd_reply = some g ∧ g.frame = f) ∨ (∃ g, none = some g ∧ Heard.frame g = f) →
        c.Holds f := by
    rintro f (hf | hf | ⟨_, hnone, _⟩)
    · exact Or.inl hf
    · exact Or.inr (Or.inl hf)
    · exact nomatch hnone
  unfold rs485BridgePoll
  split
  · exact .refl c
  split
  · rename_i h hreply
    split
    · refine .note rfl rfl rfl hdrop rfl (fun _ => ?_) rfl
      exact ⟨h.frame, Or.inr (Or.inr ⟨h, hreply, rfl⟩), rfl, rfl⟩
    · split
      · exact .same rfl rfl rfl hdrop rfl
      · exact .refl c
  · split
    · exact awaitBridge_passes c room
    · rename_i h rx hrx
      have htaken := taken_passes hrx
      dsimp only
      split
      · -- the reply goes from the ring into its buffer
        rename_i hreply
        rw [Bool.and_eq_true] at hreply
        refine .same rfl rfl rfl (fun f hf => ?_) rfl
        rcases hf with hf | hf | ⟨g, hg, hframe⟩
        · exact htaken.holds f (Or.inl hf)
        · exact Or.inr (Or.inl hf)
        · obtain rfl := Option.some.inj hg
          refine Or.inl ⟨h, ?_, hframe, hframe ▸ hreply.1⟩
          rw [hrx]
          exact List.mem_cons_self
      · exact htaken.trans (awaitBridge_passes _ room)

theorem awaitAnswer_passes : Passes c (awaitAnswer c) := by
  have hmiss := busMarkMiss_passes c c.cur_addr
  unfold awaitAnswer
  split
  · dsimp only
    split
    · exact ⟨fun hq => CmdState.noConfusion hq, hmiss.holds, hmiss.log⟩
    · exact hmiss.trans (.same rfl rfl rfl (holds_congr rfl rfl rfl) rfl)
  · exact .refl c

theorem takeAnswer_passes {c : BusController} {h : Heard} {rx : List Heard}
    (hrx : c.rx = h :: rx) : Passes c (takeAnswer { c with rx } h) := by
  have halive := (taken_passes hrx).trans (busMarkAlive_passes { c with rx } c.cur_addr)
  unfold takeAnswer
  dsimp only
  generalize busMarkAlive { c with rx } c.cur_addr = d at halive ⊢
  split
  · -- the command is done, so that none is queued
    have hack : ∀ f, (closeSlot { stageAck d h with cmd_state := .idle }).Holds f → d.Holds f := by
      unfold stageAck
      split
      · exact fun _ hf => hf
      · exact fun _ hf => hf
    have hlog : (closeSlot { stageAck d h with cmd_state := .idle }).log = d.log := by
      unfold stageAck
      split
      · rfl
      · rfl
    refine ⟨fun hq => CmdState.noConfusion hq, fun f hf => halive.holds f (hack f hf), ?_⟩
    rw [hlog]
    exact halive.log
  · split
    · rename_i hreply
      unfold stageReply
      split
      · refine ⟨halive.cmd, fun f hf => ?_, halive.log⟩
        rcases hf with hf | ⟨g, hg, hframe⟩ | hf
        · exact halive.holds f (Or.inl hf)
        · obtain rfl := Option.some.inj hg
          refine Or.inl ⟨h, ?_, hframe, hframe ▸ hreply⟩
          rw [hrx]
          exact List.mem_cons_self
        · exact halive.holds f (Or.inr (Or.inr hf))
      · exact halive.trans (.same rfl rfl rfl (holds_congr rfl rfl rfl) rfl)
    · exact (halive.trans (storeSummary_passes _ _)).trans
        (.same rfl rfl rfl (holds_congr rfl rfl rfl) rfl)

/-- The frames of the host come by another way. -/
def BusOp.ownOp : BusOp → Bool
  | .fromHost .. => false
  | _ => true

end motioncore.bus
