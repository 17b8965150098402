-- What the bus controller sends to its slaves: polls of its own, and the commands
-- of the host. A queued command is not touched until its slot.
import MotionCore.Bus.Traffic

open motioncore.machine

namespace motioncore.bus

/-! ## Commands of the host -/

/-- Every command that waits, and every command on the bus, is one that `P` allows
for its slave. -/
structure SendsOnly (P : UInt8 → List UInt8 → Prop) (c : BusController) : Prop where
  queued : c.cmd_state = .queued → P c.cmd_slave c.cmd_buf
  sent : ∀ f, .sent f ∈ c.log → f.cls = RS485_FT_DATA →
    ∃ seq p, P f.dest p ∧ f = txFrame f.dest BUS_CONTROLLER_LOCAL_ADDR RS485_FT_DATA seq p

variable {P : UInt8 → List UInt8 → Prop} {c : BusController}

theorem SendsOnly.mono {Q : UInt8 → List UInt8 → Prop} (h : SendsOnly P c)
    (hpq : ∀ dest p, P dest p → Q dest p) : SendsOnly Q c := by
  refine ⟨fun hq => hpq _ _ (h.queued hq), fun f hf hcls => ?_⟩
  obtain ⟨seq, p, hp, heq⟩ := h.sent f hf hcls
  exact ⟨seq, p, hpq _ _ hp, heq⟩

/-- No command is queued, changed or sent. -/
structure Mute (c c' : BusController) : Prop where
  cmd : c'.cmd_state = .queued →
    c.cmd_state = .queued ∧ c'.cmd_slave = c.cmd_slave ∧ c'.cmd_buf = c.cmd_buf
  log : ∀ f, .sent f ∈ c'.log → f.cls = RS485_FT_DATA → .sent f ∈ c.log

variable {c' : BusController}

theorem SendsOnly.mute (h : SendsOnly P c) (hm : Mute c c') : SendsOnly P c' := by
  refine ⟨fun hq => ?_, fun f hf hcls => h.sent f (hm.log f hf hcls) hcls⟩
  obtain ⟨hq', hslave, hbuf⟩ := hm.cmd hq
  rw [hslave, hbuf]
  exact h.queued hq'

theorem Mute.same (hstate : c'.cmd_state = c.cmd_state) (hslave : c'.cmd_slave = c.cmd_slave)
    (hbuf : c'.cmd_buf = c.cmd_buf) (hlog : c'.log = c.log) : Mute c c' := by
  refine ⟨fun hq => ⟨hstate.symm.trans hq, hslave, hbuf⟩, fun f hf _ => ?_⟩
  rw [← hlog]
  exact hf

theorem Passes.mute (h : Passes c c') : Mute c c' := by
  refine ⟨h.cmd, fun f hf hcls => h.log.mem_of_mem hf fun he => ?_⟩
  have hsome : BusEv.command (.sent f) = some (f.dest, f.payload) := if_pos hcls
  exact Option.some_ne_none _ (hsome.symm.trans he.2)

/-! ## The steps -/

theorem data_ne_poll : RS485_FT_POLL &&& RS485_FT_MASK ≠ RS485_FT_DATA := by decide

theorem openSlot_sendsOnly (h : SendsOnly P c) (txFree : Bool) :
    SendsOnly P (openSlot c txFree) := by
  unfold openSlot
  split
  · exact h
  dsimp only
  split
  · rename_i hq
    split
    · refine ⟨fun hs => CmdState.noConfusion hs, fun f hf hcls => ?_⟩
      rcases List.mem_append.mp hf with hf | hf
      · exact h.sent f hf hcls
      · rw [List.mem_singleton, BusEv.sent.injEq] at hf
        rw [hf]
        exact ⟨_, _, h.queued hq, rfl⟩
    · exact h.mute (.same rfl rfl rfl rfl)
  · split
    · exact h.mute (.same rfl rfl rfl rfl)
    · split
      · refine h.mute ⟨fun hq => ⟨hq, rfl, rfl⟩, fun f hf hcls => ?_⟩
        rcases List.mem_append.mp hf with hf | hf
        · exact hf
        · rw [List.mem_singleton, BusEv.sent.injEq] at hf
          rw [hf] at hcls
          exact absurd hcls data_ne_poll
      · exact h.mute (.same rfl rfl rfl rfl)

theorem busPollEngine_sendsOnly (h : SendsOnly P c) (txFree : Bool) :
    SendsOnly P (busPollEngine c txFree) := by
  unfold busPollEngine
  split
  · exact h.mute (.same rfl rfl rfl rfl)
  split
  · exact openSlot_sendsOnly h txFree
  split
  · exact h.mute (awaitAnswer_passes c).mute
  · rename_i heard rx hrx
    dsimp only
    split
    · exact h.mute (takeAnswer_passes hrx).mute
    · exact h.mute ((taken_passes hrx).trans (awaitAnswer_passes _)).mute

theorem fromHost_sendsOnly (h : SendsOnly P c) {opcode : UInt16} {addr : UInt8}
    {payload : List UInt8}
    (hp : addr ≠ BUS_CONTROLLER_LOCAL_ADDR → P addr (busCommand opcode payload)) :
    SendsOnly P (fromHost c opcode addr payload) := by
  unfold fromHost
  split
  · exact h
  rename_i haddr
  split
  · unfold busCmdEnqueue
    split
    · exact h
    · exact ⟨fun _ => hp haddr, h.sent⟩
  · unfold bridgeStart
    split
    · exact h
    split
    · exact h
    dsimp only
    refine ⟨h.queued, fun f hf hcls => ?_⟩
    rcases List.mem_append.mp hf with hf | hf
    · exact h.sent f hf hcls
    · rw [List.mem_singleton, BusEv.sent.injEq] at hf
      rw [hf]
      exact ⟨_, _, hp haddr, rfl⟩

theorem busStep_sendsOnly (h : SendsOnly P c) {op : BusOp} (hop : op.ownOp = true)
    (hstep : busStep c op = some c') : SendsOnly P c' := by
  have hwhile : ∀ d, SendsOnly P d → SendsOnly P (whilePolling c d) := by
    intro d hd
    unfold whilePolling
    split
    · exact hd
    · exact h
  cases op with
  | fromHost opcode addr payload => exact absurd hop Bool.false_ne_true
  | hear f =>
    cases hstep
    unfold hear
    dsimp only
    split
    · refine h.mute ⟨fun hq => ⟨hq, rfl, rfl⟩, fun g hg _ => ?_⟩
      exact (List.mem_append.mp hg).resolve_right fun hg => nomatch List.mem_singleton.mp hg
    · exact h.mute (.same rfl rfl rfl rfl)
  | engine txFree =>
    cases hstep
    exact hwhile _ (busPollEngine_sendsOnly h txFree)
  | drainEvents room =>
    cases hstep
    exact hwhile _ (h.mute (drainEventsFrom_passes room c _).mute)
  | drainFlagged room =>
    cases hstep
    exact hwhile _ (h.mute (drainFlaggedFrom_passes room c _).mute)
  | drainCmdAck room =>
    cases hstep
    exact hwhile _ (h.mute (busDrainCmdAck_passes c room).mute)
  | drainCmdReply room =>
    cases hstep
    exact hwhile _ (h.mute (busDrainCmdReply_passes c room).mute)
  | drainStatusReport room =>
    cases hstep
    exact hwhile _ (h.mute (busDrainStatusReport_passes c room).mute)
  | bridgePoll room =>
    cases hstep
    split
    · exact h
    · exact h.mute (rs485BridgePoll_passes c room).mute
  | register addr class_id flags =>
    cases hstep
    exact h.mute (.same rfl rfl rfl rfl)
  | unregister addr =>
    cases hstep
    exact h.mute (.same rfl rfl rfl rfl)
  | clearRoster =>
    cases hstep
    exact h.mute (.same rfl rfl rfl rfl)
  | setPoll period misses retries =>
    cases hstep
    unfold cmdBusSetPoll
    split
    · exact h
    · exact h.mute (.same rfl rfl rfl rfl)
  | pollEnable on =>
    cases hstep
    exact h.mute (.same rfl rfl rfl rfl)
  | tick ms =>
    cases hstep
    exact h.mute (.same rfl rfl rfl rfl)

theorem boot_sendsOnly (P : UInt8 → List UInt8 → Prop) : SendsOnly P .boot :=
  ⟨fun h => CmdState.noConfusion h, fun _ h => nomatch h⟩

end motioncore.bus
