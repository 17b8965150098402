-- What the slave does with the commands that it hears, and what it answers. A command
-- frame is claimed and executed at most once, and each shell reply on the bus is the
-- answer of an execution.
import MotionCore.Bus.SlaveSlot
import MotionCore.Bus.Traffic

open motioncore.bytes motioncore.machine

namespace motioncore.bus

/-! ## The interrupt -/

/-- A frame that the interrupt shows on the bus: an answer without a command class, or one
of the two buffers. -/
def Slave.Offers (s : Slave) (g : Rs485Frame) : Prop :=
  g.cls = RS485_FT_DATA →
    s.il_msg_fresh = true ∧ g.payload = s.il_msg.take RS485_PAYLOAD_MAX ∨
    s.reply_ready = true ∧ g.payload = s.reply.take RS485_PAYLOAD_MAX

def SlaveEv.ofIsr (s : Slave) : SlaveEv → Prop
  | .sent g => s.Offers g
  | .dispatched .. => False
  | _ => True

/-- The interrupt claims a command, or leaves the claim as it is. -/
structure IsrStep (s : Slave) (f : Rs485Frame) (r : Slave × List SlaveEv) : Prop where
  executing : r.1.executing = s.executing
  claim : r.1.work_fresh = true →
    s.work_fresh = true ∧ r.1.input = s.input ∨ f.cls = RS485_FT_DATA ∧ r.1.input = f
  reply : r.1.reply = s.reply ∧ (r.1.reply_ready = true → s.reply_ready = true)
  message : r.1.il_msg = s.il_msg ∧ (r.1.il_msg_fresh = true → s.il_msg_fresh = true)
  shows : ∀ e ∈ r.2, e.ofIsr s

variable {s : Slave}

theorem IsrStep.quiet {f : Rs485Frame} {r : Slave × List SlaveEv} (h : IsrStep s f r)
    (g : Rs485Frame) (exec body : List UInt8) : .dispatched g exec body ∉ r.2 :=
  fun hmem => h.shows _ hmem

theorem txAsync_shows {g : Rs485Frame} (hg : s.Offers g) (txFree : Bool) :
    ∀ e ∈ txAsync txFree g, e.ofIsr s := by
  unfold txAsync
  split
  · intro e he
    rw [List.mem_singleton.mp he]
    exact hg
  · exact fun _ he => absurd he List.not_mem_nil

theorem slaveRxIsr_step (me : UInt8) (s : Slave) (f : Rs485Frame) (txFree : Bool) :
    IsrStep s f (slaveRxIsr me s f txFree) := by
  have hsnoc : ∀ (g : Rs485Frame) (e : SlaveEv), s.Offers g → e.ofIsr s →
      ∀ e' ∈ txAsync txFree g ++ [e], e'.ofIsr s := by
    intro g e hg he e' hmem
    rcases List.mem_append.mp hmem with hmem | hmem
    · exact txAsync_shows hg txFree e' hmem
    · exact List.mem_singleton.mp hmem ▸ he
  have hack : RS485_FT_ACK &&& RS485_FT_MASK ≠ RS485_FT_DATA := by decide
  have hnak : RS485_FT_NAK &&& RS485_FT_MASK ≠ RS485_FT_DATA := by decide
  have hnone : RS485_FT_NO_MESSAGE &&& RS485_FT_MASK ≠ RS485_FT_DATA := by decide
  unfold slaveRxIsr
  dsimp only
  split
  · split
    · rename_i hfresh
      exact ⟨rfl, fun hw => Or.inl ⟨hw, rfl⟩, ⟨rfl, id⟩, ⟨rfl, fun _ => hfresh⟩,
        txAsync_shows (fun _ => Or.inl ⟨hfresh, rfl⟩) txFree⟩
    split
    · rename_i hready
      split
      · exact ⟨rfl, fun hw => Or.inl ⟨hw, rfl⟩, ⟨rfl, fun _ => hready⟩, ⟨rfl, id⟩,
          hsnoc _ _ (fun _ => Or.inr ⟨hready, rfl⟩) trivial⟩
      · exact ⟨rfl, fun hw => Or.inl ⟨hw, rfl⟩, ⟨rfl, id⟩, ⟨rfl, id⟩,
          fun _ he => absurd he List.not_mem_nil⟩
    · refine ⟨rfl, fun hw => Or.inl ⟨hw, rfl⟩, ⟨rfl, id⟩, ⟨rfl, id⟩, txAsync_shows ?_ txFree⟩
      exact fun hcls => absurd hcls hnone
  · split
    · rename_i hcls
      split
      · exact ⟨rfl, fun hw => Or.inl ⟨hw, rfl⟩, ⟨rfl, id⟩, ⟨rfl, id⟩,
          fun _ he => absurd he List.not_mem_nil⟩
      · split
        · exact ⟨rfl, fun _ => Or.inr ⟨hcls, rfl⟩, ⟨rfl, id⟩, ⟨rfl, id⟩,
            hsnoc _ _ (fun hcls => absurd hcls hack) trivial⟩
        · exact ⟨rfl, fun hw => Or.inl ⟨hw, rfl⟩, ⟨rfl, id⟩, ⟨rfl, id⟩,
            hsnoc _ _ (fun hcls => absurd hcls hnak) trivial⟩
    · exact ⟨rfl, fun hw => Or.inl ⟨hw, rfl⟩, ⟨rfl, id⟩, ⟨rfl, id⟩,
        fun _ he => absurd he List.not_mem_nil⟩

/-! ## The main loop -/

/-- Events of the main loop, but for the dispatch. -/
def SlaveEv.ofLoop : SlaveEv → Bool
  | .pickedUp .. => true
  | .expired _ => true
  | _ => false

structure BeforePickup (s : Slave) (r : Slave × List SlaveEv) : Prop where
  input : r.1.input = s.input
  executing : r.1.executing = s.executing
  fresh : r.1.work_fresh = true → s.work_fresh = true
  reply : r.1.reply = s.reply ∧ (r.1.reply_ready = true → s.reply_ready = true)
  message : r.1.il_msg = s.il_msg ∧ r.1.il_msg_fresh = s.il_msg_fresh ∨
    opcodeOf r.1.il_msg = OP_BUS_INTERLOCK_MSG
  shows : ∀ e ∈ r.2, e.ofLoop = true

theorem primeSummary_before (s : Slave) (i : LoopInput) :
    BeforePickup s (primeSummary s i, []) := by
  unfold primeSummary
  dsimp only
  split
  · exact ⟨rfl, rfl, id, ⟨rfl, id⟩, Or.inr (opcodeOf_withOpcode _ _),
      fun _ he => absurd he List.not_mem_nil⟩
  · exact ⟨rfl, rfl, id, ⟨rfl, id⟩, Or.inl ⟨rfl, rfl⟩, fun _ he => absurd he List.not_mem_nil⟩

theorem busyWatchdog_before (s : Slave) (i : LoopInput) :
    BeforePickup s (busyWatchdog (primeSummary s i)) := by
  have hprime := primeSummary_before s i
  unfold busyWatchdog
  split
  · refine ⟨hprime.input, hprime.executing, fun h => absurd h Bool.false_ne_true,
      ⟨hprime.reply.1, fun h => absurd h Bool.false_ne_true⟩, hprime.message, fun e he => ?_⟩
    rw [List.mem_singleton.mp he]
    rfl
  · exact hprime

structure PickupStep (s : Slave) (r : Slave × List SlaveEv) : Prop where
  fresh : r.1.work_fresh = false
  executing : ∀ f hdr, r.1.executing = some (f, hdr) → s.executing = some (f, hdr) ∨
    s.work_fresh = true ∧ f = s.input ∧ ∃ exec_timeout t,
      slaveCmdParse f.payload = some (hdr, exec_timeout) ∧ .pickedUp f exec_timeout t ∈ r.2
  reply : r.1.reply = s.reply ∧ r.1.reply_ready = s.reply_ready
  message : r.1.il_msg = s.il_msg ∧ r.1.il_msg_fresh = s.il_msg_fresh
  shows : ∀ e ∈ r.2, e.ofLoop = true

theorem pickup_step (s : Slave) : PickupStep s (pickup s) := by
  unfold pickup
  split
  · rename_i hwork
    dsimp only
    split
    · exact ⟨rfl, fun f hdr h => Or.inl h, ⟨rfl, rfl⟩, ⟨rfl, rfl⟩,
        fun _ he => absurd he List.not_mem_nil⟩
    · rename_i hdr exec_timeout hparse
      refine ⟨rfl, fun f hdr' h => ?_, ⟨rfl, rfl⟩, ⟨rfl, rfl⟩, fun e he => ?_⟩
      · rw [Option.some.injEq, Prod.mk.injEq] at h
        obtain ⟨rfl, rfl⟩ := h
        exact Or.inr ⟨hwork, rfl, exec_timeout, s.clock, hparse, List.mem_singleton_self _⟩
      · rw [List.mem_singleton.mp he]
        rfl
  · rename_i hwork
    exact ⟨Bool.eq_false_iff.mpr hwork, fun f hdr h => Or.inl h, ⟨rfl, rfl⟩, ⟨rfl, rfl⟩,
      fun _ he => absurd he List.not_mem_nil⟩

/-- No event of the main loop before the dispatch is a dispatch. -/
theorem not_dispatched {events : List SlaveEv} (h : ∀ e ∈ events, e.ofLoop = true)
    (g : Rs485Frame) (exec body : List UInt8) : .dispatched g exec body ∉ events :=
  fun hmem => Bool.false_ne_true (h _ hmem)

end motioncore.bus
