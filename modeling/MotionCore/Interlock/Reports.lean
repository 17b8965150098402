-- Two reports of a slave speak of its interlocks: the summary in each poll, and
-- the message with the slots. The host compares them (`reconcile_interlocks`), and
-- they agree exactly when the message's slot 0 stands for all that is tripped.
import MotionCore.Host.Controller
import MotionCore.Interlock.Slots

open motioncore.host

namespace motioncore.interlock

def summaryOf (p : Persist) : UInt8 := interlockSummaryFlags (statusSlot p)

structure HoldsReports (p : Persist) (h : Host) (i : Fin ROSTER_MAX_SLAVES) : Prop where
  in_roster : i.val < h.roster.slaves.length
  flags : cmdTrackerInterlock h (h.roster.slave i).addr =
    some (summaryOf p &&& 1 != 0, summaryOf p)
  message : cmdTrackerInterlockMsg h (h.roster.slave i).addr =
    (interlockBuildStatusV2 p).take CMD_IL_MSG_MAX

/-- Bit 0 of the summary is what the host reads from the message, and a host with
both reports sees no gap. -/
structure ReportsAgree (p : Persist) : Prop where
  bit : msgTripped ((interlockBuildStatusV2 p).take CMD_IL_MSG_MAX) = (summaryOf p &&& 1 != 0)
  no_gap : ∀ (send : Send) (h : Host) (i : Fin ROSTER_MAX_SLAVES), HoldsReports p h i →
    reconcileSlave send h i = h.setGap i 0

/-- The message says that slot 0 is tripped. It names the value of a text slot in
any state. -/
def slotZeroTold (p : Persist) : Bool :=
  let slot : SlotIx := ⟨0, Nat.zero_lt_two⟩
  (p.slots slot).id == INTERLOCK_ID_DSL && (p.inst slot).tf_state == IL_TF_FALSE

/-- When the reports agree. -/
structure SlotZeroSpeaks (p : Persist) : Prop where
  /-- A trip of slot 1 goes with one of slot 0. -/
  other : vetoMask p 1 = true → slotZeroTold p = true
  /-- Only a text slot trips. -/
  text : vetoMask p 0 = true → (p.slots 0).id = INTERLOCK_ID_DSL
  /-- A text slot that is not armed has no value left over. -/
  armed : slotZeroTold p = true → (p.slots 0).state ≠ INTERLOCK_SLOT_ARMED → vetoMask p 1 = true

theorem summary_bit (p : Persist) : (summaryOf p &&& 1 != 0) = (vetoMask p 0 || vetoMask p 1) := by
  have hslot : ∀ k, ((statusSlot p k).state == INTERLOCK_SLOT_ARMED &&
      (statusSlot p k).tf == IL_TF_FALSE) = vetoMask p k := by
    intro k
    unfold vetoMask statusSlot
    by_cases h : (p.slots k).state = INTERLOCK_SLOT_ARMED
    · rw [if_pos h]
    · rw [if_neg h, beq_eq_false_iff_ne.mpr h, Bool.false_and, Bool.false_and]
  have hany : ((List.finRange INTERLOCK_MAX_SLOTS).any fun k =>
      (statusSlot p k).state == INTERLOCK_SLOT_ARMED && (statusSlot p k).tf == IL_TF_FALSE) =
        (vetoMask p 0 || vetoMask p 1) := by
    simp only [hslot]
    exact congrArg (vetoMask p 0 || ·) (Bool.or_false _)
  unfold summaryOf interlockSummaryFlags
  rw [hany]
  cases vetoMask p 0 || vetoMask p 1 <;> decide

theorem message_bit (p : Persist) :
    msgTripped ((interlockBuildStatusV2 p).take CMD_IL_MSG_MAX) = slotZeroTold p := by
  have hmsg : ∃ rest, (interlockBuildStatusV2 p).take CMD_IL_MSG_MAX =
      2 :: 2 :: (p.slots 0).state :: (p.slots 0).id :: (p.slots 0).boot_counter ::
        (if (p.slots 0).id = INTERLOCK_ID_DSL then (p.inst 0).tf_state else 0) :: rest :=
    ⟨_, rfl⟩
  obtain ⟨rest, hrest⟩ := hmsg
  rw [hrest]
  unfold msgTripped slotZeroTold
  change _ = ((p.slots 0).id == INTERLOCK_ID_DSL && (p.inst 0).tf_state == IL_TF_FALSE)
  have hlen : decide (6 ≤ (2 :: 2 :: (p.slots 0).state :: (p.slots 0).id ::
      (p.slots 0).boot_counter ::
        (if (p.slots 0).id = INTERLOCK_ID_DSL then (p.inst 0).tf_state else 0) :: rest).length) =
      true := by
    simp only [List.length_cons, decide_eq_true_eq]
    omega
  rw [hlen, Bool.true_and]
  by_cases h : (p.slots 0).id = INTERLOCK_ID_DSL
  · rw [if_pos h, beq_iff_eq.mpr h, Bool.true_and]
    rfl
  · rw [if_neg h, beq_eq_false_iff_ne.mpr h, Bool.false_and]
    rfl

/-- The reports agree exactly in the states where slot 0 speaks for both slots. -/
theorem reports_agree_when_slot_zero_speaks (p : Persist) : ReportsAgree p ↔ SlotZeroSpeaks p := by
  have hveto : vetoMask p 0 = true →
      (p.slots 0).state = INTERLOCK_SLOT_ARMED ∧ (p.inst 0).tf_state = IL_TF_FALSE := by
    intro h
    unfold vetoMask at h
    rw [Bool.and_eq_true, beq_iff_eq, beq_iff_eq] at h
    exact h
  have htold : slotZeroTold p = true ↔
      (p.slots 0).id = INTERLOCK_ID_DSL ∧ (p.inst 0).tf_state = IL_TF_FALSE := by
    unfold slotZeroTold
    rw [Bool.and_eq_true, beq_iff_eq, beq_iff_eq]
    exact Iff.rfl
  constructor
  · intro h
    have hbit := h.bit
    rw [message_bit, summary_bit] at hbit
    refine ⟨fun h1 => ?_, fun h0 => ?_, fun ht hn => ?_⟩
    · rw [hbit, h1, Bool.or_true]
    · exact (htold.mp (by rw [hbit, h0, Bool.true_or])).1
    · rw [hbit, Bool.or_eq_true] at ht
      rcases ht with h0 | h1
      · exact absurd (hveto h0).1 hn
      · exact h1
  · intro h
    have hbit : msgTripped ((interlockBuildStatusV2 p).take CMD_IL_MSG_MAX) =
        (summaryOf p &&& 1 != 0) := by
      rw [message_bit, summary_bit, Bool.eq_iff_iff, Bool.or_eq_true]
      constructor
      · intro ht
        by_cases harmed : (p.slots 0).state = INTERLOCK_SLOT_ARMED
        · left
          unfold vetoMask
          rw [Bool.and_eq_true, beq_iff_eq, beq_iff_eq]
          exact ⟨harmed, (htold.mp ht).2⟩
        · exact Or.inr (h.armed ht harmed)
      · rintro (h0 | h1)
        · exact htold.mpr ⟨h.text h0, (hveto h0).2⟩
        · exact h.other h1
    refine ⟨hbit, fun send g i hg => ?_⟩
    unfold reconcileSlave
    dsimp only
    rw [if_neg (Nat.not_le.mpr hg.in_roster), hg.flags]
    dsimp only
    rw [hg.message, hbit, if_pos rfl]

/-- An interlock that wants its input high. -/
def highText : List UInt8 :=
  ascii ['x', ';', 'c', 'f', 'g', '[', 'D', '1', ':', 'i', 'n', ']', ';',
    'w', 'a', 't', 'c', 'h', '[', 'D', '1', ':', '1', ']']

def lowSamples : Samples where
  gpio := fun _ => false
  adc := fun _ _ _ => 0
  virt := fun _ => 0

/-- Slot 0 is empty, and slot 1 is armed with a text and tripped. -/
def trippedInSlotOne : Interlocks :=
  interlockTickAll lowSamples (interlockSetSlotDsl (.boot persistColdInit) 1 highText).1

set_option maxRecDepth 16000 in
/-- The message shows slot 0 only, so the host does not see the trip of slot 1. -/
theorem slot_one_is_not_told : ¬ ∀ p, ReportsAgree p := by
  intro h
  have hbit := (h trippedInSlotOne.persist).bit
  exact absurd hbit (by decide)

end motioncore.interlock
