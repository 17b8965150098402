-- The laws of warm boots: the record stays valid, an armed slot is poisoned when it
-- survives too many boots, a poisoned slot is out, and a slot that is restored is
-- as if it had been armed anew.
import Mathlib.Algebra.GroupWithZero.Nat
import MotionCore.Interlock.Shares

open motioncore.bytes motioncore.machine

namespace motioncore.interlock

/-! ## The laws -/

def armsSlot (k : SlotIx) (s : Interlocks) : IlOp → Prop
  | .arm slot id => slotIx slot = some k ∧ (interlockArmSlotCompiled s slot id).2 = .ok
  | .setSlotDsl slot text => slotIx slot = some k ∧ (interlockSetSlotDsl s slot text).2.1 = .ok
  | _ => False

def disarmsSlot (k : SlotIx) : IlOp → Prop
  | .disarm slot => slotIx slot = some k
  | _ => False

def bootsOf : IlOp → Nat
  | .warmBoot _ _ => 1
  | _ => 0

def warmBoots (ops : List IlOp) : Nat := (ops.map bootsOf).sum

/-- The slot `k` is as after a fresh arm of its text on the chip `t`. -/
structure SameAsArmed (s : Interlocks) (k : SlotIx) (t : Interlocks) : Prop where
  inst : s.persist.inst k = t.persist.inst k
  runtime : s.runtime k = t.runtime k
  shares : sharesOf k s.pins = sharesOf k t.pins

/-- A slot that was restored: its text is parsed anew, its runtime state is clear, and
it is as after a fresh arm of the same text. On a cold chip that arm succeeds. -/
structure LikeFreshArm (s : Interlocks) (k : SlotIx) : Prop where
  parsed : ilParse (s.persist.text k) = .ok (s.persist.inst k)
  runtime : s.runtime k = .clear
  fresh : ∀ t slot, slotIx slot = some k → (∀ i, (t.pins.claims i).slot_mask k = false) →
    (interlockSetSlotDsl t slot (s.persist.text k)).2.1 = .ok →
    SameAsArmed s k (interlockSetSlotDsl t slot (s.persist.text k)).1
  cold : ∀ slot, slotIx slot = some k →
    (interlockSetSlotDsl (.boot persistColdInit) slot (s.persist.text k)).2.1 = .ok

def Restored (s : Interlocks) (k : SlotIx) : Prop :=
  (s.persist.slots k).state = INTERLOCK_SLOT_ARMED → (s.persist.slots k).id = INTERLOCK_ID_DSL →
    LikeFreshArm s k

/-- What holds in every state, of the record and of the runs that go on from there. -/
structure BootLaws (s : Interlocks) : Prop where
  record_is_valid : persistIsValid s.persist = true
  armed_survives_three : ∀ k ops s', (s.persist.slots k).state = INTERLOCK_SLOT_ARMED →
    Meets interlockStep (fun t op => ¬ armsSlot k t op) s ops →
    runs interlockStep s ops = some s' →
    (s'.persist.slots k).state = INTERLOCK_SLOT_ARMED →
    warmBoots ops ≤ INTERLOCK_MAX_BOOT_ATTEMPTS.toNat
  then_poisoned : ∀ k ops s', (s.persist.slots k).state = INTERLOCK_SLOT_ARMED →
    Meets interlockStep (fun t op => ¬ armsSlot k t op ∧ ¬ disarmsSlot k op) s ops →
    runs interlockStep s ops = some s' →
    INTERLOCK_MAX_BOOT_ATTEMPTS.toNat < warmBoots ops →
    (s'.persist.slots k).state = INTERLOCK_SLOT_POISONED
  poisoned_is_out : ∀ k, (s.persist.slots k).state = INTERLOCK_SLOT_POISONED →
    (∀ i, (s.pins.claims i).slot_mask k = false) ∧ vetoMask s.persist k = false
  restored : ∀ k, Restored (interlockWarmRestore s) k
  restored_at_boot : ∀ k cause active, Restored (ilApply s (.warmBoot cause active)) k

/-! ## A good slot -/

theorem poisoned_ne_armed : INTERLOCK_SLOT_POISONED ≠ INTERLOCK_SLOT_ARMED := by decide

theorem empty_ne_armed : INTERLOCK_SLOT_EMPTY ≠ INTERLOCK_SLOT_ARMED := by decide

theorem fresh_counter_le : (0 : UInt8) ≤ INTERLOCK_MAX_BOOT_ATTEMPTS := by decide

theorem cold_valid : ∀ k, slotIsValid persistColdInit k = true := by decide

/-- The text of the slot gives its instance, up to the vote, and its shares. -/
def TextClaims (s : Interlocks) (k : SlotIx) : Prop :=
  ∃ parsed q, ilParse (s.persist.text k) = .ok parsed ∧
    s.persist.inst k = { parsed with tf_state := (s.persist.inst k).tf_state } ∧
    claimInstPins .boot k parsed = (q, .ok) ∧ sharesOf k s.pins = sharesOf k q

structure SlotGood (s : Interlocks) (k : SlotIx) : Prop where
  valid : slotIsValid s.persist k = true
  counter : (s.persist.slots k).state = INTERLOCK_SLOT_ARMED →
    (s.persist.slots k).boot_counter ≤ INTERLOCK_MAX_BOOT_ATTEMPTS
  text : (s.persist.slots k).state = INTERLOCK_SLOT_ARMED →
    (s.persist.slots k).id = INTERLOCK_ID_DSL → TextClaims s k

structure BootInv (s : Interlocks) : Prop where
  pins : PinsInv s
  head : verifyPersist s.persist = true
  crash : crashIsValid s.persist.crash = true
  slots : ∀ k, SlotGood s k

variable {s : Interlocks}

theorem BootInv.valid (h : BootInv s) : persistIsValid s.persist = true := by
  unfold persistIsValid
  rw [h.head, h.crash, Bool.true_and, Bool.and_true, List.all_eq_true]
  exact fun k _ => (h.slots k).valid

variable {p : Persist} {k : SlotIx}

theorem slotIsValid_congr {q : Persist} (hslot : q.slots k = p.slots k)
    (hlen : q.dsl_len k = p.dsl_len k) : slotIsValid q k = slotIsValid p k := by
  unfold slotIsValid
  rw [hslot, hlen]

theorem slotIsValid_not_armed (hstate : (p.slots k).state ≤ INTERLOCK_SLOT_POISONED)
    (hid : (p.slots k).id = INTERLOCK_ID_NONE ∨ (p.slots k).id = INTERLOCK_ID_NOOP ∨
      (p.slots k).id = INTERLOCK_ID_DSL)
    (h : (p.slots k).state ≠ INTERLOCK_SLOT_ARMED) : slotIsValid p k = true := by
  have hid' : ((p.slots k).id == INTERLOCK_ID_NONE || (p.slots k).id == INTERLOCK_ID_NOOP ||
      (p.slots k).id == INTERLOCK_ID_DSL) = true := by
    rw [Bool.or_eq_true, Bool.or_eq_true, beq_iff_eq, beq_iff_eq, beq_iff_eq, or_assoc]
    exact hid
  unfold slotIsValid
  dsimp only
  rw [decide_eq_true hstate, hid', beq_eq_false_iff_ne.mpr h]
  rfl

theorem slotIsValid_id (h : slotIsValid p k = true) :
    (p.slots k).id = INTERLOCK_ID_NONE ∨ (p.slots k).id = INTERLOCK_ID_NOOP ∨
      (p.slots k).id = INTERLOCK_ID_DSL := by
  unfold slotIsValid at h
  simp only [Bool.and_eq_true, Bool.or_eq_true, beq_iff_eq] at h
  exact or_assoc.mp h.1.1.2

theorem poison_valid {p' : Persist} (h : slotIsValid p k = true)
    (hp : p'.slots k = { p.slots k with state := INTERLOCK_SLOT_POISONED }) :
    slotIsValid p' k = true := by
  apply slotIsValid_not_armed
  · rw [hp]
    exact UInt8.le_refl _
  · rw [hp]
    exact slotIsValid_id h
  · rw [hp]
    exact poisoned_ne_armed

theorem SlotGood.of_not_armed (hvalid : slotIsValid s.persist k = true)
    (h : (s.persist.slots k).state ≠ INTERLOCK_SLOT_ARMED) : SlotGood s k :=
  ⟨hvalid, fun ha => absurd ha h, fun ha => absurd ha h⟩

theorem SameSlot.trans {q r : Persist} (h1 : SameSlot p q k) (h2 : SameSlot q r k) :
    SameSlot p r k := by
  refine ⟨h2.slot.trans h1.slot, ?_, h2.len.trans h1.len, h2.text.trans h1.text⟩
  rw [h2.inst, h1.inst]

variable {s' : Interlocks}

theorem TextClaims.of_same (h : TextClaims s k) (hsame : SameSlot s.persist s'.persist k)
    (hshares : sharesOf k s'.pins = sharesOf k s.pins) : TextClaims s' k := by
  obtain ⟨parsed, q, hparse, hinst, hq, hq'⟩ := h
  refine ⟨parsed, q, ?_, ?_, hq, hshares.trans hq'⟩
  · unfold Persist.text
    rw [hsame.len, hsame.text]
    exact hparse
  · rw [hsame.inst]
    conv_lhs => rw [hinst]

theorem SlotGood.of_same (h : SlotGood s k) (hsame : SameSlot s.persist s'.persist k)
    (hshares : sharesOf k s'.pins = sharesOf k s.pins) : SlotGood s' k := by
  refine ⟨?_, fun ha => ?_, fun ha hid => ?_⟩
  · rw [slotIsValid_congr hsame.slot hsame.len]
    exact h.valid
  · rw [hsame.slot] at ha ⊢
    exact h.counter ha
  · rw [hsame.slot] at ha hid
    exact (h.text ha hid).of_same hsame hshares

theorem SlotGood.of_kept (h : SlotGood s k) (hkept : SlotKept s s' k) : SlotGood s' k :=
  h.of_same hkept.sameSlot (funext hkept.share)

/-- One slot has moved to a good place, the others have stayed. -/
theorem BootInv.of_slot (h : BootInv s) (honly : OnlySlot k s s') (hpins : PinsInv s')
    (hself : SlotGood s' k) : BootInv s' := by
  refine ⟨hpins, honly.head.trans h.head, ?_, fun k' => ?_⟩
  · rw [honly.crash]
    exact h.crash
  · by_cases hk : k' = k
    · exact hk ▸ hself
    · exact (h.slots k').of_kept (honly.others k' hk)

/-! ## The parse of a text -/

variable {text : List UInt8}

theorem ilParse_unevaluated {inst : IlInst} (h : ilParse text = .ok inst) :
    { inst with tf_state := IL_TF_UNEVALUATED } = inst := by
  unfold ilParse at h
  split at h
  · cases h
  · split at h
    · cases h
    · split at h
      · cases h
      · rw [Except.ok.injEq] at h
        rw [← h]

variable {parsed : IlInst}

theorem same_up_to_vote {inst : IlInst} (h : inst = parsed) :
    inst = { parsed with tf_state := inst.tf_state } := by
  rw [h]

/-! ## Arming -/

variable {slot : UInt8}

theorem arm_good (hk : slotIx slot = some k) (h : SlotGood s k) (id : UInt8) :
    SlotGood (interlockArmSlotCompiled s slot id).1 k := by
  unfold interlockArmSlotCompiled
  rw [hk]
  dsimp only
  split
  · exact h
  · rename_i hid
    rw [not_or, not_or] at hid
    split
    · exact h
    · have hslot : ((s.persist.setSlot k ⟨INTERLOCK_SLOT_ARMED, id, 0⟩).setInst k .zero).slots k =
          ⟨INTERLOCK_SLOT_ARMED, id, 0⟩ := Function.update_self k _ _
      have hnoop : id = INTERLOCK_ID_NOOP := by
        have hle := UInt8.le_iff_toNat_le.mp (UInt8.not_lt.mp hid.2.2)
        have hne : id.toNat ≠ 0 := fun h0 => hid.1 (UInt8.toNat_inj.mp h0)
        apply UInt8.toNat_inj.mp
        have h1 : g_interlock_count.toNat = 1 := rfl
        have h2 : INTERLOCK_ID_NOOP.toNat = 1 := rfl
        omega
      refine ⟨?_, fun _ => ?_, fun _ hdsl => ?_⟩
      · change slotIsValid ((s.persist.setSlot k ⟨INTERLOCK_SLOT_ARMED, id, 0⟩).setInst k .zero) k =
          true
        unfold slotIsValid
        rw [hslot, hnoop]
        rfl
      · exact (congrArg SlotPersist.boot_counter hslot).trans_le fresh_counter_le
      · exact absurd ((congrArg SlotPersist.id hslot).symm.trans hdsl) hid.2.1

theorem disarm_good (hk : slotIx slot = some k) : SlotGood (interlockDisarmSlot s slot).1 k := by
  unfold interlockDisarmSlot
  rw [hk]
  have hslot : (s.persist.setSlot k .empty).slots k = .empty := Function.update_self k _ _
  refine .of_not_armed (slotIsValid_not_armed ?_ ?_ ?_) ?_
  · exact (congrArg SlotPersist.state hslot).trans_le (by decide)
  · exact Or.inl (congrArg SlotPersist.id hslot)
  · exact fun ha => absurd ((congrArg SlotPersist.state hslot).symm.trans ha) (by decide)
  · exact fun ha => absurd ((congrArg SlotPersist.state hslot).symm.trans ha) (by decide)

theorem setText_good {pins q : Pins} (hlen : text.length ≠ 0 ∧ text.length < IL_DSL_MAX)
    (hparse : ilParse text = .ok parsed) (hq : claimInstPins .boot k parsed = (q, .ok))
    (hshares : sharesOf k pins = sharesOf k q) : SlotGood (({ s with pins }.modPersist fun p =>
      ((p.setInst k parsed).setText k text).setSlot k
        ⟨INTERLOCK_SLOT_ARMED, INTERLOCK_ID_DSL, 0⟩).clearRuntime k) k := by
  have hown := owner_of_setText s.persist (k := k) hlen hparse
  have hslot : (((s.persist.setInst k parsed).setText k text).setSlot k
      ⟨INTERLOCK_SLOT_ARMED, INTERLOCK_ID_DSL, 0⟩).slots k =
      ⟨INTERLOCK_SLOT_ARMED, INTERLOCK_ID_DSL, 0⟩ := Function.update_self k _ _
  have hinst : (s.persist.setInst k parsed).inst k = parsed := Function.update_self k _ _
  have htext : ((s.persist.setInst k parsed).setText k text).text k = text := by
    unfold Persist.text Persist.setText
    dsimp only
    rw [Function.update_self, Function.update_self, List.take_length]
  refine ⟨?_, fun _ => ?_, fun _ _ => ⟨parsed, q, ?_, same_up_to_vote hinst, hq, hshares⟩⟩
  · have h0 := beq_eq_false_iff_ne.mpr hown.len.1
    have hle := decide_eq_false (Nat.not_le.mpr hown.len.2)
    change slotIsValid (((s.persist.setInst k parsed).setText k text).setSlot k
      ⟨INTERLOCK_SLOT_ARMED, INTERLOCK_ID_DSL, 0⟩) k = true
    unfold slotIsValid
    rw [hslot, h0, hle]
    rfl
  · exact (congrArg SlotPersist.boot_counter hslot).trans_le fresh_counter_le
  · exact (congrArg ilParse htext).trans hparse

theorem setSlotDsl_good (hk : slotIx slot = some k) (hpins : PinsInv s) (h : SlotGood s k)
    (text : List UInt8) : SlotGood (interlockSetSlotDsl s slot text).1 k := by
  unfold interlockSetSlotDsl
  rw [hk]
  dsimp only
  split
  · exact h
  · rename_i hlen
    rw [not_or, Nat.not_le] at hlen
    split
    · exact h
    · rename_i hfree
      split
      · exact h
      · rename_i parsed hparse
        split
        · rename_i pins hclaim
          obtain ⟨q, hq, hshares⟩ := claims_on_a_cold_chip (hpins.owns_nothing hfree) hclaim
          exact setText_good hlen hparse hq hshares
        · exact .of_not_armed h.valid hfree

/-! ## The restore of one slot -/

/-- A slot before its restore: it has no shares yet, or those of its text. -/
structure Restorable (s : Interlocks) (k : SlotIx) : Prop where
  valid : slotIsValid s.persist k = true
  counter : (s.persist.slots k).state = INTERLOCK_SLOT_ARMED →
    (s.persist.slots k).boot_counter ≤ INTERLOCK_MAX_BOOT_ATTEMPTS
  shares : (∀ i, (s.pins.claims i).slot_mask k = false) ∨ SlotGood s k

theorem SlotGood.restorable (h : SlotGood s k) : Restorable s k :=
  ⟨h.valid, h.counter, Or.inr h⟩

theorem Restorable.of_kept (h : Restorable s k) (hkept : SlotKept s s' k) : Restorable s' k := by
  refine ⟨?_, fun ha => ?_, ?_⟩
  · rw [slotIsValid_congr hkept.slot hkept.len]
    exact h.valid
  · rw [hkept.slot] at ha ⊢
    exact h.counter ha
  · rcases h.shares with hnone | hgood
    · exact Or.inl fun i => (mask_of_share (hkept.share i)).trans (hnone i)
    · exact Or.inr (hgood.of_kept hkept)

theorem Restorable.claims {pins : Pins} (h : Restorable s k)
    (harmed : (s.persist.slots k).state = INTERLOCK_SLOT_ARMED)
    (hid : (s.persist.slots k).id = INTERLOCK_ID_DSL)
    (hparse : ilParse (s.persist.text k) = .ok parsed)
    (hclaim : claimInstPins s.pins k parsed = (pins, .ok)) :
    ∃ q, claimInstPins .boot k parsed = (q, .ok) ∧ sharesOf k pins = sharesOf k q := by
  rcases h.shares with hnone | hgood
  · exact claims_on_a_cold_chip hnone hclaim
  · obtain ⟨parsed', q, hparse', _, hq, hshares⟩ := hgood.text harmed hid
    obtain rfl : parsed' = parsed := Except.ok.inj (hparse'.symm.trans hparse)
    exact ⟨q, hq, same_shares_again hclaim hq hshares⟩

theorem poison_good (h : slotIsValid s.persist k = true) : SlotGood (s.poison k) k := by
  have hslot : (s.poison k).persist.slots k =
      { s.persist.slots k with state := INTERLOCK_SLOT_POISONED } := Function.update_self k _ _
  refine .of_not_armed (poison_valid h hslot) fun ha => ?_
  rw [hslot] at ha
  exact poisoned_ne_armed ha

theorem poison_not_armed (s : Interlocks) (k : SlotIx) :
    ((s.poison k).persist.slots k).state ≠ INTERLOCK_SLOT_ARMED := by
  have hslot : (s.poison k).persist.slots k =
      { s.persist.slots k with state := INTERLOCK_SLOT_POISONED } := Function.update_self k _ _
  rw [hslot]
  exact poisoned_ne_armed

def JustRestored (s : Interlocks) (k : SlotIx) : Prop :=
  (s.persist.slots k).state = INTERLOCK_SLOT_ARMED → (s.persist.slots k).id = INTERLOCK_ID_DSL →
    ilParse (s.persist.text k) = .ok (s.persist.inst k) ∧ s.runtime k = .clear

theorem warmRestoreSlot_good (h : Restorable s k) :
    SlotGood (warmRestoreSlot s k) k ∧ JustRestored (warmRestoreSlot s k) k := by
  have hpoison : ∀ pins, SlotGood ({ s with pins }.poison k) k ∧
      JustRestored ({ s with pins }.poison k) k := fun pins =>
    ⟨poison_good h.valid, fun ha => absurd ha (poison_not_armed _ k)⟩
  unfold warmRestoreSlot
  dsimp only
  split
  · rename_i hfree
    exact ⟨.of_not_armed h.valid hfree, fun ha => absurd ha hfree⟩
  · rename_i harmed
    rw [not_not] at harmed
    split
    · rename_i hid
      exact ⟨⟨h.valid, h.counter, fun _ hdsl => absurd hdsl hid⟩, fun _ hdsl => absurd hdsl hid⟩
    · rename_i hid
      rw [not_not] at hid
      split
      · exact hpoison s.pins
      · split
        · exact hpoison s.pins
        · rename_i parsed hparse
          split
          · rename_i pins hclaim
            obtain ⟨q, hq, hshares⟩ := h.claims harmed hid hparse hclaim
            have hinst : (s.persist.setInst k
                { parsed with tf_state := IL_TF_UNEVALUATED }).inst k = parsed :=
              (Function.update_self k _ _).trans (ilParse_unevaluated hparse)
            refine ⟨⟨h.valid, h.counter, fun _ _ =>
              ⟨parsed, q, hparse, same_up_to_vote hinst, hq, hshares⟩⟩, fun _ _ => ⟨?_, ?_⟩⟩
            · exact hparse.trans (congrArg Except.ok hinst.symm)
            · exact Function.update_self k _ _
          · exact hpoison _

theorem JustRestored.of_kept (h : JustRestored s k) (hkept : SlotKept s s' k) :
    JustRestored s' k := by
  unfold JustRestored Persist.text
  rw [hkept.slot, hkept.len, hkept.text, hkept.inst, hkept.runtime]
  exact h

theorem warmRestore_good (h : ∀ k, Restorable s k) (k : SlotIx) :
    SlotGood (interlockWarmRestore s) k ∧ JustRestored (interlockWarmRestore s) k := by
  have h01 : (1 : SlotIx) ≠ 0 := by decide
  have honly0 := warmRestoreSlot_only s 0
  have honly1 := warmRestoreSlot_only (warmRestoreSlot s 0) 1
  have hcases : ∀ k : SlotIx, k = 0 ∨ k = 1 := by decide
  rcases hcases k with rfl | rfl
  · have hgood := warmRestoreSlot_good (h 0)
    have hkept := honly1.others 0 h01.symm
    exact ⟨hgood.1.of_kept hkept, hgood.2.of_kept hkept⟩
  · exact warmRestoreSlot_good ((h 1).of_kept (honly0.others 1 h01))

theorem warmRestore_head (s : Interlocks) :
    verifyPersist (interlockWarmRestore s).persist = verifyPersist s.persist ∧
      (interlockWarmRestore s).persist.crash = s.persist.crash := by
  have honly0 := warmRestoreSlot_only s 0
  have honly1 := warmRestoreSlot_only (warmRestoreSlot s 0) 1
  exact ⟨honly1.head.trans honly0.head, honly1.crash.trans honly0.crash⟩

theorem warmRestore_inv (hpins : PinsInv s) (hhead : verifyPersist s.persist = true)
    (hcrash : crashIsValid s.persist.crash = true) (h : ∀ k, Restorable s k) :
    BootInv (interlockWarmRestore s) := by
  obtain ⟨hh, hc⟩ := warmRestore_head s
  refine ⟨hpins.warmRestore, hh.trans hhead, ?_, fun k => (warmRestore_good h k).1⟩
  rw [hc]
  exact hcrash

/-! ## The boot -/

theorem bootAttempt_valid (h : slotIsValid p k = true) :
    slotIsValid { p with slots := fun i => bootAttempt (p.slots i) } k = true := by
  by_cases harmed : (p.slots k).state = INTERLOCK_SLOT_ARMED
  · by_cases hmax : INTERLOCK_MAX_BOOT_ATTEMPTS ≤ (p.slots k).boot_counter
    · refine poison_valid h ?_
      dsimp only
      unfold bootAttempt
      rw [if_pos harmed, if_pos hmax]
    · have hslot : bootAttempt (p.slots k) =
          { p.slots k with boot_counter := (p.slots k).boot_counter + 1 } := by
        unfold bootAttempt
        rw [if_pos harmed, if_neg hmax]
      unfold slotIsValid at h ⊢
      dsimp only at h ⊢
      rw [hslot]
      exact h
  · have hslot : bootAttempt (p.slots k) = p.slots k := if_neg harmed
    exact (slotIsValid_congr (p := p) (q := { p with slots := fun i => bootAttempt (p.slots i) })
      hslot rfl).trans h

theorem bootAttempt_counter {sp : SlotPersist} (h : (bootAttempt sp).state = INTERLOCK_SLOT_ARMED) :
    sp.state = INTERLOCK_SLOT_ARMED ∧
      (bootAttempt sp).boot_counter.toNat = sp.boot_counter.toNat + 1 ∧
      (bootAttempt sp).boot_counter ≤ INTERLOCK_MAX_BOOT_ATTEMPTS := by
  unfold bootAttempt at h ⊢
  by_cases harmed : sp.state = INTERLOCK_SLOT_ARMED
  · rw [if_pos harmed] at h ⊢
    by_cases hmax : INTERLOCK_MAX_BOOT_ATTEMPTS ≤ sp.boot_counter
    · rw [if_pos hmax] at h
      exact absurd h poisoned_ne_armed
    · rw [if_neg hmax]
      have hlt := UInt8.lt_iff_toNat_lt.mp (UInt8.not_le.mp hmax)
      have h3 : INTERLOCK_MAX_BOOT_ATTEMPTS.toNat = 3 := rfl
      have hadd : (sp.boot_counter + 1).toNat = sp.boot_counter.toNat + 1 := by
        rw [UInt8.toNat_add, UInt8.toNat_one]
        omega
      refine ⟨harmed, hadd, ?_⟩
      rw [UInt8.le_iff_toNat_le, hadd]
      omega
  · rw [if_neg harmed] at h
    exact absurd h harmed

theorem boot_restorable (p : Persist) (k : SlotIx) : Restorable (.boot p) k := by
  have hcold : Restorable { Interlocks.boot p with persist := persistColdInit } k :=
    ⟨cold_valid k, fun h => absurd h empty_ne_armed, Or.inl fun _ => rfl⟩
  by_cases h : persistIsValid p = true
  · have hp : (Interlocks.boot p).persist = { p with slots := fun i => bootAttempt (p.slots i) } :=
      if_pos h
    have hslots := h
    unfold persistIsValid at hslots
    rw [Bool.and_eq_true, Bool.and_eq_true, List.all_eq_true] at hslots
    refine ⟨?_, fun ha => ?_, Or.inl fun _ => rfl⟩
    · rw [hp]
      exact bootAttempt_valid (hslots.1.2 k (List.mem_finRange k))
    · rw [hp] at ha ⊢
      exact (bootAttempt_counter ha).2.2
  · have hp : (Interlocks.boot p).persist = persistColdInit := if_neg h
    have hboot : Interlocks.boot p = { Interlocks.boot p with persist := persistColdInit } :=
      congrArg (fun q => { Interlocks.boot p with persist := q }) hp
    exact hboot ▸ hcold

theorem boot_head (p : Persist) : verifyPersist (Interlocks.boot p).persist = true ∧
    crashIsValid (Interlocks.boot p).persist.crash = true := by
  unfold Interlocks.boot interlockBootDecide
  dsimp only
  split
  · rename_i h
    unfold persistIsValid at h
    rw [Bool.and_eq_true, Bool.and_eq_true] at h
    exact ⟨h.1.1, h.2⟩
  · exact ⟨rfl, rfl⟩

theorem startUp_inv (p : Persist) : BootInv (startUp p) :=
  warmRestore_inv (boot_pinsInv p) (boot_head p).1 (boot_head p).2 (boot_restorable p)

/-! ## One operation -/

theorem activeSlot_valid (active : Option SlotIx) :
    (activeSlot active == INTERLOCK_CRASHED_SLOT_NONE ||
      decide ((activeSlot active).toNat < INTERLOCK_MAX_SLOTS)) = true := by
  have hslots : ∀ k : SlotIx, (activeSlot (some k) == INTERLOCK_CRASHED_SLOT_NONE ||
      decide ((activeSlot (some k)).toNat < INTERLOCK_MAX_SLOTS)) = true := by decide
  cases active with
  | none => rfl
  | some k => exact hslots k

theorem tick_evaluated (smp : Samples) (s : Interlocks) :
    verifyPersist (interlockTickAll smp s).persist = verifyPersist s.persist ∧
      (interlockTickAll smp s).persist.crash = s.persist.crash ∧
      (∀ k, SameSlot s.persist (interlockTickAll smp s).persist k) ∧
      (interlockTickAll smp s).pins.claims = s.pins.claims := by
  have h0 := tickSlot_evaluated smp s 0
  have h1 := tickSlot_evaluated smp (tickSlot smp s 0) 1
  have hclaims := congrArg Pins.claims (h1.pins.trans h0.pins)
  exact ⟨h1.head.trans h0.head, h1.crash.trans h0.crash, fun k => (h0.same k).trans (h1.same k),
    hclaims⟩

variable {op : IlOp}

theorem BootInv.step (h : BootInv s) (hstep : interlockStep s op = some s') : BootInv s' := by
  unfold interlockStep at hstep
  split at hstep
  · cases hstep
    cases op with
    | arm slot id =>
      cases hk : slotIx slot with
      | none =>
        unfold ilApply
        dsimp only
        rw [arm_none hk]
        exact h
      | some k => exact h.of_slot (arm_only hk id) (h.pins.arm slot id) (arm_good hk (h.slots k) id)
    | setSlotDsl slot text =>
      cases hk : slotIx slot with
      | none =>
        unfold ilApply
        dsimp only
        rw [setSlotDsl_none hk]
        exact h
      | some k =>
        exact h.of_slot (setSlotDsl_only hk text) (h.pins.setSlotDsl slot text)
          (setSlotDsl_good hk h.pins (h.slots k) text)
    | disarm slot =>
      cases hk : slotIx slot with
      | none =>
        unfold ilApply
        dsimp only
        rw [disarm_none hk]
        exact h
      | some k => exact h.of_slot (disarm_only hk) (h.pins.disarm slot) (disarm_good hk)
    | warmRestore =>
      exact warmRestore_inv h.pins h.head h.crash fun k => (h.slots k).restorable
    | tick smp =>
      obtain ⟨hhead, hcrash, hsame, hclaims⟩ := tick_evaluated smp s
      refine ⟨h.pins.tick smp, hhead.trans h.head, ?_, fun k => ?_⟩
      · exact (congrArg crashIsValid hcrash).trans h.crash
      · refine (h.slots k).of_same (hsame k) (funext fun i => ?_)
        exact congrArg (fun c => (c i).share k) hclaims
    | warmBoot cause active => exact startUp_inv _
  · cases hstep

variable {ops : List IlOp}

theorem reachable_inv (hrun : runs interlockStep (startUp p) ops = some s) : BootInv s :=
  inv_runs (P := fun _ _ => True) (fun _ _ _ h _ hs => BootInv.step h hs)
    (startUp_inv p) (.of_forall (fun _ _ => trivial) _ _) hrun

/-! ## The boots that a slot survives -/

/-- The entry of a slot when an operation starts to work on it. -/
def afterBoot : IlOp → SlotPersist → SlotPersist
  | .warmBoot _ _, sp => bootAttempt sp
  | _, sp => sp

/-- The entry stays, or its slot is poisoned. -/
def KeptOrPoisoned (sp sp' : SlotPersist) : Prop :=
  sp' = sp ∨ sp' = { sp with state := INTERLOCK_SLOT_POISONED }

theorem warmRestoreSlot_slots (s : Interlocks) (j k : SlotIx) :
    KeptOrPoisoned (s.persist.slots k) ((warmRestoreSlot s j).persist.slots k) := by
  by_cases hk : k = j
  · subst hk
    have hpoison : ∀ pins, KeptOrPoisoned (s.persist.slots k)
        (({ s with pins }.poison k).persist.slots k) :=
      fun pins => Or.inr (Function.update_self k _ _)
    unfold warmRestoreSlot
    dsimp only
    split
    · exact Or.inl rfl
    · split
      · exact Or.inl rfl
      · split
        · exact hpoison s.pins
        · split
          · exact hpoison s.pins
          · split
            · exact Or.inl rfl
            · exact hpoison _
  · exact Or.inl ((warmRestoreSlot_only s j).others k hk).slot

theorem KeptOrPoisoned.trans {a b c : SlotPersist} (h1 : KeptOrPoisoned a b)
    (h2 : KeptOrPoisoned b c) : KeptOrPoisoned a c := by
  rcases h1 with rfl | rfl
  · exact h2
  · rcases h2 with rfl | rfl
    · exact Or.inr rfl
    · exact Or.inr rfl

theorem warmRestore_slots (s : Interlocks) (k : SlotIx) :
    KeptOrPoisoned (s.persist.slots k) ((interlockWarmRestore s).persist.slots k) :=
  (warmRestoreSlot_slots s 0 k).trans (warmRestoreSlot_slots (warmRestoreSlot s 0) 1 k)

theorem arm_slots {id : UInt8} (hno : ¬ armsSlot k s (.arm slot id)) :
    (interlockArmSlotCompiled s slot id).1.persist.slots k = s.persist.slots k := by
  cases hk : slotIx slot with
  | none => rw [arm_none hk]
  | some j =>
    by_cases hj : k = j
    · subst hj
      have hfail : (interlockArmSlotCompiled s slot id).2 ≠ .ok := fun hok => hno ⟨hk, hok⟩
      unfold interlockArmSlotCompiled at hfail ⊢
      rw [hk] at hfail ⊢
      dsimp only at hfail ⊢
      split at hfail
      · rename_i hid
        rw [if_pos hid]
      · rename_i hid
        rw [if_neg hid]
        split at hfail
        · rename_i harmed
          rw [if_pos harmed]
        · exact absurd rfl hfail
    · exact ((arm_only hk id).others k hj).slot

theorem setSlotDsl_slots (hno : ¬ armsSlot k s (.setSlotDsl slot text)) :
    (interlockSetSlotDsl s slot text).1.persist.slots k = s.persist.slots k := by
  cases hk : slotIx slot with
  | none => rw [setSlotDsl_none hk]
  | some j =>
    by_cases hj : k = j
    · subst hj
      have hfail : (interlockSetSlotDsl s slot text).2.1 ≠ .ok := fun hok => hno ⟨hk, hok⟩
      revert hfail
      unfold interlockSetSlotDsl
      rw [hk]
      dsimp only
      split
      · exact fun _ => rfl
      · split
        · exact fun _ => rfl
        · split
          · exact fun _ => rfl
          · split
            · exact fun hfail => absurd rfl hfail
            · exact fun _ => rfl
    · exact ((setSlotDsl_only hk text).others k hj).slot

/-- What one operation that does not arm the slot does to its entry. -/
theorem slot_after (h : BootInv s) (hno : ¬ armsSlot k s op) :
    KeptOrPoisoned (afterBoot op (s.persist.slots k)) ((ilApply s op).persist.slots k) ∨
      disarmsSlot k op ∧ (ilApply s op).persist.slots k = .empty := by
  cases op with
  | arm slot id => exact Or.inl (Or.inl (arm_slots hno))
  | setSlotDsl slot text => exact Or.inl (Or.inl (setSlotDsl_slots hno))
  | disarm slot =>
    cases hk : slotIx slot with
    | none =>
      refine Or.inl (Or.inl ?_)
      unfold ilApply
      dsimp only
      rw [disarm_none hk]
      rfl
    | some j =>
      by_cases hj : k = j
      · subst hj
        refine Or.inr ⟨hk, ?_⟩
        unfold ilApply interlockDisarmSlot
        dsimp only
        rw [hk]
        exact Function.update_self k _ _
      · exact Or.inl (Or.inl ((disarm_only hk).others k hj).slot)
  | warmRestore => exact Or.inl (warmRestore_slots s k)
  | tick smp => exact Or.inl (Or.inl ((tick_evaluated smp s).2.2.1 k).slot)
  | warmBoot cause active =>
    left
    have hvalid : persistIsValid
        { s.persist with crash := crashRecord active s.persist.crash cause } = true := by
      have hcrash : crashIsValid (crashRecord active s.persist.crash cause) = true := by
        cases cause with
        | watchdog => exact h.crash
        | hardFault pc lr rstsr => exact activeSlot_valid active
        | panic code arg sp pc rstsr => exact activeSlot_valid active
      have hall := h.valid
      unfold persistIsValid at hall ⊢
      rw [Bool.and_eq_true, Bool.and_eq_true] at hall ⊢
      exact ⟨hall.1, hcrash⟩
    have hslot : (Interlocks.boot { s.persist with
        crash := crashRecord active s.persist.crash cause }).persist.slots k =
        bootAttempt (s.persist.slots k) := by
      unfold Interlocks.boot interlockBootDecide
      dsimp only
      rw [if_pos hvalid]
    have hrestore := warmRestore_slots (.boot { s.persist with
      crash := crashRecord active s.persist.crash cause }) k
    rw [hslot] at hrestore
    exact hrestore

theorem warmBoots_cons (op : IlOp) (ops : List IlOp) :
    warmBoots (op :: ops) = bootsOf op + warmBoots ops := by
  unfold warmBoots
  rw [List.map_cons, List.sum_cons]

theorem still_armed (h : BootInv s) (hno : ¬ armsSlot k s op)
    (ha : ((ilApply s op).persist.slots k).state = INTERLOCK_SLOT_ARMED) :
    (s.persist.slots k).state = INTERLOCK_SLOT_ARMED ∧
      ((ilApply s op).persist.slots k).boot_counter.toNat =
        (s.persist.slots k).boot_counter.toNat + bootsOf op := by
  rcases slot_after h hno with (hkept | hpoison) | ⟨_, hempty⟩
  · rw [hkept] at ha ⊢
    cases op with
    | warmBoot cause active =>
      obtain ⟨harmed, hcount, _⟩ := bootAttempt_counter ha
      exact ⟨harmed, hcount⟩
    | arm slot id => exact ⟨ha, rfl⟩
    | setSlotDsl slot text => exact ⟨ha, rfl⟩
    | disarm slot => exact ⟨ha, rfl⟩
    | warmRestore => exact ⟨ha, rfl⟩
    | tick smp => exact ⟨ha, rfl⟩
  · rw [hpoison] at ha
    exact absurd ha poisoned_ne_armed
  · rw [hempty] at ha
    exact absurd ha empty_ne_armed

theorem interlockStep_some (h : interlockStep s op = some s') : s' = ilApply s op := by
  unfold interlockStep at h
  split at h
  · exact (Option.some.inj h).symm
  · cases h

theorem armed_run (h : BootInv s) (hno : Meets interlockStep (fun t op => ¬ armsSlot k t op) s ops)
    (hrun : runs interlockStep s ops = some s')
    (ha : (s'.persist.slots k).state = INTERLOCK_SLOT_ARMED) :
    (s.persist.slots k).state = INTERLOCK_SLOT_ARMED ∧
      (s'.persist.slots k).boot_counter.toNat =
        (s.persist.slots k).boot_counter.toNat + warmBoots ops := by
  induction ops generalizing s with
  | nil =>
    cases hrun
    exact ⟨ha, rfl⟩
  | cons op ops ih =>
    simp only [runs_cons, Option.bind_eq_some_iff] at hrun
    obtain ⟨t, ht, hrun⟩ := hrun
    obtain ⟨hta, hcount⟩ := ih (h.step ht) (hno.2 t ht) hrun
    obtain rfl := interlockStep_some ht
    obtain ⟨hsa, hstep⟩ := still_armed h hno.1 hta
    refine ⟨hsa, ?_⟩
    rw [hcount, hstep, warmBoots_cons, Nat.add_assoc]

theorem armed_or_poisoned_run (h : BootInv s)
    (hno : Meets interlockStep (fun t op => ¬ armsSlot k t op ∧ ¬ disarmsSlot k op) s ops)
    (hrun : runs interlockStep s ops = some s')
    (ha : (s.persist.slots k).state = INTERLOCK_SLOT_ARMED ∨ (s.persist.slots k).state =
      INTERLOCK_SLOT_POISONED) : (s'.persist.slots k).state = INTERLOCK_SLOT_ARMED ∨
      (s'.persist.slots k).state = INTERLOCK_SLOT_POISONED := by
  induction ops generalizing s with
  | nil =>
    cases hrun
    exact ha
  | cons op ops ih =>
    simp only [runs_cons, Option.bind_eq_some_iff] at hrun
    obtain ⟨t, ht, hrun⟩ := hrun
    refine ih (h.step ht) (hno.2 t ht) hrun ?_
    obtain rfl := interlockStep_some ht
    have hboot : (afterBoot op (s.persist.slots k)).state = INTERLOCK_SLOT_ARMED ∨
        (afterBoot op (s.persist.slots k)).state = INTERLOCK_SLOT_POISONED := by
      cases op with
      | warmBoot cause active =>
        unfold afterBoot bootAttempt
        dsimp only
        split
        · rename_i harmed
          split
          · exact Or.inr rfl
          · exact Or.inl harmed
        · exact ha
      | arm slot id => exact ha
      | setSlotDsl slot text => exact ha
      | disarm slot => exact ha
      | warmRestore => exact ha
      | tick smp => exact ha
    rcases slot_after h hno.1.1 with (hkept | hpoison) | ⟨hdis, _⟩
    · rw [hkept]
      exact hboot
    · rw [hpoison]
      exact Or.inr rfl
    · exact absurd hdis hno.1.2

/-! ## Restored like a fresh arm -/

theorem setSlotDsl_ok {t : Interlocks} {q : Pins} (hk : slotIx slot = some k)
    (hlen : text.length ≠ 0 ∧ text.length < IL_DSL_MAX)
    (hfree : (t.persist.slots k).state ≠ INTERLOCK_SLOT_ARMED) (hparse : ilParse text = .ok parsed)
    (hclaim : claimInstPins t.pins k parsed = (q, .ok)) : interlockSetSlotDsl t slot text =
      (({ t with pins := q }.modPersist fun p =>
        ((p.setInst k parsed).setText k text).setSlot k
          ⟨INTERLOCK_SLOT_ARMED, INTERLOCK_ID_DSL, 0⟩).clearRuntime k, .ok, 0, 0, 0) := by
  have hlen' : ¬ (text.length = 0 ∨ IL_DSL_MAX ≤ text.length) := by
    rw [not_or, Nat.not_le]
    exact hlen
  unfold interlockSetSlotDsl
  rw [hk]
  dsimp only
  rw [if_neg hlen', if_neg hfree, hparse]
  dsimp only
  rw [hclaim]

theorem setSlotDsl_arms {t : Interlocks} (hk : slotIx slot = some k)
    (hparse : ilParse text = .ok parsed) (hok : (interlockSetSlotDsl t slot text).2.1 = .ok) :
    ∃ q, claimInstPins t.pins k parsed = (q, .ok) ∧
      (interlockSetSlotDsl t slot text).1.persist.inst k = parsed ∧
      (interlockSetSlotDsl t slot text).1.runtime k = .clear ∧
      (interlockSetSlotDsl t slot text).1.pins = q := by
  revert hok
  unfold interlockSetSlotDsl
  rw [hk]
  dsimp only
  split
  · exact fun hok => nomatch hok
  · split
    · exact fun hok => nomatch hok
    · rw [hparse]
      dsimp only
      split
      · rename_i q hclaim
        exact fun _ => ⟨q, hclaim, Function.update_self k _ _, Function.update_self k _ _, rfl⟩
      · exact fun hok => nomatch hok

/-- A text that was restored can be given to an arm. -/
theorem text_fits (h : slotIsValid s.persist k = true)
    (ha : (s.persist.slots k).state = INTERLOCK_SLOT_ARMED)
    (hid : (s.persist.slots k).id = INTERLOCK_ID_DSL)
    (hparse : ilParse (s.persist.text k) = .ok parsed) :
    (s.persist.text k).length ≠ 0 ∧ (s.persist.text k).length < IL_DSL_MAX := by
  constructor
  · intro h0
    rw [List.length_eq_zero_iff.mp h0] at hparse
    exact nomatch hparse
  · unfold slotIsValid at h
    dsimp only at h
    rw [ha, hid] at h
    simp only [Bool.and_eq_true, Bool.not_eq_true', Bool.and_eq_false_iff, Bool.or_eq_false_iff,
      decide_eq_false_iff_not, Nat.not_le] at h
    have hlt : s.persist.dsl_len k < IL_DSL_MAX := by
      rcases h.2 with hne | hlen
      · exact absurd hne (by decide)
      · exact hlen.2
    exact Nat.lt_of_le_of_lt (List.length_take_le _ _) hlt

theorem likeFreshArm (h : SlotGood s k) (hjust : JustRestored s k) : Restored s k := by
  intro ha hid
  obtain ⟨hparse, hruntime⟩ := hjust ha hid
  obtain ⟨parsed, q, hparse', _, hq, hshares⟩ := h.text ha hid
  obtain rfl : parsed = s.persist.inst k := Except.ok.inj (hparse'.symm.trans hparse)
  refine ⟨hparse, hruntime, fun t slot hk hnone hok => ?_, fun slot hk => ?_⟩
  · obtain ⟨q', hclaim, hinst, hrt, hpins⟩ := setSlotDsl_arms hk hparse hok
    obtain ⟨q'', hq'', hshares'⟩ := claims_on_a_cold_chip hnone hclaim
    obtain rfl : q = q'' := (Prod.mk.inj (hq.symm.trans hq'')).1
    refine ⟨hinst.symm, hruntime.trans hrt.symm, ?_⟩
    rw [hpins, hshares, hshares']
  · have hlen := text_fits h.valid ha hid hparse
    rw [setSlotDsl_ok (t := .boot persistColdInit) hk hlen empty_ne_armed hparse hq]

/-- In every state that warm boots and operations reach, from any record that the first
reset finds. -/
theorem boot_laws_hold (p : Persist) (ops : List IlOp) (s : Interlocks)
    (hrun : runs interlockStep (startUp p) ops = some s) :
    BootLaws s ∧ ∀ k, Restored (startUp p) k := by
  have hboot : ∀ p k, Restored (startUp p) k := by
    intro p k
    obtain ⟨hgood, hjust⟩ := warmRestore_good (boot_restorable p) k
    exact likeFreshArm hgood hjust
  have h := reachable_inv hrun
  have hmax : ∀ k ops s', Meets interlockStep (fun t op => ¬ armsSlot k t op) s ops →
      runs interlockStep s ops = some s' → (s'.persist.slots k).state = INTERLOCK_SLOT_ARMED →
      warmBoots ops ≤ INTERLOCK_MAX_BOOT_ATTEMPTS.toNat := by
    intro k ops s' hno hrun' harmed
    have h' : BootInv s' := inv_runs (P := fun _ _ => True)
      (fun _ _ _ h _ hs => BootInv.step h hs) h (.of_forall (fun _ _ => trivial) _ _) hrun'
    have hle := UInt8.le_iff_toNat_le.mp ((h'.slots k).counter harmed)
    have hcount := (armed_run h hno hrun' harmed).2
    omega
  refine ⟨⟨h.valid, fun k ops s' _ => hmax k ops s', fun k ops s' ha hno hrun' hlt => ?_,
    fun k hp => ⟨fun i => ?_, ?_⟩, fun k => ?_, fun k cause active => hboot _ k⟩, hboot p⟩
  · rcases armed_or_poisoned_run h hno hrun' (Or.inl ha) with harmed | hpoisoned
    · have hno' : Meets interlockStep (fun t op => ¬ armsSlot k t op) s ops :=
        hno.mono fun _ _ hboth => hboth.1
      exact absurd (hmax k ops s' hno' hrun' harmed) (Nat.not_le.mpr hlt)
    · exact hpoisoned
  · exact h.pins.owns_nothing (hp.trans_ne poisoned_ne_armed) i
  · unfold vetoMask
    rw [hp]
    rfl
  · obtain ⟨hgood, hjust⟩ := warmRestore_good (fun k => (h.slots k).restorable) k
    exact likeFreshArm hgood hjust

/-- A slot is armed, and the chip boots four times. -/
def bootLoop : List IlOp :=
  .setSlotDsl 0 outputText :: List.replicate 4 (.warmBoot .watchdog none)

set_option maxRecDepth 16000 in
theorem boot_loop_poisons : ∃ s, runs interlockStep (startUp persistColdInit) bootLoop = some s ∧
    (s.persist.slots 0).state = INTERLOCK_SLOT_POISONED ∧ BootLaws s ∧
      ∀ k, Restored (startUp persistColdInit) k := by
  have hfacts : (runs interlockStep (startUp persistColdInit) bootLoop).map
      (fun s => (s.persist.slots 0).state) = some INTERLOCK_SLOT_POISONED := by decide
  obtain ⟨s, hrun, hstate⟩ := Option.map_eq_some_iff.mp hfacts
  exact ⟨s, hrun, hstate, boot_laws_hold persistColdInit bootLoop s hrun⟩

end motioncore.interlock
