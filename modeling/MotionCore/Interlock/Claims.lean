-- The laws of the pin claims: an input has one owner, the slots that share an output
-- agree on its values, only an armed slot owns a pin, and each tick drives every
-- claimed output to the error value exactly when an armed owner votes for it.
import MotionCore.Interlock.Slots

open motioncore.bytes motioncore.machine

namespace motioncore.interlock

/-! ## The laws -/

structure ClaimsHold (s : Interlocks) : Prop where
  input_has_one_owner : ∀ i, (s.pins.claims i).claimed = true → (s.pins.claims i).mode ≠ .gpioOut →
    ∃! k, (s.pins.claims i).slot_mask k = true
  /-- Each owner of an output declares the values that the claim has. -/
  owners_agree : ∀ i k, (s.pins.claims i).slot_mask k = true → (s.pins.claims i).mode = .gpioOut →
    ∃ o ∈ (s.persist.inst k).outputs, o.phys_id.toNat = i.val ∧
      o.ok_value = (s.pins.claims i).ok_value ∧ o.err_value = (s.pins.claims i).err_value
  values_differ : ∀ i, (s.pins.claims i).claimed = true → (s.pins.claims i).mode = .gpioOut →
    (s.pins.claims i).ok_value ≠ (s.pins.claims i).err_value
  only_armed_slots_own : ∀ i k, (s.pins.claims i).slot_mask k = true →
    (s.persist.slots k).state = INTERLOCK_SLOT_ARMED

/-- An armed slot with a share of the pin votes for the error value. -/
def Vetoed (s : Interlocks) (i : Fin HAL_PIN_TABLE_SIZE) : Prop :=
  ∃ k, (s.persist.slots k).state = INTERLOCK_SLOT_ARMED ∧ (s.pins.claims i).slot_mask k = true ∧
    (s.persist.inst k).tf_state = IL_TF_FALSE

def PortPin.level (p : PortPin) : UInt8 := if p.out then 1 else 0

/-- Every claimed output is driven to the value that the votes ask for. -/
structure OutputsDriven (s : Interlocks) : Prop where
  driven : ∀ i, (s.pins.claims i).claimed = true → (s.pins.claims i).mode = .gpioOut →
    (s.pins.port i).dir = true
  err : ∀ i, (s.pins.claims i).claimed = true → (s.pins.claims i).mode = .gpioOut → Vetoed s i →
    (s.pins.port i).level = (s.pins.claims i).err_value
  ok : ∀ i, (s.pins.claims i).claimed = true → (s.pins.claims i).mode = .gpioOut → ¬ Vetoed s i →
    (s.pins.port i).level = (s.pins.claims i).ok_value

/-! ## The share of a slot -/

structure Share where
  mode : HalPinMode
  ok_value : UInt8
  err_value : UInt8
  /-- The oversampling, the hold cycles and the channel of an analog input. -/
  adc : Option (UInt8 × UInt8 × UInt8)
deriving DecidableEq

def PinClaim.share (c : PinClaim) (k : SlotIx) : Option Share :=
  if c.slot_mask k then
    some
      { mode := c.mode
        ok_value := c.ok_value
        err_value := c.err_value
        adc :=
          if c.mode = .adcScan then some (c.oversample_exp, c.sh_cyc, c.adc_channel)
          else Option.none }
  else Option.none

theorem share_isSome (c : PinClaim) (k : SlotIx) : (c.share k).isSome = c.slot_mask k := by
  unfold PinClaim.share
  cases c.slot_mask k <;> rfl

variable {c : PinClaim} {k : SlotIx}

theorem share_none : c.share k = none ↔ c.slot_mask k = false := by
  rw [← share_isSome, Option.isSome_eq_false_iff, Option.isNone_iff_eq_none]

variable {c' : PinClaim}

theorem mask_of_share (h : c'.share k = c.share k) : c'.slot_mask k = c.slot_mask k := by
  rw [← share_isSome, ← share_isSome, h]

theorem values_of_share (h : c'.share k = c.share k) (hm : c.slot_mask k = true) :
    c'.mode = c.mode ∧ c'.ok_value = c.ok_value ∧ c'.err_value = c.err_value := by
  have hm' := (mask_of_share h).trans hm
  unfold PinClaim.share at h
  rw [if_pos hm, if_pos hm', Option.some.injEq, Share.mk.injEq] at h
  exact ⟨h.1, h.2.1, h.2.2.1⟩

theorem share_of_bit {m : SlotIx → Bool} (h : m k = c.slot_mask k) :
    PinClaim.share { c with slot_mask := m } k = c.share k := by
  unfold PinClaim.share
  dsimp only
  by_cases hm : c.slot_mask k = true
  · rw [if_pos hm, if_pos (h.trans hm)]
  · rw [if_neg hm, if_neg (h ▸ hm)]

/-! ## One pin -/

structure PinOk (c : PinClaim) (q : PortPin) : Prop where
  single : c.mode ≠ .gpioOut → ¬ (c.slot_mask 0 = true ∧ c.slot_mask 1 = true)
  pair : c.claimed = true → c.mode = .gpioOut →
    c.ok_value ≤ 1 ∧ c.err_value ≤ 1 ∧ c.ok_value ≠ c.err_value ∧ q.dir = true

def Declares (outs : List IlOutput) (k : SlotIx) (i : Fin HAL_PIN_TABLE_SIZE) (c : PinClaim) : Prop :=
  c.slot_mask k = true → c.mode = .gpioOut →
    ∃ o ∈ outs, o.phys_id.toNat = i.val ∧ o.ok_value = c.ok_value ∧ o.err_value = c.err_value

structure PinStep (k : SlotIx) (outs : List IlOutput) (i : Fin HAL_PIN_TABLE_SIZE)
    (c : PinClaim) (q : PortPin) (c' : PinClaim) (q' : PortPin) : Prop where
  others : ∀ k', k' ≠ k → c'.share k' = c.share k'
  ok : PinOk c q → PinOk c' q'
  declares : PinOk c q → Declares outs k i c → Declares outs k i c'

def TableStep (k : SlotIx) (outs : List IlOutput) (p p' : Pins) : Prop :=
  ∀ i, PinStep k outs i (p.claims i) (p.port i) (p'.claims i) (p'.port i)

variable {outs : List IlOutput} {i : Fin HAL_PIN_TABLE_SIZE}

theorem PinStep.refl (c : PinClaim) (q : PortPin) : PinStep k outs i c q c q :=
  ⟨fun _ _ => rfl, id, fun _ => id⟩

variable (p : Pins)

theorem TableStep.refl {l : List IlOutput} : TableStep k l p p :=
  fun _ => .refl _ _

theorem TableStep.trans {p q r : Pins} (h1 : TableStep k outs p q) (h2 : TableStep k outs q r) :
    TableStep k outs p r := by
  intro i
  obtain ⟨ho1, hk1, hd1⟩ := h1 i
  obtain ⟨ho2, hk2, hd2⟩ := h2 i
  exact ⟨fun k' hk' => (ho2 k' hk').trans (ho1 k' hk'), fun h => hk2 (hk1 h),
    fun h hd => hd2 (hk1 h) (hd1 h hd)⟩

theorem TableStep.of_pin {p p' : Pins} {j : Fin HAL_PIN_TABLE_SIZE} {r : PortPin}
    (hc : p'.claims = Function.update p.claims j c') (hq : p'.port = Function.update p.port j r)
    (h : PinStep k outs j (p.claims j) (p.port j) c' r) : TableStep k outs p p' := by
  intro i
  rw [hc, hq]
  by_cases hi : i = j
  · subst hi
    rw [Function.update_self, Function.update_self]
    exact h
  · rw [Function.update_of_ne hi, Function.update_of_ne hi]
    exact .refl _ _

variable {k' : SlotIx}

/-- The other slot is the only one besides `k`. -/
theorem eq_other (h : k' ≠ k) : k' = 1 - k := by
  revert k k'
  decide

theorem slotBit_self (k : SlotIx) : slotBit k k = true := beq_self_eq_true k

theorem slotBit_other (h : k' ≠ k) : slotBit k k' = false :=
  beq_eq_false_iff_ne.mpr h

theorem slotBit_not_both (k : SlotIx) : ¬ (slotBit k 0 = true ∧ slotBit k 1 = true) := by
  revert k
  decide

theorem claimed_iff (c : PinClaim) : c.claimed = true ↔ ∃ k, c.slot_mask k = true := by
  unfold PinClaim.claimed
  rw [Bool.or_eq_true, Fin.exists_fin_two]

/-! ## The claims of one slot -/

variable {q : PortPin}

theorem input_pinStep {q' : PortPin} (hfree : ¬ c.takenFrom k = true)
    (hmask : c'.slot_mask = slotBit k) (hmode : c'.mode ≠ .gpioOut) :
    PinStep k outs i c q c' q' := by
  refine ⟨fun k' hk' => ?_, fun _ => ⟨fun _ => ?_, fun _ hm => absurd hm hmode⟩,
    fun _ _ _ hm => absurd hm hmode⟩
  · have hother : c.slot_mask k' = false := by
      rw [eq_other hk']
      exact Bool.eq_false_iff.mpr hfree
    rw [share_none.mpr hother, share_none, hmask, slotBit_other hk']
  · rw [hmask]
    exact slotBit_not_both k

theorem TableStep.refused {p : Pins} {result : Pins × ClaimStatus} (h : Refused p result) :
    TableStep k outs p result.1 := by
  rw [h.1]
  exact .refl p

theorem halPinClaim_step (phys_id : UInt8) (k : SlotIx) (mode : HalPinMode) (outs : List IlOutput) :
    TableStep k outs p (halPinClaim p phys_id k mode).1 := by
  rcases halPinClaim_cases p phys_id k mode with hrefused | ⟨i, htakes, hfree, hok⟩
  · exact .refused hrefused
  · rw [hok]
    have hout : mode ≠ .gpioOut := fun h => htakes.input (Or.inr (Or.inl h))
    exact .of_pin rfl rfl (input_pinStep hfree rfl hout)

theorem halPinClaimAdc_step (phys_id : UInt8) (k : SlotIx) (oversample sh : UInt8)
    (outs : List IlOutput) : TableStep k outs p (halPinClaimAdc p phys_id k oversample sh).1 := by
  rcases halPinClaimAdc_cases p phys_id k oversample sh with
    hrefused | ⟨i, channel, -, hfree, -, hok⟩
  · exact .refused hrefused
  · rw [hok]
    refine .of_pin rfl (Function.update_eq_self _ p.port).symm (input_pinStep hfree rfl ?_)
    exact fun h => HalPinMode.noConfusion h

theorem claimInput_step (k : SlotIx) (i : IlInput) (outs : List IlOutput) (p : Pins) :
    TableStep k outs p (claimInput k i p).1 := by
  unfold claimInput
  split
  · exact .refl _
  · exact halPinClaimAdc_step _ _ _ _ _ _
  · split
    · exact .refl _
    · exact halPinClaim_step _ _ _ _ _

theorem pinIx_val {phys_id : UInt8} (h : pinIx phys_id = some i) : phys_id.toNat = i.val := by
  unfold pinIx at h
  split at h
  · cases h
    rfl
  · cases h

theorem share_pinStep {ok_value err_value : UInt8} (hc : c.Drives ok_value err_value)
    (hc' : c' = { c with slot_mask := fun s => c.slot_mask s || slotBit k s })
    (hdeclared : ∃ o ∈ outs, o.phys_id.toNat = i.val ∧ o.ok_value = ok_value ∧
      o.err_value = err_value)
    : PinStep k outs i c q c' q := by
  subst hc'
  refine ⟨fun k' hk' => ?_, fun hok => ⟨fun hm => absurd hc.mode hm, fun _ _ =>
    hok.pair hc.claimed hc.mode⟩, fun _ _ _ _ => ?_⟩
  · refine share_of_bit ?_
    rw [slotBit_other hk', Bool.or_false]
  · obtain ⟨o, ho, hplace, hval, herr⟩ := hdeclared
    exact ⟨o, ho, hplace, hval.trans hc.ok_value.symm, herr.trans hc.err_value.symm⟩

theorem output_pinStep {q' : PortPin} {phys_id : UInt8}
    (htakes : TakesOutput phys_id c'.ok_value c'.err_value i) (hfree : ¬ c.claimed = true)
    (hmask : c'.slot_mask = slotBit k) (hmode : c'.mode = .gpioOut) (hdir : q'.dir = true)
    (hdeclared : ∃ o ∈ outs, o.phys_id.toNat = i.val ∧ o.ok_value = c'.ok_value ∧
      o.err_value = c'.err_value) : PinStep k outs i c q c' q' := by
  have hnone : ∀ k', c.slot_mask k' = false := by
    intro k'
    by_contra hk'
    rw [Bool.not_eq_false] at hk'
    exact hfree ((claimed_iff c).mpr ⟨k', hk'⟩)
  have hbits := htakes.bits
  rw [not_or, UInt8.not_lt, UInt8.not_lt] at hbits
  refine ⟨fun k' hk' => ?_, fun _ => ⟨fun hm => absurd hmode hm, fun _ _ =>
    ⟨hbits.1, hbits.2, htakes.differ, hdir⟩⟩, fun _ _ _ _ => hdeclared⟩
  rw [share_none.mpr (hnone k'), share_none, hmask]
  exact slotBit_other hk'

theorem halPinClaimOutput_step (k : SlotIx) (o : IlOutput) (outs : List IlOutput) (ho : o ∈ outs) :
    TableStep k outs p (halPinClaimOutput p o.phys_id k o.ok_value o.err_value).1 := by
  rcases halPinClaimOutput_cases p o.phys_id k o.ok_value o.err_value with
    hrefused | ⟨i, htakes, ⟨hout, hok⟩ | ⟨hfree, hok⟩⟩
  · exact .refused hrefused
  · rw [hok]
    exact .of_pin rfl (Function.update_eq_self i p.port).symm
      (share_pinStep hout rfl ⟨o, ho, pinIx_val htakes.place, rfl, rfl⟩)
  · rw [hok]
    exact .of_pin rfl rfl (output_pinStep htakes hfree rfl rfl rfl
      ⟨o, ho, pinIx_val htakes.place, rfl, rfl⟩)

theorem claimEach_step {claims : List (Pins → Pins × ClaimStatus)}
    (h : ∀ c ∈ claims, ∀ p, TableStep k outs p (c p).1) (p : Pins) :
    TableStep k outs p (claimEach claims p).1 := by
  induction claims generalizing p with
  | nil => exact .refl _
  | cons c cs ih =>
    have hc := h c List.mem_cons_self p
    unfold claimEach
    split
    · rename_i p' hp'
      rw [hp'] at hc
      exact hc.trans (ih (fun d hd => h d (List.mem_cons_of_mem _ hd)) p')
    · exact hc

theorem claimsOf_step (k : SlotIx) (inst : IlInst) :
    ∀ c ∈ claimsOf k inst, ∀ p, TableStep k inst.outputs p (c p).1 := by
  intro c hc p
  unfold claimsOf at hc
  rw [List.mem_append, List.mem_map, List.mem_map] at hc
  rcases hc with ⟨i, _, rfl⟩ | ⟨o, ho, rfl⟩
  · exact claimInput_step k i inst.outputs p
  · exact halPinClaimOutput_step p k o inst.outputs ho

theorem release_mask (c : PinClaim) (k k' : SlotIx) :
    (c.release k).slot_mask k' = (c.slot_mask k' && !slotBit k k') := by
  unfold PinClaim.release
  dsimp only
  split <;> rfl

/-- With a share left, the claim stays what it was. -/
theorem release_claimed (h : (c.release k).claimed = true) :
    c.release k = { c with slot_mask := fun s => c.slot_mask s && !slotBit k s } := by
  unfold PinClaim.release at h ⊢
  dsimp only at h ⊢
  split at h
  · rename_i hc
    rw [if_pos hc]
  · rename_i hc
    exact absurd h hc

theorem release_others (c : PinClaim) (hk' : k' ≠ k) : (c.release k).share k' = c.share k' := by
  have hmask : (c.release k).slot_mask k' = c.slot_mask k' := by
    rw [release_mask, slotBit_other hk', Bool.not_false, Bool.and_true]
  by_cases hm : c.slot_mask k' = true
  · rw [release_claimed ((claimed_iff _).mpr ⟨k', hmask.trans hm⟩)]
    refine share_of_bit ?_
    rw [slotBit_other hk', Bool.not_false, Bool.and_true]
  · rw [Bool.not_eq_true] at hm
    rw [share_none.mpr hm, share_none, hmask, hm]

theorem halPinReleaseSlot_step (k : SlotIx) (outs : List IlOutput) :
    TableStep k outs p (halPinReleaseSlot p k) := by
  intro i
  unfold halPinReleaseSlot
  dsimp only
  by_cases hm : (p.claims i).slot_mask k = true
  · rw [if_pos hm]
    have hgone : ((p.claims i).release k).slot_mask k = false := by
      rw [release_mask, slotBit_self, Bool.not_true, Bool.and_false]
    refine ⟨fun k' hk' => release_others _ hk',
      fun hok => ⟨fun _ hboth => ?_, fun hc hmode => ?_⟩, fun _ _ hk => ?_⟩
    · obtain ⟨h0, h1⟩ := hboth
      rw [release_mask, Bool.and_eq_true] at h0 h1
      have hk : ∀ k : SlotIx, ¬ ((!slotBit k 0) = true ∧ (!slotBit k 1) = true) := by decide
      exact hk k ⟨h0.2, h1.2⟩
    · have hold : (p.claims i).claimed = true := (claimed_iff _).mpr ⟨k, hm⟩
      rw [if_neg (by rw [hc]; exact fun h => nomatch h.2)]
      rw [release_claimed hc] at hmode ⊢
      exact hok.pair hold hmode
    · rw [hgone] at hk
      exact nomatch hk
  · have hport : ¬ ((p.claims i).slot_mask k = true ∧
        ((p.claims i).release k).claimed = false) := fun h => hm h.1
    rw [if_neg hm, if_neg hport]
    exact .refl _ _

theorem release_owns_nothing (k : SlotIx) (i : Fin HAL_PIN_TABLE_SIZE) :
    ((halPinReleaseSlot p k).claims i).slot_mask k = false := by
  unfold halPinReleaseSlot
  dsimp only
  split
  · rw [release_mask, slotBit_self, Bool.not_true, Bool.and_false]
  · rename_i hm
    exact Bool.eq_false_iff.mpr hm

theorem claimInstPins_step (k : SlotIx) (inst : IlInst) :
    TableStep k inst.outputs p (claimInstPins p k inst).1 := by
  have h := claimEach_step (claimsOf_step k inst) p
  unfold claimInstPins
  split
  · rename_i p' hp'
    rw [hp'] at h
    exact h
  · rename_i p' status _ hp'
    rw [hp'] at h
    exact h.trans (halPinReleaseSlot_step p' k inst.outputs)

/-- All claims, or none. -/
theorem claimInstPins_failed {p : Pins} {inst : IlInst} (h : (claimInstPins p k inst).2 ≠ .ok)
    (i : Fin HAL_PIN_TABLE_SIZE) : ((claimInstPins p k inst).1.claims i).slot_mask k = false := by
  unfold claimInstPins at h ⊢
  split at h
  · exact absurd rfl h
  · exact release_owns_nothing _ k i

/-! ## What an operation leaves alone -/

structure SlotKept (s s' : Interlocks) (k : SlotIx) : Prop where
  slot : s'.persist.slots k = s.persist.slots k
  inst : s'.persist.inst k = s.persist.inst k
  len : s'.persist.dsl_len k = s.persist.dsl_len k
  text : s'.persist.dsl_text k = s.persist.dsl_text k
  runtime : s'.runtime k = s.runtime k
  share : ∀ i, (s'.pins.claims i).share k = (s.pins.claims i).share k

/-- At most the slot `k` has changed. -/
structure OnlySlot (k : SlotIx) (s s' : Interlocks) : Prop where
  head : verifyPersist s'.persist = verifyPersist s.persist
  crash : s'.persist.crash = s.persist.crash
  others : ∀ k', k' ≠ k → SlotKept s s' k'

theorem SlotKept.refl (s : Interlocks) (k : SlotIx) : SlotKept s s k :=
  ⟨rfl, rfl, rfl, rfl, rfl, fun _ => rfl⟩

theorem OnlySlot.refl (k : SlotIx) (s : Interlocks) : OnlySlot k s s :=
  ⟨rfl, rfl, fun k' _ => .refl s k'⟩

theorem poison_only (s : Interlocks) (k : SlotIx) : OnlySlot k s (s.poison k) := by
  refine ⟨rfl, rfl, fun k' hk' => ⟨?_, rfl, rfl, rfl, rfl, fun _ => rfl⟩⟩
  exact Function.update_of_ne hk' _ _

variable {s : Interlocks} {slot : UInt8}

theorem arm_none (hk : slotIx slot = none) (id : UInt8) :
    interlockArmSlotCompiled s slot id = (s, .badArgs) := by
  unfold interlockArmSlotCompiled
  rw [hk]

theorem disarm_none (hk : slotIx slot = none) : interlockDisarmSlot s slot = (s, .badArgs) := by
  unfold interlockDisarmSlot
  rw [hk]

theorem setSlotDsl_none (hk : slotIx slot = none) (text : List UInt8) :
    interlockSetSlotDsl s slot text = (s, .badArgs, 0, 0, 0) := by
  unfold interlockSetSlotDsl
  rw [hk]

theorem arm_only (hk : slotIx slot = some k) (id : UInt8) :
    OnlySlot k s (interlockArmSlotCompiled s slot id).1 := by
  unfold interlockArmSlotCompiled
  rw [hk]
  dsimp only
  split
  · exact .refl k s
  · split
    · exact .refl k s
    · refine ⟨rfl, rfl, fun k' hk' => ⟨?_, ?_, rfl, rfl, ?_, fun _ => rfl⟩⟩
      · exact Function.update_of_ne hk' _ _
      · exact Function.update_of_ne hk' _ _
      · exact Function.update_of_ne hk' _ _

theorem disarm_only (hk : slotIx slot = some k) : OnlySlot k s (interlockDisarmSlot s slot).1 := by
  unfold interlockDisarmSlot
  rw [hk]
  refine ⟨rfl, rfl, fun k' hk' => ⟨?_, ?_, ?_, rfl, ?_, fun i => ?_⟩⟩
  · exact Function.update_of_ne hk' _ _
  · exact Function.update_of_ne hk' _ _
  · exact Function.update_of_ne hk' _ _
  · exact Function.update_of_ne hk' _ _
  · exact (halPinReleaseSlot_step s.pins k [] i).others k' hk'

theorem setSlotDsl_only (hk : slotIx slot = some k) (text : List UInt8) :
    OnlySlot k s (interlockSetSlotDsl s slot text).1 := by
  unfold interlockSetSlotDsl
  rw [hk]
  dsimp only
  split
  · exact .refl k s
  · split
    · exact .refl k s
    · split
      · exact .refl k s
      · rename_i parsed _
        have hstep := claimInstPins_step s.pins k parsed
        split
        · rename_i pins hpins
          rw [hpins] at hstep
          refine ⟨rfl, rfl, fun k' hk' => ⟨?_, ?_, ?_, ?_, ?_, fun i => (hstep i).others k' hk'⟩⟩
          · exact Function.update_of_ne hk' _ _
          · exact Function.update_of_ne hk' _ _
          · exact Function.update_of_ne hk' _ _
          · exact Function.update_of_ne hk' _ _
          · exact Function.update_of_ne hk' _ _
        · rename_i pins status _ hpins
          rw [hpins] at hstep
          exact ⟨rfl, rfl, fun k' hk' =>
            ⟨rfl, rfl, rfl, rfl, rfl, fun i => (hstep i).others k' hk'⟩⟩

theorem warmRestoreSlot_only (s : Interlocks) (k : SlotIx) :
    OnlySlot k s (warmRestoreSlot s k) := by
  unfold warmRestoreSlot
  dsimp only
  split
  · exact .refl k s
  · split
    · refine ⟨rfl, rfl, fun k' hk' => ⟨rfl, rfl, rfl, rfl, ?_, fun _ => rfl⟩⟩
      exact Function.update_of_ne hk' _ _
    · split
      · exact poison_only s k
      · split
        · exact poison_only s k
        · rename_i parsed _
          have hstep := claimInstPins_step s.pins k parsed
          split
          · rename_i pins hpins
            rw [hpins] at hstep
            refine ⟨rfl, rfl, fun k' hk' =>
              ⟨rfl, ?_, rfl, rfl, ?_, fun i => (hstep i).others k' hk'⟩⟩
            · exact Function.update_of_ne hk' _ _
            · exact Function.update_of_ne hk' _ _
          · rename_i pins status _ hpins
            rw [hpins] at hstep
            refine ⟨rfl, rfl, fun k' hk' =>
              ⟨?_, rfl, rfl, rfl, rfl, fun i => (hstep i).others k' hk'⟩⟩
            exact Function.update_of_ne hk' _ _

/-! ## The invariant -/

/-- A slot that owns pins: armed, with the text that its outputs come from. -/
structure Owner (p : Persist) (k : SlotIx) : Prop where
  armed : (p.slots k).state = INTERLOCK_SLOT_ARMED
  len : p.dsl_len k ≠ 0 ∧ p.dsl_len k < IL_DSL_MAX
  text : ∃ inst, ilParse (p.text k) = .ok inst ∧ inst.outputs = (p.inst k).outputs

structure PinsInv (s : Interlocks) : Prop where
  table : ∀ i, PinOk (s.pins.claims i) (s.pins.port i)
  owner : ∀ i k, (s.pins.claims i).slot_mask k = true → Owner s.persist k
  declares : ∀ i k, Declares (s.persist.inst k).outputs k i (s.pins.claims i)

/-- The record of the slot `k` is the same, up to the vote. -/
structure SameSlot (p p' : Persist) (k : SlotIx) : Prop where
  slot : p'.slots k = p.slots k
  inst : p'.inst k = { p.inst k with tf_state := (p'.inst k).tf_state }
  len : p'.dsl_len k = p.dsl_len k
  text : p'.dsl_text k = p.dsl_text k

theorem SameSlot.outputs {p p' : Persist} (h : SameSlot p p' k) :
    (p'.inst k).outputs = (p.inst k).outputs := by
  rw [h.inst]

variable {s' : Interlocks}

theorem SlotKept.sameSlot (h : SlotKept s s' k) : SameSlot s.persist s'.persist k :=
  ⟨h.slot, by rw [h.inst], h.len, h.text⟩

theorem Owner.of_same {p p' : Persist} (h : Owner p k) (hs : SameSlot p p' k) : Owner p' k := by
  refine ⟨by rw [hs.slot]; exact h.armed, by rw [hs.len]; exact h.len, ?_⟩
  unfold Persist.text
  rw [hs.len, hs.text, hs.outputs]
  exact h.text

/-- The slot `k` takes or leaves pins, and what it owns then is in order. -/
def GoodMove (k : SlotIx) (s s' : Interlocks) : Prop :=
  ∃ outs, TableStep k outs s.pins s'.pins ∧ ∀ i, (s'.pins.claims i).slot_mask k = true →
    Owner s'.persist k ∧ Declares (s'.persist.inst k).outputs k i (s'.pins.claims i)

theorem GoodMove.refl (h : PinsInv s) (k : SlotIx) : GoodMove k s s :=
  ⟨[], .refl _, fun i hm => ⟨h.owner i k hm, h.declares i k⟩⟩

theorem GoodMove.of_none (hstep : TableStep k outs s.pins s'.pins)
    (hnone : ∀ i, (s'.pins.claims i).slot_mask k = false) : GoodMove k s s' :=
  ⟨outs, hstep, fun i hm => absurd (hm.symm.trans (hnone i)) (by decide)⟩

theorem PinsInv.of_slot (h : PinsInv s) (honly : OnlySlot k s s') (hmove : GoodMove k s s') :
    PinsInv s' := by
  obtain ⟨outs, hstep, hself⟩ := hmove
  refine ⟨fun i => (hstep i).ok (h.table i), fun i k' hm => ?_, fun i k' hm hmode => ?_⟩
  · by_cases hk' : k' = k
    · subst hk'
      exact (hself i hm).1
    · have hkept := honly.others k' hk'
      exact (h.owner i k' ((mask_of_share (hkept.share i)).symm.trans hm)).of_same hkept.sameSlot
  · by_cases hk' : k' = k
    · subst hk'
      exact (hself i hm).2 hm hmode
    · have hkept := honly.others k' hk'
      have hold := (mask_of_share (hkept.share i)).symm.trans hm
      obtain ⟨hmd, hv, he⟩ := values_of_share (hkept.share i) hold
      rw [hkept.inst, hv, he]
      exact h.declares i k' hold (hmd.symm.trans hmode)

/-- No slot changes its pins or its record, up to the votes and the output levels. -/
theorem PinsInv.of_same (h : PinsInv s) (hclaims : s'.pins.claims = s.pins.claims)
    (hdir : ∀ i, (s'.pins.port i).dir = (s.pins.port i).dir)
    (hsame : ∀ k, SameSlot s.persist s'.persist k) : PinsInv s' := by
  refine ⟨fun i => ?_, fun i k hm => ?_, fun i k => ?_⟩
  · rw [hclaims]
    refine ⟨(h.table i).single, fun hc hm => ?_⟩
    rw [hdir]
    exact (h.table i).pair hc hm
  · rw [hclaims] at hm
    exact (h.owner i k hm).of_same (hsame k)
  · rw [hclaims, (hsame k).outputs]
    exact h.declares i k

theorem PinsInv.owns_nothing (h : PinsInv s) (hk : (s.persist.slots k).state ≠ INTERLOCK_SLOT_ARMED)
    (i : Fin HAL_PIN_TABLE_SIZE) : (s.pins.claims i).slot_mask k = false := by
  by_contra hm
  rw [Bool.not_eq_false] at hm
  exact hk (h.owner i k hm).armed

theorem SameSlot.refl (p : Persist) (k : SlotIx) : SameSlot p p k := ⟨rfl, rfl, rfl, rfl⟩

/-! ## The operations -/

theorem PinsInv.arm (h : PinsInv s) (slot id : UInt8) :
    PinsInv (interlockArmSlotCompiled s slot id).1 := by
  cases hk : slotIx slot with
  | none =>
    rw [arm_none hk]
    exact h
  | some k =>
    refine h.of_slot (arm_only hk id) ?_
    unfold interlockArmSlotCompiled
    rw [hk]
    dsimp only
    split
    · exact .refl h k
    · split
      · exact .refl h k
      · rename_i hfree
        exact .of_none (.refl (l := []) _) (h.owns_nothing hfree)

theorem PinsInv.disarm (h : PinsInv s) (slot : UInt8) : PinsInv (interlockDisarmSlot s slot).1 := by
  cases hk : slotIx slot with
  | none =>
    rw [disarm_none hk]
    exact h
  | some k =>
    refine h.of_slot (disarm_only hk) ?_
    unfold interlockDisarmSlot
    rw [hk]
    exact .of_none (halPinReleaseSlot_step s.pins k []) (release_owns_nothing s.pins k)

/-- The record of a slot that has just been armed with a text. -/
theorem owner_of_setText (p : Persist) {text : List UInt8} {parsed : IlInst}
    (hlen : text.length ≠ 0 ∧ text.length < IL_DSL_MAX) (hparse : ilParse text = .ok parsed) :
    Owner (((p.setInst k parsed).setText k text).setSlot k
      ⟨INTERLOCK_SLOT_ARMED, INTERLOCK_ID_DSL, 0⟩) k := by
  unfold Persist.setSlot Persist.setText Persist.setInst
  refine ⟨?_, ?_, parsed, ?_, ?_⟩
  · dsimp only
    rw [Function.update_self]
  · dsimp only
    rw [Function.update_self]
    exact hlen
  · unfold Persist.text
    dsimp only
    rw [Function.update_self, Function.update_self, List.take_length, hparse]
  · dsimp only
    rw [Function.update_self]

theorem declares_setInst {p : Persist} {d : IlInst} (h : Declares d.outputs k i c) :
    Declares ((p.setInst k d).inst k).outputs k i c := by
  unfold Persist.setInst
  dsimp only
  rw [Function.update_self]
  exact h

theorem PinsInv.setSlotDsl (h : PinsInv s) (slot : UInt8) (text : List UInt8) :
    PinsInv (interlockSetSlotDsl s slot text).1 := by
  cases hk : slotIx slot with
  | none =>
    rw [setSlotDsl_none hk]
    exact h
  | some k =>
    refine h.of_slot (setSlotDsl_only hk text) ?_
    unfold interlockSetSlotDsl
    rw [hk]
    dsimp only
    split
    · exact .refl h k
    · rename_i hlen
      rw [not_or, Nat.not_le] at hlen
      split
      · exact .refl h k
      · rename_i hfree
        have hnone := h.owns_nothing hfree
        split
        · exact .refl h k
        · rename_i parsed hparse
          have hstep := claimInstPins_step s.pins k parsed
          split
          · rename_i pins hpins
            rw [hpins] at hstep
            refine ⟨parsed.outputs, hstep, fun i _ => ⟨owner_of_setText s.persist hlen hparse, ?_⟩⟩
            have hdecl := (hstep i).declares (h.table i) fun hm =>
              absurd (hm.symm.trans (hnone i)) (by decide)
            exact declares_setInst (d := parsed) hdecl
          · rename_i pins status hstatus hpins
            have hfail : (claimInstPins s.pins k parsed).2 ≠ .ok := by
              rw [hpins]
              exact hstatus
            have hgone := claimInstPins_failed hfail
            rw [hpins] at hstep hgone
            exact .of_none hstep hgone

theorem PinsInv.warmRestoreSlot (h : PinsInv s) (k : SlotIx) : PinsInv (warmRestoreSlot s k) := by
  refine h.of_slot (warmRestoreSlot_only s k) ?_
  unfold interlock.warmRestoreSlot
  dsimp only
  split
  · exact .refl h k
  · rename_i harmed
    rw [not_not] at harmed
    split
    · exact ⟨[], .refl _, fun i hm => ⟨h.owner i k hm, h.declares i k⟩⟩
    · split
      · rename_i hlen
        -- an owner has a text of a good length
        refine .of_none (.refl (l := []) _) fun i => ?_
        by_contra hm
        rw [Bool.not_eq_false] at hm
        have hown := (h.owner i k hm).len
        rcases hlen with h0 | hbig
        · exact hown.1 h0
        · exact absurd hown.2 (Nat.not_lt.mpr hbig)
      · rename_i hlen
        rw [not_or, Nat.not_le] at hlen
        split
        · rename_i hparse
          -- an owner has a text that parses
          refine .of_none (.refl (l := []) _) fun i => ?_
          by_contra hm
          rw [Bool.not_eq_false] at hm
          obtain ⟨inst, hinst, _⟩ := (h.owner i k hm).text
          rw [hparse] at hinst
          exact nomatch hinst
        · rename_i parsed hparse
          have hstep := claimInstPins_step s.pins k parsed
          have hdecl : ∀ i, Declares parsed.outputs k i (s.pins.claims i) := by
            intro i hm
            obtain ⟨inst, hinst, hout⟩ := (h.owner i k hm).text
            rw [hparse] at hinst
            cases hinst
            rw [hout]
            exact h.declares i k hm
          split
          · rename_i pins hpins
            rw [hpins] at hstep
            refine ⟨parsed.outputs, hstep, fun i _ => ⟨?_, ?_⟩⟩
            · refine ⟨harmed, hlen, parsed, hparse, ?_⟩
              exact (congrArg IlInst.outputs (Function.update_self (f := s.persist.inst) k
                { parsed with tf_state := IL_TF_UNEVALUATED })).symm
            · exact declares_setInst (p := s.persist)
                (d := { parsed with tf_state := IL_TF_UNEVALUATED })
                ((hstep i).declares (h.table i) (hdecl i))
          · rename_i pins status hstatus hpins
            have hfail : (claimInstPins s.pins k parsed).2 ≠ .ok := by
              rw [hpins]
              exact hstatus
            have hgone := claimInstPins_failed hfail
            rw [hpins] at hstep hgone
            exact .of_none hstep hgone

theorem PinsInv.warmRestore (h : PinsInv s) : PinsInv (interlockWarmRestore s) :=
  (h.warmRestoreSlot 0).warmRestoreSlot 1

theorem boot_pinsInv (p : Persist) : PinsInv (.boot p) := by
  refine ⟨fun _ => ⟨fun _ h => ?_, fun h => ?_⟩, fun _ _ h => ?_, fun _ _ h => ?_⟩
  · exact nomatch h.1
  · exact nomatch h
  · exact nomatch h
  · exact nomatch h

theorem setInst_same (p : Persist) (k : SlotIx) (tf : UInt8) (k' : SlotIx) :
    SameSlot p (p.setInst k { p.inst k with tf_state := tf }) k' := by
  refine ⟨rfl, ?_, rfl, rfl⟩
  unfold Persist.setInst
  dsimp only
  by_cases hk : k' = k
  · subst hk
    rw [Function.update_self]
  · rw [Function.update_of_ne hk]

/-- The evaluation of a slot changes its vote and its runtime state. -/
structure Evaluated (s s' : Interlocks) : Prop where
  pins : s'.pins = s.pins
  head : verifyPersist s'.persist = verifyPersist s.persist
  crash : s'.persist.crash = s.persist.crash
  same : ∀ k, SameSlot s.persist s'.persist k

theorem tickSlot_evaluated (smp : Samples) (s : Interlocks) (k : SlotIx) :
    Evaluated s (tickSlot smp s k) := by
  unfold tickSlot
  dsimp only
  split
  · exact ⟨rfl, rfl, rfl, .refl _⟩
  · split
    · exact ⟨rfl, rfl, rfl, setInst_same s.persist k _⟩
    · split
      · exact ⟨rfl, rfl, rfl, setInst_same s.persist k _⟩
      · exact ⟨rfl, rfl, rfl, .refl _⟩

theorem PinsInv.tickSlot (h : PinsInv s) (smp : Samples) (k : SlotIx) :
    PinsInv (tickSlot smp s k) := by
  have heval := tickSlot_evaluated smp s k
  exact h.of_same (congrArg Pins.claims heval.pins) (fun i => by rw [heval.pins]) heval.same

theorem PinsInv.tick (h : PinsInv s) (smp : Samples) : PinsInv (interlockTickAll smp s) := by
  refine ((h.tickSlot smp 0).tickSlot smp 1).of_same rfl (fun i => ?_) fun k => .refl _ k
  unfold interlockTickAll Interlocks.report halPinDriveOutputs
  dsimp only
  split <;> rfl

theorem PinsInv.step {op : IlOp} (h : PinsInv s) (hstep : interlockStep s op = some s') :
    PinsInv s' := by
  unfold interlockStep at hstep
  split at hstep
  · cases hstep
    cases op with
    | arm slot id => exact h.arm slot id
    | setSlotDsl slot text => exact h.setSlotDsl slot text
    | disarm slot => exact h.disarm slot
    | warmRestore => exact h.warmRestore
    | tick smp => exact h.tick smp
    | warmBoot cause active => exact (boot_pinsInv _).warmRestore
  · cases hstep

/-! ## The laws hold -/

theorem PinsInv.claimsHold (h : PinsInv s) : ClaimsHold s := by
  refine ⟨fun i hc hm => ?_, fun i k => h.declares i k, fun i hc hm => ((h.table i).pair hc hm).2.2.1,
    fun i k hk => (h.owner i k hk).armed⟩
  obtain ⟨k, hk⟩ := (claimed_iff _).mp hc
  refine ⟨k, hk, fun k' hk' => ?_⟩
  have hsingle := (h.table i).single hm
  by_contra hne
  rw [eq_other hne] at hk'
  have hcases : ∀ k : SlotIx, k = 0 ∨ k = 1 := by decide
  rcases hcases k with rfl | rfl
  · exact hsingle ⟨hk, hk'⟩
  · exact hsingle ⟨hk', hk⟩

theorem vetoMask_iff (p : Persist) (k : SlotIx) : vetoMask p k = true ↔
    (p.slots k).state = INTERLOCK_SLOT_ARMED ∧ (p.inst k).tf_state = IL_TF_FALSE := by
  unfold vetoMask
  rw [Bool.and_eq_true, beq_iff_eq, beq_iff_eq]

theorem level_of_value {v : UInt8} (h : v ≤ 1) (p : PortPin) :
    PortPin.level { p with out := v != 0 } = v := by
  unfold PortPin.level
  have hv : v.toNat ≤ 1 := UInt8.le_iff_toNat_le.mp h
  have hcases : v = 0 ∨ v = 1 := by
    rcases Nat.le_one_iff_eq_zero_or_eq_one.mp hv with h0 | h1
    · exact Or.inl (UInt8.toNat_inj.mp h0)
    · exact Or.inr (UInt8.toNat_inj.mp h1)
  rcases hcases with rfl | rfl <;> rfl

/-- The drive of a table with good claims, by the votes of the record. -/
theorem driven_outputs (h : PinsInv s) :
    OutputsDriven { s with pins := halPinDriveOutputs s.pins (vetoMask s.persist) } := by
  have hport : ∀ i, (s.pins.claims i).claimed = true → (s.pins.claims i).mode = .gpioOut →
      (halPinDriveOutputs s.pins (vetoMask s.persist)).port i =
        { s.pins.port i with out := (s.pins.claims i).value (vetoMask s.persist) != 0 } := by
    intro i hc hm
    unfold halPinDriveOutputs
    dsimp only
    rw [hc, hm]
    rfl
  have hveto : ∀ i, Vetoed s i ↔
      ((s.pins.claims i).slot_mask 0 && vetoMask s.persist 0 ||
        (s.pins.claims i).slot_mask 1 && vetoMask s.persist 1) = true := by
    intro i
    unfold Vetoed
    rw [Bool.or_eq_true, Bool.and_eq_true, Bool.and_eq_true, vetoMask_iff, vetoMask_iff,
      Fin.exists_fin_two]
    constructor
    · rintro (⟨ha, hk, ht⟩ | ⟨ha, hk, ht⟩)
      · exact Or.inl ⟨hk, ha, ht⟩
      · exact Or.inr ⟨hk, ha, ht⟩
    · rintro (⟨hk, ha, ht⟩ | ⟨hk, ha, ht⟩)
      · exact Or.inl ⟨ha, hk, ht⟩
      · exact Or.inr ⟨ha, hk, ht⟩
  refine ⟨fun i hc hm => ?_, fun i hc hm hv => ?_, fun i hc hm hv => ?_⟩
  · have hp := hport i hc hm
    dsimp only
    rw [hp]
    exact ((h.table i).pair hc hm).2.2.2
  · have hp := hport i hc hm
    have hval : (s.pins.claims i).value (vetoMask s.persist) = (s.pins.claims i).err_value :=
      if_pos ((hveto i).mp hv)
    dsimp only
    rw [hp, level_of_value _ _, hval]
    · rfl
    · rw [hval]
      exact ((h.table i).pair hc hm).2.1
  · have hp := hport i hc hm
    have hval : (s.pins.claims i).value (vetoMask s.persist) = (s.pins.claims i).ok_value :=
      if_neg fun hb => hv ((hveto i).mpr hb)
    dsimp only
    rw [hp, level_of_value _ _, hval]
    · rfl
    · rw [hval]
      exact ((h.table i).pair hc hm).1

theorem PinsInv.driven (h : PinsInv s) (smp : Samples) :
    OutputsDriven (interlockTickAll smp s) := by
  have hd := driven_outputs ((h.tickSlot smp 0).tickSlot smp 1)
  exact ⟨hd.driven, hd.err, hd.ok⟩

/-- In every state that the operations reach, from any record that a reset finds, the
claims keep their laws, and a tick drives the claimed outputs by the votes. -/
theorem claims_and_outputs_hold (p : Persist) (ops : List IlOp) (s : Interlocks)
    (hrun : runs interlockStep (startUp p) ops = some s) :
    ClaimsHold s ∧ ∀ smp, OutputsDriven (interlockTickAll smp s) := by
  have hinv : PinsInv s :=
    inv_runs (P := fun _ _ => True) (fun _ _ _ h _ hs => PinsInv.step h hs)
      (boot_pinsInv p).warmRestore (.of_forall (fun _ _ => trivial) _ _) hrun
  exact ⟨hinv.claimsHold, hinv.driven⟩

def outputText : List UInt8 :=
  ascii ['x', ';', 'c', 'f', 'g', '[', 'D', '8', ':', 'o', 'u', 't', ']', ';',
    'o', 'u', 't', '_', 'o', 'k', '[', 'D', '8', ':', '1', ']', ';',
    'o', 'u', 't', '_', 'e', 'r', 'r', '[', 'D', '8', ':', '0', ']']

set_option maxRecDepth 16000 in
theorem claimed_output_is_driven : ∃ s,
    runs interlockStep (startUp persistColdInit) [.setSlotDsl 0 outputText] = some s ∧
      (s.pins.claims 7).slot_mask 0 = true ∧ ClaimsHold s ∧
        ∀ smp, OutputsDriven (interlockTickAll smp s) := by
  have hfacts : (runs interlockStep (startUp persistColdInit) [.setSlotDsl 0 outputText]).map
      (fun s => (s.pins.claims 7).slot_mask 0) = some true := by decide
  obtain ⟨s, hrun, hmask⟩ := Option.map_eq_some_iff.mp hfacts
  exact ⟨s, hrun, hmask, claims_and_outputs_hold _ _ s hrun⟩

end motioncore.interlock
