-- A text that is refused leaves no trace: the record, the runtime state and the
-- claims are as they were before the call, wherever among the pins it failed.
import MotionCore.Interlock.Claims

open motioncore.machine

namespace motioncore.interlock

/-! ## The law -/

/-- The owners, the mode and the values of a pin are as they were. -/
structure SameClaim (c c' : PinClaim) : Prop where
  owners : c'.slot_mask = c.slot_mask
  mode : c'.mode = c.mode
  ok_value : c'.ok_value = c.ok_value
  err_value : c'.err_value = c.err_value

structure Unchanged (s s' : Interlocks) : Prop where
  persist : s'.persist = s.persist
  runtime : s'.runtime = s.runtime
  claims : ∀ i, SameClaim (s.pins.claims i) (s'.pins.claims i)

theorem SameClaim.refl (c : PinClaim) : SameClaim c c := ⟨rfl, rfl, rfl, rfl⟩

theorem Unchanged.refl (s : Interlocks) : Unchanged s s := ⟨rfl, rfl, fun _ => .refl _⟩

/-! ## Pins without an owner -/

/-- A pin without an owner has no mode and no values. -/
def Clean (p : Pins) : Prop :=
  ∀ i, (p.claims i).claimed = false →
    (p.claims i).mode = .unclaimed ∧ (p.claims i).ok_value = 0 ∧ (p.claims i).err_value = 0

variable {p p' : Pins}

theorem Clean.congr (h : Clean p) (hclaims : p'.claims = p.claims) : Clean p' := by
  unfold Clean
  rw [hclaims]
  exact h

theorem Clean.set (h : Clean p) {i : Fin HAL_PIN_TABLE_SIZE} {c : PinClaim}
    (hp : p'.claims = Function.update p.claims i c) {k : SlotIx} (hc : c.slot_mask k = true) :
    Clean p' := by
  intro j hj
  rw [hp] at hj ⊢
  by_cases hij : j = i
  · subst hij
    rw [Function.update_self, (claimed_iff c).mpr ⟨k, hc⟩] at hj
    exact nomatch hj
  · rw [Function.update_of_ne hij] at hj ⊢
    exact h j hj

theorem Clean.refused (h : Clean p) {result : Pins × ClaimStatus} (hr : Refused p result) :
    Clean result.1 := by
  rw [hr.1]
  exact h

theorem Clean.halPinClaim (h : Clean p) (phys_id : UInt8) (k : SlotIx) (mode : HalPinMode) :
    Clean (halPinClaim p phys_id k mode).1 := by
  rcases halPinClaim_cases p phys_id k mode with hrefused | ⟨i, -, -, hok⟩
  · exact h.refused hrefused
  · rw [hok]
    exact h.set rfl (slotBit_self k)

theorem Clean.halPinClaimAdc (h : Clean p) (phys_id : UInt8) (k : SlotIx)
    (oversample_exp sh_cyc : UInt8) :
    Clean (halPinClaimAdc p phys_id k oversample_exp sh_cyc).1 := by
  rcases halPinClaimAdc_cases p phys_id k oversample_exp sh_cyc with
    hrefused | ⟨i, channel, -, -, -, hok⟩
  · exact h.refused hrefused
  · rw [hok]
    exact h.set rfl (slotBit_self k)

theorem Clean.claimOutput (h : Clean p) (k : SlotIx) (o : IlOutput) :
    Clean (claimOutput k o p).1 := by
  unfold interlock.claimOutput
  rcases halPinClaimOutput_cases p o.phys_id k o.ok_value o.err_value with
    hrefused | ⟨i, -, ⟨-, hok⟩ | ⟨-, hok⟩⟩
  · exact h.refused hrefused
  · rw [hok]
    refine h.set rfl (k := k) ?_
    dsimp only
    rw [slotBit_self, Bool.or_true]
  · rw [hok]
    exact h.set rfl (slotBit_self k)

theorem Clean.claimInput (h : Clean p) (k : SlotIx) (i : IlInput) : Clean (claimInput k i p).1 := by
  unfold interlock.claimInput
  split
  · exact h
  · exact h.halPinClaimAdc _ _ _ _
  · split
    · exact h
    · exact h.halPinClaim _ _ _

theorem Clean.release (h : Clean p) (k : SlotIx) : Clean (halPinReleaseSlot p k) := by
  intro i hi
  unfold halPinReleaseSlot at hi ⊢
  dsimp only at hi ⊢
  by_cases hm : (p.claims i).slot_mask k = true
  · rw [if_pos hm] at hi ⊢
    unfold PinClaim.release at hi ⊢
    dsimp only at hi ⊢
    split at hi
    · rename_i hc
      exact absurd (hc.symm.trans hi) (by decide)
    · rename_i hc
      rw [if_neg hc]
      exact ⟨rfl, rfl, rfl⟩
  · rw [if_neg hm] at hi ⊢
    exact h i hi

theorem Clean.claimEach {claims : List (Pins → Pins × ClaimStatus)}
    (hclaims : ∀ c ∈ claims, ∀ p, Clean p → Clean (c p).1) (h : Clean p) :
    Clean (claimEach claims p).1 := by
  induction claims generalizing p with
  | nil => exact h
  | cons c cs ih =>
    have hc := hclaims c List.mem_cons_self p h
    unfold interlock.claimEach
    split
    · rename_i p' hp'
      rw [hp'] at hc
      exact ih (fun d hd => hclaims d (List.mem_cons_of_mem _ hd)) hc
    · exact hc

theorem Clean.claimInstPins (h : Clean p) (k : SlotIx) (inst : IlInst) :
    Clean (claimInstPins p k inst).1 := by
  have heach : Clean (interlock.claimEach (claimsOf k inst) p).1 := by
    refine h.claimEach fun c hc q hq => ?_
    unfold claimsOf at hc
    rw [List.mem_append, List.mem_map, List.mem_map] at hc
    rcases hc with ⟨i, _, rfl⟩ | ⟨o, _, rfl⟩
    · exact hq.claimInput k i
    · exact hq.claimOutput k o
  unfold interlock.claimInstPins
  split
  · rename_i p' hp'
    rw [hp'] at heach
    exact heach
  · rename_i p' status _ hp'
    rw [hp'] at heach
    exact heach.release k

/-! ## The operations -/

variable {s : Interlocks}

theorem Clean.arm (h : Clean s.pins) (slot id : UInt8) :
    Clean (interlockArmSlotCompiled s slot id).1.pins := by
  unfold interlockArmSlotCompiled
  split
  · exact h
  split
  · exact h
  split
  · exact h
  · exact h

theorem Clean.disarm (h : Clean s.pins) (slot : UInt8) :
    Clean (interlockDisarmSlot s slot).1.pins := by
  unfold interlockDisarmSlot
  split
  · exact h
  · exact h.release _

theorem Clean.setSlotDsl (h : Clean s.pins) (slot : UInt8) (text : List UInt8) :
    Clean (interlockSetSlotDsl s slot text).1.pins := by
  unfold interlockSetSlotDsl
  split
  · exact h
  rename_i k _
  split
  · exact h
  split
  · exact h
  split
  · exact h
  · rename_i parsed _
    have hclaim := h.claimInstPins k parsed
    split
    · rename_i pins hpins
      rw [hpins] at hclaim
      exact hclaim
    · rename_i pins status _ hpins
      rw [hpins] at hclaim
      exact hclaim

theorem Clean.warmRestoreSlot (h : Clean s.pins) (k : SlotIx) :
    Clean (warmRestoreSlot s k).pins := by
  unfold interlock.warmRestoreSlot
  dsimp only
  split
  · exact h
  split
  · exact h
  split
  · exact h
  split
  · exact h
  · rename_i parsed _
    have hclaim := h.claimInstPins k parsed
    split
    · rename_i pins hpins
      rw [hpins] at hclaim
      exact hclaim
    · rename_i pins status _ hpins
      rw [hpins] at hclaim
      exact hclaim

theorem startUp_clean (p : Persist) : Clean (startUp p).pins := by
  have hboot : Clean (Interlocks.boot p).pins := fun _ _ => ⟨rfl, rfl, rfl⟩
  exact (hboot.warmRestoreSlot 0).warmRestoreSlot 1

theorem Clean.step {s' : Interlocks} {op : IlOp} (h : Clean s.pins)
    (hstep : interlockStep s op = some s') : Clean s'.pins := by
  unfold interlockStep at hstep
  split at hstep
  · cases hstep
    cases op with
    | arm slot id => exact h.arm slot id
    | setSlotDsl slot text => exact h.setSlotDsl slot text
    | disarm slot => exact h.disarm slot
    | warmRestore => exact (h.warmRestoreSlot 0).warmRestoreSlot 1
    | tick smp =>
      have heval := (tickSlot_evaluated smp (tickSlot smp s 0) 1).pins.trans
        (tickSlot_evaluated smp s 0).pins
      have hclaims := congrArg Pins.claims heval
      exact h.congr hclaims
    | warmBoot cause active => exact startUp_clean _
  · cases hstep

/-! ## A failed call -/

/-- The other slots keep their shares, and a slot that had none has none again. -/
theorem sameClaim_of_step {k : SlotIx} {outs : List IlOutput} (h : Clean p) (h' : Clean p')
    (hstep : TableStep k outs p p') (i : Fin HAL_PIN_TABLE_SIZE)
    (hnone : (p.claims i).slot_mask k = false) (hnone' : (p'.claims i).slot_mask k = false) :
    SameClaim (p.claims i) (p'.claims i) := by
  have hmask : (p'.claims i).slot_mask = (p.claims i).slot_mask := by
    funext k'
    by_cases hk' : k' = k
    · rw [hk', hnone, hnone']
    · exact mask_of_share ((hstep i).others k' hk')
  by_cases hc : (p.claims i).claimed = true
  · obtain ⟨k', hk'⟩ := (claimed_iff _).mp hc
    have hne : k' ≠ k := by
      rintro rfl
      exact absurd (hk'.symm.trans hnone) (by decide)
    obtain ⟨hmode, hok, herr⟩ := values_of_share ((hstep i).others k' hne) hk'
    exact ⟨hmask, hmode, hok, herr⟩
  · have hfree : (p.claims i).claimed = false := Bool.eq_false_iff.mpr hc
    have hfree' : (p'.claims i).claimed = false := by
      unfold PinClaim.claimed at hfree ⊢
      rw [hmask]
      exact hfree
    obtain ⟨hm, ho, he⟩ := h i hfree
    obtain ⟨hm', ho', he'⟩ := h' i hfree'
    exact ⟨hmask, hm'.trans hm.symm, ho'.trans ho.symm, he'.trans he.symm⟩

theorem refused_unchanged (hinv : PinsInv s) (hclean : Clean s.pins) {slot : UInt8}
    {text : List UInt8} (herr : (interlockSetSlotDsl s slot text).2.1 ≠ .ok) :
    Unchanged s (interlockSetSlotDsl s slot text).1 := by
  cases hslot : slotIx slot with
  | none =>
    rw [setSlotDsl_none hslot]
    exact .refl s
  | some k =>
    unfold interlockSetSlotDsl at herr ⊢
    rw [hslot] at herr ⊢
    dsimp only at herr ⊢
    split
    · exact .refl s
    rename_i hlen
    split
    · exact .refl s
    rename_i hfree
    split
    · exact .refl s
    · rename_i parsed hparse
      have hclaim := hclean.claimInstPins k parsed
      have hstep := claimInstPins_step s.pins k parsed
      split
      · rename_i pins hpins
        -- the call was not refused
        rw [if_neg hlen, if_neg hfree, hparse] at herr
        dsimp only at herr
        rw [hpins] at herr
        exact absurd rfl herr
      · rename_i pins status hstatus hpins
        have hfail : (claimInstPins s.pins k parsed).2 ≠ .ok := by
          rw [hpins]
          exact hstatus
        have hgone := claimInstPins_failed hfail
        rw [hpins] at hclaim hstep hgone
        exact ⟨rfl, rfl, fun i => sameClaim_of_step hclean hclaim hstep i
          (hinv.owns_nothing hfree i) (hgone i)⟩

/-- In every state that the operations reach, a call with a text that returns an error
changes nothing, whatever the other slot owns and wherever the claims failed. -/
theorem refused_text_changes_nothing (p : Persist) (ops : List IlOp) (s : Interlocks)
    (hrun : runs interlockStep (startUp p) ops = some s) (slot : UInt8) (text : List UInt8)
    (herr : (interlockSetSlotDsl s slot text).2.1 ≠ .ok) :
    Unchanged s (interlockSetSlotDsl s slot text).1 := by
  have hinv : PinsInv s ∧ Clean s.pins :=
    inv_runs (P := fun _ _ => True) (I := fun s => PinsInv s ∧ Clean s.pins)
      (fun _ _ _ h _ hs => ⟨PinsInv.step h.1 hs, Clean.step h.2 hs⟩)
      ⟨(boot_pinsInv p).warmRestore, startUp_clean p⟩ (.of_forall (fun _ _ => trivial) _ _) hrun
  exact refused_unchanged hinv.1 hinv.2 herr

/-- A second interlock: its input is free, its first output is shared, and the good
value of its second output is not the one of the owner. -/
def otherText : List UInt8 :=
  ascii ['y', ';', 'c', 'f', 'g', '[', 'D', '1', ':', 'i', 'n', ']', ';',
    'c', 'f', 'g', '[', '(', 'D', '8', ',', 'D', '9', ')', ':', 'o', 'u', 't', ']', ';',
    'o', 'u', 't', '_', 'o', 'k', '[', 'D', '8', ':', '1', ',', 'D', '9', ':', '1', ']', ';',
    'o', 'u', 't', '_', 'e', 'r', 'r', '[', 'D', '8', ':', '0', ',', 'D', '9', ':', '0', ']']

/-- An interlock with two outputs. -/
def ownerText : List UInt8 :=
  ascii ['x', ';', 'c', 'f', 'g', '[', '(', 'D', '8', ',', 'D', '9', ')', ':', 'o', 'u', 't', ']',
    ';', 'o', 'u', 't', '_', 'o', 'k', '[', 'D', '8', ':', '1', ',', 'D', '9', ':', '0', ']', ';',
    'o', 'u', 't', '_', 'e', 'r', 'r', '[', 'D', '8', ':', '0', ',', 'D', '9', ':', '1', ']']

set_option maxRecDepth 16000 in
theorem refused_share_changes_nothing : ∃ s,
    runs interlockStep (startUp persistColdInit) [.setSlotDsl 0 ownerText] = some s ∧
      (s.pins.claims 7).slot_mask 0 = true ∧
        (interlockSetSlotDsl s 1 otherText).2 = (.busy, 0xFF, ClaimStatus.valueMismatch.code, 0) ∧
          Unchanged s (interlockSetSlotDsl s 1 otherText).1 := by
  have hfacts : (runs interlockStep (startUp persistColdInit) [.setSlotDsl 0 ownerText]).map
      (fun s => ((s.pins.claims 7).slot_mask 0, (interlockSetSlotDsl s 1 otherText).2)) =
        some (true, .busy, 0xFF, ClaimStatus.valueMismatch.code, 0) := by decide
  obtain ⟨s, hrun, hs⟩ := Option.map_eq_some_iff.mp hfacts
  obtain ⟨hmask, hbusy⟩ := Prod.mk.inj hs
  refine ⟨s, hrun, hmask, hbusy, refused_text_changes_nothing _ _ s hrun 1 otherText ?_⟩
  rw [hbusy]
  exact ShellStatus.noConfusion

end motioncore.interlock
