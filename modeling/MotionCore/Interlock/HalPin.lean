-- The claims of the pins (`samd21_hal_pin.c`): who owns a pin, in which mode, and
-- the output drive. An output may be shared, an input has one owner.
import MotionCore.Interlock.Dsl

namespace motioncore.interlock

/-- `hal_pin_claim_status_t`. -/
inductive ClaimStatus where
  | ok
  | noSuchPin
  | reserved
  | taken
  | capMissing
  | badMode
  | valueMismatch
deriving DecidableEq

def ClaimStatus.code : ClaimStatus → UInt8
  | .ok => 0
  | .noSuchPin => 1
  | .reserved => 2
  | .taken => 3
  | .capMissing => 4
  | .badMode => 5
  | .valueMismatch => 6

def pinIx (phys_id : UInt8) : Option (Fin HAL_PIN_TABLE_SIZE) :=
  if h : phys_id.toNat < HAL_PIN_TABLE_SIZE then some ⟨phys_id.toNat, h⟩ else none

def findBoardPin (phys_id : UInt8) : Option BoardPin :=
  boardPins.find? fun p => p.physId == phys_id

def portConfigureInput (mode : HalPinMode) (p : PortPin) : PortPin :=
  let p := { p with dir := false, pmuxen := false, inen := true }
  if mode = .gpioInPullUp then { p with pullen := true, out := true }
  else if mode = .gpioInPullDown then { p with pullen := true, out := false }
  else { p with pullen := false }

def portConfigureOutput (p : PortPin) : PortPin :=
  { p with pmuxen := false, inen := false, pullen := false, dir := true }

def portResetToSafe (_ : PortPin) : PortPin := .reset

/-! ## Claims -/

def slotBit (slot : SlotIx) : SlotIx → Bool := fun s => s == slot

def PinClaim.claimed (c : PinClaim) : Bool := c.slot_mask 0 || c.slot_mask 1

/-- Someone else has a share of the pin. -/
def PinClaim.takenFrom (c : PinClaim) (slot : SlotIx) : Bool := c.slot_mask (1 - slot)

def Pins.setClaim (p : Pins) (i : Fin HAL_PIN_TABLE_SIZE) (c : PinClaim) : Pins :=
  { p with claims := Function.update p.claims i c }

def Pins.modPort (p : Pins) (i : Fin HAL_PIN_TABLE_SIZE) (f : PortPin → PortPin) : Pins :=
  { p with port := Function.update p.port i (f (p.port i)) }

/-- `hal_pin_claim`, for a digital input. The memory of an earlier analog use stays. -/
def halPinClaim (p : Pins) (phys_id : UInt8) (slot : SlotIx) (mode : HalPinMode) :
    Pins × ClaimStatus :=
  match pinIx phys_id with
  | none => (p, .noSuchPin)
  | some i =>
    if mode = .unclaimed ∨ mode = .gpioOut ∨ mode = .adcScan then (p, .badMode)
    else
      match findBoardPin phys_id with
      | none => (p, .noSuchPin)
      | some bp =>
        if bp.reserved then (p, .reserved)
        else if !bp.gpio then (p, .capMissing)
        else if (p.claims i).takenFrom slot then (p, .taken)
        else
          ((p.modPort i (portConfigureInput mode)).setClaim i
            { p.claims i with slot_mask := slotBit slot, mode, ok_value := 0, err_value := 0 }, .ok)

def halPinClaimAdc (p : Pins) (phys_id : UInt8) (slot : SlotIx) (oversample_exp sh_cyc : UInt8) :
    Pins × ClaimStatus :=
  match pinIx phys_id with
  | none => (p, .noSuchPin)
  | some i =>
    if 7 < oversample_exp ∨ 63 < sh_cyc then (p, .badMode)
    else
      match findBoardPin phys_id with
      | none => (p, .noSuchPin)
      | some bp =>
        if bp.reserved then (p, .reserved)
        else if !bp.adc then (p, .capMissing)
        else if (p.claims i).takenFrom slot then (p, .taken)
        else if (p.claims i).slot_mask slot ∧ (p.claims i).mode ≠ .adcScan then (p, .taken)
        else
          (p.setClaim i
            { slot_mask := slotBit slot
              mode := .adcScan
              ok_value := 0
              err_value := 0
              oversample_exp
              sh_cyc
              adc_channel := bp.adc_channel }, .ok)

/-- `hal_pin_claim_output`. A share must declare the values of the first claim. -/
def halPinClaimOutput (p : Pins) (phys_id : UInt8) (slot : SlotIx) (ok_value err_value : UInt8) :
    Pins × ClaimStatus :=
  match pinIx phys_id with
  | none => (p, .noSuchPin)
  | some i =>
    if 1 < ok_value ∨ 1 < err_value then (p, .badMode)
    else if ok_value = err_value then (p, .valueMismatch)
    else
      match findBoardPin phys_id with
      | none => (p, .noSuchPin)
      | some bp =>
        let c := p.claims i
        if bp.reserved then (p, .reserved)
        else if !bp.gpio then (p, .capMissing)
        else if c.claimed then
          if c.mode ≠ .gpioOut then (p, .taken)
          else if c.ok_value ≠ ok_value ∨ c.err_value ≠ err_value then (p, .valueMismatch)
          else
            (p.setClaim i { c with slot_mask := fun s => c.slot_mask s || slotBit slot s }, .ok)
        else
          ((p.modPort i portConfigureOutput).setClaim i
            { c with slot_mask := slotBit slot, mode := .gpioOut, ok_value, err_value }, .ok)

/-- A claim without the share of `slot`. Without the last share it is no claim. -/
def PinClaim.release (c : PinClaim) (slot : SlotIx) : PinClaim :=
  let c' := { c with slot_mask := fun s => c.slot_mask s && !slotBit slot s }
  if c'.claimed then c' else { c' with mode := .unclaimed, ok_value := 0, err_value := 0 }

def halPinReleaseSlot (p : Pins) (slot : SlotIx) : Pins where
  claims i := if (p.claims i).slot_mask slot then (p.claims i).release slot else p.claims i
  port i :=
    if (p.claims i).slot_mask slot ∧ ((p.claims i).release slot).claimed = false then
      portResetToSafe (p.port i)
    else p.port i

/-- The value that an output gets: one veto of a sharing slot is enough. -/
def PinClaim.value (c : PinClaim) (veto : SlotIx → Bool) : UInt8 :=
  if c.slot_mask 0 && veto 0 || c.slot_mask 1 && veto 1 then c.err_value else c.ok_value

def halPinDriveOutputs (p : Pins) (veto : SlotIx → Bool) : Pins :=
  { p with
    port := fun i =>
      let c := p.claims i
      if c.claimed && c.mode == .gpioOut then { p.port i with out := c.value veto != 0 }
      else p.port i }

/-! ## What a claim does -/

/-- The claim changes nothing, and it says so. -/
def Refused (p : Pins) (result : Pins × ClaimStatus) : Prop :=
  result.1 = p ∧ result.2 ≠ .ok

/-- The pin can be a digital input in this mode, whoever owns it. -/
structure TakesInput (phys_id : UInt8) (mode : HalPinMode) (i : Fin HAL_PIN_TABLE_SIZE) :
    Prop where
  place : pinIx phys_id = some i
  input : ¬ (mode = .unclaimed ∨ mode = .gpioOut ∨ mode = .adcScan)
  pin : ∃ bp, findBoardPin phys_id = some bp ∧ bp.reserved = false ∧ bp.gpio = true

def Pins.withInput (p : Pins) (i : Fin HAL_PIN_TABLE_SIZE) (slot : SlotIx) (mode : HalPinMode) :
    Pins :=
  (p.modPort i (portConfigureInput mode)).setClaim i
    { p.claims i with slot_mask := slotBit slot, mode, ok_value := 0, err_value := 0 }

variable {p : Pins} {phys_id : UInt8} {slot : SlotIx} {i : Fin HAL_PIN_TABLE_SIZE}

theorem halPinClaim_ok {mode : HalPinMode} (h : TakesInput phys_id mode i)
    (hfree : ¬ (p.claims i).takenFrom slot = true) :
    halPinClaim p phys_id slot mode = (p.withInput i slot mode, .ok) := by
  obtain ⟨hix, hmode, bp, hbp, hres, hgpio⟩ := h
  unfold halPinClaim
  rw [hix]
  dsimp only
  rw [if_neg hmode, hbp]
  dsimp only
  rw [hres, hgpio, if_neg hfree]
  rfl

theorem halPinClaim_cases (p : Pins) (phys_id : UInt8) (slot : SlotIx) (mode : HalPinMode) :
    Refused p (halPinClaim p phys_id slot mode) ∨
      ∃ i, TakesInput phys_id mode i ∧ ¬ (p.claims i).takenFrom slot = true ∧
        halPinClaim p phys_id slot mode = (p.withInput i slot mode, .ok) := by
  unfold halPinClaim
  split
  · exact .inl ⟨rfl, nofun⟩
  split
  · exact .inl ⟨rfl, nofun⟩
  split
  · exact .inl ⟨rfl, nofun⟩
  split
  · exact .inl ⟨rfl, nofun⟩
  split
  · exact .inl ⟨rfl, nofun⟩
  split
  · exact .inl ⟨rfl, nofun⟩
  · rename_i i hix hmode _ bp hbp hres hgpio hfree
    rw [Bool.not_eq_true, Bool.not_eq_false'] at hgpio
    exact .inr ⟨i, ⟨hix, hmode, bp, hbp, Bool.eq_false_iff.mpr hres, hgpio⟩, hfree, rfl⟩

/-- The pin can be an analog input with these parameters, on the channel. -/
structure TakesAdc (phys_id oversample_exp sh_cyc channel : UInt8)
    (i : Fin HAL_PIN_TABLE_SIZE) : Prop where
  place : pinIx phys_id = some i
  params : ¬ (7 < oversample_exp ∨ 63 < sh_cyc)
  pin : ∃ bp, findBoardPin phys_id = some bp ∧ bp.reserved = false ∧ bp.adc = true ∧
    bp.adc_channel = channel

/-- The slot has the pin for something else. -/
def PinClaim.usedBy (c : PinClaim) (slot : SlotIx) : Prop :=
  c.slot_mask slot = true ∧ c.mode ≠ .adcScan

def Pins.withAdc (p : Pins) (i : Fin HAL_PIN_TABLE_SIZE) (slot : SlotIx)
    (oversample_exp sh_cyc adc_channel : UInt8) : Pins :=
  p.setClaim i
    { slot_mask := slotBit slot
      mode := .adcScan
      ok_value := 0
      err_value := 0
      oversample_exp
      sh_cyc
      adc_channel }

theorem halPinClaimAdc_ok {oversample_exp sh_cyc channel : UInt8}
    (h : TakesAdc phys_id oversample_exp sh_cyc channel i)
    (hfree : ¬ (p.claims i).takenFrom slot = true) (hown : ¬ (p.claims i).usedBy slot) :
    halPinClaimAdc p phys_id slot oversample_exp sh_cyc =
      (p.withAdc i slot oversample_exp sh_cyc channel, .ok) := by
  obtain ⟨hix, hparams, bp, hbp, hres, hadc, rfl⟩ := h
  unfold halPinClaimAdc
  rw [hix]
  dsimp only
  rw [if_neg hparams, hbp]
  dsimp only
  unfold PinClaim.usedBy at hown
  rw [hres, hadc, if_neg hfree, if_neg hown]
  rfl

theorem halPinClaimAdc_cases (p : Pins) (phys_id : UInt8) (slot : SlotIx)
    (oversample_exp sh_cyc : UInt8) :
    Refused p (halPinClaimAdc p phys_id slot oversample_exp sh_cyc) ∨
      ∃ i channel, TakesAdc phys_id oversample_exp sh_cyc channel i ∧
        ¬ (p.claims i).takenFrom slot = true ∧ ¬ (p.claims i).usedBy slot ∧
        halPinClaimAdc p phys_id slot oversample_exp sh_cyc =
          (p.withAdc i slot oversample_exp sh_cyc channel, .ok) := by
  unfold halPinClaimAdc
  split
  · exact .inl ⟨rfl, nofun⟩
  split
  · exact .inl ⟨rfl, nofun⟩
  split
  · exact .inl ⟨rfl, nofun⟩
  split
  · exact .inl ⟨rfl, nofun⟩
  split
  · exact .inl ⟨rfl, nofun⟩
  split
  · exact .inl ⟨rfl, nofun⟩
  split
  · exact .inl ⟨rfl, nofun⟩
  · rename_i i hix hparams _ bp hbp hres hadc hfree hown
    rw [Bool.not_eq_true, Bool.not_eq_false'] at hadc
    exact .inr ⟨i, bp.adc_channel,
      ⟨hix, hparams, bp, hbp, Bool.eq_false_iff.mpr hres, hadc, rfl⟩, hfree, hown, rfl⟩

/-- The pin can be an output with these values, whoever owns it. -/
structure TakesOutput (phys_id ok_value err_value : UInt8) (i : Fin HAL_PIN_TABLE_SIZE) :
    Prop where
  place : pinIx phys_id = some i
  bits : ¬ (1 < ok_value ∨ 1 < err_value)
  differ : ok_value ≠ err_value
  pin : ∃ bp, findBoardPin phys_id = some bp ∧ bp.reserved = false ∧ bp.gpio = true

/-- The pin is an output with these values. -/
structure PinClaim.Drives (c : PinClaim) (ok_value err_value : UInt8) : Prop where
  claimed : c.claimed = true
  mode : c.mode = .gpioOut
  ok_value : c.ok_value = ok_value
  err_value : c.err_value = err_value

def Pins.withShare (p : Pins) (i : Fin HAL_PIN_TABLE_SIZE) (slot : SlotIx) : Pins :=
  p.setClaim i
    { p.claims i with slot_mask := fun s => (p.claims i).slot_mask s || slotBit slot s }

def Pins.withOutput (p : Pins) (i : Fin HAL_PIN_TABLE_SIZE) (slot : SlotIx)
    (ok_value err_value : UInt8) : Pins :=
  (p.modPort i portConfigureOutput).setClaim i
    { p.claims i with slot_mask := slotBit slot, mode := .gpioOut, ok_value, err_value }

theorem halPinClaimOutput_shares {ok_value err_value : UInt8}
    (h : TakesOutput phys_id ok_value err_value i) (hout : (p.claims i).Drives ok_value err_value) :
    halPinClaimOutput p phys_id slot ok_value err_value = (p.withShare i slot, .ok) := by
  obtain ⟨hix, hbits, hdiffer, bp, hbp, hres, hgpio⟩ := h
  obtain ⟨hclaimed, hmode, hok, herr⟩ := hout
  unfold halPinClaimOutput
  rw [hix]
  dsimp only
  rw [if_neg hbits, if_neg hdiffer, hbp]
  dsimp only
  rw [hres, hgpio, if_pos hclaimed, if_neg (not_not.mpr hmode),
    if_neg (not_or.mpr ⟨not_not.mpr hok, not_not.mpr herr⟩)]
  rfl

theorem halPinClaimOutput_new {ok_value err_value : UInt8}
    (h : TakesOutput phys_id ok_value err_value i) (hfree : ¬ (p.claims i).claimed = true) :
    halPinClaimOutput p phys_id slot ok_value err_value =
      (p.withOutput i slot ok_value err_value, .ok) := by
  obtain ⟨hix, hbits, hdiffer, bp, hbp, hres, hgpio⟩ := h
  unfold halPinClaimOutput
  rw [hix]
  dsimp only
  rw [if_neg hbits, if_neg hdiffer, hbp]
  dsimp only
  rw [hres, hgpio, if_neg hfree]
  rfl

theorem halPinClaimOutput_cases (p : Pins) (phys_id : UInt8) (slot : SlotIx)
    (ok_value err_value : UInt8) : Refused p (halPinClaimOutput p phys_id slot ok_value err_value) ∨
      ∃ i, TakesOutput phys_id ok_value err_value i ∧
        (((p.claims i).Drives ok_value err_value ∧
            halPinClaimOutput p phys_id slot ok_value err_value = (p.withShare i slot, .ok)) ∨
          (¬ (p.claims i).claimed = true ∧
            halPinClaimOutput p phys_id slot ok_value err_value =
              (p.withOutput i slot ok_value err_value, .ok))) := by
  unfold halPinClaimOutput
  split
  · exact .inl ⟨rfl, nofun⟩
  split
  · exact .inl ⟨rfl, nofun⟩
  split
  · exact .inl ⟨rfl, nofun⟩
  split
  · exact .inl ⟨rfl, nofun⟩
  dsimp only
  split
  · exact .inl ⟨rfl, nofun⟩
  split
  · exact .inl ⟨rfl, nofun⟩
  rename_i i hix hbits hdiffer _ bp hbp hres hgpio
  rw [Bool.not_eq_true, Bool.not_eq_false'] at hgpio
  have htakes : TakesOutput phys_id ok_value err_value i :=
    ⟨hix, hbits, hdiffer, bp, hbp, Bool.eq_false_iff.mpr hres, hgpio⟩
  split
  · rename_i hclaimed
    split
    · exact .inl ⟨rfl, nofun⟩
    split
    · exact .inl ⟨rfl, nofun⟩
    · rename_i hmode hsame
      rw [not_or, not_not, not_not] at hsame
      exact .inr ⟨i, htakes, .inl ⟨⟨hclaimed, not_not.mp hmode, hsame.1, hsame.2⟩, rfl⟩⟩
  · rename_i hfree
    exact .inr ⟨i, htakes, .inr ⟨hfree, rfl⟩⟩

end motioncore.interlock
