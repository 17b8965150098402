-- The waveform generator of the dongle (`samd21_commands.c`): a timer interrupt writes one
-- sample to the DAC at a time, and counts down the duration of the waveform. The follow mode,
-- which copies the ADC to the DAC, shares the timer with it.
import MotionCore.Interlock.Slots

open motioncore.bytes motioncore.interlock motioncore.machine

namespace motioncore.firmware

/-! ## The arguments of a shell command -/

/-- `shell_reader_t`. -/
structure ShellReader where
  rest : List UInt8
  overflow : Bool

def srInit (buf : List UInt8) : ShellReader := ⟨buf, false⟩

def srU8 (r : ShellReader) : UInt8 × ShellReader :=
  if r.rest.length < 1 then (0, { r with overflow := true })
  else (r.rest.getD 0 0, { r with rest := r.rest.drop 1 })

def srU16 (r : ShellReader) : UInt16 × ShellReader :=
  if r.rest.length < 2 then (0, { r with overflow := true })
  else (le16 (r.rest.getD 0 0) (r.rest.getD 1 0), { r with rest := r.rest.drop 2 })

def srU32 (r : ShellReader) : UInt32 × ShellReader :=
  if r.rest.length < 4 then (0, { r with overflow := true })
  else (le32 r.rest, { r with rest := r.rest.drop 4 })

/-! ## The DAC -/

abbrev DAC_WF_PHASE_STEPS : UInt32 := 64
abbrev DAC_WF_FREQ_MIN : UInt32 := 50
abbrev DAC_WF_FREQ_MAX : UInt32 := 500
abbrev DAC_WF_TYPE_SINE : UInt8 := 0
abbrev DAC_WF_TYPE_RAMP_UP : UInt8 := 1
abbrev DAC_WF_TYPE_RAMP_DOWN : UInt8 := 2
abbrev DAC_WF_TYPE_SQUARE : UInt8 := 3

def g_sine_lut : List Int :=
  [512, 562, 612, 660, 708, 753, 796, 836,
    873, 907, 937, 963, 984, 1001, 1013, 1021,
    1023, 1021, 1013, 1001, 984, 963, 937, 907,
    873, 836, 796, 753, 708, 660, 612, 562,
    512, 462, 412, 364, 316, 271, 228, 188,
    151, 117, 87, 61, 40, 23, 11, 3,
    1, 3, 11, 23, 40, 61, 87, 117,
    151, 188, 228, 271, 316, 364, 412, 462]

/-- `g_dac_wf`. -/
structure DacWf where
  active : Bool
  waveform_type : UInt8
  amplitude : UInt16
  offset : UInt16
  /-- The interrupts that are left, 0 for no end. -/
  isrs_remaining : UInt32
  phase : UInt8
deriving DecidableEq

/-- `g_dac_follow`. -/
structure DacFollow where
  active : Bool
  adc_channel : UInt8
deriving DecidableEq

/-- The DAC and its timer. `tc3` is the period of TC3 while it runs, and `written` all that
`DAC->DATA` was set to. -/
structure Dac where
  wf : DacWf
  follow : DacFollow
  tc3 : Option UInt16
  written : List UInt16
deriving DecidableEq

def Dac.boot : Dac where
  wf := ⟨false, 0, 0, 0, 0, 0⟩
  follow := ⟨false, 0⟩
  tc3 := none
  written := []

def tc3Stop (s : Dac) : Dac := { s with tc3 := none }

def tc3StartAtPeriod (s : Dac) (period : UInt16) : Dac := { s with tc3 := some period }

/-! ## The interrupt -/

/-- What an interrupt of TC3 finds: the flag of the timer, and the result of the ADC when there
is one. -/
structure Tc3Irq where
  mc0 : Bool
  adc : Option UInt16
deriving DecidableEq

def dacFollowStep (s : Dac) (adc : Option UInt16) : Dac :=
  match adc with
  | none => s
  | some v => { s with written := s.written ++ [v >>> 2] }

/-- The sample of the phase, with the truncated division of C. -/
def waveSample (wf : DacWf) : Int :=
  let amplitude : Int := wf.amplitude.toNat
  let offset : Int := wf.offset.toNat
  let phase : Int := wf.phase.toNat
  if wf.waveform_type = DAC_WF_TYPE_SINE then
    let lut := g_sine_lut.getD wf.phase.toNat 0 - 512
    let scaled := (lut * amplitude).tdiv 1023
    offset + scaled
  else if wf.waveform_type = DAC_WF_TYPE_RAMP_UP then
    let v := (phase * amplitude).tdiv 63
    offset - amplitude.tdiv 2 + v
  else if wf.waveform_type = DAC_WF_TYPE_RAMP_DOWN then
    let v := ((63 - phase) * amplitude).tdiv 63
    offset - amplitude.tdiv 2 + v
  else if wf.waveform_type = DAC_WF_TYPE_SQUARE then
    if phase < 32 then offset + amplitude.tdiv 2 else offset - amplitude.tdiv 2
  else offset

/-- The range of the DAC has 10 bits. -/
def clampSample (sample : Int) : UInt16 :=
  let sample := if sample < 0 then 0 else sample
  let sample := if sample > 1023 then 1023 else sample
  UInt16.ofNat sample.toNat

def tc3Handler (s : Dac) (irq : Tc3Irq) : Dac :=
  if !irq.mc0 then s
  else if s.follow.active then dacFollowStep s irq.adc
  else if !s.wf.active then s
  else
    let sample := clampSample (waveSample s.wf)
    let phase := UInt8.ofNat ((s.wf.phase.toNat + 1) % DAC_WF_PHASE_STEPS.toNat)
    let s := { s with written := s.written ++ [sample], wf := { s.wf with phase } }
    if s.wf.isrs_remaining ≠ 0 then
      let isrs_remaining := s.wf.isrs_remaining - 1
      let s := { s with wf := { s.wf with isrs_remaining } }
      if isrs_remaining = 0 then tc3Stop { s with wf := { s.wf with active := false } } else s
    else s

/-! ## The commands -/

structure WaveformArgs where
  waveform : UInt8
  amplitude : UInt16
  offset : UInt16
  frequency : UInt32
  duration_ms : UInt32

def readWaveformArgs (r : ShellReader) : WaveformArgs × ShellReader :=
  let (waveform, r) := srU8 r
  let (amplitude, r) := srU16 r
  let (offset, r) := srU16 r
  let (frequency, r) := srU32 r
  let (duration_ms, r) := srU32 r
  (⟨waveform, amplitude, offset, frequency, duration_ms⟩, r)

/-- How many interrupts the generator is set to, 0 for no end. -/
def waveformIsrs (a : WaveformArgs) : UInt32 :=
  let isr_rate := a.frequency * DAC_WF_PHASE_STEPS
  if a.duration_ms = 0 then 0 else a.duration_ms * isr_rate / 1000

def cmdDacWaveformWrite (s : Dac) (args : List UInt8) : Dac × ShellStatus :=
  let (a, r) := readWaveformArgs (srInit args)
  if r.overflow then (s, .badArgs)
  else if r.rest.length ≠ 0 then (s, .badArgs)
  else if DAC_WF_TYPE_SQUARE < a.waveform then (s, .badArgs)
  else if 1023 < a.amplitude ∨ 1023 < a.offset then (s, .badArgs)
  else if a.frequency < DAC_WF_FREQ_MIN ∨ DAC_WF_FREQ_MAX < a.frequency then (s, .badArgs)
  else
    let period : UInt32 := 48000000 / (a.frequency * DAC_WF_PHASE_STEPS)
    if period < 2 ∨ 65535 < period then (s, .badArgs)
    else
      let wf : DacWf :=
        { active := true
          waveform_type := a.waveform
          amplitude := a.amplitude
          offset := a.offset
          isrs_remaining := waveformIsrs a
          phase := 0 }
      (tc3StartAtPeriod { s with wf } period.toUInt16, .ok)

abbrev BOARD_PIN_ADC_NONE : UInt8 := 0xFF
abbrev ADC_OVERSAMPLE_MAX : UInt8 := 7
abbrev ADC_SAMPLE_HOLD_MAX : UInt8 := 63
abbrev DAC_FOLLOW_HZ_MIN : UInt16 := 1
abbrev DAC_FOLLOW_HZ_MAX : UInt16 := 10000
abbrev DAC_FOLLOW_HZ_DEFAULT : UInt16 := 1000

/-- The pin to follow is named by its label, behind the numbers. -/
def cmdDacFollowStart (s : Dac) (args : List UInt8) : Dac × ShellStatus :=
  let (oversample_exp, r) := srU8 (srInit args)
  let (sample_hold_cyc, r) := srU8 r
  let (update_hz, r) := srU16 r
  if r.overflow then (s, .badArgs)
  else if r.rest.length = 0 ∨ 3 < r.rest.length then (s, .badArgs)
  else if ADC_OVERSAMPLE_MAX < oversample_exp then (s, .badArgs)
  else if ADC_SAMPLE_HOLD_MAX < sample_hold_cyc then (s, .badArgs)
  else
    let update_hz := if update_hz = 0 then DAC_FOLLOW_HZ_DEFAULT else update_hz
    if update_hz < DAC_FOLLOW_HZ_MIN ∨ DAC_FOLLOW_HZ_MAX < update_hz then (s, .badArgs)
    else
      match boardPinLookup r.rest with
      | none => (s, .badArgs)
      | some p =>
        if p.reserved || !p.adc || p.adc_channel == BOARD_PIN_ADC_NONE then (s, .badArgs)
        else
          let period : UInt32 := 48000000 / update_hz.toUInt32
          if period < 2 ∨ 65535 < period then (s, .badArgs)
          else
            let s := { s with wf.active := false, follow := ⟨true, p.adc_channel⟩ }
            (tc3StartAtPeriod s period.toUInt16, .ok)

/-! ## The countdown -/

/-- The generator has so many interrupts left, 0 for no end. -/
structure Generating (s : Dac) (left : Nat) : Prop where
  follow : s.follow.active = false
  active : s.wf.active = true
  timer : s.tc3.isSome = true
  left : s.wf.isrs_remaining.toNat = left

/-- The generator is at rest, and its timer too. -/
structure AtRest (s : Dac) : Prop where
  follow : s.follow.active = false
  active : s.wf.active = false
  timer : s.tc3 = none

variable {irq : Tc3Irq}

theorem handler_spurious (s : Dac) (h : irq.mc0 = false) : tc3Handler s irq = s := by
  unfold tc3Handler
  rw [h]
  rfl

variable {s : Dac}

theorem AtRest.handler (h : AtRest s) (irq : Tc3Irq) : tc3Handler s irq = s := by
  unfold tc3Handler
  rw [h.follow, h.active]
  cases irq.mc0 <;> rfl

def nextSample (s : Dac) : Dac :=
  let phase := UInt8.ofNat ((s.wf.phase.toNat + 1) % DAC_WF_PHASE_STEPS.toNat)
  { s with
    written := s.written ++ [clampSample (waveSample s.wf)]
    wf := { s.wf with phase } }

variable {left : Nat}

theorem handler_generates (h : Generating s left) (hmc : irq.mc0 = true) : tc3Handler s irq =
      if s.wf.isrs_remaining = 0 then nextSample s
      else
        let t := { nextSample s with wf.isrs_remaining := s.wf.isrs_remaining - 1 }
        if s.wf.isrs_remaining - 1 = 0 then tc3Stop { t with wf.active := false } else t := by
  unfold tc3Handler
  rw [if_neg (by simp [hmc]), if_neg (by simp [h.follow]), if_neg (by simp [h.active])]
  dsimp only
  by_cases hzero : s.wf.isrs_remaining = 0
  · rw [if_neg (fun hne => hne hzero), if_pos hzero]
    rfl
  · rw [if_pos hzero, if_neg hzero]
    rfl

theorem Generating.endless (h : Generating s 0) (irq : Tc3Irq) :
    Generating (tc3Handler s irq) 0 := by
  have hleft : s.wf.isrs_remaining = 0 := UInt32.toNat_inj.mp h.left
  cases hmc : irq.mc0 with
  | false =>
    rw [handler_spurious s hmc]
    exact h
  | true =>
    rw [handler_generates h hmc, if_pos hleft]
    exact ⟨h.follow, h.active, h.timer, h.left⟩

theorem handler_counts (h : Generating s (left + 1)) (hmc : irq.mc0 = true) :
    if left = 0 then AtRest (tc3Handler s irq) else Generating (tc3Handler s irq) left := by
  have hne : s.wf.isrs_remaining ≠ 0 := by
    intro hzero
    have := h.left
    rw [hzero] at this
    exact absurd this (by simp)
  have hpred : (s.wf.isrs_remaining - 1).toNat = left := by
    have hle : (1 : UInt32) ≤ s.wf.isrs_remaining := by
      rw [UInt32.le_iff_toNat_le, h.left, UInt32.toNat_one]
      omega
    rw [UInt32.toNat_sub_of_le _ _ hle, h.left, UInt32.toNat_one, Nat.add_sub_cancel]
  rw [handler_generates h hmc, if_neg hne]
  dsimp only
  by_cases hlast : left = 0
  · have hzero : s.wf.isrs_remaining - 1 = 0 := UInt32.toNat_inj.mp (hpred.trans hlast)
    rw [if_pos hlast, if_pos hzero]
    exact ⟨h.follow, rfl, rfl⟩
  · have hmore : s.wf.isrs_remaining - 1 ≠ 0 := by
      intro hzero
      rw [hzero] at hpred
      exact hlast hpred.symm
    rw [if_neg hlast, if_neg hmore]
    exact ⟨h.follow, h.active, h.timer, hpred⟩

/-! ## Runs of interrupts -/

def afterIrqs (s : Dac) (irqs : List Tc3Irq) : Dac := irqs.foldl tc3Handler s

def timerIrqs (irqs : List Tc3Irq) : Nat := irqs.countP (·.mc0)

theorem AtRest.after (h : AtRest s) (irqs : List Tc3Irq) : afterIrqs s irqs = s := by
  induction irqs with
  | nil => rfl
  | cons irq irqs ih =>
    unfold afterIrqs
    rw [List.foldl_cons, h.handler irq]
    exact ih

theorem Generating.after_endless (h : Generating s 0) (irqs : List Tc3Irq) :
    Generating (afterIrqs s irqs) 0 := by
  induction irqs generalizing s with
  | nil => exact h
  | cons irq irqs ih => exact ih (h.endless irq)

/-- The generator counts the interrupts of its timer, and rests after the last of them. -/
theorem Generating.after (h : Generating s (left + 1)) (irqs : List Tc3Irq) :
    if timerIrqs irqs ≤ left then Generating (afterIrqs s irqs) (left + 1 - timerIrqs irqs)
    else AtRest (afterIrqs s irqs) := by
  induction irqs generalizing s left with
  | nil => exact h
  | cons irq irqs ih =>
    have hcons : afterIrqs s (irq :: irqs) = afterIrqs (tc3Handler s irq) irqs := rfl
    rw [hcons]
    cases hmc : irq.mc0 with
    | false =>
      have hcount : timerIrqs (irq :: irqs) = timerIrqs irqs := by
        unfold timerIrqs
        rw [List.countP_cons_of_neg (by simp [hmc])]
      rw [handler_spurious s hmc, hcount]
      exact ih h
    | true =>
      have hcount : timerIrqs (irq :: irqs) = timerIrqs irqs + 1 := by
        unfold timerIrqs
        rw [List.countP_cons_of_pos (by simp [hmc])]
      have hstep := handler_counts h hmc
      rw [hcount]
      cases left with
      | zero =>
        rw [if_pos rfl] at hstep
        rw [if_neg (by omega), hstep.after]
        exact hstep
      | succ left =>
        rw [if_neg (Nat.succ_ne_zero left)] at hstep
        have hrest := ih hstep
        rw [Nat.add_sub_add_right]
        simp only [Nat.add_le_add_iff_right]
        exact hrest

/-! ## The samples -/

theorem clampSample_le (sample : Int) : clampSample sample ≤ 1023 := by
  unfold clampSample
  rw [UInt16.le_iff_toNat_le]
  dsimp only
  split
  · decide
  · rename_i hle
    rw [UInt16.toNat_ofNat']
    have : (1023 : UInt16).toNat = 1023 := rfl
    omega

/-- The DAC has been set to nothing but 10 bits since. -/
def InRange (s s' : Dac) : Prop := ∃ new, s'.written = s.written ++ new ∧ ∀ x ∈ new, x ≤ 1023

theorem InRange.refl (s : Dac) : InRange s s := ⟨[], (List.append_nil _).symm, by simp⟩

theorem InRange.trans {a b c : Dac} (hab : InRange a b) (hbc : InRange b c) : InRange a c := by
  obtain ⟨new, hnew, hle⟩ := hab
  obtain ⟨more, hmore, hle'⟩ := hbc
  refine ⟨new ++ more, by rw [hmore, hnew, List.append_assoc], fun x hx => ?_⟩
  rcases List.mem_append.mp hx with hx | hx
  · exact hle x hx
  · exact hle' x hx

/-- The generator writes what it has clamped. The follow mode keeps the range when the ADC
keeps its 12 bits. -/
theorem handler_inRange (s : Dac) (hadc : s.follow.active = true → ∀ v ∈ irq.adc, v ≤ 4095) :
    InRange s (tc3Handler s irq) := by
  unfold tc3Handler
  split
  · exact .refl s
  split
  · rename_i hfollow
    unfold dacFollowStep
    cases hv : irq.adc with
    | none => exact .refl s
    | some v =>
      refine ⟨[v >>> 2], rfl, fun x hx => ?_⟩
      have hle := hadc hfollow v hv
      rw [List.mem_singleton.mp hx, UInt16.le_iff_toNat_le, UInt16.toNat_shiftRight]
      rw [UInt16.le_iff_toNat_le] at hle
      have h4095 : (4095 : UInt16).toNat = 4095 := rfl
      have h1023 : (1023 : UInt16).toNat = 1023 := rfl
      have h2 : (2 : UInt16).toNat % 16 = 2 := rfl
      rw [h2, Nat.shiftRight_eq_div_pow]
      omega
  split
  · exact .refl s
  have hnew : ∀ x ∈ [clampSample (waveSample s.wf)], x ≤ 1023 := by
    intro x hx
    rw [List.mem_singleton.mp hx]
    exact clampSample_le _
  dsimp only
  split
  · split <;> exact ⟨_, rfl, hnew⟩
  · exact ⟨_, rfl, hnew⟩

/-- From a generator, or one at rest, interrupts write nothing out of range. -/
theorem after_inRange (h : s.follow.active = false) (irqs : List Tc3Irq) :
    InRange s (afterIrqs s irqs) := by
  induction irqs generalizing s with
  | nil => exact .refl s
  | cons irq irqs ih =>
    have hfollow : (tc3Handler s irq).follow.active = false := by
      unfold tc3Handler
      split
      · exact h
      rw [if_neg (by simp [h])]
      split
      · exact h
      dsimp only
      split
      · split <;> exact h
      · exact h
    exact (handler_inRange s (fun hf => absurd hf (by simp [h]))).trans (ih hfollow)

/-! ## The duration of a waveform -/

def waveformArgs (args : List UInt8) : WaveformArgs := (readWaveformArgs (srInit args)).1

/-- The interrupts of the duration, as whole numbers. -/
def durationIsrs (a : WaveformArgs) : Nat :=
  a.duration_ms.toNat * (a.frequency.toNat * DAC_WF_PHASE_STEPS.toNat) / 1000

/-- The generator runs until it has had so many interrupts of its timer, and rests then. It
writes nothing out of the range of the DAC. -/
structure GeneratesFor (s : Dac) (isrs : Nat) : Prop where
  running : ∀ irqs, timerIrqs irqs < isrs →
    (afterIrqs s irqs).wf.active = true ∧ (afterIrqs s irqs).tc3.isSome = true
  stopped : ∀ irqs, timerIrqs irqs = isrs →
    (afterIrqs s irqs).wf.active = false ∧ (afterIrqs s irqs).tc3 = none
  samples : ∀ irqs, InRange s (afterIrqs s irqs)

/-- So many interrupts of the timer, while the ADC is still at work. -/
def plainIrqs (n : Nat) : List Tc3Irq := List.replicate n ⟨true, none⟩

theorem timerIrqs_plain (n : Nat) : timerIrqs (plainIrqs n) = n := by
  unfold timerIrqs plainIrqs
  rw [List.countP_replicate, if_pos rfl]

theorem Generating.generatesFor {isrs : Nat} (h : Generating s isrs) (hpos : 0 < isrs) :
    GeneratesFor s isrs := by
  obtain ⟨left, rfl⟩ := Nat.exists_eq_succ_of_ne_zero (Nat.ne_of_gt hpos)
  refine ⟨fun irqs hlt => ?_, fun irqs hall => ?_, after_inRange h.follow⟩
  · have hrun := h.after irqs
    rw [if_pos (Nat.le_of_lt_succ hlt)] at hrun
    exact ⟨hrun.active, hrun.timer⟩
  · have hrun := h.after irqs
    rw [if_neg (by omega)] at hrun
    exact ⟨hrun.active, hrun.timer⟩

/-- A generator keeps to the number that it was set to, and to no other. -/
theorem GeneratesFor.isrs_eq {isrs : Nat} (hset : Generating s left) (h : GeneratesFor s isrs) :
    left = isrs := by
  rcases Nat.eq_zero_or_pos left with rfl | hleft
  · have hend := h.stopped (plainIrqs isrs) (timerIrqs_plain isrs)
    rw [(hset.after_endless (plainIrqs isrs)).active] at hend
    exact absurd hend.1 (by decide)
  · have hown := hset.generatesFor hleft
    rcases Nat.lt_trichotomy left isrs with hlt | heq | hgt
    · have hrun := h.running (plainIrqs left) (by rw [timerIrqs_plain]; exact hlt)
      rw [(hown.stopped _ (timerIrqs_plain left)).1] at hrun
      exact absurd hrun.1 (by decide)
    · exact heq
    · have hrun := hown.running (plainIrqs isrs) (by rw [timerIrqs_plain]; exact hgt)
      rw [(h.stopped _ (timerIrqs_plain isrs)).1] at hrun
      exact absurd hrun.1 (by decide)

/-- In the follow mode the interrupts go to the ADC, and the generator never comes to its end. -/
theorem not_generatesFor_of_follow (hfollow : s.follow.active = true) (hactive : s.wf.active = true)
    (isrs : Nat) : ¬ GeneratesFor s isrs := by
  intro h
  have hidle : tc3Handler s ⟨true, none⟩ = s := by
    unfold tc3Handler
    rw [if_neg (by decide), if_pos hfollow]
    rfl
  have hsame : ∀ n, afterIrqs s (plainIrqs n) = s := by
    intro n
    induction n with
    | zero => rfl
    | succ n ih =>
      unfold afterIrqs plainIrqs
      rw [List.replicate_succ, List.foldl_cons, hidle]
      exact ih
  have hend := h.stopped (plainIrqs isrs) (timerIrqs_plain isrs)
  rw [hsame, hactive] at hend
  exact absurd hend.1 (by decide)

theorem waveformWrite_sets {s' : Dac} {args : List UInt8}
    (h : cmdDacWaveformWrite s args = (s', .ok)) :
    (DAC_WF_FREQ_MIN ≤ (waveformArgs args).frequency ∧
      (waveformArgs args).frequency ≤ DAC_WF_FREQ_MAX) ∧
    s'.follow = s.follow ∧ s'.wf.active = true ∧ s'.tc3.isSome = true ∧
      s'.wf.isrs_remaining = waveformIsrs (waveformArgs args) := by
  unfold cmdDacWaveformWrite at h
  unfold waveformArgs
  generalize readWaveformArgs (srInit args) = read at h ⊢
  obtain ⟨a, r⟩ := read
  dsimp only at h ⊢
  iterate 4
    rw [ite_eq_iff] at h
    obtain ⟨-, h⟩ | ⟨-, h⟩ := h
    · exact nomatch (Prod.mk.inj h).2
  rw [ite_eq_iff] at h
  obtain ⟨-, h⟩ | ⟨hfreq, h⟩ := h
  · exact nomatch (Prod.mk.inj h).2
  rw [ite_eq_iff] at h
  obtain ⟨-, h⟩ | ⟨-, h⟩ := h
  · exact nomatch (Prod.mk.inj h).2
  rw [not_or] at hfreq
  cases (Prod.mk.inj h).1
  exact ⟨⟨UInt32.not_lt.mp hfreq.1, UInt32.not_lt.mp hfreq.2⟩, rfl, rfl, rfl, rfl⟩

/-- The product of 32 bits is the number of interrupts when it does not run over. Otherwise it
is a smaller one. -/
theorem waveformIsrs_eq_iff {a : WaveformArgs} (hmax : a.frequency ≤ DAC_WF_FREQ_MAX)
    (hpos : a.duration_ms ≠ 0) : (waveformIsrs a).toNat = durationIsrs a ↔
      a.duration_ms.toNat * (a.frequency.toNat * DAC_WF_PHASE_STEPS.toNat) < 2 ^ 32 := by
  have hsteps : DAC_WF_PHASE_STEPS.toNat = 64 := rfl
  have hfreq : a.frequency.toNat ≤ 500 := UInt32.le_iff_toNat_le.mp hmax
  have hrate : (a.frequency * DAC_WF_PHASE_STEPS).toNat = a.frequency.toNat * 64 := by
    rw [UInt32.toNat_mul, hsteps, Nat.mod_eq_of_lt (by omega)]
  have hisrs : (waveformIsrs a).toNat =
      a.duration_ms.toNat * (a.frequency.toNat * 64) % 2 ^ 32 / 1000 := by
    unfold waveformIsrs
    dsimp only
    rw [if_neg hpos, UInt32.toNat_div, UInt32.toNat_mul, hrate]
    rfl
  rw [hisrs, durationIsrs, hsteps]
  generalize a.duration_ms.toNat * (a.frequency.toNat * 64) = product
  omega

theorem durationIsrs_pos {a : WaveformArgs} (hmin : DAC_WF_FREQ_MIN ≤ a.frequency)
    (hpos : a.duration_ms ≠ 0) : 0 < durationIsrs a := by
  have hsteps : DAC_WF_PHASE_STEPS.toNat = 64 := rfl
  have hfreq : 50 ≤ a.frequency.toNat := UInt32.le_iff_toNat_le.mp hmin
  have hms : 1 ≤ a.duration_ms.toNat := by
    refine Nat.one_le_iff_ne_zero.mpr fun hzero => hpos ?_
    exact UInt32.toNat_inj.mp hzero
  have hproduct : 1 * (50 * 64) ≤ a.duration_ms.toNat * (a.frequency.toNat * 64) :=
    Nat.mul_le_mul hms (Nat.mul_le_mul_right 64 hfreq)
  unfold durationIsrs
  rw [hsteps]
  omega

/-- An accepted waveform with a duration runs for just that long, exactly when the DAC is not in
its follow mode and the product of duration and rate has 32 bits. -/
theorem waveform_meets_its_duration_iff (s s' : Dac) (args : List UInt8)
    (haccepted : cmdDacWaveformWrite s args = (s', .ok))
    (hduration : (waveformArgs args).duration_ms ≠ 0) :
    GeneratesFor s' (durationIsrs (waveformArgs args)) ↔
      s.follow.active = false ∧
        (waveformArgs args).duration_ms.toNat *
          ((waveformArgs args).frequency.toNat * DAC_WF_PHASE_STEPS.toNat) < 2 ^ 32 := by
  obtain ⟨⟨hmin, hmax⟩, hfollow, hactive, htimer, hset⟩ := waveformWrite_sets haccepted
  have hpos := durationIsrs_pos hmin hduration
  have hexact := waveformIsrs_eq_iff hmax hduration
  have hgen : s.follow.active = false →
      Generating s' (waveformIsrs (waveformArgs args)).toNat := fun hoff =>
    ⟨by rw [hfollow, hoff], hactive, htimer, by rw [hset]⟩
  constructor
  · intro h
    cases hoff : s.follow.active with
    | true =>
      have hon : s'.follow.active = true := by rw [hfollow, hoff]
      exact absurd h (not_generatesFor_of_follow hon hactive _)
    | false => exact ⟨rfl, hexact.mp (h.isrs_eq (hgen hoff))⟩
  · rintro ⟨hoff, hlt⟩
    rw [← hexact.mpr hlt]
    rw [← hexact.mpr hlt] at hpos
    exact (hgen hoff).generatesFor hpos

/-- A sine of 100 Hz for one second has 6400 interrupts. -/
theorem sine_for_a_second :
    ∃ s', cmdDacWaveformWrite .boot [0, 0xC8, 0, 0, 2, 100, 0, 0, 0, 0xE8, 3, 0, 0] = (s', .ok) ∧
      GeneratesFor s' 6400 := by
  refine ⟨_, rfl, ?_⟩
  exact (waveform_meets_its_duration_iff .boot _ [0, 0xC8, 0, 0, 2, 100, 0, 0, 0, 0xE8, 3, 0, 0] rfl
    (by decide)).mpr ⟨rfl, by decide⟩

/-- While the DAC follows A1, the same waveform does not end. -/
example : ((cmdDacFollowStart .boot ([0, 5, 0, 0] ++ ascii ['A', '1'])).1).follow.active = true := by
  decide

/-- With 64 Hz and 2 ^ 20 ms the product runs over to 0, and the waveform never ends. -/
theorem long_waveform_never_ends :
    ¬ ∀ s s' args, cmdDacWaveformWrite s args = (s', .ok) → (waveformArgs args).duration_ms ≠ 0 →
      GeneratesFor s' (durationIsrs (waveformArgs args)) := by
  intro h
  have hset :
      Generating (cmdDacWaveformWrite .boot [0, 0xC8, 0, 0, 2, 64, 0, 0, 0, 0, 0, 16, 0]).1 0 :=
    ⟨rfl, rfl, rfl, rfl⟩
  have hends := h .boot _ [0, 0xC8, 0, 0, 2, 64, 0, 0, 0, 0, 0, 16, 0] rfl (by decide)
  exact absurd (hends.isrs_eq hset) (by decide)

end motioncore.firmware
