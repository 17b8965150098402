-- The overcurrent latch (control.c). A fault that the sample interrupt latches keeps the H-bridge
-- off in every state, when it does not come between the fault test of a drive and its last write,
-- and when no command writes to the bridge behind the control core.
import MotionCore.Ra4m1.Chip
import MotionCore.Lib.Runs

open motioncore.machine

namespace motioncore.ra4m1

variable {dsp : Dsp}

/-! ## What should hold -/

/-- The bridge is off, and the fault is what the status tells. -/
structure Safe (s : Chip) : Prop where
  in1 : (s.pins HB_IN1).low = true
  in2 : (s.pins HB_IN2).low = true
  pwm : s.pwm.off = true
  duty : s.g_duty = 0
  state : s.g_motor_state = .FAULT

/-! ## When it holds -/

/-- The write leaves a bridge off that is off. -/
def Action.keepsOff : Action → Bool
  | .pinConfig id output pullup => !(id.bridge && !output && pullup)
  | .pinWrite id level => !(id.bridge && level)
  | .pwmSet duty12 => duty12 = 0
  | .setDuty duty => duty = 0
  | .setMotorState st => st = .FAULT
  | _ => true

/-- So do the writes that are left, up to the one that clears the fault. -/
def keepOff : List Action → Bool
  | [] => true
  | .clearFault :: _ => true
  | a :: rest => a.keepsOff && keepOff rest

/-- Neither line of the bridge is an input that is pulled up. -/
def pulledUp (s : Chip) : Bool :=
  (!(s.pins HB_IN1).pdr && (s.pins HB_IN1).pcr) || (!(s.pins HB_IN2).pdr && (s.pins HB_IN2).pcr)

/-- No call switches the bridge on while a fault is latched, and a fault is latched when what is
left of the call in progress does not. -/
def Undisturbed (s : Chip) : Input → Prop
  | .call c => s.g_fault ≠ .NONE → keepOff (c.actions s) = true
  | .sampleIrq conv =>
    overcurrent (convert s conv) = true → keepOff s.todo = true ∧ pulledUp s = false
  | _ => True

instance (s : Chip) : ∀ i, Decidable (Undisturbed s i)
  | .call c => (inferInstance : Decidable (s.g_fault ≠ .NONE → keepOff (c.actions s) = true))
  | .sampleIrq conv => (inferInstance : Decidable
      (overcurrent (convert s conv) = true → keepOff s.todo = true ∧ pulledUp s = false))
  | .write _ | .periodicIrq _ => isTrue trivial

/-! ## The pins and the PWM -/

variable {s : Chip} {p : Pin}

theorem setPin_low {id line : PinId} (hlow : (s.pins line).low = true)
    (hp : id = line → p.low = true) : ((setPin s id p).pins line).low = true := by
  unfold setPin
  by_cases hid : id = line
  · subst hid
    simpa using hp rfl
  · simpa [Function.update_of_ne (Ne.symm hid)] using hlow

theorem bridge_in1 : HB_IN1.bridge = true := by decide

theorem bridge_in2 : HB_IN2.bridge = true := by decide

theorem pinWrite_low (hlow : p.low = true) : { p with podr := false }.low = true := by
  unfold Pin.low at hlow ⊢
  cases hpdr : p.pdr with
  | true => rfl
  | false => simpa [hpdr] using hlow

/-- A line that is not pulled up is low when its output is. -/
theorem cleared_low (hpull : (!p.pdr && p.pcr) = false) : { p with podr := false }.low = true := by
  unfold Pin.low
  cases hpdr : p.pdr with
  | true => rfl
  | false => simpa [hpdr] using hpull

theorem pwm_zero_off (p : Pwm) : (p.set 0).off = true := by
  unfold Pwm.set Pwm.off
  cases hp : p.period with
  | none => simp [hp]
  | some period => simp

/-! ## The writes and the interrupts -/

variable {a : Action}

theorem run_low {line : PinId} (hline : line.bridge = true) (hlow : (s.pins line).low = true)
    (ha : a.keepsOff = true) (conv : Nat → Nat) : ((a.run dsp s conv).pins line).low = true := by
  cases a with
  | pinAnalog id => exact setPin_low hlow fun _ => rfl
  | pinConfig id output pullup =>
    refine setPin_low hlow ?_
    rintro rfl
    unfold Action.keepsOff at ha
    dsimp only at ha
    rw [hline] at ha
    cases output with
    | true => rfl
    | false => cases pullup with
      | true => exact Bool.noConfusion ha
      | false => rfl
  | pinWrite id level =>
    refine setPin_low hlow ?_
    rintro rfl
    unfold Action.keepsOff at ha
    dsimp only at ha
    rw [hline] at ha
    cases level with
    | true => exact Bool.noConfusion ha
    | false => exact pinWrite_low hlow
  | _ => exact hlow

theorem run_off (hoff : s.pwm.off = true) (ha : a.keepsOff = true) (conv : Nat → Nat) :
    (a.run dsp s conv).pwm.off = true := by
  cases a with
  | pwmConfig period => rfl
  | pwmTeardown => rfl
  | pwmSet duty12 =>
    obtain rfl := of_decide_eq_true ha
    exact pwm_zero_off s.pwm
  | _ => exact hoff

variable (dsp) in
theorem run_safe {s : Chip} (hs : Safe s) {a : Action} (ha : a.keepsOff = true)
    (conv : Nat → Nat) : Safe (a.run dsp s conv) where
  in1 := run_low bridge_in1 hs.in1 ha conv
  in2 := run_low bridge_in2 hs.in2 ha conv
  pwm := run_off hs.pwm ha conv
  duty := by
    cases a with
    | setDuty duty => exact of_decide_eq_true ha
    | _ => exact hs.duty
  state := by
    cases a with
    | setMotorState st => exact of_decide_eq_true ha
    | _ => exact hs.state

/-- Only the clearing of a fault ends it, and no write begins one. -/
theorem run_fault (s : Chip) (a : Action) (conv : Nat → Nat) :
    (a.run dsp s conv).g_fault = if a = .clearFault then .NONE else s.g_fault := by
  cases a <;> rfl

/-- With a fault latched, a drive goes on with a coast. -/
theorem next_keepsOff (hfault : s.g_fault ≠ .NONE) (a : Action) (rest : List Action)
    (hrest : keepOff rest = true) : keepOff (a.next s ++ rest) = true := by
  cases a with
  | hbridgeApply duty =>
    unfold Action.next hbridge_apply
    dsimp only
    rw [if_pos hfault]
    exact hrest
  | _ => exact hrest

theorem keepOff_cons {rest : List Action} (ha : a ≠ .clearFault) (h : keepOff (a :: rest) = true) :
    a.keepsOff = true ∧ keepOff rest = true := by
  cases a with
  | clearFault => exact absurd rfl ha
  | _ => exact Bool.and_eq_true_iff.mp h

theorem cutout_safe (hpull : pulledUp s = false) : Safe (cutout s) := by
  obtain ⟨hin1, hin2⟩ := Bool.or_eq_false_iff.mp hpull
  refine ⟨?_, ?_, pwm_zero_off s.pwm, rfl, rfl⟩
  · have hne : HB_IN1 ≠ HB_IN2 := by decide
    unfold cutout setPin
    dsimp only
    rw [Function.update_of_ne hne, Function.update_self]
    exact cleared_low hin1
  · have hne : HB_IN2 ≠ HB_IN1 := by decide
    unfold cutout setPin
    dsimp only
    rw [Function.update_self, Function.update_of_ne hne]
    exact cleared_low hin2

/-! ## Every run -/

/-- A fault that is latched keeps the bridge off, and so does what is left of the call. -/
def Latched (s : Chip) : Prop := s.g_fault ≠ .NONE → Safe s ∧ keepOff s.todo = true

theorem write_latched (hs : Latched s) {rest : List Action} (htodo : s.todo = a :: rest)
    (conv : Nat → Nat) : Latched { a.run dsp s conv with todo := a.next s ++ rest } := by
  intro hfault
  have hrun : (a.run dsp s conv).g_fault ≠ .NONE := hfault
  rw [run_fault] at hrun
  by_cases ha : a = .clearFault
  · rw [if_pos ha] at hrun
    exact absurd rfl hrun
  rw [if_neg ha] at hrun
  obtain ⟨hsafe, hkeep⟩ := hs hrun
  rw [htodo] at hkeep
  obtain ⟨hoff, hrest⟩ := keepOff_cons ha hkeep
  have hnew := run_safe dsp hsafe hoff conv
  exact ⟨⟨hnew.in1, hnew.in2, hnew.pwm, hnew.duty, hnew.state⟩, next_keepsOff hrun a rest hrest⟩

theorem sample_latched (hs : Latched s) {conv : Nat → Nat} (hok : Undisturbed s (.sampleIrq conv)) :
    Latched (control_sample_isr s conv) := by
  unfold control_sample_isr
  dsimp only
  have hover : overcurrent { convert s conv with g_adc_raw := (convert s conv).addr 0 } =
      overcurrent (convert s conv) := rfl
  rw [hover]
  split
  · rename_i hcut
    obtain ⟨hkeep, hpull⟩ := hok hcut
    intro _
    exact ⟨cutout_safe hpull, hkeep⟩
  · intro hfault
    obtain ⟨hsafe, hkeep⟩ := hs hfault
    exact ⟨⟨hsafe.in1, hsafe.in2, hsafe.pwm, hsafe.duty, hsafe.state⟩, hkeep⟩

variable (dsp) in
theorem periodic_bridge (s : Chip) (conv : Nat → Nat) :
    (mode_periodic_isr dsp s conv).pins = s.pins ∧ (mode_periodic_isr dsp s conv).pwm = s.pwm ∧
      (mode_periodic_isr dsp s conv).g_duty = s.g_duty ∧
      (mode_periodic_isr dsp s conv).g_motor_state = s.g_motor_state ∧
      (mode_periodic_isr dsp s conv).g_fault = s.g_fault ∧
      (mode_periodic_isr dsp s conv).todo = s.todo := by
  unfold mode_periodic_isr
  cases s.device_mode with
  | SPECTRAL =>
    dsimp only
    split
    · exact ⟨rfl, rfl, rfl, rfl, rfl, rfl⟩
    · exact ⟨rfl, rfl, rfl, rfl, rfl, rfl⟩
  | GOERTZEL =>
    dsimp only
    split
    · exact ⟨rfl, rfl, rfl, rfl, rfl, rfl⟩
    · exact ⟨rfl, rfl, rfl, rfl, rfl, rfl⟩
  | _ => exact ⟨rfl, rfl, rfl, rfl, rfl, rfl⟩

theorem step_latched {s' : Chip} (hs : Latched s) {i : Input} (hok : Undisturbed s i)
    (hstep : step dsp s i = some s') : Latched s' := by
  cases i with
  | call c =>
    obtain ⟨-, rfl⟩ := step_cases hstep
    intro hfault
    obtain ⟨hsafe, -⟩ := hs hfault
    exact ⟨⟨hsafe.in1, hsafe.in2, hsafe.pwm, hsafe.duty, hsafe.state⟩, hok hfault⟩
  | write conv =>
    obtain ⟨a, rest, htodo, rfl⟩ := step_cases hstep
    exact write_latched hs htodo conv
  | periodicIrq conv =>
    obtain ⟨-, rfl⟩ := step_cases hstep
    obtain ⟨hpins, hpwm, hduty, hstate, hfault, htodo⟩ := periodic_bridge dsp s conv
    intro hlatched
    rw [hfault] at hlatched
    obtain ⟨hsafe, hkeep⟩ := hs hlatched
    refine ⟨⟨?_, ?_, ?_, ?_, ?_⟩, ?_⟩
    · rw [hpins]
      exact hsafe.in1
    · rw [hpins]
      exact hsafe.in2
    · rw [hpwm]
      exact hsafe.pwm
    · rw [hduty]
      exact hsafe.duty
    · rw [hstate]
      exact hsafe.state
    · rw [htodo]
      exact hkeep
  | sampleIrq conv =>
    obtain ⟨-, rfl⟩ := step_cases hstep
    exact sample_latched hs hok

/-- In every run that leaves the latch alone, with the interrupts between any two writes: as long
as a fault is latched, the bridge is off in every state. -/
theorem latched_fault_keeps_off (dsp : Dsp) (inputs : List Input) (s : Chip)
    (hok : Meets (step dsp) Undisturbed .init inputs)
    (hrun : runs (step dsp) .init inputs = some s) (hfault : s.g_fault ≠ .NONE) : Safe s :=
  (inv_runs (fun _ _ _ hs hi hstep => step_latched hs hi hstep)
    (fun hnone => absurd rfl hnone) hok hrun hfault).1

/-! ## A drive that the cutout comes into -/

/-- The motor is driven, and then the current is too high. -/
def cutoutAfterDrive : List Input :=
  manualEntered ++ [.call (.motor_drive 1000)] ++ writes 6 ++ [.sampleIrq fun _ => 200,
    .call (.motor_drive 1000)] ++ writes 6

theorem drive_is_refused : ∃ s, runs (step silentDsp) .init cutoutAfterDrive = some s ∧
    s.g_fault = .OVERCURRENT ∧ Safe s := by
  have hfault : (runs (step silentDsp) .init cutoutAfterDrive).map Chip.g_fault =
      some .OVERCURRENT := by
    decide +kernel
  obtain ⟨s, hrun, hfault⟩ := Option.map_eq_some_iff.mp hfault
  refine ⟨s, hrun, hfault, latched_fault_keeps_off silentDsp _ s ?_ hrun ?_⟩
  · decide +kernel
  · rw [hfault]
    exact Fault.noConfusion

/-- The interrupt comes between the fault test of the drive and its first write. -/
def cutoutInDrive : List Input :=
  manualEntered ++ [.call (.motor_drive 1000)] ++ writes 1 ++ [.sampleIrq fun _ => 200] ++ writes 5

/-- The drive goes on behind the cutout, and ends with the bridge on and a fault latched. -/
theorem drive_goes_on_behind_the_cutout :
    ¬ ∀ (dsp : Dsp) (inputs : List Input) (s : Chip), runs (step dsp) .init inputs = some s →
      s.todo = [] → s.g_fault ≠ .NONE → Safe s := by
  intro hall
  have hend : (runs (step silentDsp) .init cutoutInDrive).map
      (fun s => (s.todo, s.g_fault, s.g_duty)) = some ([], .OVERCURRENT, 1000) := by
    decide +kernel
  obtain ⟨s, hrun, hend⟩ := Option.map_eq_some_iff.mp hend
  simp only [Prod.mk.injEq] at hend
  obtain ⟨htodo, hfault, hduty⟩ := hend
  have hsafe := hall silentDsp _ s hrun htodo (by rw [hfault]; exact Fault.noConfusion)
  rw [hsafe.duty] at hduty
  exact absurd hduty (by decide)

end motioncore.ra4m1
