-- While a motor mode runs, the DSP slot is empty and each sample interrupt compares a conversion
-- of A1 that it made itself, as long as the host sends no command that takes the converter
-- (control.c, ra4m1_commands.c).
import MotionCore.Lib.Pending
import MotionCore.Lib.Runs
import MotionCore.Ra4m1.Chip

open motioncore.machine motioncore.pending

namespace motioncore.ra4m1

variable {dsp : Dsp}

/-! ## What should hold -/

/-- What a step keeps: the value that the cutout compares is fresh, and only a motor command
touches the selection of the channels and the sampling while a motor mode runs. -/
structure KeepsConverter (dsp : Dsp) (s : Chip) (i : Input) : Prop where
  fresh : ∀ conv, i = .sampleIrq conv → ∀ s', step dsp s i = some s' →
    s'.g_adc_raw = conv 0 % 2 ^ 14
  owned : ∀ s', step dsp s i = some s' → s.motor_call = false → s.g_motor_mode ≠ .IDLE →
    s'.adansa = s.adansa ∧ s'.sampling = s.sampling

/-- The DSP slot is empty while a motor mode runs. -/
def SlotEmpty (s : Chip) : Prop := s.g_motor_mode ≠ .IDLE → s.device_mode = .WORKBENCH

/-! ## When it holds -/

/-- The write selects other channels, or lets another module have the converter. -/
def Action.takesAdc : Action → Bool
  | .adcSelect _ => true
  | .setMode m => m ≠ .WORKBENCH
  | _ => false

/-- While a motor mode runs, no other command takes the converter. -/
def SparesAdc (s : Chip) : Input → Prop
  | .call c => s.g_motor_mode ≠ .IDLE → c.motor = false →
    ∀ a ∈ c.actions s, a.takesAdc = false
  | _ => True

instance (s : Chip) : ∀ i, Decidable (SparesAdc s i)
  | .call c => (inferInstance : Decidable (s.g_motor_mode ≠ .IDLE → c.motor = false →
      ∀ a ∈ c.actions s, a.takesAdc = false))
  | .write _ | .periodicIrq _ | .sampleIrq _ => isTrue trivial

/-! ## The writes that are left -/

/-- What the writes depend on. The interrupts leave it alone. -/
structure Slots where
  device_mode : DeviceMode
  motor_mode : MotorMode
  sampling : Bool
  adansa : Channels
deriving DecidableEq

def Chip.slots (s : Chip) : Slots := ⟨s.device_mode, s.g_motor_mode, s.sampling, s.adansa⟩

def Action.onSlots : Action → Slots → Slots
  | .setMode m, v => { v with device_mode := m }
  | .setMotorMode m, v => { v with motor_mode := m }
  | .samplingStart, v => { v with sampling := true }
  | .samplingStop, v => { v with sampling := false }
  | .adcSelect chs, v => { v with adansa := chs }
  | _, v => v

/-- The writes that keep the slots apart. `motor` says whether the call is a motor command. -/
def SlotsApart (motor : Bool) (v : Slots) : Action → Prop
  | .setMode m => v.motor_mode = .IDLE ∨ m = .WORKBENCH
  | .adcSelect _ => v.sampling = false ∧ (motor = false → v.motor_mode = .IDLE)
  | .samplingStart => motor = true ∧ v.motor_mode = .MANUAL ∧ v.adansa = SCAN3
  | .samplingStop => motor = true
  | .setMotorMode m =>
    motor = true ∧ v.sampling = false ∧ (m ≠ .IDLE → v.device_mode = .WORKBENCH)
  | _ => True

/-- Only motor commands have it. -/
def Action.ofMotor : Action → Bool
  | .samplingStart | .samplingStop | .setMotorMode _ => true
  | _ => false

abbrev ApartFrom (motor : Bool) (v : Slots) (l : List Action) : Prop :=
  Allowed Action.onSlots (SlotsApart motor) v l

theorem run_slots (s : Chip) (a : Action) (conv : Nat → Nat) :
    (a.run dsp s conv).slots = a.onSlots s.slots := by
  cases a <;> rfl

/-! ## The calls -/

/-- The writes that no motor command is needed for. -/
def plain (l : List Action) : Prop := ∀ a ∈ l, a.ofMotor = false

instance (l : List Action) : Decidable (plain l) :=
  inferInstanceAs (Decidable (∀ a ∈ l, a.ofMotor = false))

theorem plain_append {l l' : List Action} (h : plain l) (h' : plain l') : plain (l ++ l') := by
  intro a ha
  rcases List.mem_append.mp ha with ha | ha
  · exact h a ha
  · exact h' a ha

theorem plain_ite {c : Prop} [Decidable c] {l l' : List Action} (h : plain l) (h' : plain l') :
    plain (if c then l else l') := by
  split
  · exact h
  · exact h'

theorem plain_nil : plain [] := fun _ ha => absurd ha List.not_mem_nil

theorem mode_set_plain (cur new : DeviceMode) : plain (mode_set cur new) := by
  cases cur <;> cases new <;> decide

theorem hal_adc_read_plain (ch : UInt8) : plain (hal_adc_read ch) := by
  unfold hal_adc_read
  split
  · intro a ha
    simp only [List.mem_cons, List.not_mem_nil, or_false] at ha
    rcases ha with rfl | rfl | rfl <;> rfl
  · exact plain_nil

theorem flatMap_plain {α : Type} {f : α → List Action} (h : ∀ x, plain (f x)) (l : List α) :
    plain (l.flatMap f) := by
  intro a ha
  obtain ⟨x, -, hx⟩ := List.mem_flatMap.mp ha
  exact h x a hx

theorem capture_plain (channels : List UInt8) (num_samples : UInt16) (delta_time_us : UInt32) :
    plain (cmd_adc_capture channels num_samples delta_time_us) := by
  refine plain_ite ?_ plain_nil
  intro a ha
  obtain ⟨l, hl, ha⟩ := List.mem_flatten.mp ha
  rw [(List.mem_replicate.mp hl).2] at ha
  exact flatMap_plain hal_adc_read_plain channels a ha

theorem single_plain {a : Action} (ha : a.ofMotor = false) : plain [a] := by
  intro b hb
  rw [List.mem_singleton.mp hb]
  exact ha

theorem inMode_plain (s : Chip) (m : DeviceMode) (op : ArenaOp) : plain (inMode s m op) :=
  plain_ite (single_plain rfl) plain_nil

theorem stopWaveform_plain (s : Chip) : plain (stopWaveform s) :=
  plain_ite (by decide) plain_nil

theorem started_plain (op op' : ArenaOp) (ch : UInt8) :
    plain (.arena op :: adc_setup ch ++ [.arena op', .periodicStart]) := by
  refine plain_append (plain_append (single_plain rfl) (hal_adc_read_plain _)) ?_
  intro a ha
  simp only [List.mem_cons, List.not_mem_nil, or_false] at ha
  rcases ha with rfl | rfl <;> rfl

/-- No other command has a write of the motor commands. -/
theorem actions_plain (s : Chip) {c : Call} (hc : c.motor = false) : plain (c.actions s) := by
  cases c with
  | spectral_pump => exact plain_ite (single_plain rfl) plain_nil
  | goertzel_pump encoder => exact plain_ite (single_plain rfl) plain_nil
  | workbench_analog_poll due => exact plain_ite (flatMap_plain hal_adc_read_plain _) plain_nil
  | gpio_config port pin mode => exact plain_ite (single_plain rfl) plain_nil
  | gpio_write port pin level => exact plain_ite (single_plain rfl) plain_nil
  | dac_write value => exact plain_ite (stopWaveform_plain s) plain_nil
  | dac_waveform_write waveform amplitude offset frequency duration_ms =>
    refine plain_ite ?_ plain_nil
    intro a ha
    simp only [List.mem_cons, List.not_mem_nil, or_false] at ha
    rcases ha with rfl | rfl | rfl <;> rfl
  | dac_stop => exact (by decide : plain [.arena .wfStop, .periodicStop])
  | dac_probe source scale offset => exact stopWaveform_plain s
  | adc_read channel => exact hal_adc_read_plain channel
  | adc_capture channels num_samples delta_time_us =>
    exact capture_plain channels num_samples delta_time_us
  | pwm_config port pin freq_hz resolution => exact plain_ite (single_plain rfl) plain_nil
  | pwm_set duty => exact plain_ite (single_plain rfl) plain_nil
  | pwm_teardown => exact single_plain rfl
  | analog_start => exact single_plain rfl
  | analog_stop => exact single_plain rfl
  | spectral_start fs_code channel target_frames =>
    exact plain_append (mode_set_plain _ _) (plain_ite (started_plain _ _ _) plain_nil)
  | spectral_stop => exact plain_ite (by decide) plain_nil
  | goertzel_config c => exact plain_append (mode_set_plain _ _) (single_plain rfl)
  | goertzel_set_orders offset os => exact plain_ite (inMode_plain s _ _) plain_nil
  | goertzel_start => exact plain_ite (started_plain _ _ _) plain_nil
  | goertzel_read offset reset => exact plain_ite (inMode_plain s _ _) plain_nil
  | goertzel_stop => exact plain_ite (by decide) plain_nil
  | goertzel_inject_rpm rpm => exact inMode_plain s _ _
  | set_mode mode =>
    unfold Call.actions cmd_set_mode
    dsimp only
    split
    · exact mode_set_plain _ _
    · exact plain_nil
  | set_dsp_mode mode =>
    refine plain_ite plain_nil ?_
    split
    · exact mode_set_plain _ _
    · exact plain_nil
  | set_motor_mode mode => exact Bool.noConfusion hc
  | motor_drive duty => exact Bool.noConfusion hc
  | motor_config overcurrent_raw counts_per_rev => exact Bool.noConfusion hc
  | other => exact plain_nil

/-- In IDLE nothing samples, so any plain write keeps the slots apart. -/
theorem idle_apart {v : Slots} (hidle : v.motor_mode = .IDLE) (hoff : v.sampling = false)
    {l : List Action} (hl : plain l) : ApartFrom false v l := by
  refine allowed_of_forall (I := fun v => v.motor_mode = .IDLE ∧ v.sampling = false) ?_
    ⟨hidle, hoff⟩
  intro a ha v hv
  have hplain := hl a ha
  cases a with
  | setMode m => exact ⟨Or.inl hv.1, hv⟩
  | adcSelect chs => exact ⟨⟨hv.2, fun _ => hv.1⟩, hv⟩
  | samplingStart => exact Bool.noConfusion hplain
  | samplingStop => exact Bool.noConfusion hplain
  | setMotorMode m => exact Bool.noConfusion hplain
  | _ => exact ⟨trivial, hv⟩

/-- Plain writes that spare the converter keep the slots apart in any mode. -/
theorem spared_apart {v : Slots} {motor : Bool} {l : List Action} (hl : plain l)
    (hspared : ∀ a ∈ l, a.takesAdc = false) : ApartFrom motor v l := by
  refine allowed_of_forall (I := fun _ => True) ?_ trivial
  intro a ha v _
  have hplain := hl a ha
  have hspare := hspared a ha
  cases a with
  | setMode m => exact ⟨Or.inr (by simpa [Action.takesAdc] using hspare), trivial⟩
  | adcSelect chs => exact Bool.noConfusion hspare
  | samplingStart => exact Bool.noConfusion hplain
  | samplingStop => exact Bool.noConfusion hplain
  | setMotorMode m => exact Bool.noConfusion hplain
  | _ => exact ⟨trivial, trivial⟩

/-- The slots at the start of a call. -/
structure Settled (s : Chip) : Prop where
  slot : SlotEmpty s
  sampling : s.sampling = true → s.g_motor_mode = .MANUAL ∧ s.adansa = SCAN3

theorem Settled.idle_off {s : Chip} (hs : Settled s) (hidle : s.g_motor_mode = .IDLE) :
    s.sampling = false := by
  cases hsampling : s.sampling with
  | false => rfl
  | true => exact MotorMode.noConfusion (hidle.symm.trans (hs.sampling hsampling).1)

theorem enter_manual_apart (dm : DeviceMode) (adansa : Channels) :
    ApartFrom true ⟨dm, .IDLE, false, adansa⟩
      (mode_set dm .WORKBENCH ++ motor_on_exit .IDLE ++ [.setMotorMode .MANUAL, .clearFault] ++
        motor_on_enter .MANUAL) := by
  cases dm <;>
    simp [mode_set, on_exit, on_enter, motor_on_exit, motor_on_enter, hbridge_coast,
      hal_adc_scan3_setup, ApartFrom, Allowed, SlotsApart, Action.onSlots]

theorem leave_manual_apart (sampling : Bool) (adansa : Channels) :
    ApartFrom true ⟨.WORKBENCH, .MANUAL, sampling, adansa⟩
      (motor_on_exit .MANUAL ++ [.setMotorMode .IDLE, .clearFault] ++ motor_on_enter .IDLE) := by
  simp [motor_on_exit, motor_on_enter, hbridge_coast, ApartFrom, Allowed, SlotsApart,
    Action.onSlots]

theorem set_motor_mode_apart {s : Chip} (hs : Settled s) (m : MotorMode) :
    ApartFrom true s.slots (control_set_motor_mode s m) := by
  unfold control_set_motor_mode Chip.slots
  cases hcur : s.g_motor_mode with
  | IDLE =>
    cases m with
    | IDLE => trivial
    | MANUAL =>
      rw [hs.idle_off hcur]
      exact enter_manual_apart s.device_mode s.adansa
  | MANUAL =>
    cases m with
    | IDLE =>
      rw [hs.slot (hcur ▸ MotorMode.noConfusion)]
      exact leave_manual_apart s.sampling s.adansa
    | MANUAL => trivial

theorem motor_call_apart {s : Chip} (hs : Settled s) {c : Call} (hc : c.motor = true) :
    ApartFrom true s.slots (c.actions s) := by
  cases c with
  | set_motor_mode mode =>
    unfold Call.actions cmd_set_motor_mode
    dsimp only
    split
    · exact set_motor_mode_apart hs .IDLE
    · split
      · exact set_motor_mode_apart hs .MANUAL
      · trivial
  | motor_drive duty =>
    unfold Call.actions control_motor_drive
    dsimp only
    split
    · trivial
    · split
      · exact ⟨trivial, trivial, trivial⟩
      · exact ⟨trivial, trivial⟩
  | motor_config overcurrent_raw counts_per_rev => exact ⟨trivial, trivial⟩
  | _ => exact Bool.noConfusion hc

theorem call_apart {s : Chip} (hs : Settled s) {c : Call} (hok : SparesAdc s (.call c)) :
    ApartFrom c.motor s.slots (c.actions s) := by
  cases hc : c.motor with
  | true => exact motor_call_apart hs hc
  | false =>
    by_cases hidle : s.g_motor_mode = .IDLE
    · exact idle_apart hidle (hs.idle_off hidle) (actions_plain s hc)
    · exact spared_apart (actions_plain s hc) (hok hidle hc)

/-! ## The interrupts -/

variable (dsp) in
theorem periodic_slots (s : Chip) (conv : Nat → Nat) :
    (mode_periodic_isr dsp s conv).slots = s.slots ∧
      (mode_periodic_isr dsp s conv).todo = s.todo ∧
      (mode_periodic_isr dsp s conv).motor_call = s.motor_call := by
  unfold mode_periodic_isr
  split
  · exact ⟨rfl, rfl, rfl⟩
  · split
    · exact ⟨rfl, rfl, rfl⟩
    · exact ⟨rfl, rfl, rfl⟩
  · split
    · exact ⟨rfl, rfl, rfl⟩
    · exact ⟨rfl, rfl, rfl⟩
  · exact ⟨rfl, rfl, rfl⟩
  · exact ⟨rfl, rfl, rfl⟩

theorem sample_slots (s : Chip) (conv : Nat → Nat) :
    (control_sample_isr s conv).slots = s.slots ∧ (control_sample_isr s conv).todo = s.todo ∧
      (control_sample_isr s conv).motor_call = s.motor_call := by
  unfold control_sample_isr
  dsimp only
  split
  · exact ⟨rfl, rfl, rfl⟩
  · exact ⟨rfl, rfl, rfl⟩

/-- The value that is compared is the result of A1. -/
theorem sample_compares (s : Chip) (conv : Nat → Nat) :
    (control_sample_isr s conv).g_adc_raw = (convert s conv).addr 0 := by
  unfold control_sample_isr
  dsimp only
  split
  · rfl
  · rfl

/-! ## Every run -/

structure Apart (s : Chip) : Prop extends Settled s where
  todo : ApartFrom s.motor_call s.slots s.todo

theorem Settled.of_slots {s s' : Chip} (hs : Settled s) (heq : s'.slots = s.slots) : Settled s' := by
  obtain ⟨hmode, hmotor, hsampling, hadansa⟩ := Slots.mk.inj heq
  refine ⟨?_, ?_⟩
  · unfold SlotEmpty
    rw [hmode, hmotor]
    exact hs.slot
  · rw [hmotor, hsampling, hadansa]
    exact hs.sampling

/-- What a write puts in front has nothing to do with the slots. -/
theorem next_apart (s : Chip) {motor : Bool} {v : Slots} (a : Action) {rest : List Action}
    (hrest : ApartFrom motor v rest) : ApartFrom motor v (a.next s ++ rest) := by
  cases a with
  | hbridgeApply duty =>
    unfold Action.next hbridge_apply
    dsimp only
    split
    · exact ⟨trivial, trivial, trivial, trivial, trivial, hrest⟩
    · exact ⟨trivial, trivial, trivial, trivial, trivial, hrest⟩
  | _ => exact hrest

variable (dsp) in
theorem write_settled {s : Chip} (hs : Settled s) {motor : Bool} {a : Action}
    (ha : SlotsApart motor s.slots a) (conv : Nat → Nat) : Settled (a.run dsp s conv) := by
  cases a with
  | setMode m =>
    refine ⟨fun hmotor => ?_, hs.sampling⟩
    rcases ha with hidle | hm
    · exact absurd hidle hmotor
    · exact hm
  | adcSelect chs =>
    refine ⟨hs.slot, fun hsampling => ?_⟩
    exact Bool.noConfusion (ha.1.symm.trans hsampling)
  | samplingStart => exact ⟨hs.slot, fun _ => ha.2⟩
  | samplingStop => exact ⟨hs.slot, fun hsampling => Bool.noConfusion hsampling⟩
  | setMotorMode m =>
    refine ⟨ha.2.2, fun hsampling => ?_⟩
    exact Bool.noConfusion (ha.2.1.symm.trans hsampling)
  | _ => exact hs.of_slots rfl

theorem step_apart {s s' : Chip} (hs : Apart s) {i : Input} (hok : SparesAdc s i)
    (hstep : step dsp s i = some s') : Apart s' := by
  cases i with
  | call c =>
    obtain ⟨-, rfl⟩ := step_cases hstep
    exact ⟨hs.toSettled.of_slots rfl, call_apart hs.toSettled hok⟩
  | write conv =>
    have htodo := hs.todo
    obtain ⟨a, rest, heq, rfl⟩ := step_cases hstep
    rw [heq] at htodo
    obtain ⟨ha, hrest⟩ := htodo
    have hsettled := write_settled dsp hs.toSettled ha conv
    refine ⟨hsettled.of_slots rfl, ?_⟩
    have hcall : (a.run dsp s conv).motor_call = s.motor_call := by
      cases a <;> rfl
    have hslots : Chip.slots { a.run dsp s conv with todo := a.next s ++ rest } =
        a.onSlots s.slots := run_slots s a conv
    rw [hslots]
    dsimp only
    rw [hcall]
    exact next_apart s a hrest
  | periodicIrq conv =>
    obtain ⟨-, rfl⟩ := step_cases hstep
    obtain ⟨hslots, htodo, hcall⟩ := periodic_slots dsp s conv
    refine ⟨hs.toSettled.of_slots hslots, ?_⟩
    rw [hslots, htodo, hcall]
    exact hs.todo
  | sampleIrq conv =>
    obtain ⟨-, rfl⟩ := step_cases hstep
    obtain ⟨hslots, htodo, hcall⟩ := sample_slots s conv
    refine ⟨hs.toSettled.of_slots hslots, ?_⟩
    rw [hslots, htodo, hcall]
    exact hs.todo

/-- A write of another call leaves the converter to the motor. -/
theorem write_owned {s : Chip} {a : Action} (ha : SlotsApart false s.slots a)
    (hmotor : s.g_motor_mode ≠ .IDLE) (conv : Nat → Nat) :
    (a.run dsp s conv).adansa = s.adansa ∧ (a.run dsp s conv).sampling = s.sampling := by
  cases a with
  | adcSelect chs => exact absurd (ha.2 rfl) hmotor
  | samplingStart => exact Bool.noConfusion ha.1
  | samplingStop => exact Bool.noConfusion ha
  | setMotorMode m => exact Bool.noConfusion ha.1
  | _ => exact ⟨rfl, rfl⟩

theorem step_keepsConverter {s : Chip} (hs : Apart s) (i : Input) : KeepsConverter dsp s i := by
  refine ⟨?_, ?_⟩
  · rintro conv rfl s' hstep
    obtain ⟨hsampling, rfl⟩ := step_cases hstep
    have hscan := (hs.sampling hsampling).2
    rw [sample_compares]
    unfold convert
    dsimp only
    rw [hscan, if_pos (by decide)]
  · intro s' hstep hcall hmotor
    cases i with
    | call c =>
      obtain ⟨-, rfl⟩ := step_cases hstep
      exact ⟨rfl, rfl⟩
    | write conv =>
      have htodo := hs.todo
      obtain ⟨a, rest, heq, rfl⟩ := step_cases hstep
      rw [heq, hcall] at htodo
      exact write_owned htodo.1 hmotor conv
    | periodicIrq conv =>
      obtain ⟨-, rfl⟩ := step_cases hstep
      obtain ⟨-, -, hsampling, hadansa⟩ := Slots.mk.inj (periodic_slots dsp s conv).1
      exact ⟨hadansa, hsampling⟩
    | sampleIrq conv =>
      obtain ⟨-, rfl⟩ := step_cases hstep
      obtain ⟨-, -, hsampling, hadansa⟩ := Slots.mk.inj (sample_slots s conv).1
      exact ⟨hadansa, hsampling⟩

theorem init_apart : Apart .init where
  slot hmotor := absurd rfl hmotor
  sampling hsampling := Bool.noConfusion hsampling
  todo := trivial

/-- In every run whose other commands spare the converter while a motor mode runs: the DSP slot is
empty then, each sample interrupt compares its own conversion of A1, and only motor commands touch
the selection and the sampling. -/
theorem motor_owns_the_converter (dsp : Dsp) (inputs : List Input)
    (hok : Meets (step dsp) SparesAdc .init inputs) :
    (∀ s, runs (step dsp) .init inputs = some s → SlotEmpty s) ∧
      Meets (step dsp) (KeepsConverter dsp) .init inputs := by
  have hstep : ∀ s i s', Apart s → SparesAdc s i → step dsp s i = some s' → Apart s' :=
    fun _ _ _ hs hi hstep => step_apart hs hi hstep
  refine ⟨fun s hrun => (inv_runs hstep init_apart hok hrun).slot, ?_⟩
  exact meets_of_inv hstep (fun _ i hs _ => step_keepsConverter hs i) init_apart hok

/-- The motor is driven, sampled twice, and stopped; then a capture is started. -/
def driveThenCapture : List Input :=
  manualEntered ++ [.call (.motor_drive 1000)] ++ writes 4 ++ [.sampleIrq fun _ => 40] ++ writes 2 ++
    [.sampleIrq fun _ => 41, .call (.set_dsp_mode 2), .call (.set_motor_mode 0)] ++ writes 12 ++
    [.call (.spectral_start 1 0 1)] ++ writes 10

theorem drive_then_capture :
    (∃ s, runs (step silentDsp) .init driveThenCapture = some s ∧ s.device_mode = .SPECTRAL ∧
      s.g_adc_raw = 41) ∧
    (∀ s, runs (step silentDsp) .init driveThenCapture = some s → SlotEmpty s) ∧
      Meets (step silentDsp) (KeepsConverter silentDsp) .init driveThenCapture := by
  refine ⟨?_, motor_owns_the_converter silentDsp driveThenCapture (by decide +kernel)⟩
  have hend : (runs (step silentDsp) .init driveThenCapture).map
      (fun s => (s.device_mode, s.g_adc_raw)) = some (.SPECTRAL, 41) := by
    decide +kernel
  obtain ⟨s, hrun, hend⟩ := Option.map_eq_some_iff.mp hend
  exact ⟨s, hrun, (Prod.mk.inj hend).1, (Prod.mk.inj hend).2⟩

/-- `CMD_SET_MODE` asks for SPECTRAL while the motor is in MANUAL, and gets it. -/
def captureInManual : List Input := manualEntered ++ [.call (.set_mode 1)] ++ writes 4

theorem capture_goes_on_in_manual :
    ¬ ∀ (dsp : Dsp) (inputs : List Input) (s : Chip), runs (step dsp) .init inputs = some s →
      SlotEmpty s := by
  intro hall
  have hend : (runs (step silentDsp) .init captureInManual).map
      (fun s => (s.device_mode, s.g_motor_mode)) = some (.SPECTRAL, .MANUAL) := by
    decide +kernel
  obtain ⟨s, hrun, hend⟩ := Option.map_eq_some_iff.mp hend
  obtain ⟨hmode, hmotor⟩ := Prod.mk.inj hend
  have hslot := hall silentDsp _ s hrun (by rw [hmotor]; exact MotorMode.noConfusion)
  rw [hmode] at hslot
  exact DeviceMode.noConfusion hslot

end motioncore.ra4m1
