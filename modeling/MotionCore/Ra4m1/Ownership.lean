-- The arena belongs to the mode that is active (mode.h). The pumps run in every turn of the main
-- loop and the DAC commands in every mode, and what holds them back is a byte of the arena itself.
-- When that byte does hold them back, only the active module writes to the arena.
import MotionCore.Lib.Pending
import MotionCore.Lib.Runs
import MotionCore.Ra4m1.Chip

open motioncore.machine motioncore.pending

namespace motioncore.ra4m1

variable {dsp : Dsp}

/-! ## What should hold -/

def moduleIsr (dsp : Dsp) (m : DeviceMode) (sample : UInt16) (arena : Arena) : Arena :=
  match m with
  | .WORKBENCH => (WF.isr arena).1
  | .SPECTRAL => (SP.isr arena sample).1
  | .GOERTZEL => GZ.isr dsp arena sample
  | .PID | .SCURVE => arena

/-- What a step keeps: a write to the arena is of the module of the active mode, so is the
periodic interrupt, nothing else changes the arena, and a pump of another mode does nothing. -/
structure KeepsArena (dsp : Dsp) (s : Chip) (i : Input) : Prop where
  writes : ∀ conv, i = .write conv → ∀ s', step dsp s i = some s' → s'.arena = s.arena ∨
    ∃ op rest, s.todo = .arena op :: rest ∧ op.owner = s.device_mode
  isr : ∀ conv, i = .periodicIrq conv → ∀ s', step dsp s i = some s' →
    ∃ sample, s'.arena = moduleIsr dsp s.device_mode sample s.arena
  calls : ∀ c, i = .call c → ∀ s', step dsp s i = some s' → s'.arena = s.arena
  sampling : ∀ conv, i = .sampleIrq conv → ∀ s', step dsp s i = some s' → s'.arena = s.arena
  spectral_pump : i = .call .spectral_pump → s.device_mode ≠ .SPECTRAL →
    ∀ s', step dsp s i = some s' → s'.todo = []
  goertzel_pump : ∀ encoder, i = .call (.goertzel_pump encoder) → s.device_mode ≠ .GOERTZEL →
    ∀ s', step dsp s i = some s' → s'.todo = []

/-! ## When it holds -/

/-- The state byte of a pump is not RUNNING or its ready byte is 0, unless its mode is active. A
DAC command that is not refused comes in WORKBENCH, unless it only would stop a waveform and the
byte of the waveform is 0. -/
def HeldBack (s : Chip) : Input → Prop
  | .call .spectral_pump => SP.due s.arena = true → s.device_mode = .SPECTRAL
  | .call (.goertzel_pump _) => GZ.due s.arena = true → s.device_mode = .GOERTZEL
  | .call (.dac_write value) => value ≤ 4095 → WF.active s.arena = true → s.device_mode = .WORKBENCH
  | .call (.dac_probe ..) => WF.active s.arena = true → s.device_mode = .WORKBENCH
  | .call (.dac_waveform_write waveform amplitude offset frequency _) =>
    validWaveform waveform amplitude offset frequency = true → s.device_mode = .WORKBENCH
  | .call .dac_stop => s.device_mode = .WORKBENCH
  | _ => True

instance (s : Chip) (i : Input) : Decidable (HeldBack s i) := by
  cases i with
  | call c => cases c <;> dsimp only [HeldBack] <;> infer_instance
  | write conv => exact isTrue trivial
  | periodicIrq conv => exact isTrue trivial
  | sampleIrq conv => exact isTrue trivial

/-! ## The writes that are left -/

def Action.onMode : Action → DeviceMode → DeviceMode
  | .setMode m, _ => m
  | _, v => v

/-- The write is of the module whose mode is active. -/
def OfOwner (v : DeviceMode) : Action → Prop
  | .arena op => op.owner = v
  | _ => True

abbrev Owned (v : DeviceMode) (l : List Action) : Prop := Allowed Action.onMode OfOwner v l

/-- The write neither leaves the mode nor touches another module. -/
def Action.staysIn (v : DeviceMode) : Action → Bool
  | .arena op => op.owner = v
  | .setMode _ => false
  | _ => true

variable {v : DeviceMode} {l : List Action}

theorem owned_of_stays (h : ∀ a ∈ l, a.staysIn v = true) : Owned v l := by
  refine allowed_of_forall (I := fun v' => v' = v) ?_ rfl
  rintro a ha v' rfl
  have hstays := h a ha
  cases a with
  | arena op =>
    have howner : op.owner = v' := of_decide_eq_true hstays
    exact ⟨howner, rfl⟩
  | setMode m => exact Bool.noConfusion hstays
  | _ => exact ⟨trivial, rfl⟩

theorem owned_append {w : DeviceMode} {l' : List Action} (h : Owned v l)
    (hend : l.foldl (fun v a => a.onMode v) v = w) (h' : Owned w l') : Owned v (l ++ l') := by
  refine allowed_append.mpr ⟨h, ?_⟩
  rw [hend]
  exact h'

/-! ## The calls -/

/-- The old mode is left by its own module, and the new one is entered by its own. -/
theorem mode_set_owned (cur new : DeviceMode) : Owned cur (mode_set cur new) := by
  cases cur <;> cases new <;>
    simp [mode_set, on_exit, on_enter, Owned, Allowed, OfOwner, Action.onMode, ArenaOp.owner]

theorem mode_set_mode (cur new : DeviceMode) :
    (mode_set cur new).foldl (fun v a => a.onMode v) cur = new := by
  cases cur <;> cases new <;> rfl

theorem hal_adc_read_stays (v : DeviceMode) (ch : UInt8) :
    ∀ a ∈ hal_adc_read ch, a.staysIn v = true := by
  intro a ha
  unfold hal_adc_read at ha
  split at ha
  · simp only [List.mem_cons, List.not_mem_nil, or_false] at ha
    rcases ha with rfl | rfl | rfl <;> rfl
  · exact absurd ha List.not_mem_nil

theorem flatMap_stays (v : DeviceMode) (chs : List UInt8) :
    ∀ a ∈ chs.flatMap hal_adc_read, a.staysIn v = true := by
  intro a ha
  obtain ⟨ch, -, hch⟩ := List.mem_flatMap.mp ha
  exact hal_adc_read_stays v ch a hch

/-- The operations around the set-up of the converter are of the module that captures. -/
theorem started_stays (op op' : ArenaOp) (hop : op.owner = v) (hop' : op'.owner = v) (ch : UInt8) :
    ∀ a ∈ .arena op :: adc_setup ch ++ [.arena op', .periodicStart], a.staysIn v = true := by
  intro a ha
  simp only [List.cons_append, List.mem_cons, List.mem_append, List.not_mem_nil, or_false] at ha
  rcases ha with rfl | ha | rfl | rfl
  · exact decide_eq_true hop
  · exact hal_adc_read_stays v _ a ha
  · exact decide_eq_true hop'
  · rfl

theorem owned_nil (v : DeviceMode) : Owned v [] := trivial

theorem owned_ite {c : Prop} [Decidable c] (h : c → Owned v l) : Owned v (if c then l else []) := by
  split
  · exact h ‹c›
  · exact owned_nil v

variable (s : Chip)

theorem inMode_owned {m : DeviceMode} {op : ArenaOp} (hop : op.owner = m) :
    Owned s.device_mode (inMode s m op) :=
  owned_ite fun hmode => ⟨hop.trans hmode.symm, trivial⟩

theorem stopWaveform_owned {s : Chip}
    (hok : WF.active s.arena = true → s.device_mode = .WORKBENCH) :
    Owned s.device_mode (stopWaveform s) :=
  owned_ite fun hactive => ⟨(hok hactive).symm, trivial, trivial⟩

theorem stop_owned (m : DeviceMode) (op : ArenaOp) (hop : op.owner = m) (s : Chip) :
    Owned s.device_mode (if s.device_mode = m then
      [.periodicStop, .arena op] ++ mode_set m .WORKBENCH else []) := by
  refine owned_ite fun hmode => ?_
  rw [hmode]
  exact ⟨trivial, hop, mode_set_owned m .WORKBENCH⟩

theorem motor_stays (v : DeviceMode) (m m' : MotorMode) :
    ∀ a ∈ motor_on_exit m ++ [.setMotorMode m', .clearFault] ++ motor_on_enter m',
      a.staysIn v = true := by
  cases m <;> cases m' <;>
    simp [motor_on_exit, motor_on_enter, hbridge_coast, hal_adc_scan3_setup, Action.staysIn]

theorem set_motor_mode_owned (m : MotorMode) :
    Owned s.device_mode (control_set_motor_mode s m) := by
  unfold control_set_motor_mode
  split
  · exact owned_nil _
  · rw [List.append_assoc, List.append_assoc, ← List.append_assoc (motor_on_exit _)]
    split
    · exact owned_append (mode_set_owned _ _) (mode_set_mode _ _)
        (owned_of_stays (motor_stays _ _ m))
    · exact owned_of_stays (motor_stays _ _ m)

theorem call_owned {s : Chip} {c : Call} (hok : HeldBack s (.call c)) :
    Owned s.device_mode (c.actions s) := by
  cases c with
  | spectral_pump => exact owned_ite fun hdue => ⟨(hok hdue).symm, trivial⟩
  | goertzel_pump encoder => exact owned_ite fun hdue => ⟨(hok hdue).symm, trivial⟩
  | workbench_analog_poll due =>
    exact owned_ite fun _ => owned_of_stays (flatMap_stays _ g_analog_channels)
  | gpio_config port pin mode => exact owned_ite fun _ => ⟨trivial, trivial⟩
  | gpio_write port pin level => exact owned_ite fun _ => ⟨trivial, trivial⟩
  | dac_write value => exact owned_ite fun hvalue => stopWaveform_owned (hok hvalue)
  | dac_waveform_write waveform amplitude offset frequency duration_ms =>
    exact owned_ite fun hvalid => ⟨trivial, (hok hvalid).symm, trivial, trivial⟩
  | dac_stop => exact ⟨Eq.symm hok, trivial, trivial⟩
  | dac_probe source scale offset => exact stopWaveform_owned hok
  | adc_read channel => exact owned_of_stays (hal_adc_read_stays _ channel)
  | adc_capture channels num_samples delta_time_us =>
    refine owned_ite fun _ => owned_of_stays fun a ha => ?_
    obtain ⟨l, hl, ha⟩ := List.mem_flatten.mp ha
    rw [(List.mem_replicate.mp hl).2] at ha
    exact flatMap_stays _ channels a ha
  | pwm_config port pin freq_hz resolution => exact owned_ite fun _ => ⟨trivial, trivial⟩
  | pwm_set duty => exact owned_ite fun _ => ⟨trivial, trivial⟩
  | pwm_teardown => exact ⟨trivial, trivial⟩
  | analog_start => exact ⟨trivial, trivial⟩
  | analog_stop => exact ⟨trivial, trivial⟩
  | spectral_start fs_code channel target_frames =>
    refine owned_append (mode_set_owned _ _) (mode_set_mode _ _) (owned_ite fun _ => ?_)
    exact owned_of_stays (started_stays (.spInit ..) (.spSet SP.RUNNING) rfl rfl channel)
  | spectral_stop => exact stop_owned .SPECTRAL (.spSet SP.IDLE) rfl s
  | goertzel_config c =>
    exact owned_append (mode_set_owned _ _) (mode_set_mode _ _) ⟨rfl, trivial⟩
  | goertzel_set_orders offset os => exact owned_ite fun _ => inMode_owned s rfl
  | goertzel_start =>
    refine owned_ite fun hstart => ?_
    rw [hstart.1]
    exact owned_of_stays (started_stays .gzStart (.gzSet GZ.RUNNING) rfl rfl _)
  | goertzel_read offset reset => exact owned_ite fun _ => inMode_owned s rfl
  | goertzel_stop => exact stop_owned .GOERTZEL (.gzSet GZ.IDLE) rfl s
  | goertzel_inject_rpm rpm => exact inMode_owned s rfl
  | set_mode mode =>
    unfold Call.actions cmd_set_mode
    dsimp only
    split
    · exact mode_set_owned _ _
    · exact owned_nil _
  | set_dsp_mode mode =>
    unfold Call.actions cmd_set_dsp_mode
    dsimp only
    split
    · exact owned_nil _
    · split
      · exact mode_set_owned _ _
      · exact owned_nil _
  | set_motor_mode mode =>
    unfold Call.actions cmd_set_motor_mode
    dsimp only
    split
    · exact set_motor_mode_owned s .IDLE
    · split
      · exact set_motor_mode_owned s .MANUAL
      · exact owned_nil _
  | motor_drive duty =>
    unfold Call.actions control_motor_drive
    dsimp only
    split
    · exact owned_nil _
    · split
      · exact ⟨trivial, trivial, trivial⟩
      · exact ⟨trivial, trivial⟩
  | motor_config overcurrent_raw counts_per_rev => exact ⟨trivial, trivial⟩
  | other => exact owned_nil _

/-! ## The interrupts and the writes -/

variable (dsp) in
theorem periodic_mode (s : Chip) (conv : Nat → Nat) :
    (mode_periodic_isr dsp s conv).device_mode = s.device_mode ∧
      (mode_periodic_isr dsp s conv).todo = s.todo := by
  unfold mode_periodic_isr
  split
  · exact ⟨rfl, rfl⟩
  · split
    · exact ⟨rfl, rfl⟩
    · exact ⟨rfl, rfl⟩
  · split
    · exact ⟨rfl, rfl⟩
    · exact ⟨rfl, rfl⟩
  · exact ⟨rfl, rfl⟩
  · exact ⟨rfl, rfl⟩

/-- The periodic interrupt is the one of the module whose mode is active. -/
theorem periodic_owned (conv : Nat → Nat) :
    ∃ sample, (mode_periodic_isr dsp s conv).arena = moduleIsr dsp s.device_mode sample s.arena := by
  unfold mode_periodic_isr moduleIsr
  cases hmode : s.device_mode with
  | WORKBENCH => exact ⟨0, rfl⟩
  | SPECTRAL =>
    dsimp only
    split
    · exact ⟨_, rfl⟩
    · rename_i hstate
      refine ⟨0, ?_⟩
      unfold SP.isr
      rw [if_neg hstate]
  | GOERTZEL =>
    dsimp only
    split
    · exact ⟨_, rfl⟩
    · rename_i hstate
      refine ⟨0, ?_⟩
      unfold GZ.isr
      rw [if_neg hstate]
  | PID => exact ⟨0, rfl⟩
  | SCURVE => exact ⟨0, rfl⟩

theorem sample_arena (conv : Nat → Nat) : (control_sample_isr s conv).arena = s.arena ∧
      (control_sample_isr s conv).device_mode = s.device_mode ∧
      (control_sample_isr s conv).todo = s.todo := by
  unfold control_sample_isr
  dsimp only
  split
  · exact ⟨rfl, rfl, rfl⟩
  · exact ⟨rfl, rfl, rfl⟩

theorem run_mode (a : Action) (conv : Nat → Nat) :
    (a.run dsp s conv).device_mode = a.onMode s.device_mode := by
  cases a <;> rfl

theorem run_arena {s : Chip} {a : Action} (ha : ∀ op, a ≠ .arena op) (conv : Nat → Nat) :
    (a.run dsp s conv).arena = s.arena := by
  cases a with
  | arena op => exact absurd rfl (ha op)
  | _ => rfl

theorem next_owned (a : Action) {rest : List Action} (hrest : Owned v rest) :
    Owned v (a.next s ++ rest) := by
  cases a with
  | hbridgeApply duty =>
    unfold Action.next hbridge_apply
    dsimp only
    split
    · exact ⟨trivial, trivial, trivial, trivial, trivial, hrest⟩
    · exact ⟨trivial, trivial, trivial, trivial, trivial, hrest⟩
  | _ => exact hrest

/-! ## Every run -/

/-- What is left of the call in progress is of the modules of the modes that it finds. -/
def TodoOwned (s : Chip) : Prop := Owned s.device_mode s.todo

theorem step_todoOwned {s s' : Chip} (hs : TodoOwned s) {i : Input} (hok : HeldBack s i)
    (hstep : step dsp s i = some s') : TodoOwned s' := by
  cases i with
  | call c =>
    obtain ⟨-, rfl⟩ := step_cases hstep
    exact call_owned hok
  | write conv =>
    unfold TodoOwned at hs
    obtain ⟨a, rest, heq, rfl⟩ := step_cases hstep
    rw [heq] at hs
    obtain ⟨-, hrest⟩ := hs
    unfold TodoOwned
    dsimp only
    rw [run_mode]
    exact next_owned s a hrest
  | periodicIrq conv =>
    obtain ⟨-, rfl⟩ := step_cases hstep
    obtain ⟨hmode, htodo⟩ := periodic_mode dsp s conv
    unfold TodoOwned
    rw [hmode, htodo]
    exact hs
  | sampleIrq conv =>
    obtain ⟨-, rfl⟩ := step_cases hstep
    obtain ⟨-, hmode, htodo⟩ := sample_arena s conv
    unfold TodoOwned
    rw [hmode, htodo]
    exact hs

theorem idle_pump {s s' : Chip} {c : Call} (hnil : c.actions s = [])
    (hstep : step dsp s (.call c) = some s') : s'.todo = [] := by
  obtain ⟨-, rfl⟩ := step_cases hstep
  exact hnil

theorem step_keepsArena {s : Chip} (hs : TodoOwned s) {i : Input} (hok : HeldBack s i) :
    KeepsArena dsp s i := by
  refine ⟨?_, ?_, ?_, ?_, ?_, ?_⟩
  · rintro conv rfl s' hstep
    unfold TodoOwned at hs
    obtain ⟨a, rest, heq, rfl⟩ := step_cases hstep
    rw [heq] at hs
    by_cases ha : ∃ op, a = .arena op
    · obtain ⟨op, rfl⟩ := ha
      exact Or.inr ⟨op, rest, heq, hs.1⟩
    · exact Or.inl (run_arena (fun op hop => ha ⟨op, hop⟩) conv)
  · rintro conv rfl s' hstep
    obtain ⟨-, rfl⟩ := step_cases hstep
    exact periodic_owned s conv
  · rintro c rfl s' hstep
    obtain ⟨-, rfl⟩ := step_cases hstep
    rfl
  · rintro conv rfl s' hstep
    obtain ⟨-, rfl⟩ := step_cases hstep
    exact (sample_arena s conv).1
  · rintro rfl hmode s' hstep
    have hidle : Call.actions s .spectral_pump = [] := if_neg fun hdue => hmode (hok hdue)
    exact idle_pump hidle hstep
  · rintro encoder rfl hmode s' hstep
    have hidle : Call.actions s (.goertzel_pump encoder) = [] :=
      if_neg fun hdue => hmode (hok hdue)
    exact idle_pump hidle hstep

/-- In every run whose pumps and DAC commands are held back outside of their modes, only the
module of the active mode changes the arena, and no pump of another mode does any work. -/
theorem active_mode_owns_the_arena (dsp : Dsp) (inputs : List Input)
    (hok : Meets (step dsp) HeldBack .init inputs) :
    Meets (step dsp) (KeepsArena dsp) .init inputs :=
  meets_of_inv (fun _ _ _ hs hi hstep => step_todoOwned hs hi hstep)
    (fun _ _ hs hi => step_keepsArena hs hi) (owned_nil .WORKBENCH) hok

/-- A waveform, a capture and a bank without a gate, each with its pumps and interrupts. -/
def threeModes : List Input :=
  let turn := [.call .spectral_pump, .call (.goertzel_pump 0)]
  [.call (.dac_waveform_write 0 100 2048 50 0)] ++ writes 3 ++ [.periodicIrq fun _ => 0] ++ turn ++
    [.call .dac_stop] ++ writes 2 ++ [.call (.spectral_start 1 0 1)] ++ writes 10 ++
    [.periodicIrq fun _ => 8000] ++ turn ++ [.call (.goertzel_config ⟨0, 1, 256, 0, 0, 0, 0, 1⟩)] ++
    writes 7 ++ [.call .goertzel_start] ++ writes 6 ++ [.periodicIrq fun _ => 8000] ++ turn

theorem three_modes_own_the_arena :
    ((runs (step silentDsp) .init threeModes).map
      fun s => (s.device_mode, GZ.state s.arena, GZ.sample_count s.arena)) =
        some (.GOERTZEL, GZ.RUNNING, 1) ∧
    Meets (step silentDsp) (KeepsArena silentDsp) .init threeModes :=
  ⟨by decide +kernel, active_mode_owns_the_arena silentDsp threeModes (by decide +kernel)⟩

/-- A bank with a threshold of 100 for the gate, which has 0x42 where the ready byte of the capture
lies, and then the pumps of the main loop. -/
def gatedBank : List Input :=
  [.call (.goertzel_config ⟨0, 1, 256, 0, 1, 0x42C80000, 0, 1⟩)] ++ writes 5 ++
    [.call .goertzel_start] ++ writes 6

theorem spectral_pump_works_on_the_bank :
    ¬ ∀ (dsp : Dsp) (inputs : List Input), Meets (step dsp) (KeepsArena dsp) .init inputs := by
  intro hall
  have hend : (runs (step silentDsp) .init gatedBank).map
      (fun s => (s.device_mode, s.todo, SP.due s.arena)) = some (.GOERTZEL, [], true) := by
    decide +kernel
  obtain ⟨s, hrun, hend⟩ := Option.map_eq_some_iff.mp hend
  simp only [Prod.mk.injEq] at hend
  obtain ⟨hmode, htodo, hdue⟩ := hend
  have hlast := (hall silentDsp (gatedBank ++ [.call .spectral_pump])).append_right hrun
  have hother : s.device_mode ≠ .SPECTRAL := by
    rw [hmode]
    exact DeviceMode.noConfusion
  have hidle := hlast.1.spectral_pump rfl hother _ (if_pos htodo)
  have hworks : Call.actions s .spectral_pump = [.arena .spPump] := if_pos hdue
  exact List.cons_ne_nil _ _ (hworks.symm.trans hidle)

end motioncore.ra4m1
