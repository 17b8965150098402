-- The RA4M1 dongle as a machine: the main loop runs the writes of one call after the other, and
-- the two timer interrupts come in between them (mode.c, control.c, ra4m1_hal.c and the handlers
-- of ra4m1_commands.c). An interrupt runs to its end, and a conversion is done when it is started.
-- What is sent back, the encoder, the counters and the outputs of the DAC are left out.
import Mathlib.Data.FinEnum
import MotionCore.Ra4m1.Arena

namespace motioncore.ra4m1

/-! ## State -/

/-- `device_mode_t`. -/
inductive DeviceMode where
  | WORKBENCH | SPECTRAL | PID | SCURVE | GOERTZEL
deriving DecidableEq, Repr

/-- The modes of `motor_mode_t` that are implemented. -/
inductive MotorMode where
  | IDLE | MANUAL
deriving DecidableEq, Repr

inductive MotorState where
  | IDLE | RUNNING | FAULT
deriving DecidableEq, Repr

inductive Fault where
  | NONE | OVERCURRENT
deriving DecidableEq, Repr

/-- The bits of a `PmnPFS` register that drive a pin. -/
structure Pin where
  podr : Bool
  pdr : Bool
  pcr : Bool
deriving DecidableEq, Repr

/-- Neither driven high nor pulled up. -/
def Pin.low (p : Pin) : Bool := if p.pdr then !p.podr else !p.pcr

abbrev PinId := Nat × Nat

def HB_IN1 : PinId := (2, 6)
def HB_IN2 : PinId := (1, 0)

def PinId.bridge (id : PinId) : Bool := id = HB_IN1 ∨ id = HB_IN2

/-- GPT3, as far as the duty goes: the compare value in use, and the period when it is set up. -/
structure Pwm where
  compare : Nat
  period : Option Nat
deriving DecidableEq, Repr

def Pwm.off (p : Pwm) : Bool := p.period.isNone || p.compare = 0

abbrev Channels := List Nat

/-- The selection of `hal_adc_scan3_setup`. -/
def SCAN3 : Channels := [0, 1, 2]

inductive ArenaOp where
  | wfStop
  | wfInstall (waveform : UInt8) (amplitude offset : UInt16) (isrs : UInt32)
  | spEnter
  | spInit (fs_code channel : UInt8) (target_frames : UInt16)
  | spSet (st : UInt8)
  | spPump
  | gzEnter
  | gzConfig (c : GzConfig)
  | gzOrders (offset : UInt8) (os : List UInt32)
  | gzInject (rpm : UInt32)
  | gzStart
  | gzSet (st : UInt8)
  | gzPump (encoder : UInt32)
  | gzReadReset
deriving DecidableEq

/-- The mode whose module the operation belongs to. -/
def ArenaOp.owner : ArenaOp → DeviceMode
  | .wfStop | .wfInstall .. => .WORKBENCH
  | .spEnter | .spInit .. | .spSet _ | .spPump => .SPECTRAL
  | .gzEnter | .gzConfig _ | .gzOrders .. | .gzInject _ | .gzStart | .gzSet _ | .gzPump _
  | .gzReadReset => .GOERTZEL

/-- A write of the main loop that nothing interrupts. -/
inductive Action where
  | arena (op : ArenaOp)
  /-- `mode_periodic_start` and `mode_periodic_stop`. -/
  | periodicStart
  | periodicStop
  | setMode (m : DeviceMode)
  /-- A pin becomes an analog input. -/
  | pinAnalog (id : PinId)
  | pinConfig (id : PinId) (output pullup : Bool)
  | pinWrite (id : PinId) (level : Bool)
  | pwmConfig (period : Nat)
  | pwmSet (duty12 : Nat)
  | pwmTeardown
  | adcSelect (chs : Channels)
  | adcConvert
  /-- `gpt2_start` and `gpt2_stop`. -/
  | samplingStart
  | samplingStop
  | setMotorMode (m : MotorMode)
  | clearFault
  /-- `hbridge_apply`, which decides by the fault what it writes. -/
  | hbridgeApply (duty : Int)
  | setDuty (duty : Int)
  | setMotorState (st : MotorState)
  | setOvercurrent (raw : Nat)
  | setAnalog (active : Bool)
deriving DecidableEq

structure Chip where
  device_mode : DeviceMode
  arena : Arena
  /-- GPT0 runs, with its interrupt on. -/
  periodic : Bool
  pins : PinId → Pin
  pwm : Pwm
  /-- ADANSA and the result registers. -/
  adansa : Channels
  addr : Nat → Nat
  /-- GPT2 runs, with its interrupt on. -/
  sampling : Bool
  g_motor_mode : MotorMode
  g_motor_state : MotorState
  g_fault : Fault
  g_duty : Int
  g_adc_raw : Nat
  g_oc_thresh : Nat
  g_analog_active : Bool
  /-- What is left of the call that the main loop is in, and whether it is a motor command. -/
  todo : List Action
  motor_call : Bool

/-- After `mode_init` and `control_init`. -/
def Chip.init : Chip where
  device_mode := .WORKBENCH
  arena := .zero
  periodic := false
  pins := fun id => { podr := false, pdr := id.bridge, pcr := false }
  pwm := { compare := 0, period := none }
  adansa := []
  addr := fun _ => 0
  sampling := false
  g_motor_mode := .IDLE
  g_motor_state := .IDLE
  g_fault := .NONE
  g_duty := 0
  g_adc_raw := 0
  g_oc_thresh := 0
  g_analog_active := false
  todo := []
  motor_call := false

/-! ## The writes -/

variable (dsp : Dsp)

/-- The new arena, and whether the timer is stopped. -/
def ArenaOp.run (op : ArenaOp) (m : Arena) : Arena × Bool :=
  match op with
  | .wfStop => (WF.stop m, false)
  | .wfInstall waveform amplitude offset isrs => (WF.install waveform amplitude offset isrs m, false)
  | .spEnter => (.zero, false)
  | .spInit fs_code channel target_frames => (SP.init dsp fs_code channel target_frames m, false)
  | .spSet st => (SP.setState st m, false)
  | .spPump => SP.pump dsp m
  | .gzEnter => (GZ.enter m, false)
  | .gzConfig c => (GZ.config c m, false)
  | .gzOrders offset os => (GZ.set_orders offset os m, false)
  | .gzInject rpm => (GZ.inject_rpm rpm m, false)
  | .gzStart => (GZ.start m, false)
  | .gzSet st => (GZ.setState st m, false)
  | .gzPump encoder => (GZ.pump dsp encoder m, false)
  | .gzReadReset => (GZ.readReset m, false)

def setPin (s : Chip) (id : PinId) (p : Pin) : Chip :=
  { s with pins := Function.update s.pins id p }

/-- `hal_pwm_set`. -/
def Pwm.set (p : Pwm) (duty12 : Nat) : Pwm :=
  match p.period with
  | some period => { p with compare := min duty12 4095 * period / 4096 }
  | none => p

/-- The converter converts the selected channels. `conv` is what is at the pins. -/
def convert (s : Chip) (conv : Nat → Nat) : Chip :=
  { s with addr := fun ch => if ch ∈ s.adansa then conv ch % 2 ^ 14 else s.addr ch }

def hbridge_coast : List Action := [.pinWrite HB_IN1 false, .pinWrite HB_IN2 false, .pwmSet 0]

/-- What `hbridge_apply` goes on with. -/
def hbridge_apply (fault : Fault) (duty : Int) : List Action :=
  if fault ≠ .NONE then hbridge_coast ++ [.setDuty 0, .setMotorState .FAULT]
  else
    let mag := min duty.natAbs 4095
    [.pinWrite HB_IN1 (decide (0 < duty)), .pinWrite HB_IN2 (decide (duty < 0)), .pwmSet mag,
      .setDuty duty, .setMotorState (if 0 < mag then .RUNNING else .IDLE)]

/-- What a write does to the chip, but for the list of the writes. -/
def Action.run (s : Chip) (conv : Nat → Nat) : Action → Chip
  | .arena op =>
    let (m, stops) := op.run dsp s.arena
    { s with arena := m, periodic := s.periodic && !stops }
  | .periodicStart => { s with periodic := true }
  | .periodicStop => { s with periodic := false }
  | .setMode m => { s with device_mode := m }
  | .pinAnalog id => setPin s id ⟨false, false, false⟩
  | .pinConfig id output pullup => setPin s id ⟨false, output, !output && pullup⟩
  | .pinWrite id level => setPin s id { s.pins id with podr := level }
  | .pwmConfig period => { s with pwm := ⟨0, some period⟩ }
  | .pwmSet duty12 => { s with pwm := s.pwm.set duty12 }
  | .pwmTeardown => { s with pwm := { s.pwm with period := none } }
  | .adcSelect chs => { s with adansa := chs }
  | .adcConvert => convert s conv
  | .samplingStart => { s with sampling := true }
  | .samplingStop => { s with sampling := false }
  | .setMotorMode m => { s with g_motor_mode := m }
  | .clearFault => { s with g_fault := .NONE }
  | .hbridgeApply _ => s
  | .setDuty duty => { s with g_duty := duty }
  | .setMotorState st => { s with g_motor_state := st }
  | .setOvercurrent raw => { s with g_oc_thresh := raw }
  | .setAnalog active => { s with g_analog_active := active }

/-- What a write puts in front of the writes that are left. -/
def Action.next (s : Chip) : Action → List Action
  | .hbridgeApply duty => hbridge_apply s.g_fault duty
  | _ => []

/-! ## The modes -/

def on_exit : DeviceMode → List Action
  | .SPECTRAL => [.periodicStop, .arena (.spSet SP.IDLE)]
  | .GOERTZEL => [.periodicStop, .arena (.gzSet GZ.IDLE)]
  | _ => []

def on_enter : DeviceMode → List Action
  | .SPECTRAL => [.arena .spEnter]
  | .GOERTZEL => [.arena .gzEnter]
  | _ => []

/-- `mode_set`, for a mode that it takes. -/
def mode_set (cur new : DeviceMode) : List Action :=
  if new = cur then []
  else .periodicStop :: on_exit cur ++ [.periodicStop, .setMode new] ++ on_enter new

/-- The modes that `mode_set` takes: up to the highest one that is implemented. -/
def DeviceMode.ofByte (b : UInt8) : Option DeviceMode :=
  [.WORKBENCH, .SPECTRAL, .PID, .SCURVE, .GOERTZEL][b.toNat]?

/-! ## The converter -/

/-- `g_adc_pins`. -/
def adc_lookup (ch : UInt8) : Option PinId :=
  [(0, (0, 0)), (1, (0, 1)), (2, (0, 2)), (9, (0, 14)), (22, (1, 0))].lookup ch

def hal_adc_read (ch : UInt8) : List Action :=
  match adc_lookup ch with
  | some id => [.pinAnalog id, .adcSelect [ch.toNat], .adcConvert]
  | none => []

def hal_adc_scan3_setup : List Action :=
  [.pinAnalog (0, 0), .pinAnalog (0, 1), .pinAnalog (0, 2), .adcSelect SCAN3]

/-- The channels of `SPECTRAL_PINS` and `GOERTZEL_PINS`. -/
def dspChannel (ch : UInt8) : UInt8 := [0, 1, 2, 22].getD ch.toNat 0

/-- `spectral_adc_setup` and `goertzel_adc_setup`, with the first conversion. -/
def adc_setup (ch : UInt8) : List Action := hal_adc_read (dspChannel ch)

/-! ## The motor slot -/

def motor_on_exit : MotorMode → List Action
  | .IDLE => []
  | .MANUAL => .samplingStop :: hbridge_coast

def motor_on_enter : MotorMode → List Action
  | .IDLE => .samplingStop :: hbridge_coast ++ [.setDuty 0, .setMotorState .IDLE]
  | .MANUAL =>
    [.clearFault, .pwmConfig 2400, .pwmSet 0, .pinConfig HB_IN1 true false,
      .pinConfig HB_IN2 true false] ++ hbridge_coast ++ [.setDuty 0] ++ hal_adc_scan3_setup ++
      [.samplingStart, .setMotorState .IDLE]

def control_set_motor_mode (s : Chip) (m : MotorMode) : List Action :=
  if m = s.g_motor_mode then []
  else
    (if m ≠ .IDLE then mode_set s.device_mode .WORKBENCH else []) ++
      motor_on_exit s.g_motor_mode ++ [.setMotorMode m, .clearFault] ++ motor_on_enter m

def control_motor_drive (s : Chip) (duty : Int) : List Action :=
  if s.g_motor_mode ≠ .MANUAL then []
  else (if duty = 0 then [.clearFault] else []) ++ [.hbridgeApply duty]

/-! ## The calls of the main loop -/

/-- The pumps of the main loop, and the shell commands with the arguments that they read. -/
inductive Call where
  | spectral_pump
  | goertzel_pump (encoder : UInt32)
  /-- `due` says that the last sample is a millisecond old. -/
  | workbench_analog_poll (due : Bool)
  | gpio_config (port pin mode : UInt8)
  | gpio_write (port pin level : UInt8)
  | dac_write (value : UInt16)
  | dac_waveform_write (waveform : UInt8) (amplitude offset : UInt16)
      (frequency duration_ms : UInt32)
  | dac_stop
  | dac_probe (source : UInt8) (scale offset : UInt16)
  | adc_read (channel : UInt8)
  | adc_capture (channels : List UInt8) (num_samples : UInt16) (delta_time_us : UInt32)
  | pwm_config (port pin : UInt8) (freq_hz : UInt32) (resolution : UInt8)
  | pwm_set (duty : UInt16)
  | pwm_teardown
  | analog_start
  | analog_stop
  | spectral_start (fs_code channel : UInt8) (target_frames : UInt16)
  | spectral_stop
  | goertzel_config (c : GzConfig)
  | goertzel_set_orders (offset : UInt8) (os : List UInt32)
  | goertzel_start
  | goertzel_read (offset : UInt16) (reset : UInt8)
  | goertzel_stop
  | goertzel_inject_rpm (rpm : UInt32)
  | set_mode (mode : UInt8)
  | set_dsp_mode (mode : UInt8)
  | set_motor_mode (mode : UInt8)
  | motor_drive (duty : Int)
  | motor_config (overcurrent_raw : UInt16) (counts_per_rev : UInt32)
  /-- The commands that only read, those of the encoder and the counters, and arguments that
  cannot be read. -/
  | other
deriving DecidableEq

def Call.motor : Call → Bool
  | .set_motor_mode _ | .motor_drive _ | .motor_config .. => true
  | _ => false

/-- The channels of `ANALOG_START`. -/
def g_analog_channels : List UInt8 := [0, 1, 2, 22]

def stopWaveform (s : Chip) : List Action :=
  if WF.active s.arena then [.arena .wfStop, .periodicStop] else []

def cmd_gpio_config (port pin mode : UInt8) : List Action :=
  if port ≤ 9 ∧ pin ≤ 15 ∧ mode ≤ 2 then
    [.pinConfig (port.toNat, pin.toNat) (mode = 1) (mode = 2)]
  else []

def cmd_gpio_write (port pin level : UInt8) : List Action :=
  if port ≤ 9 ∧ pin ≤ 15 ∧ level ≤ 1 then [.pinWrite (port.toNat, pin.toNat) (level ≠ 0)] else []

def validWaveform (waveform : UInt8) (amplitude offset : UInt16) (frequency : UInt32) : Bool :=
  waveform ≤ 3 ∧ amplitude ≤ 4095 ∧ offset ≤ 4095 ∧ 50 ≤ frequency ∧ frequency ≤ 500

def cmd_dac_waveform_write (waveform : UInt8) (amplitude offset : UInt16)
    (frequency duration_ms : UInt32) : List Action :=
  if validWaveform waveform amplitude offset frequency then
    let isrs := if duration_ms = 0 then 0 else duration_ms * (frequency * 64) / 1000
    [.periodicStop, .arena (.wfInstall waveform amplitude offset isrs), .periodicStart]
  else []

/-- The samples of all channels, one slot after the other. -/
def cmd_adc_capture (channels : List UInt8) (num_samples : UInt16) (delta_time_us : UInt32) :
    List Action :=
  if channels ≠ [] ∧ channels.length ≤ 8 ∧ (∀ ch ∈ channels, (adc_lookup ch).isSome) ∧
      num_samples ≠ 0 ∧ 1000 ≤ delta_time_us ∧ channels.length * num_samples.toNat ≤ 60 then
    (List.replicate num_samples.toNat (channels.flatMap hal_adc_read)).flatten
  else []

def cmd_pwm_config (port pin : UInt8) (freq_hz : UInt32) (resolution : UInt8) : List Action :=
  let period := 48000000 / freq_hz.toNat
  if port = 1 ∧ pin = 11 ∧ resolution ∈ [8, 10, 11, 12, 16] ∧ freq_hz ≠ 0 ∧ 2 ≤ period ∧
      period ≤ 65536 then [.pwmConfig period]
  else []

def cmd_pwm_set (s : Chip) (duty : UInt16) : List Action :=
  if s.pwm.period.isSome ∧ duty ≤ 4095 then [.pwmSet duty.toNat] else []

def cmd_spectral_start (s : Chip) (fs_code channel : UInt8) (target_frames : UInt16) :
    List Action :=
  mode_set s.device_mode .SPECTRAL ++
    if 1 ≤ fs_code ∧ fs_code ≤ 10 ∧ channel ≤ 3 ∧ target_frames ≠ 0 ∧ target_frames ≤ 100 then
      .arena (.spInit fs_code channel target_frames) :: adc_setup channel ++
        [.arena (.spSet SP.RUNNING), .periodicStart]
    else []

def cmd_spectral_stop (s : Chip) : List Action :=
  if s.device_mode = .SPECTRAL then
    [.periodicStop, .arena (.spSet SP.IDLE)] ++ mode_set .SPECTRAL .WORKBENCH
  else []

def cmd_goertzel_config (s : Chip) (c : GzConfig) : List Action :=
  mode_set s.device_mode .GOERTZEL ++ [.arena (.gzConfig c)]

def cmd_goertzel_start (s : Chip) : List Action :=
  if s.device_mode = .GOERTZEL ∧ GZ.state s.arena ≠ GZ.RUNNING ∧ GZ.order_count s.arena ≠ 0 ∧
      256 ≤ GZ.block_n s.arena then
    .arena .gzStart :: adc_setup (GZ.channel s.arena) ++
      [.arena (.gzSet GZ.RUNNING), .periodicStart]
  else []

def cmd_goertzel_stop (s : Chip) : List Action :=
  if s.device_mode = .GOERTZEL then
    [.periodicStop, .arena (.gzSet GZ.IDLE)] ++ mode_set .GOERTZEL .WORKBENCH
  else []

/-- The modes of `CMD_SET_DSP_MODE`. -/
def dspMode (mode : UInt8) : Option DeviceMode :=
  [.WORKBENCH, .GOERTZEL, .SPECTRAL, .WORKBENCH][mode.toNat]?

def cmd_set_mode (s : Chip) (mode : UInt8) : List Action :=
  match DeviceMode.ofByte mode with
  | some m => mode_set s.device_mode m
  | none => []

/-- Unlike `cmd_set_mode`, it is refused while a motor mode runs. -/
def cmd_set_dsp_mode (s : Chip) (mode : UInt8) : List Action :=
  if s.g_motor_mode ≠ .IDLE then []
  else match dspMode mode with
    | some m => mode_set s.device_mode m
    | none => []

def cmd_set_motor_mode (s : Chip) (mode : UInt8) : List Action :=
  if mode = 0 then control_set_motor_mode s .IDLE
  else if mode = 1 then control_set_motor_mode s .MANUAL
  else []

/-- An operation of a mode that its commands refuse outside of it. -/
def inMode (s : Chip) (m : DeviceMode) (op : ArenaOp) : List Action :=
  if s.device_mode = m then [.arena op] else []

/-- The writes of a call that is made now. -/
def Call.actions (s : Chip) : Call → List Action
  | .spectral_pump => if SP.due s.arena then [.arena .spPump] else []
  | .goertzel_pump encoder => if GZ.due s.arena then [.arena (.gzPump encoder)] else []
  | .workbench_analog_poll due =>
    if s.g_analog_active ∧ s.g_motor_mode = .IDLE ∧ due then
      g_analog_channels.flatMap hal_adc_read
    else []
  | .gpio_config port pin mode => cmd_gpio_config port pin mode
  | .gpio_write port pin level => cmd_gpio_write port pin level
  | .dac_write value => if value ≤ 4095 then stopWaveform s else []
  | .dac_waveform_write waveform amplitude offset frequency duration_ms =>
    cmd_dac_waveform_write waveform amplitude offset frequency duration_ms
  | .dac_stop => [.arena .wfStop, .periodicStop]
  | .dac_probe .. => stopWaveform s
  | .adc_read channel => hal_adc_read channel
  | .adc_capture channels num_samples delta_time_us =>
    cmd_adc_capture channels num_samples delta_time_us
  | .pwm_config port pin freq_hz resolution => cmd_pwm_config port pin freq_hz resolution
  | .pwm_set duty => cmd_pwm_set s duty
  | .pwm_teardown => [.pwmTeardown]
  | .analog_start => [.setAnalog true]
  | .analog_stop => [.setAnalog false]
  | .spectral_start fs_code channel target_frames =>
    cmd_spectral_start s fs_code channel target_frames
  | .spectral_stop => cmd_spectral_stop s
  | .goertzel_config c => cmd_goertzel_config s c
  | .goertzel_set_orders offset os =>
    if os ≠ [] ∧ os.length ≤ 30 then inMode s .GOERTZEL (.gzOrders offset os) else []
  | .goertzel_start => cmd_goertzel_start s
  | .goertzel_read offset reset =>
    if reset ≠ 0 ∧ offset.toNat < (GZ.order_count s.arena).toNat then
      inMode s .GOERTZEL .gzReadReset
    else []
  | .goertzel_stop => cmd_goertzel_stop s
  | .goertzel_inject_rpm rpm => inMode s .GOERTZEL (.gzInject rpm)
  | .set_mode mode => cmd_set_mode s mode
  | .set_dsp_mode mode => cmd_set_dsp_mode s mode
  | .set_motor_mode mode => cmd_set_motor_mode s mode
  | .motor_drive duty => control_motor_drive s duty
  | .motor_config overcurrent_raw _ => [.setOvercurrent overcurrent_raw.toNat]
  | .other => []

/-! ## The interrupts -/

/-- `mode_periodic_isr_entry`. The sample is the result of the conversion that is done, and the
next one is started. -/
def mode_periodic_isr (s : Chip) (conv : Nat → Nat) : Chip :=
  match s.device_mode with
  | .WORKBENCH =>
    let (m, stops) := WF.isr s.arena
    { s with arena := m, periodic := s.periodic && !stops }
  | .SPECTRAL =>
    if SP.state s.arena = SP.RUNNING then
      let sample := UInt16.ofNat (s.addr (dspChannel (SP.channel s.arena)).toNat)
      let (m, stops) := SP.isr s.arena sample
      convert { s with arena := m, periodic := s.periodic && !stops } conv
    else s
  | .GOERTZEL =>
    if GZ.state s.arena = GZ.RUNNING then
      let sample := UInt16.ofNat (s.addr (dspChannel (GZ.channel s.arena)).toNat)
      convert { s with arena := GZ.isr dsp s.arena sample } conv
    else s
  | .PID => s
  | .SCURVE => s

/-- The scan of A1 is over the threshold. -/
def overcurrent (s : Chip) : Bool := s.g_oc_thresh ≠ 0 ∧ s.g_oc_thresh < s.addr 0

/-- The cutout: `hbridge_coast` and the fault. -/
def cutout (s : Chip) : Chip :=
  let s := setPin s HB_IN1 { s.pins HB_IN1 with podr := false }
  let s := setPin s HB_IN2 { s.pins HB_IN2 with podr := false }
  { s with
    pwm := s.pwm.set 0
    g_fault := .OVERCURRENT
    g_duty := 0
    g_motor_state := .FAULT }

/-- `control_sample_isr`, up to the decimation. -/
def control_sample_isr (s : Chip) (conv : Nat → Nat) : Chip :=
  let s := convert s conv
  let s := { s with g_adc_raw := s.addr 0 }
  if overcurrent s then cutout s else s

/-! ## Runs -/

inductive Input where
  /-- The main loop makes a call, which it has done with when its writes are done. -/
  | call (c : Call)
  | write (conv : Nat → Nat)
  | periodicIrq (conv : Nat → Nat)
  | sampleIrq (conv : Nat → Nat)

def step (s : Chip) : Input → Option Chip
  | .call c =>
    if s.todo = [] then some { s with todo := c.actions s, motor_call := c.motor } else none
  | .write conv =>
    match s.todo with
    | [] => none
    | a :: rest => some { a.run dsp s conv with todo := a.next s ++ rest }
  | .periodicIrq conv => if s.periodic then some (mode_periodic_isr dsp s conv) else none
  | .sampleIrq conv => if s.sampling then some (control_sample_isr s conv) else none

theorem step_cases {dsp : Dsp} {s s' : Chip} {i : Input} (h : step dsp s i = some s') : match i with
    | .call c => s.todo = [] ∧ s' = { s with todo := c.actions s, motor_call := c.motor }
    | .write conv => ∃ a rest, s.todo = a :: rest ∧
        s' = { a.run dsp s conv with todo := a.next s ++ rest }
    | .periodicIrq conv => s.periodic = true ∧ s' = mode_periodic_isr dsp s conv
    | .sampleIrq conv => s.sampling = true ∧ s' = control_sample_isr s conv := by
  cases i with
  | write conv =>
    unfold step at h
    dsimp only at h
    split at h
    · exact absurd h.symm (Option.some_ne_none _)
    · rename_i a rest htodo
      exact ⟨a, rest, htodo, (Option.some.inj h).symm⟩
  | _ =>
    obtain ⟨hcan, heq⟩ := Option.ite_none_right_eq_some.mp h
    exact ⟨hcan, (Option.some.inj heq).symm⟩

/-! ## Inputs for runs -/

/-- Float results that are all zero, and a gate that is shut. -/
def silentDsp : Dsp where
  window _ := 0
  spectrum _ _ := 0
  bins _ _ _ := 0
  block _ _ _ := 0
  opens _ _ := false

/-- The writes of a call with `n` of them, with 0 at all pins. -/
def writes (n : Nat) : List Input := List.replicate n (.write fun _ => 0)

def manualEntered : List Input :=
  .call (.set_motor_mode 1) :: writes 17 ++ [.call (.motor_config 100 0)] ++ writes 1

end motioncore.ra4m1
