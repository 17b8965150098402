-- The slots of the interlock framework (`samd21_interlocks.c`): arming, disarming,
-- the boot decision, the restore after a warm boot, and the tick that evaluates
-- the slots and drives the outputs.
import Mathlib.Data.List.FinRange
import MotionCore.Interlock.HalPin
import MotionCore.Lib.Bytes
import MotionCore.Lib.Runs

open motioncore.bytes

namespace motioncore.interlock

def g_interlock_count : UInt8 := 1

/-- The statuses of the shell that the slots return. -/
inductive ShellStatus where
  | ok
  | badArgs
  | busy
deriving DecidableEq

def slotIx (slot : UInt8) : Option SlotIx :=
  if h : slot.toNat < INTERLOCK_MAX_SLOTS then some ⟨slot.toNat, h⟩ else none

/-! ## The record -/

/-- What `persist_is_valid` asks of one slot. -/
def slotIsValid (p : Persist) (i : SlotIx) : Bool :=
  let s := p.slots i
  decide (s.state ≤ INTERLOCK_SLOT_POISONED) &&
    (s.id == INTERLOCK_ID_NONE || s.id == INTERLOCK_ID_NOOP || s.id == INTERLOCK_ID_DSL) &&
    !(s.state == INTERLOCK_SLOT_ARMED && s.id == INTERLOCK_ID_NONE) &&
    !(s.state == INTERLOCK_SLOT_ARMED && s.id == INTERLOCK_ID_DSL &&
      (p.dsl_len i == 0 || decide (IL_DSL_MAX ≤ p.dsl_len i)))

/-- The checks of `verify_persist_or_panic`. -/
def verifyPersist (p : Persist) : Bool :=
  p.magic == INTERLOCK_MAGIC && p.version == INTERLOCK_PERSIST_VERSION &&
    p.self_size == INTERLOCK_PERSIST_SIZE

/-- The crash record names a slot, or none. -/
def crashIsValid (c : CrashRecord) : Bool :=
  c.last_crashed_slot == INTERLOCK_CRASHED_SLOT_NONE ||
    decide (c.last_crashed_slot.toNat < INTERLOCK_MAX_SLOTS)

def persistIsValid (p : Persist) : Bool :=
  verifyPersist p && (List.finRange INTERLOCK_MAX_SLOTS).all (slotIsValid p) && crashIsValid p.crash

def persistColdInit : Persist where
  magic := INTERLOCK_MAGIC
  version := INTERLOCK_PERSIST_VERSION
  self_size := INTERLOCK_PERSIST_SIZE
  slots := fun _ => .empty
  crash := .none
  inst := fun _ => .zero
  dsl_len := fun _ => 0
  dsl_text := fun _ => []

/-- One more warm boot of an armed slot. After too many, the slot is poisoned. -/
def bootAttempt (s : SlotPersist) : SlotPersist :=
  if s.state = INTERLOCK_SLOT_ARMED then
    if INTERLOCK_MAX_BOOT_ATTEMPTS ≤ s.boot_counter then { s with state := INTERLOCK_SLOT_POISONED }
    else { s with boot_counter := s.boot_counter + 1 }
  else s

def interlockBootDecide (p : Persist) : Persist :=
  if persistIsValid p then { p with slots := fun i => bootAttempt (p.slots i) }
  else persistColdInit

/-- The framework after a reset: the record survives, and is decided on. -/
def Interlocks.boot (p : Persist) : Interlocks where
  persist := interlockBootDecide p
  runtime := fun _ => .clear
  pins := .boot
  status := fun _ => .zero

/-! ## Claiming the pins of an interlock -/

/-- `map_input_mode`. An output is no mode of an input. -/
def mapInputMode : IlPinMode → HalPinMode
  | .input => .gpioIn
  | .inputPullUp => .gpioInPullUp
  | .inputPullDown => .gpioInPullDown
  | _ => .unclaimed

def claimInput (slot : SlotIx) (i : IlInput) (p : Pins) : Pins × ClaimStatus :=
  match i.mode with
  | .virtual => (p, .ok)
  | .adc => halPinClaimAdc p i.phys_id slot i.oversample_exp i.sh_cyc
  | mode =>
    if mapInputMode mode = .unclaimed then (p, .badMode)
    else halPinClaim p i.phys_id slot (mapInputMode mode)

def claimOutput (slot : SlotIx) (o : IlOutput) (p : Pins) : Pins × ClaimStatus :=
  halPinClaimOutput p o.phys_id slot o.ok_value o.err_value

def claimEach : List (Pins → Pins × ClaimStatus) → Pins → Pins × ClaimStatus
  | [], p => (p, .ok)
  | claim :: rest, p =>
    match claim p with
    | (p', .ok) => claimEach rest p'
    | failed => failed

/-- The claims of an interlock, the inputs first. -/
def claimsOf (slot : SlotIx) (inst : IlInst) : List (Pins → Pins × ClaimStatus) :=
  inst.inputs.map (claimInput slot) ++ inst.outputs.map (claimOutput slot)

def claimInstPins (p : Pins) (slot : SlotIx) (inst : IlInst) : Pins × ClaimStatus :=
  match claimEach (claimsOf slot inst) p with
  | (p', .ok) => (p', .ok)
  | (p', status) => (halPinReleaseSlot p' slot, status)

/-! ## Slot admin -/

def Interlocks.modPersist (s : Interlocks) (f : Persist → Persist) : Interlocks :=
  { s with persist := f s.persist }

def Persist.setSlot (p : Persist) (k : SlotIx) (sp : SlotPersist) : Persist :=
  { p with slots := Function.update p.slots k sp }

def Persist.setInst (p : Persist) (k : SlotIx) (inst : IlInst) : Persist :=
  { p with inst := Function.update p.inst k inst }

def Persist.setText (p : Persist) (k : SlotIx) (text : List UInt8) : Persist :=
  { p with
    dsl_len := Function.update p.dsl_len k text.length
    dsl_text := Function.update p.dsl_text k text }

def Interlocks.clearRuntime (s : Interlocks) (k : SlotIx) : Interlocks :=
  { s with runtime := Function.update s.runtime k .clear }

/-- `interlock_arm_slot_compiled`. The one compiled interlock claims no pins. -/
def interlockArmSlotCompiled (s : Interlocks) (slot id : UInt8) : Interlocks × ShellStatus :=
  match slotIx slot with
  | none => (s, .badArgs)
  | some k =>
    if id = INTERLOCK_ID_NONE ∨ id = INTERLOCK_ID_DSL ∨ g_interlock_count < id then (s, .badArgs)
    else if (s.persist.slots k).state = INTERLOCK_SLOT_ARMED then (s, .busy)
    else
      ((s.modPersist fun p =>
          (p.setSlot k ⟨INTERLOCK_SLOT_ARMED, id, 0⟩).setInst k .zero).clearRuntime k, .ok)

/-- `interlock_disarm_slot`. The text stays, but has no length any more. -/
def interlockDisarmSlot (s : Interlocks) (slot : UInt8) : Interlocks × ShellStatus :=
  match slotIx slot with
  | none => (s, .badArgs)
  | some k =>
    let s := { s with pins := halPinReleaseSlot s.pins k }
    ((s.modPersist fun p =>
        { (p.setSlot k .empty).setInst k .zero with
          dsl_len := Function.update p.dsl_len k 0 }).clearRuntime k, .ok)

/-- The detail of a refusal: three bytes. -/
abbrev ErrPayload := UInt8 × UInt8 × UInt8

def parseErrPayload (e : ParseStatus × Nat) : ErrPayload :=
  (e.1.code, lo16 (UInt16.ofNat e.2), hi16 (UInt16.ofNat e.2))

/-- A claim that failed: the marker 0xFF, and its status. -/
def claimErrPayload (status : ClaimStatus) : ErrPayload := (0xFF, status.code, 0)

/-- `interlock_set_slot_dsl`: the text is parsed, its pins are claimed, and then the
slot is armed with it. -/
def interlockSetSlotDsl (s : Interlocks) (slot : UInt8) (text : List UInt8) :
    Interlocks × ShellStatus × ErrPayload :=
  match slotIx slot with
  | none => (s, .badArgs, 0, 0, 0)
  | some k =>
    if text.length = 0 ∨ IL_DSL_MAX ≤ text.length then (s, .badArgs, 0, 0, 0)
    else if (s.persist.slots k).state = INTERLOCK_SLOT_ARMED then (s, .busy, 0, 0, 0)
    else
      match ilParse text with
      | .error e => (s, .badArgs, parseErrPayload e)
      | .ok parsed =>
        match claimInstPins s.pins k parsed with
        | (pins, .ok) =>
          (({ s with pins }.modPersist fun p =>
              ((p.setInst k parsed).setText k text).setSlot k
                ⟨INTERLOCK_SLOT_ARMED, INTERLOCK_ID_DSL, 0⟩).clearRuntime k, .ok, 0, 0, 0)
        | (pins, status) => ({ s with pins }, .busy, claimErrPayload status)

def Interlocks.poison (s : Interlocks) (k : SlotIx) : Interlocks :=
  s.modPersist fun p => p.setSlot k { p.slots k with state := INTERLOCK_SLOT_POISONED }

/-- The text of a slot, as the parser gets it. -/
def Persist.text (p : Persist) (k : SlotIx) : List UInt8 := (p.dsl_text k).take (p.dsl_len k)

/-- One slot of `interlock_warm_restore`. -/
def warmRestoreSlot (s : Interlocks) (k : SlotIx) : Interlocks :=
  let sp := s.persist.slots k
  if sp.state ≠ INTERLOCK_SLOT_ARMED then s
  else if sp.id ≠ INTERLOCK_ID_DSL then s.clearRuntime k
  else if s.persist.dsl_len k = 0 ∨ IL_DSL_MAX ≤ s.persist.dsl_len k then s.poison k
  else
    match ilParse (s.persist.text k) with
    | .error _ => s.poison k
    | .ok parsed =>
      match claimInstPins s.pins k parsed with
      | (pins, .ok) =>
        ({ s with pins }.modPersist fun p =>
          p.setInst k { parsed with tf_state := IL_TF_UNEVALUATED }).clearRuntime k
      | (pins, _) => { s with pins }.poison k

def interlockWarmRestore (s : Interlocks) : Interlocks :=
  (List.finRange INTERLOCK_MAX_SLOTS).foldl warmRestoreSlot s

/-! ## The evaluation of a slot -/

/-- The samples of one tick: the pins, the analog channels, and the virtual inputs. -/
structure Samples where
  gpio : UInt8 → Bool
  adc : (channel oversample_exp sh_cyc : UInt8) → UInt16
  virt : UInt8 → UInt16

/-- `hal_pin_read_adc`. A pin that is not claimed for it reads zero. -/
def halPinReadAdc (smp : Samples) (p : Pins) (phys_id : UInt8) : UInt16 :=
  match pinIx phys_id with
  | none => 0
  | some i =>
    let c := p.claims i
    if c.mode ≠ .adcScan ∨ c.adc_channel = 0xFF then 0
    else smp.adc c.adc_channel c.oversample_exp c.sh_cyc

/-- A digital sample goes through the shift register. The output follows when all
its samples agree. -/
def debounce (rt : SlotRuntime) (i : Nat) (depth : UInt8) (raw : Bool) : SlotRuntime × Bool :=
  let mask : UInt16 := ((1 : UInt16) <<< depth.toUInt16) - 1
  let sr := ((rt.shift_reg i <<< 1) ||| (if raw then 1 else 0)) &&& mask
  let out := if sr = mask then true else if sr = 0 then false else rt.debounced i
  ({ rt with
      shift_reg := Function.update rt.shift_reg i sr
      debounced := Function.update rt.debounced i out }, out)

def readInput (smp : Samples) (p : Pins) (rt : SlotRuntime) (i : Nat) (inp : IlInput) :
    SlotRuntime × UInt16 :=
  match inp.mode with
  | .adc => (rt, halPinReadAdc smp p inp.phys_id)
  | .virtual => (rt, smp.virt inp.phys_id)
  | _ =>
    let raw := smp.gpio inp.phys_id
    if 2 ≤ inp.debounce_depth then
      let r := debounce rt i inp.debounce_depth raw
      (r.1, if r.2 then 1 else 0)
    else (rt, if raw then 1 else 0)

/-- The values of the inputs from the index `i` on. -/
def readInputs (smp : Samples) (p : Pins) : SlotRuntime → Nat → List IlInput →
    SlotRuntime × List UInt16
  | rt, _, [] => (rt, [])
  | rt, i, inp :: rest =>
    let r := readInput smp p rt i inp
    let q := readInputs smp p r.1 (i + 1) rest
    (q.1, r.2 :: q.2)

/-- The threshold that counts: a watch that has passed is given the dead band. -/
def effectiveThreshold (op : IlCompareOp) (t hyst : UInt16) (last_pass : Bool) : UInt16 :=
  if hyst ≠ 0 ∧ last_pass then
    match op with
    | .gt | .ge => if hyst < t then t - hyst else 0
    | .lt | .le => if 65535 < t.toNat + hyst.toNat then 65535 else t + hyst
    | _ => t
  else t

def watchPass (op : IlCompareOp) (v t teff : UInt16) : Bool :=
  match op with
  | .eq => v == t
  | .ne => v != t
  | .lt => decide (v < teff)
  | .gt => decide (teff < v)
  | .le => decide (v ≤ teff)
  | .ge => decide (teff ≤ v)

/-- The watches from the index `i` on. All of them are evaluated. -/
def evalWatches (inputs : List IlInput) (vals : List UInt16) : SlotRuntime → Nat → List IlWatch →
    SlotRuntime × Bool
  | rt, _, [] => (rt, true)
  | rt, i, w :: rest =>
    let hyst := (inputs.map (·.hyst)).getD w.input_idx 0
    let pass := watchPass w.op (vals.getD w.input_idx 0) w.threshold
      (effectiveThreshold w.op w.threshold hyst (rt.last_pass i))
    let r := evalWatches inputs vals
      { rt with last_pass := Function.update rt.last_pass i pass } (i + 1) rest
    (r.1, pass && r.2)

def evalSlot (smp : Samples) (s : Interlocks) (k : SlotIx) : Interlocks :=
  let inst := s.persist.inst k
  let r := readInputs smp s.pins (s.runtime k) 0 inst.inputs
  let q := evalWatches inst.inputs r.2 r.1 0 inst.watches
  { s.modPersist fun p =>
      p.setInst k { inst with tf_state := if q.2 then IL_TF_TRUE else IL_TF_FALSE } with
    runtime := Function.update s.runtime k q.1 }

def interlockSetSlotTf (s : Interlocks) (k : SlotIx) (tf : UInt8) : Interlocks :=
  s.modPersist fun p => p.setInst k { p.inst k with tf_state := tf }

/-! ## The tick -/

/-- The first phase, for one slot. The compiled interlock always votes for the good
values. -/
def tickSlot (smp : Samples) (s : Interlocks) (k : SlotIx) : Interlocks :=
  let sp := s.persist.slots k
  if sp.state ≠ INTERLOCK_SLOT_ARMED then s
  else if sp.id = INTERLOCK_ID_DSL then evalSlot smp s k
  else if sp.id ≠ INTERLOCK_ID_NONE ∧ sp.id ≤ g_interlock_count then
    interlockSetSlotTf s k IL_TF_TRUE
  else s

/-- The slots that vote for the error values. -/
def vetoMask (p : Persist) (k : SlotIx) : Bool :=
  (p.slots k).state == INTERLOCK_SLOT_ARMED && (p.inst k).tf_state == IL_TF_FALSE

/-- The third phase: the slots of the status buffer. -/
def statusSlot (p : Persist) (k : SlotIx) : StatusSlot where
  state := (p.slots k).state
  id := (p.slots k).id
  tf := if (p.slots k).state = INTERLOCK_SLOT_ARMED then (p.inst k).tf_state else IL_TF_UNEVALUATED
  bc := (p.slots k).boot_counter
  veto_mask := vetoMask p k

/-- The third phase of the tick. -/
def Interlocks.report (s : Interlocks) : Interlocks := { s with status := statusSlot s.persist }

def interlockTickAll (smp : Samples) (s : Interlocks) : Interlocks :=
  let s := (List.finRange INTERLOCK_MAX_SLOTS).foldl (tickSlot smp) s
  { s with pins := halPinDriveOutputs s.pins (vetoMask s.persist) }.report

/-! ## The reports -/

def interlockSummaryFlags (status : SlotIx → StatusSlot) : UInt8 :=
  if (List.finRange INTERLOCK_MAX_SLOTS).any fun k =>
      (status k).state == INTERLOCK_SLOT_ARMED && (status k).tf == IL_TF_FALSE
  then 1 else 0

/-- The name in a report: sixteen bytes, with zeros behind it. -/
def paddedName (name : List UInt8) : List UInt8 :=
  name ++ List.replicate (IL_NAME_MAX - name.length) 0

/-- The entry of one slot in `interlock_build_status_v2`. It does not look at the state. -/
def statusEntry (p : Persist) (k : SlotIx) : List UInt8 :=
  let sp := p.slots k
  let tf := if sp.id = INTERLOCK_ID_DSL then (p.inst k).tf_state else 0
  let name :=
    if sp.id = INTERLOCK_ID_DSL then (p.inst k).name
    else if sp.id = INTERLOCK_ID_NOOP then ascii ['n', 'o', 'o', 'p']
    else []
  [sp.state, sp.id, sp.boot_counter, tf] ++ paddedName name

/-- `interlock_build_status_v2`: the slots, and the last crash. -/
def interlockBuildStatusV2 (p : Persist) : List UInt8 :=
  [2, UInt8.ofNat INTERLOCK_MAX_SLOTS] ++
    (List.finRange INTERLOCK_MAX_SLOTS).flatMap (statusEntry p) ++
    (bytes32 p.crash.last_pc ++ bytes32 p.crash.last_lr ++ bytes32 p.crash.last_rstsr) ++
    [p.crash.last_crashed_slot]

/-! ## The framework as a machine -/

/-- Why the chip was reset: by its watchdog, by a fault, or by `panic`. -/
inductive ResetCause where
  | watchdog
  | hardFault (pc lr rstsr : UInt32)
  | panic (code : UInt8) (arg sp pc rstsr : UInt32)

/-- `g_active_interlock_slot`. -/
def activeSlot : Option SlotIx → UInt8
  | none => INTERLOCK_CRASHED_SLOT_NONE
  | some k => UInt8.ofNat k.val

/-- The crash record that a reset leaves, while the slot `active` was executing. -/
def crashRecord (active : Option SlotIx) (c : CrashRecord) : ResetCause → CrashRecord
  | .watchdog => c
  | .hardFault pc lr rstsr =>
    { c with
      last_pc := pc
      last_lr := lr
      last_rstsr := rstsr
      last_crashed_slot := activeSlot active
      panic_code := 0 }
  | .panic code arg sp pc rstsr =>
    { last_pc := pc
      last_lr := 0
      last_rstsr := rstsr
      last_crashed_slot := activeSlot active
      panic_code := code
      panic_arg := arg
      panic_sp := sp }

/-- The start of the firmware: the boot decision, and the restore of what survived. -/
def startUp (p : Persist) : Interlocks := interlockWarmRestore (.boot p)

inductive IlOp where
  | arm (slot id : UInt8)
  | setSlotDsl (slot : UInt8) (text : List UInt8)
  | disarm (slot : UInt8)
  | warmRestore
  | tick (smp : Samples)
  | warmBoot (cause : ResetCause) (active : Option SlotIx)

def ilApply (s : Interlocks) : IlOp → Interlocks
  | .arm slot id => (interlockArmSlotCompiled s slot id).1
  | .setSlotDsl slot text => (interlockSetSlotDsl s slot text).1
  | .disarm slot => (interlockDisarmSlot s slot).1
  | .warmRestore => interlockWarmRestore s
  | .tick smp => interlockTickAll smp s
  | .warmBoot cause active =>
    startUp { s.persist with crash := crashRecord active s.persist.crash cause }

/-- One operation. Each one first checks the head of the record, and panics when it
is not right (`verify_persist_or_panic`). -/
def interlockStep (s : Interlocks) (op : IlOp) : Option Interlocks :=
  if verifyPersist s.persist then some (ilApply s op) else none

end motioncore.interlock
