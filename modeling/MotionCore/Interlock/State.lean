-- The state of the interlock framework (`samd21_interlocks.h`): the record that
-- survives a reset, the claims of the pins (`samd21_hal_pin.c`) and what the
-- chip forgets in a reset.
import Mathlib.Tactic.Common

namespace motioncore.interlock

/-! ## Constants -/

def INTERLOCK_MAGIC : UInt32 := 0xCD51AC73
abbrev INTERLOCK_MAX_SLOTS : Nat := 2
def INTERLOCK_MAX_BOOT_ATTEMPTS : UInt8 := 3
def INTERLOCK_ID_NONE : UInt8 := 0
def INTERLOCK_ID_NOOP : UInt8 := 1
def INTERLOCK_ID_DSL : UInt8 := 2
def INTERLOCK_CRASHED_SLOT_NONE : UInt8 := 0xFF
def INTERLOCK_PERSIST_VERSION : UInt8 := 5

/-- `sizeof(interlock_persist_t)`. -/
def INTERLOCK_PERSIST_SIZE : UInt16 := 448

def IL_NAME_MAX : Nat := 16
def IL_DSL_MAX : Nat := 128
def IL_MAX_INPUTS : Nat := 4
def IL_MAX_WATCHES : Nat := 4
def IL_MAX_OUTPUTS : Nat := 2

def INTERLOCK_SLOT_EMPTY : UInt8 := 0
def INTERLOCK_SLOT_ARMED : UInt8 := 1
def INTERLOCK_SLOT_POISONED : UInt8 := 2

/-- `il_tf_state_t`: a slot with `IL_TF_FALSE` votes for the error values. -/
def IL_TF_UNEVALUATED : UInt8 := 0
def IL_TF_TRUE : UInt8 := 1
def IL_TF_FALSE : UInt8 := 2

abbrev HAL_PIN_TABLE_SIZE : Nat := 64

abbrev SlotIx := Fin INTERLOCK_MAX_SLOTS

/-! ## An interlock of the text language -/

/-- `il_pin_mode_t`. -/
inductive IlPinMode where
  | input
  | inputPullUp
  | inputPullDown
  | output
  | adc
  | virtual
deriving DecidableEq

/-- `il_compare_op_t`. -/
inductive IlCompareOp where
  | eq
  | ne
  | lt
  | gt
  | le
  | ge
deriving DecidableEq

structure IlInput where
  phys_id : UInt8
  mode : IlPinMode
  oversample_exp : UInt8
  sh_cyc : UInt8
  debounce_depth : UInt8
  hyst : UInt16
deriving DecidableEq

structure IlWatch where
  input_idx : Nat
  op : IlCompareOp
  threshold : UInt16
deriving DecidableEq

structure IlOutput where
  phys_id : UInt8
  ok_value : UInt8
  err_value : UInt8
deriving DecidableEq

/-- `il_inst_t`. A count of the source is the length of a list, and no list
grows past its array. -/
structure IlInst where
  name : List UInt8
  tf_state : UInt8
  inputs : List IlInput
  watches : List IlWatch
  outputs : List IlOutput
  name_lt : name.length < IL_NAME_MAX
  inputs_le : inputs.length ≤ IL_MAX_INPUTS
  watches_le : watches.length ≤ IL_MAX_WATCHES
  outputs_le : outputs.length ≤ IL_MAX_OUTPUTS
deriving DecidableEq

def IlInst.zero : IlInst where
  name := []
  tf_state := IL_TF_UNEVALUATED
  inputs := []
  watches := []
  outputs := []
  name_lt := by decide
  inputs_le := Nat.zero_le _
  watches_le := Nat.zero_le _
  outputs_le := Nat.zero_le _

/-! ## The record that survives a reset -/

/-- `interlock_slot_persist_t`. -/
structure SlotPersist where
  state : UInt8
  id : UInt8
  boot_counter : UInt8
deriving DecidableEq

def SlotPersist.empty : SlotPersist where
  state := INTERLOCK_SLOT_EMPTY
  id := INTERLOCK_ID_NONE
  boot_counter := 0

/-- `interlock_crash_record_t`. -/
structure CrashRecord where
  last_pc : UInt32
  last_lr : UInt32
  last_rstsr : UInt32
  last_crashed_slot : UInt8
  panic_code : UInt8
  panic_arg : UInt32
  panic_sp : UInt32
deriving DecidableEq

def CrashRecord.none : CrashRecord where
  last_pc := 0
  last_lr := 0
  last_rstsr := 0
  last_crashed_slot := INTERLOCK_CRASHED_SLOT_NONE
  panic_code := 0
  panic_arg := 0
  panic_sp := 0

/-- `interlock_persist_t`, in RAM that a reset does not clear. -/
structure Persist where
  magic : UInt32
  version : UInt8
  self_size : UInt16
  slots : SlotIx → SlotPersist
  crash : CrashRecord
  inst : SlotIx → IlInst
  dsl_len : SlotIx → Nat
  dsl_text : SlotIx → List UInt8

/-! ## The pins -/

/-- `hal_pin_mode_t`. -/
inductive HalPinMode where
  | unclaimed
  | gpioIn
  | gpioInPullUp
  | gpioInPullDown
  | gpioOut
  | adcScan
deriving DecidableEq

/-- `hal_pin_claim_record_t`. The mask has one bit for each slot. -/
structure PinClaim where
  slot_mask : SlotIx → Bool
  mode : HalPinMode
  ok_value : UInt8
  err_value : UInt8
  oversample_exp : UInt8
  sh_cyc : UInt8
  adc_channel : UInt8

def PinClaim.none : PinClaim where
  slot_mask := fun _ => false
  mode := .unclaimed
  ok_value := 0
  err_value := 0
  oversample_exp := 0
  sh_cyc := 0
  adc_channel := 0xFF

structure PortPin where
  dir : Bool
  out : Bool
  inen : Bool
  pullen : Bool
  pmuxen : Bool
deriving DecidableEq

def PortPin.reset : PortPin where
  dir := false
  out := false
  inen := false
  pullen := false
  pmuxen := false

/-- The claim table and the registers behind it. -/
structure Pins where
  claims : Fin HAL_PIN_TABLE_SIZE → PinClaim
  port : Fin HAL_PIN_TABLE_SIZE → PortPin

def Pins.boot : Pins where
  claims := fun _ => .none
  port := fun _ => .reset

/-! ## What a reset clears -/

/-- The memory of the debounce filters and of the hysteresis of one slot. -/
structure SlotRuntime where
  shift_reg : Nat → UInt16
  debounced : Nat → Bool
  last_pass : Nat → Bool

/-- `clear_slot_runtime`. -/
def SlotRuntime.clear : SlotRuntime where
  shift_reg := fun _ => 0
  debounced := fun _ => false
  last_pass := fun _ => false

/-- `il_status_slot_t`, without the name. -/
structure StatusSlot where
  state : UInt8
  id : UInt8
  tf : UInt8
  bc : UInt8
  veto_mask : Bool
deriving DecidableEq

def StatusSlot.zero : StatusSlot where
  state := 0
  id := 0
  tf := 0
  bc := 0
  veto_mask := false

structure Interlocks where
  persist : Persist
  runtime : SlotIx → SlotRuntime
  pins : Pins
  /-- The slots of the status buffer, which each tick writes anew. -/
  status : SlotIx → StatusSlot

end motioncore.interlock
