-- The detectors of the irrigation robot (irrigation_analytics/robot/lib: thresholds.lua,
-- state_machine.lua, modes.lua, kb3_live.lua). The texts of the events are left out.
import Mathlib.Data.List.Sort
import MotionCore.BusSup.Catalog

namespace motioncore.irrigation

open motioncore.bussup (Value orElse)

variable {ν : Type}

/-! ## Numbers -/

/-- The numbers of Lua, with what the robot does with them. -/
structure Num (ν : Type) where
  /-- A literal of the source, in hundredths. -/
  lit : Int → ν
  le : ν → ν → Bool
  lt : ν → ν → Bool
  add : ν → ν → ν
  sub : ν → ν → ν
  mul : ν → ν → ν
  /-- `math.floor`, where the result is an index of a table. -/
  floor : ν → Option Int
  tonumber : Value ν → Option ν
  tostring : Value ν → String
  /-- `%d` of `string.format`. -/
  digits : ν → String

variable (num : Num ν)

def IRR_TRIP_A : ν := num.lit 175
def EQ_WARN_A : ν := num.lit 125
def EQ_TRIP_A : ν := num.lit 175
def MASTER_LOW_A : ν := num.lit 25
def MASTER_HIGH_WARN : ν := num.lit 100
def MEDIAN_WINDOW_N : Nat := 15
def SAMPLE_DEDUP_TS_GAP_S : ν := num.lit 5000

/-- In seconds. -/
def WARMUP_S : Int := 120

/-- `tonumber` of a field that may be missing. -/
def Num.read (v : Option (Value ν)) : Option ν := v.bind num.tonumber

/-- `tonumber(v) or 0`. -/
def Num.readOr0 (v : Option (Value ν)) : ν := (num.read v).getD (num.lit 0)

/-! ## Thresholds -/

/-- The elements over which `ipairs` goes. It raises when there is no table. -/
def items : Value ν → Option (List (Value ν))
  | .array xs => some xs
  | .object _ => some []
  | _ => none

/-- `string.format("%s:%d", sat, bit)`. -/
def pin (sat : String) (bit : Value ν) : Option String :=
  (num.tonumber bit).map fun x => sat ++ ":" ++ num.digits x

def pins (group : Value ν) : Option (List String) := do
  let remote ← group.index "remote"
  let sat := num.tostring (orElse remote (.str "?"))
  let bits ← items (orElse (group.get? "bits") (.array []))
  bits.mapM (pin num sat)

def join : List String → String
  | [] => ""
  | [p] => p
  | p :: rest => p ++ "/" ++ join rest

/-- The key of a bin, or `none` when the setup has another shape. -/
def canonicalize_io_setup (io_setup : Option (Value ν)) : Option String := do
  let groups ← items (orElse io_setup (.array []))
  let all ← groups.mapM (pins num)
  some (join (all.flatten.insertionSort (· ≤ ·)))

/-- The same for a key that was joined in another order. -/
def canonicalize_key (bin_key : String) : String :=
  if bin_key.toList.contains '/' then
    let parts := (bin_key.toList.splitOn '/').filter fun part => part ≠ []
    join ((parts.map String.ofList).insertionSort (· ≤ ·))
  else bin_key

structure Curve (ν : Type) where
  mu : ν
  sd : ν
  i_low_open : ν

def lookup_curve (curves : List (String × Curve ν)) (bin_key : String) : Option (Curve ν) :=
  if bin_key = "" then none else curves.lookup bin_key

def mode3_high_warn (mu : ν) : ν := num.mul (num.lit 150) mu

def mode3_high_red (mu : ν) : ν := num.mul (num.lit 200) mu

def push_window (window : List ν) (value : ν) (max_n : Nat) : List ν :=
  let window := window ++ [value]
  window.drop (window.length - max_n)

def rolling_median (window : List ν) : Option ν :=
  let s := window.insertionSort fun a b => num.le a b
  let n := s.length
  if n = 0 then none
  else if n % 2 = 1 then s[(n - 1) / 2]?
  else do
    let a ← s[n / 2 - 1]?
    let b ← s[n / 2]?
    some (num.mul (num.lit 50) (num.add a b))

/-! ## States -/

inductive State where
  | SUSPENDED_MANUAL | SUSPENDED_CLEAN_FILTER | SUSPENDED_RESISTANCE
  | ACTIVE_RUN | MASTER_IDLE_CHECK | IDLE
deriving DecidableEq, Repr

structure Popup (ν : Type) where
  SCHEDULE_NAME : Option (Value ν)
  STEP : Option (Value ν)
  MASTER_VALVE : Option (Value ν)
  PLC_IRRIGATION_CURRENT : Option (Value ν)
  PLC_EQUIPMENT_CURRENT : Option (Value ν)
  TIME_STAMP : Option (Value ν)
  FILTERED_HUNTER_VALVE : Option (Value ν)

def truthy : Option (Value ν) → Bool
  | some (.bool b) => b
  | some (.str s) => s = "true" ∨ s = "True" ∨ s = "TRUE"
  | _ => false

def classify (popup : Popup ν) (manual_suspend : Bool) : State :=
  if manual_suspend then .SUSPENDED_MANUAL
  else
    match orElse popup.SCHEDULE_NAME (.str "OFFLINE") with
    | .str "CLEAN_FILTER" => .SUSPENDED_CLEAN_FILTER
    | .str "RESISTANCE_CHECK" => .SUSPENDED_RESISTANCE
    | .str "OFFLINE" => if truthy popup.MASTER_VALVE then .MASTER_IDLE_CHECK else .IDLE
    | _ => .ACTIVE_RUN

inductive Edge where
  | KB2_RUN_RESISTANCE_ANALYSIS
  | TO (prev_state : Option State) (cur_state : State)
deriving DecidableEq, Repr

def edges (prev_state : Option State) (cur_state : State) : List Edge :=
  if prev_state = some cur_state then []
  else
    (if prev_state = some .SUSPENDED_RESISTANCE then [.KB2_RUN_RESISTANCE_ANALYSIS] else []) ++
      [.TO prev_state cur_state]

/-! ## Events -/

inductive Kind where
  | MODE_4_PER_VALVE_TRIP | EQ_TRIP | EQ_WARN | MODE_3_HIGH_RED | MODE_1_LOW | MODE_3_HIGH_WARN
  | MASTER_HIGH_TRIP | MASTER_IDLE_LOW | MASTER_IDLE_HIGH_WARN | KB3_PIPE_BREAK_HIGH
  | KB2_RESISTANCE_BAD | KB2_RESISTANCE_MARGINAL | KB2_RESISTANCE_OK
  | KB4_SHORT_LOW | KB4_SHORT_HIGH
deriving DecidableEq, Repr

inductive Level where
  | GREEN | YELLOW | RED
deriving DecidableEq, Repr

/-- What the robot is allowed to post. No event has another action. -/
inductive Action where
  | SKIP_STATION | CLOSE_MASTER_VALVE
deriving DecidableEq, Repr

structure Event where
  kind : Kind
  level : Level
  action : Option Action
  kb4_already_edged : Bool
deriving DecidableEq, Repr

def event (kind : Kind) (level : Level) (action : Option Action) : Event :=
  ⟨kind, level, action, false⟩

/-! ## Modes -/

def eval_mode4_irr (irr_current : ν) : List Event :=
  if num.le (IRR_TRIP_A num) irr_current then
    [event .MODE_4_PER_VALVE_TRIP .RED (some .SKIP_STATION)]
  else []

def eval_eq (eq_current : ν) (prev_eq_current : Option ν) : List Event :=
  if num.le (EQ_TRIP_A num) eq_current then [event .EQ_TRIP .RED (some .CLOSE_MASTER_VALVE)]
  else if num.le (EQ_WARN_A num) eq_current ∧ prev_eq_current.any (num.le (EQ_WARN_A num)) then
    [event .EQ_WARN .YELLOW none]
  else []

def eval_mode3_red_irr (irr_current : ν) (curve : Curve ν) : List Event :=
  if num.lt (mode3_high_red num curve.mu) irr_current then
    [event .MODE_3_HIGH_RED .RED (some .SKIP_STATION)]
  else []

/-- The median of a window that is full, past the warm-up. -/
def settled (in_warmup : Bool) (irr_median : Option ν) (irr_window_n : Nat) : Option ν :=
  if in_warmup then none else irr_median.filter fun _ => MEDIAN_WINDOW_N ≤ irr_window_n

def eval_calibrated_modes (irr_median : Option ν) (irr_window_n : Nat) (curve : Curve ν)
    (in_warmup : Bool) : List Event :=
  match settled in_warmup irr_median irr_window_n with
  | none => []
  | some median =>
    (if num.lt median curve.i_low_open then [event .MODE_1_LOW .YELLOW none] else []) ++
    (if num.lt (mode3_high_warn num curve.mu) median then
      [event .MODE_3_HIGH_WARN .YELLOW none] else [])

def eval_master_idle (irr_current : ν) (irr_median : Option ν) (irr_window_n : Nat)
    (in_warmup : Bool) : List Event :=
  if num.le (IRR_TRIP_A num) irr_current then
    [event .MASTER_HIGH_TRIP .RED (some .CLOSE_MASTER_VALVE)]
  else
    match settled in_warmup irr_median irr_window_n with
    | none => []
    | some median =>
      (if num.lt median (MASTER_LOW_A num) then [event .MASTER_IDLE_LOW .YELLOW none] else []) ++
      (if num.lt (MASTER_HIGH_WARN num) median then
        [event .MASTER_IDLE_HIGH_WARN .YELLOW none] else [])

/-- The curve of the run, unless the run is restricted. -/
structure Armed (ν : Type) where
  curve : Option (Curve ν)
  eto_restriction_seen : Bool
  started_at_ts : Int

structure Ctx (ν : Type) where
  now_ts : Int
  master_idle_armed_ts : Option Int
  irr_median : Option ν
  irr_window_n : Nat

def evaluate (state : State) (popup : Popup ν) (arming : Option (Armed ν))
    (prev_eq : Option ν) (ctx : Ctx ν) : List Event :=
  let irr := num.readOr0 popup.PLC_IRRIGATION_CURRENT
  let eq := num.readOr0 popup.PLC_EQUIPMENT_CURRENT
  match state with
  | .SUSPENDED_MANUAL | .SUSPENDED_CLEAN_FILTER | .SUSPENDED_RESISTANCE => []
  | .IDLE => eval_eq num eq prev_eq
  | .MASTER_IDLE_CHECK =>
    let mi_warmup := ctx.master_idle_armed_ts.any fun armed => ctx.now_ts - armed < WARMUP_S
    eval_eq num eq prev_eq ++ eval_master_idle num irr ctx.irr_median ctx.irr_window_n mi_warmup
  | .ACTIVE_RUN =>
    eval_eq num eq prev_eq ++ eval_mode4_irr num irr ++
      match arming with
      | some ⟨some curve, false, started_at_ts⟩ =>
        let in_warmup := ctx.now_ts - started_at_ts < WARMUP_S
        eval_mode3_red_irr num irr curve ++
          eval_calibrated_modes num ctx.irr_median ctx.irr_window_n curve in_warmup
      | _ => []

/-! ## KB3 -/

inductive Mode where
  | long | short
deriving DecidableEq, Repr

structure Baseline (ν : Type) where
  mode : Option Mode
  kb3_eligible : Bool
  kb3_threshold : Option ν
  ref : Option ν

/-- The samples of a run by step, and whether the detector has fired in it. -/
structure KB3 (ν : Type) where
  by_step : List (Int × ν)
  last_step : Int
  fired : Bool

def KB3_FIRST_EVAL_STEP : Int := 9
def KB3_WINDOW_N : Nat := 5

structure KB3Result (ν : Type) where
  sample : ν
  ref : ν
  threshold : ν
  err : ν
  step : Int
  window_over_n : Nat
  fired : Bool
  suppressed : Bool

/-- How many of the steps from `s` on are over the threshold, up to the first that is missing,
and whether one is. -/
def windowOver (by_step : List (Int × ν)) (ref thresh : ν) (s : Int) : Nat → Nat × Bool
  | 0 => (0, false)
  | k + 1 =>
    match by_step.lookup s with
    | none => (0, true)
    | some v =>
      let (over_n, missing) := windowOver by_step ref thresh (s + 1) k
      (if num.lt thresh (num.sub v ref) then over_n + 1 else over_n, missing)

/-- `KB3Live.update`, with the new state of the detector. It raises when the step is no index
of a table. -/
def kb3_update (baseline : Baseline ν) (kb3 : KB3 ν) (sample step : ν) :
    Option (KB3 ν × Option (KB3Result ν)) :=
  match baseline with
  | ⟨some .long, true, some thresh, some ref⟩ =>
    if num.lt step (num.lit 100) then some (kb3, none)
    else do
      let step ← num.floor step
      let by_step := (step, sample) :: kb3.by_step.filter fun entry => entry.1 ≠ step
      let kb3 := { kb3 with by_step := by_step, last_step := max kb3.last_step step }
      let quiet : KB3Result ν := ⟨sample, ref, thresh, num.sub sample ref, step, 0, false, false⟩
      if step < KB3_FIRST_EVAL_STEP then some (kb3, some quiet)
      else
        let (over_n, missing) :=
          windowOver num by_step ref thresh (step - (KB3_WINDOW_N - 1)) KB3_WINDOW_N
        let result := { quiet with window_over_n := over_n }
        if ¬ missing ∧ over_n ≥ KB3_WINDOW_N then
          if kb3.fired then some (kb3, some { result with suppressed := true })
          else some ({ kb3 with fired := true }, some { result with fired := true })
        else some (kb3, some result)
  | _ => some (kb3, none)

def kb3_event : Event := event .KB3_PIPE_BREAK_HIGH .RED (some .SKIP_STATION)

/-! ## An instance -/

/-- Numbers with two decimals. -/
def hundredths : Num Int where
  lit n := n
  le a b := a ≤ b
  lt a b := a < b
  add a b := a + b
  sub a b := a - b
  mul a b := a * b / 100
  floor x := some (x / 100)
  tonumber
    | .num x => some x
    | .str s => s.toInt?.map (· * 100)
    | _ => none
  tostring
    | .null => "userdata: NULL"
    | .bool b => toString b
    | .num x => toString x
    | .str s => s
    | .array _ | .object _ => "table"
  digits x := toString (x / 100)

end motioncore.irrigation
