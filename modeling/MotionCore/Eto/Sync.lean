-- The daily sync of the ETo accumulators (farm_soil/chains/eto_sync_user_functions.lua), the
-- ticks that record the days of CIMIS (cimis_user_functions.lua), and the marker files
-- (robot_common/lib/daily_marker.lua). The clock, the web services and the disk are the
-- environment. What a tick did before it raises stays done.
import Mathlib.Data.List.Sort
import Mathlib.Data.String.Basic
import MotionCore.Lib.Raising

namespace motioncore.eto

open motioncore.raising

variable {α : Type}

/-! ## Numbers -/

/-- A number of Lua. Nothing compares to NaN. -/
inductive Double (α : Type) where
  | nan
  | num (x : α)
deriving DecidableEq, Repr

def Double.lt [LinearOrder α] : Double α → Double α → Bool
  | .num x, .num y => x < y
  | _, _ => false

structure Num (α : Type) where
  /-- A literal of the source, in hundredths. -/
  lit : Int → α
  sub : Double α → Double α → Double α
  /-- Neither infinity. -/
  finite : α → Bool
  /-- `math.abs(a - b) > 1e-9`. -/
  differs : Double α → Double α → Bool

variable (num : Num α)

/-- JSON has the number. -/
def Num.encodes (num : Num α) : Double α → Bool
  | .nan => false
  | .num x => num.finite x

/-! ## State -/

/-- A row that the decoder gets from a reply of CIMIS. -/
structure Record (α : Type) where
  target_kind : String
  date : String
  item : String
  value : Option (Double α)
  qc : Option String
deriving DecidableEq, Repr

inductive SourceId where
  | station | spatial
deriving DecidableEq, Repr

structure Source (α : Type) where
  last_recorded_date : Option String
  last_record : Option (Record α)

/-- The state of the sync, `_eto_sync_state`. -/
structure Sync where
  loaded : Bool
  success_date : Option String
  failure_reported_date : Option String

inductive Bound where
  | floor | cap
deriving DecidableEq, Repr

structure Summary (α : Type) where
  date : String
  no_op : Bool
  delta : Double α
  rows_total : Nat
  rows_modified : Nat
  rows_capped : Nat
  rows_floored : Nat
  station : Option (Double α)
  spatial : Option (Double α)
  station_date : Option String
  spatial_date : Option String
deriving DecidableEq, Repr

inductive Reason where
  | missing (station spatial : Bool)
  | host | creds | fetch | not_table | hmset
deriving DecidableEq, Repr

/-- A write that the controller applied. -/
structure Adjustment (α : Type) where
  today : String
  station : Record α
  spatial : Record α
  new_table : List (String × Double α)
deriving DecidableEq, Repr

inductive Note (α : Type) where
  | recorded (id : SourceId) (date : String)
  | adjusted (adj : Adjustment α)
  | published (summary : Summary α)
  | failure (today : String) (reason : Reason)
deriving DecidableEq, Repr

structure Robot (α : Type) where
  running : Bool
  station : Source α
  spatial : Source α
  sync : Sync
  /-- The dates in the marker files. -/
  success_marker : Option String
  failure_marker : Option String
  log : List (Note α)

def Robot.init (success_marker failure_marker : Option String) : Robot α where
  running := true
  station := ⟨none, none⟩
  spatial := ⟨none, none⟩
  sync := ⟨false, none, none⟩
  success_marker := success_marker
  failure_marker := failure_marker
  log := []

/-- The process starts again. Only the files are left. -/
def boot (s : Robot α) : Robot α :=
  { Robot.init s.success_marker s.failure_marker with log := s.log }

def note (e : Note α) : Prog (Robot α) Unit := modify fun s => { s with log := s.log ++ [e] }

/-! ## The environment -/

structure Config (α : Type) where
  window_start_h : Nat
  target_kind : SourceId → String
  hour_pacific : Option Nat
  failure_hour_pacific : Option Nat
  cap : Option α
  floor : Option α
  host : Option String

inductive CimisFetch (α : Type) where
  | failed
  /-- A date that is no string cannot be compared. -/
  | raised
  | records (rs : List (Record α))

/-- What a tick of CIMIS meets. It reads the clock three times. -/
structure CimisTick (α : Type) where
  yesterday : String
  hour : Nat
  today : String
  app_key : Bool
  fetch : CimisFetch α

/-- How a marker file is written: not opened, opened but left empty, or written. -/
inductive Mark where
  | unopened | torn | stored

inductive Fetched (α : Type) where
  | failed
  | not_table
  /-- The rows, with those that are no numbers. -/
  | rows (current : List (String × Option (Double α)))

/-- How the write goes. -/
structure Put where
  /-- The keys can be encoded. -/
  encodes : Bool
  applied : Bool
  /-- A reply that says success, and whether it can be encoded again. -/
  reply : Option Bool

structure Tick (α : Type) where
  hour : Nat
  today : String
  creds : Bool
  current : Fetched α
  put : Put
  /-- The process is stopped behind the write. -/
  stopped : Bool
  notifies : Bool
  success_mark : Mark
  failure_mark : Mark

/-! ## Markers -/

/-- `daily_marker.write`. A file that is empty has no date. -/
def Mark.write (date : String) (file : Option String) : Mark → Option String
  | .unopened => file
  | .torn => none
  | .stored => some date

def hydrate (s : Robot α) : Robot α :=
  if s.sync.loaded then s
  else { s with sync := ⟨true, s.success_marker, s.failure_marker⟩ }

/-! ## CIMIS -/

def MEASUREMENT : String := "DayAsceEto"

def source (id : SourceId) (s : Robot α) : Source α :=
  match id with
  | .station => s.station
  | .spatial => s.spatial

def set_source (id : SourceId) (src : Source α) (s : Robot α) : Robot α :=
  match id with
  | .station => { s with station := src }
  | .spatial => { s with spatial := src }

/-- The days that are new and final, in order. -/
def pending (target_kind last_recorded today_iso : String) (records : List (Record α)) :
    List (Record α) :=
  (records.filter fun r =>
    r.target_kind = target_kind ∧ r.item = MEASUREMENT ∧ last_recorded < r.date ∧
      r.date < today_iso ∧ r.value.isSome ∧ r.qc ≠ some "A").insertionSort
    fun a b => a.date ≤ b.date

/-- A day is recorded before it is published, where a value that JSON does not have raises. -/
def record_days (id : SourceId) : List (Record α) → Prog (Robot α) Unit
  | [] => pure ()
  | r :: rest => do
    modify (set_source id ⟨some r.date, some r⟩)
    if r.value.all num.encodes then do
      note (.recorded id r.date)
      record_days id rest
    else throw ()

def cimis_tick_impl (cfg : Config α) (id : SourceId) (c : CimisTick α) :
    Prog (Robot α) Unit := do
  let s ← get
  let state := source id s
  if state.last_recorded_date = some c.yesterday then pure ()
  else if c.hour < cfg.window_start_h then pure ()
  else if ¬ c.app_key then pure ()
  else match c.fetch with
    | .failed => pure ()
    | .raised => throw ()
    | .records rs =>
      record_days num id
        (pending (cfg.target_kind id) (state.last_recorded_date.getD "") c.today rs)

/-! ## The new table -/

variable (cfg : Config α)

def hour_p : Nat := cfg.hour_pacific.getD 14

def failure_hour : Nat := cfg.failure_hour_pacific.getD 17

def cap : α := cfg.cap.getD (num.lit 20)

def floor : α := cfg.floor.getD (num.lit 0)

def clamp [LinearOrder α] (v : Double α) (lo hi : α) : Double α × Option Bound :=
  if v.lt (.num lo) then (.num lo, some .floor)
  else if (Double.num hi).lt v then (.num hi, some .cap)
  else (v, none)

/-- A row with its old value, and the new one with the bound that it meets. -/
structure Row (α : Type) where
  key : String
  old : Double α
  new : Double α
  why : Option Bound

def rows [LinearOrder α] (delta : Double α) (current : List (String × Option (Double α))) :
    List (Row α) :=
  current.filterMap fun (k, v) => v.map fun v =>
    let (clamped, why) := clamp (num.sub v delta) (floor num cfg) (cap num cfg)
    ⟨k, v, clamped, why⟩

def new_table (rs : List (Row α)) : List (String × Double α) := rs.map fun r => (r.key, r.new)

/-- `(r_st.value or 0) - (r_sp.value or 0)`. -/
def delta (r_st r_sp : Record α) : Double α :=
  num.sub (r_st.value.getD (.num (num.lit 0))) (r_sp.value.getD (.num (num.lit 0)))

def summarize (today : String) (r_st r_sp : Record α) (rs : List (Row α)) : Summary α where
  date := today
  no_op := rs.isEmpty
  delta := delta num r_st r_sp
  rows_total := rs.length
  rows_modified := rs.countP fun r => num.differs r.new r.old
  rows_capped := rs.countP fun r => r.why = some .cap
  rows_floored := rs.countP fun r => r.why = some .floor
  station := r_st.value
  spatial := r_sp.value
  station_date := if rs.isEmpty then none else some r_st.date
  spatial_date := if rs.isEmpty then none else some r_sp.date

/-! ## The tick -/

/-- A failure is told once a day, when it is late. -/
def maybe_report_failure (t : Tick α) (reason : Reason) : Prog (Robot α) Unit := do
  let s ← get
  if s.sync.failure_reported_date = some t.today then pure ()
  else if t.hour < failure_hour cfg then pure ()
  else if t.notifies then do
    note (.failure t.today reason)
    modify fun s => { s with
      failure_marker := t.failure_mark.write t.today s.failure_marker
      sync := { s.sync with failure_reported_date := some t.today } }
  else pure ()

/-- The numbers of a summary are ones that JSON has. -/
def publishable (r_st r_sp : Record α) : Bool :=
  num.encodes (delta num r_st r_sp) ∧ num.finite (cap num cfg) ∧ num.finite (floor num cfg) ∧
    r_st.value.all num.encodes ∧ r_sp.value.all num.encodes

/-- The summary is published and the day is marked. -/
def succeed (t : Tick α) (r_st r_sp : Record α) (rs : List (Row α)) : Prog (Robot α) Unit :=
  if publishable num cfg r_st r_sp then do
    note (.published (summarize num t.today r_st r_sp rs))
    modify fun s => { s with
      success_marker := t.success_mark.write t.today s.success_marker
      sync := { s.sync with success_date := some t.today } }
  else throw ()

/-- The new table is written. It raises when JSON does not have it. -/
def hmset (t : Tick α) (r_st r_sp : Record α) (rs : List (Row α)) : Prog (Robot α) Unit :=
  if t.put.encodes ∧ rs.all fun r => num.encodes r.new then
    modify fun s => { s with
      log := s.log ++
        if t.put.applied then [.adjusted ⟨t.today, r_st, r_sp, new_table rs⟩] else [] }
  else throw ()

def apply_delta [LinearOrder α] (t : Tick α) (r_st r_sp : Record α)
    (current : List (String × Option (Double α))) : Prog (Robot α) Unit :=
  let rs := rows num cfg (delta num r_st r_sp) current
  if rs.isEmpty then succeed num cfg t r_st r_sp rs
  else do
    hmset num t r_st r_sp rs
    if t.stopped then do
      modify fun s => { s with running := false }
      throw ()
    else match t.put.reply with
      | none => maybe_report_failure cfg t .hmset
      | some false => throw ()
      | some true => succeed num cfg t r_st r_sp rs

def ETO_SYNC_TICK [LinearOrder α] (t : Tick α) : Prog (Robot α) Unit := do
  modify hydrate
  let s ← get
  if s.sync.success_date = some t.today then pure ()
  else if t.hour < hour_p cfg then pure ()
  else match s.station.last_record, s.spatial.last_record with
    | some r_st, some r_sp =>
      if cfg.host.all (· = "") then maybe_report_failure cfg t .host
      else if ¬ t.creds then maybe_report_failure cfg t .creds
      else match t.current with
        | .failed => maybe_report_failure cfg t .fetch
        | .not_table => maybe_report_failure cfg t .not_table
        | .rows current => apply_delta num cfg t r_st r_sp current
    | r_st, r_sp => maybe_report_failure cfg t (.missing r_st.isNone r_sp.isNone)

inductive Input (α : Type) where
  | cimis (id : SourceId) (c : CimisTick α)
  | sync (t : Tick α)
  | restart

/-- The pump contains a tick that raises. A process that is stopped has no ticks. -/
def step [LinearOrder α] (s : Robot α) : Input α → Option (Robot α)
  | .cimis id c => if s.running then some ((cimis_tick_impl num cfg id c).after s) else none
  | .sync t => if s.running then some ((ETO_SYNC_TICK num cfg t).after s) else none
  | .restart => some (boot s)

/-! ## An instance -/

/-- Numbers with two decimals. -/
def hundredths : Num Int where
  lit n := n
  sub
    | .num x, .num y => .num (x - y)
    | _, _ => .nan
  finite _ := true
  differs a b := a ≠ b

def classSpec : Config Int where
  window_start_h := 9
  target_kind
    | .station => "station"
    | .spatial => "spatial"
  hour_pacific := some 14
  failure_hour_pacific := some 17
  cap := some 20
  floor := some 0
  host := some "192.168.1.146"

end motioncore.eto
