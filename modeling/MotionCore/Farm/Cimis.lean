-- The days of CIMIS on the sample leaf: the decoder (farm_soil/lib/cimis_decoder.lua), and the
-- tick of a source with its publishes (farm_soil/chains/cimis_user_functions.lua). The clock, the
-- web service and the broker are the environment. A tick that raises is contained by the pump.
import Mathlib.Data.List.Sort
import Mathlib.Data.String.Basic
import MotionCore.Lib.Raising

namespace motioncore.farm

open motioncore.raising

variable {α : Type}

/-! ## JSON -/

/-- What `cjson.decode` makes of a text. Its numbers may be ones that JSON does not have. -/
inductive Json (α : Type) where
  | null
  | bool (b : Bool)
  | num (x : α)
  | str (s : String)
  | arr (xs : List (Json α))
  | obj (fields : List (String × Json α))

/-- What Lua does with numbers and texts. -/
structure Lua (α : Type) where
  finite : α → Bool
  tonumber : String → Option α
  tostring : Json α → String

/-- The fields of a table. Of two fields with one key the later one stays. -/
def lastFields : List (String × Json α) → List (String × Json α)
  | [] => []
  | (k, v) :: rest => if rest.any (·.1 = k) then lastFields rest else (k, v) :: lastFields rest

namespace Json

/-- `pairs` of a table, for the keys that are strings. -/
def pairs : Json α → List (String × Json α)
  | .obj fields => lastFields fields
  | _ => []

/-- `ipairs` of a table. A null of an array is no nil. -/
def ipairs : Json α → List (Json α)
  | .arr xs => xs
  | _ => []

def isTable : Json α → Bool
  | .arr _ => true
  | .obj _ => true
  | _ => false

def isStr (s : String) : Json α → Bool
  | .str t => t = s
  | _ => false

def field (t : Json α) (k : String) : Option (Json α) :=
  match t.pairs.lookup k with
  | some .null => none
  | v => v

mutual

/-- `cjson.encode` does not raise. -/
def encodes (lua : Lua α) : Json α → Bool
  | .null => true
  | .bool _ => true
  | .num x => lua.finite x
  | .str _ => true
  | .arr xs => encodesAll lua xs
  | .obj fields => encodesFields lua fields

def encodesAll (lua : Lua α) : List (Json α) → Bool
  | [] => true
  | x :: xs => x.encodes lua && encodesAll lua xs

def encodesFields (lua : Lua α) : List (String × Json α) → Bool
  | [] => true
  | x :: xs => x.2.encodes lua && encodesFields lua xs

end

end Json

/-! ## The decoder -/

variable (lua : Lua α)

/-- A row of `parse_response`. -/
structure Row (α : Type) where
  target_kind : String
  target : String
  date : Json α
  item : String
  value : Option α
  unit : Option (Json α)
  qc : Option (Json α)

def to_number : Option (Json α) → Option α
  | some (.num x) => some x
  | some (.str s) => if s = "" then none else lua.tonumber s
  | _ => none

/-- `v and tostring(v) or nil`. -/
def tostringOf : Option (Json α) → Option String
  | none => none
  | some (.bool false) => none
  | some v => some (lua.tostring v)

def target_from_record (rec : Json α) (ptype : String) : Option String :=
  if ptype = "station" then tostringOf lua (rec.field "Station")
  else if ptype = "spatial" then
    let coords := rec.field "Coordinates"
    match coords.bind (Json.field · "Latitude"), coords.bind (Json.field · "Longitude") with
    | some lat, some lng => some (lua.tostring lat ++ "," ++ lua.tostring lng)
    | _, _ =>
      let zips := rec.field "ZipCodes"
      if zips.any (Json.isStr "") then none else tostringOf lua zips
  else none

def isMeasurement (key : String) : Bool :=
  key.toList.take 3 = "Day".toList ∨ key.toList.take 3 = "Hly".toList

/-- The rows of one record. A date that is false counts as absent. -/
def recordRows (ptype : String) (rec : Json α) : List (Row α) :=
  match rec.field "Date", target_from_record lua rec ptype with
  | none, _ => []
  | some (.bool false), _ => []
  | some date, some target =>
    (rec.pairs.filter fun (key, val) => isMeasurement key ∧ val.isTable).map fun (key, val) => {
      target_kind := ptype
      target, date
      item := key
      value := to_number lua (val.field "Value")
      unit := val.field "Unit"
      qc := val.field "Qc" }
  | some _, none => []

/-- The rows of one provider. A type that is no string has no targets. -/
def providerRows (prov : Json α) : List (Row α) :=
  match prov.field "Type", prov.field "Records" with
  | some (.str ptype), some records => records.ipairs.flatMap (recordRows lua ptype)
  | _, _ => []

/-- `parse_response`, from what `cjson.decode` makes of the body, if it can. -/
def parse_response (body : Option (Json α)) : List (Row α) :=
  match (body.bind (Json.field · "Data")).bind (Json.field · "Providers") with
  | some providers => providers.ipairs.flatMap (providerRows lua)
  | none => []

/-! ## State -/

inductive SourceId where
  | station | spatial
deriving DecidableEq, Repr

/-- A row with a date that can be compared, and a value. -/
structure Reading (α : Type) where
  target_kind : String
  target : String
  date : String
  item : String
  value : α
  unit : Option (Json α)
  qc : Option (Json α)

inductive Leaf where
  | sample | latest
deriving DecidableEq, Repr

/-- A message that the broker took, with the date of the tick that published it. -/
structure Publication (α : Type) where
  id : SourceId
  leaf : Leaf
  reading : Reading α
  today : String

structure Source (α : Type) where
  last_recorded_date : Option String
  last_record : Option (Reading α)

/-- `bb._cimis`, and what was published. -/
structure Robot (α : Type) where
  sources : SourceId → Source α
  published : List (Publication α)

def Robot.init : Robot α where
  sources := fun _ => ⟨none, none⟩
  published := []

/-! ## The tick -/

/-- The part of `class_spec.cimis` that decides. -/
structure Config where
  window_start_h : Nat
  target_kind : SourceId → String

/-- The order that `table.sort` gives to the readings. It may swap those of one date. -/
structure TableSort (α : Type) where
  sort : List (Reading α) → List (Reading α)
  perm : ∀ l, (sort l).Perm l
  sorted : ∀ l, (sort l).Pairwise fun a b => a.date ≤ b.date

inductive Fetch (α : Type) where
  | failed
  | body (decoded : Option (Json α))

/-- What a tick meets. `taken` tells which publishes of its days the broker takes. -/
structure Tick (α : Type) where
  yesterday : String
  hour : Nat
  today : String
  app_key : Bool
  fetch : Fetch α
  taken : Leaf → Nat → Bool

def MEASUREMENT : String := "DayAsceEto"

/-- The reading of a row that passes the filter behind the dates. -/
def finalReading (r : Row α) (date : String) : Option (Reading α) :=
  match r.value with
  | some value =>
    if r.qc.any (Json.isStr "A") then none
    else some ⟨r.target_kind, r.target, date, r.item, value, r.unit, r.qc⟩
  | none => none

/-- The filter of the tick. It raises at a date that is no string. -/
def filterRows (target_kind last_recorded today_iso : String) :
    List (Row α) → Option (List (Reading α))
  | [] => some []
  | r :: rest =>
    if r.target_kind = target_kind ∧ r.item = MEASUREMENT then
      match r.date with
      | .str date =>
        let here :=
          if last_recorded < date ∧ date < today_iso then (finalReading r date).toList else []
        (filterRows target_kind last_recorded today_iso rest).map (here ++ ·)
      | _ => none
    else filterRows target_kind last_recorded today_iso rest

def Reading.encodes (r : Reading α) : Bool :=
  lua.finite r.value && r.unit.all (Json.encodes lua) && r.qc.all (Json.encodes lua)

/-- `publish_to`. Only the publish itself is protected. -/
def publish_to (p : Publication α) (taken : Bool) : Prog (Robot α) Unit :=
  if p.reading.encodes lua then
    modify fun s => { s with published := s.published ++ if taken then [p] else [] }
  else throw ()

def record (id : SourceId) (r : Reading α) (s : Robot α) : Robot α :=
  { s with sources := Function.update s.sources id ⟨some r.date, some r⟩ }

/-- The loop over the days, from the `n`-th on. -/
def record_days (id : SourceId) (t : Tick α) : Nat → List (Reading α) → Prog (Robot α) Unit
  | _, [] => pure ()
  | n, r :: rest => do
    modify (record id r)
    publish_to lua ⟨id, .sample, r, t.today⟩ (t.taken .sample n)
    publish_to lua ⟨id, .latest, r, t.today⟩ (t.taken .latest n)
    record_days id t (n + 1) rest

def cimis_tick_impl (cfg : Config) (srt : TableSort α) (id : SourceId) (t : Tick α) :
    Prog (Robot α) Unit := do
  let s ← get
  let state := s.sources id
  if state.last_recorded_date = some t.yesterday then pure ()
  else if t.hour < cfg.window_start_h then pure ()
  else if ¬ t.app_key then pure ()
  else match t.fetch with
    | .failed => pure ()
    | .body decoded =>
      match filterRows (cfg.target_kind id) (state.last_recorded_date.getD "") t.today
          (parse_response lua decoded) with
      | none => throw ()
      | some pending => record_days lua id t 0 (srt.sort pending)

/-- A tick of one of the two sources. -/
structure Input (α : Type) where
  id : SourceId
  tick : Tick α

def step (cfg : Config) (srt : TableSort α) (s : Robot α) (i : Input α) : Option (Robot α) :=
  some ((cimis_tick_impl lua cfg srt i.id i.tick).after s)

end motioncore.farm
