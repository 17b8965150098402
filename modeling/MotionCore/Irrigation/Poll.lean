-- The poll loop of the irrigation robot (irrigation_analytics/robot/main.lua). The controller,
-- the analyzers and the servers that are called are the environment. What a poll did before it
-- raises stays done: the main loop goes on with the next poll.
import MotionCore.Irrigation.Modes
import MotionCore.Lib.Raising

namespace motioncore.irrigation

open motioncore.bussup (Value orElse)
open motioncore.raising

variable {ν : Type}

/-! ## State -/

/-- What a session of alerts keeps. The table is its identity. -/
structure Session (ν : Type) where
  table : Nat
  /-- The kinds whose `cond_state` is "fired". -/
  fired : List Kind
  irr_window : List ν
  last_accepted_ts : Option ν

structure Arming (ν : Type) where
  session : Session ν
  bin_key : String
  curve : Option (Curve ν)
  eto_restriction_seen : Bool
  samples_seen : Nat
  started_at : Nat
  started_at_ts : Int
  kb3 : KB3 ν

structure MasterIdle (ν : Type) where
  session : Session ν
  armed_ts : Int

/-- An entry of the stream of past actions. Its id is `ms * 2^64 + seq`. -/
structure Entry (ν : Type) where
  stream_id : Nat
  data : Option (Value ν)

/-- The stream of past actions, oldest entry first. -/
structure Stream (ν : Type) where
  entries : List (Entry ν)
  sorted : entries.Pairwise fun a b => a.stream_id < b.stream_id

structure Delta (ν : Type) where
  stream_id : Nat
  action : Option (Value ν)
  details : Option (Value ν)

inductive Note where
  /-- The entries of a fetch that was successful, and which of them are STEP_COMPLETE. -/
  | fetched (entries : List (Nat × Bool))
  | uncalibrated (bin_key : String) (curve baseline : Bool)
  /-- KB4 gets the bin of a STEP_COMPLETE. -/
  | analysed (stream_id : Nat) (bin_key : String)
  /-- The modes are evaluated. -/
  | evaluated
  /-- The kinds of which there are events. -/
  | seen (state : State) (kinds : List Kind)
  /-- A POST for an event, with its session, and whether its message was sent and the server
  accepted. -/
  | post (session : Option Nat) (kind : Kind) (action : Action) (sent accepted : Bool)
deriving DecidableEq, Repr

structure Robot (ν : Type) where
  last_stream_id : Option Nat
  /-- The file of the cursor. -/
  saved_stream_id : Option Nat
  prev_state : Option State
  last_sample : Option (ν × ν)
  arming : Option (Arming ν)
  master_idle : Option (MasterIdle ν)
  baselines : Option (List (String × Baseline ν))
  /-- How many session tables were made. -/
  tables : Nat
  log : List Note

def Robot.init (last_stream_id : Option Nat) (baselines : Option (List (String × Baseline ν))) :
    Robot ν where
  last_stream_id := last_stream_id
  saved_stream_id := last_stream_id
  prev_state := none
  last_sample := none
  arming := none
  master_idle := none
  baselines := baselines
  tables := 0
  log := []

/-! ## The environment -/

structure Setup (ν : Type) where
  curves : List (String × Curve ν)
  manual_suspend : Bool

/-- How a call of an analyzer ends. -/
inductive Outcome (α : Type) where
  | raised
  | failed
  | ok (result : α)

structure KB4Result (ν : Type) where
  /-- The new reference of the bin, when its window was updated. -/
  new_ref : Option (Option ν)
  /-- An event, when the flow is newly off, and whether it is too high. -/
  high : Option Bool

structure Poll (ν : Type) where
  popup : Option (Popup ν)
  /-- The stream, when it can be fetched. -/
  stream : Option (Stream ν)
  now : Int
  /-- How many valves the resistance analyzer finds bad and marginal. -/
  kb2 : Outcome (Nat × Nat)
  /-- The history of a bin is fetched and analyzed. -/
  kb4 : Nat → Outcome (KB4Result ν)
  /-- The cycle can be encoded for the log. -/
  writes : Bool
  /-- Discord takes the message of an event. -/
  sends : Nat → Bool
  /-- The controller accepts the command of an event. -/
  posts : Nat → Bool

/-! ## The delta of the stream -/

variable (num : Num ν)

def note (e : Note) : Prog (Robot ν) Unit := modify fun s => { s with log := s.log ++ [e] }

def delta_of (e : Entry ν) : Option (Delta ν) := do
  let data := orElse e.data (.object [])
  let action ← data.index "action"
  let details ← data.index "details"
  some ⟨e.stream_id, action, details⟩

/-- At most 200 entries behind the last one. -/
def xrange (last_id : Option Nat) (stream : Stream ν) : List (Entry ν) :=
  (stream.entries.filter fun e => last_id.all (· < e.stream_id)).take 200

/-- It raises when the data of an entry cannot be indexed. -/
def past_actions_xrange (last_id : Option Nat) (stream : Stream ν) : Option (List (Delta ν)) :=
  (xrange last_id stream).mapM delta_of

def Delta.does (ent : Delta ν) (action : String) : Bool :=
  match ent.action with
  | some (.str a) => a = action
  | _ => false

def fetch (p : Poll ν) : Prog (Robot ν) (List (Delta ν)) :=
  match p.stream with
  | none => pure []
  | some stream => do
    let s ← get
    match past_actions_xrange s.last_stream_id stream with
    | none => throw ()
    | some delta => do
      note (.fetched (delta.map fun ent => (ent.stream_id, ent.does "IRRIGATION_STEP_COMPLETE")))
      pure delta

def Delta.table (ent : Delta ν) : Option (Value ν) :=
  match ent.details with
  | some (.array items) => some (.array items)
  | some (.object fields) => some (.object fields)
  | _ => none

def baseline_of (baselines : Option (List (String × Baseline ν))) (bin_key : String) :
    Option (Baseline ν) :=
  baselines.bind (List.lookup (canonicalize_key bin_key))

/-- A run is armed, with a new session. -/
def arm (setup : Setup ν) (now : Int) (ent : Delta ν) (bin_key : String) (s : Robot ν) :
    Robot ν :=
  let curve := lookup_curve setup.curves bin_key
  let baseline := (baseline_of s.baselines bin_key).isSome
  let log := if curve.isSome ∧ baseline then []
    else [Note.uncalibrated bin_key curve.isSome baseline]
  { s with
    tables := s.tables + 1
    arming := some {
      session := ⟨s.tables, [], [], none⟩
      bin_key := bin_key
      curve := curve
      eto_restriction_seen := false
      samples_seen := 0
      started_at := ent.stream_id
      started_at_ts := now
      kb3 := ⟨[], 0, false⟩ }
    log := s.log ++ log }

/-- The bin that a STEP_COMPLETE names, if it has details. -/
def own_bin (ent : Delta ν) : Option (Option String) :=
  match ent.table with
  | some details => (canonicalize_io_setup num (details.get? "io_setup")).map some
  | none => some none

/-- The bin of a STEP_COMPLETE: its own one, or that of the armed run. -/
def bin_of (arming : Option (Arming ν)) (ent : Delta ν) : Option (Option String) :=
  (own_bin num ent).map fun own =>
    if own = none ∨ own = some "?" then (arming.map Arming.bin_key).or own else own

/-- The work on one entry, with what KB4 is to do. It raises before it changes anything. -/
def entry_effect (setup : Setup ν) (now : Int) (ent : Delta ν) (s : Robot ν) :
    Option (Robot ν × List (Nat × String)) :=
  if ent.does "IRRIGATION_STATION_START" ∧ ent.table.isSome then
    (canonicalize_io_setup num (ent.table.bind (Value.get? "io_setup"))).map fun bin_key =>
      (arm setup now ent bin_key s, [])
  else if ent.does "IRRIGATION_STEP_COMPLETE" then
    (bin_of num s.arming ent).map fun bin_key =>
      ({ s with arming := none },
        (bin_key.toList.filter fun b => b ≠ "?" ∧ s.baselines.isSome).map (ent.stream_id, ·))
  else if ent.does "SKIP_OPERATION" then some ({ s with arming := none }, [])
  else if ent.does "IRRIGATION_ETO_RESTRICTION" then
    let arming := s.arming.map fun a => { a with eto_restriction_seen := true }
    some ({ s with arming := arming }, [])
  else some (s, [])

def entry_step (setup : Setup ν) (now : Int) (ent : Delta ν) (s : Robot ν) :
    Option (Robot ν × List (Nat × String)) :=
  (entry_effect num setup now ent s).map fun (s, pending) =>
    ({ s with last_stream_id := some ent.stream_id }, pending)

def work_entry (setup : Setup ν) (now : Int) (ent : Delta ν) :
    Prog (Robot ν) (List (Nat × String)) := do
  let s ← get
  match entry_step num setup now ent s with
  | none => throw ()
  | some (s', pending) => do
    set s'
    pure pending

/-! ## The analyzers -/

/-- The session of MASTER_IDLE_CHECK. -/
def track_idle (state : State) (now : Int) (s : Robot ν) : Robot ν :=
  if state = .MASTER_IDLE_CHECK then
    if s.prev_state = some .MASTER_IDLE_CHECK then s
    else { s with
      tables := s.tables + 1
      master_idle := some ⟨⟨s.tables, [], [], none⟩, now⟩ }
  else { s with master_idle := none }

def kb2_event (n_bad n_marginal : Nat) : Event :=
  if n_bad > 0 then event .KB2_RESISTANCE_BAD .RED none
  else if n_marginal > 0 then event .KB2_RESISTANCE_MARGINAL .YELLOW none
  else event .KB2_RESISTANCE_OK .GREEN none

def kb2_events (p : Poll ν) (state : State) : Prog (Robot ν) (List Event) := do
  let s ← get
  if .KB2_RUN_RESISTANCE_ANALYSIS ∈ edges s.prev_state state then
    match p.kb2 with
    | .raised => throw ()
    | .failed => pure []
    | .ok (n_bad, n_marginal) => pure [kb2_event n_bad n_marginal]
  else pure []

def kb4_event (high : Bool) : Event :=
  { event (if high then .KB4_SHORT_HIGH else .KB4_SHORT_LOW) .YELLOW none with
    kb4_already_edged := true }

/-- The reference of a bin is replaced. -/
def set_ref (bin_key : String) (ref : Option ν) (s : Robot ν) : Robot ν :=
  let update := fun (entry : String × Baseline ν) =>
    if entry.1 = canonicalize_key bin_key then (entry.1, { entry.2 with ref := ref }) else entry
  { s with baselines := s.baselines.map fun baselines => baselines.map update }

def kb4_events (p : Poll ν) (pending : Nat × String) : Prog (Robot ν) (List Event) := do
  note (.analysed pending.1 pending.2)
  match p.kb4 pending.1 with
  | .raised => throw ()
  | .failed => pure []
  | .ok result => do
    modify fun s => result.new_ref.elim s fun ref => set_ref pending.2 ref s
    pure (result.high.toList.map kb4_event)

/-! ## Samples -/

def session_for (state : State) (s : Robot ν) : Option (Session ν) :=
  match state with
  | .ACTIVE_RUN => s.arming.map Arming.session
  | .MASTER_IDLE_CHECK => s.master_idle.map MasterIdle.session
  | _ => none

def update_session (state : State) (f : Session ν → Session ν) (s : Robot ν) : Robot ν :=
  match state with
  | .ACTIVE_RUN => { s with arming := s.arming.map fun a => { a with session := f a.session } }
  | .MASTER_IDLE_CHECK =>
    { s with master_idle := s.master_idle.map fun m => { m with session := f m.session } }
  | _ => s

/-- A reading goes into the window of a session when the controller has a new one. -/
def accept_sample (popup : Popup ν) (sess : Session ν) : Session ν :=
  let cur_ts := num.read popup.TIME_STAMP
  let irr := num.readOr0 popup.PLC_IRRIGATION_CURRENT
  let accepted := match sess.last_accepted_ts with
    | none => true
    | some last_ts => cur_ts.any fun ts => num.le (SAMPLE_DEDUP_TS_GAP_S num) (num.sub ts last_ts)
  if accepted then
    { sess with
      irr_window := push_window sess.irr_window irr MEDIAN_WINDOW_N
      last_accepted_ts := cur_ts }
  else sess

def take_sample (state : State) (popup : Popup ν) (s : Robot ν) : Robot ν :=
  let arming := if state = .ACTIVE_RUN then
      s.arming.map fun a => { a with samples_seen := a.samples_seen + 1 }
    else s.arming
  update_session state (accept_sample num popup) { s with arming := arming }

/-- The live detector of the flow. It returns the events of a run whose pipe breaks. -/
def kb3_events (state : State) (popup : Popup ν) : Prog (Robot ν) (List Event) := do
  let s ← get
  match state, s.arming with
  | .ACTIVE_RUN, some a =>
    match baseline_of s.baselines a.bin_key, num.read popup.FILTERED_HUNTER_VALVE,
      num.read popup.STEP with
    | some bl, some filt, some step =>
      match kb3_update num bl a.kb3 filt step with
      | none => throw ()
      | some (kb3, result) => do
        set { s with arming := some { a with kb3 := kb3 } }
        pure (if result.any KB3Result.fired then [kb3_event] else [])
    | _, _, _ => pure []
  | _, _ => pure []

/-- The modes are evaluated on what the sessions have. -/
def mode_events (state : State) (popup : Popup ν) (now : Int) (s : Robot ν) : List Event :=
  let sess := session_for state s
  evaluate num state popup
    (s.arming.map fun a => ⟨a.curve, a.eto_restriction_seen, a.started_at_ts⟩)
    (s.last_sample.map Prod.snd)
    { now_ts := now
      master_idle_armed_ts := s.master_idle.map MasterIdle.armed_ts
      irr_median := sess.bind fun sess => rolling_median num sess.irr_window
      irr_window_n := (sess.map fun sess => sess.irr_window.length).getD 0 }

/-! ## Alerts -/

/-- A kind that has no event now may fire again. -/
def clear_unseen (seen_kinds : List Kind) (sess : Session ν) : Session ν :=
  { sess with fired := sess.fired.filter fun kind => kind ∈ seen_kinds }

/-- The schedule can be put into a message. -/
def formats (popup : Popup ν) : Bool :=
  match popup.SCHEDULE_NAME with
  | none | some (.str _) | some (.num _) => true
  | some (.bool b) => !b
  | some .null | some (.array _) | some (.object _) => false

def dispatch_event (p : Poll ν) (state : State) (popup : Popup ν) (k : Nat) (ev : Event) :
    Prog (Robot ν) Unit := do
  let s ← get
  let sess := session_for state s
  let suppressed := ¬ ev.kb4_already_edged ∧ sess.any fun sess => ev.kind ∈ sess.fired
  if suppressed then pure ()
  else if formats popup then do
    let fire := fun (sess : Session ν) => { sess with fired := ev.kind :: sess.fired }
    modify fun s =>
      if p.sends k ∧ ¬ ev.kb4_already_edged then update_session state fire s else s
    match ev.action with
    | none => pure ()
    | some action =>
      note (.post (sess.map Session.table) ev.kind action (p.sends k) (p.posts k))
  else throw ()

def dispatch_events (p : Poll ν) (state : State) (popup : Popup ν) :
    Nat → List Event → Prog (Robot ν) Unit
  | _, [] => pure ()
  | k, ev :: events => do
    dispatch_event p state popup k ev
    dispatch_events p state popup (k + 1) events

def dispatch (p : Poll ν) (state : State) (popup : Popup ν) (events : List Event) :
    Prog (Robot ν) Unit := do
  let seen_kinds := (events.filter fun ev => ¬ ev.kb4_already_edged).map Event.kind
  note (.seen state seen_kinds)
  modify fun s => { s with
    arming := s.arming.map fun a => { a with session := clear_unseen seen_kinds a.session }
    master_idle := s.master_idle.map fun m =>
      { m with session := clear_unseen seen_kinds m.session } }
  dispatch_events p state popup 0 events

/-! ## The loop -/

/-- The cycle is written, the alerts are sent, and the cursor is saved. -/
def report (p : Poll ν) (state : State) (popup : Popup ν) (events : List Event) :
    Prog (Robot ν) Unit :=
  if p.writes then do
    dispatch p state popup events
    modify fun s => { s with
      prev_state := some state
      saved_stream_id := s.last_stream_id.or s.saved_stream_id }
  else throw ()

/-- What a poll does behind the delta of the stream, with what KB4 is to do. -/
def work_popup (p : Poll ν) (state : State) (popup : Popup ν) (pending : List (Nat × String)) :
    Prog (Robot ν) Unit := do
  modify (track_idle state p.now)
  let kb2 ← kb2_events p state
  let kb4 ← collect (kb4_events p) pending
  modify (take_sample num state popup)
  let kb3 ← kb3_events num state popup
  let s ← get
  note .evaluated
  modify fun s => { s with
    last_sample := some (num.readOr0 popup.PLC_IRRIGATION_CURRENT,
      num.readOr0 popup.PLC_EQUIPMENT_CURRENT) }
  report p state popup (mode_events num state popup p.now s ++ kb3 ++ kb2 ++ kb4)

def poll_once (setup : Setup ν) (p : Poll ν) : Prog (Robot ν) Unit :=
  match p.popup with
  | none => pure ()
  | some popup => do
    let delta ← fetch p
    let pending ← collect (work_entry num setup p.now) delta
    work_popup num p (classify popup setup.manual_suspend) popup pending

/-- The main loop survives a poll that raises. -/
def poll (setup : Setup ν) (s : Robot ν) (p : Poll ν) : Option (Robot ν) :=
  some ((poll_once num setup p).after s)

/-! ## A setup -/

def oneBin : Setup Int := ⟨[("satellite_1:39", ⟨50, 5, 30⟩)], false⟩

def startEntry : Entry Int := ⟨1, some (.object [("action", .str "IRRIGATION_STATION_START"),
  ("details", .object [("io_setup", .array [.object [("remote", .str "satellite_1"),
    ("bits", .array [.num 3900])]])])])⟩

def started : Stream Int := ⟨[startEntry], by decide⟩

def quietPoll (schedule : String) (irr eq : Int) (stream : Stream Int) : Poll Int where
  popup := some ⟨some (.str schedule), none, none, some (.num irr), some (.num eq), none, none⟩
  stream := some stream
  now := 0
  kb2 := .failed
  kb4 _ := .failed
  writes := true
  sends _ := true
  posts _ := true

end motioncore.irrigation
