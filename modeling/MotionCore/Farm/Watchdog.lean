-- The watchdog of the irrigation site (farm_soil/chains/irrigation_watchdog_user_functions.lua):
-- a probe each tick, alerts while an outage lasts, and a notice when it ends. An alert that the
-- broker does not take is tried again at the next tick.
import Mathlib.Algebra.Order.Ring.Abs
import Mathlib.Data.List.Induction
import Mathlib.Tactic.Linarith
import Mathlib.Tactic.Ring
import MotionCore.Lib.Runs
import MotionCore.Lib.Trace

namespace motioncore.farm.watchdog

open motioncore.machine motioncore.trace

structure Config where
  host : Option String
  down_threshold_s : Option ℚ
  alert_interval_s : Option ℚ

def DEFAULT_DOWN_THRESHOLD_S : ℚ := 300
def DEFAULT_ALERT_INTERVAL_S : ℚ := 300

def Config.down_th (cfg : Config) : ℚ := cfg.down_threshold_s.getD DEFAULT_DOWN_THRESHOLD_S
def Config.alert_iv (cfg : Config) : ℚ := cfg.alert_interval_s.getD DEFAULT_ALERT_INTERVAL_S

/-- `bb._watchdog_state`, less the last probe, which only the status shows. -/
structure State where
  is_up : Option Bool
  first_failure_ms : Option Int
  last_alert_ms : Option Int
  alert_count : Nat
deriving DecidableEq

def State.init : State := ⟨none, none, none, 0⟩

/-- What a tick finds: the clock, the answer to the probe, and whether the broker takes an
alert. -/
structure Tick where
  now_ms : Int
  ok : Bool
  pn_ok : Bool

inductive Kind where
  | down | restored
deriving DecidableEq

inductive Note where
  | probed (now_ms : Int) (ok : Bool)
  /-- The DOWN alert, and whether it was taken. -/
  | alert (now_ms : Int) (down_for_s : ℚ) (pn_ok : Bool)
  /-- The RESTORED notice. -/
  | notice (down_for_s : ℚ) (alert_count : Nat)
  /-- A record for the event stream. -/
  | event (kind : Kind) (down_for_s : ℚ)

/-- The seconds between two readings of the clock. -/
def seconds (now_ms since : Int) : ℚ := ((now_ms - since : Int) : ℚ) / 1000

def failed (cfg : Config) (t : Tick) (s : State) : State × List Note :=
  let first := s.first_failure_ms.getD t.now_ms
  let s := { s with first_failure_ms := some first, is_up := some false }
  let down_for_s := seconds t.now_ms first
  -- Without an alert in this outage the time since the last one is infinite.
  if cfg.down_th ≤ down_for_s ∧
      ∀ last ∈ s.last_alert_ms, cfg.alert_iv ≤ seconds t.now_ms last then
    if t.pn_ok then
      ({ s with last_alert_ms := some t.now_ms, alert_count := s.alert_count + 1 },
        .alert t.now_ms down_for_s true ::
          if s.alert_count + 1 = 1 then [.event .down down_for_s] else [])
    else (s, [.alert t.now_ms down_for_s false])
  else (s, [])

/-- What was noted since the last probe that was answered. -/
def outage (log : List Note) : List Note :=
  log.foldl (fun out e =>
    match e with
    | .probed _ true => []
    | e => out ++ [e]) []

def Note.failure : Note → Option Int
  | .probed now_ms false => some now_ms
  | _ => none

def Note.sent : Note → Option Int
  | .alert now_ms _ true => some now_ms
  | _ => none

def Note.kind : Note → Option Kind
  | .event kind _ => some kind
  | _ => none

/-- The times of the probes of this outage. All of them failed. -/
def failures (log : List Note) : List Int := (outage log).filterMap Note.failure

/-- The times of the alerts of this outage that were sent. -/
def sent (log : List Note) : List Int := (outage log).filterMap Note.sent

def events (log : List Note) : List Kind := log.filterMap Note.kind

variable (cfg : Config) (log : List Note)

/-- The law of one note after those before it. An alert, sent or not, comes only when every
probe of at least the threshold failed; one that is sent is an interval apart from all others of
its outage. A notice comes right after the probe that ends an outage in which an alert was sent.
Events alternate, beginning with the outage. -/
def Lawful : Note → Prop
  | .probed _ _ => True
  | .alert now_ms _ pn_ok =>
    (∃ t ∈ failures log, cfg.down_th ≤ seconds now_ms t) ∧
      (pn_ok = true → ∀ t ∈ sent log, cfg.alert_iv ≤ |seconds now_ms t|)
  | .notice _ alert_count =>
    ∃ before now_ms, log = before ++ [.probed now_ms true] ∧
      alert_count = (sent before).length ∧ sent before ≠ []
  | .event kind _ => kind = .down ↔ (events log).length % 2 = 0

/-- A probe that is answered after a sent alert has its notice. -/
def Acknowledged : Prop :=
  ∀ before now_ms after, log = before ++ .probed now_ms true :: after → sent before ≠ [] →
    ∃ d n rest, after = .notice d n :: rest

/-! ## What a note does to the outage -/

variable {cfg log}

/-- The state is what the log says of the outage, and the events so far end with the beginning
of an outage exactly when an alert was sent in it. -/
structure Tracks (cfg : Config) (s : State) (log : List Note) : Prop where
  first : s.first_failure_ms = (failures log).head?
  last : s.last_alert_ms = (sent log).getLast?
  count : s.alert_count = (sent log).length
  apart : 0 ≤ cfg.alert_iv → (sent log).Pairwise fun t u => cfg.alert_iv ≤ seconds u t
  open_event : (events log).length % 2 = 1 ↔ sent log ≠ []
  lawful : Past (Lawful cfg) log
  acknowledged : Acknowledged log

variable {s : State}

end motioncore.farm.watchdog
