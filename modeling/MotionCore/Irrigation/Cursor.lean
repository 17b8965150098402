-- The stream of past actions that the irrigation robot follows, over all runs of its poll
-- loop. The cursor passes what was fetched, the modes are evaluated, and KB4 gets each
-- STEP_COMPLETE once, as long as the entries have the shape that the robot expects.
import MotionCore.Irrigation.Poll
import MotionCore.Lib.Runs
import MotionCore.Lib.Trace

namespace motioncore.irrigation

open motioncore.machine motioncore.raising motioncore.trace
open motioncore.bussup (Value orElse)

variable {ν : Type} {num : Num ν} {setup : Setup ν}

/-! ## What should hold -/

def Note.analyses (id : Nat) : Note → Bool
  | .analysed stream_id _ => stream_id = id
  | _ => false

def marks (delta : List (Delta ν)) : List (Nat × Bool) :=
  delta.map fun ent => (ent.stream_id, ent.does "IRRIGATION_STEP_COMPLETE")

/-- A poll that fetches these entries passes them, and evaluates the modes. -/
structure Passes (delta : List (Delta ν)) (s s' : Robot ν) : Prop where
  cursor : s'.last_stream_id = (delta.getLast?.map Delta.stream_id).or s.last_stream_id
  evaluated : ∃ new, s'.log = s.log ++ new ∧ .fetched (marks delta) ∈ new ∧ .evaluated ∈ new

/-! ## When it holds -/

/-- A group of valves that can be read: its bits, if it has any, are numbers. -/
def GroupFits (num : Num ν) (group : Value ν) : Prop :=
  (group.index "remote").isSome ∧ ∃ bits,
    items (orElse (group.get? "bits") (.array [])) = some bits ∧
      ∀ bit ∈ bits, (num.tonumber bit).isSome

/-- An `io_setup` that can be read: a table of such groups, if there is any. -/
def SetupFits (num : Num ν) (io_setup : Option (Value ν)) : Prop :=
  ∃ groups, items (orElse io_setup (.array [])) = some groups ∧
    ∀ group ∈ groups, GroupFits num group

def ShapeFits (num : Num ν) (ent : Delta ν) : Prop :=
  ent.does "IRRIGATION_STATION_START" ∨ ent.does "IRRIGATION_STEP_COMPLETE" →
    ∀ details, ent.table = some details → SetupFits num (details.get? "io_setup")

def armedAfter (armed : Bool) (ent : Delta ν) : Bool :=
  if ent.does "IRRIGATION_STATION_START" ∧ ent.table.isSome then true
  else if ent.does "IRRIGATION_STEP_COMPLETE" then false
  else if ent.does "SKIP_OPERATION" then false
  else armed

/-- Each STEP_COMPLETE has details, or comes while a run is armed. -/
def Names : Bool → List (Delta ν) → Prop
  | _, [] => True
  | armed, ent :: rest =>
    (ent.does "IRRIGATION_STEP_COMPLETE" → ent.table.isSome ∨ armed) ∧
      Names (armedAfter armed ent) rest

/-- The analyzers of a poll end, and its step is an index. -/
structure Analyzable (num : Num ν) (p : Poll ν) (popup : Popup ν) : Prop where
  kb2 : p.kb2 ≠ .raised
  kb4 : ∀ id, p.kb4 id ≠ .raised
  step : ∀ step, num.read popup.STEP = some step → (num.floor step).isSome

/-- The entries that a poll fetches fit. -/
def Regular (num : Num ν) (s : Robot ν) (p : Poll ν) : Prop :=
  ∀ popup stream, p.popup = some popup → p.stream = some stream →
    Analyzable num p popup ∧ s.baselines.isSome ∧
      ∃ delta, past_actions_xrange s.last_stream_id stream = some delta ∧
        (∀ ent ∈ delta, ShapeFits num ent) ∧ Names s.arming.isSome delta

/-! ## Reading a setup -/

/-- Only the bins of runs without a detector are noted. -/
def Note.Uncalibrated : Note → Prop
  | .uncalibrated _ _ _ => True
  | _ => False

def BinKnown (s : Robot ν) : Prop := ∀ a, s.arming = some a → a.bin_key ≠ "?"

structure Worked (ent : Delta ν) (pending : List (Nat × String)) (s s' : Robot ν) : Prop where
  cursor : s'.last_stream_id = some ent.stream_id
  armed : s'.arming.isSome = armedAfter s.arming.isSome ent
  baselines : s'.baselines = s.baselines
  known : BinKnown s'
  log : Adds Note.Uncalibrated s.log s'.log
  pending : pending.map Prod.fst =
    if ent.does "IRRIGATION_STEP_COMPLETE" then [ent.stream_id] else []

section

variable {s s' : Robot ν} {ent : Delta ν} {now : Int}

end

/-! ## The delta -/

/-- The ids of the entries that KB4 is to get. -/
def completed (delta : List (Delta ν)) : List Nat :=
  (delta.filter fun ent => ent.does "IRRIGATION_STEP_COMPLETE").map Delta.stream_id

/-- How far a delta is worked off. -/
structure Reached (s₀ : Robot ν) (base : List Note) (done : List (Delta ν))
    (pending : List (Nat × String)) (s : Robot ν) : Prop where
  cursor : s.last_stream_id = (done.getLast?.map Delta.stream_id).or s₀.last_stream_id
  armed : s.arming.isSome = done.foldl armedAfter s₀.arming.isSome
  baselines : s.baselines.isSome
  known : BinKnown s
  log : Adds Note.Uncalibrated base s.log
  pending : pending.map Prod.fst = completed done

section

variable {s₀ : Robot ν} {base : List Note} {delta : List (Delta ν)} {now : Int}

end

/-! ## The rest of a poll -/

def Note.Alert : Note → Prop
  | .seen _ _ | .post _ _ _ _ _ => True
  | _ => False

structure Done (cursor : Option Nat) (log : List Note) (s : Robot ν) : Prop where
  cursor : s.last_stream_id = cursor
  log : Adds Note.Alert log s.log
  known : BinKnown s

section

variable {s s' : Robot ν} {cursor : Option Nat} {log : List Note} {p : Poll ν} {state : State}
  {popup : Popup ν}

/-- A poll does not get behind its modes. -/
structure Stuck (num : Num ν) (p : Poll ν) (popup : Popup ν) (cursor : Option Nat)
    (log : List Note) (pending : List (Nat × String)) (s : Robot ν) : Prop where
  raised : ¬ Analyzable num p popup
  cursor : s.last_stream_id = cursor
  log : ∃ done, done <+: pending ∧ s.log = log ++ done.map fun e => .analysed e.1 e.2
  known : BinKnown s

def handed (pending : List (Nat × String)) : List Note :=
  pending.map fun e => .analysed e.1 e.2

end

/-! ## Every run -/

def Note.Calm : Note → Prop
  | .fetched _ | .analysed _ _ => False
  | _ => True

section

variable {s s' : Robot ν} {stream : Stream ν} {delta : List (Delta ν)}

def cursorAfter (delta : List (Delta ν)) (last_id : Option Nat) : Option Nat :=
  (delta.getLast?.map Delta.stream_id).or last_id

variable {id : Nat}

theorem count_handed (pending : List (Nat × String)) (id : Nat) :
    (handed pending).countP (Note.analyses id) = (pending.map Prod.fst).count id := by
  induction pending with
  | nil => rfl
  | cons e pending ih =>
    rw [handed, List.map_cons, List.countP_cons, List.map_cons, List.count_cons]
    exact congrArg₂ (· + ·) ih (by simp [Note.analyses])

/-- The notes of a poll behind its modes: what it fetched, what was handed over, and others. -/
structure Polled (delta : List (Delta ν)) (s s' : Robot ν) : Prop where
  known : BinKnown s'
  cursor : s'.last_stream_id = cursorAfter delta s.last_stream_id
  log : ∃ new, s'.log = s.log ++ new ∧ .evaluated ∈ new ∧ .fetched (marks delta) ∈ new ∧
    (∀ entries, .fetched entries ∈ new → entries = marks delta) ∧
    ∀ id, new.countP (Note.analyses id) = (completed delta).count id

end

section

variable {s s' : Robot ν} {p : Poll ν} {popup : Popup ν} {stream : Stream ν}
  {delta : List (Delta ν)}

def fetched (delta : List (Delta ν)) (s : Robot ν) : Robot ν :=
  { s with log := s.log ++ [.fetched (marks delta)] }

variable {e : Note}

theorem analyses_of_uncalibrated {id : Nat} (h : e.Uncalibrated) : e.analyses id = false := by
  cases e <;> first | rfl | cases h

theorem analyses_of_alert {id : Nat} (h : e.Alert) : e.analyses id = false := by
  cases e <;> first | rfl | cases h

theorem Done.polled {s₁ : Robot ν} {pending : List (Nat × String)}
    (hreached : Reached s (fetched delta s).log delta pending s₁)
    (h : Done s₁.last_stream_id (s₁.log ++ handed pending ++ [.evaluated]) s') :
    Polled delta s s' := by
  obtain ⟨uncalibrated, hs₁, huncalibrated⟩ := hreached.log
  obtain ⟨alerts, hs', halerts⟩ := h.log
  have hlog : s'.log = s.log ++
      ([.fetched (marks delta)] ++ uncalibrated ++ handed pending ++ [.evaluated] ++ alerts) := by
    rw [hs', hs₁]
    simp [fetched]
  refine ⟨h.known, h.cursor.trans hreached.cursor, _, hlog, by simp, by simp, ?_, fun id => ?_⟩
  · intro entries hmem
    simp only [List.mem_append, List.mem_singleton, handed, List.mem_map] at hmem
    rcases hmem with (((heq | hmem) | ⟨_, _, heq⟩) | heq) | hmem
    · exact Note.fetched.inj heq
    · cases huncalibrated _ hmem
    · cases heq
    · cases heq
    · cases halerts _ hmem
  · have hu : uncalibrated.countP (Note.analyses id) = 0 := by
      refine List.countP_eq_zero.mpr fun e he => ?_
      rw [analyses_of_uncalibrated (huncalibrated e he)]
      exact Bool.false_ne_true
    have ha : alerts.countP (Note.analyses id) = 0 := by
      refine List.countP_eq_zero.mpr fun e he => ?_
      rw [analyses_of_alert (halerts e he)]
      exact Bool.false_ne_true
    simp [List.countP_append, hu, ha, count_handed, hreached.pending, Note.analyses]

end

end motioncore.irrigation
