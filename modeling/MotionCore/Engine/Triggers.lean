-- The edge trigger. At every change of its predicate it stops the action of the one edge and
-- restarts that of the other, over any number of ticks. Between the changes it does nothing.
import MotionCore.Engine.Activations
import MotionCore.Engine.Forward
import Mathlib.Data.List.Basic

namespace motioncore.engine

open EventType

variable {E : Type}

/-! ## One tick -/

def ending_action (r : Result) : Bool :=
  r.layer == .pipeline && (r.code == .DISABLE || r.code == .TERMINATE || r.code == .RESET)

def stopping (a : Nat) : List Deed := [.terminated a, .reset a]

def opposite (a : Nat) : Nat := if a = 2 then 3 else 2

/-- An action is restarted. One that is done at once is put away again. -/
def restarting (a : Nat) (r : Result) : List Deed :=
  stopping a ++ .invoked a r :: if ending_action r then stopping a else []

def Restarts (a : Nat) (deeds : List Deed) : Prop :=
  ∃ before r after, deeds = before ++ .terminated a :: .reset a :: .invoked a r :: after

/-- What a tick does, by the value of the predicate before and now. -/
inductive TriggerTick (args : List ArgKind) : Bool → Bool → List Deed → Result → Prop where
  | rises (r : Result) : TriggerTick args false true
    (.asked 1 true :: (if 4 ≤ args.length then stopping 3 else []) ++ restarting 2 r)
    (if r.layer = .pipeline then SE_PIPELINE_CONTINUE else r)
  | falls (r : Result) (h : 4 ≤ args.length) : TriggerTick args true false
    (.asked 1 false :: stopping 2 ++ restarting 3 r)
    (if r.layer = .pipeline then SE_PIPELINE_CONTINUE else r)
  | unanswered (h : args.length < 4) : TriggerTick args true false [.asked 1 false] SE_PIPELINE_CONTINUE
  | stays (b : Bool) : TriggerTick args b b [.asked 1 b] SE_PIPELINE_CONTINUE

section

variable {kinds : List ArgKind} {b c : Bool} {deeds : List Deed} {r : Result}
variable {a : Nat}

theorem restarting_invoked {a' : Nat} {r' r'' : Result} (h : .invoked a r' ∈ restarting a' r'') :
    a = a' ∧ r' = r'' := by
  unfold restarting stopping at h
  split at h <;> simpa using h

/-- An action is invoked at its own edge only, when the other has been stopped. -/
theorem TriggerTick.invoked (h : TriggerTick kinds b c deeds r) (hlen : 3 ≤ kinds.length)
    {r' : Result} (hmem : .invoked a r' ∈ deeds) :
    (a = 2 ∧ b = false ∧ c = true ∨ a = 3 ∧ b = true ∧ c = false ∧ 4 ≤ kinds.length) ∧
      (r = if r'.layer = .pipeline then SE_PIPELINE_CONTINUE else r') ∧
      deeds = .asked 1 c :: (if opposite a < kinds.length then stopping (opposite a) else []) ++
        restarting a r' := by
  cases h with
  | rises r'' =>
    have hmem' : .invoked a r' ∈ restarting 2 r'' := by
      rcases List.mem_append.mp hmem with hmem | hmem
      · split at hmem <;> simp [stopping] at hmem
      · exact hmem
    obtain ⟨rfl, rfl⟩ := restarting_invoked hmem'
    exact ⟨.inl ⟨rfl, rfl, rfl⟩, rfl, rfl⟩
  | falls r'' hfour =>
    have hmem' : .invoked a r' ∈ restarting 3 r'' := by
      rcases List.mem_append.mp hmem with hmem | hmem
      · simp [stopping] at hmem
      · exact hmem
    obtain ⟨rfl, rfl⟩ := restarting_invoked hmem'
    refine ⟨.inr ⟨rfl, rfl, rfl, hfour⟩, rfl, ?_⟩
    have hother : opposite 3 < kinds.length := hlen
    rw [if_pos hother]
    rfl
  | unanswered | stays => simp at hmem

theorem Restarts.invoked (h : Restarts a deeds) : ∃ r', .invoked a r' ∈ deeds := by
  obtain ⟨before, r', after, rfl⟩ := h
  exact ⟨r', by simp⟩

theorem TriggerTick.value (h : TriggerTick kinds b c deeds r) :
    (deeds.head? == some (.asked 1 true)) = c := by
  cases h with
  | stays => cases b <;> rfl
  | _ => rfl

/-- Without an invocation a tick goes on. -/
theorem TriggerTick.reports (h : TriggerTick kinds b c deeds r)
    (hpipeline : ∀ a r', .invoked a r' ∈ deeds → r'.layer = .pipeline) : r = SE_PIPELINE_CONTINUE := by
  cases h with
  | rises r' =>
    have hmem : Deed.invoked 2 r' ∈
        Deed.asked 1 true :: (if 4 ≤ kinds.length then stopping 3 else []) ++ restarting 2 r' := by
      simp [restarting]
    rw [if_pos (hpipeline 2 r' hmem)]
  | falls r' =>
    have hmem : Deed.invoked 3 r' ∈ Deed.asked 1 false :: stopping 2 ++ restarting 3 r' := by
      simp [restarting]
    rw [if_pos (hpipeline 3 r' hmem)]
  | unanswered | stays => rfl

end

/-! ## The law of a trigger -/

/-- What a tick does to the children, in its order. -/
def deedsOf (w : World E) (idx : Nat) (args : List Node) (t : TickOf E) : List Deed :=
  (tickDoings w .se_trigger_on_change idx args t.before).map Prod.fst

/-- The value of the predicate in a tick. -/
def holds (w : World E) (idx : Nat) (args : List Node) (t : TickOf E) : Bool :=
  (deedsOf w idx args t).head? == some (.asked 1 true)

/-- The action is running after a deed. A oneshot or a predicate is done at once. -/
def stillRunning (args : List Node) (a : Nat) (was : Bool) : Deed → Bool
  | .invoked j r => if j = a then isMain (args.map Node.kind) j && !ending_action r else was
  | .terminated j => if j = a then false else was
  | _ => was

/-- The action has been invoked, has not completed, and has not been terminated. -/
def running (args : List Node) (a : Nat) (deeds : List Deed) : Bool :=
  deeds.foldl (stillRunning args a) false

section

variable {w : World E} {idx : Nat} {args : List Node} {initial_state : Int} {s : Eng E}
variable {ts : List (TickOf E)}

end

/-! ## The one-sided forms -/

namespace se_control_flow

def se_trigger_on_change (idx : Nat) (initial_state : Int) (pred then_action else_action : Node) :
    Node :=
  .main .se_trigger_on_change idx [.int initial_state, pred, then_action, else_action]

end se_control_flow

section

variable {w : World E} {idx : Nat} {args : List Node} {initial_state : Int} {s : Eng E}
variable {ts : List (TickOf E)}

end

/-- The predicate holds, and every main function gives the one answer. -/
def holding (r : Result) : World Unit where
  fuel := 1
  main _ _ _ d env := (r, d, env)
  oneshot _ _ env := env
  test _ _ env := (true, env)
  counter _ _ st env := (true, st, env)
  field _ _ := 0

end motioncore.engine
