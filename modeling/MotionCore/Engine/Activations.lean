-- One activation of a node: its ticks from the first call on. Between two of them anything may
-- happen elsewhere in the tree.
import MotionCore.Engine.Sequences
import MotionCore.Engine.Cases
import MotionCore.Engine.Propagation

namespace motioncore.engine

open EventType motioncore.trace

variable {E : Type}

/-- A tick of a node: the state before its function is called, the answer, and the state after. -/
structure TickOf (E : Type) where
  before : Eng E
  answer : Result
  after : Eng E

/-- The ticks of one activation of a node. Between two of them anything may happen elsewhere. -/
structure Activation (w : World E) (fn : MainFn) (idx : Nat) (args : List Node) (s : Eng E)
    (ts : List (TickOf E)) : Prop where
  new : (s.nodes idx).initialized = false
  starts : ∀ t : TickOf E, ts[0]? = some t → first_call w fn idx (Node.kids w args) s = some t.before
  ticks : ∀ (i : Nat) (t : TickOf E), ts[i]? = some t →
    callMain w fn idx (Node.kids w args) t.before.event_id SE_EVENT_TICK t.before = some (t.answer, t.after)
  goes_on : ∀ (i : Nat) (t t' : TickOf E), ts[i]? = some t → ts[i + 1]? = some t' →
    t.answer ≠ SE_PIPELINE_DISABLE ∧
      Apart (idx :: Node.indicesAll args) (t.after.record (.tick idx t.answer)) t'.before

variable {w : World E}

/-- A child that is reset is as it was created, but for what has ever been run. -/
theorem reset_node {t : Node} (hcall : t.kind.isCall = true) (s : Eng E) :
    ((t.kid w).reset s).nodes t.idx = ⟨true, false, (s.nodes t.idx).ever_init, .zero⟩ := by
  cases t with
  | int | fieldRef | literal => cases hcall
  | oneshot | pred =>
    simp [Kid.reset, Node.kid, oneshotKid, predKid, Eng.resetNode, Eng.setNode, Node.idx]
  | main fn n as =>
    change (s.resetMain n).nodes n = _
    unfold Eng.resetMain
    dsimp only
    split <;> simp [Eng.resetNode, Eng.setNode, Node.idx]

theorem idx_mem {t : Node} (hcall : t.kind.isCall = true) : t.idx ∈ t.indices := by
  cases t with
  | int | fieldRef | literal => cases hcall
  | oneshot | pred | main => simp [Node.idx, Node.indices]

/-- The invocations of children in a tick of the node. -/
def tickCalls (w : World E) (fn : MainFn) (idx : Nat) (args : List Node) (s : Eng E) : List (Call E) :=
  calls w (Node.kids w args) idx (ownFn w fn s.event_id SE_EVENT_TICK)
    (mainProg w.fuel fn (args.map Node.kind) s.event_id SE_EVENT_TICK) s

def tickDoings (w : World E) (fn : MainFn) (idx : Nat) (args : List Node) (s : Eng E) :
    List (Deed × Eng E) :=
  doings w (Node.kids w args) idx (ownFn w fn s.event_id SE_EVENT_TICK)
    (mainProg w.fuel fn (args.map Node.kind) s.event_id SE_EVENT_TICK) s

section

variable {w : World E} {fn : MainFn} {idx : Nat} {args : List Node} {s : Eng E}
variable {ts : List (TickOf E)}
variable {i : Nat} {t : TickOf E}

end

/-! ## Two ticks -/

def tickFrom (w : World E) (fn : MainFn) (idx : Nat) (args : List Node) (s : Eng E) : TickOf E :=
  let out := (callMain w fn idx (Node.kids w args) s.event_id SE_EVENT_TICK s).getD
    (SE_PIPELINE_DISABLE, s)
  ⟨s, out.1, out.2⟩

def firstTick (w : World E) (fn : MainFn) (idx : Nat) (args : List Node) (s : Eng E) : TickOf E :=
  tickFrom w fn idx args ((first_call w fn idx (Node.kids w args) s).getD s)

/-- The second tick. Nothing has happened elsewhere. -/
def secondTick (w : World E) (fn : MainFn) (idx : Nat) (args : List Node) (s : Eng E) : TickOf E :=
  tickFrom w fn idx args ((firstTick w fn idx args s).after.record
    (.tick idx (firstTick w fn idx args s).answer))

/-- The node is called first, and ticked, and ticked again. -/
structure TicksTwice (w : World E) (fn : MainFn) (idx : Nat) (args : List Node) (s : Eng E) : Prop where
  new : (s.nodes idx).initialized = false
  starts : (first_call w fn idx (Node.kids w args) s).isSome = true
  first : (callMain w fn idx (Node.kids w args) (firstTick w fn idx args s).before.event_id SE_EVENT_TICK
    (firstTick w fn idx args s).before).isSome = true
  goes_on : (firstTick w fn idx args s).answer ≠ SE_PIPELINE_DISABLE
  second : (callMain w fn idx (Node.kids w args) (secondTick w fn idx args s).before.event_id SE_EVENT_TICK
    (secondTick w fn idx args s).before).isSome = true

theorem tickFrom_ticks {fn : MainFn} {idx : Nat} {args : List Node} {s : Eng E}
    (h : (callMain w fn idx (Node.kids w args) s.event_id SE_EVENT_TICK s).isSome = true) :
    callMain w fn idx (Node.kids w args) s.event_id SE_EVENT_TICK s =
      some ((tickFrom w fn idx args s).answer, (tickFrom w fn idx args s).after) := by
  obtain ⟨out, hout⟩ := Option.isSome_iff_exists.mp h
  simp [tickFrom, hout]

theorem TicksTwice.activation {fn : MainFn} {idx : Nat} {args : List Node} {s : Eng E}
    (h : TicksTwice w fn idx args s) :
    Activation w fn idx args s [firstTick w fn idx args s, secondTick w fn idx args s] := by
  refine ⟨h.new, fun t ht => ?_, fun i t ht => ?_, fun i t t' ht ht' => ?_⟩
  · obtain ⟨s₁, hs₁⟩ := Option.isSome_iff_exists.mp h.starts
    rw [← (Option.some.inj ht : firstTick w fn idx args s = t)]
    simp [firstTick, tickFrom, hs₁]
  · match i with
    | 0 =>
      rw [← (Option.some.inj ht : firstTick w fn idx args s = t)]
      exact tickFrom_ticks h.first
    | 1 =>
      rw [← (Option.some.inj ht : secondTick w fn idx args s = t)]
      exact tickFrom_ticks h.second
    | i + 2 => simp at ht
  · match i with
    | 0 =>
      rw [← (Option.some.inj ht : firstTick w fn idx args s = t),
        ← (Option.some.inj ht' : secondTick w fn idx args s = t')]
      exact ⟨h.goes_on, fun _ _ => rfl, Adds.refl _⟩
    | i + 1 => simp at ht'

end motioncore.engine
