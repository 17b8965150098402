-- The behaviour tree and the engine that runs it: the dispatch of main functions,
-- oneshots and predicates, and the operations of a parent on a child.
import MotionCore.Engine.Composites

namespace motioncore.engine

open EventType

/-! ## Trees -/

/-- A parameter of the tree: a literal, or a call with its own parameters. Every call has
an index into the node states. -/
inductive Node where
  | int (v : Int)
  | fieldRef (f : Nat)
  | literal
  | main (fn : MainFn) (idx : Nat) (args : List Node)
  | oneshot (id idx : Nat) (survives_reset : Bool)
  | pred (fn : PredFn) (idx : Nat) (args : List Node)

def Node.kind : Node → ArgKind
  | .int v => .int v
  | .fieldRef f => .field f
  | .literal => .other
  | .main _ _ _ => .call .main
  | .oneshot _ _ _ => .call .oneshot
  | .pred _ _ _ => .call .pred

/-- The functions that the tables of a module hold for the leaves of a tree. A main function
is given the event, the event id and the data of its node. `fuel` bounds how long a loop is
followed within a tick. -/
structure World (E : Type) where
  fuel : Nat
  main : Nat → EventType → Nat → NodeData → E → Result × NodeData × E
  oneshot : Nat → Nat → E → E
  test : Nat → Nat → E → Bool × E
  counter : Nat → Nat → NodeState → E → Bool × NodeState × E
  field : Nat → E → Int

/-! ## The engine state -/

/-- A call of a main function of a node, and what a tick of it gave. -/
inductive Callback where
  | init (n : Nat)
  | tick (n : Nat) (r : Result)
  | terminate (n : Nat)
deriving DecidableEq, Repr

/-- The state of the engine. `dropped` lists the main nodes whose INITIALIZED flag was
cleared by a reset, without a TERMINATE. -/
structure Eng (E : Type) where
  nodes : Nat → NodeState
  env : E
  event_id : Nat
  log : List Callback
  dropped : List Nat

namespace Eng

variable {E : Type}

def setNode (s : Eng E) (n : Nat) (st : NodeState) : Eng E :=
  { s with nodes := fun m => if m = n then st else s.nodes m }

def setData (s : Eng E) (n : Nat) (d : NodeData) : Eng E :=
  s.setNode n { s.nodes n with data := d }

def record (s : Eng E) (c : Callback) : Eng E := { s with log := s.log ++ [c] }

/-- A reset: ACTIVE, EVER_INIT as it was, and no data. -/
def resetNode (s : Eng E) (n : Nat) : Eng E :=
  s.setNode n ⟨true, false, (s.nodes n).ever_init, .zero⟩

def resetMain (s : Eng E) (n : Nat) : Eng E :=
  let s' := s.resetNode n
  if (s.nodes n).initialized then { s' with dropped := s.dropped ++ [n] } else s'

/-- The state after a TERMINATE from the parent: all flags and data are gone. -/
def clearNode (s : Eng E) (n : Nat) : Eng E := s.setNode n ⟨false, false, false, .zero⟩

end Eng

/-! ## Operations on a child -/

/-- What a parent can do with a child. `onTerminate` is the function of a main child called
with TERMINATE, `resetArgs` the reset of everything below the child. -/
structure Kid (E : Type) where
  kind : ArgKind
  idx : Nat
  invoke : Eng E → Option (Result × Eng E)
  invokePred : Eng E → Option (Bool × Eng E)
  onTerminate : Eng E → Option (Eng E)
  resetArgs : Eng E → Eng E

namespace Kid

variable {E : Type}

/-- A parameter that is no call. To invoke it is an exception. -/
def param (kind : ArgKind) : Kid E where
  kind := kind
  idx := 0
  invoke s := some (SE_TERMINATE, s)
  invokePred s := some (false, s)
  onTerminate s := some s
  resetArgs s := s

def active (k : Kid E) (s : Eng E) : Bool := k.kind.isCall && (s.nodes k.idx).active

def initialized (k : Kid E) (s : Eng E) : Bool := k.kind.isCall && (s.nodes k.idx).initialized

/-- `s_expr_child_terminate`, and `terminate_action_at_index`: an initialised main child gets
TERMINATE, then its state is cleared. -/
def terminate (k : Kid E) (s : Eng E) : Option (Eng E) :=
  if k.kind = .call .main then
    if (s.nodes k.idx).initialized then (k.onTerminate s).map (·.clearNode k.idx)
    else some s
  else some s

/-- `s_expr_child_reset` -/
def reset (k : Kid E) (s : Eng E) : Eng E :=
  match k.kind with
  | .call .main => s.resetMain k.idx
  | .call _ => s.resetNode k.idx
  | _ => s

/-- `s_expr_child_reset_recursive`, and `s_expr_reset_recursive_at` -/
def resetRecursive (k : Kid E) (s : Eng E) : Eng E :=
  if k.kind.isCall then k.resetArgs (k.reset s) else s

end Kid

variable {E : Type}

/-- The child at the index. An index out of range is an exception. -/
def kidAt (kids : List (Kid E)) (j : Nat) : Kid E := kids[j]?.getD (.param .other)

/-- A program runs for the node `idx`. `own` is the function of a leaf. -/
def runProg {α : Type} (w : World E) (kids : List (Kid E)) (idx : Nat)
    (own : NodeData → E → Result × NodeData × E) : Prog α → Eng E → Option (α × Eng E)
  | .ret a, s => some (a, s)
  | .spin, _ => none
  | .leaf k, s =>
    let (r, d, env) := own (s.nodes idx).data s.env
    runProg w kids idx own (k r) { s.setData idx d with env := env }
  | .getData k, s => runProg w kids idx own (k (s.nodes idx).data) s
  | .setData d k, s => runProg w kids idx own k (s.setData idx d)
  | .readField f k, s => runProg w kids idx own (k (w.field f s.env)) s
  | .childActive j k, s => runProg w kids idx own (k ((kidAt kids j).active s)) s
  | .childInitialized j k, s => runProg w kids idx own (k ((kidAt kids j).initialized s)) s
  | .invokeAny j k, s => do
    let (r, s) ← (kidAt kids j).invoke s
    runProg w kids idx own (k r) s
  | .invokePred j k, s => do
    let (b, s) ← (kidAt kids j).invokePred s
    runProg w kids idx own (k b) s
  | .childTerminate j k, s => do
    let s ← (kidAt kids j).terminate s
    runProg w kids idx own k s
  | .childReset j k, s => runProg w kids idx own k ((kidAt kids j).reset s)
  | .childResetRecursive j k, s => runProg w kids idx own k ((kidAt kids j).resetRecursive s)

/-! ## Dispatch -/

/-- The function of a leaf for an event. Other functions have none of their own. -/
def ownFn (w : World E) (fn : MainFn) (event_id : Nat) (event : EventType) :
    NodeData → E → Result × NodeData × E :=
  match fn with
  | .leaf id => w.main id event event_id
  | _ => fun d env => (SE_PIPELINE_CONTINUE, d, env)

def callMain (w : World E) (fn : MainFn) (idx : Nat) (kids : List (Kid E)) (event_id : Nat)
    (event : EventType) (s : Eng E) : Option (Result × Eng E) :=
  runProg w kids idx (ownFn w fn event_id event)
    (mainProg w.fuel fn (kids.map Kid.kind) event_id event) s

/-- The first phase of `dispatch_main`: INIT on the first call. -/
def first_call (w : World E) (fn : MainFn) (idx : Nat) (kids : List (Kid E)) (s : Eng E) :
    Option (Eng E) :=
  if (s.nodes idx).initialized then some s
  else
    let s := (s.setNode idx { s.nodes idx with initialized := true }).record (.init idx)
    (callMain w fn idx kids s.event_id SE_EVENT_INIT s).map Prod.snd

/-- The last phase of `dispatch_main`: TERMINATE when the answer is DISABLE. The node is no
longer active, and the INITIALIZED flag stays. -/
def last_call (w : World E) (fn : MainFn) (idx : Nat) (kids : List (Kid E)) (result : Result)
    (s : Eng E) : Option (Eng E) :=
  if result = SE_PIPELINE_DISABLE then
    (callMain w fn idx kids s.event_id SE_EVENT_TERMINATE (s.record (.terminate idx))).map
      fun (_, s) => s.setNode idx { s.nodes idx with active := false }
  else some s

/-- `dispatch_main`: INIT on the first call, the event, and TERMINATE on completion. -/
def dispatch_main (w : World E) (fn : MainFn) (idx : Nat) (kids : List (Kid E)) (s : Eng E) :
    Option (Result × Eng E) :=
  if !(s.nodes idx).active then some (SE_PIPELINE_CONTINUE, s)
  else do
    let s ← first_call w fn idx kids s
    let (result, s) ← callMain w fn idx kids s.event_id SE_EVENT_TICK s
    let s ← last_call w fn idx kids result (s.record (.tick idx result))
    return (result, s)

/-- `dispatch_oneshot`: once after each reset, or once for ever. -/
def dispatch_oneshot (w : World E) (id idx : Nat) (survives_reset : Bool) (s : Eng E) : Eng E :=
  let st := s.nodes idx
  if (if survives_reset then st.ever_init else st.initialized) then s
  else
    let st := if survives_reset then { st with ever_init := true } else { st with initialized := true }
    let s := s.setNode idx st
    { s with env := w.oneshot id s.event_id s.env }

def dispatch_pred (w : World E) (fn : PredFn) (idx : Nat) (kids : List (Kid E)) (s : Eng E) :
    Option (Bool × Eng E) :=
  match fn with
  | .test id =>
    let (b, env) := w.test id s.event_id s.env
    some (b, { s with env := env })
  | .counter id =>
    let (b, st, env) := w.counter id s.event_id (s.nodes idx) s.env
    some (b, { s.setNode idx st with env := env })
  | fn =>
    runProg w kids idx (fun d env => (SE_PIPELINE_CONTINUE, d, env))
      (predProg fn (kids.map Kid.kind)) s

/-- The function of a main node called with TERMINATE by its parent. The event id is zero. -/
def terminate_main (w : World E) (fn : MainFn) (idx : Nat) (kids : List (Kid E)) (s : Eng E) :
    Option (Eng E) :=
  (callMain w fn idx kids 0 SE_EVENT_TERMINATE (s.record (.terminate idx))).map Prod.snd

/-- `reset_all_recursive` -/
def reset_all (kids : List (Kid E)) (s : Eng E) : Eng E :=
  kids.foldl (fun s k => k.resetRecursive s) s

def mainKid (w : World E) (fn : MainFn) (idx : Nat) (kids : List (Kid E)) : Kid E where
  kind := .call .main
  idx := idx
  invoke := dispatch_main w fn idx kids
  invokePred s := some (false, s)
  onTerminate := terminate_main w fn idx kids
  resetArgs := reset_all kids

def oneshotKid (w : World E) (id idx : Nat) (survives_reset : Bool) : Kid E where
  kind := .call .oneshot
  idx := idx
  invoke s := some (SE_PIPELINE_CONTINUE, dispatch_oneshot w id idx survives_reset s)
  invokePred s := some (false, s)
  onTerminate s := some s
  resetArgs s := s

def predKid (w : World E) (fn : PredFn) (idx : Nat) (kids : List (Kid E)) : Kid E where
  kind := .call .pred
  idx := idx
  invoke s := (dispatch_pred w fn idx kids s).map fun (b, s) =>
    (if b then SE_PIPELINE_CONTINUE else SE_PIPELINE_HALT, s)
  invokePred := dispatch_pred w fn idx kids
  onTerminate s := some s
  resetArgs := reset_all kids

mutual

def Node.kid (w : World E) : Node → Kid E
  | .int v => .param (.int v)
  | .fieldRef f => .param (.field f)
  | .literal => .param .other
  | .main fn idx args => mainKid w fn idx (Node.kids w args)
  | .oneshot id idx survives_reset => oneshotKid w id idx survives_reset
  | .pred fn idx args => predKid w fn idx (Node.kids w args)

def Node.kids (w : World E) : List Node → List (Kid E)
  | [] => []
  | n :: ns => n.kid w :: Node.kids w ns

end

/-! ## Ticks -/

/-- `s_expr_node_tick`: an event for the whole tree. A root that is not active is not
invoked. -/
def s_expr_node_tick (w : World E) (root : Node) (event_id : Nat) (s : Eng E) :
    Option (Result × Eng E) :=
  let k := root.kid w
  if (s.nodes k.idx).active then k.invoke { s with event_id := event_id }
  else some (SE_FUNCTION_TERMINATE, s)

def createdState (env : E) : Eng E where
  nodes _ := ⟨true, false, false, .zero⟩
  env := env
  event_id := 0
  log := []
  dropped := []

/-- One event of a run: what the world outside the tree does to the environment, and then the
event. -/
structure Event (E : Type) where
  outside : E → E
  event_id : Nat

/-- The tree is given the events one after the other. -/
def runTicks (w : World E) (root : Node) : List (Event E) → Eng E → Option (Eng E)
  | [], s => some s
  | e :: es, s => do
    let (_, s) ← s_expr_node_tick w root e.event_id { s with env := e.outside s.env }
    runTicks w root es s

end motioncore.engine
