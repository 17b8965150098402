-- The node that spawns a child tree and ticks it. It creates the child at INIT, hands it
-- every tick and the events of two queues, and frees it when its answer looks complete.
-- A child that answers HALT, or CONTINUE of an outer layer, looks complete too.
import MotionCore.Engine.Tree
import MotionCore.Lib.Runs

namespace motioncore.spawn

open engine engine.EventType machine

variable {σ E : Type}

/-! ## Children and queues -/

structure QueuedEvent where
  tick_type : Nat
  event_id : Nat
  event_data : Nat
deriving DecidableEq, Repr

/-- How many events a queue holds. -/
def S_EXPR_EVENT_QUEUE_SIZE : Nat := 16

/-- What a child tree does. A tick answers with a code and may queue events, to the child
itself and to its parent. `none` is a tick that does not return. -/
structure ChildTree (σ : Type) where
  created : σ
  tick : QueuedEvent → σ → Option (Result × σ × List QueuedEvent × List QueuedEvent)

/-- A child that is alive, with its event queue. -/
structure Child (σ : Type) where
  number : Nat
  state : σ
  tick_type : Nat
  queue : List QueuedEvent

/-- The module: the child tree, which attempts to create it succeed, and how many events a
queue is followed for. -/
structure Module (σ : Type) where
  tree : ChildTree σ
  creates : Nat → Bool
  fuel : Nat

/-- A tree of the engine as a child. Its leaves write the events that they queue behind
their environment. -/
def treeChild (w : World (E × List QueuedEvent)) (root : Node) (env : E) :
    ChildTree (Eng (E × List QueuedEvent)) where
  created := createdState (env, [])
  tick e s :=
    (engine.s_expr_node_tick w root e.event_id { s with env := (s.env.1, []) }).map
      fun (r, s) => (r, s, s.env.2, [])

/-! ## The history of a node -/

/-- Where a tick of the child comes from. -/
inductive Source where
  | start
  | tick
  | own
  | parent
deriving DecidableEq, Repr

inductive Entry where
  /-- INIT of the node. -/
  | init
  | created (k : Nat)
  | entered
  /-- TICK of the node. -/
  | tick (event_id event_data : Nat)
  | ticked (k : Nat) (source : Source) (e : QueuedEvent) (r : Result)
  | queued (k : Nat) (e : QueuedEvent)
  | queuedToParent (e : QueuedEvent)
  | returned
  /-- TERMINATE of the node. -/
  | terminate
  | freed (k : Nat)
deriving DecidableEq, Repr

/-- The node with its pointer slot, the event queue of its tree, and the history. -/
structure Spawner (σ : Type) where
  node : NodeState
  slot : Option (Child σ)
  queue : List QueuedEvent
  attempts : Nat
  log : List Entry

namespace Spawner

def record (s : Spawner σ) (e : Entry) : Spawner σ := { s with log := s.log ++ [e] }

def start : Spawner σ where
  node := ⟨true, false, false, .zero⟩
  slot := none
  queue := []
  attempts := 0
  log := []

end Spawner

/-! ## The node -/

/-- `s_expr_event_push` to the child. A full queue takes no event. -/
def pushToChild (e : QueuedEvent) (c : Child σ) (s : Spawner σ) : Child σ × Spawner σ :=
  if c.queue.length < S_EXPR_EVENT_QUEUE_SIZE then
    ({ c with queue := c.queue ++ [e] }, s.record (.queued c.number e))
  else (c, s)

/-- `s_expr_event_push` to the tree of the node. -/
def pushToParent (e : QueuedEvent) (s : Spawner σ) : Spawner σ :=
  if s.queue.length < S_EXPR_EVENT_QUEUE_SIZE then
    { s with queue := s.queue ++ [e] }.record (.queuedToParent e)
  else s

def pushAllToChild : List QueuedEvent → Child σ → Spawner σ → Child σ × Spawner σ
  | [], c, s => (c, s)
  | e :: es, c, s =>
    let (c, s) := pushToChild e c s
    pushAllToChild es c s

def pushAllToParent : List QueuedEvent → Spawner σ → Spawner σ
  | [], s => s
  | e :: es, s => pushAllToParent es (pushToParent e s)

def result_is_complete (result : Result) : Bool :=
  result ≠ SE_PIPELINE_CONTINUE && result ≠ SE_PIPELINE_DISABLE

/-- `s_expr_node_tick` of the child, and the events that it queues. -/
def s_expr_node_tick (m : Module σ) (source : Source) (event_id event_data : Nat) (c : Child σ)
    (s : Spawner σ) : Option (Result × Child σ × Spawner σ) := do
  let e : QueuedEvent := ⟨c.tick_type, event_id, event_data⟩
  let (r, state, own, up) ← m.tree.tick e c.state
  let (c, s) := pushAllToChild own { c with state := state } (s.record (.ticked c.number source e r))
  return (r, c, pushAllToParent up s)

/-- The loop of `tick_with_event_queue` over the events of the child. -/
def drain_own (m : Module σ) : Nat → Result → Child σ → Spawner σ →
    Option (Result × Child σ × Spawner σ)
  | 0, _, _, _ => none
  | fuel + 1, result, c, s =>
    match c.queue with
    | [] => some (result, c, s)
    | e :: rest =>
      if result_is_complete result then some (result, c, s)
      else do
        let saved_tick_type := c.tick_type
        let c := { c with queue := rest, tick_type := e.tick_type }
        let (event_result, c, s) ← s_expr_node_tick m .own e.event_id e.event_data c s
        let c := { c with tick_type := saved_tick_type }
        if result_is_complete event_result then return (event_result, c, s)
        else drain_own m fuel result c s

def tick_with_event_queue (m : Module σ) (source : Source) (event_id event_data : Nat)
    (c : Child σ) (s : Spawner σ) : Option (Result × Child σ × Spawner σ) := do
  let (result, c, s) ← s_expr_node_tick m source event_id event_data c s
  drain_own m m.fuel result c s

/-- The loop over the events of the tree of the node. -/
def drain_parent (m : Module σ) : Nat → Result → Child σ → Spawner σ →
    Option (Result × Child σ × Spawner σ)
  | 0, _, _, _ => none
  | fuel + 1, result, c, s =>
    match s.queue with
    | [] => some (result, c, s)
    | e :: rest =>
      if result_is_complete result then some (result, c, s)
      else do
        let s := { s with queue := rest }
        let saved_tick_type := c.tick_type
        let c := { c with tick_type := e.tick_type }
        let (result, c, s) ← tick_with_event_queue m .parent e.event_id e.event_data c s
        drain_parent m fuel result { c with tick_type := saved_tick_type } s

/-- The child is freed, and the slot is empty. -/
def s_expr_tree_free (c : Child σ) (s : Spawner σ) : Spawner σ :=
  { s with slot := none }.record (.freed c.number)

/-- The first branch of the node: the child is created and gets a first tick. -/
def create_child (m : Module σ) (s : Spawner σ) : Option (Result × Spawner σ) :=
  if m.creates s.attempts then do
    let c : Child σ := ⟨s.attempts, m.tree.created, 0, []⟩
    let s := { s with attempts := s.attempts + 1, slot := some c }.record (.created c.number)
    let (_, c, s) ← tick_with_event_queue m .start 0 0 c s
    let node := { s.node with data := { s.node.data with state := 1 } }
    return (SE_PIPELINE_CONTINUE, { s with slot := some c, node := node })
  else some (SE_PIPELINE_TERMINATE, { s with attempts := s.attempts + 1 })

/-- The last branch: the child gets the tick and the events. -/
def tick_child (m : Module σ) (event_id event_data : Nat) (c : Child σ) (s : Spawner σ) :
    Option (Result × Spawner σ) := do
  let (result, c, s) ← tick_with_event_queue m .tick event_id event_data c s
  let (result, c, s) ← drain_parent m m.fuel result c s
  let s := { s with slot := some c }
  if result_is_complete result then return (result, s_expr_tree_free c s)
  else return (result, s)

def se_spawn_and_tick_tree (m : Module σ) (event_type : EventType) (event_id event_data : Nat)
    (s : Spawner σ) : Option (Result × Spawner σ) :=
  if event_type = SE_EVENT_INIT ∨ s.node.data.state = 0 then create_child m s
  else if event_type = SE_EVENT_TERMINATE then
    match s.slot with
    | some c => some (SE_PIPELINE_CONTINUE, s_expr_tree_free c s)
    | none => some (SE_PIPELINE_CONTINUE, s)
  else
    match s.slot with
    | none => some (SE_PIPELINE_TERMINATE, s)
    | some c => tick_child m event_id event_data c s

/-! ## The calls of the parent -/

def first_call (m : Module σ) (event_id event_data : Nat) (s : Spawner σ) : Option (Spawner σ) :=
  if s.node.initialized then some s
  else
    let s := { s with node := { s.node with initialized := true } }.record .init
    (se_spawn_and_tick_tree m SE_EVENT_INIT event_id event_data s).map
      fun (_, s) => s.record .entered

def last_call (m : Module σ) (event_id event_data : Nat) (result : Result) (s : Spawner σ) :
    Option (Spawner σ) :=
  if result = SE_PIPELINE_DISABLE then
    (se_spawn_and_tick_tree m SE_EVENT_TERMINATE event_id event_data (s.record .terminate)).map
      fun (_, s) => { s with node := { s.node with active := false } }
  else some s

/-- `dispatch_main` for the node. -/
def dispatch_main (m : Module σ) (event_id event_data : Nat) (s : Spawner σ) :
    Option (Spawner σ) :=
  if !s.node.active then some s
  else do
    let s ← first_call m event_id event_data s
    let (result, s) ← se_spawn_and_tick_tree m SE_EVENT_TICK event_id event_data
      (s.record (.tick event_id event_data))
    last_call m event_id event_data result (s.record .returned)

/-- `s_expr_child_terminate` for the node. -/
def s_expr_child_terminate (m : Module σ) (s : Spawner σ) : Option (Spawner σ) :=
  if s.node.initialized then
    (se_spawn_and_tick_tree m SE_EVENT_TERMINATE 0 0 (s.record .terminate)).map
      fun (_, s) => { s with node := ⟨false, false, false, .zero⟩ }
  else some s

/-- `s_expr_child_reset` for the node. -/
def s_expr_child_reset (s : Spawner σ) : Spawner σ :=
  { s with node := ⟨true, false, s.node.ever_init, .zero⟩ }

/-- What the rest of the program does with the node and the queues. -/
inductive Step where
  | dispatch (event_id event_data : Nat)
  | terminate
  | reset
  | pushToChild (e : QueuedEvent)
  | pushToParent (e : QueuedEvent)
deriving DecidableEq, Repr

def step (m : Module σ) (s : Spawner σ) : Step → Option (Spawner σ)
  | .dispatch event_id event_data => dispatch_main m event_id event_data s
  | .terminate => s_expr_child_terminate m s
  | .reset => some (s_expr_child_reset s)
  | .pushToChild e =>
    match s.slot with
    | some c =>
      let (c, s) := pushToChild e c s
      some { s with slot := some c }
    | none => some s
  | .pushToParent e => some (pushToParent e s)

end motioncore.spawn
