-- The chain-flow engine for AVR (cfl_avr/runtime/cfl_engine.c): its tables, the
-- state in RAM, the event queue, and the functions of the engine as programs that
-- call the user functions of a module. A user function may call the engine again.
import MotionCore.Lib.Callbacks
import MotionCore.Lib.Ring

namespace motioncore.cfl

open motioncore.callbacks
open motioncore.ring (Ring)

/-! ## The tables in flash -/

/-- The return codes of a node. A user function may return a value that is none of them. -/
inductive Status where
  | CFL_CONTINUE | CFL_HALT | CFL_DISABLE | CFL_RESET | CFL_TERMINATE
  | other (value : Nat)
deriving DecidableEq, Repr

inductive Kind where
  | CFL_KIND_NOP | CFL_KIND_M_CALL | CFL_KIND_ONE_SHOT | CFL_KIND_TIME_DELAY
  | CFL_KIND_ENABLE_CHAINS | CFL_KIND_DISABLE_CHAINS | CFL_KIND_RESET_SELF
  | CFL_KIND_TERMINATE_SELF | CFL_KIND_WHILE | CFL_KIND_VERIFY | CFL_KIND_INIT_TERM
  /-- A byte that names no kind the engine knows. -/
  | other (kind : Nat)
deriving DecidableEq, Repr

def CFL_FN_NONE : Nat := 0xFF
def CFL_EVENT_INIT : Nat := 0
def CFL_EVENT_TERMINATE : Nat := 1
def CFL_EVENT_TIME_TICK : Nat := 2

structure NodeDesc where
  kind : Kind
  fn_idx : Nat
  fn_idx_2 : Nat
  param_count : Nat
  param_off : Nat

structure ChainDesc where
  node_first : Nat
  node_count : Nat
  auto_start : Bool

def ChainDesc.nodes (cd : ChainDesc) : List Nat := List.range' cd.node_first cd.node_count

def ChainDesc.Apart (a b : ChainDesc) : Prop := ∀ n ∈ a.nodes, n ∉ b.nodes

instance (a b : ChainDesc) : Decidable (a.Apart b) := by
  unfold ChainDesc.Apart
  infer_instance

/-- The const half of an application. Each chain owns a contiguous range of nodes. -/
structure Module where
  chains : List ChainDesc
  nodes : List NodeDesc
  params_pool : List Nat
  chain_count_le : chains.length ≤ 255
  node_count_le : nodes.length ≤ 255
  in_range : ∀ cd ∈ chains, cd.node_first + cd.node_count ≤ nodes.length
  own : chains.Pairwise ChainDesc.Apart

def Module.chain_count (m : Module) : Nat := m.chains.length

def Module.chain (m : Module) (c : Nat) : ChainDesc := m.chains.getD c ⟨0, 0, false⟩

def Module.nodesOf (m : Module) (c : Nat) : List Nat := (m.chain c).nodes

def Module.node (m : Module) (n : Nat) : NodeDesc :=
  m.nodes.getD n ⟨.CFL_KIND_NOP, CFL_FN_NONE, CFL_FN_NONE, 0, 0⟩

def cfl_node_param (m : Module) (node_idx param_idx : Nat) : Nat :=
  m.params_pool.getD ((m.node node_idx).param_off + param_idx) 0

def cfl_node_param_count (m : Module) (node_idx : Nat) : Nat := (m.node node_idx).param_count

/-- The function in slot 0 or 1 of a node, if one is attached. -/
def node_fn (m : Module) (n_idx : Nat) : Option Nat :=
  if (m.node n_idx).fn_idx = CFL_FN_NONE then none else some (m.node n_idx).fn_idx

def node_fn_2 (m : Module) (n_idx : Nat) : Option Nat :=
  if (m.node n_idx).fn_idx_2 = CFL_FN_NONE then none else some (m.node n_idx).fn_idx_2

/-! ## The state in RAM -/

/-- The value of `current_chain` when no chain is current. -/
def NO_CHAIN : Nat := 0xFF

/-- The engine without its queue. The bitmaps are read by the index of the bit. -/
structure Engine where
  chain_enable : Nat → Bool
  node_enable : Nat → Bool
  node_initialized : Nat → Bool
  node_scratch : Nat → Nat
  current_chain : Nat

def bm_set (bm : Nat → Bool) (idx : Nat) : Nat → Bool := fun i => if i = idx then true else bm i

def bm_clr (bm : Nat → Bool) (idx : Nat) : Nat → Bool := fun i => if i = idx then false else bm i

def cfl_node_scratch_set (eng : Engine) (node_idx value : Nat) : Engine :=
  { eng with node_scratch := fun i => if i = node_idx then value else eng.node_scratch i }

/-! ## The event queue -/

structure QueuedEvent where
  event_id : Nat
  event_data : Nat
deriving DecidableEq, Repr

def CFL_EVENT_QUEUE_SIZE : Nat := 16

/-- The queue of the engine: it is written at `q_rx` and read at `q_tx`. -/
structure EventQueue where
  queue : Fin CFL_EVENT_QUEUE_SIZE → QueuedEvent
  q_rx : Fin CFL_EVENT_QUEUE_SIZE
  q_tx : Fin CFL_EVENT_QUEUE_SIZE
  q_count : Nat
  q_count_le : q_count ≤ CFL_EVENT_QUEUE_SIZE
  q_rx_eq : q_rx = Ring.after q_tx q_count

/-- The next index: the one bit in front of the mask falls off. -/
def nextIndex (i : Fin CFL_EVENT_QUEUE_SIZE) : Fin CFL_EVENT_QUEUE_SIZE :=
  ⟨(i.val + 1) &&& (CFL_EVENT_QUEUE_SIZE - 1), by
    have hmask : (i.val + 1) &&& (2 ^ 4 - 1) = (i.val + 1) % 2 ^ 4 :=
      Nat.and_two_pow_sub_one_eq_mod _ _
    have hlt : (i.val + 1) % 2 ^ 4 < 16 := Nat.mod_lt _ (by decide)
    simpa [CFL_EVENT_QUEUE_SIZE, hmask] using hmask ▸ hlt⟩

theorem nextIndex_eq (i : Fin CFL_EVENT_QUEUE_SIZE) : nextIndex i = Ring.after i 1 := by
  apply Fin.ext
  have hmask : (i.val + 1) &&& (2 ^ 4 - 1) = (i.val + 1) % 2 ^ 4 :=
    Nat.and_two_pow_sub_one_eq_mod _ _
  simpa [nextIndex, Ring.after, CFL_EVENT_QUEUE_SIZE] using hmask

/-- `cfl_send_event_isr` without its panic: a full queue takes nothing. -/
def EventQueue.send (q : EventQueue) (ev : QueuedEvent) : Option EventQueue :=
  if h : q.q_count < CFL_EVENT_QUEUE_SIZE then
    some {
      queue := fun i => if i = q.q_rx then ev else q.queue i
      q_rx := nextIndex q.q_rx
      q_tx := q.q_tx
      q_count := q.q_count + 1
      q_count_le := h
      q_rx_eq := by rw [nextIndex_eq, q.q_rx_eq, Ring.after_after] }
  else none

/-- `queue_pop`, with what it writes to `out`. -/
def EventQueue.pop (q : EventQueue) : Option (QueuedEvent × EventQueue) :=
  if h : 0 < q.q_count then
    some (q.queue q.q_tx, {
      queue := q.queue
      q_rx := q.q_rx
      q_tx := nextIndex q.q_tx
      q_count := q.q_count - 1
      q_count_le := Nat.le_trans (Nat.sub_le _ _) q.q_count_le
      q_rx_eq := by
        rw [nextIndex_eq, Ring.after_after, q.q_rx_eq]
        congr 1
        omega })
  else none

def EventQueue.empty : EventQueue where
  queue := fun _ => ⟨0, 0⟩
  q_rx := ⟨0, by decide⟩
  q_tx := ⟨0, by decide⟩
  q_count := 0
  q_count_le := Nat.zero_le _
  q_rx_eq := by decide

def EventQueue.pending (q : EventQueue) : List QueuedEvent :=
  (List.range q.q_count).map fun k => q.queue (Ring.after q.q_tx k)

theorem EventQueue.pending_send {q q' : EventQueue} {ev : QueuedEvent} (h : q.send ev = some q') :
    q'.pending = q.pending ++ [ev] := by
  unfold EventQueue.send at h
  split at h
  · rename_i hlt
    cases h
    simp only [EventQueue.pending, List.range_succ, List.map_append, List.map_cons, List.map_nil]
    congr 1
    · apply List.map_congr_left
      intro k hk
      rw [if_neg]
      rw [q.q_rx_eq]
      exact Ring.after_ne (List.mem_range.mp hk) hlt
    · rw [if_pos q.q_rx_eq.symm]
  · cases h

theorem EventQueue.pending_pop {q q' : EventQueue} {ev : QueuedEvent}
    (h : q.pop = some (ev, q')) : q.pending = ev :: q'.pending := by
  unfold EventQueue.pop at h
  split at h
  · rename_i hlt
    cases h
    obtain ⟨n, hn⟩ := Nat.exists_eq_succ_of_ne_zero (Nat.pos_iff_ne_zero.mp hlt)
    simp only [EventQueue.pending, hn, Nat.succ_eq_add_one, Nat.add_sub_cancel,
      List.range_succ_eq_map, List.map_cons, List.map_map]
    congr 1
    · rw [Ring.after_zero]
    · apply List.map_congr_left
      intro k _
      rw [Function.comp_apply, nextIndex_eq, Ring.after_after, Nat.add_comm]
  · cases h

/-- The queue with all that was ever posted on it, oldest first. -/
structure Events where
  queue : EventQueue
  posted : List QueuedEvent

def Events.send (w : Events) (ev : QueuedEvent) : Option Events :=
  (w.queue.send ev).map fun queue => ⟨queue, w.posted ++ [ev]⟩

/-! ## What the programs note -/

/-- The notes of the engine. Nothing in the engine reads them. -/
inductive Note where
  /-- A handler gets a callback. -/
  | callback (node event_id : Nat)
  /-- A chain is armed. -/
  | arms (chain : Nat)
  /-- The first and the last of a sweep that terminates a chain. -/
  | sweep (chain : Nat)
  | swept (chain : Nat)
  /-- The pump takes an event from the queue. -/
  | pops (ev : QueuedEvent)
  /-- The turn of a chain, with its enable bit, and of a node of it. -/
  | turn (chain : Nat) (enabled : Bool)
  | visit (node : Nat) (enabled : Bool)
  | inits (node : Nat)
  | offers (node : Nat) (ev : QueuedEvent)
  | verdict (node : Nat) (r : Status)
deriving DecidableEq, Repr

structure UserCall where
  fn : Nat
  node_idx : Nat
  event_id : Nat
  event_data : Nat
deriving DecidableEq, Repr

/-- What the main code and the user functions may call. -/
inductive Entry where
  | cfl_engine_pump
  | cfl_chain_enable (chain_id : Nat)
  | cfl_chain_disable (chain_id : Nat)
  | cfl_chain_reset (chain_id : Nat)
  | cfl_send_event (ev : QueuedEvent)
  | cfl_engine_time_tick (elapsed_ms : Nat)
  | cfl_node_scratch_set (node_idx value : Nat)
deriving DecidableEq, Repr

/-- What an interrupt may call. -/
inductive Isr where
  | cfl_send_event_isr (ev : QueuedEvent)

abbrev setting : Setting where
  State := Engine
  Device := Events
  Told := Option QueuedEvent
  Note := Note
  Callee := UserCall
  Answer := Status
  Entry := Entry
  Other := Isr

abbrev Code := Prog setting

def get : Code Engine := .read .ret

def modify (f : Engine → Engine) : Code Unit := .write f (.ret ())

def note (e : Note) : Code Unit := .note e (.ret ())

def callFn (fn n_idx event_id event_data : Nat) : Code Status :=
  .call ⟨fn, n_idx, event_id, event_data⟩ .ret

/-- The hook runs, and then nothing does. -/
def cfl_panic {α : Type} : Code α := .halt

/-! ## Chains -/

def self_modify_guard (chain_id : Nat) : Code Unit := do
  let eng ← get
  if eng.current_chain ≠ NO_CHAIN ∧ eng.current_chain = chain_id then
    cfl_panic

def armNode (eng : Engine) (n_idx : Nat) : Engine :=
  { eng with
    node_enable := bm_set eng.node_enable n_idx
    node_initialized := bm_clr eng.node_initialized n_idx
    node_scratch := fun i => if i = n_idx then 0 else eng.node_scratch i }

def clearNode (eng : Engine) (n_idx : Nat) : Engine :=
  { eng with
    node_enable := bm_clr eng.node_enable n_idx
    node_initialized := bm_clr eng.node_initialized n_idx
    node_scratch := fun i => if i = n_idx then 0 else eng.node_scratch i }

/-- The chain is enabled with all its nodes, which are not initialized. -/
def armChain (m : Module) (chain_id : Nat) (eng : Engine) : Engine :=
  (m.nodesOf chain_id).foldl armNode { eng with chain_enable := bm_set eng.chain_enable chain_id }

def clearChain (m : Module) (chain_id : Nat) (eng : Engine) : Engine :=
  (m.nodesOf chain_id).foldl clearNode
    { eng with chain_enable := bm_clr eng.chain_enable chain_id }

def chain_enable_internal (m : Module) (chain_id : Nat) : Code Unit := do
  note (.arms chain_id)
  modify (armChain m chain_id)

def cfl_chain_enable (m : Module) (chain_id : Nat) : Code Unit := do
  if m.chain_count ≤ chain_id then
    cfl_panic
  self_modify_guard chain_id
  chain_enable_internal m chain_id

/-! ## The handlers of the kinds -/

/-- `node_handle`, with the `cfl_chain_disable` it calls: this one comes back to the
handlers, but for TERMINATE only, which disables nothing. -/
def handleWith (disable : Nat → Code Unit) (m : Module) (n_idx event_id event_data : Nat) :
    Code Status := do
  note (.callback n_idx event_id)
  match (m.node n_idx).kind with
  | .CFL_KIND_NOP => pure .CFL_CONTINUE
  | .CFL_KIND_M_CALL =>
    match node_fn m n_idx with
    | none => pure .CFL_CONTINUE
    | some fn => callFn fn n_idx event_id event_data
  | .CFL_KIND_ONE_SHOT =>
    if event_id = CFL_EVENT_INIT then
      match node_fn m n_idx with
      | none => pure .CFL_CONTINUE
      | some fn => do
        let _ ← callFn fn n_idx event_id event_data
        pure .CFL_CONTINUE
    else if event_id = CFL_EVENT_TERMINATE then
      pure .CFL_CONTINUE
    else
      pure .CFL_DISABLE
  | .CFL_KIND_TIME_DELAY =>
    if event_id = CFL_EVENT_INIT then do
      modify fun eng => cfl_node_scratch_set eng n_idx 0
      pure .CFL_CONTINUE
    else if event_id = CFL_EVENT_TERMINATE then
      pure .CFL_CONTINUE
    else if event_id = CFL_EVENT_TIME_TICK then do
      let eng ← get
      let sum := min (eng.node_scratch n_idx + event_data) 0xFFFF
      modify fun eng => cfl_node_scratch_set eng n_idx sum
      pure (if cfl_node_param m n_idx 0 ≤ sum then .CFL_DISABLE else .CFL_HALT)
    else
      pure .CFL_HALT
  | .CFL_KIND_ENABLE_CHAINS =>
    if event_id = CFL_EVENT_INIT then do
      Prog.forEach (List.range (cfl_node_param_count m n_idx)) fun i =>
        cfl_chain_enable m (cfl_node_param m n_idx i % 256)
      pure .CFL_CONTINUE
    else if event_id = CFL_EVENT_TERMINATE then
      pure .CFL_CONTINUE
    else
      pure .CFL_DISABLE
  | .CFL_KIND_DISABLE_CHAINS =>
    if event_id = CFL_EVENT_INIT then do
      Prog.forEach (List.range (cfl_node_param_count m n_idx)) fun i =>
        disable (cfl_node_param m n_idx i % 256)
      pure .CFL_CONTINUE
    else if event_id = CFL_EVENT_TERMINATE then
      pure .CFL_CONTINUE
    else
      pure .CFL_DISABLE
  | .CFL_KIND_RESET_SELF =>
    if event_id = CFL_EVENT_INIT ∨ event_id = CFL_EVENT_TERMINATE then
      pure .CFL_CONTINUE
    else
      pure .CFL_RESET
  | .CFL_KIND_TERMINATE_SELF =>
    if event_id = CFL_EVENT_INIT ∨ event_id = CFL_EVENT_TERMINATE then
      pure .CFL_CONTINUE
    else
      pure .CFL_TERMINATE
  | .CFL_KIND_WHILE =>
    if event_id = CFL_EVENT_INIT ∨ event_id = CFL_EVENT_TERMINATE then
      pure .CFL_CONTINUE
    else
      match node_fn m n_idx with
      | none => pure .CFL_DISABLE
      | some fn => do
        let r ← callFn fn n_idx event_id event_data
        pure (if r = .CFL_CONTINUE then .CFL_HALT else r)
  | .CFL_KIND_VERIFY =>
    if event_id = CFL_EVENT_INIT ∨ event_id = CFL_EVENT_TERMINATE then
      pure .CFL_CONTINUE
    else
      match node_fn m n_idx with
      | none => pure .CFL_CONTINUE
      | some fn => do
        let r ← callFn fn n_idx event_id event_data
        pure (if r = .CFL_CONTINUE then .CFL_CONTINUE else .CFL_RESET)
  | .CFL_KIND_INIT_TERM =>
    if event_id = CFL_EVENT_INIT then
      match node_fn m n_idx with
      | none => pure .CFL_CONTINUE
      | some fn => do
        let _ ← callFn fn n_idx event_id event_data
        pure .CFL_CONTINUE
    else if event_id = CFL_EVENT_TERMINATE then
      match node_fn_2 m n_idx with
      | none => pure .CFL_CONTINUE
      | some fn => do
        let _ ← callFn fn n_idx event_id event_data
        pure .CFL_CONTINUE
    else
      pure .CFL_CONTINUE
  | .other _ => cfl_panic

def node_synth_terminate (m : Module) (n_idx : Nat) : Code Unit := do
  let eng ← get
  if eng.node_initialized n_idx then
    let _ ← handleWith (fun _ => cfl_panic) m n_idx CFL_EVENT_TERMINATE 0

/-! ## Disabling chains -/

/-- The sweep is in reverse order, and all bits are cleared behind it. -/
def chain_disable_internal (m : Module) (chain_id : Nat) : Code Unit := do
  note (.sweep chain_id)
  Prog.forEach (m.nodesOf chain_id).reverse (node_synth_terminate m)
  modify (clearChain m chain_id)
  note (.swept chain_id)

def cfl_chain_disable (m : Module) (chain_id : Nat) : Code Unit := do
  if m.chain_count ≤ chain_id then
    cfl_panic
  self_modify_guard chain_id
  chain_disable_internal m chain_id

def cfl_chain_reset (m : Module) (chain_id : Nat) : Code Unit := do
  if m.chain_count ≤ chain_id then
    cfl_panic
  self_modify_guard chain_id
  chain_disable_internal m chain_id
  chain_enable_internal m chain_id

def node_handle (m : Module) (n_idx event_id event_data : Nat) : Code Status :=
  handleWith (cfl_chain_disable m) m n_idx event_id event_data

def chain_reset_self (m : Module) (chain_id : Nat) : Code Unit := do
  chain_disable_internal m chain_id
  chain_enable_internal m chain_id

def chain_terminate_self (m : Module) (chain_id : Nat) : Code Unit :=
  chain_disable_internal m chain_id

/-! ## The queue -/

def cfl_send_event (ev : QueuedEvent) : Code Unit :=
  .use (fun w => match w.send ev with
    | some w' => (some ev, w')
    | none => (none, w)) (fun _ => none) fun taken =>
  match taken with
  | some _ => pure ()
  | none => cfl_panic

def cfl_engine_time_tick (elapsed_ms : Nat) : Code Unit :=
  cfl_send_event ⟨CFL_EVENT_TIME_TICK, elapsed_ms⟩

def queue_pop : Code (Option QueuedEvent) :=
  .use (fun w => match w.queue.pop with
    | some (ev, queue) => (some ev, { w with queue := queue })
    | none => (none, w)) (fun taken => taken.map .pops) .ret

/-! ## Dispatch -/

/-- INIT for a node that had none since it was armed. -/
def init_node (m : Module) (n_idx : Nat) : Code Unit := do
  let eng ← get
  if eng.node_initialized n_idx = false then
    note (.inits n_idx)
    let _ ← node_handle m n_idx CFL_EVENT_INIT 0
    modify fun eng => { eng with node_initialized := bm_set eng.node_initialized n_idx }

def dispatch_nodes (m : Module) (c : Nat) (ev : QueuedEvent) : List Nat → Code Unit
  | [] => pure ()
  | n_idx :: rest => do
    let eng ← get
    note (.visit n_idx (eng.node_enable n_idx))
    if eng.node_enable n_idx = false then
      dispatch_nodes m c ev rest
    else
      init_node m n_idx
      note (.offers n_idx ev)
      let r ← node_handle m n_idx ev.event_id ev.event_data
      note (.verdict n_idx r)
      match r with
      | .CFL_CONTINUE => dispatch_nodes m c ev rest
      | .CFL_HALT => pure ()
      | .CFL_DISABLE => do
        node_synth_terminate m n_idx
        modify fun eng => clearNode eng n_idx
        dispatch_nodes m c ev rest
      | .CFL_RESET => chain_reset_self m c
      | .CFL_TERMINATE => chain_terminate_self m c
      | .other _ => cfl_panic

def dispatch_chain (m : Module) (c : Nat) (ev : QueuedEvent) : Code Unit :=
  dispatch_nodes m c ev (m.nodesOf c)

def chain_turn (m : Module) (ev : QueuedEvent) (c : Nat) : Code Unit := do
  let eng ← get
  note (.turn c (eng.chain_enable c))
  if eng.chain_enable c then
    modify fun eng => { eng with current_chain := c }
    dispatch_chain m c ev

/-- One round of the loop of the pump, which goes on until the queue is empty. -/
def cfl_engine_pump (m : Module) : Code (Option Entry) := do
  match ← queue_pop with
  | none => pure none
  | some ev => do
    Prog.forEach (List.range m.chain_count) (chain_turn m ev)
    modify fun eng => { eng with current_chain := NO_CHAIN }
    pure (some .cfl_engine_pump)

/-! ## The whole engine -/

/-- A call that comes back at once, after its program. -/
def once (p : Code Unit) : Code (Option Entry) := do
  p
  pure none

def entryOf (m : Module) : Entry → Code (Option Entry)
  | .cfl_engine_pump => cfl_engine_pump m
  | .cfl_chain_enable chain_id => once (cfl_chain_enable m chain_id)
  | .cfl_chain_disable chain_id => once (cfl_chain_disable m chain_id)
  | .cfl_chain_reset chain_id => once (cfl_chain_reset m chain_id)
  | .cfl_send_event ev => once (cfl_send_event ev)
  | .cfl_engine_time_tick elapsed_ms => once (cfl_engine_time_tick elapsed_ms)
  | .cfl_node_scratch_set node_idx value =>
    once (modify fun eng => cfl_node_scratch_set eng node_idx value)

def engine (m : Module) : System setting where
  entry := entryOf m
  other
    | .cfl_send_event_isr ev, w => w.send ev

/-- The state that `cfl_engine_init` leaves: the chains with `auto_start` are armed. -/
def initState (m : Module) : Engine :=
  (List.range m.chain_count).foldl
    (fun eng c => if (m.chain c).auto_start then armChain m c eng else eng)
    ⟨fun _ => false, fun _ => false, fun _ => false, fun _ => 0, NO_CHAIN⟩

/-- The engine behind `cfl_engine_init`. -/
def cfl_engine_init (m : Module) : Machine setting := .start (initState m) ⟨.empty, []⟩

abbrev step (m : Module) : Machine setting → Act setting → Option (Machine setting) :=
  Machine.step (engine m)

end motioncore.cfl
