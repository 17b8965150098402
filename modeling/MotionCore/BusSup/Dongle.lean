-- The bus supervisor (bus_supervisor/chains/bus_sup_user_functions.lua, lib/bus_core.lua and
-- main.lua): the phase machine of each dongle, its bus, and the operational gate of the
-- supervisor. The runtime, the bus core in C and the clients are the environment.
import Mathlib.Data.Fintype.Basic
import MotionCore.BusSup.Catalog

namespace motioncore.bussup

/-! ## State -/

/-- What the config file of a dongle says. The index for bring-up is the place of the file. -/
structure Config where
  addr : Nat
  fail_after : Nat
  chip_uid : Option String
deriving DecidableEq, Repr

/-- Microseconds. -/
abbrev Time := Int

def seconds (n : Int) : Time := n * 1000000

def PROVISION_TIMEOUT_S : Time := seconds 10

inductive Phase where
  | wait_turn | provisioning | verify | serving | fault
deriving DecidableEq, Repr

inductive Presence where
  | present | missing
deriving DecidableEq, Repr

/-- A request that waits for its command to complete. -/
structure Pending where
  request : Nat
  name : String
  cmd : Command
deriving DecidableEq, Repr

/-- An open bus: the callbacks of the commands in flight by handle, and whether a handler for
the other events is set. -/
structure Bus where
  pending : List (Nat × Pending)
  on_event : Bool
deriving DecidableEq, Repr

/-- The state of a dongle node in one incarnation. -/
structure NodeData where
  k : Nat
  ticks : Nat
  force_fault : Bool
  phase : Phase
  open_after : Time
  prov_deadline : Time
  chip_uid : Option String
  bus : Option Bus
deriving DecidableEq, Repr

/-- The node of a dongle. It fails when DONGLE_SERVE asks to disable it. -/
inductive Node where
  | disabled
  | enabled (ns : NodeData)
  | failed (ns : NodeData)
deriving DecidableEq, Repr

structure Health where
  state : Presence
  chip_uid : Option String
deriving DecidableEq, Repr

structure Interlock where
  tripped : Bool
  tf : Option UInt8
deriving DecidableEq, Repr

/-- What a dongle keeps over its incarnations. -/
structure Runtime where
  g_health : Health
  g_il : Interlock
  t_cat : Option Time
  t_hb : Option Time
deriving DecidableEq, Repr

inductive Reply where
  | faulting
  | result (fields : List (String × Field))
  | error (text : String)
deriving DecidableEq, Repr

inductive Event (n : Nat) where
  | opened (i : Fin n)
  | serving (i : Fin n)
  | terminated (i : Fin n)
  /-- The leaves that are published for a dongle. -/
  | catalog (i : Fin n)
  | health (i : Fin n) (health : Health)
  | interlock (i : Fin n) (il : Interlock)
  | reconcile (i : Fin n) (status : Presence)
  | operational (op : Bool) (reason : String)
  | gate_down
  /-- A liveness event was handled. -/
  | liveness (i : Fin n) (addr status : Nat)
  /-- A request was taken from the command queue, and one was answered. -/
  | taken (i : Fin n) (request : Nat) (payload : List UInt8)
  | answered (i : Fin n) (request : Nat) (reply : Reply)
deriving DecidableEq, Repr

structure System (n : Nat) where
  nodes : Fin n → Node
  rts : Fin n → Runtime
  brought_up : Nat
  dongle_serving : Fin n → Bool
  bind_counts : Fin n → Nat
  bus_operational : Option Bool
  /-- How many requests were taken. -/
  requests : Nat
  log : List (Event n)

def System.init (n : Nat) : System n where
  nodes _ := .disabled
  rts _ := ⟨⟨.missing, none⟩, ⟨false, none⟩, none, none⟩
  brought_up := 0
  dongle_serving _ := false
  bind_counts _ := 0
  bus_operational := none
  requests := 0
  log := []

/-! ## The environment -/

/-- An event that is drained from the bus core. -/
structure CtrlEvent where
  kind : Nat
  addr : Nat
  status : Nat
  aux : Nat
  handle : Nat
  data : List UInt8
deriving DecidableEq, Repr

/-- What the environment does during one tick of a dongle. -/
structure Tick where
  now : Time
  /-- `bus_open` gives a controller. -/
  opened : Bool
  drained : List CtrlEvent
  provisioned : Bool
  prov_failed : Bool
  /-- The chip uid that REGISTER reported. -/
  identity : Option String
  /-- The payloads that wait in the command queue. -/
  requests : List (List UInt8)
  /-- What `bus_submit` gives for a request: a handle, or 0. -/
  handle : Nat → Nat

inductive Step (n : Nat) where
  /-- The node is enabled, and its init function runs. -/
  | enable (i : Fin n) (now : Time)
  | tick (i : Fin n) (t : Tick)
  /-- The node is disabled, and its termination function runs. -/
  | disable (i : Fin n)
  | gate_down
  | publish

/-! ## Serving -/

/-- What a tick of a dongle that has a bus works on. -/
structure Work (n : Nat) where
  bus : Bus
  force_fault : Bool
  rt : Runtime
  requests : Nat
  log : List (Event n)

variable {n : Nat} {ν : Type}

def Work.note (w : Work n) (e : Event n) : Work n := { w with log := w.log ++ [e] }

/-- The callback of a completed command. -/
def Pending.complete (p : Pending) (ev : CtrlEvent) : Reply :=
  match status_err ev.status with
  | some err => .error err
  | none => .result ((decode p.cmd.reply ev.data).getD [])

/-- The handler that `enter_serving` sets. -/
def Work.handle (i : Fin n) (ev : CtrlEvent) (w : Work n) : Work n :=
  if ev.kind = 4 then
    let state := if ev.status = 1 then Presence.present else .missing
    let rt := { w.rt with g_health := { w.rt.g_health with state := state } }
    (({ w with rt := rt }).note (.liveness i ev.addr ev.status)).note (.health i rt.g_health)
  else if ev.kind = 2 then
    let rt := { w.rt with g_il := { w.rt.g_il with tripped := ev.aux % 2 = 1 } }
    ({ w with rt := rt }).note (.interlock i rt.g_il)
  else if ev.kind = 3 then
    let tf := if ev.data.length ≥ 6 then ev.data[5]? else w.rt.g_il.tf
    let rt := { w.rt with g_il := { w.rt.g_il with tf := tf } }
    ({ w with rt := rt }).note (.interlock i rt.g_il)
  else w

def Work.event (i : Fin n) (w : Work n) (ev : CtrlEvent) : Work n :=
  if ev.kind = 1 then
    match w.bus.pending.lookup ev.handle with
    | some p =>
      let bus := { w.bus with pending := w.bus.pending.filter fun entry => entry.1 ≠ ev.handle }
      ({ w with bus := bus }).note (.answered i p.request (p.complete ev))
    | none => w
  else if w.bus.on_event then w.handle i ev
  else w

/-- `Bus:poll`. -/
def Work.poll (i : Fin n) (drained : List CtrlEvent) (w : Work n) : Work n :=
  drained.foldl (Work.event i) w

section

variable (lua : Lua ν)

/-- `Bus:_submit` for a request, with the callback that answers it. -/
def Work.submit (i : Fin n) (handle : Nat → Nat) (id : Nat) (command : Value ν) (j : Value ν)
    (w : Work n) : Option (Work n) := do
  let admin := (orElse (j.get? "admin") (.bool false)).truthy
  let cmd := match command with
    | .str name => (CATALOG.lookup name).map (name, ·)
    | _ => none
  match cmd with
  | none => some (w.note (.answered i id (.error ("unknown_command: " ++ lua.tostring command))))
  | some (name, cmd) =>
    match ← encode lua (orElse (j.get? "args") (.object [])) cmd.args with
    | .error e => some (w.note (.answered i id (.error e)))
    | .ok _ =>
      -- the timeout is converted for the gated lane only; 1000 is an int
      if admin ∨ (((j.get? "timeout_ms").filter Value.truthy).all Value.isInt) then
        let h := handle id
        if h = 0 then some (w.note (.answered i id (.error "busy: queue full")))
        else
          let others := w.bus.pending.filter fun entry => entry.1 ≠ h
          some { w with bus := { w.bus with pending := (h, ⟨id, name, cmd⟩) :: others } }
      else none

/-- One request of the command queue. -/
def Work.serve (i : Fin n) (handle : Nat → Nat) (w : Work n) (payload : List UInt8) :
    Option (Work n) :=
  let id := w.requests
  let w := ({ w with requests := id + 1 }).note (.taken i id payload)
  match (lua.cjson_decode payload).bind fun j => (j.get? "command").map (j, ·) with
  | some (j, command) =>
    if command.truthy then
      match command with
      | .str "__fault" => some (({ w with force_fault := true }).note (.answered i id .faulting))
      | _ => w.submit lua i handle id command j
    else some (w.note (.answered i id (.error "bad request")))
  | none => some (w.note (.answered i id (.error "bad request")))

def elapsed (now : Time) (last : Option Time) (period : Time) : Bool :=
  now - last.getD (seconds (-100)) ≥ period

def Work.catalog (i : Fin n) (now : Time) (w : Work n) : Work n :=
  if elapsed now w.rt.t_cat (seconds 5) then
    ({ w with rt := { w.rt with t_cat := some now } }).note (.catalog i)
  else w

/-- So are the health and the reconcile leaf. -/
def Work.heartbeat (i : Fin n) (now : Time) (w : Work n) : Work n :=
  if elapsed now w.rt.t_hb (seconds 3) then
    (({ w with rt := { w.rt with t_hb := some now } }).note (.health i w.rt.g_health)).note
      (.reconcile i .present)
  else w

end

/-! ## The phases -/

variable (config : Fin n → Config) (lua : Lua ν)

def System.setNode (s : System n) (i : Fin n) (node : Node) : System n :=
  { s with nodes := Function.update s.nodes i node }

def System.note (s : System n) (e : Event n) : System n := { s with log := s.log ++ [e] }

/-- The work of a tick is put back. -/
def System.put (s : System n) (i : Fin n) (w : Work n) : System n :=
  { s with rts := Function.update s.rts i w.rt, requests := w.requests, log := w.log }

def System.work (s : System n) (i : Fin n) (ns : NodeData) (bus : Bus) : Work n :=
  ⟨bus, ns.force_fault, s.rts i, s.requests, s.log⟩

/-- Allocates, and waits for its turn. A restart opens no sooner than its backoff. -/
def DONGLE_BIND (s : System n) (i : Fin n) (now : Time) : System n :=
  let attempt := s.bind_counts i + 1
  { s with bind_counts := Function.update s.bind_counts i attempt }.setNode i (.enabled {
    k := i.val + 1
    ticks := 0
    force_fault := false
    phase := .wait_turn
    open_after := now + min (seconds ((attempt - 1) * 3)) (seconds 6)
    prov_deadline := 0
    chip_uid := none
    bus := none })

def wait_turn (s : System n) (i : Fin n) (ns : NodeData) (t : Tick) : System n :=
  if s.brought_up < ns.k - 1 then s
  else if t.now < ns.open_after then s
  else if t.opened then
    (s.note (.opened i)).setNode i (.enabled { ns with
      bus := some ⟨[], false⟩
      prov_deadline := t.now + PROVISION_TIMEOUT_S
      phase := .provisioning })
  else s.setNode i (.enabled { ns with phase := .fault })

/-- `provision_step` pumps the bus and asks the core. -/
def provisioning (s : System n) (i : Fin n) (ns : NodeData) (t : Tick) : System n :=
  match ns.bus with
  | none => s.setNode i (.enabled { ns with phase := .fault })
  | some bus =>
    let w := (s.work i ns bus).poll i t.drained
    let phase :=
      if t.provisioned then .verify
      else if t.prov_failed ∨ t.now > ns.prov_deadline then .fault
      else .provisioning
    (s.put i w).setNode i (.enabled { ns with bus := some w.bus, phase := phase })

def enter_serving (s : System n) (i : Fin n) (ns : NodeData) : System n :=
  let rt := { s.rts i with g_health := ⟨.present, ns.chip_uid⟩, g_il := ⟨false, none⟩ }
  { s with
    rts := Function.update s.rts i rt
    dongle_serving := Function.update s.dongle_serving i true
    brought_up := max s.brought_up ns.k
    log := s.log ++ [.health i rt.g_health, .reconcile i .present, .serving i] }

/-- The chip uid is checked against the pin. -/
def verify (s : System n) (i : Fin n) (ns : NodeData) (t : Tick) : System n :=
  let ns := { ns with chip_uid := if ns.bus.isSome then t.identity else none }
  if (config i).chip_uid.isSome ∧ ns.chip_uid ≠ (config i).chip_uid then
    s.setNode i (.enabled { ns with phase := .fault })
  else
    (enter_serving s i ns).setNode i (.enabled { ns with
      bus := ns.bus.map fun bus => { bus with on_event := true }
      phase := .serving })

def serving (s : System n) (i : Fin n) (ns : NodeData) (t : Tick) : Option (System n) :=
  match ns.bus with
  | none => some (s.setNode i (.enabled { ns with phase := .fault }))
  | some bus => do
    let w := (s.work i ns bus).poll i t.drained
    let w ← t.requests.foldlM (Work.serve lua i t.handle) w
    let w := (w.catalog i t.now).heartbeat i t.now
    let ns := { ns with bus := some w.bus, force_fault := w.force_fault, ticks := ns.ticks + 1 }
    let s := s.put i w
    if ns.force_fault ∨ ((config i).fail_after > 0 ∧ ns.ticks ≥ (config i).fail_after) then
      some ({ s with dongle_serving := Function.update s.dongle_serving i false }.setNode i
        (.failed ns))
    else some (s.setNode i (.enabled ns))

def DONGLE_SERVE (s : System n) (i : Fin n) (ns : NodeData) (t : Tick) : Option (System n) :=
  match ns.phase with
  | .wait_turn => some (wait_turn s i ns t)
  | .provisioning => some (provisioning s i ns t)
  | .verify => some (verify config s i ns t)
  | .fault => some (s.setNode i (.failed ns))
  | .serving => serving config lua s i ns t

/-- Closes the bus, with the callbacks that it holds. -/
def DONGLE_TERM (s : System n) (i : Fin n) : System n :=
  let health := { (s.rts i).g_health with state := .missing }
  let s' : System n := { s with
    rts := Function.update s.rts i { s.rts i with g_health := health }
    dongle_serving := Function.update s.dongle_serving i false
    log := s.log ++ [.terminated i, .health i health, .reconcile i .missing] }
  s'.setNode i .disabled

def BUS_GATE_DOWN (s : System n) : System n :=
  { s with
    bus_operational := some false
    log := s.log ++ [.gate_down, .operational false "dongle restart limit exceeded"] }

/-! ## The supervisor -/

/-- How many dongles are serving. -/
def System.servingCount (s : System n) : Nat := (List.finRange n).countP s.dongle_serving

def publish_operational (s : System n) : System n :=
  let latched_down := s.bus_operational = some false
  let op := ¬ latched_down ∧ s.servingCount = n
  let reason :=
    if latched_down then "gate down (restart limit exceeded)"
    else if op then "all " ++ toString n ++ " dongle(s) serving"
    else toString s.servingCount ++ "/" ++ toString n ++ " dongle(s) serving"
  s.note (.operational op reason)

/-- One step of the supervisor, or `none` when it raises or the step is not possible. -/
def step (s : System n) : Step n → Option (System n)
  | .enable i now =>
    match s.nodes i with
    | .disabled => some (DONGLE_BIND s i now)
    | _ => none
  | .tick i t =>
    match s.nodes i with
    | .enabled ns => DONGLE_SERVE config lua s i ns t
    | _ => none
  | .disable i =>
    match s.nodes i with
    | .disabled => none
    | _ => some (DONGLE_TERM s i)
  | .gate_down => some (BUS_GATE_DOWN s)
  | .publish => some (publish_operational s)

end motioncore.bussup
