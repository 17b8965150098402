-- The roster of the bus controller (`bus_roster.c`): a table of slaves, in
-- which the address 0 marks an empty place, and the round robin over the
-- enabled ones.
import Mathlib.Data.List.FinRange
import MotionCore.Lib.Bytes

namespace motioncore.bus

abbrev BUS_ROSTER_MAX : Nat := 16

/-- The flag of a slave that is polled. -/
def BUS_FLAG_ENABLED : UInt8 := 0x02

inductive BusState where
  | unknown
  | alive
  | dead
deriving DecidableEq

/-- A place of the roster, `bus_slave_t`. -/
structure BusSlave where
  addr : UInt8
  class_id : UInt32
  flags : UInt8
  state : BusState
  consecutive_misses : UInt8
  last_seen_ms : UInt32
  /-- The state that the host was last told. -/
  announced_state : BusState
  summary : UInt8
  /-- The summary that the host was last told. -/
  announced_summary : UInt8
deriving DecidableEq

def BusSlave.empty : BusSlave where
  addr := 0
  class_id := 0
  flags := 0
  state := .unknown
  consecutive_misses := 0
  last_seen_ms := 0
  announced_state := .unknown
  summary := 0
  announced_summary := 0

abbrev BusRoster := Fin BUS_ROSTER_MAX → BusSlave

/-- The places that hold a slave, in order: `bus_roster_count` is their number,
and `bus_roster_at` reads them by index. -/
def occupied (r : BusRoster) : List (Fin BUS_ROSTER_MAX) :=
  (List.finRange BUS_ROSTER_MAX).filter fun k => (r k).addr != 0

def busRosterFind (r : BusRoster) (addr : UInt8) : Option (Fin BUS_ROSTER_MAX) :=
  if addr = 0 then none else (List.finRange BUS_ROSTER_MAX).find? fun k => (r k).addr == addr

/-- A slave that is new to the roster. The address of the master, the address
of a sniffer and an address that is taken are refused. -/
def busRosterRegister (r : BusRoster) (addr : UInt8) (class_id : UInt32) (flags : UInt8) :
    BusRoster :=
  if addr = 0 ∨ addr = 0xFF then r
  else if (busRosterFind r addr).isSome then r
  else
    match (List.finRange BUS_ROSTER_MAX).find? fun k => (r k).addr == 0 with
    | none => r
    | some k => Function.update r k { BusSlave.empty with addr, class_id, flags }

def busRosterUnregister (r : BusRoster) (addr : UInt8) : BusRoster :=
  match busRosterFind r addr with
  | none => r
  | some k => Function.update r k { r k with addr := 0 }

def busRosterClear (r : BusRoster) : BusRoster := fun k => { r k with addr := 0 }

/-- The next enabled slave at or after the cursor, in a circle. -/
def busRosterNextEnabled (r : BusRoster) (cursor : Nat) : Option (Fin BUS_ROSTER_MAX) :=
  ((List.finRange BUS_ROSTER_MAX).map fun k => Fin.ofNat BUS_ROSTER_MAX (cursor + k)).find?
    fun k => (r k).addr != 0 && (r k).flags &&& BUS_FLAG_ENABLED != 0

end motioncore.bus
