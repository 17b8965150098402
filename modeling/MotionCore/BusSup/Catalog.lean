-- The command catalog of the bus supervisor (bus_supervisor/lib/bus_core.lua): how the
-- arguments of a command, as JSON values, become bytes, and how reply bytes become fields.
-- Where the Lua code raises, the functions give `none`.
import Mathlib.Algebra.Group.Int.Defs
import Mathlib.Tactic.Common

namespace motioncore.bussup

/-! ## Lua values -/

/-- A Lua value that `cjson.decode` can give, over the numbers of Lua. -/
inductive Value (ν : Type) where
  | null
  | bool (b : Bool)
  | num (x : ν)
  | str (s : String)
  | array (items : List (Value ν))
  | object (fields : List (String × Value ν))

namespace Value

variable {ν : Type}

/-- All values but `false` count as true; `cjson.null` is a value like the others. -/
def truthy : Value ν → Bool
  | .bool b => b
  | _ => true

/-- The field of a table, or `nil`. Of fields with one name the last one counts. -/
def get? (name : String) : Value ν → Option (Value ν)
  | .object fields => fields.reverse.lookup name
  | _ => none

/-- `v[name]`, where only tables and strings can be indexed. No argument has the name of a
function of the string library. -/
def index (v : Value ν) (name : String) : Option (Option (Value ν)) :=
  match v with
  | .object _ | .array _ | .str _ => some (v.get? name)
  | .null | .bool _ | .num _ => none

/-- The value can be passed to C as an `int`. -/
def isInt : Value ν → Bool
  | .num _ | .bool true => true
  | _ => false

end Value

/-- `v or default` for a value that may be `nil`. -/
def orElse {ν : Type} (v : Option (Value ν)) (default : Value ν) : Value ν :=
  match v with
  | some v => if v.truthy then v else default
  | none => default

/-- What is taken from cjson and from the arithmetic and the formatting of Lua. -/
structure Lua (ν : Type) where
  cjson_decode : List UInt8 → Option (Value ν)
  /-- `string.char(math.floor(v / 256^j) % 256)`, where `string.char` accepts it. -/
  byte : Nat → ν → Option UInt8
  /-- The number that a string stands for in arithmetic. -/
  tonumber : String → Option ν
  tostring : Value ν → String

/-! ## The catalog -/

inductive ArgType where
  | u8 | u16 | u32 | str | lenstr | hex | raw
deriving DecidableEq, Repr

structure Command where
  id : Nat
  args : List (String × ArgType)
  reply : List (String × ArgType)
deriving DecidableEq, Repr

def CATALOG : List (String × Command) := [
  ("echo", ⟨0x0001, [("text", .lenstr)], [("text", .lenstr)]⟩),
  ("sysinfo", ⟨0x0002, [], [("hex", .hex)]⟩),
  ("stack_hwm", ⟨0x0050, [], [("hwm", .u16)]⟩),
  ("gpio_config", ⟨0x0100, [("port", .u8), ("pin", .u8), ("mode", .u8)], []⟩),
  ("gpio_write", ⟨0x0101, [("port", .u8), ("pin", .u8), ("level", .u8)], []⟩),
  ("gpio_read", ⟨0x0102, [("port", .u8), ("pin", .u8)], [("level", .u8)]⟩),
  ("dac_write", ⟨0x0103, [("value", .u16)], []⟩),
  ("adc_read", ⟨0x0104, [("channel", .u8), ("oversample", .u8), ("sh", .u8)],
    [("value", .u16)]⟩),
  ("dac_follow_start", ⟨0x0108,
    [("oversample", .u8), ("sh", .u8), ("update_hz", .u16), ("pin", .str)], []⟩),
  ("dac_follow_stop", ⟨0x0109, [], []⟩),
  ("interlock_status", ⟨0x0140, [], [("hex", .hex)]⟩),
  ("interlock_disarm", ⟨0x0142, [("slot", .u8)], []⟩),
  ("interlock_set", ⟨0x0143, [("slot", .u8), ("dsl", .str)], []⟩),
  ("interlock_repush", ⟨0x0144, [], []⟩)]

/-! ## Arguments -/

section

variable {ν : Type} (lua : Lua ν)

def bytesOf (s : String) : List UInt8 := s.toUTF8.data.toList

/-- The operand of an arithmetic operation. -/
def Lua.number : Value ν → Option ν
  | .num x => some x
  | .str s => lua.tonumber s
  | _ => none

def enc (typ : ArgType) (v : Value ν) : Option (List UInt8) :=
  match typ with
  | .u8 => (lua.number v).bind fun x => [0].mapM fun j => lua.byte j x
  | .u16 => (lua.number v).bind fun x => [0, 1].mapM fun j => lua.byte j x
  | .u32 => (lua.number v).bind fun x => [0, 1, 2, 3].mapM fun j => lua.byte j x
  | .str => some (bytesOf (lua.tostring v))
  | .lenstr =>
    let s := bytesOf (lua.tostring v)
    some (UInt8.ofNat (s.length % 256) :: UInt8.ofNat (s.length / 256 % 256) :: s)
  | .hex | .raw => none

/-- The bytes of the arguments, or the name of the first one that is missing. -/
def encode (args : Value ν) : List (String × ArgType) → Option (Except String (List UInt8))
  | [] => some (.ok [])
  | (name, typ) :: rest => do
    match ← args.index name with
    | none => some (.error ("bad_args: missing '" ++ name ++ "'"))
    | some v =>
      let bytes ← enc lua typ v
      match ← encode args rest with
      | .error e => some (.error e)
      | .ok more => some (.ok (bytes ++ more))

end

/-! ## Replies -/

inductive Field where
  | num (value : Nat)
  | text (bytes : List UInt8)
  /-- The bytes are printed as hexadecimal digits. -/
  | hex (bytes : List UInt8)
deriving DecidableEq, Repr

/-- The fields of a reply, or `none` when it is short. -/
def decode : List (String × ArgType) → List UInt8 → Option (List (String × Field))
  | [], _ => some []
  | (name, .u8) :: reply, bytes =>
    match bytes with
    | b :: rest => (decode reply rest).map ((name, .num b.toNat) :: ·)
    | [] => none
  | (name, .u16) :: reply, bytes =>
    match bytes with
    | lo :: hi :: rest => (decode reply rest).map ((name, .num (lo.toNat + hi.toNat * 256)) :: ·)
    | _ => none
  | (name, .lenstr) :: reply, bytes =>
    match bytes with
    | lo :: hi :: rest =>
      let len := lo.toNat + hi.toNat * 256
      (decode reply (rest.drop len)).map ((name, .text (rest.take len)) :: ·)
    | _ => none
  | (name, .raw) :: reply, bytes => (decode reply []).map ((name, .text bytes) :: ·)
  | (name, .hex) :: reply, bytes => (decode reply []).map ((name, .hex bytes) :: ·)
  | (_, .u32) :: reply, bytes | (_, .str) :: reply, bytes => decode reply bytes

/-- The error that the status of a completed command stands for. -/
def status_err (status : Nat) : Option String :=
  if status = 0 then none
  else if status = 0xFF then some "timeout"
  else if status = 0xFE then some "link_down"
  else if status = 0xFD then some "busy"
  else some ("shell_status=" ++ toString status)

/-! ## An instance -/

/-- The request for the system information. -/
def sysinfoPayload : List UInt8 := bytesOf "\x7b\x22command\x22:\x22sysinfo\x22\x7d"

/-- Lua with integers for its numbers, and with one JSON text that it can read. -/
def integers : Lua Int where
  cjson_decode payload :=
    if payload = sysinfoPayload then some (.object [("command", .str "sysinfo")]) else none
  byte j x := some (UInt8.ofNat ((x / 256 ^ j) % 256).toNat)
  tonumber := String.toInt?
  tostring
    | .null => "userdata: NULL"
    | .bool b => toString b
    | .num x => toString x
    | .str s => s
    | .array _ | .object _ => "table"

end motioncore.bussup
