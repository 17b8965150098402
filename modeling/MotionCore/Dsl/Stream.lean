-- The parameters of a tree as `BinaryModuleGenerator` (`s_expr_generators.lua`)
-- emits them. A call and a brace become an opening and a closing token around
-- what they hold. The generator pairs the braces again, on a stack of its own.
import Mathlib.Data.List.Sort
import MotionCore.Dsl.Builder

namespace motioncore.dsl

/-! ## The tokens -/

namespace S_EXPR_PARAM

def INT : UInt8 := 0x00
def UINT : UInt8 := 0x01
def FLOAT : UInt8 := 0x02
def STR_HASH : UInt8 := 0x03
def OPEN : UInt8 := 0x05
def CLOSE : UInt8 := 0x06
def OPEN_CALL : UInt8 := 0x07
def ONESHOT : UInt8 := 0x08
def MAIN : UInt8 := 0x09
def PRED : UInt8 := 0x0A
def FIELD : UInt8 := 0x0B
def RESULT : UInt8 := 0x0C
def STR_IDX : UInt8 := 0x0D
def CONST_REF : UInt8 := 0x0E
def OPEN_DICT : UInt8 := 0x10
def CLOSE_DICT : UInt8 := 0x11
def OPEN_KEY : UInt8 := 0x12
def CLOSE_KEY : UInt8 := 0x13
def OPEN_ARRAY : UInt8 := 0x14
def CLOSE_ARRAY : UInt8 := 0x15
def OPEN_TUPLE : UInt8 := 0x16
def CLOSE_TUPLE : UInt8 := 0x17
def STACK_TOS : UInt8 := 0x18
def STACK_LOCAL : UInt8 := 0x19
def NULL_PARAM : UInt8 := 0x1A
def STACK_PUSH : UInt8 := 0x1B
def STACK_POP : UInt8 := 0x1C

end S_EXPR_PARAM

def S_EXPR_FLAG_SURVIVES_RESET : UInt8 := 0x40
def S_EXPR_FLAG_POINTER : UInt8 := 0x80

/-- The value of a parameter: two numbers of 16 bits, or one number, whose width is that of
the module. -/
inductive Payload where
  | u16s (u16_a u16_b : UInt16)
  | number (value : Int)
  | float (value : UInt64)
deriving DecidableEq

/-- What `emit_param_struct` writes. -/
structure ParamStruct where
  param_type : UInt8
  index_to_pointer : UInt8
  payload : Payload
deriving DecidableEq

/-- A parameter with another first value. -/
def ParamStruct.withFirst (p : ParamStruct) (v : Nat) : ParamStruct :=
  match p.payload with
  | .u16s _ u16_b => { p with payload := .u16s (UInt16.ofNat v) u16_b }
  | _ => p

/-! ## Lookups -/

/-- The place of the last entry that `p` holds of, as a table that is filled in order has it. -/
def lastIndex {α : Type} (p : α → Bool) : List α → Option Nat
  | [] => none
  | a :: l =>
    match lastIndex p l with
    | some i => some (i + 1)
    | none => if p a then some 0 else none

namespace Module

def string_index (m : Module) (value : LuaString) : Nat :=
  (lastIndex (fun s => decide (s = value)) m.string_table).getD 0

def const_index (m : Module) (name : LuaString) : Nat :=
  (lastIndex (fun s => decide (s = name)) m.const_order).getD 0

/-- The function lists are searched by hash. -/
def func_index (m : Module) (call_type : CallType) (func_name : LuaString) : Nat :=
  let funcs := match call_type with
    | .o_call | .io_call => m.oneshot_funcs
    | .m_call | .pt_m_call => m.main_funcs
    | .p_call | .p_call_composite => m.pred_funcs
  (lastIndex (fun name => decide (fnv1a_32 name = fnv1a_32 func_name)) funcs).getD 0

def findField (rec : Record) (name : LuaString) : Option Field :=
  rec.fields.find? fun field => decide (field.name = name)

def resolve_field_offset (m : Module) (tree_record : Option LuaString) (field_name : LuaString) :
    Option (Nat × Nat) := do
  let name ← tree_record
  let rec ← m.records name
  let field ← findField rec field_name
  some (field.offset, field.size)

/-- The parts of a path between its dots, but for the empty ones. -/
def pathParts (path : LuaString) : List LuaString :=
  (path.splitOn 0x2E).filter fun part => decide (part ≠ [])

/-- The loop of `resolve_nested_field_offset`. A field that is no record is passed by. -/
def walk (m : Module) (current_rec : Record) (offset size : Nat) :
    List LuaString → Option (Nat × Nat)
  | [] => some (offset, size)
  | [part] => do
    let field ← findField current_rec part
    some (offset + field.offset, field.size)
  | part :: rest => do
    let field ← findField current_rec part
    let current_rec ← if field.is_embedded then field.embedded_record.bind m.records
      else some current_rec
    walk m current_rec (offset + field.offset) field.size rest

def resolve_nested_field_offset (m : Module) (tree_record : Option LuaString)
    (path : LuaString) : Option (Nat × Nat) := do
  let name ← tree_record
  let rec ← m.records name
  m.walk rec 0 0 (pathParts path)

end Module

/-! ## The parameters of a call in order -/

/-- A parameter, or a call with what it holds in order. -/
inductive Item where
  | param (p : DslParam)
  | call (func_name : LuaString) (call_type : CallType) (pointer_index : Option Nat)
      (items : List Item)

/-- `table.sort` by `order`. -/
def sortByOrder (items : List (Nat × Item)) : List (Nat × Item) :=
  items.insertionSort fun a b => a.1 ≤ b.1

mutual

/-- The parameters and the children of a call are merged, and so are those of its children. -/
def Node.call : Node → Item
  | .mk func_name call_type pointer_index _ params children =>
    let items := params.map (fun p => (p.1, Item.param p.2)) ++ Node.calls children
    .call func_name call_type pointer_index ((sortByOrder items).map (·.2))

def Node.calls : List Node → List (Nat × Item)
  | [] => []
  | .mk func_name call_type pointer_index order params children :: nodes =>
    (order, Node.call (.mk func_name call_type pointer_index order params children)) ::
      Node.calls nodes

end

mutual

/-- `count_node_params`, which leaves the closing token of the call out. -/
def Item.count : Item → Nat
  | .param _ => 1
  | .call _ _ _ items => 2 + Item.counts items

/-- A child counts with its closing token. -/
def Item.counts : List Item → Nat
  | [] => 0
  | .param _ :: items => 1 + Item.counts items
  | .call f t p inner :: items => Item.count (.call f t p inner) + 1 + Item.counts items

end

/-! ## The emitter -/

/-- An open brace: the place of its token, and its type. -/
structure OpenInfo where
  param_idx : Nat
  brace_type : BraceType

/-- What has been emitted of a tree, and the stacks, the top first. The length of `params`
is the `param_count`. -/
structure Emitter where
  params : List ParamStruct
  current_node_idx : Nat
  brace_stack : List OpenInfo
  parent_call_stack : List Nat

namespace Emitter

def param_count (e : Emitter) : Nat := e.params.length

def emit (e : Emitter) (p : ParamStruct) : Emitter := { e with params := e.params ++ [p] }

/-- How far the innermost open call is behind, and zero where there is none. -/
def current_parent_offset (e : Emitter) : Nat :=
  match e.parent_call_stack with
  | [] => 0
  | top :: _ => e.param_count - top

/-- `patch_u16` at the first value of the parameter `param_idx`. -/
def patch (e : Emitter) (param_idx v : Nat) : Emitter :=
  { e with params := e.params.modify param_idx fun p => p.withFirst v }

end Emitter

def u16Param (param_type : UInt8) (index_to_pointer u16_a u16_b : Nat) : ParamStruct :=
  ⟨param_type, UInt8.ofNat index_to_pointer, .u16s (UInt16.ofNat u16_a) (UInt16.ofNat u16_b)⟩

def numberParam (param_type : UInt8) (value : Int) : ParamStruct := ⟨param_type, 0, .number value⟩

def hashParam (param_type : UInt8) (hash : UInt32) : ParamStruct :=
  numberParam param_type hash.toNat

section

variable (m : Module) (tree_record : Option LuaString)

/-- A field that is found goes by its place, another by the hash of its name. -/
def fieldParam (place : Option (Nat × Nat)) (name : LuaString) : ParamStruct :=
  match place with
  | some (offset, size) => u16Param S_EXPR_PARAM.FIELD 0 offset size
  | none => hashParam S_EXPR_PARAM.FIELD (fnv1a_32 name)

/-- `emit_dsl_param`. -/
def leafParam : Leaf → ParamStruct
  | .int value => numberParam S_EXPR_PARAM.INT value
  | .uint value => numberParam S_EXPR_PARAM.UINT value
  | .float value => ⟨S_EXPR_PARAM.FLOAT, 0, .float value⟩
  | .str_hash str => hashParam S_EXPR_PARAM.STR_HASH (fnv1a_32 str)
  | .str_idx value => u16Param S_EXPR_PARAM.STR_IDX 0 (m.string_index value) value.length
  | .str_ptr value => u16Param S_EXPR_PARAM.STR_IDX 0 (m.string_index value) value.length
  | .field_ref name => fieldParam (m.resolve_field_offset tree_record name) name
  | .nested_field_ref path => fieldParam (m.resolve_nested_field_offset tree_record path) path
  | .const_ref name => u16Param S_EXPR_PARAM.CONST_REF 0 (m.const_index name) 0
  | .result value => numberParam S_EXPR_PARAM.RESULT value
  | .stack_push => numberParam S_EXPR_PARAM.STACK_PUSH 0
  | .stack_pop => numberParam S_EXPR_PARAM.STACK_POP 0
  | .stack_tos offset => numberParam S_EXPR_PARAM.STACK_TOS offset
  | .stack_local index => numberParam S_EXPR_PARAM.STACK_LOCAL index
  | .null_param => u16Param S_EXPR_PARAM.NULL_PARAM 0 0 0

def openCode : BraceType → UInt8
  | .list => S_EXPR_PARAM.OPEN
  | .dict => S_EXPR_PARAM.OPEN_DICT
  | .dict_key => S_EXPR_PARAM.OPEN_KEY
  | .array => S_EXPR_PARAM.OPEN_ARRAY
  | .tuple => S_EXPR_PARAM.OPEN_TUPLE

def closeCode : BraceType → UInt8
  | .list => S_EXPR_PARAM.CLOSE
  | .dict => S_EXPR_PARAM.CLOSE_DICT
  | .dict_key => S_EXPR_PARAM.CLOSE_KEY
  | .array => S_EXPR_PARAM.CLOSE_ARRAY
  | .tuple => S_EXPR_PARAM.CLOSE_TUPLE

/-- The token of a brace that opens. A key has its hash where the others have their
offsets. -/
def startParam (parent_offset : Nat) : BraceStart → ParamStruct
  | .dict_key key_str => hashParam S_EXPR_PARAM.OPEN_KEY (fnv1a_32 key_str)
  | .dict_key_hash hash_value => numberParam S_EXPR_PARAM.OPEN_KEY hash_value
  | brace => u16Param (openCode brace.brace_type) 0 0 parent_offset

def emitStart (e : Emitter) (brace : BraceStart) : Emitter :=
  let open_info : OpenInfo := ⟨e.param_count, brace.brace_type⟩
  let e := e.emit (startParam e.current_parent_offset brace)
  { e with brace_stack := open_info :: e.brace_stack }

/-- A brace that closes takes the top of the stack. Where this has its type, the two tokens
get their distance; only the token of a key does not. -/
def emitFinish (e : Emitter) (brace_type : BraceType) : Emitter :=
  let po := e.current_parent_offset
  match e.brace_stack with
  | [] => e.emit (u16Param (closeCode brace_type) 0 0 po)
  | open_info :: rest =>
    let e := { e with brace_stack := rest }
    if open_info.brace_type = brace_type then
      let brace_offset := e.param_count - open_info.param_idx
      let e := if brace_type = .dict_key then e else e.patch open_info.param_idx brace_offset
      e.emit (u16Param (closeCode brace_type) 0 brace_offset po)
    else e.emit (u16Param (closeCode brace_type) 0 0 po)

def emitParam (e : Emitter) : DslParam → Emitter
  | .leaf value => e.emit (leafParam m tree_record value)
  | .start brace => emitStart e brace
  | .finish brace_type => emitFinish e brace_type

/-- The opcode of a function, with its flag. -/
def funcCode : CallType → UInt8
  | .o_call => S_EXPR_PARAM.ONESHOT
  | .io_call => S_EXPR_PARAM.ONESHOT ||| S_EXPR_FLAG_SURVIVES_RESET
  | .m_call => S_EXPR_PARAM.MAIN
  | .pt_m_call => S_EXPR_PARAM.MAIN ||| S_EXPR_FLAG_POINTER
  | .p_call => S_EXPR_PARAM.PRED
  | .p_call_composite => S_EXPR_PARAM.PRED ||| S_EXPR_FLAG_SURVIVES_RESET

/-- `OPEN_CALL`, which becomes the parent of what follows, and the function. -/
def openCall (e : Emitter) (func_name : LuaString) (call_type : CallType) (idx_to_ptr : Nat)
    (content_count : Nat) : Emitter :=
  let node_index := e.current_node_idx
  let e := { e with current_node_idx := node_index + 1 }
  let parent := e.param_count
  let e := e.emit
    (u16Param S_EXPR_PARAM.OPEN_CALL idx_to_ptr content_count e.current_parent_offset)
  let e := { e with parent_call_stack := parent :: e.parent_call_stack }
  e.emit (u16Param (funcCode call_type) idx_to_ptr node_index (m.func_index call_type func_name))

/-- The `CLOSE` of the innermost open call. -/
def closeCall (e : Emitter) : Emitter :=
  match e.parent_call_stack with
  | [] => e
  | my_open_call_idx :: rest =>
    let e := { e with parent_call_stack := rest }
    let close_parent_offset := e.param_count - my_open_call_idx
    e.emit (u16Param S_EXPR_PARAM.CLOSE 0 close_parent_offset e.current_parent_offset)

mutual

/-- `emit_node` for a call, and what stands for a parameter. -/
def emitItem : Item → Emitter → Emitter
  | .param p, e => emitParam m tree_record e p
  | .call func_name call_type pointer_index items, e =>
    let content_count := Item.count (.call func_name call_type pointer_index items)
    let e := openCall m e func_name call_type (pointer_index.getD 0) content_count
    closeCall (emitItems items e)

def emitItems : List Item → Emitter → Emitter
  | [], e => e
  | item :: items, e => emitItems items (emitItem item e)

end

def emit_tree_params (tree : Tree) : List ParamStruct :=
  (emitItems m tree.record_name (tree.nodes.map Node.call) ⟨[], 0, [], []⟩).params

end

end motioncore.dsl
