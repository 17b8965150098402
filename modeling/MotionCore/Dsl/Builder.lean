-- The DSL of the engine (`s_expr_dsl.lua`): the data that it collects for a
-- module, and the functions that build one tree, from `start_tree` to `end_tree`.
-- Open calls are on one stack and open braces on another; an error ends the
-- program. A table of Lua that is indexed by name is a map here.
import Mathlib.Tactic.Common

namespace motioncore.dsl

/-- A string of Lua is a list of bytes. -/
abbrev LuaString := List UInt8

/-- `hash_module.fnv1a_32`. The product is made of two halves, as a number of Lua does
not hold it whole. -/
def fnv1a_32 (str : LuaString) : UInt32 :=
  str.foldl (fun hash byte =>
    let hash := hash ^^^ byte.toUInt32
    let lo := hash &&& 0xFFFF
    let hi := (hash >>> 16) &&& 0xFFFF
    let prime := 0x01000193
    let lo_prod := lo * prime
    let hi_prod := hi * prime
    lo_prod + ((hi_prod &&& 0xFFFF) <<< 16)) 0x811c9dc5

/-! ## Calls and parameters -/

inductive CallType where
  | o_call | io_call | m_call | pt_m_call | p_call | p_call_composite
deriving DecidableEq

inductive BraceType where
  | list | dict | dict_key | array | tuple
deriving DecidableEq

/-- What opens a brace. A key comes as a string or as the hash of one. -/
inductive BraceStart where
  | list_start
  | dict_start
  | dict_key (key_str : LuaString)
  | dict_key_hash (hash_value : Int)
  | array_start
  | tuple_start
deriving DecidableEq

def BraceStart.brace_type : BraceStart → BraceType
  | list_start => .list
  | dict_start => .dict
  | dict_key _ => .dict_key
  | dict_key_hash _ => .dict_key
  | array_start => .array
  | tuple_start => .tuple

/-- The parameters that are no braces. A `float` is the bits of a double. -/
inductive Leaf where
  | int (value : Int)
  | uint (value : Int)
  | float (value : UInt64)
  | str_hash (str : LuaString)
  | str_idx (value : LuaString)
  | str_ptr (value : LuaString)
  | field_ref (name : LuaString)
  | nested_field_ref (path : LuaString)
  | const_ref (name : LuaString)
  | result (value : Int)
  | stack_push
  | stack_pop
  | stack_tos (offset : Nat)
  | stack_local (index : Nat)
  | null_param
deriving DecidableEq

inductive DslParam where
  | leaf (value : Leaf)
  | start (brace : BraceStart)
  | finish (brace_type : BraceType)
deriving DecidableEq

/-- A call. Its parameters and its children are kept apart, each with its place `order`
among both. -/
inductive Node where
  | mk (func_name : LuaString) (call_type : CallType) (pointer_index : Option Nat) (order : Nat)
      (params : List (Nat × DslParam)) (children : List Node)

/-! ## Records, constants and modules -/

structure Field where
  name : LuaString
  name_hash : UInt32
  type_tag : UInt8
  is_pointer : Bool
  is_char_array : Bool
  is_embedded : Bool
  is_ptr64 : Bool
  offset : Nat
  size : Nat
  array_len : Nat
  target_type : Option LuaString
  embedded_record : Option LuaString

structure Record where
  name_hash : UInt32
  fields : List Field
  size : Nat

structure Const where
  name_hash : UInt32
  record_type : LuaString
  data_bytes : List UInt8

structure Tree where
  name_hash : UInt32
  record_name : Option LuaString
  defaults_index : Nat
  nodes : List Node
  node_count : Nat
  pointer_count : Nat

/-- What `end_module` gives. A name of an order is the name of a thing of the table. -/
structure Module where
  name_hash : UInt32
  pointer_size : Nat
  debug : Bool
  records : LuaString → Option Record
  record_order : List LuaString
  constants : LuaString → Option Const
  const_order : List LuaString
  string_table : List LuaString
  oneshot_funcs : List LuaString
  main_funcs : List LuaString
  pred_funcs : List LuaString
  trees : LuaString → Option Tree
  tree_order : List LuaString
  records_known : ∀ name ∈ record_order, (records name).isSome
  constants_known : ∀ name ∈ const_order, (constants name).isSome
  trees_known : ∀ name ∈ tree_order, (trees name).isSome

def start_module (name : LuaString) (pointer_size : Nat) (debug : Bool) : Module where
  name_hash := fnv1a_32 name
  pointer_size := pointer_size
  debug := debug
  records := fun _ => none
  record_order := []
  constants := fun _ => none
  const_order := []
  string_table := []
  oneshot_funcs := []
  main_funcs := []
  pred_funcs := []
  trees := fun _ => none
  tree_order := []
  records_known := by simp
  constants_known := by simp
  trees_known := by simp

/-! ## The state of a tree in the making -/

/-- What `push_brace` makes. A marker is known by its number, and the name it may have is
only for messages. -/
structure Marker where
  id : Nat
  brace_type : BraceType
deriving DecidableEq

/-- A call that has not ended. `next_order` is its entry of the `order_stack`. -/
structure OpenCall where
  func_name : LuaString
  call_type : CallType
  pointer_index : Option Nat
  order : Nat
  params : List (Nat × DslParam)
  children : List Node
  next_order : Nat

def OpenCall.add_param (node : OpenCall) (p : DslParam) : OpenCall :=
  { node with
    params := node.params ++ [(node.next_order, p)]
    next_order := node.next_order + 1 }

def OpenCall.node (c : OpenCall) : Node :=
  .mk c.func_name c.call_type c.pointer_index c.order c.params c.children

def OpenCall.add_child (parent : OpenCall) (child : Node) : OpenCall :=
  { parent with children := parent.children ++ [child] }

/-- The outermost of the open calls, with those inside it. -/
def OpenCall.around (top : OpenCall) : List OpenCall → Node
  | [] => top.node
  | parent :: calls => (parent.add_child top.node).around calls

/-- A frame of `frame_stack`, which `se_call` and `se_frame_allocate` push and pop. -/
structure Frame where
  num_params : Nat
  num_locals : Nat
  scratch_depth : Nat

/-- The current tree and the stacks, the top first. An open call goes into its parent when
it ends: the parent gets nothing else before. -/
structure Builder where
  current_module : Module
  record_name : Option LuaString
  defaults_index : Nat
  nodes : List Node
  node_count : Nat
  pointer_count : Nat
  current_call_stack : List OpenCall
  brace_stack : List Marker
  frame_stack : List Frame
  next_marker : Nat

inductive DslError where
  | brace_stack_overflow
  | unmatched_close (expected : BraceType)
  | brace_mismatch (expected : Marker) (got : Option Nat)
  | type_mismatch (opened closed : BraceType)
  | unclosed_braces (unclosed : List Marker)
  | unclosed_frames (count : Nat)
  | no_call_to_end
  | no_call_open
  | no_active_frame
  | stack_tos_range (offset scratch_depth : Nat)
  | stack_local_range (index max : Nat)
  | unknown_constant (name : LuaString)
  | wrong_record (name : LuaString)
  | no_top_level
  | many_top_level (count : Nat)
deriving DecidableEq

def start_tree (current_module : Module) : Builder where
  current_module := current_module
  record_name := none
  defaults_index := 0xFFFF
  nodes := []
  node_count := 0
  pointer_count := 0
  current_call_stack := []
  brace_stack := []
  frame_stack := []
  next_marker := 0

namespace Builder

/-! ## Braces -/

def MAX_BRACE_STACK : Nat := 64

def push_brace (b : Builder) (brace_type : BraceType) : Except DslError Builder :=
  if MAX_BRACE_STACK ≤ b.brace_stack.length then .error .brace_stack_overflow
  else .ok { b with
    brace_stack := ⟨b.next_marker, brace_type⟩ :: b.brace_stack
    next_marker := b.next_marker + 1 }

/-- The marker that is given has to be the top one, and so has its type. -/
def pop_brace (b : Builder) (marker : Option Nat) (expected_type : BraceType) :
    Except DslError Builder :=
  match b.brace_stack with
  | [] => .error (.unmatched_close expected_type)
  | top :: rest =>
    if some top.id ≠ marker then .error (.brace_mismatch top marker)
    else if top.brace_type ≠ expected_type then .error (.type_mismatch top.brace_type expected_type)
    else .ok { b with brace_stack := rest }

/-! ## Parameters -/

def add_param (b : Builder) (p : DslParam) : Except DslError Builder :=
  match b.current_call_stack with
  | [] => .error .no_call_open
  | node :: calls => .ok { b with current_call_stack := node.add_param p :: calls }

/-- A list gets a name that it does not have. -/
def insertNew (names : List LuaString) (name : LuaString) : List LuaString :=
  if name ∈ names then names else names ++ [name]

/-- `str` and `str_ptr` put their string into the table first. -/
def add_string (b : Builder) : Leaf → Builder
  | .str_idx value | .str_ptr value =>
    { b with
      current_module := { b.current_module with
        string_table := insertNew b.current_module.string_table value } }
  | _ => b

/-- The checks of `stack_tos` and `stack_local`. -/
def check_frame (b : Builder) : Leaf → Except DslError Unit
  | .stack_tos offset =>
    match b.frame_stack with
    | [] => .error .no_active_frame
    | frame :: _ =>
      if frame.scratch_depth ≤ offset then .error (.stack_tos_range offset frame.scratch_depth)
      else .ok ()
  | .stack_local index =>
    match b.frame_stack with
    | [] => .error .no_active_frame
    | frame :: _ =>
      let max := frame.num_params + frame.num_locals
      if max ≤ index then .error (.stack_local_range index max) else .ok ()
  | _ => .ok ()

/-- `int`, `uint`, `flt`, `str` and the other functions that add one parameter. -/
def add_leaf (b : Builder) (value : Leaf) : Except DslError Builder := do
  b.check_frame value
  (b.add_string value).add_param (.leaf value)

/-- `list_start`, `dict_start`, `dict_key`, `key_hash`, `array_start` and `tuple_start`. -/
def brace_start (b : Builder) (brace : BraceStart) : Except DslError Builder := do
  let b ← b.push_brace brace.brace_type
  b.add_param (.start brace)

/-- `list_end`, `dict_end`, `end_dict_key`, `array_end` and `tuple_end`. -/
def brace_end (b : Builder) (marker : Option Nat) (brace_type : BraceType) :
    Except DslError Builder := do
  let b ← b.pop_brace marker brace_type
  b.add_param (.finish brace_type)

/-! ## Calls -/

/-- The function list that a call goes to gets its function. -/
def add_func (m : Module) (func_name : LuaString) : CallType → Module
  | .o_call | .io_call => { m with oneshot_funcs := insertNew m.oneshot_funcs func_name }
  | .m_call | .pt_m_call => { m with main_funcs := insertNew m.main_funcs func_name }
  | .p_call | .p_call_composite => { m with pred_funcs := insertNew m.pred_funcs func_name }

/-- The parent of a new call gives it the next of its orders. -/
def take_order : List OpenCall → Nat × List OpenCall
  | [] => (0, [])
  | parent :: calls =>
    (parent.next_order, { parent with next_order := parent.next_order + 1 } :: calls)

def start_call (b : Builder) (func_name : LuaString) (call_type : CallType) : Builder :=
  let (order, calls) := take_order b.current_call_stack
  let pointer := call_type = .pt_m_call
  let node : OpenCall := {
    func_name, call_type, order
    pointer_index := if pointer then some b.pointer_count else none
    params := [], children := [], next_order := 0 }
  { b with
    current_module := add_func b.current_module func_name call_type
    pointer_count := if pointer then b.pointer_count + 1 else b.pointer_count
    current_call_stack := node :: calls
    node_count := b.node_count + 1 }

/-- A call that ends goes into the call around it, or else into the tree. -/
def close_call (b : Builder) (top : OpenCall) : List OpenCall → Builder
  | [] => { b with nodes := b.nodes ++ [top.node], current_call_stack := [] }
  | parent :: calls =>
    { b with current_call_stack := parent.add_child top.node :: calls }

/-- `end_call` looks neither at the node it is given nor at the braces. -/
def end_call (b : Builder) (_node : Option Nat) : Except DslError Builder :=
  match b.current_call_stack with
  | [] => .error .no_call_to_end
  | top :: calls => .ok (b.close_call top calls)

/-! ## The tree -/

def use_record (b : Builder) (name : LuaString) : Builder := { b with record_name := some name }

/-- A tree that has a record takes only constants of this record. -/
def use_defaults (b : Builder) (const_name : LuaString) : Except DslError Builder :=
  match b.current_module.constants const_name with
  | none => .error (.unknown_constant const_name)
  | some cnst =>
    if b.record_name.any (fun record => decide (cnst.record_type ≠ record)) then
      .error (.wrong_record const_name)
    else
      let index := b.current_module.const_order.findIdx? fun name => decide (name = const_name)
      .ok { b with defaults_index := index.getD b.defaults_index }

/-- The calls that are still open are in the tree as well. -/
def with_open_calls (b : Builder) : Builder :=
  match b.current_call_stack with
  | [] => b
  | top :: calls => { b with nodes := b.nodes ++ [top.around calls], current_call_stack := [] }

/-- `end_tree`. It does not ask for the calls that are open. -/
def end_tree (b : Builder) (name_hash : UInt32) : Except DslError (Module × Tree) :=
  if b.brace_stack ≠ [] then .error (.unclosed_braces b.brace_stack)
  else if b.frame_stack ≠ [] then .error (.unclosed_frames b.frame_stack.length)
  else
    let b := b.with_open_calls
    match b.nodes.length with
    | 0 => .error .no_top_level
    | 1 => .ok (b.current_module, {
        name_hash, record_name := b.record_name, defaults_index := b.defaults_index
        nodes := b.nodes, node_count := b.node_count, pointer_count := b.pointer_count })
    | n => .error (.many_top_level n)

end Builder

/-! ## Programs -/

/-- A call of a function of the DSL, with the values that decide what it does. -/
inductive Op where
  | add_leaf (value : Leaf)
  | brace_start (brace : BraceStart)
  | brace_end (marker : Option Nat) (brace_type : BraceType)
  | start_call (func_name : LuaString) (call_type : CallType)
  | end_call (node : Option Nat)
  | use_record (name : LuaString)
  | use_defaults (const_name : LuaString)
  | frame_push (frame : Frame)
  | frame_pop

namespace Op

def int (value : Int) : Op := .add_leaf (.int value)
def uint (value : Int) : Op := .add_leaf (.uint value)
def str (value : LuaString) : Op := .add_leaf (.str_idx value)
def str_ptr (value : LuaString) : Op := .add_leaf (.str_ptr value)
def str_hash (value : LuaString) : Op := .add_leaf (.str_hash value)
def field_ref (name : LuaString) : Op := .add_leaf (.field_ref name)
def nested_field_ref (path : LuaString) : Op := .add_leaf (.nested_field_ref path)
def const_ref (name : LuaString) : Op := .add_leaf (.const_ref name)
def stack_push : Op := .add_leaf .stack_push
def stack_pop : Op := .add_leaf .stack_pop
def stack_tos (offset : Nat) : Op := .add_leaf (.stack_tos offset)
def stack_local (index : Nat) : Op := .add_leaf (.stack_local index)
def null_param : Op := .add_leaf .null_param

def list_start : Op := .brace_start .list_start
def list_end (marker : Option Nat) : Op := .brace_end marker .list
def dict_start : Op := .brace_start .dict_start
def dict_end (marker : Option Nat) : Op := .brace_end marker .dict
def dict_key (key_str : LuaString) : Op := .brace_start (.dict_key key_str)
def key_hash (hash_value : Int) : Op := .brace_start (.dict_key_hash hash_value)
def array_start : Op := .brace_start .array_start
def tuple_start : Op := .brace_start .tuple_start

def o_call (func_name : LuaString) : Op := .start_call func_name .o_call
def m_call (func_name : LuaString) : Op := .start_call func_name .m_call
def p_call (func_name : LuaString) : Op := .start_call func_name .p_call
def pt_m_call (func_name : LuaString) : Op := .start_call func_name .pt_m_call
def io_call (func_name : LuaString) : Op := .start_call func_name .io_call
def p_call_composite (func_name : LuaString) : Op := .start_call func_name .p_call_composite

end Op

def step (b : Builder) : Op → Except DslError Builder
  | .add_leaf value => b.add_leaf value
  | .brace_start brace => b.brace_start brace
  | .brace_end marker brace_type => b.brace_end marker brace_type
  | .start_call func_name call_type => .ok (b.start_call func_name call_type)
  | .end_call node => b.end_call node
  | .use_record name => .ok (b.use_record name)
  | .use_defaults const_name => b.use_defaults const_name
  | .frame_push frame => .ok { b with frame_stack := frame :: b.frame_stack }
  | .frame_pop => .ok { b with frame_stack := b.frame_stack.tail }

def run (b : Builder) (ops : List Op) : Except DslError Builder := ops.foldlM step b

/-- The tree of a program between `start_tree` and `end_tree`, with the module behind it. -/
def build (m : Module) (name : LuaString) (ops : List Op) : Except DslError (Module × Tree) := do
  let b ← run (start_tree m) ops
  b.end_tree (fnv1a_32 name)

end motioncore.dsl
