-- The composite nodes of the behaviour-tree engine are programs. A composite asks
-- for its own state bytes and for the flags of a child, has a child invoked,
-- terminated or reset, and goes on with the answer.
import Mathlib.Tactic.Common

namespace motioncore.engine

/-! ## Result codes -/

/-- The three layers of result codes. -/
inductive Layer where
  | application
  | function
  | pipeline
deriving DecidableEq, Repr

/-- The six codes of each layer, in their order. -/
inductive Code where
  | CONTINUE | HALT | TERMINATE | RESET | DISABLE | SKIP_CONTINUE
deriving DecidableEq, Repr

structure Result where
  layer : Layer
  code : Code
deriving DecidableEq, Repr

def SE_CONTINUE : Result := ⟨.application, .CONTINUE⟩
def SE_TERMINATE : Result := ⟨.application, .TERMINATE⟩
def SE_DISABLE : Result := ⟨.application, .DISABLE⟩
def SE_FUNCTION_CONTINUE : Result := ⟨.function, .CONTINUE⟩
def SE_FUNCTION_HALT : Result := ⟨.function, .HALT⟩
def SE_FUNCTION_TERMINATE : Result := ⟨.function, .TERMINATE⟩
def SE_FUNCTION_DISABLE : Result := ⟨.function, .DISABLE⟩
def SE_PIPELINE_CONTINUE : Result := ⟨.pipeline, .CONTINUE⟩
def SE_PIPELINE_HALT : Result := ⟨.pipeline, .HALT⟩
def SE_PIPELINE_TERMINATE : Result := ⟨.pipeline, .TERMINATE⟩
def SE_PIPELINE_RESET : Result := ⟨.pipeline, .RESET⟩
def SE_PIPELINE_DISABLE : Result := ⟨.pipeline, .DISABLE⟩

/-- The three kinds of event that a main function is called with. -/
inductive EventType where
  | SE_EVENT_INIT
  | SE_EVENT_TICK
  | SE_EVENT_TERMINATE
deriving DecidableEq, Repr

/-! ## Node states and parameters -/

/-- The bytes that a function keeps in its node: eight bits of state and sixteen of
user data. -/
structure NodeData where
  state : Nat
  user_data : Nat
deriving DecidableEq, Repr

/-- The state of a node: the three system flags and the data. -/
structure NodeState where
  active : Bool
  initialized : Bool
  ever_init : Bool
  data : NodeData
deriving DecidableEq, Repr

def NodeData.zero : NodeData := ⟨0, 0⟩

inductive FuncType where
  | main
  | oneshot
  | pred
deriving DecidableEq, Repr

/-- What a composite sees of one of its parameters without asking the engine. -/
inductive ArgKind where
  | int (v : Int)
  | field (f : Nat)
  | other
  | call (t : FuncType)
deriving DecidableEq, Repr

def ArgKind.isCall : ArgKind → Bool
  | .call _ => true
  | _ => false

/-! ## Programs -/

/-- A program of a composite. Children are named by their logical index. -/
inductive Prog (α : Type) where
  | ret (a : α)
  /-- A loop that does not end. -/
  | spin
  /-- The function of a leaf node, on the node's own data. -/
  | leaf (k : Result → Prog α)
  | getData (k : NodeData → Prog α)
  | setData (d : NodeData) (k : Prog α)
  | readField (f : Nat) (k : Int → Prog α)
  | childActive (j : Nat) (k : Bool → Prog α)
  | childInitialized (j : Nat) (k : Bool → Prog α)
  | invokeAny (j : Nat) (k : Result → Prog α)
  | invokePred (j : Nat) (k : Bool → Prog α)
  | childTerminate (j : Nat) (k : Prog α)
  | childReset (j : Nat) (k : Prog α)
  | childResetRecursive (j : Nat) (k : Prog α)

namespace Prog

variable {α β : Type}

def andThen : Prog α → (α → Prog β) → Prog β
  | ret a, f => f a
  | spin, _ => spin
  | leaf k, f => leaf fun r => (k r).andThen f
  | getData k, f => getData fun d => (k d).andThen f
  | setData d k, f => setData d (k.andThen f)
  | readField fd k, f => readField fd fun v => (k v).andThen f
  | childActive j k, f => childActive j fun b => (k b).andThen f
  | childInitialized j k, f => childInitialized j fun b => (k b).andThen f
  | invokeAny j k, f => invokeAny j fun r => (k r).andThen f
  | invokePred j k, f => invokePred j fun b => (k b).andThen f
  | childTerminate j k, f => childTerminate j (k.andThen f)
  | childReset j k, f => childReset j (k.andThen f)
  | childResetRecursive j k, f => childResetRecursive j (k.andThen f)

instance : Monad Prog where
  pure := ret
  bind := andThen

end Prog

/-! ## The calls of the engine -/

def s_expr_get_state : Prog Nat := .getData fun d => .ret d.state

def s_expr_set_state (v : Nat) : Prog Unit :=
  .getData fun d => .setData { d with state := v % 256 } (.ret ())

def s_expr_get_user_flags : Prog Nat := .getData fun d => .ret d.user_data

def s_expr_set_user_flags (v : Nat) : Prog Unit :=
  .getData fun d => .setData { d with user_data := v % 65536 } (.ret ())

def field_value (f : Nat) : Prog Int := .readField f .ret

def s_expr_child_is_active (j : Nat) : Prog Bool := .childActive j .ret

def s_expr_child_is_initialized (j : Nat) : Prog Bool := .childInitialized j .ret

def s_expr_invoke_any (j : Nat) : Prog Result := .invokeAny j .ret

def s_expr_invoke_pred (j : Nat) : Prog Bool := .invokePred j .ret

def s_expr_child_terminate (j : Nat) : Prog Unit := .childTerminate j (.ret ())

def s_expr_child_reset (j : Nat) : Prog Unit := .childReset j (.ret ())

def s_expr_child_reset_recursive (j : Nat) : Prog Unit := .childResetRecursive j (.ret ())

/-- The wrapper takes an application-level DISABLE for completion. -/
def s_expr_child_invoke (j : Nat) : Prog Result := do
  let r ← s_expr_invoke_any j
  if r = SE_DISABLE then
    s_expr_child_terminate j
    return SE_CONTINUE
  else
    return r

def forEach : List Nat → (Nat → Prog Unit) → Prog Unit
  | [], _ => pure ()
  | j :: js, f => do
    f j
    forEach js f

def isCall (args : List ArgKind) (j : Nat) : Bool := (args[j]?.map ArgKind.isCall).getD false

/-- From the last child to the first: a main child is terminated, and every callable one
is reset. -/
def s_expr_children_terminate_all (args : List ArgKind) : Prog Unit :=
  forEach (List.range args.length).reverse fun j =>
    if isCall args j then do
      s_expr_child_terminate j
      s_expr_child_reset j
    else
      pure ()

def s_expr_children_reset_all (args : List ArgKind) : Prog Unit :=
  forEach (List.range args.length) fun j =>
    if isCall args j then s_expr_child_reset j else pure ()

end motioncore.engine
