-- The parameters of a call as the runtime walks over them: a logical parameter is one token, or a
-- group from its opening to its closing token. `s_expr_invoke_params` looks for the first call
-- among them.
import MotionCore.Dsl.Nesting

open motioncore.brackets

namespace motioncore.params

open dsl (ParamStruct role)
open dsl.S_EXPR_PARAM

/-! ## The walk -/

def UINT16_MAX : UInt16 := 0xFFFF

/-- What is read where an index is past the parameters. The code below does not get there. -/
def noParam : ParamStruct := ⟨NULL_PARAM, 0, .u16s 0 0⟩

def paramAt (params : List ParamStruct) (idx : UInt16) : ParamStruct := params.getD idx.toNat noParam

/-- The `brace_idx` of a parameter, as its bytes give it whatever they are meant for. -/
def braceU16 (p : ParamStruct) : UInt16 :=
  match p.payload with
  | .u16s u16_a _ => u16_a
  | .number value => UInt16.ofInt value
  | .float value => value.toUInt16

def isOpen (opcode : UInt8) : Bool :=
  opcode = OPEN || opcode = OPEN_CALL || opcode = OPEN_DICT || opcode = OPEN_ARRAY ||
    opcode = OPEN_TUPLE || opcode = OPEN_KEY

def skip_logical_param (params : List ParamStruct) (idx : UInt16) : UInt16 :=
  if isOpen (paramAt params idx).opcode then idx + braceU16 (paramAt params idx) + 1 else idx + 1

/-- The loop, with what is left of the logical index. -/
def child_index_from (params : List ParamStruct) : Nat → UInt16 → UInt16
  | left, idx =>
    if idx.toNat < params.length then
      match left with
      | 0 => idx
      | left + 1 => child_index_from params left (skip_logical_param params idx)
    else UINT16_MAX

def s_expr_child_index (params : List ParamStruct) (logical_index : UInt16) : UInt16 :=
  child_index_from params logical_index.toNat 0

def s_expr_child_is_callable (params : List ParamStruct) (logical_index : UInt16) : Bool :=
  let phys_idx := s_expr_child_index params logical_index
  phys_idx ≠ UINT16_MAX && (paramAt params phys_idx).opcode = OPEN_CALL

/-! ## Calls -/

/-- A function that is dispatched, with its arguments. -/
structure Call where
  func : ParamStruct
  args : List ParamStruct
deriving DecidableEq

def isFunc (p : ParamStruct) : Bool := p.opcode = MAIN || p.opcode = ONESHOT || p.opcode = PRED

/-- The arguments of the call at `idx`. -/
def argsAt (params : List ParamStruct) (idx : UInt16) : List ParamStruct :=
  let close_idx := idx + braceU16 (paramAt params idx)
  let arg_count := if idx.toNat + 2 < close_idx.toNat then close_idx.toNat - idx.toNat - 2 else 0
  (params.drop (idx.toNat + 2)).take arg_count

/-- What `s_expr_invoke_any` dispatches, or `none` where it raises an exception. -/
def s_expr_invoke_any (params : List ParamStruct) (idx : UInt16) : Option Call :=
  if (paramAt params idx).opcode = OPEN_CALL then
    let func_param := params.getD (idx.toNat + 1) noParam
    if isFunc func_param then some ⟨func_param, argsAt params idx⟩ else none
  else if isFunc (paramAt params idx) then some ⟨paramAt params idx, []⟩
  else none

inductive Outcome where
  /-- There is no call. -/
  | exception
  /-- `s_expr_invoke_any` at a physical index, with what it dispatches. -/
  | invoked (idx : Nat) (call : Option Call)
deriving DecidableEq

/-- The loop asks by logical index, and invokes by the same number. -/
def s_expr_invoke_params (params : List ParamStruct) : Outcome :=
  match (List.range params.length).find? fun i => s_expr_child_is_callable params (UInt16.ofNat i) with
  | none => .exception
  | some i => .invoked i (s_expr_invoke_any params (UInt16.ofNat i))

/-! ## Logical parameters -/

/-- A token, a group of tokens that is balanced inside, or a call. A group has its distance. -/
inductive Logical : List ParamStruct → Prop
  | plain {p : ParamStruct} : role p = .plain → Logical [p]
  | group {o c : ParamStruct} {k : UInt8} {body : List ParamStruct} : role o = .opens k →
      o.opcode ≠ OPEN_CALL → o.brace_idx = some (body.length + 1) → role c = .closes k →
      Balanced role body → Logical (o :: (body ++ [c]))
  | call {o f c : ParamStruct} {args : List ParamStruct} : o.opcode = OPEN_CALL →
      o.brace_idx = some (args.length + 2) → isFunc f → role c = .closes CLOSE →
      Balanced role args → Logical (o :: f :: (args ++ [c]))

def isCall (c : List ParamStruct) : Bool := c.head?.any fun o => o.opcode = OPEN_CALL

def callOf : List ParamStruct → Option Call
  | _ :: f :: rest => some ⟨f, rest.dropLast⟩
  | _ => none

/-- The first logical parameter that is a call is invoked, where it stands. -/
def InvokesFirst (cs : List (List ParamStruct)) : Prop :=
  s_expr_invoke_params cs.flatten =
    match cs.findIdx? isCall with
    | none => .exception
    | some k => .invoked (cs.take k).flatten.length (callOf (cs.getD k []))

/-- No group stands before the first call. -/
def SinglesFirst (cs : List (List ParamStruct)) : Prop :=
  ∀ k, cs.findIdx? isCall = some k → ∀ c ∈ cs.take k, c.length = 1

variable {p : ParamStruct}

theorem braceU16_eq {n : Nat} (h : p.brace_idx = some n) : (braceU16 p).toNat = n := by
  unfold ParamStruct.brace_idx at h
  unfold braceU16
  split at h
  · next heq =>
    rw [heq]
    exact Option.some.inj h
  · cases h

theorem isOpen_opens {k : UInt8} (h : role p = .opens k) : isOpen p.opcode = true := by
  rw [role, dsl.codeRole] at h
  unfold isOpen
  split at h
  · next heq => rcases heq with heq | heq <;> simp [heq]
  · split at h
    · next heq => simp [heq]
    · split at h
      · next heq => simp [heq]
      · split at h
        · next heq => simp [heq]
        · split at h
          · next heq => simp [heq]
          · split at h <;> cases h

theorem isOpen_plain (h : role p = .plain) : isOpen p.opcode = false := by
  rw [role, dsl.codeRole] at h
  unfold isOpen
  split at h
  · cases h
  · split at h
    · cases h
    · split at h
      · cases h
      · split at h
        · cases h
        · split at h
          · cases h
          · simp_all

theorem Logical.ne_nil {c : List ParamStruct} (h : Logical c) : c ≠ [] := by
  cases h <;> simp

section

variable (pre post : List ParamStruct) {c : List ParamStruct}

theorem at_start (hc : c ≠ []) (hlen : (pre ++ c ++ post).length < 65536) :
    ∃ o, c.head? = some o ∧ paramAt (pre ++ c ++ post) (UInt16.ofNat pre.length) = o := by
  obtain ⟨o, rest, rfl⟩ := List.exists_cons_of_ne_nil hc
  refine ⟨o, rfl, ?_⟩
  simp only [List.length_append, List.length_cons] at hlen
  have hidx : (UInt16.ofNat pre.length).toNat = pre.length := by
    rw [UInt16.toNat_ofNat']
    exact Nat.mod_eq_of_lt (by omega)
  simp [paramAt, hidx, List.getD_eq_getElem?_getD]

theorem skip_logical (h : Logical c) (hlen : (pre ++ c ++ post).length < 65536) :
    skip_logical_param (pre ++ c ++ post) (UInt16.ofNat pre.length) = UInt16.ofNat (pre.length + c.length) := by
  obtain ⟨o, hhead, hat⟩ := at_start pre post h.ne_nil hlen
  have hadd : ∀ n, pre.length + n + 1 = pre.length + c.length → pre.length + c.length < 65536 →
      braceU16 o = UInt16.ofNat n → UInt16.ofNat pre.length + braceU16 o + 1 = UInt16.ofNat (pre.length + c.length) := by
    rintro n hn - hbrace
    rw [hbrace, ← hn]
    simp
  have hlt : pre.length + c.length < 65536 := by
    simp only [List.length_append] at hlen
    omega
  have hbrace : ∀ n, o.brace_idx = some n → braceU16 o = UInt16.ofNat n := by
    intro n hn
    rw [← braceU16_eq hn]
    simp
  unfold skip_logical_param
  rw [hat]
  cases h with
  | plain hp =>
    obtain rfl := Option.some.inj hhead
    rw [isOpen_plain hp]
    simp
  | group hopen _ hidx _ _ =>
    obtain rfl := Option.some.inj hhead
    rw [isOpen_opens hopen, if_pos rfl]
    exact hadd _ (by simp; omega) hlt (hbrace _ hidx)
  | @call o' _ _ _ hop hidx _ _ _ =>
    have hopen : isOpen o'.opcode = true := by simp [isOpen, hop]
    obtain rfl := Option.some.inj hhead
    rw [hopen, if_pos rfl]
    exact hadd _ (by simp; omega) hlt (hbrace _ hidx)

end

/-- The place of a logical parameter is behind all those before it. -/
theorem child_index_from_eq {cs : List (List ParamStruct)} (hcs : ∀ c ∈ cs, Logical c)
    (pre : List ParamStruct) (hlen : (pre ++ cs.flatten).length < 65536) (left : Nat) :
    child_index_from (pre ++ cs.flatten) left (UInt16.ofNat pre.length) =
      if left < cs.length then UInt16.ofNat (pre.length + (cs.take left).flatten.length) else UINT16_MAX := by
  have hidx : (UInt16.ofNat pre.length).toNat = pre.length := by
    rw [List.length_append] at hlen
    rw [UInt16.toNat_ofNat']
    exact Nat.mod_eq_of_lt (by omega)
  induction cs generalizing pre left with
  | nil =>
    unfold child_index_from
    simp [hidx]
  | cons c cs ih =>
    have hc := hcs c List.mem_cons_self
    have hpos := List.length_pos_iff.mpr hc.ne_nil
    have hin : pre.length < (pre ++ (c :: cs).flatten).length := by
      simp
      omega
    unfold child_index_from
    rw [hidx, if_pos hin]
    cases left with
    | zero => simp
    | succ left =>
      have hassoc : pre ++ (c :: cs).flatten = pre ++ c ++ cs.flatten := by simp
      have hlen' : (pre ++ c ++ cs.flatten).length < 65536 := hassoc ▸ hlen
      dsimp only
      rw [hassoc, skip_logical pre cs.flatten hc hlen']
      have hrest := ih (fun c hc => hcs c (List.mem_cons_of_mem _ hc)) (pre ++ c) hlen' left (by
        rw [UInt16.toNat_ofNat']
        rw [List.length_append] at hlen'
        exact Nat.mod_eq_of_lt (by omega))
      rw [List.length_append] at hrest
      rw [hrest]
      simp [Nat.add_assoc]

section

variable {cs : List (List ParamStruct)}
variable {k : Nat}

theorem flatten_split (cs : List (List ParamStruct)) (hk : k < cs.length) :
    cs.flatten = (cs.take k).flatten ++ cs[k] ++ (cs.drop (k + 1)).flatten := by
  have hdrop : cs.drop k = cs[k] :: cs.drop (k + 1) := List.drop_eq_getElem_cons hk
  conv => lhs; rw [← List.take_append_drop k cs]
  rw [List.flatten_append, hdrop, List.flatten_cons, List.append_assoc]

theorem length_flatten_take (hcs : ∀ c ∈ cs, Logical c) (k : Nat) : (cs.take k).length ≤ (cs.take k).flatten.length := by
  induction cs generalizing k with
  | nil => simp
  | cons c cs ih =>
    cases k with
    | zero => simp
    | succ k =>
      have hpos := List.length_pos_iff.mpr (hcs c List.mem_cons_self).ne_nil
      have hrest := ih (fun c hc => hcs c (List.mem_cons_of_mem _ hc)) k
      simp only [List.take_succ_cons, List.length_cons, List.flatten_cons, List.length_append]
      omega

/-- The places of the logical parameters are their numbers just where they are single tokens. -/
theorem length_flatten_take_eq (hcs : ∀ c ∈ cs, Logical c) (hk : k ≤ cs.length) :
    (cs.take k).flatten.length = k ↔ ∀ c ∈ cs.take k, c.length = 1 := by
  induction cs generalizing k with
  | nil =>
    obtain rfl : k = 0 := by simpa using hk
    simp
  | cons c cs ih =>
    cases k with
    | zero => simp
    | succ k =>
      have hrest : ∀ c ∈ cs, Logical c := fun c hc => hcs c (List.mem_cons_of_mem _ hc)
      have hk' : k ≤ cs.length := by simpa using hk
      have hpos := List.length_pos_iff.mpr (hcs c List.mem_cons_self).ne_nil
      have hle := length_flatten_take hrest k
      rw [List.length_take_of_le hk'] at hle
      rw [List.take_succ_cons, List.flatten_cons, List.length_append, List.forall_mem_cons, ← ih hrest hk']
      omega

theorem child_index_eq (hcs : ∀ c ∈ cs, Logical c) (hlen : cs.flatten.length < 65536)
    (hk : k < 65536) : s_expr_child_index cs.flatten (UInt16.ofNat k) =
      if k < cs.length then UInt16.ofNat (cs.take k).flatten.length else UINT16_MAX := by
  have hfrom := child_index_from_eq hcs [] (by simpa using hlen) k
  have hk' : (UInt16.ofNat k).toNat = k := by
    rw [UInt16.toNat_ofNat']
    exact Nat.mod_eq_of_lt hk
  simpa [s_expr_child_index, hk'] using hfrom

theorem place_lt (hcs : ∀ c ∈ cs, Logical c) (hk : k < cs.length) :
    (cs.take k).flatten.length < cs.flatten.length := by
  have hpos := List.length_pos_iff.mpr (hcs cs[k] (List.getElem_mem hk)).ne_nil
  rw [flatten_split cs hk, List.length_append, List.length_append]
  omega

theorem callable_iff (hcs : ∀ c ∈ cs, Logical c) (hlen : cs.flatten.length < 65536)
    (hk : k < 65536) :
    s_expr_child_is_callable cs.flatten (UInt16.ofNat k) = true ↔ ∃ h : k < cs.length, isCall cs[k] = true := by
  rw [s_expr_child_is_callable, child_index_eq hcs hlen hk]
  by_cases hin : k < cs.length
  · have hplace := place_lt hcs hin
    obtain ⟨o, hhead, hat⟩ := at_start (cs.take k).flatten (cs.drop (k + 1)).flatten
      (hcs cs[k] (List.getElem_mem hin)).ne_nil (by rw [← flatten_split cs hin]; exact hlen)
    rw [← flatten_split cs hin] at hat
    have hmax : UInt16.ofNat (cs.take k).flatten.length ≠ UINT16_MAX := by
      intro heq
      have hnat := congrArg UInt16.toNat heq
      rw [UInt16.toNat_ofNat', Nat.mod_eq_of_lt (by omega)] at hnat
      have hval : UINT16_MAX.toNat = 65535 := rfl
      omega
    simp only [hin, if_true, hat, exists_true_left, isCall, hhead, Option.any_some, hmax, ne_eq,
      not_false_eq_true, decide_true, Bool.true_and]
  · simp only [hin, if_false]
    simp

/-- The loop finds the logical index of the first call. -/
theorem find_callable (hcs : ∀ c ∈ cs, Logical c) (hlen : cs.flatten.length < 65536) :
    ((List.range cs.flatten.length).find? fun i => s_expr_child_is_callable cs.flatten (UInt16.ofNat i)) =
      cs.findIdx? isCall := by
  have hcount : cs.length ≤ cs.flatten.length := by
    have hle := length_flatten_take hcs cs.length
    rwa [List.take_length] at hle
  cases hfind : cs.findIdx? isCall with
  | none =>
    rw [List.find?_eq_none]
    intro i hi
    have hi := List.mem_range.mp hi
    rw [callable_iff hcs hlen (by omega)]
    rintro ⟨hin, hcall⟩
    have hnone := List.findIdx?_eq_none_iff.mp hfind cs[i] (List.getElem_mem hin)
    rw [hnone] at hcall
    cases hcall
  | some k =>
    obtain ⟨hk, hcall, hbefore⟩ := List.findIdx?_eq_some_iff_getElem.mp hfind
    rw [List.find?_range_eq_some]
    refine ⟨(callable_iff hcs hlen (by omega)).mpr ⟨hk, hcall⟩, List.mem_range.mpr (by omega), fun j hj => ?_⟩
    rw [Bool.not_eq_true', ← Bool.not_eq_true, callable_iff hcs hlen (by omega)]
    rintro ⟨_, hearlier⟩
    exact hbefore j hj hearlier

/-- `s_expr_invoke_any` at a call dispatches its function with its arguments. -/
theorem invoke_at_call (pre post : List ParamStruct) {c : List ParamStruct} (hc : Logical c) (hcall : isCall c = true)
    (hlen : (pre ++ c ++ post).length < 65536) :
    s_expr_invoke_any (pre ++ c ++ post) (UInt16.ofNat pre.length) = callOf c := by
  obtain ⟨o, hhead, hat⟩ := at_start pre post hc.ne_nil hlen
  have hidx : (UInt16.ofNat pre.length).toNat = pre.length := by
    simp only [List.length_append] at hlen
    rw [UInt16.toNat_ofNat']
    exact Nat.mod_eq_of_lt (by omega)
  cases hc with
  | @plain p hp =>
    have hop : p.opcode = OPEN_CALL := by simpa [isCall] using hcall
    have hclosed := isOpen_plain hp
    rw [hop] at hclosed
    cases hclosed
  | group _ hop _ _ _ =>
    exact absurd (by simpa [isCall] using hcall) hop
  | @call o' f c' args hop hbrace hf _ _ =>
    obtain rfl := Option.some.inj hhead
    have hclose : (UInt16.ofNat pre.length + braceU16 o').toNat = pre.length + (args.length + 2) := by
      have hlt : pre.length + (args.length + 2) < 65536 := by
        simp only [List.length_append, List.length_cons] at hlen
        omega
      rw [UInt16.toNat_add, hidx, braceU16_eq hbrace]
      exact Nat.mod_eq_of_lt hlt
    have hfunc : (pre ++ (o' :: f :: (args ++ [c'])) ++ post).getD (pre.length + 1) noParam = f := by
      simp [List.getD_eq_getElem?_getD]
    have hdrop : (pre ++ (o' :: f :: (args ++ [c'])) ++ post).drop (pre.length + 2) = args ++ (c' :: post) := by
      simp
    have hargs : argsAt (pre ++ (o' :: f :: (args ++ [c'])) ++ post) (UInt16.ofNat pre.length) = args := by
      simp only [argsAt, hat, hidx, hclose, hdrop]
      split
      · rw [show pre.length + (args.length + 2) - pre.length - 2 = args.length by omega, List.take_left]
      · next hnone =>
        obtain rfl : args = [] := List.length_eq_zero_iff.mp (by omega)
        rfl
    simp only [s_expr_invoke_any, hat, hop, if_true, hidx, hfunc, hf, hargs]
    simp [callOf]

/-- The first call of well-formed parameters is invoked at its place if and only if no group
stands before it. -/
theorem invokes_first_iff (hcs : ∀ c ∈ cs, Logical c) (hlen : cs.flatten.length < 65536) :
    InvokesFirst cs ↔ SinglesFirst cs := by
  unfold InvokesFirst SinglesFirst s_expr_invoke_params
  rw [find_callable hcs hlen]
  cases hfind : cs.findIdx? isCall with
  | none => simp
  | some k =>
    obtain ⟨hk, hcall, -⟩ := List.findIdx?_eq_some_iff_getElem.mp hfind
    have hplace := length_flatten_take_eq hcs (Nat.le_of_lt hk)
    have hget : cs.getD k [] = cs[k] := by simp [List.getD_eq_getElem?_getD, hk]
    simp only [Option.some_inj]
    constructor
    · rintro heq j rfl
      exact hplace.mp (Outcome.invoked.inj heq).1.symm
    · intro hsingle
      have hlength := hplace.mpr (hsingle k rfl)
      have hinvoke := invoke_at_call (cs.take k).flatten (cs.drop (k + 1)).flatten
        (hcs cs[k] (List.getElem_mem hk)) hcall (by rw [← flatten_split cs hk]; exact hlen)
      rw [← flatten_split cs hk, hlength] at hinvoke
      rw [hlength, hinvoke, hget]

end

theorem opcode_call (h : p.param_type = OPEN_CALL) : p.opcode = OPEN_CALL := by
  rw [ParamStruct.opcode, h]
  rfl

theorem isFunc_code {call_type : dsl.CallType} (h : p.param_type = dsl.funcCode call_type) :
    isFunc p = true := by
  rw [isFunc, ParamStruct.opcode, h]
  cases call_type <;> rfl

def mainCall (func_idx : Nat) (args : List ParamStruct) : List ParamStruct :=
  dsl.u16Param OPEN_CALL 0 (args.length + 2) 0 :: dsl.u16Param MAIN 0 0 func_idx ::
    (args ++ [dsl.u16Param CLOSE 0 (args.length + 2) 0])

def listOf (body : List ParamStruct) : List ParamStruct :=
  dsl.u16Param OPEN 0 (body.length + 1) 0 :: (body ++ [dsl.u16Param CLOSE 0 (body.length + 1) 0])

theorem mainCall_logical (func_idx : Nat) {args : List ParamStruct} (hargs : Balanced role args)
    (hlen : args.length + 2 < 65536) : Logical (mainCall func_idx args) := by
  have hfunc := @isFunc_code (dsl.u16Param MAIN 0 0 func_idx) .m_call rfl
  apply Logical.call (opcode_call rfl) _ hfunc (dsl.role_close_call rfl) hargs
  simp only [dsl.u16Param, ParamStruct.brace_idx, UInt16.toNat_ofNat', Nat.reducePow, Option.some_inj]
  exact Nat.mod_eq_of_lt hlen

/-- A field, a call that is given a list, and a list after it. -/
theorem call_after_field :
    InvokesFirst [[dsl.u16Param FIELD 0 4 4], mainCall 7 (listOf [])] ↔
      SinglesFirst [[dsl.u16Param FIELD 0 4 4], mainCall 7 (listOf [])] := by
  apply invokes_first_iff
  · have hlist : Balanced role (listOf []) := .wrap rfl rfl .nil
    have hcall := mainCall_logical 7 hlist (by decide)
    simpa using ⟨Logical.plain rfl, hcall⟩
  · decide

/-- Behind a list with a call in it stands the first call of the parameters. The one in the list
is invoked. -/
theorem call_in_list_is_invoked :
    s_expr_invoke_params (listOf (mainCall 5 []) ++ mainCall 6 []) =
        .invoked 1 (some ⟨dsl.u16Param MAIN 0 0 5, []⟩) ∧
      ¬ InvokesFirst [listOf (mainCall 5 []), mainCall 6 []] := by
  unfold InvokesFirst
  decide

/-! ## What the generator emits -/

/-- The key of an entry, which stands in a dictionary. -/
def isKey (c : List ParamStruct) : Bool := c.head?.any fun o => o.opcode = OPEN_KEY

/-- Items whose braces stay in their calls become logical parameters, up to entries that are not
in a dictionary. -/
theorem emitItems_logical (m : dsl.Module) (tree_record : Option dsl.LuaString) {items : List dsl.Item}
    (hw : dsl.Well items) (e : dsl.Emitter) :
    ∃ cs : List (List ParamStruct), dsl.Appends e (dsl.emitItems m tree_record items e) cs.flatten ∧
      (cs.flatten.length < 65536 → ∀ c ∈ cs, isKey c = false → Logical c) := by
  induction hw generalizing e with
  | nil => exact ⟨[], ⟨by simp [dsl.emitItems], rfl, rfl⟩, by simp⟩
  | @leaf value items _ ih =>
    obtain ⟨cs, happ, hcs⟩ := ih (e.emit (dsl.leafParam m tree_record value))
    refine ⟨[dsl.leafParam m tree_record value] :: cs, (dsl.emit_appends e _).trans happ, ?_⟩
    intro hlen c hc hkey
    rw [List.flatten_cons, List.length_append] at hlen
    rcases List.mem_cons.mp hc with rfl | hc
    · exact .plain (dsl.role_leaf m tree_record value)
    · exact hcs (by omega) c hc hkey
  | @brace brace body items hbody _ _ ih =>
    obtain ⟨seg, hpart, happ⟩ := dsl.emitItems_part m tree_record hbody (dsl.emitStart e brace)
    obtain ⟨close, hclose, hfinish⟩ := dsl.emitFinish_start happ
    obtain ⟨cs, happ', hcs⟩ := ih (dsl.emitFinish (dsl.emitItems m tree_record body (dsl.emitStart e brace)) brace.brace_type)
    refine ⟨_ :: cs, by rw [dsl.emitItems, dsl.emitItems_append]; exact hfinish.trans happ', ?_⟩
    intro hlen c hc hkey
    rw [List.flatten_cons, List.length_append] at hlen
    rcases List.mem_cons.mp hc with rfl | hc
    · have htype := dsl.closedStart_type e.current_parent_offset brace (seg.length + 1)
      have hop := htype ▸ dsl.openCode_masked brace.brace_type
      have hlt : seg.length + 1 < 65536 := by
        simp only [List.length_cons, List.length_append] at hlen
        omega
      have hnotkey : (dsl.closedStart e.current_parent_offset brace (seg.length + 1)).opcode ≠ OPEN_KEY := by
        simpa [isKey] using hkey
      apply Logical.group (dsl.role_open _ htype) _ _ (dsl.role_close _ hclose) hpart.balanced
      · rw [ParamStruct.opcode, htype, dsl.openCode_masked]
        cases brace.brace_type <;> decide
      · exact dsl.closedStart_carries e.current_parent_offset brace hlt hnotkey
    · exact hcs (by omega) c hc hkey
  | @call func_name call_type pointer_index inner items hinner _ _ ih =>
    obtain ⟨seg, hpart, happ⟩ := dsl.emitItems_part m tree_record hinner
      (dsl.openCall m e func_name call_type (pointer_index.getD 0)
        (dsl.Item.count (.call func_name call_type pointer_index inner)))
    obtain ⟨f, close, hf, hclose, hcall⟩ := dsl.closeCall_openCall happ
    obtain ⟨cs, happ', hcs⟩ := ih _
    refine ⟨_ :: cs, by rw [dsl.emitItems]; exact hcall.trans happ', ?_⟩
    intro hlen c hc hkey
    rw [List.flatten_cons, List.length_append] at hlen
    rcases List.mem_cons.mp hc with rfl | hc
    · have hlt : 2 + dsl.Item.counts inner < 65536 := by
        have hlength := hpart.length
        simp only [List.length_cons, List.length_append] at hlen
        omega
      apply Logical.call (opcode_call rfl) _ (isFunc_code hf) (dsl.role_close_call hclose) hpart.balanced
      have hmod : (2 + dsl.Item.counts inner) % 65536 = seg.length + 2 := by
        have hlength := hpart.length
        omega
      simpa [dsl.Item.count, dsl.callParam, dsl.u16Param, ParamStruct.brace_idx] using hmod
    · exact hcs (by omega) c hc hkey

/-- A list with a call in it. -/
theorem listed_call_is_logical : ∃ cs : List (List ParamStruct),
    dsl.Appends ⟨[], 0, [], []⟩ (dsl.emitItems (dsl.start_module [] 4 false) none
      [.param (.start .list_start), .call [] .m_call none [], .param (.finish .list)]
      ⟨[], 0, [], []⟩) cs.flatten ∧
    (cs.flatten.length < 65536 → ∀ c ∈ cs, isKey c = false → Logical c) :=
  emitItems_logical _ none (@dsl.Well.brace .list_start _ _ (.call .nil .nil) .nil) _

end motioncore.params
