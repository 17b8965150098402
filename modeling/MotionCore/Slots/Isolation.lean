-- A slot is its node's own. With at most 256 slots, and with slot accesses in the functions of
-- `pt_m_call`s only, every value that is read is the one that the same node has written last.
import MotionCore.Slots.Machine

namespace motioncore.slots

open engine registers

variable {E α : Type}

/-! ## The invariant -/

/-- Every slot holds what its node has written last. Before that it is zero. -/
structure Faithful (n : Nat) (s : Inst E) : Prop where
  count : s.pointer_count = n
  coherent : Coherent (fun _ => 0) s.log
  holds : ∀ p, p < n → s.pointer_array.getD (p % 256) 0 = contents (fun _ => 0) s.log (some p)

structure SameContext (s s' : Inst E) : Prop where
  current_node_index : s'.current_node_index = s.current_node_index
  in_pointer_call : s'.in_pointer_call = s.in_pointer_call
  pointer_base : s'.pointer_base = s.pointer_base
  running : s'.running = s.running

/-- The function of the `pt_m_call` runs. -/
structure InCall (p : Nat) (s : Inst E) : Prop where
  in_pointer_call : s.in_pointer_call = true
  pointer_base : s.pointer_base = UInt8.ofNat p
  running : s.running = some p

theorem SameContext.refl (s : Inst E) : SameContext s s := ⟨rfl, rfl, rfl, rfl⟩

variable {s : Inst E}

theorem SameContext.trans {t u : Inst E} (h : SameContext s t) (h' : SameContext t u) :
    SameContext s u :=
  ⟨h'.1.trans h.1, h'.2.trans h.2, h'.3.trans h.3, h'.4.trans h.4⟩

variable {s' : Inst E}

theorem InCall.same {p : Nat} (h : InCall p s) (hs : SameContext s s') : InCall p s' :=
  ⟨hs.in_pointer_call.trans h.1, hs.pointer_base.trans h.2, hs.running.trans h.3⟩

structure SameSlots (s s' : Inst E) : Prop where
  pointer_array : s'.pointer_array = s.pointer_array
  log : s'.log = s.log

variable {n : Nat}

theorem Faithful.same (h : Faithful n s) (hs : SameSlots s s') : Faithful n s' := by
  refine ⟨?_, ?_, ?_⟩
  · rw [Inst.pointer_count, hs.pointer_array]
    exact h.count
  · rw [hs.log]
    exact h.coherent
  · rw [hs.log, hs.pointer_array]
    exact h.holds

/-! ## Accesses -/

section

variable {n p : Nat} {s : Inst E}

theorem base_in_range (hp : p < n) (hn : n ≤ 256) (hin : InCall p s) :
    s.pointer_base.toNat = p ∧ s.pointer_base.toNat = p % 256 := by
  have hmod : p % 256 = p := Nat.mod_eq_of_lt (by omega)
  rw [hin.pointer_base]
  simp [hmod]

theorem get_faithful (hn : n ≤ 256) (hp : p < n) (hin : InCall p s) (h : Faithful n s) :
    Faithful n s.s_expr_get_user_u64.2 ∧ SameContext s s.s_expr_get_user_u64.2 := by
  obtain ⟨hbase, hmod⟩ := base_in_range hp hn hin
  have hcount : ¬ s.pointer_count ≤ s.pointer_base.toNat := by
    rw [h.count, hbase]
    omega
  simp only [Inst.s_expr_get_user_u64, hin.in_pointer_call, Bool.not_true, Bool.false_eq_true,
    if_false, hcount]
  refine ⟨⟨h.count, ?_, fun q hq => ?_⟩, ⟨rfl, hin.in_pointer_call.symm, rfl, rfl⟩⟩
  · refine h.coherent.append fun i v heq => ?_
    cases heq
    rw [hin.running, hmod]
    exact h.holds p hp
  · rw [contents_read]
    exact h.holds q hq

theorem set_faithful (hn : n ≤ 256) (hp : p < n) (hin : InCall p s) (h : Faithful n s) (value : UInt64) :
    Faithful n (s.s_expr_set_user_u64 value) ∧ SameContext s (s.s_expr_set_user_u64 value) := by
  obtain ⟨hbase, hmod⟩ := base_in_range hp hn hin
  have hcount : ¬ s.pointer_count ≤ s.pointer_base.toNat := by
    rw [h.count, hbase]
    omega
  simp only [Inst.s_expr_set_user_u64, hin.in_pointer_call, Bool.not_true, Bool.false_eq_true,
    if_false, hcount]
  refine ⟨⟨?_, ?_, fun q hq => ?_⟩, ⟨rfl, hin.in_pointer_call.symm, rfl, rfl⟩⟩
  · rw [← h.count]
    simp [Inst.pointer_count]
  · exact h.coherent.append fun i v heq => nomatch heq
  · rw [contents_write, hin.running, hbase, Nat.mod_eq_of_lt (show q < 256 by omega)]
    have hlen : s.pointer_array.length = n := h.count
    by_cases hpq : p = q
    · subst hpq
      simp [List.getD_eq_getElem?_getD, hlen, hp]
    · have hqp : some q ≠ some p := fun heq => hpq (Option.some.inj heq).symm
      rw [Function.update_of_ne hqp, ← h.holds q hq, Nat.mod_eq_of_lt (show q < 256 by omega)]
      simp [List.getD_eq_getElem?_getD, List.getElem?_set_ne hpq]

end

/-! ## Functions -/

/-- The function does not access slots. -/
def Code.Plain : Code E α → Prop
  | .ret _ => True
  | .effect _ k => ∀ i o, (k i o).Plain
  | .get_user_u64 _ | .set_user_u64 _ _ => False
  | .invoke _ k => ∀ r, (k r).Plain
  | .terminate _ k | .reset _ k => k.Plain

/-- What is done to the node keeps the slots of others, and its context ends with it. -/
structure Kid.Isolated (n : Nat) (k : Kid E) : Prop where
  invoke : ∀ s, Faithful n s → Faithful n (k.invoke s).2 ∧ SameContext s (k.invoke s).2
  terminate : ∀ s, Faithful n s → Faithful n (k.terminate s) ∧ SameContext s (k.terminate s)
  reset : ∀ s, Faithful n s → Faithful n (k.reset s) ∧ SameContext s (k.reset s)

theorem param_isolated (n : Nat) : (Kid.param : Kid E).Isolated n :=
  ⟨fun s h => ⟨h, .refl s⟩, fun s h => ⟨h, .refl s⟩, fun s h => ⟨h, .refl s⟩⟩

theorem kidAt_isolated {kids : List (Kid E)} (h : ∀ k ∈ kids, k.Isolated n) (j : Nat) :
    (kidAt kids j).Isolated n := by
  unfold kidAt
  cases hj : kids[j]? with
  | none => exact param_isolated n
  | some k => exact h k (List.mem_of_getElem? hj)

/-- The function may run in the context: it has a slot of its own, or needs none. -/
def Owned (n : Nat) (s : Inst E) (c : Code E α) : Prop := (∃ p, p < n ∧ InCall p s) ∨ c.Plain

theorem Owned.same {c : Code E α} (h : Owned n s c) (hs : SameContext s s') : Owned n s' c := by
  rcases h with ⟨p, hp, hin⟩ | hplain
  · exact Or.inl ⟨p, hp, hin.same hs⟩
  · exact Or.inr hplain

/-- A function runs with its own slot, or without any access to slots. -/
theorem run_faithful {kids : List (Kid E)} (hn : n ≤ 256) (hkids : ∀ k ∈ kids, k.Isolated n)
    (c : Code E α) (hown : Owned n s c) (h : Faithful n s) :
    Faithful n (c.run kids s).2 ∧ SameContext s (c.run kids s).2 := by
  induction c generalizing s with
  | ret a => exact ⟨h, .refl s⟩
  | effect f k ih =>
    have hs : SameContext s { s with others := f s.current_node_index s.others } := ⟨rfl, rfl, rfl, rfl⟩
    have hown' : Owned n s (k s.current_node_index s.others) := hown.imp id fun hplain => hplain _ _
    obtain ⟨h', hs'⟩ := ih _ _ (hown'.same hs) (h.same ⟨rfl, rfl⟩)
    exact ⟨h', hs.trans hs'⟩
  | get_user_u64 k ih =>
    obtain ⟨p, hp, hin⟩ := hown.resolve_right id
    obtain ⟨hget, hs⟩ := get_faithful hn hp hin h
    obtain ⟨h', hs'⟩ := ih _ (Or.inl ⟨p, hp, hin.same hs⟩) hget
    exact ⟨h', hs.trans hs'⟩
  | set_user_u64 value k ih =>
    obtain ⟨p, hp, hin⟩ := hown.resolve_right id
    obtain ⟨hset, hs⟩ := set_faithful hn hp hin h value
    obtain ⟨h', hs'⟩ := ih (Or.inl ⟨p, hp, hin.same hs⟩) hset
    exact ⟨h', hs.trans hs'⟩
  | invoke j k ih =>
    obtain ⟨hkid, hs⟩ := (kidAt_isolated hkids j).invoke s h
    have hown' : Owned n s (k ((kidAt kids j).invoke s).1) := hown.imp id fun hplain => hplain _
    obtain ⟨h', hs'⟩ := ih _ (hown'.same hs) hkid
    exact ⟨h', hs.trans hs'⟩
  | terminate j k ih =>
    obtain ⟨hkid, hs⟩ := (kidAt_isolated hkids j).terminate s h
    obtain ⟨h', hs'⟩ := ih (Owned.same (c := k) hown hs) hkid
    exact ⟨h', hs.trans hs'⟩
  | reset j k ih =>
    obtain ⟨hkid, hs⟩ := (kidAt_isolated hkids j).reset s h
    obtain ⟨h', hs'⟩ := ih (Owned.same (c := k) hown hs) hkid
    exact ⟨h', hs.trans hs'⟩

/-! ## Nodes -/

mutual

/-- The `pointer_index` of each `pt_m_call`. -/
def Node.pointers : Node → List Nat
  | .param _ => []
  | .main _ _ (some p) args => p :: Node.pointersAll args
  | .main _ _ none args => Node.pointersAll args
  | .oneshot _ _ _ args => Node.pointersAll args
  | .pred _ _ args => Node.pointersAll args

def Node.pointersAll : List Node → List Nat
  | [] => []
  | t :: ts => t.pointers ++ Node.pointersAll ts

end

theorem inside_pointers {func node_index p : Nat} {pointer : Option Nat} {args : List Node}
    (h : p ∈ Node.pointersAll args) : p ∈ (Node.main func node_index pointer args).pointers := by
  cases pointer with
  | none => exact h
  | some q => exact List.mem_cons_of_mem q h

mutual

/-- Only the function of a `pt_m_call` accesses slots. -/
def Node.PlainCalls (w : World E) : Node → Prop
  | .param _ => True
  | .main func _ pointer args =>
    (pointer = none → ∀ fn, w.main func = some fn → ∀ as event event_id, (fn as event event_id).Plain) ∧
      Node.PlainCallsAll w args
  | .oneshot func _ _ args =>
    (∀ fn, w.oneshot func = some fn → ∀ as event_id, (fn as event_id).Plain) ∧ Node.PlainCallsAll w args
  | .pred func _ args =>
    (∀ fn, w.pred func = some fn → ∀ as event_id, (fn as event_id).Plain) ∧ Node.PlainCallsAll w args

def Node.PlainCallsAll (w : World E) : List Node → Prop
  | [] => True
  | t :: ts => t.PlainCalls w ∧ Node.PlainCallsAll w ts

end

section

variable {w : World E} {n func node_index : Nat} {pointer : Option Nat} {args : List Node}
variable {kids : List (Kid E)} {s : Inst E}

theorem enter_faithful (h : Faithful n s) (m : Nat) (pointer : Option Nat) :
    Faithful n (s.enter m pointer) := by
  cases pointer with
  | none => exact h.same ⟨rfl, rfl⟩
  | some p => exact h.same ⟨rfl, rfl⟩

theorem setNode_same (s : Inst E) (m : Nat) (st : NodeState) :
    SameSlots s (s.setNode m st) ∧ SameContext s (s.setNode m st) := ⟨⟨rfl, rfl⟩, rfl, rfl, rfl, rfl⟩

theorem leave_faithful (h : Faithful n s) (saved : Inst E) :
    Faithful n (s.leave saved) ∧ SameContext saved (s.leave saved) := ⟨h.same ⟨rfl, rfl⟩, rfl, rfl, rfl, rfl⟩

/-- Every call of the function keeps the slots and the context. -/
def CallsKeep (n : Nat) (kids : List (Kid E)) (args : List Node)
    (fn : List Node → EventType → Nat → Code E Result) (inside : Inst E) : Prop :=
  ∀ event event_id s, SameContext inside s → Faithful n s →
    Faithful n ((fn args event event_id).run kids s).2 ∧
      SameContext inside ((fn args event event_id).run kids s).2

section

variable {fn : List Node → EventType → Nat → Code E Result} {inside : Inst E} (node_index)

theorem first_call_faithful (hcalls : CallsKeep n kids args fn inside) (hs : SameContext inside s)
    (h : Faithful n s) (event_id : Nat) :
    Faithful n (first_call node_index args kids fn event_id s) ∧
      SameContext inside (first_call node_index args kids fn event_id s) := by
  unfold first_call
  split
  · exact ⟨h, hs⟩
  · obtain ⟨hslots, hcontext⟩ :=
      setNode_same s node_index { s.state node_index with initialized := true }
    exact hcalls _ _ _ (hs.trans hcontext) (h.same hslots)

theorem last_call_faithful (hcalls : CallsKeep n kids args fn inside) (hs : SameContext inside s)
    (h : Faithful n s) (event_id : Nat) (result : Result) :
    Faithful n (last_call node_index args kids fn event_id result s) ∧
      SameContext inside (last_call node_index args kids fn event_id result s) := by
  unfold last_call
  split
  · obtain ⟨hrun, hcontext⟩ := hcalls EventType.SE_EVENT_TERMINATE event_id s hs h
    obtain ⟨hslots, hset⟩ := setNode_same ((fn args EventType.SE_EVENT_TERMINATE event_id).run kids s).2 node_index
      { ((fn args EventType.SE_EVENT_TERMINATE event_id).run kids s).2.state node_index with active := false }
    exact ⟨hrun.same hslots, hcontext.trans hset⟩
  · exact ⟨h, hs⟩

end

theorem main_isolated (hn : n ≤ 256) (hkids : ∀ k ∈ kids, k.Isolated n)
    (hpointer : ∀ p, pointer = some p → p < n)
    (hplain : pointer = none → ∀ fn, w.main func = some fn →
      ∀ as event event_id, (fn as event event_id).Plain) :
    Kid.Isolated n ⟨dispatch_main w func node_index pointer args kids,
      terminate_main w func node_index pointer args kids, fun s : Inst E => resetNode s node_index⟩ := by
  have hcalls : ∀ fn, w.main func = some fn → ∀ s : Inst E,
      CallsKeep n kids args fn (s.enter node_index pointer) := by
    intro fn hfn s event event_id s' hs h
    have howned : Owned n (s.enter node_index pointer) (fn args event event_id) := by
      cases pointer with
      | none => exact Or.inr (hplain rfl fn hfn args event event_id)
      | some p => exact Or.inl ⟨p, hpointer p rfl, rfl, rfl, rfl⟩
    obtain ⟨hrun, hcontext⟩ := run_faithful hn hkids _ (howned.same hs) h
    exact ⟨hrun, hs.trans hcontext⟩
  refine ⟨fun s h => ?_, fun s h => ?_, fun s h => ?_⟩
  · dsimp only
    unfold dispatch_main
    split
    · exact ⟨h, .refl s⟩
    · have hinside := enter_faithful h node_index pointer
      cases hfn : w.main func with
      | none => exact leave_faithful hinside s
      | some fn =>
        obtain ⟨hfirst, hcontext⟩ :=
          first_call_faithful node_index (hcalls fn hfn s) (.refl _) hinside _
        obtain ⟨htick, hcontext⟩ := hcalls fn hfn s EventType.SE_EVENT_TICK s.others.current_event_id _ hcontext hfirst
        obtain ⟨hlast, -⟩ :=
          last_call_faithful node_index (hcalls fn hfn s) hcontext htick _ _
        exact leave_faithful hlast s
  · dsimp only
    unfold terminate_main
    split
    · exact ⟨h, .refl s⟩
    · cases hfn : w.main func with
      | none => exact ⟨h, .refl s⟩
      | some fn =>
        have hinside := enter_faithful h node_index pointer
        obtain ⟨hrun, -⟩ := hcalls fn hfn s EventType.SE_EVENT_TERMINATE 0 _ (.refl _) hinside
        obtain ⟨hleft, hcontext⟩ := leave_faithful hrun s
        exact ⟨hleft.same ⟨rfl, rfl⟩, hcontext.trans ⟨rfl, rfl, rfl, rfl⟩⟩
  · obtain ⟨hslots, hcontext⟩ := setNode_same s node_index ⟨true, false, (s.state node_index).ever_init, .zero⟩
    exact ⟨h.same hslots, hcontext⟩

theorem oneshot_isolated (hn : n ≤ 256) (hkids : ∀ k ∈ kids, k.Isolated n)
    (hplain : ∀ fn, w.oneshot func = some fn → ∀ as event_id, (fn as event_id).Plain)
    (survives_reset : Bool) (s : Inst E) (h : Faithful n s) :
    Faithful n (dispatch_oneshot w func node_index args kids survives_reset s) ∧
      SameContext s (dispatch_oneshot w func node_index args kids survives_reset s) := by
  unfold dispatch_oneshot
  dsimp only
  generalize (if survives_reset = true then { s.state node_index with ever_init := true }
    else { s.state node_index with initialized := true }) = st
  generalize (if survives_reset = true then (s.state node_index).ever_init
    else (s.state node_index).initialized) = done
  cases done with
  | true => exact ⟨h, .refl s⟩
  | false =>
    have hset : Faithful n (s.setNode node_index st) := h.same ⟨rfl, rfl⟩
    have hinside := enter_faithful hset node_index none
    simp only [Bool.false_eq_true, if_false]
    cases hfn : w.oneshot func with
    | none => exact leave_faithful hinside s
    | some fn =>
      have hfired : Faithful n { (s.setNode node_index st).enter node_index none with
          fired := ((s.setNode node_index st).enter node_index none).fired ++ [node_index] } :=
        hinside.same ⟨rfl, rfl⟩
      obtain ⟨hrun, -⟩ := run_faithful hn hkids (fn args s.others.current_event_id)
        (Or.inr (hplain fn hfn _ _)) hfired
      exact leave_faithful hrun s

theorem pred_isolated (hn : n ≤ 256) (hkids : ∀ k ∈ kids, k.Isolated n)
    (hplain : ∀ fn, w.pred func = some fn → ∀ as event_id, (fn as event_id).Plain)
    (s : Inst E) (h : Faithful n s) : Faithful n (dispatch_pred w func node_index args kids s).2 ∧
      SameContext s (dispatch_pred w func node_index args kids s).2 := by
  unfold dispatch_pred
  have hinside := enter_faithful h node_index none
  cases hfn : w.pred func with
  | none => exact leave_faithful hinside s
  | some fn =>
    obtain ⟨hrun, -⟩ := run_faithful hn hkids (fn args s.others.current_event_id)
      (Or.inr (hplain fn hfn _ _)) hinside
    exact leave_faithful hrun s

end

mutual

/-- A node keeps the slots of all others, whatever it does. -/
theorem node_isolated {w : World E} {n : Nat} (hn : n ≤ 256) : ∀ t : Node, t.PlainCalls w →
    (∀ p ∈ t.pointers, p < n) → (t.kid w).Isolated n
  | .param _, _, _ => param_isolated n
  | .main _ _ pointer args, hplain, hpointers => by
    have hkids := nodes_isolated hn args hplain.2 fun p hp => hpointers p (inside_pointers hp)
    refine main_isolated hn hkids ?_ hplain.1
    rintro p rfl
    exact hpointers p List.mem_cons_self
  | .oneshot _ _ survives_reset args, hplain, hpointers => by
    have hkids := nodes_isolated hn args hplain.2 hpointers
    exact ⟨fun s h => oneshot_isolated hn hkids hplain.1 survives_reset s h, fun s h => ⟨h, .refl s⟩,
      fun s h => ⟨h.same ⟨rfl, rfl⟩, rfl, rfl, rfl, rfl⟩⟩
  | .pred _ _ args, hplain, hpointers => by
    have hkids := nodes_isolated hn args hplain.2 hpointers
    exact ⟨fun s h => pred_isolated hn hkids hplain.1 s h, fun s h => ⟨h, .refl s⟩,
      fun s h => ⟨h.same ⟨rfl, rfl⟩, rfl, rfl, rfl, rfl⟩⟩

theorem inside_isolated {w : World E} {n : Nat} (hn : n ≤ 256) : ∀ t : Node, t.PlainCalls w →
    (∀ p ∈ t.pointers, p < n) → ∀ k ∈ t.inside w, k.Isolated n
  | .param _, _, _ => by simp [Node.inside]
  | .main _ _ _ args, hplain, hpointers =>
    nodes_isolated hn args hplain.2 fun p hp => hpointers p (inside_pointers hp)
  | .oneshot _ _ _ args, hplain, hpointers => nodes_isolated hn args hplain.2 hpointers
  | .pred _ _ args, hplain, hpointers => nodes_isolated hn args hplain.2 hpointers

theorem nodes_isolated {w : World E} {n : Nat} (hn : n ≤ 256) : ∀ ts : List Node,
    Node.PlainCallsAll w ts → (∀ p ∈ Node.pointersAll ts, p < n) → ∀ k ∈ Node.kids w ts, k.Isolated n
  | [], _, _ => by simp [Node.kids]
  | t :: ts, hplain, hpointers => by
    have hfirst : ∀ p ∈ t.pointers, p < n := fun p hp => hpointers p (List.mem_append_left _ hp)
    intro k hk
    rcases List.mem_cons.mp hk with rfl | hk
    · exact node_isolated hn t hplain.1 hfirst
    · rcases List.mem_append.mp hk with hk | hk
      · exact inside_isolated hn t hplain.1 hfirst k hk
      · exact nodes_isolated hn ts hplain.2 (fun p hp => hpointers p (List.mem_append_right _ hp)) k hk

end

/-! ## Runs -/

/-- The instance as `s_expr_tree_create` makes it. -/
def created (pointer_count : Nat) (others : Others E) : Inst E where
  pointer_array := List.replicate pointer_count 0
  in_pointer_call := false
  pointer_base := 0
  current_node_index := 0
  others := others
  running := none
  log := []
  fired := []

/-- What the owner of the tree does: it has the tree ticked, terminated and reset. In between
anything may happen to all but the slots. -/
inductive Reaches (w : World E) (root : Node) (pointer_count : Nat) : Inst E → Prop where
  | created (others : Others E) : Reaches w root pointer_count (created pointer_count others)
  | outside {s : Inst E} (others : Others E) (h : Reaches w root pointer_count s) :
    Reaches w root pointer_count { s with others := others }
  | invoked {s : Inst E} (h : Reaches w root pointer_count s) :
    Reaches w root pointer_count ((root.kid w).invoke s).2
  | terminated {s : Inst E} (h : Reaches w root pointer_count s) :
    Reaches w root pointer_count ((root.kid w).terminate s)
  | ended {s : Inst E} (h : Reaches w root pointer_count s) :
    Reaches w root pointer_count (s_expr_tree_terminate w root s)

theorem created_faithful (n : Nat) (others : Others E) : Faithful n (created n others) := by
  refine ⟨?_, coherent_nil _, fun p _ => ?_⟩
  · simp [created, Inst.pointer_count]
  · simp [created, contents, List.getD_eq_getElem?_getD, List.getElem?_replicate]
    split <;> rfl

theorem tree_terminate_faithful {w : World E} {root : Node} (hn : n ≤ 256)
    (hplain : root.PlainCalls w) (hpointers : ∀ p ∈ root.pointers, p < n) (h : Faithful n s) :
    Faithful n (s_expr_tree_terminate w root s) := by
  unfold s_expr_tree_terminate
  cases root with
  | param | oneshot | pred => exact h.same ⟨rfl, rfl⟩
  | main func m pointer args =>
    dsimp only
    split
    · exact h.same ⟨rfl, rfl⟩
    · cases hfn : w.main func with
      | none => exact h.same ⟨rfl, rfl⟩
      | some fn =>
        have hkids := nodes_isolated hn args hplain.2 fun p hp => hpointers p (inside_pointers hp)
        have howned : Owned n (s.enter m pointer) (fn args EventType.SE_EVENT_TERMINATE 0) := by
          cases pointer with
          | none => exact Or.inr (hplain.1 rfl fn hfn _ _ _)
          | some p => exact Or.inl ⟨p, hpointers p List.mem_cons_self, rfl, rfl, rfl⟩
        obtain ⟨hrun, -⟩ := run_faithful hn hkids _ howned (enter_faithful h m pointer)
        exact hrun.same ⟨rfl, rfl⟩

theorem reaches_faithful {w : World E} {root : Node} (hn : n ≤ 256) (hplain : root.PlainCalls w)
    (hpointers : ∀ p ∈ root.pointers, p < n) (h : Reaches w root n s) : Faithful n s := by
  have hroot := node_isolated hn root hplain hpointers
  induction h with
  | created others => exact created_faithful n others
  | outside others _ ih => exact ih.same ⟨rfl, rfl⟩
  | invoked _ ih => exact (hroot.invoke _ ih).1
  | terminated _ ih => exact (hroot.terminate _ ih).1
  | ended _ ih => exact tree_terminate_faithful hn hplain hpointers ih

end motioncore.slots
