-- What one call of the DSL does to the tree in the making. The orders that
-- parameters and children get put them back in the order of the calls, so a tree
-- in the making is a list of items for each open call.
import MotionCore.Dsl.Stream

namespace motioncore.dsl

/-! ## Sorting by order -/

section

variable {items l r : List (Nat × Item)} {x : Nat × Item}

theorem orderedInsert_last (h : ∀ y ∈ items, y.1 < x.1) :
    items.orderedInsert (fun a b => a.1 ≤ b.1) x = items ++ [x] := by
  induction items with
  | nil => rfl
  | cons y items ih =>
    have hy : ¬ x.1 ≤ y.1 := Nat.not_le.mpr (h y List.mem_cons_self)
    rw [List.orderedInsert_cons, if_neg hy, ih fun z hz => h z (List.mem_cons_of_mem _ hz)]
    rfl

theorem orderedInsert_append {a : Nat × Item} (h : a.1 ≤ x.1) :
    (items ++ [x]).orderedInsert (fun a b => a.1 ≤ b.1) a =
      items.orderedInsert (fun a b => a.1 ≤ b.1) a ++ [x] := by
  induction items with
  | nil => simp [h]
  | cons y items ih =>
    by_cases hy : a.1 ≤ y.1
    · simp [hy]
    · simp [hy, ih]

/-- The item with the largest order comes last, wherever it stands. -/
theorem sortByOrder_last (h : ∀ y ∈ l ++ r, y.1 < x.1) :
    sortByOrder (l ++ x :: r) = sortByOrder (l ++ r) ++ [x] := by
  induction l with
  | nil =>
    apply orderedInsert_last
    intro y hy
    exact h y ((List.perm_insertionSort _ r).subset hy)
  | cons a l ih =>
    have ha : a.1 ≤ x.1 := Nat.le_of_lt (h a List.mem_cons_self)
    have hsort := ih fun y hy => h y (List.mem_cons_of_mem _ hy)
    rw [sortByOrder] at hsort ⊢
    rw [List.cons_append, List.insertionSort_cons, hsort]
    exact orderedInsert_append ha

end

/-! ## Open calls as lists of items -/

/-- The parameters and the children of an open call with their orders. -/
def OpenCall.merged (c : OpenCall) : List (Nat × Item) :=
  c.params.map (fun p => (p.1, Item.param p.2)) ++ Node.calls c.children

def OpenCall.items (c : OpenCall) : List Item := (sortByOrder c.merged).map (·.2)

/-- All orders of an open call are below `n`. -/
def OpenCall.UpTo (c : OpenCall) (n : Nat) : Prop := ∀ x ∈ c.merged, x.1 < n

variable {c : OpenCall}

theorem OpenCall.UpTo.mono {n k : Nat} (h : c.UpTo n) (hle : n ≤ k) : c.UpTo k :=
  fun x hx => Nat.lt_of_lt_of_le (h x hx) hle

theorem OpenCall.node_call (c : OpenCall) :
    c.node.call = .call c.func_name c.call_type c.pointer_index c.items := by
  rw [OpenCall.node, Node.call]
  rfl

theorem calls_append (v w : List Node) : Node.calls (v ++ w) = Node.calls v ++ Node.calls w := by
  induction v with
  | nil => rfl
  | cons n v ih =>
    cases n
    simp [Node.calls, ih]

theorem OpenCall.add_param_merged (c : OpenCall) (p : DslParam) :
    (c.add_param p).merged = c.params.map (fun p => (p.1, Item.param p.2)) ++
      (c.next_order, .param p) :: Node.calls c.children := by
  simp [OpenCall.merged, OpenCall.add_param]

theorem OpenCall.add_param_items (h : c.UpTo c.next_order) (p : DslParam) :
    (c.add_param p).items = c.items ++ [.param p] := by
  have hsort := sortByOrder_last
    (l := c.params.map fun q : Nat × DslParam => (q.1, Item.param q.2))
    (r := Node.calls c.children) (x := (c.next_order, .param p)) h
  rw [OpenCall.items, OpenCall.add_param_merged, hsort]
  simp [OpenCall.items, OpenCall.merged]

theorem OpenCall.add_param_upTo (h : c.UpTo c.next_order) (p : DslParam) :
    (c.add_param p).UpTo (c.add_param p).next_order := by
  intro x hx
  rw [OpenCall.add_param_merged] at hx
  have hx' : x = (c.next_order, .param p) ∨ x ∈ c.merged := by
    rw [OpenCall.merged]
    simp only [List.mem_append, List.mem_cons] at hx ⊢
    tauto
  rcases hx' with rfl | hx'
  · exact Nat.lt_succ_self _
  · exact Nat.lt_succ_of_lt (h x hx')

theorem OpenCall.add_child_merged (parent c : OpenCall) :
    (parent.add_child c.node).merged = parent.merged ++ [(c.order, c.node.call)] := by
  have hsingle : Node.calls [c.node] = [(c.order, c.node.call)] := by
    rw [OpenCall.node, Node.calls]
    rfl
  rw [OpenCall.merged, OpenCall.merged, List.append_assoc, ← hsingle, ← calls_append]
  rfl

theorem OpenCall.add_child_items {parent : OpenCall} (h : parent.UpTo c.order) :
    (parent.add_child c.node).items = parent.items ++ [c.node.call] := by
  have hsort := sortByOrder_last (l := parent.merged) (r := []) (x := (c.order, c.node.call))
    (by rw [List.append_nil]; exact h)
  rw [OpenCall.items, OpenCall.add_child_merged, hsort]
  simp [OpenCall.items]

theorem OpenCall.add_child_upTo {parent : OpenCall} (h : parent.UpTo c.order) :
    (parent.add_child c.node).UpTo (c.order + 1) := by
  intro x hx
  rw [OpenCall.add_child_merged] at hx
  rcases List.mem_append.mp hx with hx | hx
  · exact Nat.lt_succ_of_lt (h x hx)
  · rw [List.mem_singleton.mp hx]
    exact Nat.lt_succ_self _

/-- The orders of the open calls. Each took the last order of its parent. -/
def Ordered : List OpenCall → Prop
  | [] => True
  | [c] => c.UpTo c.next_order
  | c :: parent :: calls => c.UpTo c.next_order ∧ parent.next_order = c.order + 1 ∧
      parent.UpTo c.order ∧ Ordered (parent :: calls)

theorem Ordered.top {calls : List OpenCall} (h : Ordered (c :: calls)) : c.UpTo c.next_order := by
  cases calls with
  | nil => exact h
  | cons parent calls => exact h.1

/-- Only the orders of the top matter for what comes on it. -/
theorem Ordered.replace {c' : OpenCall} {calls : List OpenCall} (h : Ordered (c :: calls))
    (horder : c'.order = c.order) (htop : c'.UpTo c'.next_order) : Ordered (c' :: calls) := by
  cases calls with
  | nil => exact htop
  | cons parent calls =>
    obtain ⟨-, hnext, hup, hrest⟩ := h
    rw [← horder] at hnext hup
    exact ⟨htop, hnext, hup, hrest⟩

/-! ## One step -/

/-- An open call with what it holds, in order. -/
structure OpenItems where
  func_name : LuaString
  call_type : CallType
  pointer_index : Option Nat
  items : List Item

def OpenItems.call (c : OpenItems) : Item :=
  .call c.func_name c.call_type c.pointer_index c.items

/-- The ended calls of the tree, the open ones and the open braces, the last first. -/
structure View where
  nodes : List Item
  calls : List OpenItems
  braces : List BraceType

def OpenCall.view (c : OpenCall) : OpenItems := ⟨c.func_name, c.call_type, c.pointer_index, c.items⟩

def Builder.view (b : Builder) : View where
  nodes := b.nodes.map Node.call
  calls := b.current_call_stack.map OpenCall.view
  braces := b.brace_stack.map Marker.brace_type

/-- Items go into the innermost open call, or else into the tree. -/
def View.put (v : View) (items : List Item) : View :=
  match v.calls with
  | [] => { v with nodes := v.nodes ++ items }
  | c :: calls => { v with calls := { c with items := c.items ++ items } :: calls }

/-- What a call of the DSL that raises no error does. -/
inductive Effect : Op → View → View → Prop
  | leaf {value : Leaf} {v : View} : v.calls ≠ [] →
      Effect (.add_leaf value) v (v.put [.param (.leaf value)])
  | brace_start {brace : BraceStart} {v : View} : v.calls ≠ [] →
      Effect (.brace_start brace) v
        { v.put [.param (.start brace)] with braces := brace.brace_type :: v.braces }
  | brace_end {marker : Option Nat} {brace_type : BraceType} {v : View}
      {braces : List BraceType} : v.calls ≠ [] → v.braces = brace_type :: braces →
      Effect (.brace_end marker brace_type) v
        { v.put [.param (.finish brace_type)] with braces := braces }
  | start_call {func_name : LuaString} {call_type : CallType} {pointer_index : Option Nat}
      {v : View} :
      Effect (.start_call func_name call_type) v
        { v with calls := ⟨func_name, call_type, pointer_index, []⟩ :: v.calls }
  | end_call {node : Option Nat} {v : View} {c : OpenItems} {calls : List OpenItems} :
      v.calls = c :: calls →
      Effect (.end_call node) v (View.put { v with calls := calls } [c.call])
  | use_record {name : LuaString} {v : View} : Effect (.use_record name) v v
  | use_defaults {const_name : LuaString} {v : View} : Effect (.use_defaults const_name) v v
  | frame_push {frame : Frame} {v : View} : Effect (.frame_push frame) v v
  | frame_pop {v : View} : Effect .frame_pop v v

theorem bind_eq_ok {ε α β : Type} {x : Except ε α} {f : α → Except ε β} {b : β}
    (h : x >>= f = .ok b) : ∃ a, x = .ok a ∧ f a = .ok b := by
  cases x with
  | error err => cases h
  | ok a => exact ⟨a, rfl, h⟩

variable {b b' : Builder}

theorem add_param_view {p : DslParam} (h : b.add_param p = .ok b')
    (ho : Ordered b.current_call_stack) :
    b.view.calls ≠ [] ∧ b'.view = b.view.put [.param p] ∧ Ordered b'.current_call_stack := by
  unfold Builder.add_param at h
  cases hstack : b.current_call_stack with
  | nil => simp [hstack] at h
  | cons c calls =>
    rw [hstack] at ho h
    obtain rfl := Except.ok.inj h
    refine ⟨by simp [Builder.view, hstack], ?_, ho.replace rfl (OpenCall.add_param_upTo ho.top p)⟩
    simp [Builder.view, View.put, hstack, OpenCall.view, OpenCall.add_param_items ho.top]
    exact ⟨rfl, rfl, rfl⟩

variable {brace_type : BraceType}

theorem push_brace_ok (h : b.push_brace brace_type = .ok b') : b' = { b with
      brace_stack := ⟨b.next_marker, brace_type⟩ :: b.brace_stack
      next_marker := b.next_marker + 1 } := by
  unfold Builder.push_brace at h
  split at h
  · cases h
  · exact (Except.ok.inj h).symm

theorem pop_brace_ok {marker : Option Nat} (h : b.pop_brace marker brace_type = .ok b') :
    ∃ top rest, b.brace_stack = top :: rest ∧ top.brace_type = brace_type ∧
      b' = { b with brace_stack := rest } := by
  unfold Builder.pop_brace at h
  cases hstack : b.brace_stack with
  | nil => simp [hstack] at h
  | cons top rest =>
    simp only [hstack] at h
    split at h
    · cases h
    · split at h
      · cases h
      · next htype => exact ⟨top, rest, rfl, not_not.mp htype, (Except.ok.inj h).symm⟩

theorem add_leaf_effect {value : Leaf} (h : b.add_leaf value = .ok b')
    (ho : Ordered b.current_call_stack) :
    Effect (.add_leaf value) b.view b'.view ∧ Ordered b'.current_call_stack := by
  obtain ⟨-, -, hadd⟩ := bind_eq_ok h
  -- Only the table of strings may change before.
  obtain ⟨m, hm⟩ : ∃ m, b.add_string value = { b with current_module := m } := by
    cases value <;> exact ⟨_, rfl⟩
  rw [hm] at hadd
  obtain ⟨hcalls, hview, hordered⟩ := add_param_view hadd ho
  rw [hview]
  exact ⟨.leaf hcalls, hordered⟩

theorem brace_start_effect {brace : BraceStart} (h : b.brace_start brace = .ok b')
    (ho : Ordered b.current_call_stack) :
    Effect (.brace_start brace) b.view b'.view ∧ Ordered b'.current_call_stack := by
  obtain ⟨b₁, hpush, hadd⟩ := bind_eq_ok h
  obtain rfl := push_brace_ok hpush
  obtain ⟨hcalls, hview, hordered⟩ := add_param_view hadd ho
  refine ⟨?_, hordered⟩
  rw [hview]
  have heffect : Effect (.brace_start brace) b.view _ := .brace_start hcalls
  convert heffect using 1
  simp only [View.put, Builder.view, List.map_cons]
  cases b.current_call_stack <;> rfl

theorem brace_end_effect {marker : Option Nat} (h : b.brace_end marker brace_type = .ok b')
    (ho : Ordered b.current_call_stack) :
    Effect (.brace_end marker brace_type) b.view b'.view ∧ Ordered b'.current_call_stack := by
  obtain ⟨b₁, hpop, hadd⟩ := bind_eq_ok h
  obtain ⟨top, rest, hstack, rfl, rfl⟩ := pop_brace_ok hpop
  obtain ⟨hcalls, hview, hordered⟩ := add_param_view hadd ho
  refine ⟨?_, hordered⟩
  rw [hview]
  have hbraces : b.view.braces = top.brace_type :: rest.map Marker.brace_type := by
    simp [Builder.view, hstack]
  have heffect : Effect (.brace_end marker top.brace_type) b.view _ := .brace_end hcalls hbraces
  convert heffect using 1
  simp only [View.put, Builder.view]
  cases b.current_call_stack <;> rfl

theorem start_call_view (b : Builder) (func_name : LuaString) (call_type : CallType) :
    (b.start_call func_name call_type).view =
      { b.view with
        calls := ⟨func_name, call_type,
          if call_type = .pt_m_call then some b.pointer_count else none, []⟩ :: b.view.calls } := by
  unfold Builder.start_call Builder.view
  cases b.current_call_stack <;> rfl

theorem start_call_effect (func_name : LuaString) (call_type : CallType)
    (ho : Ordered b.current_call_stack) :
    Effect (.start_call func_name call_type) b.view (b.start_call func_name call_type).view ∧
      Ordered (b.start_call func_name call_type).current_call_stack := by
  have hnew : ∀ order pointer_index, (⟨func_name, call_type, pointer_index, order, [], [], 0⟩ :
      OpenCall).UpTo 0 := by
    intro order pointer_index x hx
    simp [OpenCall.merged, Node.calls] at hx
  refine ⟨by rw [start_call_view]; exact .start_call, ?_⟩
  unfold Builder.start_call
  cases hstack : b.current_call_stack with
  | nil => exact hnew _ _
  | cons parent calls =>
    rw [hstack] at ho
    have hup : ({ parent with next_order := parent.next_order + 1 } : OpenCall).UpTo
        parent.next_order := ho.top
    exact ⟨hnew _ _, rfl, hup, ho.replace rfl (hup.mono (Nat.le_succ _))⟩

theorem end_call_effect {node : Option Nat} (h : b.end_call node = .ok b')
    (ho : Ordered b.current_call_stack) :
    Effect (.end_call node) b.view b'.view ∧ Ordered b'.current_call_stack := by
  unfold Builder.end_call at h
  rcases hstack : b.current_call_stack with _ | ⟨top, _ | ⟨parent, calls⟩⟩
  · simp [hstack] at h
  · rw [hstack] at h
    obtain rfl := Except.ok.inj h
    have hcalls : b.view.calls = [top.view] := by simp [Builder.view, hstack]
    have heffect : Effect (.end_call node) b.view _ := .end_call hcalls
    refine ⟨?_, trivial⟩
    convert heffect using 1
    simp [Builder.view, Builder.close_call, View.put, OpenItems.call, OpenCall.view,
      OpenCall.node_call]
  · rw [hstack] at h ho
    obtain rfl := Except.ok.inj h
    obtain ⟨-, hnext, hup, hrest⟩ := ho
    have hcalls : b.view.calls = top.view :: parent.view :: calls.map OpenCall.view := by
      simp [Builder.view, hstack]
    have heffect : Effect (.end_call node) b.view _ := .end_call hcalls
    refine ⟨?_, hrest.replace rfl ?_⟩
    · convert heffect using 1
      simp [Builder.view, Builder.close_call, View.put, OpenItems.call, OpenCall.view,
        OpenCall.node_call, OpenCall.add_child_items hup]
      exact ⟨rfl, rfl, rfl⟩
    · have := OpenCall.add_child_upTo hup
      rwa [← hnext] at this

theorem step_effect {op : Op} (h : step b op = .ok b') (ho : Ordered b.current_call_stack) :
    Effect op b.view b'.view ∧ Ordered b'.current_call_stack := by
  cases op with
  | add_leaf value => exact add_leaf_effect h ho
  | brace_start brace => exact brace_start_effect h ho
  | brace_end marker brace_type => exact brace_end_effect h ho
  | start_call func_name call_type =>
    obtain rfl := Except.ok.inj h
    exact start_call_effect func_name call_type ho
  | end_call node => exact end_call_effect h ho
  | use_record name =>
    obtain rfl := Except.ok.inj h
    exact ⟨.use_record, ho⟩
  | use_defaults const_name =>
    rw [step, Builder.use_defaults] at h
    split at h
    · cases h
    · split at h
      · cases h
      · obtain rfl := Except.ok.inj h
        exact ⟨.use_defaults, ho⟩
  | frame_push frame =>
    obtain rfl := Except.ok.inj h
    exact ⟨.frame_push, ho⟩
  | frame_pop =>
    obtain rfl := Except.ok.inj h
    exact ⟨.frame_pop, ho⟩

end motioncore.dsl
