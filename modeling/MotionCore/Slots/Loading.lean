-- The tree of an accepted program in its instance. The slots of its `pt_m_call`s are isolated up
-- to 256 of them; from there on two of them share a slot.
import MotionCore.Dsl.Closures
import MotionCore.Dsl.Pointers
import MotionCore.Slots.Isolation

namespace motioncore.slots

open registers
open motioncore.dsl (Module Tree Item DslParam LuaString CallType Op ParamStruct)

section

variable (m : Module) (value : DslParam → Int)

mutual

/-- The nodes are numbered in the order of their calls, with 16 bits. -/
def loadItem : Item → Nat → Node × Nat
  | .param p, n => (.param (value p), n)
  | .call func_name call_type pointer_index items, n =>
    let func := m.func_index call_type func_name % 65536
    let node_index := n % 65536
    let (args, next) := loadItems items (n + 1)
    let node : Node := match call_type with
      | .m_call => .main func node_index none args
      | .pt_m_call => .main func node_index (some (pointer_index.getD 0)) args
      | .o_call => .oneshot func node_index false args
      | .io_call => .oneshot func node_index true args
      | .p_call | .p_call_composite => .pred func node_index args
    (node, next)

def loadItems : List Item → Nat → List Node × Nat
  | [], n => ([], n)
  | item :: items, n =>
    let (node, next) := loadItem item n
    let (nodes, last) := loadItems items next
    (node :: nodes, last)

end

/-- The engine runs the first of the nodes. -/
def load (tree : Tree) : Node :=
  match tree.nodes with
  | [] => .param 0
  | node :: _ => (loadItem m value node.call 0).1

mutual

theorem loadItem_pointers : ∀ (item : Item) (n : Nat), (loadItem m value item n).1.pointers = item.pointers
  | .param p, n => by simp [loadItem, Node.pointers, Item.pointers]
  | .call func_name call_type pointer_index items, n => by
    have hargs := loadItems_pointers items (n + 1)
    cases call_type <;> simp [loadItem, Node.pointers, Item.pointers, hargs]

theorem loadItems_pointers : ∀ (items : List Item) (n : Nat),
    Node.pointersAll (loadItems m value items n).1 = Item.pointersAll items
  | [], n => by simp [loadItems, Node.pointersAll, Item.pointersAll]
  | item :: items, n => by
    have hfirst := loadItem_pointers item n
    have hrest := loadItems_pointers items (loadItem m value item n).2
    simp [loadItems, Node.pointersAll, Item.pointersAll, hfirst, hrest]

end

theorem load_pointers (tree : Tree) :
    ∀ p ∈ (load m value tree).pointers, p ∈ Item.pointersAll (tree.nodes.map dsl.Node.call) := by
  intro p hp
  unfold load at hp
  cases hnodes : tree.nodes with
  | nil => simp [hnodes, Node.pointers] at hp
  | cons node nodes =>
    rw [hnodes] at hp
    rw [loadItem_pointers] at hp
    simp [Item.pointersAll, hp]

end

/-! ## Isolation -/

/-- The `pointer_count` has 16 bits in the module. -/
def emitted_pointer_count (tree : Tree) : Nat := tree.pointer_count % 65536

/-- No two `pt_m_call`s share a slot, every slot is there, and in every run each of them reads
what it has written last. -/
structure Isolated (m : Module) (tree : Tree) : Prop where
  distinct : (dsl.slotsOf (dsl.emit_tree_params m tree)).Nodup
  in_range : ∀ slot ∈ dsl.slotsOf (dsl.emit_tree_params m tree), slot.toNat < emitted_pointer_count tree
  keeps : ∀ (E : Type) (w : World E) (value : DslParam → Int) (s : Inst E),
    (load m value tree).PlainCalls w → Reaches w (load m value tree) (emitted_pointer_count tree) s →
      Coherent (fun _ => 0) s.log

section

variable {m m' : Module} {name : LuaString} {ops : List Op} {tree : Tree}

theorem slots_clash (h : dsl.build m name ops = .ok (m', tree)) (gen : Module)
    (hmany : 256 < dsl.slotCount ops) : ¬ (dsl.slotsOf (dsl.emit_tree_params gen tree)).Nodup := by
  rw [(dsl.build_slots h gen).nodup_iff, dsl.bytes_nodup_iff]
  omega

/-- The slots of an accepted tree are isolated if and only if it has at most 256 of them. -/
theorem isolated_iff (h : dsl.build m name ops = .ok (m', tree)) (gen : Module) :
    Isolated gen tree ↔ dsl.slotCount ops ≤ 256 := by
  obtain ⟨hnumbered, hcount⟩ := dsl.build_numbered h
  constructor
  · intro hisolated
    by_contra hmany
    exact slots_clash h gen (by omega) hisolated.distinct
  · intro hfew
    have hemitted : emitted_pointer_count tree = tree.pointer_count :=
      Nat.mod_eq_of_lt (by omega)
    refine ⟨?_, ?_, ?_⟩
    · rw [(dsl.build_slots h gen).nodup_iff, dsl.bytes_nodup_iff]
      exact hfew
    · intro slot hslot
      rw [(dsl.build_slots h gen).mem_iff] at hslot
      obtain ⟨p, hp, rfl⟩ := List.mem_map.mp hslot
      have hp := List.mem_range.mp hp
      rw [hemitted, hcount, UInt8.toNat_ofNat']
      omega
    · intro E w value s hplain hreach
      rw [hemitted] at hreach
      refine (reaches_faithful (by omega) hplain ?_ hreach).coherent
      intro p hp
      have hmem := hnumbered.mem_iff.mp (load_pointers gen value tree p hp)
      exact List.mem_range.mp hmem

end

/-- A `pt_m_call` with two more in it, one of them inside a plain call. -/
def nestedCalls : List Op :=
  [.pt_m_call [0x41], .pt_m_call [0x42], .end_call none, .m_call [0x43], .pt_m_call [0x42],
    .end_call none, .end_call none, .end_call none]

theorem nested_calls_isolated : ∃ m' tree,
    dsl.build (dsl.start_module [0x6D] 4 false) [0x74] nestedCalls = .ok (m', tree) ∧
      Isolated m' tree := by
  obtain ⟨m', tree, hbuild⟩ : ∃ m' tree,
      dsl.build (dsl.start_module [0x6D] 4 false) [0x74] nestedCalls = .ok (m', tree) := ⟨_, _, rfl⟩
  exact ⟨m', tree, hbuild, (isolated_iff hbuild m').mpr (by decide)⟩

/-- One `pt_m_call` after the other, in a call that has them all. -/
def manyCalls (n : Nat) : List Op :=
  .m_call [0x43] :: ((List.replicate n [Op.pt_m_call [0x41], Op.end_call none]).flatten ++ [.end_call none])

theorem manyCalls_count (n : Nat) : dsl.slotCount (manyCalls n) = n := by
  have hbody : ((List.replicate n [Op.pt_m_call [0x41], Op.end_call none]).flatten).countP Op.takesSlot = n := by
    induction n with
    | zero => rfl
    | succ n ih =>
      rw [List.replicate_succ, List.flatten_cons, List.countP_append, ih]
      exact Nat.add_comm 1 n
  simp [dsl.slotCount, manyCalls, Op.m_call, Op.takesSlot, hbody]

theorem manyCalls_run (n : Nat) (b : dsl.Builder) (top : dsl.OpenCall) (h : b.current_call_stack = [top]) :
    ∃ b' top', dsl.run b (List.replicate n [Op.pt_m_call [0x41], Op.end_call none]).flatten = .ok b' ∧
      b'.current_call_stack = [top'] ∧ b'.brace_stack = b.brace_stack ∧
      b'.frame_stack = b.frame_stack ∧ b'.nodes = b.nodes := by
  induction n generalizing b top with
  | zero => exact ⟨b, top, rfl, h, rfl, rfl, rfl⟩
  | succ n ih =>
    have hstep : ∃ b₁ top₁, dsl.run b [Op.pt_m_call [0x41], Op.end_call none] = .ok b₁ ∧
        b₁.current_call_stack = [top₁] ∧ b₁.brace_stack = b.brace_stack ∧
        b₁.frame_stack = b.frame_stack ∧ b₁.nodes = b.nodes := by
      obtain ⟨current, record, defaults, nodes, count, pointers, stack, braces, frames, marker⟩ := b
      obtain rfl : stack = [top] := h
      exact ⟨_, _, rfl, rfl, rfl, rfl, rfl⟩
    obtain ⟨b₁, top₁, hrun₁, hstack₁, hbraces₁, hframes₁, hnodes₁⟩ := hstep
    obtain ⟨b₂, top₂, hrun₂, hstack₂, hbraces₂, hframes₂, hnodes₂⟩ := ih b₁ top₁ hstack₁
    refine ⟨b₂, top₂, ?_, hstack₂, hbraces₂.trans hbraces₁, hframes₂.trans hframes₁, hnodes₂.trans hnodes₁⟩
    rw [List.replicate_succ, List.flatten_cons, dsl.run, List.foldlM_append]
    exact (congrArg (· >>= fun b => dsl.run b _) hrun₁).trans hrun₂

theorem manyCalls_accepted (m : Module) (name : LuaString) (n : Nat) :
    ∃ m' tree, dsl.build m name (manyCalls n) = .ok (m', tree) := by
  obtain ⟨b₁, hstart⟩ : ∃ b₁, b₁ = (dsl.start_tree m).start_call [0x43] .m_call := ⟨_, rfl⟩
  have hstack : ∃ top, b₁.current_call_stack = [top] ∧ b₁.brace_stack = [] ∧ b₁.frame_stack = [] ∧
      b₁.nodes = [] := by
    subst hstart
    exact ⟨_, rfl, rfl, rfl, rfl⟩
  obtain ⟨top, hstack, hbraces, hframes, hnodes⟩ := hstack
  obtain ⟨b₂, top₂, hrun, hstack₂, hbraces₂, hframes₂, hnodes₂⟩ := manyCalls_run n b₁ top hstack
  have hend : dsl.run b₂ [.end_call none] = .ok (b₂.close_call top₂ []) := by
    simp only [dsl.run, List.foldlM_cons, List.foldlM_nil, dsl.step, dsl.Builder.end_call, hstack₂]
    rfl
  have hall : dsl.run (dsl.start_tree m) (manyCalls n) = .ok (b₂.close_call top₂ []) := by
    have happend : dsl.run b₁ ((List.replicate n [Op.pt_m_call [0x41], Op.end_call none]).flatten ++
        [.end_call none]) = .ok (b₂.close_call top₂ []) := by
      rw [dsl.run, List.foldlM_append]
      exact (congrArg (· >>= fun b => dsl.run b _) hrun).trans hend
    subst hstart
    exact happend
  obtain ⟨m', tree, htree⟩ : ∃ m' tree,
      (b₂.close_call top₂ []).end_tree (dsl.fnv1a_32 name) = .ok (m', tree) := by
    simp [dsl.Builder.end_tree, dsl.Builder.close_call, hbraces₂, hbraces, hframes₂, hframes,
      dsl.Builder.with_open_calls, hnodes₂, hnodes]
  refine ⟨m', tree, ?_⟩
  rw [dsl.build, hall]
  exact htree

theorem many_calls_share_a_slot : ∃ m' tree,
    dsl.build (dsl.start_module [0x6D] 4 false) [0x74] (manyCalls 257) = .ok (m', tree) ∧
      ¬ Isolated m' tree := by
  obtain ⟨m', tree, hbuild⟩ := manyCalls_accepted (dsl.start_module [0x6D] 4 false) [0x74] 257
  refine ⟨m', tree, hbuild, fun hisolated => ?_⟩
  exact slots_clash hbuild m' (by rw [manyCalls_count]; decide) hisolated.distinct

end motioncore.slots
