-- When the stream of an accepted program is properly nested: the program keeps each
-- brace in its call, and the stream fits the offsets of 16 bits.
import MotionCore.Dsl.Accepted

open motioncore.brackets

namespace motioncore.dsl

/-! ## Accepted programs -/

/-- A program that ends without an error, and its tree with the calls that `end_tree` found
open ended as well. -/
structure Accepted (ops : List Op) (tree : Tree) (v : View) (func_name : LuaString)
    (call_type : CallType) (pointer_index : Option Nat) (inner : List Item) : Prop where
  nodes : tree.nodes.map Node.call = [.call func_name call_type pointer_index inner]
  effects : Effects ⟨[], [], []⟩ ops v
  braces : v.braces = []
  ended : Effects v (List.replicate v.calls.length (.end_call none))
    ⟨[.call func_name call_type pointer_index inner], [], []⟩

theorem node_call_eq (node : Node) : ∃ func_name call_type pointer_index inner,
    node.call = .call func_name call_type pointer_index inner := by
  obtain ⟨func_name, call_type, pointer_index, order, params, children⟩ := node
  exact ⟨func_name, call_type, pointer_index, _, by rw [Node.call]⟩

variable {m m' : Module} {name : LuaString} {ops : List Op} {tree : Tree}

theorem accepted_of_build (h : build m name ops = .ok (m', tree)) :
    ∃ v func_name call_type pointer_index inner,
      Accepted ops tree v func_name call_type pointer_index inner := by
  obtain ⟨b, hrun, hend⟩ := bind_eq_ok h
  obtain ⟨heffects, hordered⟩ := run_effects hrun trivial
  unfold Builder.end_tree at hend
  split at hend
  · cases hend
  · next hbraces =>
    have hbraces' : b.brace_stack = [] := not_not.mp hbraces
    split at hend
    · cases hend
    · dsimp only at hend
      split at hend
      · cases hend
      · next hone =>
        obtain ⟨node, hnode⟩ := List.length_eq_one_iff.mp hone
        obtain ⟨-, rfl⟩ := Prod.mk.inj (Except.ok.inj hend)
        obtain ⟨func_name, call_type, pointer_index, inner, hcall⟩ := node_call_eq node
        refine ⟨b.view, func_name, call_type, pointer_index, inner, ?_, heffects, ?_, ?_⟩
        · rw [hnode, List.map_singleton, hcall]
        · simp [Builder.view, hbraces']
        · have hended := (run_effects (run_end_calls b) hordered).1
          have hlen : b.view.calls.length = b.current_call_stack.length := by simp [Builder.view]
          rw [hlen]
          convert hended using 1
          have hstack : b.with_open_calls.current_call_stack = [] := by
            unfold Builder.with_open_calls
            split
            · assumption
            · rfl
          have hopen : b.with_open_calls.brace_stack = [] := by
            unfold Builder.with_open_calls
            split
            · exact hbraces'
            · exact hbraces'
          simp [Builder.view, hnode, hstack, hopen, hcall]
      · cases hend

namespace Accepted

variable {ops : List Op} {tree : Tree} {v : View} {func_name : LuaString} {call_type : CallType}
  {pointer_index : Option Nat} {inner : List Item}

theorem run (h : Accepted ops tree v func_name call_type pointer_index inner) :
    Effects ⟨[], [], []⟩ (ops ++ List.replicate v.calls.length (.end_call none))
      ⟨[.call func_name call_type pointer_index inner], [], []⟩ :=
  effects_append.mpr ⟨v, h.effects, h.ended⟩

theorem length (h : Accepted ops tree v func_name call_type pointer_index inner) :
    streamLength ops = 3 + Item.counts inner := by
  have hsize := size_run h.run
  have hends : streamLength (List.replicate v.calls.length (.end_call none)) = 0 := by
    simp [streamLength, opLength]
  simp only [View.size, streamLength, List.map_append, List.sum_append] at hsize hends ⊢
  simp only [Item.counts, Item.count, List.map_nil, List.sum_nil] at hsize
  omega

theorem flat (h : Accepted ops tree v func_name call_type pointer_index inner) :
    Item.flatAll inner 0 = some 0 := by
  have hflat := flat_run h.run rfl
  simpa [View.flat, flatAll_single, Item.flat] using hflat

/-- The calls that are open at the end of a confined program have no open braces. -/
theorem confined_end (h : Accepted ops tree v func_name call_type pointer_index inner)
    {hs : List Nat} (hconfine : confine [] ops = some hs) : hs.length = v.calls.length ∧
      confine [] (ops ++ List.replicate v.calls.length (.end_call none)) = some [] := by
  obtain ⟨stack, -, hi⟩ := interleaved_run h.effects .nil hconfine
  rw [h.braces] at hi
  have hlen : hs.length = v.calls.length := by
    have hopen := confine_run hconfine
    have hcalls := calls_run h.effects
    simp only [List.length_nil] at hopen hcalls
    omega
  refine ⟨hlen, ?_⟩
  have hends := confine_end_calls hi
  rw [hlen] at hends
  rw [confine, List.foldlM_append]
  exact Option.bind_eq_some_iff.mpr ⟨hs, hconfine, hends⟩

theorem balanced_of_confine {w : List Op} {v' : View} (h : Effects ⟨[], [], []⟩ w v')
    (hbraces : v'.braces = []) (hconfine : confine [] w = some []) : Balanced opRole w := by
  obtain ⟨stack, hcheck, hi⟩ := interleaved_run h .nil hconfine
  rw [hbraces] at hi
  cases hi
  exact check_iff_balanced.mp hcheck

/-! ## The stream -/

theorem nested_of_confined (gen : Module)
    (h : Accepted ops tree v func_name call_type pointer_index inner)
    (hconfined : BracesConfined ops) (hlen : streamLength ops ≤ 65536) :
    ProperlyNested tree (emit_tree_params gen tree) := by
  obtain ⟨hs, hconfine⟩ := Option.isSome_iff_exists.mp hconfined
  have hbal := balanced_of_confine h.run rfl (h.confined_end hconfine).2
  obtain ⟨items, hwell, hput⟩ := effects_well hbal h.run
  obtain rfl : items = [.call func_name call_type pointer_index inner] := by
    have := congrArg View.nodes hput
    simpa [View.put] using this.symm
  obtain ⟨seg, hpart, happ⟩ := emitItems_part gen tree.record_name hwell ⟨[], 0, [], []⟩
  have hstream : emit_tree_params gen tree = seg := by
    rw [emit_tree_params, h.nodes]
    exact happ.params
  have hcount : seg.length ≤ 65536 := by
    rw [hpart.length, Item.counts, Item.count, Item.counts]
    have := h.length
    omega
  rw [hstream]
  refine ⟨hpart.balanced, hpart.carries hcount, ?_⟩
  rw [h.nodes]
  exact hpart.spans

theorem confined_of_nested (gen : Module)
    (h : Accepted ops tree v func_name call_type pointer_index inner)
    (hn : ProperlyNested tree (emit_tree_params gen tree)) :
    BracesConfined ops ∧ streamLength ops ≤ 65536 := by
  have hmatch := callsMatch_of_spaced hn.balanced hn.carries
  have hsafe : Safe ⟨[], 0, [], []⟩ := by
    intro info hinfo
    simp at hinfo
  have hshapes := (grows_emitItems gen tree.record_name (tree.nodes.map Node.call) hsafe).shapes
  rw [emit_tree_params, hshapes, h.nodes, List.map_nil, List.nil_append] at hmatch
  have hcount := length_le_of_callsMatch hmatch h.flat
  have hlength := h.length
  refine ⟨?_, by omega⟩
  have hflat : Item.flatAll [.call func_name call_type pointer_index inner] 0 = some 0 := by
    rw [flatAll_single, Item.flat]
    exact h.flat
  have hall : (Item.allShapes [.call func_name call_type pointer_index inner]).length ≤ 65536 := by
    rw [length_allShapes, Item.counts, Item.count, Item.counts]
    omega
  obtain ⟨k, hscan, -⟩ := scan_of_callsMatch hmatch hall _ [] [] (by simp)
    (above_of_flat _ hflat).1
  obtain ⟨hs, hs₀, hconfine⟩ := scans_run h.run []
    (Option.bind_eq_some_iff.mpr ⟨k, hscan, rfl⟩)
  obtain rfl := Option.some.inj hs₀
  rw [confine, List.foldlM_append] at hconfine
  obtain ⟨hs, hops, -⟩ := Option.bind_eq_some_iff.mp hconfine
  exact Option.isSome_iff_exists.mpr ⟨hs, hops⟩

/-! ## The program -/

theorem scanAll_well {items : List Item} (hw : Well items) (h : Nat) :
    Item.scanAll items h = some h := by
  induction hw generalizing h with
  | nil => rfl
  | leaf _ ih => exact ih h
  | brace _ _ ihbody ih =>
    rw [Item.scanAll, Item.scan, DslParam.scan, Option.bind_some, scanAll_append, ihbody,
      Option.bind_some, Item.scanAll, Item.scan, DslParam.scan]
    exact ih h
  | call _ _ ihinner ih =>
    rw [Item.scanAll, Item.scan, if_pos (ihinner 0)]
    exact ih h

theorem balanced_iff (h : Accepted ops tree v func_name call_type pointer_index inner) :
    Balanced opRole ops ↔ BracesConfined ops ∧ CallsEnded ops := by
  have hcalls := calls_run h.effects
  constructor
  · intro hbal
    obtain ⟨items, hwell, rfl⟩ := effects_well hbal h.effects
    obtain ⟨hs, hs₀, hconfine⟩ := scans_run h.effects []
      (Option.bind_eq_some_iff.mpr ⟨0, scanAll_well hwell 0, rfl⟩)
    obtain rfl := Option.some.inj hs₀
    refine ⟨Option.isSome_iff_exists.mpr ⟨[], hconfine⟩, ?_⟩
    simp only [View.put, List.length_nil] at hcalls
    exact (by omega : ops.countP Op.starts = ops.countP Op.ends)
  · rintro ⟨hconfined, hended⟩
    obtain ⟨hs, hconfine⟩ := Option.isSome_iff_exists.mp hconfined
    have hlen := (h.confined_end hconfine).1
    have hnone : hs.length = 0 := by
      unfold CallsEnded at hended
      simp only [List.length_nil] at hcalls
      omega
    obtain rfl := List.length_eq_zero_iff.mp hnone
    exact balanced_of_confine h.effects h.braces hconfine

end Accepted

/-! ## The main result -/

/-- The stream of an accepted program is properly nested exactly when each brace is closed in
the call that opened it and the parameters are at most 65536. -/
theorem stream_nested_iff (h : build m name ops = .ok (m', tree)) (gen : Module) :
    ProperlyNested tree (emit_tree_params gen tree) ↔
      BracesConfined ops ∧ streamLength ops ≤ 65536 := by
  obtain ⟨v, func_name, call_type, pointer_index, inner, hacc⟩ := accepted_of_build h
  constructor
  · exact hacc.confined_of_nested gen
  · rintro ⟨hconfined, hlen⟩
    exact hacc.nested_of_confined gen hconfined hlen

/-- An accepted program is a balanced word when, besides, all its calls end. -/
theorem program_balanced_iff (h : build m name ops = .ok (m', tree)) :
    Balanced opRole ops ↔ BracesConfined ops ∧ CallsEnded ops := by
  obtain ⟨v, func_name, call_type, pointer_index, inner, hacc⟩ := accepted_of_build h
  exact hacc.balanced_iff

/-- What the DSL lets pass is a balanced program with a properly nested stream exactly when
each brace is closed in the call that opened it, each call is ended, and the parameters are
at most 65536. -/
theorem accepted_nests_iff {m m' : Module} {name : LuaString} {ops : List Op} {tree : Tree}
    (h : build m name ops = .ok (m', tree)) (gen : Module) :
    (ProperlyNested tree (emit_tree_params gen tree) ∧ Balanced opRole ops) ↔
      BracesConfined ops ∧ CallsEnded ops ∧ streamLength ops ≤ 65536 := by
  rw [stream_nested_iff h gen, program_balanced_iff h]
  tauto

/-- A function with a list that holds another call. -/
def nestedProgram : List Op :=
  [.m_call [0x41], .list_start, .o_call [0x42], .int 1, .end_call none, .list_end (some 0),
    .end_call none]

theorem nested_program_nests : ∃ m' tree,
    build (start_module [] 4 false) [] nestedProgram = .ok (m', tree) ∧
      ProperlyNested tree (emit_tree_params m' tree) ∧ Balanced opRole nestedProgram := by
  obtain ⟨⟨m', tree⟩, hbuild⟩ : ∃ built,
      build (start_module [] 4 false) [] nestedProgram = .ok built := ⟨_, rfl⟩
  exact ⟨m', tree, hbuild, (accepted_nests_iff hbuild m').mpr (by decide)⟩

/-- A dictionary that is opened in a call and closed in a call inside it. -/
def crossingProgram : List Op :=
  [.m_call [0x41], .dict_start, .o_call [0x42], .dict_end (some 0), .end_call none, .end_call none]

def streamOpcodes (ops : List Op) : Except DslError (List UInt8) :=
  (build (start_module [] 4 false) [] ops).map fun (m, tree) =>
    (emit_tree_params m tree).map ParamStruct.opcode

/-- The DSL raises no error, and the dictionary and the inner call cross in the stream. -/
theorem crossing_program_is_accepted :
    (∃ m' tree, build (start_module [] 4 false) [] crossingProgram = .ok (m', tree) ∧
      ¬ (ProperlyNested tree (emit_tree_params m' tree) ∧ Balanced opRole crossingProgram)) ∧
    streamOpcodes crossingProgram = .ok
      [S_EXPR_PARAM.OPEN_CALL, S_EXPR_PARAM.MAIN, S_EXPR_PARAM.OPEN_DICT,
        S_EXPR_PARAM.OPEN_CALL, S_EXPR_PARAM.ONESHOT, S_EXPR_PARAM.CLOSE_DICT,
        S_EXPR_PARAM.CLOSE, S_EXPR_PARAM.CLOSE] := by
  refine ⟨?_, rfl⟩
  obtain ⟨⟨m', tree⟩, hbuild⟩ : ∃ built,
      build (start_module [] 4 false) [] crossingProgram = .ok built := ⟨_, rfl⟩
  refine ⟨m', tree, hbuild, fun h => ?_⟩
  exact absurd ((stream_nested_iff hbuild m').mp h.1).1 (by decide)

end motioncore.dsl
