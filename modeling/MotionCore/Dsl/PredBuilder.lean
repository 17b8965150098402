-- The predicate builder of `se_predicates.lua`. It keeps a stack of open composites, and what it
-- returns emits all that was built at the top level.
import MotionCore.Dsl.Closures

namespace motioncore.dsl

/-! ## The builder -/

inductive Composite where
  | se_pred_or | se_pred_and | se_pred_nor | se_pred_nand | se_pred_xor | se_pred_not
deriving DecidableEq

def Composite.name : Composite → String
  | .se_pred_or => "SE_PRED_OR"
  | .se_pred_and => "SE_PRED_AND"
  | .se_pred_nor => "SE_PRED_NOR"
  | .se_pred_nand => "SE_PRED_NAND"
  | .se_pred_xor => "SE_PRED_XOR"
  | .se_pred_not => "SE_PRED_NOT"

structure OpenComposite where
  name : String
  id : Nat
  children : List Closure

/-- The locals of the file. A list that is `nil` is empty here. -/
structure PredBuilder where
  pred_builder_active : Bool
  pred_id_counter : Nat
  pred_current_children : List Closure
  pred_parent_stack : List OpenComposite

namespace PredBuilder

def start : PredBuilder := ⟨false, 0, [], []⟩

def pred_begin (b : PredBuilder) : Except LuaError PredBuilder :=
  if b.pred_builder_active then .error (.raised "pred_begin: already in predicate builder")
  else .ok ⟨true, 0, [], []⟩

/-- What is returned calls all the children. -/
def pred_end (b : PredBuilder) : Except LuaError (Closure × PredBuilder) :=
  if !b.pred_builder_active then .error (.raised "pred_end: not in predicate builder")
  else if 0 < b.pred_parent_stack.length then
    .error (.raised "pred_end: unclosed composite predicate")
  else if b.pred_current_children.length = 0 then .error (.raised "pred_end: empty predicate")
  else .ok (Closure.all b.pred_current_children, ⟨false, b.pred_id_counter, [], []⟩)

/-- Outside of the builder the function is handed back. -/
def pred_push_leaf (b : PredBuilder) (emit_fn : Closure) : Option Closure × PredBuilder :=
  if b.pred_builder_active then
    (none, { b with pred_current_children := b.pred_current_children ++ [emit_fn] })
  else (some emit_fn, b)

def pred_open_composite (b : PredBuilder) (name : String) : Except LuaError (Nat × PredBuilder) :=
  if !b.pred_builder_active then .error (.raised (name ++ ": must be inside pred_begin/pred_end"))
  else
    let id := b.pred_id_counter + 1
    .ok (id, { b with
      pred_id_counter := id
      pred_parent_stack := ⟨name, id, b.pred_current_children⟩ :: b.pred_parent_stack
      pred_current_children := [] })

def composite (name : String) (children : List Closure) : Closure :=
  Closure.call (ascii name) .p_call_composite (Closure.all children)

/-- The id that is given has to be that of the innermost composite. A leaf has given `nil`. -/
def pred_close (b : PredBuilder) (id : Option Nat) : Except LuaError PredBuilder :=
  if !b.pred_builder_active then .error (.raised "pred_close: not in predicate builder")
  else match id with
    | none => .error (.raised "pred_close: expected numeric id, got nil")
    | some id => match b.pred_parent_stack with
      | [] => .error (.raised "pred_close: no open composite")
      | top :: rest =>
        if top.id ≠ id then
          .error (.raised ("pred_close: expected id=" ++ toString top.id ++ " (" ++ top.name ++
            "), got id=" ++ toString id))
        else if b.pred_current_children.length = 0 then
          .error (.raised ("pred_close: composite " ++ top.name ++ " (id=" ++ toString id ++
            ") has no children"))
        else .ok { b with
          pred_parent_stack := rest
          pred_current_children := top.children ++ [composite top.name b.pred_current_children] }

end PredBuilder

/-! ## Sessions -/

structure PredLeaf where
  name : LuaString
  param_fn : Closure
  params : List Item
  emits : Emits param_fn (· = params)

/-- `se_pred_with`. -/
def PredLeaf.emit_fn (l : PredLeaf) : Closure := Closure.call l.name .p_call l.param_fn

/-- A call between `pred_begin` and `pred_end`. -/
inductive PredCall where
  | leaf (l : PredLeaf)
  | composite (c : Composite)
  | close (id : Option Nat)

def PredBuilder.step (b : PredBuilder) : PredCall → Except LuaError PredBuilder
  | .leaf l => .ok (b.pred_push_leaf l.emit_fn).2
  | .composite c => (b.pred_open_composite c.name).map Prod.snd
  | .close id => b.pred_close id

/-- The calls are made between `pred_begin` and `pred_end`. -/
def session (b : PredBuilder) (calls : List PredCall) : Except LuaError (Closure × PredBuilder) := do
  let b ← b.pred_begin
  let b ← calls.foldlM PredBuilder.step b
  b.pred_end

/-! ## What the calls describe -/

inductive Formula where
  | leaf (l : PredLeaf)
  | node (c : Composite) (children : List Formula)

/-- `xor` is true when exactly one of the children is, and `not` looks at the first. -/
def Composite.meaning : Composite → List Bool → Bool
  | .se_pred_or, bs => bs.any id
  | .se_pred_and, bs => bs.all id
  | .se_pred_nor, bs => !bs.any id
  | .se_pred_nand, bs => !bs.all id
  | .se_pred_xor, bs => bs.count true == 1
  | .se_pred_not, bs => !bs.headD false

mutual

/-- The value, for given values of the leaves. A leaf is known by its function and parameters. -/
def Formula.eval (truth : LuaString → List Item → Bool) : Formula → Bool
  | .leaf l => truth l.name l.params
  | .node c children => c.meaning (Formula.evals truth children)

def Formula.evals (truth : LuaString → List Item → Bool) : List Formula → List Bool
  | [] => []
  | f :: fs => f.eval truth :: Formula.evals truth fs

end

/-- The calls, in their order, open and close the composites of the formulas. -/
inductive Describes : List Formula → List PredCall → Prop where
  | nil : Describes [] []
  | leaf (l : PredLeaf) {fs : List Formula} {calls : List PredCall} (h : Describes fs calls) :
    Describes (.leaf l :: fs) (.leaf l :: calls)
  | node (c : Composite) (id : Option Nat) {children fs : List Formula} {inner calls : List PredCall}
    (hchildren : Describes children inner) (h : Describes fs calls) :
    Describes (.node c children :: fs) (.composite c :: (inner ++ .close id :: calls))

def topLevel : Nat → List PredCall → Nat
  | _, [] => 0
  | depth, .leaf _ :: calls => (if depth = 0 then 1 else 0) + topLevel depth calls
  | depth, .composite _ :: calls => (if depth = 0 then 1 else 0) + topLevel (depth + 1) calls
  | depth, .close _ :: calls => topLevel (depth - 1) calls

variable {fs gs : List Formula} {calls more : List PredCall}

theorem Describes.append (h : Describes fs calls) (h' : Describes gs more) :
    Describes (fs ++ gs) (calls ++ more) := by
  induction h with
  | nil => exact h'
  | leaf l _ ih => exact .leaf l ih
  | node c id hchildren _ _ ih =>
    rw [List.cons_append, List.cons_append, List.append_assoc, List.cons_append]
    exact .node c id hchildren ih

theorem Describes.topLevel_append (h : Describes fs calls) (depth : Nat) (rest : List PredCall) :
    topLevel depth (calls ++ rest) = (if depth = 0 then fs.length else 0) + topLevel depth rest := by
  induction h generalizing depth rest with
  | nil => simp
  | leaf l _ ih =>
    simp only [List.cons_append, topLevel, ih, List.length_cons]
    split <;> omega
  | node c id _ _ ihchildren ih =>
    simp only [List.cons_append, List.append_assoc, topLevel, ihchildren, ih, List.length_cons,
      Nat.add_sub_cancel, Nat.add_eq_zero_iff, Nat.one_ne_zero, and_false, if_false]
    split <;> omega

theorem Describes.top_level (h : Describes fs calls) : topLevel 0 calls = fs.length := by
  have hall := h.topLevel_append 0 []
  simpa [topLevel] using hall

/-- No formula goes on here. -/
def Ends (rest : List PredCall) : Prop := rest = [] ∨ ∃ id more, rest = .close id :: more

theorem Describes.ends {rest rest' : List PredCall} (h : Describes fs calls) (hrest : Ends rest)
    (heq : rest = calls ++ rest') : fs = [] ∧ calls = [] := by
  cases h with
  | nil => exact ⟨rfl, rfl⟩
  | leaf | node => rcases hrest with rfl | ⟨id, more, rfl⟩ <;> cases heq

theorem Describes.unique_append {calls' rest rest' : List PredCall} (h : Describes fs calls)
    (h' : Describes gs calls') (hrest : Ends rest) (hrest' : Ends rest')
    (heq : calls ++ rest = calls' ++ rest') : fs = gs ∧ rest = rest' := by
  induction h generalizing gs calls' rest rest' with
  | nil =>
    obtain ⟨rfl, rfl⟩ := h'.ends hrest heq
    exact ⟨rfl, heq⟩
  | leaf l h ih =>
    cases h' with
    | nil => exact absurd ((Describes.leaf l h).ends hrest' heq.symm).1 (by simp)
    | leaf l' h' =>
      simp only [List.cons_append, List.cons.injEq, PredCall.leaf.injEq] at heq
      obtain ⟨rfl, heq⟩ := heq
      obtain ⟨rfl, hsame⟩ := ih h' hrest hrest' heq
      exact ⟨rfl, hsame⟩
    | node => simp at heq
  | @node c id children fs inner calls hchildren h ihchildren ih =>
    cases h' with
    | nil => exact absurd ((Describes.node c id hchildren h).ends hrest' heq.symm).1 (by simp)
    | leaf => simp at heq
    | node c' id' hchildren' h' =>
      simp only [List.cons_append, List.append_assoc, List.cons.injEq, PredCall.composite.injEq] at heq
      obtain ⟨rfl, heq⟩ := heq
      obtain ⟨rfl, hclose⟩ := ihchildren hchildren' (Or.inr ⟨id, _, rfl⟩) (Or.inr ⟨id', _, rfl⟩) heq
      simp only [List.cons.injEq] at hclose
      obtain ⟨rfl, hsame⟩ := ih h' hrest hrest' hclose.2
      exact ⟨rfl, hsame⟩

/-- The calls describe one list of formulas at most. -/
theorem Describes.unique (h : Describes fs calls) (h' : Describes gs calls) : fs = gs :=
  (h.unique_append h' (Or.inl rfl) (Or.inl rfl) rfl).1

/-! ## What is emitted -/

inductive Emitted : List Formula → List Item → Prop where
  | nil : Emitted [] []
  | leaf (l : PredLeaf) (pointer_index : Option Nat) {fs : List Formula} {items : List Item}
    (h : Emitted fs items) : Emitted (.leaf l :: fs) (.call l.name .p_call pointer_index l.params :: items)
  | node (c : Composite) (pointer_index : Option Nat) {children fs : List Formula}
    {inner items : List Item} (hchildren : Emitted children inner) (h : Emitted fs items) :
    Emitted (.node c children :: fs)
      (.call (ascii c.name) .p_call_composite pointer_index inner :: items)

variable {items : List Item}

theorem Emitted.append {more : List Item} (h : Emitted fs items) (h' : Emitted gs more) :
    Emitted (fs ++ gs) (items ++ more) := by
  induction h with
  | nil => exact h'
  | leaf l pointer_index _ ih => exact .leaf l pointer_index ih
  | node c pointer_index hchildren _ _ ih => exact .node c pointer_index hchildren ih

theorem Emitted.length_eq (h : Emitted fs items) : items.length = fs.length := by
  induction h with
  | nil => rfl
  | leaf _ _ _ ih => simp [ih]
  | node _ _ _ _ _ ih => simp [ih]

def Builds (fs : List Formula) (children : List Closure) : Prop :=
  Emits (Closure.all children) (Emitted fs)

theorem all_append (fs gs : List Closure) :
    Closure.all (fs ++ gs) = (Closure.all fs).andThen (Closure.all gs) := by
  induction fs with
  | nil => rfl
  | cons f fs ih =>
    funext st
    simp only [List.cons_append, Closure.all, ih, Closure.andThen, bind, Except.bind]
    cases f st <;> rfl

theorem builds_nil : Builds [] [] := emits_all_nil.mono fun _ h => h ▸ .nil

variable {children : List Closure}

theorem Builds.append {more : List Closure} (h : Builds fs children) (h' : Builds gs more) :
    Builds (fs ++ gs) (children ++ more) := by
  unfold Builds at h h' ⊢
  rw [all_append]
  refine (h.andThen h').mono ?_
  rintro items ⟨v, u, rfl, hv, hu⟩
  exact hv.append hu

theorem all_single (f : Closure) : Closure.all [f] = f := by
  funext st
  simp only [Closure.all, Closure.andThen, bind, Except.bind]
  cases f st <;> rfl

theorem builds_leaf (l : PredLeaf) : Builds [.leaf l] [l.emit_fn] := by
  unfold Builds
  rw [all_single]
  refine (l.emits.call l.name .p_call).mono ?_
  rintro items ⟨pointer_index, inner, rfl, rfl⟩
  exact .leaf l pointer_index .nil

theorem Builds.node (h : Builds fs children) (c : Composite) :
    Builds [.node c fs] [PredBuilder.composite c.name children] := by
  unfold Builds
  rw [all_single]
  refine (h.call (ascii c.name) .p_call_composite).mono ?_
  rintro items ⟨pointer_index, inner, rfl, hinner⟩
  exact .node c pointer_index hinner .nil

/-! ## The stack -/

/-- The stack and the children that the calls lead to. -/
inductive Tracks : List PredCall → List OpenComposite → List Closure → Prop where
  | bottom {calls : List PredCall} {fs : List Formula} {children : List Closure}
    (h : Describes fs calls) (hb : Builds fs children) : Tracks calls [] children
  | opened {calls inner : List PredCall} {stack : List OpenComposite} {saved children : List Closure}
    {fs : List Formula} (c : Composite) (id : Nat) (hbelow : Tracks calls stack saved)
    (h : Describes fs inner) (hb : Builds fs children) :
    Tracks (calls ++ .composite c :: inner) (⟨c.name, id, saved⟩ :: stack) children

theorem Tracks.append {stack : List OpenComposite} {more' : List Closure}
    (h : Tracks calls stack children) (hd : Describes fs more) (hb : Builds fs more') :
    Tracks (calls ++ more) stack (children ++ more') := by
  cases h with
  | bottom h hb' => exact .bottom (h.append hd) (hb'.append hb)
  | opened c id hbelow h hb' =>
    rw [List.append_assoc, List.cons_append]
    exact .opened c id hbelow (h.append hd) (hb'.append hb)

variable {b b' : PredBuilder}

theorem pred_close_ok {id : Option Nat} (h : b.pred_close id = .ok b') :
    ∃ top rest, b.pred_parent_stack = top :: rest ∧ b'.pred_builder_active = b.pred_builder_active ∧
      b'.pred_parent_stack = rest ∧ b'.pred_current_children =
        top.children ++ [PredBuilder.composite top.name b.pred_current_children] := by
  unfold PredBuilder.pred_close at h
  split at h
  · exact nomatch h
  · split at h
    · exact nomatch h
    · split at h
      · exact nomatch h
      · rename_i top rest hstack
        split at h
        · exact nomatch h
        · split at h
          · exact nomatch h
          · obtain rfl := Except.ok.inj h
            exact ⟨top, rest, hstack, rfl, rfl, rfl⟩

variable {f : Closure}

theorem pred_end_ok (h : b.pred_end = .ok (f, b')) :
    b.pred_parent_stack = [] ∧ f = Closure.all b.pred_current_children := by
  unfold PredBuilder.pred_end at h
  split at h
  · exact nomatch h
  · split at h
    · exact nomatch h
    · rename_i hstack
      split at h
      · exact nomatch h
      · cases h
        exact ⟨List.eq_nil_of_length_eq_zero (by omega), rfl⟩

theorem step_tracks {call : PredCall} (hactive : b.pred_builder_active = true)
    (h : Tracks calls b.pred_parent_stack b.pred_current_children) (hstep : b.step call = .ok b') :
    b'.pred_builder_active = true ∧
      Tracks (calls ++ [call]) b'.pred_parent_stack b'.pred_current_children := by
  cases call with
  | leaf l =>
    simp only [PredBuilder.step, PredBuilder.pred_push_leaf, hactive, if_true, Except.ok.injEq] at hstep
    subst hstep
    exact ⟨rfl, h.append (.leaf l .nil) (builds_leaf l)⟩
  | composite c =>
    simp only [PredBuilder.step, PredBuilder.pred_open_composite, hactive, Bool.not_true,
      Bool.false_eq_true, if_false, Except.map, Except.ok.injEq] at hstep
    subst hstep
    exact ⟨rfl, .opened c _ h .nil builds_nil⟩
  | close id =>
    obtain ⟨top, rest, hstack, hactive', hrest, hchildren⟩ := pred_close_ok hstep
    rw [hactive', hrest, hchildren]
    rw [hstack] at h
    refine ⟨hactive, ?_⟩
    cases h with
    | opened c top_id hbelow hd hb =>
      rw [List.append_assoc, List.cons_append]
      exact hbelow.append (.node c id hd .nil) (hb.node c)

theorem run_tracks (hactive : b.pred_builder_active = true)
    (h : Tracks calls b.pred_parent_stack b.pred_current_children)
    (hrun : more.foldlM PredBuilder.step b = .ok b') :
    Tracks (calls ++ more) b'.pred_parent_stack b'.pred_current_children := by
  induction more generalizing calls b with
  | nil =>
    cases hrun
    rw [List.append_nil]
    exact h
  | cons call more ih =>
    obtain ⟨b₁, hstep, hrest⟩ := bind_eq_ok hrun
    obtain ⟨hactive₁, h₁⟩ := step_tracks hactive h hstep
    have hall := ih hactive₁ h₁ hrest
    rwa [List.append_assoc] at hall

theorem session_builds (h : session b calls = .ok (f, b')) :
    ∃ fs, Describes fs calls ∧ Emits f (Emitted fs) := by
  obtain ⟨b₁, hbegin, h⟩ := bind_eq_ok h
  obtain ⟨b₂, hrun, hend⟩ := bind_eq_ok h
  have hstart : b₁ = ⟨true, 0, [], []⟩ := by
    unfold PredBuilder.pred_begin at hbegin
    split at hbegin
    · exact nomatch hbegin
    · exact (Except.ok.inj hbegin).symm
  subst hstart
  have htracks := run_tracks (b := ⟨true, 0, [], []⟩) rfl (.bottom .nil builds_nil) hrun
  obtain ⟨hstack, rfl⟩ := pred_end_ok hend
  rw [hstack, List.nil_append] at htracks
  cases htracks with
  | bottom hd hb => exact ⟨_, hd, hb⟩

theorem put_cancel {v : View} {more : List Item} (h : v.put items = v.put more) : items = more := by
  unfold View.put at h
  split at h
  · simpa using h
  · simpa using h

theorem Emitted.single_pred {g : Formula} (h : Emitted [g] items) :
    ∃ item, items = [item] ∧ item.isPred = true := by
  cases h with
  | leaf l pointer_index h =>
    cases h
    exact ⟨_, rfl, rfl⟩
  | node c pointer_index _ h =>
    cases h
    exact ⟨_, rfl, rfl⟩

/-- The function that is returned emits one predicate exactly when one call stands at the top. -/
theorem emits_pred_iff (h : session b calls = .ok (f, b')) :
    EmitsPred f ↔ topLevel 0 calls = 1 := by
  obtain ⟨fs, hd, hemits⟩ := session_builds h
  rw [hd.top_level]
  constructor
  · intro hpred
    obtain ⟨st₁, items, hrun, hitems, hview, -⟩ := hemits new_tree new_tree_ordered
    obtain ⟨st₂, _, hrun', ⟨item, rfl, -⟩, hview', -⟩ := hpred new_tree new_tree_ordered
    obtain rfl : st₁ = st₂ := Except.ok.inj (hrun.symm.trans hrun')
    obtain rfl := put_cancel (hview.symm.trans hview')
    rw [← hitems.length_eq]
    rfl
  · intro hone
    obtain ⟨g, rfl⟩ := List.length_eq_one_iff.mp hone
    exact hemits.mono fun items hitems => hitems.single_pred

end motioncore.dsl
