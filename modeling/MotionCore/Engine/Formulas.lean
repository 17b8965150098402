-- The composite predicates at run time. What the predicate builder returns evaluates to the formula
-- that its calls describe, if it emits one predicate.
import MotionCore.Engine.Forward
import MotionCore.Engine.Cases
import MotionCore.Dsl.PredBuilder

namespace motioncore.engine

variable {E : Type}

/-! ## One composite -/

/-- The children of the list are predicates with these values, and asking them changes nothing. -/
def Values (kids : List (Kid E)) (s : Eng E) (js : List Nat) (v : Nat → Bool) : Prop :=
  ∀ j ∈ js, isPred (kids.map Kid.kind) j = true ∧ (kidAt kids j).invokePred s = some (v j, s)

section

variable {w : World E} {kids : List (Kid E)} {idx : Nat} {own : NodeData → E → Result × NodeData × E}
variable {s : Eng E} {v : Nat → Bool}
variable {js : List Nat}

theorem Values.head {j : Nat} (h : Values kids s (j :: js) v) :
    isPred (kids.map Kid.kind) j = true ∧ (kidAt kids j).invokePred s = some (v j, s) :=
  h j List.mem_cons_self

theorem Values.tail {j : Nat} (h : Values kids s (j :: js) v) : Values kids s js v :=
  fun i hi => h i (List.mem_cons_of_mem _ hi)

theorem pred_all_run (h : Values kids s js v) :
    runProg w kids idx own (pred_all (kids.map Kid.kind) js) s = some ((js.map v).all id, s) := by
  induction js with
  | nil => rfl
  | cons j js ih =>
    obtain ⟨hpred, hask⟩ := h.head
    simp only [pred_all, hpred, if_true, runProg_bind, run_invoke_pred, hask, Option.bind_some]
    cases hv : v j with
    | false => simp [hv]
    | true => simp [hv, ih h.tail]

theorem pred_any_run (h : Values kids s js v) :
    runProg w kids idx own (pred_any (kids.map Kid.kind) js) s = some ((js.map v).any id, s) := by
  induction js with
  | nil => rfl
  | cons j js ih =>
    obtain ⟨hpred, hask⟩ := h.head
    simp only [pred_any, hpred, if_true, runProg_bind, run_invoke_pred, hask, Option.bind_some]
    cases hv : v j with
    | false => simp [hv, ih h.tail]
    | true => simp [hv]

theorem pred_not_run (h : Values kids s js v) :
    runProg w kids idx own (pred_not (kids.map Kid.kind) js) s = some (!(js.map v).headD false, s) := by
  cases js with
  | nil => rfl
  | cons j js =>
    obtain ⟨hpred, hask⟩ := h.head
    simp [pred_not, hpred, runProg_bind, hask]

/-- The loop stops at the second that is true. -/
theorem pred_one_run (h : Values kids s js v) {true_count : Nat} (hcount : true_count ≤ 1) :
    runProg w kids idx own (pred_one (kids.map Kid.kind) js true_count) s =
      some (true_count + (js.map v).count true == 1, s) := by
  induction js generalizing true_count with
  | nil => rfl
  | cons j js ih =>
    obtain ⟨hpred, hask⟩ := h.head
    simp only [pred_one, hpred, if_true, runProg_bind, run_invoke_pred, hask, Option.bind_some]
    cases hv : v j with
    | false => simp [hv, ih h.tail hcount]
    | true =>
      by_cases hsecond : 1 < true_count + 1
      · have hone : true_count = 1 := by omega
        subst hone
        simp [hv]
      · rw [if_pos rfl, if_neg hsecond, ih h.tail (by omega)]
        have hcomm : true_count + 1 + (js.map v).count true =
            true_count + ((js.map v).count true + 1) := by omega
        simp [hv, hcomm]

end

def fnOf : dsl.Composite → PredFn
  | .se_pred_or => .se_pred_or
  | .se_pred_and => .se_pred_and
  | .se_pred_nor => .se_pred_nor
  | .se_pred_nand => .se_pred_nand
  | .se_pred_xor => .se_pred_xor
  | .se_pred_not => .se_pred_not

theorem composite_run {w : World E} {kids : List (Kid E)} {idx : Nat} {s : Eng E} {bs : List Bool}
    (hlen : kids.length = bs.length)
    (h : ∀ j, j < kids.length → isPred (kids.map Kid.kind) j = true ∧
      (kidAt kids j).invokePred s = some (bs[j]?.getD false, s)) (c : dsl.Composite) :
    dispatch_pred w (fnOf c) idx kids s = some (c.meaning bs, s) := by
  have hvalues : Values kids s (List.range (kids.map Kid.kind).length) fun j => bs[j]?.getD false := by
    intro j hj
    refine h j ?_
    simpa using hj
  have hbs : (List.range (kids.map Kid.kind).length).map (fun j => bs[j]?.getD false) = bs := by
    rw [List.length_map, hlen]
    apply List.ext_getElem
    · simp
    · intro j hj _
      simp at hj
      simp [hj]
  have hand : runProg w kids idx (fun d env => (SE_PIPELINE_CONTINUE, d, env))
      (pred_all (kids.map Kid.kind) (List.range (kids.map Kid.kind).length)) s = some (bs.all id, s) := by
    rw [pred_all_run hvalues, hbs]
  have hor : runProg w kids idx (fun d env => (SE_PIPELINE_CONTINUE, d, env))
      (pred_any (kids.map Kid.kind) (List.range (kids.map Kid.kind).length)) s = some (bs.any id, s) := by
    rw [pred_any_run hvalues, hbs]
  cases c with
  | se_pred_or => exact hor
  | se_pred_and => exact hand
  | se_pred_nor =>
    simp only [fnOf, dispatch_pred, predProg, runProg_bind, hor, Option.bind_some, runProg_pure]
    rfl
  | se_pred_nand =>
    simp only [fnOf, dispatch_pred, predProg, runProg_bind, hand, Option.bind_some, runProg_pure]
    rfl
  | se_pred_xor =>
    simp only [fnOf, dispatch_pred, predProg, pred_one_run hvalues (Nat.zero_le 1), hbs, Nat.zero_add]
    rfl
  | se_pred_not =>
    simp only [fnOf, dispatch_pred, predProg, pred_not_run hvalues, hbs]
    rfl

/-! ## Formulas -/

/-- The calls as nodes of the tree. `number` is the number of a function with its parameters. -/
inductive Loads (number : dsl.LuaString → List dsl.Item → Nat) : List dsl.Item → List Node → Prop where
  | nil : Loads number [] []
  | leaf {name : dsl.LuaString} {pointer_index : Option Nat} {params items : List dsl.Item}
    {nodes : List Node} (n : Nat) (args : List Node) (h : Loads number items nodes) :
    Loads number (.call name .p_call pointer_index params :: items)
      (.pred (.test (number name params)) n args :: nodes)
  | composite {name : dsl.LuaString} {c : dsl.Composite} {pointer_index : Option Nat}
    {inner items : List dsl.Item} {args nodes : List Node} (hname : name = dsl.ascii c.name) (n : Nat)
    (hinner : Loads number inner args) (h : Loads number items nodes) :
    Loads number (.call name .p_call_composite pointer_index inner :: items)
      (.pred (fnOf c) n args :: nodes)

/-- No predicate changes anything. -/
def Stateless (w : World E) : Prop := ∀ id event_id env, (w.test id event_id env).2 = env

def leafValue (w : World E) (number : dsl.LuaString → List dsl.Item → Nat) (s : Eng E)
    (name : dsl.LuaString) (params : List dsl.Item) : Bool :=
  (w.test (number name params) s.event_id s.env).1

theorem name_injective {c c' : dsl.Composite} (h : dsl.ascii c.name = dsl.ascii c'.name) : c = c' := by
  cases c <;> cases c' <;> first | rfl | exact absurd h (by decide)

variable {items : List dsl.Item}

theorem loads_values {w : World E} (hw : Stateless w) {number : dsl.LuaString → List dsl.Item → Nat}
    {fs : List dsl.Formula} (h : dsl.Emitted fs items) {nodes : List Node}
    (hload : Loads number items nodes) (s : Eng E) :
    List.Forall₂ (fun t b => t.kind = .call .pred ∧ (t.kid w).invokePred s = some (b, s)) nodes
      (dsl.Formula.evals (leafValue w number s) fs) := by
  induction h generalizing nodes with
  | nil =>
    cases hload
    exact .nil
  | leaf l pointer_index _ ih =>
    cases hload with
    | leaf n args hload =>
      refine .cons ⟨rfl, ?_⟩ (ih hload)
      have hsame := hw (number l.name l.params) s.event_id s.env
      simp only [Node.kid, predKid, dispatch_pred, dsl.Formula.eval, leafValue, hsame]
  | @node c pointer_index children fs inner items _ _ ihchildren ih =>
    cases hload with
    | composite hname n hinner hload =>
      obtain rfl := name_injective hname
      refine .cons ⟨rfl, ?_⟩ (ih hload)
      have hkids := ihchildren hinner
      refine composite_run ?_ (fun j hj => ?_) c
      · rw [kids_eq_map, List.length_map, hkids.length_eq]
      · rw [kids_eq_map, List.length_map] at hj
        have hj' : j < (dsl.Formula.evals (leafValue w number s) children).length := hkids.length_eq ▸ hj
        obtain ⟨hkind, hask⟩ := hkids.get hj hj'
        simp only [List.get_eq_getElem] at hkind hask
        rw [kids_kinds, kidAt_some (List.getElem?_eq_getElem hj), List.getElem?_eq_getElem hj']
        refine ⟨?_, hask⟩
        simp [isPred, List.getElem?_eq_getElem hj, hkind]

/-- The call can be loaded, and every node it is loaded as has the value of the formula. -/
def Means (f : dsl.Formula) (item : dsl.Item) : Prop :=
  ∀ number : dsl.LuaString → List dsl.Item → Nat, (∃ node, Loads number [item] [node]) ∧
    ∀ (E : Type) (w : World E) (node : Node) (s : Eng E), Stateless w → Loads number [item] [node] →
      (node.kid w).invokePred s = some (f.eval (leafValue w number s), s)

theorem emitted_loads (number : dsl.LuaString → List dsl.Item → Nat) {fs : List dsl.Formula}
    (h : dsl.Emitted fs items) : ∃ nodes, Loads number items nodes ∧ nodes.length = fs.length := by
  induction h with
  | nil => exact ⟨[], .nil, rfl⟩
  | leaf l _ _ ih =>
    obtain ⟨nodes, hload, hlen⟩ := ih
    exact ⟨_, .leaf 0 [] hload, by simp [hlen]⟩
  | node c _ _ _ ihchildren ih =>
    obtain ⟨args, hargs, -⟩ := ihchildren
    obtain ⟨nodes, hload, hlen⟩ := ih
    exact ⟨_, .composite rfl 0 hargs hload, by simp [hlen]⟩

/-- The function emits one predicate, with the value of the formula that the calls describe. -/
structure Faithful (calls : List dsl.PredCall) (g : dsl.Closure) : Prop where
  described : ∃ f, dsl.Describes [f] calls
  means : ∀ f, dsl.Describes [f] calls →
    dsl.Emits g fun items => ∃ item, items = [item] ∧ item.isPred = true ∧ Means f item

theorem emitted_means {f : dsl.Formula} (h : dsl.Emitted [f] items) :
    ∃ item, items = [item] ∧ item.isPred = true ∧ Means f item := by
  obtain ⟨item, rfl, hpred⟩ := h.single_pred
  refine ⟨item, rfl, hpred, fun number => ⟨?_, fun E w node s hw hload => ?_⟩⟩
  · obtain ⟨nodes, hload, hlen⟩ := emitted_loads number h
    obtain ⟨node, rfl⟩ := List.length_eq_one_iff.mp hlen
    exact ⟨node, hload⟩
  have hvalues := loads_values hw h hload s
  cases hvalues with
  | cons hvalue _ => exact hvalue.2

/-- What the builder returns emits one predicate exactly when one call stands at the top level, and
then the predicate has the value of the formula that the calls describe. -/
theorem predicate_builder_iff {b b' : dsl.PredBuilder} {calls : List dsl.PredCall} {g : dsl.Closure}
    (h : dsl.session b calls = .ok (g, b')) :
    (dsl.EmitsPred g ↔ dsl.topLevel 0 calls = 1) ∧ (Faithful calls g ↔ dsl.topLevel 0 calls = 1) := by
  refine ⟨dsl.emits_pred_iff h, fun ⟨⟨f, hd⟩, _⟩ => hd.top_level, fun hone => ?_⟩
  obtain ⟨fs, hd, hemits⟩ := dsl.session_builds h
  rw [hd.top_level] at hone
  obtain ⟨f, rfl⟩ := List.length_eq_one_iff.mp hone
  refine ⟨⟨f, hd⟩, fun f' hd' => ?_⟩
  obtain rfl : f = f' := List.head_eq_of_cons_eq (hd.unique hd')
  exact hemits.mono fun items hitems => emitted_means hitems

/-! ## Sessions -/

/-- `se_pred("SENSOR_READY")` -/
def sensor_ready : dsl.PredLeaf := ⟨dsl.ascii "SENSOR_READY", .ok, [], dsl.emits_all_nil⟩

def negated : List dsl.PredCall := [.composite .se_pred_not, .leaf sensor_ready, .close (some 1)]

theorem negation_is_faithful : ∃ g b', dsl.session .start negated = .ok (g, b') ∧
    dsl.EmitsPred g ∧ Faithful negated g := by
  obtain ⟨g, b', hrun⟩ : ∃ g b', dsl.session .start negated = .ok (g, b') := ⟨_, _, rfl⟩
  exact ⟨g, b', hrun, (predicate_builder_iff hrun).1.mpr rfl, (predicate_builder_iff hrun).2.mpr rfl⟩

def two_leaves : List dsl.PredCall := [.leaf sensor_ready, .leaf sensor_ready]

theorem two_leaves_are_two_calls : ¬ ∀ (b b' : dsl.PredBuilder) (calls : List dsl.PredCall)
    (g : dsl.Closure), dsl.session b calls = .ok (g, b') → dsl.EmitsPred g := by
  intro hall
  have hsession : ∃ g b', dsl.session .start two_leaves = .ok (g, b') := ⟨_, _, rfl⟩
  obtain ⟨g, b', hrun⟩ := hsession
  have htwo := (dsl.emits_pred_iff hrun).mp (hall _ _ _ _ hrun)
  simp [two_leaves, dsl.topLevel] at htwo

end motioncore.engine
