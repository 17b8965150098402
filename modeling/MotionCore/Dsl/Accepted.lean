-- The programs that end without an error, and when the streams of their trees are
-- properly nested. A brace may close in another call than the one it was opened
-- in, and a call need not end; both pass, and only the first harms the stream.
import MotionCore.Dsl.Programs
import MotionCore.Dsl.Shapes

open motioncore.brackets

namespace motioncore.dsl

/-! ## Programs that nest -/

/-- The brackets of a program: its calls, and its braces with their types. -/
def opRole : Op → Role (Option BraceType)
  | .start_call _ _ => .opens none
  | .end_call _ => .closes none
  | .brace_start brace => .opens (some brace.brace_type)
  | .brace_end _ brace_type => .closes (some brace_type)
  | _ => .plain

/-- The open braces of each open call, the last call first, unless a call ends with a brace
open or a brace ends in a call that has none. -/
def confineStep : List Nat → Op → Option (List Nat)
  | hs, .start_call _ _ => some (0 :: hs)
  | 0 :: hs, .end_call _ => some hs
  | h :: hs, .brace_start _ => some ((h + 1) :: hs)
  | (h + 1) :: hs, .brace_end _ _ => some (h :: hs)
  | _, .end_call _ | _, .brace_start _ | _, .brace_end _ _ => none
  | hs, _ => some hs

def confine (hs : List Nat) (ops : List Op) : Option (List Nat) := ops.foldlM confineStep hs

/-- Each brace is closed in the call in which it was opened. -/
def BracesConfined (ops : List Op) : Prop := (confine [] ops).isSome

def Op.starts : Op → Bool
  | .start_call _ _ => true
  | _ => false

def Op.ends : Op → Bool
  | .end_call _ => true
  | _ => false

def CallsEnded (ops : List Op) : Prop := ops.countP Op.starts = ops.countP Op.ends

instance (ops : List Op) : Decidable (BracesConfined ops) := inferInstanceAs (Decidable (_ = _))

instance (ops : List Op) : Decidable (CallsEnded ops) := inferInstanceAs (Decidable (_ = _))

/-- The parameters that a program makes. A call makes three of its own. -/
def opLength : Op → Nat
  | .start_call _ _ => 3
  | .add_leaf _ | .brace_start _ | .brace_end _ _ => 1
  | _ => 0

def streamLength (ops : List Op) : Nat := (ops.map opLength).sum

/-! ## Runs -/

inductive Effects : View → List Op → View → Prop
  | nil {v : View} : Effects v [] v
  | cons {op : Op} {ops : List Op} {v v' v'' : View} :
      Effect op v v' → Effects v' ops v'' → Effects v (op :: ops) v''

variable {v v' : View}

theorem effects_append {u w : List Op} :
    Effects v (u ++ w) v' ↔ ∃ v₁, Effects v u v₁ ∧ Effects v₁ w v' := by
  constructor
  · intro h
    induction u generalizing v with
    | nil => exact ⟨v, .nil, h⟩
    | cons op u ih =>
      cases h with
      | cons hop hrest =>
        obtain ⟨v₁, hu, hw⟩ := ih hrest
        exact ⟨v₁, .cons hop hu, hw⟩
  · rintro ⟨v₁, hu, hw⟩
    induction hu with
    | nil => exact hw
    | cons hop _ ih => exact .cons hop (ih hw)

variable {ops : List Op}

theorem run_effects {b b' : Builder} (h : run b ops = .ok b') (ho : Ordered b.current_call_stack) :
    Effects b.view ops b'.view ∧ Ordered b'.current_call_stack := by
  induction ops generalizing b with
  | nil =>
    obtain rfl := Except.ok.inj h
    exact ⟨.nil, ho⟩
  | cons op ops ih =>
    obtain ⟨b₁, hstep, hrest⟩ := bind_eq_ok (show (step b op >>= fun b => run b ops) = .ok b' from h)
    obtain ⟨heffect, hordered⟩ := step_effect hstep ho
    obtain ⟨hrun, hordered'⟩ := ih hrest hordered
    exact ⟨.cons heffect hrun, hordered'⟩

theorem run_end_calls (b : Builder) :
    run b (List.replicate b.current_call_stack.length (.end_call none)) =
      .ok b.with_open_calls := by
  generalize hn : b.current_call_stack.length = n
  induction n generalizing b with
  | zero =>
    have hstack := List.length_eq_zero_iff.mp hn
    simp only [List.replicate_zero, run, List.foldlM_nil, Builder.with_open_calls, hstack]
    rfl
  | succ n ih =>
    rcases hstack : b.current_call_stack with _ | ⟨top, _ | ⟨parent, calls⟩⟩
    · simp [hstack] at hn
    · obtain rfl : n = 0 := by simpa [hstack] using hn.symm
      simp only [List.replicate_succ, List.replicate_zero, run, List.foldlM_cons,
        List.foldlM_nil, step, Builder.end_call, hstack]
      simp only [Builder.with_open_calls, hstack]
      rfl
    · have hstep : step b (.end_call none) = .ok (b.close_call top (parent :: calls)) := by
        rw [step, Builder.end_call, hstack]
      have hlen : (b.close_call top (parent :: calls)).current_call_stack.length = n := by
        rw [hstack] at hn
        simpa [Builder.close_call] using hn
      have hopen : (b.close_call top (parent :: calls)).with_open_calls = b.with_open_calls := by
        simp only [Builder.with_open_calls, Builder.close_call, hstack]
        rfl
      rw [List.replicate_succ, run, List.foldlM_cons, hstep]
      exact (ih _ hlen).trans (by rw [hopen])

/-! ## Balanced programs -/

@[simp] theorem put_nil (v : View) : v.put [] = v := by
  obtain ⟨nodes, _ | ⟨c, calls⟩, braces⟩ := v <;> simp [View.put]

@[simp] theorem put_put (v : View) (items more : List Item) :
    (v.put items).put more = v.put (items ++ more) := by
  obtain ⟨nodes, _ | ⟨c, calls⟩, braces⟩ := v <;> simp [View.put]

@[simp] theorem put_braces_eq (v : View) (items : List Item) : (v.put items).braces = v.braces := by
  obtain ⟨nodes, _ | ⟨c, calls⟩, braces⟩ := v <;> rfl

variable {op : Op}

attribute [local simp] opRole in
theorem opens_none (h : opRole op = .opens none) :
    ∃ func_name call_type, op = .start_call func_name call_type := by
  cases op <;> simp [opRole] at h ⊢

theorem closes_none (h : opRole op = .closes none) : ∃ node, op = .end_call node := by
  cases op <;> simp [opRole] at h ⊢

theorem opens_some {brace_type : BraceType} (h : opRole op = .opens (some brace_type)) :
    ∃ brace, op = .brace_start brace ∧ brace.brace_type = brace_type := by
  cases op <;> simp [opRole] at h ⊢
  exact h

theorem closes_some {brace_type : BraceType} (h : opRole op = .closes (some brace_type)) :
    ∃ marker, op = .brace_end marker brace_type := by
  cases op <;> simp [opRole] at h ⊢
  exact h

theorem effect_plain (h : Effect op v v') (hop : opRole op = .plain) :
    ∃ items, Well items ∧ v' = v.put items := by
  cases h with
  | leaf => exact ⟨_, .leaf .nil, rfl⟩
  | brace_start => simp [opRole] at hop
  | brace_end => simp [opRole] at hop
  | start_call => simp [opRole] at hop
  | end_call => simp [opRole] at hop
  | _ => exact ⟨[], .nil, (put_nil v).symm⟩

theorem effect_call {func_name : LuaString} {call_type : CallType} {node : Option Nat} {v₁ : View}
    {inner : List Item} (hopen : Effect (.start_call func_name call_type) v v₁)
    (hclose : Effect (.end_call node) (v₁.put inner) v') :
    ∃ pointer_index, v' = v.put [.call func_name call_type pointer_index inner] := by
  cases hopen with
  | @start_call _ _ pointer_index =>
    cases hclose with
    | @end_call _ _ c calls hcalls =>
      obtain ⟨rfl, rfl⟩ := List.cons.inj hcalls
      exact ⟨pointer_index, rfl⟩

theorem effect_brace {brace : BraceStart} {marker : Option Nat} {v₁ : View} {inner : List Item}
    (hopen : Effect (.brace_start brace) v v₁)
    (hclose : Effect (.brace_end marker brace.brace_type) (v₁.put inner) v') :
    v' = v.put (.param (.start brace) :: (inner ++ [.param (.finish brace.brace_type)])) := by
  cases hopen with
  | brace_start =>
    cases hclose with
    | brace_end _ hbraces =>
      rw [put_braces_eq] at hbraces
      obtain ⟨-, rfl⟩ := List.cons.inj hbraces
      obtain ⟨nodes, _ | ⟨c, calls⟩, braces⟩ := v <;> simp [View.put]

/-- A balanced part of a program adds items that are well, and leaves the rest. -/
theorem effects_well (hbal : Balanced opRole ops) (h : Effects v ops v') :
    ∃ items, Well items ∧ v' = v.put items := by
  induction hbal generalizing v v' with
  | nil =>
    cases h
    exact ⟨[], .nil, (put_nil v).symm⟩
  | plain hop _ ih =>
    cases h with
    | cons heffect hrest =>
      obtain ⟨first, hfirst, rfl⟩ := effect_plain heffect hop
      obtain ⟨items, hwell, rfl⟩ := ih hrest
      exact ⟨first ++ items, hfirst.append hwell, put_put _ _ _⟩
  | @pair o c k body rest ho hc _ _ ihbody ihrest =>
    cases h with
    | cons hopen htail =>
      obtain ⟨v₁, hbody, htail⟩ := effects_append.mp htail
      obtain ⟨inner, hinner, rfl⟩ := ihbody hbody
      cases htail with
      | cons hclose hrest =>
        obtain ⟨items, hwell, rfl⟩ := ihrest hrest
        rcases k with _ | brace_type
        · obtain ⟨func_name, call_type, rfl⟩ := opens_none ho
          obtain ⟨node, rfl⟩ := closes_none hc
          obtain ⟨pointer_index, rfl⟩ := effect_call hopen hclose
          exact ⟨_, .call hinner hwell, put_put _ _ _⟩
        · obtain ⟨brace, rfl, rfl⟩ := opens_some ho
          obtain ⟨marker, rfl⟩ := closes_some hc
          obtain rfl := effect_brace hopen hclose
          exact ⟨_, @Well.brace brace _ _ hinner hwell, by rw [put_put]; simp⟩

/-! ## Confined programs -/

/-- The open braces of each open call against the brackets that are open, the last first. -/
inductive Interleaved : List Nat → List BraceType → List (Option BraceType) → Prop
  | nil : Interleaved [] [] []
  | call {hs : List Nat} {braces : List BraceType} {stack : List (Option BraceType)} :
      Interleaved hs braces stack → Interleaved (0 :: hs) braces (none :: stack)
  | brace {h : Nat} {hs : List Nat} {brace_type : BraceType} {braces : List BraceType}
      {stack : List (Option BraceType)} : Interleaved (h :: hs) braces stack →
      Interleaved ((h + 1) :: hs) (brace_type :: braces) (some brace_type :: stack)

variable {hs hs' : List Nat} {stack : List (Option BraceType)}

/-- A step that keeps the braces in their calls matches its bracket. -/
theorem interleaved_step (heffect : Effect op v v') (hi : Interleaved hs v.braces stack)
    (hstep : confineStep hs op = some hs') :
    ∃ stack', checkStep opRole stack op = some stack' ∧ Interleaved hs' v'.braces stack' := by
  cases heffect with
  | leaf =>
    obtain rfl : hs = hs' := by simpa [confineStep] using hstep
    exact ⟨stack, rfl, by rwa [put_braces_eq]⟩
  | brace_start =>
    cases hs with
    | nil => simp [confineStep] at hstep
    | cons h hs =>
      obtain rfl : (h + 1) :: hs = hs' := by simpa [confineStep] using hstep
      exact ⟨_, rfl, .brace hi⟩
  | brace_end _ hbraces =>
    rw [hbraces] at hi
    cases hi with
    | call => simp [confineStep] at hstep
    | brace hi =>
      obtain rfl := Option.some.inj hstep
      exact ⟨_, by simp [checkStep, opRole], hi⟩
  | start_call =>
    obtain rfl : 0 :: hs = hs' := by simpa [confineStep] using hstep
    exact ⟨_, rfl, .call hi⟩
  | end_call =>
    simp only [put_braces_eq]
    generalize v.braces = braces at hi
    cases hi with
    | nil => simp [confineStep] at hstep
    | call hi =>
      obtain rfl := Option.some.inj hstep
      exact ⟨_, by simp [checkStep, opRole], hi⟩
    | brace => simp [confineStep] at hstep
  | _ =>
    obtain rfl : hs = hs' := by simpa [confineStep] using hstep
    exact ⟨stack, rfl, hi⟩

theorem interleaved_run (h : Effects v ops v') (hi : Interleaved hs v.braces stack)
    (hrun : confine hs ops = some hs') :
    ∃ stack', check opRole stack ops = some stack' ∧ Interleaved hs' v'.braces stack' := by
  induction h generalizing hs stack with
  | nil =>
    obtain rfl := Option.some.inj hrun
    exact ⟨stack, rfl, hi⟩
  | cons heffect _ ih =>
    rw [confine, List.foldlM_cons] at hrun
    obtain ⟨hs₁, hstep, hrest⟩ := Option.bind_eq_some_iff.mp hrun
    obtain ⟨stack₁, hcheck, hi₁⟩ := interleaved_step heffect hi hstep
    obtain ⟨stack', hrest', hi'⟩ := ih hi₁ hrest
    exact ⟨stack', by rw [check_cons, hcheck]; exact hrest', hi'⟩

/-- Without open braces the open calls can end. -/
theorem confine_end_calls (hi : Interleaved hs [] stack) :
    confine hs (List.replicate hs.length (.end_call none)) = some [] := by
  induction hs generalizing stack with
  | nil => rfl
  | cons h hs ih =>
    cases hi with
    | call hi => exact ih hi

/-! ## What a run adds up to -/

/-- The braces are counted through the ended calls and the open ones. -/
def View.flat (v : View) : Option Nat :=
  v.calls.foldr (fun c open_before => open_before.bind (Item.flatAll c.items))
    (Item.flatAll v.nodes 0)

theorem flatAll_append (items more : List Item) (h : Nat) :
    Item.flatAll (items ++ more) h = (Item.flatAll items h).bind (Item.flatAll more) := by
  induction items generalizing h with
  | nil => rfl
  | cons item items ih =>
    rw [List.cons_append, Item.flatAll, Item.flatAll, Option.bind_assoc]
    exact Option.bind_congr fun k _ => ih k

theorem flat_put (v : View) (items : List Item) :
    (v.put items).flat = v.flat.bind (Item.flatAll items) := by
  obtain ⟨nodes, _ | ⟨c, calls⟩, braces⟩ := v
  · simp [View.flat, View.put, flatAll_append]
  · simp only [View.flat, View.put, List.foldr_cons, Option.bind_assoc]
    exact Option.bind_congr fun k _ => flatAll_append _ _ _

theorem flatAll_single (item : Item) : Item.flatAll [item] = Item.flat item := by
  funext h
  rw [Item.flatAll]
  cases Item.flat item h <;> rfl

theorem flat_step (heffect : Effect op v v') (h : v.flat = some v.braces.length) :
    v'.flat = some v'.braces.length := by
  cases heffect with
  | leaf => rw [flat_put, put_braces_eq, h, flatAll_single]; rfl
  | brace_start => exact (flat_put _ _).trans (by rw [h, flatAll_single]; rfl)
  | brace_end _ hbraces =>
    rw [hbraces] at h
    exact (flat_put _ _).trans (by rw [h, flatAll_single]; rfl)
  | start_call =>
    simp only [View.flat, List.foldr_cons] at h ⊢
    rw [h]
    rfl
  | end_call hcalls =>
    rw [flat_put, put_braces_eq, flatAll_single]
    rw [View.flat, hcalls, List.foldr_cons] at h
    exact h
  | _ => exact h

/-- The own braces of each open call, where each ended call has closed its own. -/
def scanCalls : List OpenItems → Option (List Nat)
  | [] => some []
  | c :: calls => (scanCalls calls).bind fun hs => (Item.scanAll c.items 0).map (· :: hs)

def View.scans (v : View) : Option (List Nat) :=
  (Item.scanAll v.nodes 0).bind fun _ => scanCalls v.calls

theorem scanAll_append (items more : List Item) (h : Nat) :
    Item.scanAll (items ++ more) h = (Item.scanAll items h).bind (Item.scanAll more) := by
  induction items generalizing h with
  | nil => rfl
  | cons item items ih =>
    rw [List.cons_append, Item.scanAll, Item.scanAll, Option.bind_assoc]
    exact Option.bind_congr fun k _ => ih k

theorem scanAll_single (item : Item) : Item.scanAll [item] = Item.scan item := by
  funext h
  rw [Item.scanAll]
  cases Item.scan item h <;> rfl

/-- What a parameter does to the counts of the open calls. -/
def scanTop (p : DslParam) : List Nat → Option (List Nat)
  | [] => none
  | h :: hs => (p.scan h).map (· :: hs)

theorem scans_put_param (v : View) (p : DslParam) (hopen : v.calls ≠ []) :
    (v.put [.param p]).scans = v.scans.bind (scanTop p) := by
  obtain ⟨nodes, _ | ⟨c, calls⟩, braces⟩ := v
  · exact absurd rfl hopen
  · simp only [View.scans, View.put, scanCalls, Option.bind_assoc]
    refine Option.bind_congr fun k _ => Option.bind_congr fun hs _ => ?_
    rw [scanAll_append, scanAll_single]
    cases Item.scanAll c.items 0 <;> rfl

theorem scan_call {c : OpenItems} {h k : Nat} (hs : Item.scan c.call h = some k) :
    k = h ∧ Item.scanAll c.items 0 = some 0 := by
  rw [OpenItems.call, Item.scan] at hs
  split at hs
  · next hzero => exact ⟨(Option.some.inj hs).symm, hzero⟩
  · cases hs

theorem scans_put_call {c : OpenItems} (h : (v.put [c.call]).scans = some hs) :
    v.scans = some hs ∧ Item.scanAll c.items 0 = some 0 := by
  obtain ⟨nodes, _ | ⟨parent, calls⟩, braces⟩ := v
  · obtain ⟨k, hk, hnil⟩ := Option.bind_eq_some_iff.mp h
    simp only [View.put, scanAll_append, scanAll_single] at hk
    obtain ⟨j, hj, hcall⟩ := Option.bind_eq_some_iff.mp hk
    obtain ⟨-, hzero⟩ := scan_call hcall
    exact ⟨Option.bind_eq_some_iff.mpr ⟨j, hj, hnil⟩, hzero⟩
  · obtain ⟨k, hk, hcalls⟩ := Option.bind_eq_some_iff.mp h
    obtain ⟨rest, hrest, htop⟩ := Option.bind_eq_some_iff.mp hcalls
    simp only [scanAll_append, scanAll_single] at htop
    obtain ⟨i, hi, rfl⟩ := Option.map_eq_some_iff.mp htop
    obtain ⟨j, hj, hcall⟩ := Option.bind_eq_some_iff.mp hi
    obtain ⟨rfl, hzero⟩ := scan_call hcall
    refine ⟨Option.bind_eq_some_iff.mpr ⟨k, hk, Option.bind_eq_some_iff.mpr ⟨rest, hrest, ?_⟩⟩, hzero⟩
    rw [hj]
    rfl

/-- A tree in the making keeps the braces in their calls where its program does. -/
theorem scans_step (heffect : Effect op v v') (hscan : v'.scans = some hs') :
    ∃ hs, v.scans = some hs ∧ confineStep hs op = some hs' := by
  have hput : ∀ {p : DslParam} (braces : List BraceType), v.calls ≠ [] →
      View.scans { v.put [.param p] with braces := braces } = some hs' →
      ∃ h hs, v.scans = some (h :: hs) ∧ (p.scan h).map (· :: hs) = some hs' := by
    intro p braces hopen h
    rw [show View.scans { v.put [.param p] with braces := braces } = (v.put [.param p]).scans
      from rfl, scans_put_param v p hopen] at h
    obtain ⟨_ | ⟨k, hs⟩, hs₁, htop⟩ := Option.bind_eq_some_iff.mp h
    · simp [scanTop] at htop
    · exact ⟨k, hs, hs₁, htop⟩
  cases heffect with
  | leaf hopen =>
    obtain ⟨h, hs, hv, htop⟩ := hput (v.put _).braces hopen hscan
    exact ⟨h :: hs, hv, htop⟩
  | brace_start hopen =>
    obtain ⟨h, hs, hv, htop⟩ := hput _ hopen hscan
    exact ⟨h :: hs, hv, htop⟩
  | brace_end hopen _ =>
    obtain ⟨_ | h, hs, hv, htop⟩ := hput _ hopen hscan
    · simp [DslParam.scan] at htop
    · exact ⟨(h + 1) :: hs, hv, htop⟩
  | start_call =>
    obtain ⟨k, hk, hcalls⟩ := Option.bind_eq_some_iff.mp hscan
    obtain ⟨hs, hrest, htop⟩ := Option.bind_eq_some_iff.mp hcalls
    exact ⟨hs, Option.bind_eq_some_iff.mpr ⟨k, hk, hrest⟩, htop⟩
  | end_call hcalls =>
    obtain ⟨hv, hzero⟩ := scans_put_call hscan
    obtain ⟨k, hk, hrest⟩ := Option.bind_eq_some_iff.mp hv
    refine ⟨0 :: hs', Option.bind_eq_some_iff.mpr ⟨k, hk, ?_⟩, rfl⟩
    rw [hcalls, scanCalls]
    exact Option.bind_eq_some_iff.mpr ⟨hs', hrest, by rw [hzero]; rfl⟩
  | _ => exact ⟨hs', hscan, by cases hs' <;> rfl⟩

theorem scans_run (h : Effects v ops v') (hs' : List Nat) (hscan : v'.scans = some hs') :
    ∃ hs, v.scans = some hs ∧ confine hs ops = some hs' := by
  induction h with
  | nil => exact ⟨hs', hscan, rfl⟩
  | cons heffect _ ih =>
    obtain ⟨hs₁, hscan₁, hrest⟩ := ih hscan
    obtain ⟨hs, hv, hstep⟩ := scans_step heffect hscan₁
    refine ⟨hs, hv, ?_⟩
    rw [confine, List.foldlM_cons, hstep]
    exact hrest

theorem flat_run (h : Effects v ops v') (hv : v.flat = some v.braces.length) :
    v'.flat = some v'.braces.length := by
  induction h with
  | nil => exact hv
  | cons heffect _ ih => exact ih (flat_step heffect hv)

/-! ## Lengths and ends -/

/-- The parameters of a tree in the making, with those that its open calls still need. -/
def View.size (v : View) : Nat :=
  Item.counts v.nodes + (v.calls.map fun c => 3 + Item.counts c.items).sum

theorem size_put (v : View) (items : List Item) :
    (v.put items).size = v.size + Item.counts items := by
  obtain ⟨nodes, _ | ⟨c, calls⟩, braces⟩ := v
  · simp [View.size, View.put]
  · simp [View.size, View.put]
    omega

theorem size_step (heffect : Effect op v v') : v'.size = v.size + opLength op := by
  cases heffect with
  | leaf => exact size_put _ _
  | brace_start => exact size_put _ _
  | brace_end => exact size_put _ _
  | start_call =>
    simp only [View.size, List.map_cons, List.sum_cons, Item.counts, opLength]
    omega
  | end_call hcalls =>
    rw [size_put]
    simp only [View.size, hcalls, List.map_cons, List.sum_cons, OpenItems.call, Item.counts,
      Item.count, opLength]
    omega
  | _ => rfl

theorem size_run (h : Effects v ops v') : v'.size = v.size + streamLength ops := by
  induction h with
  | nil => rfl
  | cons heffect _ ih =>
    rw [ih, size_step heffect, streamLength, streamLength, List.map_cons, List.sum_cons]
    omega

theorem length_put (v : View) (items : List Item) :
    (v.put items).calls.length = v.calls.length := by
  obtain ⟨nodes, _ | ⟨c, calls⟩, braces⟩ := v <;> rfl

theorem calls_step (heffect : Effect op v v') : v'.calls.length + (if op.ends then 1 else 0) =
      v.calls.length + if op.starts then 1 else 0 := by
  cases heffect with
  | leaf => exact length_put _ _
  | brace_start => exact length_put _ _
  | brace_end => exact length_put _ _
  | start_call => rfl
  | end_call hcalls =>
    rw [length_put, hcalls]
    rfl
  | _ => rfl

theorem confine_step (h : confineStep hs op = some hs') :
    hs'.length + (if op.ends then 1 else 0) = hs.length + if op.starts then 1 else 0 := by
  unfold confineStep at h
  split at h <;> cases h <;> simp [Op.starts, Op.ends]

theorem calls_run (h : Effects v ops v') :
    v'.calls.length + ops.countP Op.ends = v.calls.length + ops.countP Op.starts := by
  induction h with
  | nil => rfl
  | @cons op ops _ _ _ heffect _ ih =>
    have hstep := calls_step heffect
    rw [List.countP_cons, List.countP_cons]
    omega

theorem confine_run (h : confine hs ops = some hs') :
    hs'.length + ops.countP Op.ends = hs.length + ops.countP Op.starts := by
  induction ops generalizing hs with
  | nil =>
    obtain rfl := Option.some.inj h
    rfl
  | cons op ops ih =>
    rw [confine, List.foldlM_cons] at h
    obtain ⟨hs₁, hop, hrest⟩ := Option.bind_eq_some_iff.mp h
    have hstep := confine_step hop
    have hrun := ih hrest
    rw [List.countP_cons, List.countP_cons]
    omega

end motioncore.dsl
