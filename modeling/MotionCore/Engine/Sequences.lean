-- What a sequence owes its children: each of them in turn, until it has completed, and then the
-- next. The children answer as they like. The position in the sequence is a byte, and with
-- more children than it can count the sequence starts over.
import MotionCore.Engine.Steps
import MotionCore.Lib.Runs

namespace motioncore.engine

open EventType machine

variable {E : Type} {α β : Type}

/-! ## What a program does to its children -/

/-- What a composite does to a child, with the answer of the child. -/
inductive Deed where
  | invoked (j : Nat) (r : Result)
  | asked (j : Nat) (b : Bool)
  | terminated (j : Nat)
  | reset (j : Nat)
  | resetAll (j : Nat)
deriving DecidableEq

/-- The program may do so much, with this outcome. Whatever it asks for may be answered in any
way, and `none` is the outcome of a loop that does not end. -/
def Does : Prog α → NodeData → List Deed → Option (α × NodeData) → Prop
  | .ret a, d, deeds, out => deeds = [] ∧ out = some (a, d)
  | .spin, _, deeds, out => deeds = [] ∧ out = none
  | .leaf k, _, deeds, out => ∃ r d', Does (k r) d' deeds out
  | .getData k, d, deeds, out => Does (k d) d deeds out
  | .setData d' k, _, deeds, out => Does k d' deeds out
  | .readField _ k, d, deeds, out => ∃ v, Does (k v) d deeds out
  | .childActive _ k, d, deeds, out => ∃ b, Does (k b) d deeds out
  | .childInitialized _ k, d, deeds, out => ∃ b, Does (k b) d deeds out
  | .invokeAny j k, d, deeds, out => ∃ r rest, deeds = .invoked j r :: rest ∧ Does (k r) d rest out
  | .invokePred j k, d, deeds, out => ∃ b rest, deeds = .asked j b :: rest ∧ Does (k b) d rest out
  | .childTerminate j k, d, deeds, out => ∃ rest, deeds = .terminated j :: rest ∧ Does k d rest out
  | .childReset j k, d, deeds, out => ∃ rest, deeds = .reset j :: rest ∧ Does k d rest out
  | .childResetRecursive j k, d, deeds, out => ∃ rest, deeds = .resetAll j :: rest ∧ Does k d rest out

def SameData (idx : Nat) (s s' : Eng E) : Prop := (s'.nodes idx).data = (s.nodes idx).data

theorem sameData_follows (idx : Nat) : Follows (SameData (E := E) idx) where
  refl _ := rfl
  trans _ _ _ h h' := Eq.trans h' h
  env _ _ := rfl

theorem sameData_at {idx i : Nat} (h : i ≠ idx) : RespectsAt (SameData (E := E) idx) i where
  setNode s st := by
    unfold SameData Eng.setNode
    dsimp only
    rw [if_neg (Ne.symm h)]
  record _ _ _ := rfl
  drop _ := rfl

@[simp] theorem setData_data (s : Eng E) (idx : Nat) (d : NodeData) :
    ((s.setData idx d).nodes idx).data = d := by
  simp [Eng.setData, Eng.setNode]

/-- What a program does to its children in the engine, each with the state that it is done in. -/
def doings (w : World E) (kids : List (Kid E)) (idx : Nat)
    (own : NodeData → E → Result × NodeData × E) : Prog α → Eng E → List (Deed × Eng E)
  | .ret _, _ | .spin, _ => []
  | .leaf k, s =>
    let (r, d, env) := own (s.nodes idx).data s.env
    doings w kids idx own (k r) { s.setData idx d with env := env }
  | .getData k, s => doings w kids idx own (k (s.nodes idx).data) s
  | .setData d k, s => doings w kids idx own k (s.setData idx d)
  | .readField f k, s => doings w kids idx own (k (w.field f s.env)) s
  | .childActive j k, s => doings w kids idx own (k ((kidAt kids j).active s)) s
  | .childInitialized j k, s => doings w kids idx own (k ((kidAt kids j).initialized s)) s
  | .invokeAny j k, s =>
    match (kidAt kids j).invoke s with
    | none => []
    | some (r, s') => (.invoked j r, s) :: doings w kids idx own (k r) s'
  | .invokePred j k, s =>
    match (kidAt kids j).invokePred s with
    | none => []
    | some (b, s') => (.asked j b, s) :: doings w kids idx own (k b) s'
  | .childTerminate j k, s =>
    match (kidAt kids j).terminate s with
    | none => []
    | some s' => (.terminated j, s) :: doings w kids idx own k s'
  | .childReset j k, s => (.reset j, s) :: doings w kids idx own k ((kidAt kids j).reset s)
  | .childResetRecursive j k, s =>
    (.resetAll j, s) :: doings w kids idx own k ((kidAt kids j).resetRecursive s)

/-- What a program does in the engine is one of the things that it may do. -/
theorem doings_does {w : World E} {idx : Nat} {kids : List (Kid E)}
    (hkids : ∀ k ∈ kids, k.Respects (SameData idx)) (own : NodeData → E → Result × NodeData × E)
    (p : Prog α) {s s' : Eng E} {a : α} (h : runProg w kids idx own p s = some (a, s')) :
    Does p (s.nodes idx).data ((doings w kids idx own p s).map Prod.fst)
      (some (a, (s'.nodes idx).data)) := by
  have hkid := kidAt_respects ((sameData_follows idx).into w) hkids
  induction p generalizing s with
  | ret b =>
    simp only [runProg, Option.some.injEq, Prod.mk.injEq] at h
    obtain ⟨rfl, rfl⟩ := h
    exact ⟨rfl, rfl⟩
  | spin => simp [runProg] at h
  | leaf k ih => exact ⟨_, _, ih _ h⟩
  | getData k ih => exact ih _ h
  | setData d k ih =>
    have hdoes := ih h
    rw [setData_data] at hdoes
    exact hdoes
  | readField f k ih => exact ⟨_, ih _ h⟩
  | childActive j k ih => exact ⟨_, ih _ h⟩
  | childInitialized j k ih => exact ⟨_, ih _ h⟩
  | invokeAny j k ih =>
    simp only [runProg, Option.bind_eq_bind, Option.bind_eq_some_iff] at h
    obtain ⟨⟨r, s₁⟩, hk, h⟩ := h
    have hdoes := ih r h
    have hsame : (s₁.nodes idx).data = (s.nodes idx).data := (hkid j).invoke _ _ _ hk
    rw [hsame] at hdoes
    simp only [doings, hk, List.map_cons]
    exact ⟨r, _, rfl, hdoes⟩
  | invokePred j k ih =>
    simp only [runProg, Option.bind_eq_bind, Option.bind_eq_some_iff] at h
    obtain ⟨⟨b, s₁⟩, hk, h⟩ := h
    have hdoes := ih b h
    have hsame : (s₁.nodes idx).data = (s.nodes idx).data := (hkid j).invokePred _ _ _ hk
    rw [hsame] at hdoes
    simp only [doings, hk, List.map_cons]
    exact ⟨b, _, rfl, hdoes⟩
  | childTerminate j k ih =>
    simp only [runProg, Option.bind_eq_bind, Option.bind_eq_some_iff] at h
    obtain ⟨s₁, hk, h⟩ := h
    have hdoes := ih h
    have hsame : (s₁.nodes idx).data = (s.nodes idx).data := (hkid j).terminate _ _ hk
    rw [hsame] at hdoes
    simp only [doings, hk, List.map_cons]
    exact ⟨_, rfl, hdoes⟩
  | childReset j k ih =>
    have hdoes := ih h
    have hsame : (((kidAt kids j).reset s).nodes idx).data = (s.nodes idx).data := (hkid j).reset s
    rw [hsame] at hdoes
    exact ⟨_, rfl, hdoes⟩
  | childResetRecursive j k ih =>
    have hdoes := ih h
    have hsame : (((kidAt kids j).resetRecursive s).nodes idx).data = (s.nodes idx).data :=
      (hkid j).resetRecursive s
    rw [hsame] at hdoes
    exact ⟨_, rfl, hdoes⟩

inductive DeedRun (kids : List (Kid E)) : Deed → Eng E → Eng E → Prop where
  | invoked {j : Nat} {r : Result} {s s' : Eng E} (h : (kidAt kids j).invoke s = some (r, s')) :
    DeedRun kids (.invoked j r) s s'
  | asked {j : Nat} {b : Bool} {s s' : Eng E} (h : (kidAt kids j).invokePred s = some (b, s')) :
    DeedRun kids (.asked j b) s s'
  | terminated {j : Nat} {s s' : Eng E} (h : (kidAt kids j).terminate s = some s') :
    DeedRun kids (.terminated j) s s'
  | reset (j : Nat) (s : Eng E) : DeedRun kids (.reset j) s ((kidAt kids j).reset s)
  | resetAll (j : Nat) (s : Eng E) : DeedRun kids (.resetAll j) s ((kidAt kids j).resetRecursive s)

/-- One deed after the other. In between only the node itself may change. -/
inductive Chain (kids : List (Kid E)) (idx : Nat) : Eng E → List (Deed × Eng E) → Eng E → Prop where
  | nil {s s' : Eng E} (h : ∀ n, n ≠ idx → s'.nodes n = s.nodes n) : Chain kids idx s [] s'
  | cons {deed : Deed} {rest : List (Deed × Eng E)} {s s₀ s₁ s' : Eng E}
    (h : ∀ n, n ≠ idx → s₀.nodes n = s.nodes n) (hdeed : DeedRun kids deed s₀ s₁)
    (hrest : Chain kids idx s₁ rest s') : Chain kids idx s ((deed, s₀) :: rest) s'

section

variable {kids : List (Kid E)} {idx : Nat} {s s₀ s₁ s' : Eng E} {rest : List (Deed × Eng E)}

theorem Chain.of_other (hsame : ∀ n, n ≠ idx → s₁.nodes n = s.nodes n)
    (h : Chain kids idx s₁ rest s') : Chain kids idx s rest s' := by
  cases h with
  | nil h => exact .nil fun n hn => (h n hn).trans (hsame n hn)
  | cons h hdeed hrest => exact .cons (fun n hn => (h n hn).trans (hsame n hn)) hdeed hrest

theorem Chain.split {before after : List (Deed × Eng E)} (h : Chain kids idx s (before ++ after) s') :
    ∃ s₁, Chain kids idx s before s₁ ∧ Chain kids idx s₁ after s' := by
  induction before generalizing s with
  | nil => exact ⟨s, .nil fun _ _ => rfl, h⟩
  | cons x before ih =>
    cases h with
    | cons h hdeed hrest =>
      obtain ⟨s₁, hbefore, hafter⟩ := ih hrest
      exact ⟨s₁, .cons h hdeed hbefore, hafter⟩

theorem Chain.deed_of_mem (h : Chain kids idx s rest s') {deed : Deed} (hmem : (deed, s₀) ∈ rest) :
    ∃ s₁, DeedRun kids deed s₀ s₁ := by
  obtain ⟨before, after, rfl⟩ := List.append_of_mem hmem
  obtain ⟨s₁, -, hafter⟩ := h.split
  cases hafter with
  | cons _ hdeed _ => exact ⟨_, hdeed⟩

/-- What comes after a deed finds the children as the deed left them. -/
theorem Chain.next {before : List (Deed × Eng E)} {deed deed' : Deed}
    (h : Chain kids idx s (before ++ (deed, s₀) :: (deed', s₁) :: rest) s') :
    ∃ s₂, DeedRun kids deed s₀ s₂ ∧ ∀ n, n ≠ idx → s₁.nodes n = s₂.nodes n := by
  obtain ⟨s₂, -, hafter⟩ := h.split
  cases hafter with
  | cons _ hdeed hrest =>
    cases hrest with
    | cons hsame _ _ => exact ⟨_, hdeed, hsame⟩

end

theorem setData_other (s : Eng E) (idx : Nat) (d : NodeData) (n : Nat) (hn : n ≠ idx) :
    (s.setData idx d).nodes n = s.nodes n := by
  simp [Eng.setData, Eng.setNode, hn]

theorem doings_chain {w : World E} {idx : Nat} {kids : List (Kid E)}
    (own : NodeData → E → Result × NodeData × E) (p : Prog α) {s s' : Eng E} {a : α}
    (h : runProg w kids idx own p s = some (a, s')) :
    Chain kids idx s (doings w kids idx own p s) s' := by
  induction p generalizing s with
  | ret b =>
    cases h
    exact .nil fun _ _ => rfl
  | spin => exact nomatch h
  | leaf k ih =>
    refine Chain.of_other (fun n hn => ?_) (ih _ h)
    exact setData_other s idx _ n hn
  | getData k ih => exact ih _ h
  | setData d k ih => exact (ih h).of_other (setData_other s idx d)
  | readField f k ih => exact ih _ h
  | childActive j k ih => exact ih _ h
  | childInitialized j k ih => exact ih _ h
  | invokeAny j k ih =>
    simp only [runProg, Option.bind_eq_bind, Option.bind_eq_some_iff] at h
    obtain ⟨⟨r, s₁⟩, hk, h⟩ := h
    simp only [doings, hk]
    exact .cons (fun _ _ => rfl) (.invoked hk) (ih r h)
  | invokePred j k ih =>
    simp only [runProg, Option.bind_eq_bind, Option.bind_eq_some_iff] at h
    obtain ⟨⟨b, s₁⟩, hk, h⟩ := h
    simp only [doings, hk]
    exact .cons (fun _ _ => rfl) (.asked hk) (ih b h)
  | childTerminate j k ih =>
    simp only [runProg, Option.bind_eq_bind, Option.bind_eq_some_iff] at h
    obtain ⟨s₁, hk, h⟩ := h
    simp only [doings, hk]
    exact .cons (fun _ _ => rfl) (.terminated hk) (ih h)
  | childReset j k ih => exact .cons (fun _ _ => rfl) (.reset j s) (ih h)
  | childResetRecursive j k ih => exact .cons (fun _ _ => rfl) (.resetAll j s) (ih h)

/-! ## The sequence as it is meant -/

/-- The child has completed with the answer: a oneshot and a predicate always have, and a main
child when it asks for its end. -/
def finishes (args : List ArgKind) (j : Nat) (r : Result) : Bool :=
  !isMain args j ||
    r.layer == .pipeline && (r.code == .DISABLE || r.code == .TERMINATE || r.code == .RESET)

/-- The children that are left, and the one that has completed and is to be terminated. -/
structure Todo where
  left : List Nat
  leaving : Option Nat
deriving DecidableEq

/-- The children are worked off one after the other. A main child is terminated when it has
completed. -/
def Todo.step (args : List ArgKind) (t : Todo) : Deed → Option Todo
  | .invoked i r =>
    match t.leaving, t.left with
    | none, j :: js =>
      if i = j then
        if finishes args j r then some ⟨js, if isMain args j then some j else none⟩ else some t
      else none
    | _, _ => none
  | .terminated i => if t.leaving = some i then some { t with leaving := none } else none
  | _ => none

/-- The children that are calls, in their order, from the given one on. -/
def callsFrom (args : List ArgKind) (state : Nat) : List Nat :=
  (List.range' state (args.length - state)).filter (isCall args)

def completed (args : List ArgKind) (deeds : List Deed) : List Nat :=
  deeds.filterMap fun
    | .invoked j r => if finishes args j r then some j else none
    | _ => none

variable {args : List ArgKind} {state : Nat}

theorem callsFrom_of_le (h : args.length ≤ state) : callsFrom args state = [] := by
  unfold callsFrom
  rw [Nat.sub_eq_zero_of_le h]
  rfl

theorem callsFrom_skip (h : isCall args state = false) :
    callsFrom args state = callsFrom args (state + 1) := by
  by_cases hlt : state < args.length
  · have hsub : args.length - state = args.length - (state + 1) + 1 := by omega
    unfold callsFrom
    rw [hsub, List.range'_succ, List.filter_cons_of_neg (by simp [h])]
  · rw [callsFrom_of_le (by omega), callsFrom_of_le (by omega)]

theorem callsFrom_call (h : isCall args state = true) :
    callsFrom args state = state :: callsFrom args (state + 1) := by
  have hlt : state < args.length := by
    by_contra hge
    unfold isCall at h
    rw [List.getElem?_eq_none (by omega)] at h
    exact absurd h (by decide)
  have hsub : args.length - state = args.length - (state + 1) + 1 := by omega
  unfold callsFrom
  rw [hsub, List.range'_succ, List.filter_cons_of_pos h]

/-- Every step works off the first child that is left, or terminates the one before it. -/
theorem Todo.step_cases {t u : Todo} {deed : Deed} (h : t.step args deed = some u) :
    (∃ j js r, deed = .invoked j r ∧ t = ⟨j :: js, none⟩ ∧ finishes args j r = true ∧
      u = ⟨js, if isMain args j then some j else none⟩) ∨
    (∃ j js r, deed = .invoked j r ∧ t = ⟨j :: js, none⟩ ∧ finishes args j r = false ∧ u = t) ∨
    ∃ j, deed = .terminated j ∧ t.leaving = some j ∧ u = { t with leaving := none } := by
  obtain ⟨left, leaving⟩ := t
  cases deed with
  | invoked i r =>
    cases leaving with
    | some k => exact nomatch h
    | none =>
      cases left with
      | nil => exact nomatch h
      | cons j js =>
        simp only [Todo.step] at h
        rw [Option.ite_none_right_eq_some] at h
        obtain ⟨rfl, h⟩ := h
        cases hf : finishes args i r with
        | true =>
          rw [hf, if_pos rfl] at h
          exact .inl ⟨i, js, r, rfl, rfl, hf, (Option.some.inj h).symm⟩
        | false =>
          rw [hf, if_neg Bool.false_ne_true] at h
          exact .inr (.inl ⟨i, js, r, rfl, rfl, hf, (Option.some.inj h).symm⟩)
  | terminated i =>
    simp only [Todo.step] at h
    rw [Option.ite_none_right_eq_some] at h
    exact .inr (.inr ⟨i, rfl, h.1, (Option.some.inj h.2).symm⟩)
  | asked => exact nomatch h
  | reset => exact nomatch h
  | resetAll => exact nomatch h

variable {deeds : List Deed}

theorem completed_append_left {t t' : Todo} (h : runs (Todo.step args) t deeds = some t') :
    completed args deeds ++ t'.left = t.left := by
  induction deeds generalizing t with
  | nil =>
    cases h
    rfl
  | cons deed deeds ih =>
    simp only [runs_cons, Option.bind_eq_some_iff] at h
    obtain ⟨u, hu, h⟩ := h
    have hrest := ih h
    unfold completed at hrest ⊢
    rw [List.filterMap_cons]
    obtain ⟨j, js, r, rfl, rfl, hf, rfl⟩ | ⟨j, js, r, rfl, rfl, hf, rfl⟩ | ⟨j, rfl, -, rfl⟩ :=
      Todo.step_cases hu
    · simp only [hf, if_true, List.cons_append, hrest]
    · simpa only [hf, Bool.false_eq_true, if_false] using hrest
    · exact hrest

/-! ## One tick -/

theorem isCall_of_part
    (h : (isOneshot args state || isPred args state) = true ∨ isMain args state = true) :
    isCall args state = true := by
  unfold isOneshot isPred isMain at h
  unfold isCall
  simp only [Bool.or_eq_true, beq_iff_eq] at h
  rcases h with (h | h) | h <;> rw [h] <;> rfl

theorem not_isCall (hother : (isOneshot args state || isPred args state) = false)
    (hmain : isMain args state = false) : isCall args state = false := by
  unfold isOneshot isPred at hother
  unfold isMain at hmain
  unfold isCall
  cases hk : args[state]? with
  | none => rfl
  | some k =>
    rw [hk] at hother hmain
    cases k with
    | call t => cases t <;> simp at hother hmain
    | int v => rfl
    | field f => rfl
    | other => rfl

theorem not_isMain (h : (isOneshot args state || isPred args state) = true) :
    isMain args state = false := by
  unfold isOneshot isPred at h
  unfold isMain
  simp only [Bool.or_eq_true, beq_iff_eq] at h
  rcases h with h | h <;> rw [h] <;> rfl

/-- The loop goes on with the next child. -/
def Advances (args : List ArgKind) (fuel state : Nat) (d : NodeData) (deeds : List Deed)
    (out : Option (Result × NodeData)) : Prop :=
  Does (sequence_loop args fuel ((state + 1) % 256)) { d with state := (state + 1) % 256 } deeds out

variable {d : NodeData} {fuel : Nat}

/-- One round of the loop: there is no child left, the parameter is no call, the child
completes, or it is still running. -/
theorem sequence_loop_cases {out : Option (Result × NodeData)}
    (h : Does (sequence_loop args (fuel + 1) state) d deeds out) :
    (args.length ≤ state ∧ deeds = [] ∧ out = some (SE_PIPELINE_DISABLE, d)) ∨
    (state < args.length ∧ isCall args state = false ∧ Advances args fuel state d deeds out) ∨
    (state < args.length ∧ isCall args state = true ∧ ∃ r rest, finishes args state r = true ∧
      deeds = .invoked state r :: (if isMain args state then .terminated state :: rest else rest) ∧
      Advances args fuel state d rest out) ∨
    (state < args.length ∧ isMain args state = true ∧ ∃ r r', finishes args state r = false ∧
      r' ≠ SE_PIPELINE_DISABLE ∧ deeds = [.invoked state r] ∧ out = some (r', d)) := by
  simp only [sequence_loop] at h
  by_cases hend : args.length ≤ state
  · rw [if_pos hend] at h
    exact .inl ⟨hend, h⟩
  rw [if_neg hend] at h
  have hlt : state < args.length := by omega
  cases hother : isOneshot args state || isPred args state with
  | true =>
    rw [hother, if_pos rfl] at h
    obtain ⟨r, rest, rfl, h⟩ := h
    have hmain := not_isMain hother
    refine .inr (.inr (.inl ⟨hlt, isCall_of_part (.inl hother), r, rest, ?_, ?_, h⟩))
    · unfold finishes
      rw [hmain]
      rfl
    · rw [hmain]
      rfl
  | false =>
    rw [hother, if_neg Bool.false_ne_true] at h
    cases hmain : isMain args state with
    | false =>
      rw [hmain, if_neg Bool.false_ne_true] at h
      exact .inr (.inl ⟨hlt, not_isCall hother hmain, h⟩)
    | true =>
      rw [hmain, if_pos rfl] at h
      have hcall := isCall_of_part (.inr hmain)
      obtain ⟨⟨layer, code⟩, rest, rfl, h⟩ := h
      have hfinishes : finishes args state ⟨layer, code⟩ =
          (layer == .pipeline && (code == .DISABLE || code == .TERMINATE || code == .RESET)) := by
        unfold finishes
        rw [hmain]
        rfl
      have hrunning : ∀ r' : Result, r' ≠ SE_PIPELINE_DISABLE →
          finishes args state ⟨layer, code⟩ = false → rest = [] ∧ out = some (r', d) →
          ∃ r r', finishes args state r = false ∧ r' ≠ SE_PIPELINE_DISABLE ∧
            Deed.invoked state ⟨layer, code⟩ :: rest = [.invoked state r] ∧ out = some (r', d) :=
        fun r' hne hf hret => ⟨_, r', hf, hne, by rw [hret.1], hret.2⟩
      cases layer with
      | application =>
        exact .inr (.inr (.inr ⟨hlt, rfl, hrunning _ (by simp [SE_PIPELINE_DISABLE]) hfinishes h⟩))
      | function =>
        have h : Does (if (⟨.function, code⟩ : Result) = SE_FUNCTION_HALT
            then .ret SE_PIPELINE_HALT else .ret ⟨.function, code⟩) d rest out := h
        by_cases hhalt : (⟨.function, code⟩ : Result) = SE_FUNCTION_HALT
        · rw [if_pos hhalt] at h
          exact .inr (.inr (.inr ⟨hlt, rfl, hrunning _ (by decide) hfinishes h⟩))
        · rw [if_neg hhalt] at h
          exact .inr (.inr (.inr
            ⟨hlt, rfl, hrunning _ (by simp [SE_PIPELINE_DISABLE]) hfinishes h⟩))
      | pipeline =>
        cases code with
        | CONTINUE | HALT | SKIP_CONTINUE =>
          exact .inr (.inr (.inr ⟨hlt, rfl, hrunning _ (by decide) hfinishes h⟩))
        | DISABLE | TERMINATE | RESET =>
          obtain ⟨rest', rfl, h⟩ := h
          exact .inr (.inr (.inl ⟨hlt, hcall, _, rest', hfinishes, rfl, h⟩))

/-- What a tick has done: the sequence went on as it is meant, and the state is its position. -/
structure Worked (args : List ArgKind) (state : Nat) (deeds : List Deed) (r : Result)
    (d' : NodeData) : Prop where
  bound : d'.state ≤ args.length
  steps : runs (Todo.step args) ⟨callsFrom args state, none⟩ deeds =
    some ⟨callsFrom args d'.state, none⟩
  last : r = SE_PIPELINE_DISABLE ↔ callsFrom args d'.state = []

theorem todo_finishes (hcall : isCall args state = true) {r : Result}
    (hf : finishes args state r = true) (rest : List Deed) :
    runs (Todo.step args) ⟨callsFrom args state, none⟩
        (.invoked state r :: (if isMain args state then .terminated state :: rest else rest)) =
      runs (Todo.step args) ⟨callsFrom args (state + 1), none⟩ rest := by
  rw [callsFrom_call hcall, runs_cons]
  simp only [Todo.step, hf, if_true, Option.bind_some]
  cases isMain args state with
  | true =>
    rw [if_pos rfl, if_pos rfl, runs_cons]
    simp only [Todo.step, if_true, Option.bind_some]
  | false => rfl

theorem sequence_loop_worked (hlen : args.length ≤ 255) {d' : NodeData} {r : Result}
    (hstate : d.state = state) (hle : state ≤ args.length)
    (h : Does (sequence_loop args fuel state) d deeds (some (r, d'))) :
    Worked args state deeds r d' := by
  induction fuel generalizing state d deeds with
  | zero => exact nomatch h.2
  | succ fuel ih =>
    have hnext : state < args.length → (state + 1) % 256 = state + 1 := fun hlt =>
      Nat.mod_eq_of_lt (by omega)
    obtain ⟨hend, rfl, hout⟩ | ⟨hlt, hcall, hgo⟩ | ⟨hlt, hcall, r₀, rest, hf, rfl, hgo⟩ |
      ⟨hlt, hmain, r₀, r', hf, hne, rfl, hout⟩ := sequence_loop_cases h
    · obtain ⟨rfl, rfl⟩ := Prod.mk.inj (Option.some.inj hout)
      refine ⟨by omega, by rw [hstate]; rfl, ?_⟩
      rw [hstate]
      exact iff_of_true rfl (callsFrom_of_le hend)
    · unfold Advances at hgo
      rw [hnext hlt] at hgo
      have hle' : state + 1 ≤ args.length := hlt
      obtain ⟨hbound, hsteps, hlast⟩ := ih (d := { d with state := state + 1 }) rfl hle' hgo
      exact ⟨hbound, by rw [callsFrom_skip hcall]; exact hsteps, hlast⟩
    · unfold Advances at hgo
      rw [hnext hlt] at hgo
      have hle' : state + 1 ≤ args.length := hlt
      obtain ⟨hbound, hsteps, hlast⟩ := ih (d := { d with state := state + 1 }) rfl hle' hgo
      exact ⟨hbound, by rw [todo_finishes hcall hf]; exact hsteps, hlast⟩
    · obtain ⟨rfl, rfl⟩ := Prod.mk.inj (Option.some.inj hout)
      have hcons := callsFrom_call (isCall_of_part (.inr hmain))
      refine ⟨by omega, ?_, iff_of_false hne (by rw [hstate, hcons]; exact List.cons_ne_nil _ _)⟩
      rw [hstate, hcons, runs_cons]
      simp only [Todo.step, hf, if_true, Bool.false_eq_true, if_false, Option.bind_some, runs_nil]

/-- With a byte for the position, a tick comes to its end. -/
theorem sequence_loop_ends (hlen : args.length ≤ 255) (hfuel : args.length - state < fuel) :
    ¬ Does (sequence_loop args fuel state) d deeds none := by
  intro h
  induction fuel generalizing state d deeds with
  | zero => omega
  | succ fuel ih =>
    have hnext : state < args.length → args.length - (state + 1) % 256 < fuel := by
      intro hlt
      rw [Nat.mod_eq_of_lt (by omega)]
      omega
    obtain ⟨-, -, hout⟩ | ⟨hlt, -, hgo⟩ | ⟨hlt, -, r₀, rest, -, -, hgo⟩ |
      ⟨-, -, r₀, r', -, -, -, hout⟩ := sequence_loop_cases h
    · exact nomatch hout
    · exact ih (hnext hlt) hgo
    · exact ih (hnext hlt) hgo
    · exact nomatch hout

/-- With more children than a byte can count, children that complete at once keep a tick going
for ever. -/
theorem sequence_loop_spins (hlen : 256 ≤ args.length) (fuel : Nat) (hstate : state < 256)
    (d : NodeData) : ∃ deeds, Does (sequence_loop args fuel state) d deeds none := by
  induction fuel generalizing state d with
  | zero => exact ⟨[], rfl, rfl⟩
  | succ fuel ih =>
    obtain ⟨rest, hrest⟩ :=
      ih (Nat.mod_lt (state + 1) (by decide)) { d with state := (state + 1) % 256 }
    simp only [sequence_loop]
    rw [if_neg (by omega)]
    cases hother : isOneshot args state || isPred args state with
    | true => exact ⟨_, SE_PIPELINE_DISABLE, rest, rfl, hrest⟩
    | false =>
      rw [if_neg Bool.false_ne_true]
      cases isMain args state with
      | true => exact ⟨_, SE_PIPELINE_DISABLE, _, rfl, rest, rfl, hrest⟩
      | false => exact ⟨rest, hrest⟩

/-! ## Runs -/

/-- A tick of the sequence that comes to its end, whatever it takes. -/
def Ticks (args : List ArgKind) (d : NodeData) (deeds : List Deed) (r : Result) (d' : NodeData) :
    Prop :=
  ∃ fuel, Does (se_sequence fuel args SE_EVENT_TICK) d deeds (some (r, d'))

/-- A sequence from its INIT on, up to the tick that it reports its end with: what it has done to
its children, and what it has reported last. -/
inductive SequenceRun (args : List ArgKind) : List Deed → Option Result → NodeData → Prop
  | init {fuel : Nat} {d d' : NodeData} {deeds : List Deed} {r : Result}
      (h : Does (se_sequence fuel args SE_EVENT_INIT) d deeds (some (r, d'))) :
      SequenceRun args deeds none d'
  | tick {deeds deeds' : List Deed} {last : Option Result} {r : Result} {d d' : NodeData}
      (hrun : SequenceRun args deeds last d) (hlast : last ≠ some SE_PIPELINE_DISABLE)
      (h : Ticks args d deeds' r d') : SequenceRun args (deeds ++ deeds') (some r) d'

/-- The law of a sequence: each of its ticks ends, whatever the children answer. It works off its
children in their order, each of them until it has completed and never again, and it reports
DISABLE in the tick that completes the last of them. -/
structure SequenceLaw (args : List ArgKind) : Prop where
  ends : ∀ deeds last d, SequenceRun args deeds last d →
    ∃ fuel, ∀ deeds', ¬ Does (se_sequence fuel args SE_EVENT_TICK) d deeds' none
  order : ∀ deeds last d, SequenceRun args deeds last d → ∃ left,
    runs (Todo.step args) ⟨callsFrom args 0, none⟩ deeds = some ⟨left, none⟩ ∧
      completed args deeds ++ left = callsFrom args 0 ∧
      ∀ r, last = some r → (r = SE_PIPELINE_DISABLE ↔ left = [])

/-- What holds of a sequence between its ticks. -/
structure Underway (args : List ArgKind) (deeds : List Deed) (last : Option Result) (d : NodeData) :
    Prop where
  bound : d.state ≤ args.length
  steps : runs (Todo.step args) ⟨callsFrom args 0, none⟩ deeds = some ⟨callsFrom args d.state, none⟩
  last : ∀ r, last = some r → (r = SE_PIPELINE_DISABLE ↔ callsFrom args d.state = [])

theorem SequenceRun.underway (hlen : args.length ≤ 255) {last : Option Result}
    (h : SequenceRun args deeds last d) : Underway args deeds last d := by
  induction h with
  | init h =>
    obtain ⟨rfl, hout⟩ := h
    obtain ⟨-, rfl⟩ := Prod.mk.inj (Option.some.inj hout)
    exact ⟨Nat.zero_le _, rfl, fun r hr => nomatch hr⟩
  | tick _ _ h ih =>
    obtain ⟨fuel, h⟩ := h
    have hworked := sequence_loop_worked hlen rfl ih.bound h
    refine ⟨hworked.bound, ?_, fun r hr => ?_⟩
    · rw [runs_append, ih.steps]
      exact hworked.steps
    · rw [← Option.some.inj hr]
      exact hworked.last

theorem initDoes :
    Does (se_sequence 0 args SE_EVENT_INIT) ⟨0, 0⟩ [] (some (SE_PIPELINE_CONTINUE, ⟨0, 0⟩)) :=
  ⟨rfl, rfl⟩

/-- A sequence keeps its law exactly when it has no more than 255 children. -/
theorem sequence_law_iff (args : List ArgKind) : SequenceLaw args ↔ args.length ≤ 255 := by
  constructor
  · intro h
    by_contra hlong
    have hinit : SequenceRun args [] none ⟨0, 0⟩ :=
      .init initDoes
    obtain ⟨fuel, hends⟩ := h.ends _ _ _ hinit
    have hmany : 256 ≤ args.length := by omega
    obtain ⟨deeds, hspins⟩ := sequence_loop_spins hmany fuel (Nat.zero_lt_succ 255) ⟨0, 0⟩
    exact hends deeds hspins
  · intro hlen
    refine ⟨fun deeds last d h => ?_, fun deeds last d h => ?_⟩
    · exact ⟨args.length - d.state + 1, fun deeds' => sequence_loop_ends hlen (Nat.lt_succ_self _)⟩
    · have hunder := h.underway hlen
      exact ⟨_, hunder.steps, completed_append_left hunder.steps, hunder.last⟩

/-- A sequence of 256 oneshots never comes to the end of its first tick. -/
theorem many_oneshots_never_end : ¬ ∀ args, SequenceLaw args := by
  intro h
  have hinit : SequenceRun (List.replicate 256 (.call .oneshot)) [] none ⟨0, 0⟩ :=
    .init initDoes
  obtain ⟨fuel, hends⟩ := (h _).ends _ _ _ hinit
  have hmany : 256 ≤ (List.replicate 256 (ArgKind.call .oneshot)).length :=
    Nat.le_of_eq List.length_replicate.symm
  obtain ⟨deeds, hspins⟩ := sequence_loop_spins hmany fuel (Nat.zero_lt_succ 255) ⟨0, 0⟩
  exact hends deeds hspins

end motioncore.engine
