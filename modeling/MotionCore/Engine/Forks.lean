-- The two parallel composites. A round serves the active main children in their order, up to
-- one that skips, and what a child answered decides whether it is served again. The oneshots
-- and predicates are run once in an activation when a run of them marks their node.
import MotionCore.Engine.Forward
import MotionCore.Engine.Propagation

namespace motioncore.engine

open EventType motioncore.trace

variable {E : Type}

/-! ## One round over the children -/

/-- The codes with which a main child stays in the round. `se_fork` and `se_fork_join` take a
HALT of the function layer for one of the pipeline. -/
def staying (r : Result) : Bool :=
  r == SE_PIPELINE_CONTINUE || r == SE_PIPELINE_HALT || r == SE_FUNCTION_HALT

def ending (r : Result) : Bool := r == SE_PIPELINE_DISABLE || r == SE_PIPELINE_TERMINATE

def SE_PIPELINE_SKIP_CONTINUE : Result := ⟨.pipeline, .SKIP_CONTINUE⟩

/-- The answers that the composites handle themselves. -/
def handled (r : Result) : Prop := r.layer = .pipeline ∨ r = SE_FUNCTION_HALT

theorem handled_cases {r : Result} (h : handled r) : staying r = true ∨ ending r = true ∨
    r = SE_PIPELINE_RESET ∨ r = SE_PIPELINE_SKIP_CONTINUE := by
  obtain ⟨layer, code⟩ := r
  rcases h with rfl | h
  · cases code <;> simp [staying, ending, SE_PIPELINE_CONTINUE, SE_PIPELINE_HALT,
      SE_PIPELINE_DISABLE, SE_PIPELINE_TERMINATE, SE_PIPELINE_RESET, SE_PIPELINE_SKIP_CONTINUE]
  · cases h
    exact Or.inl rfl

/-- A child that a round passes over. -/
def Idle (args : List Node) (j : Nat) (s : Eng E) : Prop :=
  match args[j]? with
  | some (.main _ n _) => (s.nodes n).active = false
  | some (.oneshot _ n _) | some (.pred _ n _) => (s.nodes n).initialized = true
  | _ => True

def Node.isAside : Node → Bool
  | .oneshot _ _ _ | .pred _ _ _ => true
  | _ => false

/-- What a round does to one child, with the invocation that it makes. -/
inductive Serves (w : World E) (args : List Node) (j : Nat) :
    Eng E → List (Call E) → Eng E → Prop where
  | idle {s : Eng E} (h : Idle args j s) : Serves w args j s [] s
  | aside {s s₁ : Eng E} {r : Result} {t : Node} (ht : args[j]? = some t) (haside : t.isAside = true)
    (hnew : (s.nodes t.idx).initialized = false) (h : (t.kid w).invoke s = some (r, s₁)) :
    Serves w args j s [⟨j, s, r, s₁⟩] s₁
  | stays {n : Nat} {s s₁ : Eng E} {r : Result} {fn : MainFn} {as : List Node}
    (ht : args[j]? = some (.main fn n as)) (hact : (s.nodes n).active = true)
    (h : (Node.kid w (.main fn n as)).invoke s = some (r, s₁)) (hr : staying r = true) :
    Serves w args j s [⟨j, s, r, s₁⟩] s₁
  | ends {n : Nat} {s s₁ s₂ : Eng E} {r : Result} {fn : MainFn} {as : List Node}
    (ht : args[j]? = some (.main fn n as)) (hact : (s.nodes n).active = true)
    (h : (Node.kid w (.main fn n as)).invoke s = some (r, s₁)) (hr : ending r = true)
    (hterm : (Node.kid w (.main fn n as)).terminate s₁ = some s₂) :
    Serves w args j s [⟨j, s, r, s₁⟩] s₂
  | restarts {n : Nat} {s s₁ s₂ : Eng E} {fn : MainFn} {as : List Node}
    (ht : args[j]? = some (.main fn n as)) (hact : (s.nodes n).active = true)
    (h : (Node.kid w (.main fn n as)).invoke s = some (SE_PIPELINE_RESET, s₁))
    (hterm : (Node.kid w (.main fn n as)).terminate s₁ = some s₂) :
    Serves w args j s [⟨j, s, SE_PIPELINE_RESET, s₁⟩]
      ((Node.kid w (.main fn n as)).resetRecursive s₂)

/-- A round over the children, with the invocations it makes. -/
inductive Round (w : World E) (args : List Node) :
    List Nat → Eng E → List (Call E) → Eng E → Prop where
  | nil (s : Eng E) : Round w args [] s [] s
  | cons {j : Nat} {js : List Nat} {s s₁ s' : Eng E} {c cs : List (Call E)}
    (h : Serves w args j s c s₁) (rest : Round w args js s₁ cs s') :
    Round w args (j :: js) s (c ++ cs) s'
  | skips {j n : Nat} {js : List Nat} {s s₁ : Eng E} {fn : MainFn} {as : List Node}
    (ht : args[j]? = some (.main fn n as)) (hact : (s.nodes n).active = true)
    (h : (Node.kid w (.main fn n as)).invoke s = some (SE_PIPELINE_SKIP_CONTINUE, s₁)) :
    Round w args (j :: js) s [⟨j, s, SE_PIPELINE_SKIP_CONTINUE, s₁⟩] s₁

/-! ## The loop is a round -/

section

variable {kinds : List ArgKind} {j : Nat} {js : List Nat}

theorem fork_loop_param (h : isCall kinds j = false) : fork_loop kinds (j :: js) = fork_loop kinds js := by
  have hkinds : isOneshot kinds j = false ∧ isPred kinds j = false ∧ isMain kinds j = false := by
    unfold isCall at h
    unfold isOneshot isPred isMain
    cases hj : kinds[j]? with
    | none => simp
    | some k =>
      cases k with
      | call t => simp [hj, ArgKind.isCall] at h
      | _ => simp
  simp [fork_loop, hkinds]

theorem fork_loop_aside (h : (isOneshot kinds j || isPred kinds j) = true) :
    fork_loop kinds (j :: js) = .childInitialized j fun fired =>
      if fired then fork_loop kinds js else .invokeAny j fun _ => fork_loop kinds js := by
  simp only [fork_loop, h, if_true]
  refine congrArg (Prog.childInitialized j) (funext fun fired => ?_)
  cases fired <;> rfl

/-- What the loop does with the answer of a main child. -/
def fork_answer (kinds : List ArgKind) (j : Nat) (js : List Nat) (r : Result) : Prog (Option Result) :=
  let r := if r = SE_FUNCTION_HALT then SE_PIPELINE_HALT else r
  if r.layer ≠ .pipeline then .ret (some r)
  else match r.code with
    | .CONTINUE | .HALT => fork_loop kinds js
    | .DISABLE | .TERMINATE => .childTerminate j (fork_loop kinds js)
    | .RESET => .childTerminate j (.childResetRecursive j (fork_loop kinds js))
    | .SKIP_CONTINUE => .ret none

theorem fork_loop_main (h : isMain kinds j = true) : fork_loop kinds (j :: js) =
    .childActive j fun active =>
      if active then .invokeAny j (fork_answer kinds j js) else fork_loop kinds js := by
  have hno : (isOneshot kinds j || isPred kinds j) = false := by
    unfold isMain at h
    unfold isOneshot isPred
    rw [beq_iff_eq] at h
    simp [h]
  simp only [fork_loop, h, hno, if_true]
  refine congrArg (Prog.childActive j) (funext fun active => ?_)
  cases active with
  | false => rfl
  | true =>
    refine congrArg (Prog.invokeAny j) (funext fun r => ?_)
    obtain ⟨layer, code⟩ := r
    cases layer <;> cases code <;> rfl

end

section

variable {w : World E} {args : List Node} {idx : Nat} {own : NodeData → E → Result × NodeData × E}

theorem kid_initialized {t : Node} (h : t.kind.isCall = true) (s : Eng E) :
    (t.kid w).initialized s = (s.nodes t.idx).initialized := by
  cases t with
  | main | oneshot | pred =>
    simp [Kid.initialized, Node.kid, mainKid, oneshotKid, predKid, ArgKind.isCall, Node.idx]
  | int | fieldRef | literal => cases h

theorem kid_active {t : Node} (h : t.kind.isCall = true) (s : Eng E) :
    (t.kid w).active s = (s.nodes t.idx).active := by
  cases t with
  | main | oneshot | pred =>
    simp [Kid.active, Node.kid, mainKid, oneshotKid, predKid, ArgKind.isCall, Node.idx]
  | int | fieldRef | literal => cases h

/-- The loop over the children makes a round, when the main children answer with codes that it
handles. -/
theorem fork_loop_round (js : List Nat) : ∀ (s : Eng E) (out : Option Result) (s' : Eng E),
    runProg w (Node.kids w args) idx own (fork_loop (args.map Node.kind) js) s = some (out, s') →
    (∀ c ∈ calls w (Node.kids w args) idx own (fork_loop (args.map Node.kind) js) s,
      isMain (args.map Node.kind) c.child = true → handled c.answer) →
    out = none ∧ Round w args js s
      (calls w (Node.kids w args) idx own (fork_loop (args.map Node.kind) js) s) s' := by
  induction js with
  | nil =>
    intro s out s' hrun _
    cases hrun
    exact ⟨rfl, .nil s⟩
  | cons j js ih =>
    intro s out s' hrun hcalls
    cases hj : args[j]? with
    | none =>
      rw [fork_loop_param (by simp [isCall, hj])] at hrun hcalls ⊢
      obtain ⟨hout, hround⟩ := ih s out s' hrun hcalls
      exact ⟨hout, .cons (.idle (by simp [Idle, hj])) hround⟩
    | some t =>
      have hkid : kidAt (Node.kids w args) j = t.kid w := kidAt_some hj
      cases t with
      | int | fieldRef | literal =>
        rw [fork_loop_param (by simp [isCall, hj, Node.kind, ArgKind.isCall])] at hrun hcalls ⊢
        obtain ⟨hout, hround⟩ := ih s out s' hrun hcalls
        exact ⟨hout, .cons (.idle (by simp [Idle, hj])) hround⟩
      | oneshot | pred =>
        rename_i n _
        rw [fork_loop_aside (by simp [isOneshot, isPred, hj, Node.kind])] at hrun hcalls ⊢
        simp only [runProg, calls, hkid] at hrun hcalls ⊢
        rw [kid_initialized rfl] at hrun hcalls ⊢
        by_cases hinit : (s.nodes n).initialized = true
        · simp only [Node.idx, hinit, if_true] at hrun hcalls ⊢
          obtain ⟨hout, hround⟩ := ih s out s' hrun hcalls
          exact ⟨hout, .cons (.idle (by simp [Idle, hj, hinit])) hround⟩
        · rw [Bool.not_eq_true] at hinit
          simp only [Node.idx, hinit, Bool.false_eq_true, if_false, runProg, calls, hkid,
            Option.bind_eq_bind, Option.bind_eq_some_iff] at hrun hcalls ⊢
          obtain ⟨⟨r, s₁⟩, hk, hrun⟩ := hrun
          simp only [hk] at hcalls ⊢
          obtain ⟨hout, hround⟩ := ih s₁ out s' hrun fun c hc => hcalls c (List.mem_cons_of_mem _ hc)
          exact ⟨hout, .cons (.aside hj rfl hinit hk) hround⟩
      | main fn n as =>
        have hmain : isMain (args.map Node.kind) j = true := isMain_iff.mpr ⟨fn, n, as, hj⟩
        rw [fork_loop_main hmain] at hrun hcalls ⊢
        simp only [runProg, calls, hkid] at hrun hcalls ⊢
        rw [kid_active rfl] at hrun hcalls ⊢
        by_cases hact : (s.nodes n).active = true
        · simp only [Node.idx, hact, if_true, runProg, calls, hkid, Option.bind_eq_bind,
            Option.bind_eq_some_iff] at hrun hcalls ⊢
          obtain ⟨⟨r, s₁⟩, hk, hrun⟩ := hrun
          simp only [hk] at hcalls ⊢
          have hr : handled r := hcalls ⟨j, s, r, s₁⟩ List.mem_cons_self hmain
          have hrest : ∀ c ∈ calls w (Node.kids w args) idx own
              (fork_answer (args.map Node.kind) j js r) s₁,
              isMain (args.map Node.kind) c.child = true → handled c.answer := fun c hc =>
            hcalls c (List.mem_cons_of_mem _ hc)
          clear hcalls
          rcases handled_cases hr with hstay | hend | rfl | rfl
          · have hgo : fork_answer (args.map Node.kind) j js r = fork_loop (args.map Node.kind) js := by
              simp only [staying, Bool.or_eq_true, beq_iff_eq] at hstay
              rcases hstay with (rfl | rfl) | rfl <;> rfl
            rw [hgo] at hrun hrest ⊢
            obtain ⟨hout, hround⟩ := ih s₁ out s' hrun hrest
            exact ⟨hout, .cons (.stays hj hact hk hstay) hround⟩
          · have hgo : fork_answer (args.map Node.kind) j js r =
                .childTerminate j (fork_loop (args.map Node.kind) js) := by
              simp only [ending, Bool.or_eq_true, beq_iff_eq] at hend
              rcases hend with rfl | rfl <;> rfl
            rw [hgo] at hrun hrest ⊢
            obtain ⟨s₂, hterm, -⟩ := kid_terminates (w := w) (.main fn n as) s₁
            simp only [runProg, calls, hkid, hterm, Option.bind_eq_bind, Option.bind_some] at hrun hrest ⊢
            obtain ⟨hout, hround⟩ := ih s₂ out s' hrun hrest
            exact ⟨hout, .cons (.ends hj hact hk hend hterm) hround⟩
          · have hgo : fork_answer (args.map Node.kind) j js SE_PIPELINE_RESET =
                .childTerminate j (.childResetRecursive j (fork_loop (args.map Node.kind) js)) := rfl
            rw [hgo] at hrun hrest ⊢
            obtain ⟨s₂, hterm, -⟩ := kid_terminates (w := w) (.main fn n as) s₁
            simp only [runProg, calls, hkid, hterm, Option.bind_eq_bind, Option.bind_some] at hrun hrest ⊢
            obtain ⟨hout, hround⟩ := ih _ out s' hrun hrest
            exact ⟨hout, .cons (.restarts hj hact hk hterm) hround⟩
          · cases hrun
            exact ⟨rfl, .skips hj hact hk⟩
        · rw [Bool.not_eq_true] at hact
          simp only [Node.idx, hact, Bool.false_eq_true, if_false] at hrun hcalls ⊢
          obtain ⟨hout, hround⟩ := ih s out s' hrun hcalls
          exact ⟨hout, .cons (.idle (by simp [Idle, hj, hact])) hround⟩

end

/-! ## What a round does to the children -/

def activeMain (args : List Node) (s : Eng E) (j : Nat) : Bool :=
  match args[j]? with
  | some (.main _ n _) => (s.nodes n).active
  | _ => false

/-- The children are served in their order, up to the first that skips. -/
inductive Attends : List Nat → List (Call E) → Prop where
  | nil : Attends [] []
  | skip {j : Nat} {js : List Nat} {c : Call E} (hc : c.child = j)
    (h : c.answer = SE_PIPELINE_SKIP_CONTINUE) : Attends (j :: js) [c]
  | next {j : Nat} {js : List Nat} {c : Call E} {cs : List (Call E)} (hc : c.child = j)
    (h : c.answer ≠ SE_PIPELINE_SKIP_CONTINUE) (rest : Attends js cs) : Attends (j :: js) (c :: cs)

/-- The whole subtree is as it was when it was created, but for what has ever been run. -/
def Fresh (t : Node) (s : Eng E) : Prop :=
  ∀ n ∈ t.indices, (s.nodes n).active = true ∧ (s.nodes n).initialized = false ∧
    (s.nodes n).data = .zero

section

variable {w : World E} {args : List Node} {js : List Nat} {s s' : Eng E} {cs : List (Call E)}

mutual

theorem reset_fresh : ∀ (t : Node) (s : Eng E), Fresh t ((t.kid w).resetRecursive s)
  | .int _, _ | .fieldRef _, _ | .literal, _ => by simp [Fresh, Node.indices]
  | .oneshot _ n _, s => by
    intro m hm
    simp only [Node.indices, List.mem_singleton] at hm
    subst hm
    change ((s.resetNode m).nodes m).active = true ∧ _
    simp [Kid.resetRecursive, Kid.reset, Node.kid, oneshotKid, ArgKind.isCall, Eng.resetNode, Eng.setNode]
  | .pred _ n as, s => reset_all_fresh as n (s.resetNode n) (by simp [Eng.resetNode, Eng.setNode])
  | .main _ n as, s => by
    refine reset_all_fresh as n (s.resetMain n) ?_
    unfold Eng.resetMain
    dsimp only
    split <;> simp [Eng.resetNode, Eng.setNode]

theorem reset_all_fresh : ∀ (ts : List Node) (n : Nat) (s : Eng E),
    ((s.nodes n).active = true ∧ (s.nodes n).initialized = false ∧ (s.nodes n).data = .zero) →
    ∀ m ∈ n :: Node.indicesAll ts, ((reset_all (Node.kids w ts) s).nodes m).active = true ∧
      ((reset_all (Node.kids w ts) s).nodes m).initialized = false ∧
      ((reset_all (Node.kids w ts) s).nodes m).data = .zero
  | [], n, s, h => by
    intro m hm
    simp only [Node.indicesAll, List.mem_singleton] at hm
    subst hm
    exact h
  | t :: ts, n, s, h => by
    intro m hm
    change ((reset_all (Node.kids w ts) ((t.kid w).resetRecursive s)).nodes m).active = true ∧ _
    have hfresh := reset_fresh t s
    by_cases hmt : m ∈ t.indices
    · exact reset_all_fresh ts m _ (hfresh m hmt) m List.mem_cons_self
    · have hkeep := ((kid_within w t).resetRecursive s).nodes
      simp only [Node.indicesAll, List.mem_cons, List.mem_append] at hm
      rcases hm with rfl | hm | hm
      · exact reset_all_fresh ts m _ (by rw [hkeep m hmt]; exact h) m List.mem_cons_self
      · exact absurd hm hmt
      · by_cases hnt : n ∈ t.indices
        · exact reset_all_fresh ts n _ (hfresh n hnt) m (List.mem_cons_of_mem _ hm)
        · exact reset_all_fresh ts n _ (by rw [hkeep n hnt]; exact h) m (List.mem_cons_of_mem _ hm)

end

variable {j : Nat}

theorem Serves.child (h : Serves w args j s cs s') : ∀ c ∈ cs, c.child = j := by
  cases h with
  | idle => simp
  | _ => exact fun c hc => by rw [List.mem_singleton.mp hc]

theorem Round.children (h : Round w args js s cs s') : ∀ c ∈ cs, c.child ∈ js := by
  induction h with
  | nil => simp
  | cons h _ ih =>
    intro c hc
    rcases List.mem_append.mp hc with hc | hc
    · exact h.child c hc ▸ List.mem_cons_self
    · exact List.mem_cons_of_mem _ (ih c hc)
  | skips =>
    intro c hc
    rw [List.mem_singleton.mp hc]
    exact List.mem_cons_self

theorem activeMain_apart {i : Nat} (h : ∀ u, args[i]? = some u → Apart u.indices s s') :
    activeMain args s' i = activeMain args s i := by
  unfold activeMain
  split
  · rename_i n _ hi
    rw [(h _ hi).nodes n (by simp [Node.indices])]
  · rfl

section

variable (hnodup : (Node.indicesAll args).Nodup) {i j : Nat} {u : Node}

include hnodup

theorem Serves.apart (h : Serves w args j s cs s') (hi : args[i]? = some u) (hne : i ≠ j) :
    Apart u.indices s s' := by
  have hother : ∀ {t : Node} {s s' : Eng E}, args[j]? = some t → Within t.indices s s' →
      Apart u.indices s s' := fun hj hw => hw.apart (indices_disjoint hnodup hj hi (Ne.symm hne))
  cases h with
  | idle => exact ⟨fun _ _ => rfl, Adds.refl _⟩
  | aside ht _ _ hk => exact hother ht ((kid_within w _).invoke _ _ _ hk)
  | stays ht _ hk _ => exact hother ht ((kid_within w _).invoke _ _ _ hk)
  | ends ht _ hk _ hterm =>
    exact (hother ht ((kid_within w _).invoke _ _ _ hk)).trans
      (hother ht ((kid_within w _).terminate _ _ hterm))
  | restarts ht _ hk hterm =>
    exact (hother ht ((kid_within w _).invoke _ _ _ hk)).trans
      ((hother ht ((kid_within w _).terminate _ _ hterm)).trans
        (hother ht ((kid_within w _).resetRecursive _)))

theorem Round.apart (h : Round w args js s cs s') (hi : args[i]? = some u) (hjs : i ∉ js) :
    Apart u.indices s s' := by
  induction h with
  | nil s => exact ⟨fun _ _ => rfl, Adds.refl _⟩
  | cons h _ ih =>
    rw [List.mem_cons, not_or] at hjs
    exact (h.apart hnodup hi hjs.1).trans (ih hjs.2)
  | skips ht _ hk =>
    rw [List.mem_cons, not_or] at hjs
    exact ((kid_within w _).invoke _ _ _ hk).apart (indices_disjoint hnodup ht hi (Ne.symm hjs.1))

/-- The active main children are served in their order, up to the first that skips. -/
theorem Round.attends (h : Round w args js s cs s') (hjs : js.Nodup) :
    Attends (js.filter (activeMain args s)) (cs.filter fun c => isMain (args.map Node.kind) c.child) := by
  induction h with
  | nil s => exact .nil
  | @cons j js s s₁ s' c cs h hrest ih =>
    rw [List.nodup_cons] at hjs
    have hrest := ih hjs.2
    have hsame : js.filter (activeMain args s₁) = js.filter (activeMain args s) := by
      refine List.filter_congr fun i hi => ?_
      refine activeMain_apart fun u hu => h.apart hnodup hu ?_
      rintro rfl
      exact hjs.1 hi
    rw [hsame] at hrest
    rw [List.filter_append]
    have hserved : ∀ {n : Nat} {fn : MainFn} {as : List Node} {r : Result} {s₁ : Eng E},
        args[j]? = some (.main fn n as) → (s.nodes n).active = true → r ≠ SE_PIPELINE_SKIP_CONTINUE →
        Attends ((j :: js).filter (activeMain args s))
          ([⟨j, s, r, s₁⟩].filter (fun c => isMain (args.map Node.kind) c.child) ++
            cs.filter fun c => isMain (args.map Node.kind) c.child) := by
      intro n fn as r s₁ ht hact hr
      rw [List.filter_cons_of_pos (by simp [activeMain, ht, hact]),
        List.filter_cons_of_pos (by simp [isMain, ht, Node.kind])]
      exact .next rfl hr hrest
    have hpassed : activeMain args s j = false →
        Attends ((j :: js).filter (activeMain args s))
          (cs.filter fun c => isMain (args.map Node.kind) c.child) := by
      intro hno
      rw [List.filter_cons_of_neg (by simp [hno])]
      exact hrest
    cases h with
    | idle hidle =>
      refine hpassed ?_
      unfold Idle at hidle
      unfold activeMain
      split
      · rename_i ht
        rw [ht] at hidle
        exact hidle
      · rfl
    | @aside _ _ _ t ht haside hnew hk =>
      have hno : isMain (args.map Node.kind) j = false := by
        cases t with
        | oneshot | pred => simp [isMain, ht, Node.kind]
        | _ => cases haside
      rw [List.filter_cons_of_neg (l := []) (by simp [hno])]
      refine hpassed ?_
      cases t with
      | oneshot | pred => simp [activeMain, ht]
      | _ => cases haside
    | stays ht hact hk hr => exact hserved ht hact (by rintro rfl; cases hr)
    | ends ht hact hk hr hterm => exact hserved ht hact (by rintro rfl; cases hr)
    | restarts ht hact hk hterm => exact hserved ht hact (by decide)
  | skips ht hact hk =>
    rw [List.filter_cons_of_pos (by simp [activeMain, ht, hact]),
      List.filter_cons_of_pos (by simp [isMain, ht, Node.kind])]
    exact .skip rfl rfl

end

def Reaches (j : Nat) (cs : List (Call E)) : Prop :=
  ∀ c ∈ cs, c.answer = SE_PIPELINE_SKIP_CONTINUE → j ≤ c.child

variable {t : Node}

theorem aside_answer (haside : t.isAside = true) {s₁ : Eng E} {r : Result}
    (h : (t.kid w).invoke s = some (r, s₁)) : r = SE_PIPELINE_CONTINUE ∨ r = SE_PIPELINE_HALT := by
  cases t with
  | oneshot =>
    cases h
    exact Or.inl rfl
  | pred fn n as =>
    simp only [Node.kid, predKid, Option.map_eq_some_iff] at h
    obtain ⟨⟨b, s₂⟩, -, h⟩ := h
    cases h
    cases b
    · exact Or.inr rfl
    · exact Or.inl rfl
  | int | fieldRef | literal | main => cases haside

theorem Serves.no_skip (h : Serves w args j s cs s') :
    ∀ c ∈ cs, c.answer ≠ SE_PIPELINE_SKIP_CONTINUE := by
  cases h with
  | idle => simp
  | aside ht haside hnew hk =>
    intro c hc heq
    rw [List.mem_singleton.mp hc] at heq
    obtain rfl : _ = SE_PIPELINE_SKIP_CONTINUE := heq
    rcases aside_answer haside hk with hr | hr <;> exact nomatch hr
  | stays _ _ _ hr | ends _ _ _ hr _ =>
    intro c hc heq
    rw [List.mem_singleton.mp hc] at heq
    obtain rfl : _ = SE_PIPELINE_SKIP_CONTINUE := heq
    exact nomatch hr
  | restarts =>
    intro c hc heq
    rw [List.mem_singleton.mp hc] at heq
    exact nomatch heq

theorem Round.skipped (hnodup : (Node.indicesAll args).Nodup) (h : Round w args js s cs s') :
    ∀ c ∈ cs, c.answer = SE_PIPELINE_SKIP_CONTINUE → activeMain args s' c.child = true := by
  induction h with
  | nil => simp
  | cons h _ ih =>
    intro c hc hskip
    rcases List.mem_append.mp hc with hc | hc
    · exact absurd hskip (h.no_skip c hc)
    · exact ih c hc hskip
  | @skips j n js s s₁ fn as ht hact hk =>
    intro c hc _
    have hsub := indices_nodup hnodup ht
    rw [Node.indices, List.nodup_cons] at hsub
    rw [List.mem_singleton.mp hc]
    simp only [activeMain, ht]
    exact (invoked_initialized hsub.1 hk hact).2

/-- What a round does to one of the children it is over. -/
inductive Meets (w : World E) (args : List Node) (j : Nat) :
    Bool → Eng E → List (Call E) → Eng E → Prop where
  | serves {s s' : Eng E} {cs : List (Call E)} (h : Serves w args j s cs s') : Meets w args j true s cs s'
  | skips {n : Nat} {s s₁ : Eng E} {fn : MainFn} {as : List Node}
    (ht : args[j]? = some (.main fn n as)) (hact : (s.nodes n).active = true)
    (h : (Node.kid w (.main fn n as)).invoke s = some (SE_PIPELINE_SKIP_CONTINUE, s₁)) :
    Meets w args j true s [⟨j, s, SE_PIPELINE_SKIP_CONTINUE, s₁⟩] s₁
  | missed (s : Eng E) : Meets w args j false s [] s

/-- The round meets each of its children once, or misses it behind a skip. The rest of the round
leaves the child alone. -/
theorem Round.meets (hnodup : (Node.indicesAll args).Nodup) (h : Round w args js s cs s')
    (hjs : js.Pairwise (· < ·)) (hj : j ∈ js) {u : Node} (hu : args[j]? = some u) :
    ∃ reached s₁ s₂, Apart u.indices s s₁ ∧ Apart u.indices s₂ s' ∧
      (reached = true ↔ Reaches j cs) ∧
      Meets w args j reached s₁ (cs.filter (·.child == j)) s₂ := by
  have hself : ∀ s : Eng E, Apart u.indices s s := fun s =>
    ⟨fun _ _ => rfl, Adds.refl _⟩
  induction h with
  | nil => exact absurd hj List.not_mem_nil
  | @cons i js s s₁ s' c cs h hrest ih =>
    rw [List.pairwise_cons] at hjs
    have hchild := h.child
    by_cases hij : j = i
    · subst hij
      have hnot : j ∉ js := fun hm => Nat.lt_irrefl j (hjs.1 j hm)
      have hnone : cs.filter (·.child == j) = [] := by
        refine List.filter_eq_nil_iff.mpr fun d hd heq => hnot ?_
        exact (beq_iff_eq.mp heq) ▸ hrest.children d hd
      have hall : c.filter (·.child == j) = c :=
        List.filter_eq_self.mpr fun d hd => beq_iff_eq.mpr (hchild d hd)
      refine ⟨true, s, s₁, hself s, hrest.apart hnodup hu hnot, ⟨fun _ d hd hskip => ?_, fun _ => rfl⟩, ?_⟩
      · rcases List.mem_append.mp hd with hd | hd
        · exact absurd hskip (h.no_skip d hd)
        · exact Nat.le_of_lt (hjs.1 _ (hrest.children d hd))
      · rw [List.filter_append, hnone, hall, List.append_nil]
        exact .serves h
    · have hj := (List.mem_cons.mp hj).resolve_left hij
      obtain ⟨reached, s₂, s₃, hbefore, hafter, hreaches, hmeets⟩ := ih hjs.2 hj
      have hnone : c.filter (·.child == j) = [] := by
        refine List.filter_eq_nil_iff.mpr fun d hd heq => hij ?_
        exact (beq_iff_eq.mp heq).symm.trans (hchild d hd)
      refine ⟨reached, s₂, s₃, (h.apart hnodup hu hij).trans hbefore, hafter, hreaches.trans ?_, ?_⟩
      · constructor
        · intro hall d hd hskip
          rcases List.mem_append.mp hd with hd | hd
          · exact absurd hskip (h.no_skip d hd)
          · exact hall d hd hskip
        · exact fun hall d hd => hall d (List.mem_append_right _ hd)
      · rw [List.filter_append, hnone]
        exact hmeets
  | @skips i n js s s₁ fn as ht hact hk =>
    rw [List.pairwise_cons] at hjs
    by_cases hij : j = i
    · subst hij
      refine ⟨true, s, s₁, hself s, hself s₁, ⟨fun _ d hd _ => ?_, fun _ => rfl⟩, ?_⟩
      · exact Nat.le_of_eq (congrArg Call.child (List.mem_singleton.mp hd)).symm
      · rw [List.filter_cons_of_pos (by simp)]
        exact .skips ht hact hk
    · have hlt := hjs.1 j ((List.mem_cons.mp hj).resolve_left hij)
      refine ⟨false, s, s, hself s, ?_, ⟨fun h => (nomatch h), fun hall => ?_⟩, ?_⟩
      · exact ((kid_within w _).invoke _ _ _ hk).apart (indices_disjoint hnodup ht hu (Ne.symm hij))
      · have hle := hall _ (List.mem_singleton_self _) rfl
        dsimp only at hle
        omega
      · rw [List.filter_cons_of_neg (l := []) (by simp [Ne.symm hij])]
        exact .missed s

/-! ## After a round -/

section

variable {j n : Nat} {fn : MainFn} {as : List Node} {reached : Bool}

/-- A child that ended the round is no longer active. -/
theorem Meets.ended (h : Meets w args j reached s cs s') (hj : args[j]? = some (.main fn n as))
    (hn : n ∉ Node.indicesAll as) {c : Call E} (hc : c ∈ cs) (hr : ending c.answer = true) :
    (s'.nodes n).active = false := by
  have hdown : ∀ {r : Result} {s₁ s₂ : Eng E}, (s.nodes n).active = true →
      (Node.kid w (.main fn n as)).invoke s = some (r, s₁) →
      (Node.kid w (.main fn n as)).terminate s₁ = some s₂ → (s₂.nodes n).active = false := by
    intro r s₁ s₂ hact hk hterm
    have hinit := (invoked_initialized hn hk hact).1
    rcases terminate_cases hterm with ⟨hno, -⟩ | ⟨-, r, s₃, -, rfl⟩
    · rw [hinit] at hno
      cases hno
    · simp [Eng.clearNode, Eng.setNode]
  cases h with
  | missed => cases hc
  | skips =>
    rw [List.mem_singleton.mp hc] at hr
    cases hr
  | serves h =>
    cases h with
    | idle => cases hc
    | aside ht haside =>
      rw [hj] at ht
      cases ht
      cases haside
    | stays ht hact hk hstay =>
      rw [List.mem_singleton.mp hc] at hr
      simp only [ending, Bool.or_eq_true, beq_iff_eq] at hr
      rcases hr with rfl | rfl <;> cases hstay
    | ends ht hact hk hend hterm =>
      rw [hj] at ht
      cases ht
      exact hdown hact hk hterm
    | restarts =>
      rw [List.mem_singleton.mp hc] at hr
      cases hr

/-- A child that answered RESET is as it was created. -/
theorem Meets.restarted (h : Meets w args j reached s cs s') (hj : args[j]? = some (.main fn n as))
    {c : Call E} (hc : c ∈ cs) (hr : c.answer = SE_PIPELINE_RESET) : Fresh (.main fn n as) s' := by
  cases h with
  | missed => cases hc
  | skips =>
    rw [List.mem_singleton.mp hc] at hr
    exact nomatch hr
  | serves h =>
    cases h with
    | idle => cases hc
    | aside ht haside =>
      rw [hj] at ht
      cases ht
      cases haside
    | stays ht hact hk hstay =>
      rw [List.mem_singleton.mp hc] at hr
      obtain rfl : _ = SE_PIPELINE_RESET := hr
      exact nomatch hstay
    | ends ht hact hk hend hterm =>
      rw [List.mem_singleton.mp hc] at hr
      obtain rfl : _ = SE_PIPELINE_RESET := hr
      exact nomatch hend
    | restarts ht =>
      rw [hj] at ht
      cases ht
      exact reset_fresh _ _

/-- A child that is not active is not invoked, and stays so. -/
theorem Meets.inactive (h : Meets w args j reached s cs s') (hj : args[j]? = some (.main fn n as))
    (hdown : (s.nodes n).active = false) : cs = [] ∧ (s'.nodes n).active = false := by
  have hno : ∀ {fn' : MainFn} {n' : Nat} {as' : List Node}, args[j]? = some (.main fn' n' as') →
      (s.nodes n').active = true → False := by
    intro fn' n' as' ht hact
    rw [hj] at ht
    cases ht
    rw [hdown] at hact
    exact nomatch hact
  cases h with
  | missed => exact ⟨rfl, hdown⟩
  | skips ht hact => exact (hno ht hact).elim
  | serves h =>
    cases h with
    | idle => exact ⟨rfl, hdown⟩
    | aside ht haside =>
      rw [hj] at ht
      cases ht
      cases haside
    | stays ht hact | ends ht hact | restarts ht hact => exact (hno ht hact).elim

end

/-! ## Oneshots and predicates -/

/-- The flag that a run of the child leaves. -/
def Node.done : Node → Eng E → Bool
  | .oneshot _ n survives_reset, s =>
    if survives_reset then (s.nodes n).ever_init else (s.nodes n).initialized
  | .pred _ n _, s => (s.nodes n).initialized
  | _, _ => false

/-- An invocation of the child runs its function. -/
def Node.runs : Node → Eng E → Bool
  | .pred _ _ _, _ => true
  | t, s => !t.done s

/-- Whoever invokes the child finds its node marked afterwards. -/
def Marks (w : World E) (t : Node) : Prop :=
  ∀ s r s', (t.kid w).invoke s = some (r, s') → t.done s' = true

/-- The child has not run, as far as its node tells. -/
structure Clear (t : Node) (s : Eng E) : Prop where
  new : (s.nodes t.idx).initialized = false
  due : t.done s = false

theorem done_of_node (h : s'.nodes t.idx = s.nodes t.idx) : t.done s' = t.done s := by
  cases t with
  | oneshot | pred =>
    simp only [Node.idx] at h
    simp only [Node.done, h]
  | int | fieldRef | literal | main => rfl

theorem Clear.of_node (h : Clear t s) (hnode : s'.nodes t.idx = s.nodes t.idx) : Clear t s' :=
  ⟨hnode ▸ h.new, (done_of_node hnode).trans h.due⟩

theorem oneshot_marks (w : World E) (id n : Nat) (survives_reset : Bool) :
    Marks w (.oneshot id n survives_reset) := by
  intro s r s' h
  cases h
  cases survives_reset with
  | true =>
    simp only [Node.done, dispatch_oneshot, if_true]
    split
    · assumption
    · simp [Eng.setNode]
  | false =>
    simp only [Node.done, dispatch_oneshot, Bool.false_eq_true, if_false]
    split
    · assumption
    · simp [Eng.setNode]

section

variable {j : Nat} {reached : Bool} {t : Node}

theorem Meets.after_run (h : Meets w args j reached s cs s') (ht : args[j]? = some t)
    (haside : t.isAside = true) (hmarks : Marks w t) (hdone : t.done s = true) :
    cs.countP (fun c => t.runs c.before) = 0 ∧ t.done s' = true := by
  have hmain : ∀ {fn : MainFn} {n : Nat} {as : List Node}, args[j]? = some (.main fn n as) → False := by
    intro fn n as hm
    rw [ht] at hm
    cases hm
    cases haside
  cases h with
  | missed => exact ⟨rfl, hdone⟩
  | skips hm => exact (hmain hm).elim
  | serves h =>
    cases h with
    | idle => exact ⟨rfl, hdone⟩
    | aside ht' _ hnew hk =>
      rw [ht] at ht'
      cases ht'
      refine ⟨?_, hmarks _ _ _ hk⟩
      have hruns : t.runs s = false := by
        cases t with
        | oneshot => simp [Node.runs, hdone]
        | pred =>
          simp only [Node.done] at hdone
          simp only [Node.idx] at hnew
          rw [hdone] at hnew
          cases hnew
        | int | fieldRef | literal | main => cases haside
      simp [hruns]
    | stays hm | ends hm | restarts hm => exact (hmain hm).elim

theorem Meets.first_run (h : Meets w args j reached s cs s') (ht : args[j]? = some t)
    (haside : t.isAside = true) (hclear : Clear t s) :
    cs.countP (fun c => t.runs c.before) = (if reached then 1 else 0) ∧
      (if reached then Marks w t → t.done s' = true else Clear t s') := by
  have hmain : ∀ {fn : MainFn} {n : Nat} {as : List Node}, args[j]? = some (.main fn n as) → False := by
    intro fn n as hm
    rw [ht] at hm
    cases hm
    cases haside
  cases h with
  | missed => exact ⟨rfl, hclear⟩
  | skips hm => exact (hmain hm).elim
  | serves h =>
    cases h with
    | idle hidle =>
      have hinit : (s.nodes t.idx).initialized = true := by
        unfold Idle at hidle
        rw [ht] at hidle
        cases t with
        | oneshot | pred => exact hidle
        | int | fieldRef | literal | main => cases haside
      rw [hclear.new] at hinit
      exact nomatch hinit
    | aside ht' _ hnew hk =>
      rw [ht] at ht'
      cases ht'
      refine ⟨?_, fun hmarks => hmarks _ _ _ hk⟩
      have hruns : t.runs s = true := by
        cases t with
        | oneshot => simp [Node.runs, hclear.due]
        | pred => rfl
        | int | fieldRef | literal | main => cases haside
      simp [hruns]
    | stays hm | ends hm | restarts hm => exact (hmain hm).elim

end

/-! ## One tick -/

section

variable {idx : Nat} {own : NodeData → E → Result × NodeData × E} {α β : Type} {kids : List (Kid E)}

theorem calls_bind (p : Prog α) (f : α → Prog β) (s : Eng E) :
    calls w kids idx own (p >>= f) s = calls w kids idx own p s ++
      match runProg w kids idx own p s with
      | none => []
      | some (a, s') => calls w kids idx own (f a) s' := by
  change calls w kids idx own (p.andThen f) s = _
  induction p generalizing s with
  | ret a => rfl
  | spin => rfl
  | leaf k ih => exact ih _ _
  | getData k ih => exact ih _ _
  | setData d k ih => exact ih _
  | readField fd k ih => exact ih _ _
  | childActive j k ih => exact ih _ _
  | childInitialized j k ih => exact ih _ _
  | invokeAny j k ih =>
    simp only [Prog.andThen, calls, runProg, Option.bind_eq_bind]
    cases (kidAt kids j).invoke s with
    | none => rfl
    | some out => exact congrArg (List.cons _) (ih _ _)
  | invokePred j k ih =>
    simp only [Prog.andThen, calls, runProg, Option.bind_eq_bind]
    cases (kidAt kids j).invokePred s with
    | none => rfl
    | some out => exact ih _ _
  | childTerminate j k ih =>
    simp only [Prog.andThen, calls, runProg, Option.bind_eq_bind]
    cases (kidAt kids j).terminate s with
    | none => rfl
    | some out => exact ih _
  | childReset j k ih => exact ih _
  | childResetRecursive j k ih => exact ih _

theorem silent_calls {p : Prog α} (h : Silent p) (s : Eng E) : calls w kids idx own p s = [] := by
  induction p generalizing s with
  | ret a => rfl
  | spin => rfl
  | leaf k ih => exact ih _ (h _) _
  | getData k ih => exact ih _ (h _) _
  | setData d k ih => exact ih h _
  | readField fd k ih => exact ih _ (h _) _
  | childActive j k ih => exact ih _ (h _) _
  | childInitialized j k ih => exact ih _ (h _) _
  | invokeAny j k ih => exact h.elim
  | invokePred j k ih =>
    simp only [calls]
    split
    · rfl
    · exact ih _ (h _) _
  | childTerminate j k ih =>
    simp only [calls]
    split
    · rfl
    · exact ih h _
  | childReset j k ih => exact ih h _
  | childResetRecursive j k ih => exact ih h _

theorem active_count_run (js : List Nat) (s : Eng E) :
    runProg w (Node.kids w args) idx own (active_main_count (args.map Node.kind) js) s =
      some ((js.filter (activeMain args s)).length, s) := by
  induction js with
  | nil => rfl
  | cons j js ih =>
    cases hmain : isMain (args.map Node.kind) j with
    | false =>
      have hno : activeMain args s j = false := by
        unfold activeMain
        split
        · rename_i hj
          rw [isMain_iff.mpr ⟨_, _, _, hj⟩] at hmain
          exact nomatch hmain
        · rfl
      rw [List.filter_cons_of_neg (by simp [hno])]
      simp only [active_main_count, hmain]
      exact ih
    | true =>
      obtain ⟨fn, n, as, hj⟩ := isMain_iff.mp hmain
      have hkid : (kidAt (Node.kids w args) j).active s = activeMain args s j := by
        rw [kidAt_some hj, kid_active rfl]
        simp [activeMain, hj, Node.idx]
      simp only [active_main_count, hmain, if_true, runProg_bind, run_child_is_active, Option.bind_some,
        ih, hkid, runProg_pure]
      cases hact : activeMain args s j with
      | true =>
        rw [List.filter_cons_of_pos hact]
        rfl
      | false =>
        rw [List.filter_cons_of_neg (by simp [hact])]
        rfl

theorem no_active_iff :
    ((List.range args.length).filter (activeMain args s)).length = 0 ↔ ∀ j, activeMain args s j = false := by
  rw [List.length_eq_zero_iff, List.filter_eq_nil_iff]
  constructor
  · intro h j
    by_cases hj : j < args.length
    · exact Bool.eq_false_iff.mpr (h j (List.mem_range.mpr hj))
    · simp [activeMain, List.getElem?_eq_none (Nat.le_of_not_lt hj)]
  · intro h j _
    simp [h j]

end

end

end motioncore.engine
