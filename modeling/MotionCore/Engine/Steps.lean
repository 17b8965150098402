-- A relation between engine states that every single step respects is respected by
-- every program, by everything a parent does with a child and by every tick.
import MotionCore.Engine.Tree

namespace motioncore.engine

open EventType

variable {E : Type} {R : Eng E → Eng E → Prop}

def Callback.node : Callback → Nat
  | .init n => n
  | .tick n _ => n
  | .terminate n => n

mutual

def Node.indices : Node → List Nat
  | .int _ | .fieldRef _ | .literal => []
  | .main _ idx args => idx :: Node.indicesAll args
  | .oneshot _ idx _ => [idx]
  | .pred _ idx args => idx :: Node.indicesAll args

def Node.indicesAll : List Node → List Nat
  | [] => []
  | n :: ns => n.indices ++ Node.indicesAll ns

end

mutual

def Node.mains : Node → List Nat
  | .int _ | .fieldRef _ | .literal | .oneshot _ _ _ => []
  | .main _ idx args => idx :: Node.mainsAll args
  | .pred _ _ args => Node.mainsAll args

def Node.mainsAll : List Node → List Nat
  | [] => []
  | n :: ns => n.mains ++ Node.mainsAll ns

end

mutual

theorem mains_subset_indices : ∀ (t : Node), ∀ n ∈ t.mains, n ∈ t.indices
  | .int _ | .fieldRef _ | .literal | .oneshot _ _ _ => by
    intro n h
    simp [Node.mains] at h
  | .main _ idx args => by
    intro n h
    simp only [Node.mains, Node.indices, List.mem_cons] at h ⊢
    rcases h with h | h
    · exact Or.inl h
    · exact Or.inr (mainsAll_subset_indicesAll args n h)
  | .pred _ idx args => by
    intro n h
    simp only [Node.mains, Node.indices, List.mem_cons] at h ⊢
    exact Or.inr (mainsAll_subset_indicesAll args n h)

theorem mainsAll_subset_indicesAll :
    ∀ (ts : List Node), ∀ n ∈ Node.mainsAll ts, n ∈ Node.indicesAll ts
  | [] => by
    intro n h
    simp [Node.mainsAll] at h
  | t :: ts => by
    intro n h
    simp only [Node.mainsAll, Node.indicesAll, List.mem_append] at h ⊢
    rcases h with h | h
    · exact Or.inl (mains_subset_indices t n h)
    · exact Or.inr (mainsAll_subset_indicesAll ts n h)

end

/-! ## What a relation has to respect -/

/-- The relation may be followed from state to state, also when the environment changes. -/
structure Follows (R : Eng E → Eng E → Prop) : Prop where
  refl : ∀ s, R s s
  trans : ∀ s t u, R s t → R t u → R s u
  env : ∀ s env, R s { s with env := env }

/-- The same for the changes that the functions of a world make. -/
structure FollowsIn (w : World E) (R : Eng E → Eng E → Prop) : Prop where
  refl : ∀ s, R s s
  trans : ∀ s t u, R s t → R t u → R s u
  main : ∀ s id event event_id d, R s { s with env := (w.main id event event_id d s.env).2.2 }
  oneshot : ∀ s id event_id, R s { s with env := w.oneshot id event_id s.env }
  test : ∀ s id event_id, R s { s with env := (w.test id event_id s.env).2 }
  counter : ∀ s id event_id st, R s { s with env := (w.counter id event_id st s.env).2.2 }

theorem Follows.into (h : Follows R) (w : World E) : FollowsIn w R where
  refl := h.refl
  trans := h.trans
  main s _ _ _ _ := h.env s _
  oneshot s _ _ := h.env s _
  test s _ _ := h.env s _
  counter s _ _ _ := h.env s _

/-- The relation respects every single step at the node. -/
structure RespectsAt (R : Eng E → Eng E → Prop) (idx : Nat) : Prop where
  setNode : ∀ s st, R s (s.setNode idx st)
  record : ∀ s c, c.node = idx → R s (s.record c)
  drop : ∀ s, R s { s with dropped := s.dropped ++ [idx] }

/-- The relation respects everything a parent does with the child. -/
structure Kid.Respects (R : Eng E → Eng E → Prop) (k : Kid E) : Prop where
  invoke : ∀ s r s', k.invoke s = some (r, s') → R s s'
  invokePred : ∀ s b s', k.invokePred s = some (b, s') → R s s'
  terminate : ∀ s s', k.terminate s = some s' → R s s'
  reset : ∀ s, R s (k.reset s)
  resetRecursive : ∀ s, R s (k.resetRecursive s)

theorem Kid.Respects.mono {R' : Eng E → Eng E → Prop} {k : Kid E} (h : k.Respects R)
    (himp : ∀ s s', R s s' → R' s s') : k.Respects R' where
  invoke s r s' hs := himp s s' (h.invoke s r s' hs)
  invokePred s b s' hs := himp s s' (h.invokePred s b s' hs)
  terminate s s' hs := himp s s' (h.terminate s s' hs)
  reset s := himp s _ (h.reset s)
  resetRecursive s := himp s _ (h.resetRecursive s)

variable {w : World E}

theorem param_respects (hR : FollowsIn w R) (kind : ArgKind) (hk : kind.isCall = false) :
    (Kid.param kind).Respects R := by
  have hmain : kind ≠ .call .main := by
    rintro rfl
    simp [ArgKind.isCall] at hk
  refine ⟨?_, ?_, ?_, ?_, ?_⟩
  · intro s r s' h
    simp only [Kid.param, Option.some.injEq, Prod.mk.injEq] at h
    exact h.2 ▸ hR.refl s
  · intro s b s' h
    simp only [Kid.param, Option.some.injEq, Prod.mk.injEq] at h
    exact h.2 ▸ hR.refl s
  · intro s s' h
    simp only [Kid.terminate, Kid.param, hmain, if_false, Option.some.injEq] at h
    exact h ▸ hR.refl s
  · intro s
    cases kind with
    | call t => simp [ArgKind.isCall] at hk
    | int v => exact hR.refl s
    | field f => exact hR.refl s
    | other => exact hR.refl s
  · intro s
    simp only [Kid.resetRecursive, Kid.param, hk]
    exact hR.refl s

theorem kidAt_respects (hR : FollowsIn w R) {kids : List (Kid E)} (hkids : ∀ k ∈ kids, k.Respects R)
    (j : Nat) : (kidAt kids j).Respects R := by
  unfold kidAt
  rcases hj : kids[j]? with _ | k
  · exact param_respects hR .other rfl
  · exact hkids k (List.mem_of_getElem? hj)

/-! ## Programs -/

/-- A program respects the relation when its children and the writes to its own data do. -/
theorem runProg_respects (hR : FollowsIn w R) {α : Type} {kids : List (Kid E)}
    (hkids : ∀ k ∈ kids, k.Respects R) {idx : Nat} (hdata : ∀ s d, R s (s.setData idx d))
    (own : NodeData → E → Result × NodeData × E)
    (hown : ∀ s d, R s { s with env := (own d s.env).2.2 }) (p : Prog α) :
    ∀ s a s', runProg w kids idx own p s = some (a, s') → R s s' := by
  have hkid := kidAt_respects hR hkids
  induction p with
  | ret a =>
    intro s b s' h
    simp only [runProg, Option.some.injEq, Prod.mk.injEq] at h
    exact h.2 ▸ hR.refl s
  | spin =>
    intro s b s' h
    simp [runProg] at h
  | leaf k ih =>
    intro s b s' h
    simp only [runProg] at h
    exact hR.trans _ _ _ (hR.trans _ _ _ (hdata s _) (hown (s.setData idx _) _)) (ih _ _ _ _ h)
  | getData k ih =>
    intro s b s' h
    exact ih _ _ _ _ h
  | setData d k ih =>
    intro s b s' h
    exact hR.trans _ _ _ (hdata s d) (ih _ _ _ h)
  | readField f k ih =>
    intro s b s' h
    exact ih _ _ _ _ h
  | childActive j k ih =>
    intro s b s' h
    exact ih _ _ _ _ h
  | childInitialized j k ih =>
    intro s b s' h
    exact ih _ _ _ _ h
  | invokeAny j k ih =>
    intro s b s' h
    simp only [runProg, Option.bind_eq_bind, Option.bind_eq_some_iff] at h
    obtain ⟨⟨r, s₁⟩, hk, h⟩ := h
    exact hR.trans _ _ _ ((hkid j).invoke _ _ _ hk) (ih _ _ _ _ h)
  | invokePred j k ih =>
    intro s b s' h
    simp only [runProg, Option.bind_eq_bind, Option.bind_eq_some_iff] at h
    obtain ⟨⟨r, s₁⟩, hk, h⟩ := h
    exact hR.trans _ _ _ ((hkid j).invokePred _ _ _ hk) (ih _ _ _ _ h)
  | childTerminate j k ih =>
    intro s b s' h
    simp only [runProg, Option.bind_eq_bind, Option.bind_eq_some_iff] at h
    obtain ⟨s₁, hk, h⟩ := h
    exact hR.trans _ _ _ ((hkid j).terminate _ _ hk) (ih _ _ _ h)
  | childReset j k ih =>
    intro s b s' h
    exact hR.trans _ _ _ ((hkid j).reset s) (ih _ _ _ h)
  | childResetRecursive j k ih =>
    intro s b s' h
    exact hR.trans _ _ _ ((hkid j).resetRecursive s) (ih _ _ _ h)

theorem reset_all_respects (hR : FollowsIn w R) (kids : List (Kid E))
    (hkids : ∀ k ∈ kids, k.Respects R) : ∀ s, R s (reset_all kids s) := by
  induction kids with
  | nil => exact fun s => hR.refl s
  | cons k ks ih =>
    intro s
    have hk := (hkids k (List.mem_cons_self ..)).resetRecursive s
    exact hR.trans _ _ _ hk (ih (fun k' h => hkids k' (List.mem_cons_of_mem _ h)) _)

/-! ## Dispatch -/

section Dispatch

variable {w : World E} {fn : MainFn} {idx : Nat} {kids : List (Kid E)}

theorem setData_respects (hat : RespectsAt R idx) (s : Eng E) (d : NodeData) :
    R s (s.setData idx d) :=
  hat.setNode s _

theorem ownFn_respects (hR : FollowsIn w R) (event_id : Nat) (event : EventType) (s : Eng E)
    (d : NodeData) : R s { s with env := (ownFn w fn event_id event d s.env).2.2 } := by
  cases fn with
  | leaf id => exact hR.main s id event event_id d
  | _ => exact hR.refl s

variable {s s' : Eng E} {r : Result}

theorem callMain_respects (hR : FollowsIn w R) (hkids : ∀ k ∈ kids, k.Respects R)
    (hdata : ∀ s d, R s (s.setData idx d)) {event_id : Nat} {event : EventType}
    (h : callMain w fn idx kids event_id event s = some (r, s')) : R s s' :=
  runProg_respects hR hkids hdata _ (ownFn_respects hR event_id event) _ s r s' h

theorem first_call_respects (hR : FollowsIn w R) (hat : RespectsAt R idx)
    (hkids : ∀ k ∈ kids, k.Respects R) (h : first_call w fn idx kids s = some s') : R s s' := by
  unfold first_call at h
  split at h
  · cases h
    exact hR.refl s
  · simp only [Option.map_eq_some_iff] at h
    obtain ⟨⟨r, s₁⟩, h, rfl⟩ := h
    have hcall := callMain_respects hR hkids (setData_respects hat) h
    exact hR.trans _ _ _ (hR.trans _ _ _ (hat.setNode s _) (hat.record _ _ rfl)) hcall

theorem last_call_respects (hR : FollowsIn w R) (hat : RespectsAt R idx)
    (hkids : ∀ k ∈ kids, k.Respects R) (h : last_call w fn idx kids r s = some s') : R s s' := by
  unfold last_call at h
  split at h
  · simp only [Option.map_eq_some_iff] at h
    obtain ⟨⟨r, s₁⟩, h, rfl⟩ := h
    have hcall := callMain_respects hR hkids (setData_respects hat) h
    exact hR.trans _ _ _ (hat.record s _ rfl) (hR.trans _ _ _ hcall (hat.setNode _ _))
  · cases h
    exact hR.refl s

theorem dispatch_main_cases (h : dispatch_main w fn idx kids s = some (r, s')) :
    ((s.nodes idx).active = false ∧ r = SE_PIPELINE_CONTINUE ∧ s' = s) ∨
    ((s.nodes idx).active = true ∧ ∃ s₁ s₂, first_call w fn idx kids s = some s₁ ∧
      callMain w fn idx kids s₁.event_id SE_EVENT_TICK s₁ = some (r, s₂) ∧
      last_call w fn idx kids r (s₂.record (.tick idx r)) = some s') := by
  unfold dispatch_main at h
  cases hact : (s.nodes idx).active with
  | false =>
    simp only [hact, Bool.not_false, if_true, Option.some.injEq, Prod.mk.injEq] at h
    exact Or.inl ⟨rfl, h.1.symm, h.2.symm⟩
  | true =>
    simp only [hact, Bool.not_true, Bool.false_eq_true, if_false, Option.bind_eq_bind,
      Option.bind_eq_some_iff, Option.pure_def, Option.some.injEq, Prod.mk.injEq] at h
    obtain ⟨s₁, h₁, ⟨r', s₂⟩, h₂, s₃, h₃, rfl, rfl⟩ := h
    exact Or.inr ⟨rfl, s₁, s₂, h₁, h₂, h₃⟩

theorem dispatch_main_respects (hR : FollowsIn w R) (hat : RespectsAt R idx)
    (hkids : ∀ k ∈ kids, k.Respects R) (h : dispatch_main w fn idx kids s = some (r, s')) :
    R s s' := by
  rcases dispatch_main_cases h with ⟨_, _, rfl⟩ | ⟨_, s₁, s₂, h₁, h₂, h₃⟩
  · exact hR.refl s'
  · have hfirst := first_call_respects hR hat hkids h₁
    have htick := callMain_respects hR hkids (setData_respects hat) h₂
    have hlast := last_call_respects hR hat hkids h₃
    exact hR.trans _ _ _ hfirst (hR.trans _ _ _ htick (hR.trans _ _ _ (hat.record _ _ rfl) hlast))

theorem terminate_cases (h : (mainKid w fn idx kids).terminate s = some s') :
    ((s.nodes idx).initialized = false ∧ s' = s) ∨
    ((s.nodes idx).initialized = true ∧ ∃ r s₁, callMain w fn idx kids 0 SE_EVENT_TERMINATE
      (s.record (.terminate idx)) = some (r, s₁) ∧ s' = s₁.clearNode idx) := by
  simp only [Kid.terminate, mainKid, if_true] at h
  cases hinit : (s.nodes idx).initialized with
  | false =>
    simp only [hinit, Bool.false_eq_true, if_false, Option.some.injEq] at h
    exact Or.inl ⟨rfl, h.symm⟩
  | true =>
    simp only [hinit, if_true, terminate_main, Option.map_eq_some_iff] at h
    obtain ⟨_, ⟨⟨r, s₁⟩, h, rfl⟩, rfl⟩ := h
    exact Or.inr ⟨rfl, r, s₁, h, rfl⟩

theorem resetMain_respects (hR : FollowsIn w R) (hat : RespectsAt R idx) (s : Eng E) :
    R s (s.resetMain idx) := by
  unfold Eng.resetMain
  dsimp only
  split
  · exact hR.trans _ _ _ (hat.setNode s _) (hat.drop _)
  · exact hat.setNode s _

theorem mainKid_respects (hR : FollowsIn w R) (hat : RespectsAt R idx)
    (hkids : ∀ k ∈ kids, k.Respects R) : (mainKid w fn idx kids).Respects R := by
  refine ⟨?_, ?_, ?_, ?_, ?_⟩
  · intro s r s' h
    exact dispatch_main_respects hR hat hkids h
  · intro s b s' h
    simp only [mainKid, Option.some.injEq, Prod.mk.injEq] at h
    exact h.2 ▸ hR.refl s
  · intro s s' h
    rcases terminate_cases h with ⟨_, rfl⟩ | ⟨_, r, s₁, hrun, rfl⟩
    · exact hR.refl s'
    · have hcall := callMain_respects hR hkids (setData_respects hat) hrun
      exact hR.trans _ _ _ (hat.record s _ rfl) (hR.trans _ _ _ hcall (hat.setNode _ _))
  · exact resetMain_respects hR hat
  · intro s
    exact hR.trans _ _ _ (resetMain_respects hR hat s) (reset_all_respects hR kids hkids _)

theorem dispatch_oneshot_respects (hR : FollowsIn w R) (hat : RespectsAt R idx) (id : Nat)
    (survives_reset : Bool) (s : Eng E) : R s (dispatch_oneshot w id idx survives_reset s) := by
  unfold dispatch_oneshot
  dsimp only
  by_cases hdone : (if survives_reset then (s.nodes idx).ever_init
      else (s.nodes idx).initialized) = true
  · rw [if_pos hdone]
    exact hR.refl s
  · rw [if_neg hdone]
    exact hR.trans _ _ _ (hat.setNode s _) (hR.oneshot _ id s.event_id)

theorem oneshotKid_respects (hR : FollowsIn w R) (hat : RespectsAt R idx) (id : Nat)
    (survives_reset : Bool) : (oneshotKid w id idx survives_reset).Respects R := by
  refine ⟨?_, ?_, ?_, ?_, ?_⟩
  · intro s r s' h
    simp only [oneshotKid, Option.some.injEq, Prod.mk.injEq] at h
    exact h.2 ▸ dispatch_oneshot_respects hR hat id survives_reset s
  · intro s b s' h
    simp only [oneshotKid, Option.some.injEq, Prod.mk.injEq] at h
    exact h.2 ▸ hR.refl s
  · intro s s' h
    simp [Kid.terminate, oneshotKid] at h
    exact h ▸ hR.refl s
  · exact fun s => hat.setNode s _
  · exact fun s => hat.setNode s _

theorem dispatch_pred_respects (hR : FollowsIn w R) (hat : RespectsAt R idx)
    (hkids : ∀ k ∈ kids, k.Respects R) {pfn : PredFn} {b : Bool}
    (h : dispatch_pred w pfn idx kids s = some (b, s')) : R s s' := by
  have hrun : ∀ p, runProg w kids idx (fun d env => (SE_PIPELINE_CONTINUE, d, env)) p s =
      some (b, s') → R s s' := fun p =>
    runProg_respects hR hkids (setData_respects hat) _ (fun s _ => hR.refl s) p s b s'
  cases pfn with
  | test id =>
    simp only [dispatch_pred, Option.some.injEq, Prod.mk.injEq] at h
    exact h.2 ▸ hR.test s id s.event_id
  | counter id =>
    simp only [dispatch_pred, Option.some.injEq, Prod.mk.injEq] at h
    exact h.2 ▸ hR.trans _ _ _ (hat.setNode s _) (hR.counter _ id s.event_id _)
  | se_pred_and | se_pred_or | se_pred_not | se_pred_nor | se_pred_nand | se_pred_xor =>
    exact hrun _ h

theorem predKid_respects (hR : FollowsIn w R) (hat : RespectsAt R idx)
    (hkids : ∀ k ∈ kids, k.Respects R) (pfn : PredFn) : (predKid w pfn idx kids).Respects R := by
  refine ⟨?_, ?_, ?_, ?_, ?_⟩
  · intro s r s' h
    simp only [predKid, Option.map_eq_some_iff, Prod.mk.injEq] at h
    obtain ⟨⟨b, s₁⟩, h, _, rfl⟩ := h
    exact dispatch_pred_respects hR hat hkids h
  · intro s b s' h
    exact dispatch_pred_respects hR hat hkids h
  · intro s s' h
    simp [Kid.terminate, predKid] at h
    exact h ▸ hR.refl s
  · exact fun s => hat.setNode s _
  · exact fun s => hR.trans _ _ _ (hat.setNode s _) (reset_all_respects hR kids hkids _)

end Dispatch

/-! ## Trees -/

mutual

/-- A relation that is respected at every node of a tree is respected by the tree. -/
theorem kid_respects {w : World E} (hR : FollowsIn w R) : ∀ (t : Node),
    (∀ i ∈ t.indices, RespectsAt R i) → (t.kid w).Respects R
  | .int _, _ => param_respects hR _ rfl
  | .fieldRef _, _ => param_respects hR _ rfl
  | .literal, _ => param_respects hR _ rfl
  | .main _ idx args, h => by
    simp only [Node.indices, List.forall_mem_cons] at h
    exact mainKid_respects hR h.1 (kids_respect hR args h.2)
  | .oneshot id idx survives_reset, h => by
    simp only [Node.indices, List.forall_mem_cons] at h
    exact oneshotKid_respects hR h.1 id survives_reset
  | .pred fn idx args, h => by
    simp only [Node.indices, List.forall_mem_cons] at h
    exact predKid_respects hR h.1 (kids_respect hR args h.2) fn

theorem kids_respect {w : World E} (hR : FollowsIn w R) : ∀ (ts : List Node),
    (∀ i ∈ Node.indicesAll ts, RespectsAt R i) → ∀ k ∈ Node.kids w ts, k.Respects R
  | [], _ => by
    intro k hk
    simp [Node.kids] at hk
  | t :: ts, h => by
    intro k hk
    simp only [Node.kids, List.mem_cons, Node.indicesAll, List.mem_append] at hk h
    rcases hk with rfl | hk
    · exact kid_respects hR t fun i hi => h i (Or.inl hi)
    · exact kids_respect hR ts (fun i hi => h i (Or.inr hi)) k hk

end

end motioncore.engine
