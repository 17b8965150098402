-- INIT and TERMINATE of a main node alternate in every run in which no node below the
-- root completes with DISABLE, and no reset takes the INITIALIZED flag from a node that
-- got no TERMINATE. A node that completes gets a second TERMINATE from its parent.
import MotionCore.Engine.Steps

namespace motioncore.engine

open EventType

variable {E : Type}

/-! ## The calls of a node -/

/-- The INIT and TERMINATE calls of a node, oldest first. -/
def lifecycle (n : Nat) (log : List Callback) : List EventType :=
  log.filterMap fun
    | .init m => if m = n then some SE_EVENT_INIT else none
    | .terminate m => if m = n then some SE_EVENT_TERMINATE else none
    | .tick _ _ => none

/-- INIT and TERMINATE by turns, and INIT first. -/
def Alternates (calls : List EventType) : Prop :=
  ∀ i e, calls[i]? = some e → e = if i % 2 = 0 then SE_EVENT_INIT else SE_EVENT_TERMINATE

theorem lifecycle_append (n : Nat) (log : List Callback) (c : Callback) :
    lifecycle n (log ++ [c]) = lifecycle n log ++ lifecycle n [c] := by
  unfold lifecycle
  rw [List.filterMap_append]

variable {n : Nat}

/-- The callbacks of other nodes are none of its calls. -/
theorem lifecycle_other {c : Callback} (h : c.node ≠ n) : lifecycle n [c] = [] := by
  cases c with
  | init m => simp [lifecycle, show m ≠ n from h]
  | tick m r => rfl
  | terminate m => simp [lifecycle, show m ≠ n from h]

theorem lifecycle_init (n : Nat) : lifecycle n [.init n] = [SE_EVENT_INIT] := by
  simp [lifecycle]

theorem lifecycle_tick (n : Nat) (r : Result) : lifecycle n [.tick n r] = [] := rfl

theorem lifecycle_terminate (n : Nat) : lifecycle n [.terminate n] = [SE_EVENT_TERMINATE] := by
  simp [lifecycle]

theorem alternates_append {calls : List EventType} {e : EventType} (h : Alternates calls)
    (he : e = if calls.length % 2 = 0 then SE_EVENT_INIT else SE_EVENT_TERMINATE) :
    Alternates (calls ++ [e]) := by
  intro i e' hi
  rcases Nat.lt_trichotomy i calls.length with hlt | heq | hgt
  · rw [List.getElem?_append_left hlt] at hi
    exact h i e' hi
  · subst heq
    rw [List.getElem?_append_right (Nat.le_refl _)] at hi
    simp only [Nat.sub_self, List.getElem?_cons_zero, Option.some.injEq] at hi
    exact hi ▸ he
  · rw [List.getElem?_eq_none (by simp; omega)] at hi
    cases hi

/-! ## In step -/

/-- The calls of a node alternate, and its flag says whether it is initialised. -/
structure InStep (n : Nat) (s : Eng E) : Prop where
  alternates : Alternates (lifecycle n s.log)
  flag : (s.nodes n).initialized = decide ((lifecycle n s.log).length % 2 = 1)

/-- No node but the root completed with DISABLE, and no reset took the INITIALIZED flag from
a main node. -/
structure Calm (root : Nat) (s : Eng E) : Prop where
  none_disabled : ∀ n, .tick n SE_PIPELINE_DISABLE ∈ s.log → n = root
  none_dropped : s.dropped = []

/-- Nothing that happened is forgotten. -/
structure Grows (s s' : Eng E) : Prop where
  log : s.log <+: s'.log
  dropped : s.dropped <+: s'.dropped

variable {s s' : Eng E}

theorem Calm.of_grows {root : Nat} (h : Grows s s') (hcalm : Calm root s') : Calm root s := by
  refine ⟨fun n hn => hcalm.none_disabled n (h.log.subset hn), ?_⟩
  exact List.prefix_nil.mp (hcalm.none_dropped ▸ h.dropped)

/-- Nothing happened to the flags of the node, and it got neither INIT nor TERMINATE. -/
structure Quiet (n : Nat) (s s' : Eng E) : Prop where
  grows : Grows s s'
  calls : lifecycle n s'.log = lifecycle n s.log
  active : (s'.nodes n).active = (s.nodes n).active
  initialized : (s'.nodes n).initialized = (s.nodes n).initialized

/-- The node stays in step as long as everything is calm. -/
structure Keeps (root n : Nat) (s s' : Eng E) : Prop where
  grows : Grows s s'
  in_step : Calm root s' → InStep n s → InStep n s'

theorem Quiet.in_step (h : Quiet n s s') (hs : InStep n s) : InStep n s' := by
  refine ⟨?_, ?_⟩
  · rw [h.calls]
    exact hs.alternates
  · rw [h.initialized, h.calls]
    exact hs.flag

theorem Quiet.keeps {root : Nat} (h : Quiet n s s') : Keeps root n s s' :=
  ⟨h.grows, fun _ => h.in_step⟩

/-! ## Steps of other nodes -/

theorem grows_of_eq (hl : s'.log = s.log) (hd : s'.dropped = s.dropped) : Grows s s' :=
  ⟨hl ▸ List.prefix_rfl, hd ▸ List.prefix_rfl⟩

theorem grows_refl (s : Eng E) : Grows s s := grows_of_eq rfl rfl

theorem Grows.trans {t u : Eng E} (h : Grows s t) (h' : Grows t u) : Grows s u :=
  ⟨h.log.trans h'.log, h.dropped.trans h'.dropped⟩

theorem grows_follows : Follows (Grows (E := E)) :=
  ⟨grows_refl, fun _ _ _ => Grows.trans, fun _ _ => grows_of_eq rfl rfl⟩

theorem grows_at (m : Nat) : RespectsAt (Grows (E := E)) m where
  setNode _ _ := grows_of_eq rfl rfl
  record _ _ _ := ⟨List.prefix_append .., List.prefix_rfl⟩
  drop _ := ⟨List.prefix_rfl, List.prefix_append ..⟩

theorem quiet_follows (n : Nat) : Follows (Quiet (E := E) n) where
  refl s := ⟨grows_refl s, rfl, rfl, rfl⟩
  trans _ _ _ h h' := ⟨h.grows.trans h'.grows, h'.calls.trans h.calls, h'.active.trans h.active,
    h'.initialized.trans h.initialized⟩
  env _ _ := ⟨grows_of_eq rfl rfl, rfl, rfl, rfl⟩

theorem quiet_at {m : Nat} (h : m ≠ n) : RespectsAt (Quiet (E := E) n) m where
  setNode s st := by
    have hn : ((s.setNode m st).nodes n) = s.nodes n := by simp [Eng.setNode, Ne.symm h]
    exact ⟨(grows_at m).setNode s st, rfl, by rw [hn], by rw [hn]⟩
  record s c hc := by
    refine ⟨(grows_at m).record s c hc, ?_, rfl, rfl⟩
    simp [Eng.record, lifecycle_append, lifecycle_other (hc ▸ h : c.node ≠ n)]
  drop s := ⟨(grows_at m).drop s, rfl, rfl, rfl⟩

theorem keeps_follows (root n : Nat) : Follows (Keeps (E := E) root n) where
  refl s := ⟨grows_refl s, fun _ hs => hs⟩
  trans _ _ _ h h' := ⟨h.grows.trans h'.grows,
    fun hcalm hs => h'.in_step hcalm (h.in_step (hcalm.of_grows h'.grows) hs)⟩
  env _ _ := ⟨grows_of_eq rfl rfl, fun _ hs => ⟨hs.alternates, hs.flag⟩⟩

theorem keeps_at {root m : Nat} (h : m ≠ n) : RespectsAt (Keeps (E := E) root n) m where
  setNode s st := ((quiet_at h).setNode s st).keeps
  record s c hc := ((quiet_at h).record s c hc).keeps
  drop s := ((quiet_at h).drop s).keeps

/-! ## The steps of the node itself -/

theorem quiet_setData (n : Nat) (s : Eng E) (m : Nat) (d : NodeData) :
    Quiet n s (s.setData m d) := by
  have hn : ((s.setData m d).nodes n).active = (s.nodes n).active ∧
      ((s.setData m d).nodes n).initialized = (s.nodes n).initialized := by
    simp only [Eng.setData, Eng.setNode]
    split
    · rename_i h
      subst h
      exact ⟨rfl, rfl⟩
    · exact ⟨rfl, rfl⟩
  exact ⟨grows_of_eq rfl rfl, rfl, hn.1, hn.2⟩

theorem quiet_tick (n : Nat) (s : Eng E) (r : Result) : Quiet n s (s.record (.tick n r)) := by
  refine ⟨(grows_at n).record s _ rfl, ?_, rfl, rfl⟩
  simp [Eng.record, lifecycle_append, lifecycle_tick]

theorem InStep.init (hs : InStep n s) (hflag : (s.nodes n).initialized = false) :
    InStep n ((s.setNode n { s.nodes n with initialized := true }).record (.init n)) := by
  have heven : (lifecycle n s.log).length % 2 = 0 := by
    have := hs.flag
    rw [hflag] at this
    simp at this
    omega
  refine ⟨?_, ?_⟩
  · simp only [Eng.record, Eng.setNode, lifecycle_append, lifecycle_init]
    exact alternates_append hs.alternates (by rw [if_pos heven])
  · simp [Eng.record, Eng.setNode, lifecycle_append, lifecycle_init]
    omega

/-- TERMINATE for an initialised node, which the flag does not show yet. -/
theorem InStep.terminate (hs : InStep n s) (hflag : (s.nodes n).initialized = true) :
    Alternates (lifecycle n (s.record (.terminate n)).log) ∧
      (lifecycle n (s.record (.terminate n)).log).length % 2 = 0 := by
  have hodd : (lifecycle n s.log).length % 2 = 1 := by
    have := hs.flag
    rw [hflag] at this
    simpa using this.symm
  simp only [Eng.record, lifecycle_append, lifecycle_terminate]
  refine ⟨alternates_append hs.alternates ?_, ?_⟩
  · rw [if_neg (by omega)]
  · simp only [List.length_append, List.length_cons, List.length_nil]
    omega

section Own

variable {w : World E} {fn : MainFn} {n : Nat} {kids : List (Kid E)}
variable {s s' : Eng E}

theorem first_call_in_step (hkids : ∀ k ∈ kids, k.Respects (Quiet n))
    (h : first_call w fn n kids s = some s') (hs : InStep n s) :
    InStep n s' ∧ (s'.nodes n).initialized = true := by
  unfold first_call at h
  split at h
  · rename_i hinit
    cases h
    exact ⟨hs, hinit⟩
  · rename_i hinit
    simp only [Option.map_eq_some_iff] at h
    obtain ⟨⟨r, s₁⟩, h, rfl⟩ := h
    have hq := callMain_respects ((quiet_follows n).into w) hkids
      (fun s d => quiet_setData n s n d) h
    refine ⟨hq.in_step (hs.init (by simpa using hinit)), ?_⟩
    rw [hq.initialized]
    simp [Eng.record, Eng.setNode]

/-- Up to its answer a node stays in step, also when it completes. -/
theorem ticked_in_step (hkids : ∀ k ∈ kids, k.Respects (Quiet n)) {s₁ s₂ : Eng E} {r : Result}
    (h₁ : first_call w fn n kids s = some s₁)
    (h₂ : callMain w fn n kids s₁.event_id SE_EVENT_TICK s₁ = some (r, s₂)) (hs : InStep n s) :
    InStep n (s₂.record (.tick n r)) ∧
      ((s₂.record (.tick n r)).nodes n).initialized = true := by
  obtain ⟨hs₁, hinit⟩ := first_call_in_step hkids h₁ hs
  have hq := callMain_respects ((quiet_follows n).into w) hkids
    (fun s d => quiet_setData n s n d) h₂
  have hq' := (quiet_follows n).trans _ _ _ hq (quiet_tick n s₂ r)
  exact ⟨hq'.in_step hs₁, hq'.initialized.trans hinit⟩

variable {root : Nat}

theorem dispatch_main_keeps (hn : n ≠ root) (hkids : ∀ k ∈ kids, k.Respects (Quiet n)) {r : Result}
    (h : dispatch_main w fn n kids s = some (r, s')) : Keeps root n s s' := by
  have hgrows : ∀ k ∈ kids, k.Respects Grows := fun k hk =>
    ⟨fun s r s' h => ((hkids k hk).invoke s r s' h).grows,
     fun s b s' h => ((hkids k hk).invokePred s b s' h).grows,
     fun s s' h => ((hkids k hk).terminate s s' h).grows,
     fun s => ((hkids k hk).reset s).grows, fun s => ((hkids k hk).resetRecursive s).grows⟩
  refine ⟨dispatch_main_respects (grows_follows.into w) (grows_at n) hgrows h, fun hcalm hs => ?_⟩
  rcases dispatch_main_cases h with ⟨_, _, rfl⟩ | ⟨_, s₁, s₂, h₁, h₂, h₃⟩
  · exact hs
  · have hlast := last_call_respects (grows_follows.into w) (grows_at n) hgrows h₃
    have hticked := (ticked_in_step hkids h₁ h₂ hs).1
    unfold last_call at h₃
    split at h₃
    · -- the node completed, which the log shows
      rename_i hr
      have hmem : Callback.tick n SE_PIPELINE_DISABLE ∈ s'.log :=
        hlast.log.subset (by simp [Eng.record, hr])
      exact absurd (hcalm.none_disabled n hmem) hn
    · cases h₃
      exact hticked

theorem terminate_keeps (hkids : ∀ k ∈ kids, k.Respects (Quiet n))
    (h : (mainKid w fn n kids).terminate s = some s') : Keeps root n s s' := by
  rcases terminate_cases h with ⟨_, rfl⟩ | ⟨hinit, r, s₁, hrun, rfl⟩
  · exact (keeps_follows root n).refl s'
  · have hq := callMain_respects ((quiet_follows n).into w) hkids
      (fun s d => quiet_setData n s n d) hrun
    have hclear : Grows s₁ (s₁.clearNode n) := grows_of_eq rfl rfl
    refine ⟨(((grows_at n).record s _ rfl).trans hq.grows).trans hclear, fun _ hs => ?_⟩
    obtain ⟨halt, heven⟩ := hs.terminate hinit
    have hcalls : lifecycle n (s₁.clearNode n).log
        = lifecycle n (s.record (.terminate n)).log := hq.calls
    refine ⟨hcalls ▸ halt, ?_⟩
    rw [hcalls]
    simp [Eng.clearNode, Eng.setNode, heven]

theorem resetMain_keeps (s : Eng E) : Keeps root n s (s.resetMain n) := by
  unfold Eng.resetMain
  dsimp only
  split
  · -- an initialised node was dropped, which is not calm
    refine ⟨⟨List.prefix_rfl, List.prefix_append ..⟩, fun hcalm _ => ?_⟩
    have := hcalm.none_dropped
    simp at this
  · rename_i hinit
    refine ⟨grows_of_eq rfl rfl, fun _ hs => ⟨hs.alternates, ?_⟩⟩
    have hflag : ((s.resetNode n).nodes n).initialized = (s.nodes n).initialized := by
      simp only [Bool.not_eq_true] at hinit
      simp [Eng.resetNode, Eng.setNode, hinit]
    exact hflag.trans hs.flag

theorem mainKid_keeps (hn : n ≠ root) (hkids : ∀ k ∈ kids, k.Respects (Quiet n)) :
    (mainKid w fn n kids).Respects (Keeps root n) where
  invoke _ _ _ h := dispatch_main_keeps hn hkids h
  invokePred s b s' h := by
    simp only [mainKid, Option.some.injEq, Prod.mk.injEq] at h
    exact h.2 ▸ (keeps_follows root n).refl s
  terminate _ _ h := terminate_keeps hkids h
  reset s := resetMain_keeps s
  resetRecursive s := (keeps_follows root n).trans _ _ _ (resetMain_keeps s)
    (reset_all_respects ((quiet_follows n).into w) kids hkids _).keeps

end Own

/-! ## Trees -/

mutual

/-- Every main node of a tree, the root apart, stays in step. -/
theorem kid_keeps (w : World E) {root n : Nat} (hn : n ≠ root) : ∀ (t : Node),
    t.indices.Nodup → n ∈ t.mains → (t.kid w).Respects (Keeps root n)
  | .int _, _, h | .fieldRef _, _, h | .literal, _, h | .oneshot _ _ _, _, h => by
    simp [Node.mains] at h
  | .main fn idx args, hnodup, h => by
    simp only [Node.indices, List.nodup_cons, Node.mains, List.mem_cons] at hnodup h
    by_cases heq : idx = n
    · subst heq
      refine mainKid_keeps hn (kids_respect ((quiet_follows idx).into w) args fun i hi => ?_)
      exact quiet_at fun heq => hnodup.1 (heq ▸ hi)
    · refine mainKid_respects ((keeps_follows root n).into w) (keeps_at heq) ?_
      exact kids_keep w hn args hnodup.2 (h.resolve_left (Ne.symm heq))
  | .pred pfn idx args, hnodup, h => by
    simp only [Node.indices, List.nodup_cons, Node.mains] at hnodup h
    have hne : idx ≠ n := by
      rintro rfl
      exact hnodup.1 (mainsAll_subset_indicesAll args idx h)
    exact predKid_respects ((keeps_follows root n).into w) (keeps_at hne)
      (kids_keep w hn args hnodup.2 h) pfn

theorem kids_keep (w : World E) {root n : Nat} (hn : n ≠ root) : ∀ (ts : List Node),
    (Node.indicesAll ts).Nodup → n ∈ Node.mainsAll ts →
      ∀ k ∈ Node.kids w ts, k.Respects (Keeps root n)
  | [], _, h => by
    simp [Node.mainsAll] at h
  | t :: ts, hnodup, h => by
    simp only [Node.indicesAll, List.nodup_append, Node.mainsAll, List.mem_append] at hnodup h
    obtain ⟨ht, hts, hdisj⟩ := hnodup
    intro k hk
    simp only [Node.kids, List.mem_cons] at hk
    rcases hk with rfl | hk
    · by_cases hmem : n ∈ t.indices
      · refine kid_keeps w hn t ht (h.resolve_right fun h => ?_)
        exact hdisj n hmem n (mainsAll_subset_indicesAll ts n h) rfl
      · refine kid_respects ((keeps_follows root n).into w) t fun i hi => ?_
        exact keeps_at fun heq => hmem (heq ▸ hi)
    · by_cases hmem : n ∈ Node.indicesAll ts
      · refine kids_keep w hn ts hts (h.resolve_left fun h => ?_) k hk
        exact hdisj n (mains_subset_indices t n h) n hmem rfl
      · refine kids_respect ((keeps_follows root n).into w) ts (fun i hi => ?_) k hk
        exact keeps_at fun heq => hmem (heq ▸ hi)

end

/-! ## Runs -/

def Node.idx : Node → Nat
  | .int _ | .fieldRef _ | .literal => 0
  | .main _ idx _ => idx
  | .oneshot _ idx _ => idx
  | .pred _ idx _ => idx

/-- An event from outside the tree touches no node. -/
theorem InStep.outside (hs : InStep n s) (env : E) (event_id : Nat) :
    InStep n { s with env := env, event_id := event_id } :=
  ⟨hs.alternates, hs.flag⟩

variable {w : World E}

theorem tick_keeps {root : Node} (hnodup : root.indices.Nodup) (hn : n ∈ root.mains)
    (hroot : n ≠ root.idx) {event_id : Nat} {env : E} {r : Result}
    (h : s_expr_node_tick w root event_id { s with env := env } = some (r, s')) :
    Keeps root.idx n s s' := by
  unfold s_expr_node_tick at h
  dsimp only at h
  split at h
  · have hk := (kid_keeps w hroot root hnodup hn).invoke _ _ _ h
    refine ⟨⟨hk.grows.log, hk.grows.dropped⟩, fun hcalm hs => ?_⟩
    exact hk.in_step hcalm (hs.outside env event_id)
  · simp only [Option.some.injEq, Prod.mk.injEq] at h
    exact h.2 ▸ (keeps_follows root.idx n).env s env

/-- A main node below the root stays in step through a whole run. -/
theorem run_keeps {root : Node} (hnodup : root.indices.Nodup) (hn : n ∈ root.mains)
    (hroot : n ≠ root.idx) (es : List (Event E)) :
    ∀ s s', runTicks w root es s = some s' → Keeps root.idx n s s' := by
  induction es with
  | nil =>
    intro s s' h
    simp only [runTicks, Option.some.injEq] at h
    exact h ▸ (keeps_follows root.idx n).refl s
  | cons e es ih =>
    intro s s' h
    simp only [runTicks, Option.bind_eq_bind, Option.bind_eq_some_iff] at h
    obtain ⟨⟨r, s₁⟩, h₁, h⟩ := h
    exact (keeps_follows root.idx n).trans _ _ _ (tick_keeps hnodup hn hroot h₁) (ih _ _ h)

/-- The root is in step, or it has completed and is not invoked any more. -/
def RootInStep (n : Nat) (s : Eng E) : Prop :=
  InStep n s ∨ (Alternates (lifecycle n s.log) ∧ (s.nodes n).active = false)

theorem dispatch_root {fn : MainFn} {kids : List (Kid E)} (hkids : ∀ k ∈ kids, k.Respects (Quiet n))
    {r : Result} (h : dispatch_main w fn n kids s = some (r, s')) (hs : RootInStep n s) :
    RootInStep n s' := by
  rcases dispatch_main_cases h with ⟨_, _, rfl⟩ | ⟨hact, s₁, s₂, h₁, h₂, h₃⟩
  · exact hs
  · have hs : InStep n s := hs.resolve_right fun hdone => by simp [hact] at hdone
    obtain ⟨hticked, hinit⟩ := ticked_in_step hkids h₁ h₂ hs
    unfold last_call at h₃
    split at h₃
    · simp only [Option.map_eq_some_iff] at h₃
      obtain ⟨⟨r', s₃⟩, h₃, rfl⟩ := h₃
      have hq := callMain_respects ((quiet_follows n).into w) hkids (fun s d => quiet_setData n s n d) h₃
      refine Or.inr ⟨?_, by simp [Eng.setNode]⟩
      have hcalls : lifecycle n s₃.log = _ := hq.calls
      exact hcalls ▸ (hticked.terminate hinit).1
    · cases h₃
      exact Or.inl hticked

theorem run_root {fn : MainFn} {args : List Node} (hnodup : (Node.main fn n args).indices.Nodup)
    (es : List (Event E)) :
    ∀ s s', runTicks w (.main fn n args) es s = some s' → RootInStep n s → RootInStep n s' := by
  simp only [Node.indices, List.nodup_cons] at hnodup
  have hkids : ∀ k ∈ Node.kids w args, k.Respects (Quiet n) :=
    kids_respect ((quiet_follows n).into w) args fun i hi => quiet_at fun heq => hnodup.1 (heq ▸ hi)
  induction es with
  | nil =>
    intro s s' h hs
    simp only [runTicks, Option.some.injEq] at h
    exact h ▸ hs
  | cons e es ih =>
    intro s s' h hs
    simp only [runTicks, Option.bind_eq_bind, Option.bind_eq_some_iff] at h
    obtain ⟨⟨r, s₁⟩, h₁, h⟩ := h
    refine ih _ _ h ?_
    unfold s_expr_node_tick at h₁
    dsimp only at h₁
    split at h₁
    · refine dispatch_root hkids h₁ ?_
      exact hs.imp (fun hs => hs.outside _ _) id
    · simp only [Option.some.injEq, Prod.mk.injEq] at h₁
      exact h₁.2 ▸ hs.imp (fun hs => hs.outside _ s.event_id) id

theorem created_in_step (n : Nat) (env : E) : InStep n (createdState env) := by
  refine ⟨?_, rfl⟩
  intro i e h
  simp [createdState, lifecycle] at h

/-- In every run from a tree as it was created, as long as no node below the root completes
with DISABLE and no reset takes the INITIALIZED flag from a node, every main node gets INIT
and TERMINATE by turns. -/
theorem init_and_terminate_alternate {w : World E} {root : Node} (hnodup : root.indices.Nodup)
    (env : E) (es : List (Event E)) {s : Eng E}
    (h : runTicks w root es (createdState env) = some s) (hcalm : Calm root.idx s) :
    ∀ n ∈ root.mains, Alternates (lifecycle n s.log) := by
  intro n hn
  by_cases hroot : n = root.idx
  · cases root with
    | int v => simp [Node.mains] at hn
    | fieldRef f => simp [Node.mains] at hn
    | literal => simp [Node.mains] at hn
    | oneshot id idx survives_reset => simp [Node.mains] at hn
    | pred pfn idx args =>
      simp only [Node.indices, List.nodup_cons] at hnodup
      simp only [Node.mains, Node.idx] at hn hroot
      exact absurd (mainsAll_subset_indicesAll args n hn) (hroot ▸ hnodup.1)
    | main fn idx args =>
      have hidx : n = idx := hroot
      subst hidx
      rcases run_root hnodup es _ _ h (Or.inl (created_in_step n env)) with hs | hs
      · exact hs.alternates
      · exact hs.1
  · exact ((run_keeps hnodup hn hroot es _ _ h).in_step hcalm (created_in_step n env)).alternates

/-! ## A completed child -/

/-- Every leaf answers all its ticks with one code, and predicates are true. -/
def scripted (fuel : Nat) (answer : Nat → Result) : World Unit where
  fuel := fuel
  main id event _ d env :=
    (if event = SE_EVENT_TICK then answer id else SE_PIPELINE_CONTINUE, d, env)
  oneshot _ _ env := env
  test _ _ env := (true, env)
  counter _ _ st env := (true, st, env)
  field _ _ := 0

def one_step : Node := .main .se_chain_flow 0 [.main (.leaf 0) 1 []]

/-- A step that ends the chain flow at every tick gets INIT and TERMINATE twice. -/
theorem ended_step_alternates : ∃ s, runTicks (scripted 1 fun _ => SE_PIPELINE_TERMINATE)
    one_step [⟨id, 4⟩, ⟨id, 4⟩] (createdState ()) = some s ∧
    (lifecycle 1 s.log).length = 4 ∧ ∀ n ∈ one_step.mains, Alternates (lifecycle n s.log) := by
  have hlog : (runTicks (scripted 1 fun _ => SE_PIPELINE_TERMINATE) one_step
      [⟨id, 4⟩, ⟨id, 4⟩] (createdState ())).map (fun s => (s.log, s.dropped)) = some ([.init 0,
        .init 1, .tick 1 SE_PIPELINE_TERMINATE, .terminate 1, .tick 0 SE_PIPELINE_TERMINATE,
        .init 1, .tick 1 SE_PIPELINE_TERMINATE, .terminate 1, .tick 0 SE_PIPELINE_TERMINATE],
        []) := by decide
  obtain ⟨s, hrun, hs⟩ := Option.map_eq_some_iff.mp hlog
  simp only [Prod.mk.injEq] at hs
  refine ⟨s, hrun, by rw [hs.1]; rfl, ?_⟩
  refine init_and_terminate_alternate (by decide) () [⟨id, 4⟩, ⟨id, 4⟩] hrun ⟨?_, hs.2⟩
  rw [hs.1]
  intro n hn
  simp [SE_PIPELINE_TERMINATE, SE_PIPELINE_DISABLE] at hn

/-- A step that completes is given TERMINATE by the evaluator and by the chain flow. -/
theorem completed_step_is_terminated_twice : ¬ ∀ (w : World Unit) (root : Node)
    (env : Unit) (es : List (Event Unit)) (s : Eng Unit), root.indices.Nodup →
    runTicks w root es (createdState env) = some s →
    ∀ n ∈ root.mains, Alternates (lifecycle n s.log) := by
  intro hall
  have hcalls : (runTicks (scripted 1 fun _ => SE_PIPELINE_DISABLE) one_step [⟨id, 4⟩]
      (createdState ())).map (fun s => (lifecycle 1 s.log)[2]?) =
        some (some SE_EVENT_TERMINATE) := by decide
  obtain ⟨s, hrun, hthird⟩ := Option.map_eq_some_iff.mp hcalls
  have h := hall _ one_step () _ s (by decide) hrun 1 (by decide) 2 SE_EVENT_TERMINATE hthird
  simp at h

end motioncore.engine
