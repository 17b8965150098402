-- The callbacks of each node alternate in every orderly run of the chain-flow engine,
-- whatever its user functions and interrupts do in what order. A chain that is enabled
-- while it is up breaks the order.
import MotionCore.Cfl.Sweeps

namespace motioncore.cfl

open motioncore.callbacks motioncore.machine

variable {m : Module} {d c n : Nat} {v : View setting}

/-! ## The turn of a chain -/

variable (m) in
/-- A chain has its turn: no sweep is under way, and all nodes are marked right. -/
structure Turn (c : Nat) (v : View setting) : Prop where
  current : v.state.current_chain = c
  quiet : ∀ c', sweeps c' v.log = 0
  all : ∀ c' < m.chain_count, Matches m v c'

variable (m) in
/-- A node of the chain is served, and its mark may be behind. -/
structure Serving (c n : Nat) (acquired : Bool) (v : View setting) : Prop where
  current : v.state.current_chain = c
  quiet : ∀ c', sweeps c' v.log = 0
  others : ∀ c' < m.chain_count, ∀ k ∈ m.nodesOf c', k ≠ n →
    life k v.log = some (v.state.node_initialized k)
  own : life n v.log = some acquired

theorem Turn.freeMatch (h : Turn m c v) : FreeMatch m v := fun c' hc' _ => h.all c' hc'

theorem Turn.held (h : Turn m c v) : ¬ Free v c := fun hfree => hfree.1 h.current

theorem Turn.noted (h : Turn m c v) {e : Note} (hcalls : ∀ k, callsOf k (d, e) = none)
    (hsweep : ∀ c' on, sweepsStep c' on (d, e) = on) : Turn m c (v.noted d e) where
  current := h.current
  quiet c' := by rw [View.noted, sweeps_append, hsweep, h.quiet]
  all c' hc' k hk := by
    rw [View.noted, life_other (hcalls k)]
    exact h.all c' hc' k hk

theorem handler_in_turn {disable : Nat → Code Unit} {event_id event_data : Nat} {b : Bool}
    (hdisable : ∀ c, Within (contract m) d (Good m) (disable c))
    (h : Turn m c v) (hc : c < m.chain_count) (hn : n ∈ m.nodesOf c)
    (hstep : lifeStep (v.state.node_initialized n) event_id = some b) :
    Keeps (contract m) d (handleWith disable m n event_id event_data)
      (fun _ v' => Serving m c n b v' ∧
        v'.state.node_initialized n = v.state.node_initialized n) v := by
  have hlife : (life n v.log).bind (lifeStep · event_id) = some b := by
    rw [h.all c hc n hn]
    exact hstep
  apply (handler_keeps hdisable h.freeMatch hc hn h.held (by rw [hlife]; rfl)).mono
  intro _ v' hgood
  have hquiet : ∀ c', sweeps c' (v.noted d (.callback n event_id)).log = 0 := fun c' => by
    rw [View.noted, sweeps_append]
    exact h.quiet c'
  have hnot : ¬ Free (v.noted d (.callback n event_id)) c := fun hfree => hfree.1 h.current
  obtain ⟨hl, hi⟩ := hgood.2.kept c hc hnot n hn
  refine ⟨⟨hgood.2.current.trans h.current, fun c' => ?_, fun c' hc' k hk hkn => ?_, ?_⟩, hi⟩
  · rw [hgood.2.sweeps, hquiet]
  · by_cases hcc : c' = c
    · subst hcc
      obtain ⟨hl', hi'⟩ := hgood.2.kept c' hc' hnot k hk
      have hother : callsOf k (d, .callback n event_id) = none := by
        simp [callsOf, Ne.symm hkn]
      rw [hl', hi', View.noted, life_other hother]
      exact h.all c' hc' k hk
    · refine hgood.1 c' hc' ⟨?_, ?_⟩ k hk
      · rw [hgood.2.current]
        exact fun heq => hcc (heq.symm.trans h.current)
      · rw [hgood.2.sweeps, hquiet]
  · rw [hl, View.noted, life_callback, hlife]

theorem Serving.mark {b : Bool} (h : Serving m c n b v) {eng : Engine}
    (hcurrent : eng.current_chain = v.state.current_chain)
    (hothers : ∀ k, k ≠ n → eng.node_initialized k = v.state.node_initialized k)
    (hown : eng.node_initialized n = b) : Turn m c { v with state := eng } where
  current := hcurrent.trans h.current
  quiet := h.quiet
  all c' hc' k hk := by
    by_cases hkn : k = n
    · subst hkn
      exact h.own.trans (congrArg some hown.symm)
    · exact (h.others c' hc' k hk hkn).trans (congrArg some (hothers k hkn).symm)

theorem init_node_keeps (h : Turn m c v) (hc : c < m.chain_count) (hn : n ∈ m.nodesOf c) :
    Keeps (contract m) d (init_node m n)
      (fun _ v' => Turn m c v' ∧ v'.state.node_initialized n = true) v := by
  unfold init_node
  change Keeps (contract m) d (if v.state.node_initialized n = false then _ else _) _ v
  split
  · rename_i hoff
    apply keeps_bind
    refine note_keeps _ (by trivial) fun _ => ?_
    have hturn : Turn m c (v.noted d (.inits n)) := h.noted (fun _ => rfl) fun _ _ => rfl
    apply keeps_bind
    have hstep : lifeStep ((v.noted d (.inits n)).state.node_initialized n) CFL_EVENT_INIT =
        some true := by
      change lifeStep (v.state.node_initialized n) CFL_EVENT_INIT = some true
      rw [hoff]
      rfl
    apply (handler_in_turn disable_within hturn hc hn hstep).mono
    intro _ v' hserving
    refine ⟨hserving.1.mark rfl (fun k hk => ?_) ?_, ?_⟩
    · simp [bm_set, hk]
    · simp [bm_set]
    · simp [bm_set]
  · rename_i hon
    exact ⟨h, by simpa using hon⟩

theorem node_disabled_keeps (h : Turn m c v) (hc : c < m.chain_count) (hn : n ∈ m.nodesOf c)
    (hinit : v.state.node_initialized n = true) : Keeps (contract m) d (node_synth_terminate m n)
      (fun _ v' => Turn m c { v' with state := clearNode v'.state n }) v := by
  unfold node_synth_terminate
  change Keeps (contract m) d (if v.state.node_initialized n = true then _ else _) _ v
  rw [if_pos hinit]
  apply keeps_bind
  have hstep : lifeStep (v.state.node_initialized n) CFL_EVENT_TERMINATE = some false := by
    rw [hinit]
    rfl
  apply (handler_in_turn panic_within h hc hn hstep).mono
  intro _ v' hserving
  refine hserving.1.mark rfl (fun k hk => ?_) ?_
  · simp [clearNode, bm_clr, hk]
  · simp [clearNode, bm_clr]

theorem sweep_in_turn (h : Turn m c v) (hc : c < m.chain_count) :
    Keeps (contract m) d (chain_disable_internal m c) (fun _ => Turn m c) v := by
  apply (sweep_keeps hc (fun _ => h.all c hc) fun c' hc' _ _ => h.all c' hc').mono
  intro _ v' hswept
  refine ⟨hswept.2.current.trans h.current, fun c' => ?_, fun c' hc' k hk => ?_⟩
  · rw [hswept.2.sweeps, h.quiet]
  · by_cases hcc : c' = c
    · subst hcc
      obtain ⟨hl, hi⟩ := hswept.2.cleared k hk
      rw [hl, hi]
    · refine hswept.2.matched c' hc' hcc ⟨?_, h.quiet c'⟩ k hk
      rw [h.current]
      exact Ne.symm hcc

theorem arm_in_turn (h : Turn m c v) (hc : c < m.chain_count) :
    Keeps (contract m) d (chain_enable_internal m c) (fun _ => Turn m c) v := by
  apply (arm_within c v (.refl h.freeMatch)).mono
  intro _ v' hgood
  refine ⟨hgood.2.current.trans h.current, fun c' => ?_, fun c' hc' k hk => ?_⟩
  · rw [hgood.2.sweeps, h.quiet]
  · by_cases hcc : c' = c
    · subst hcc
      obtain ⟨hl, hi⟩ := hgood.2.kept c' hc' h.held k hk
      rw [hl, hi]
      exact h.all c' hc' k hk
    · refine hgood.1 c' hc' ⟨?_, ?_⟩ k hk
      · rw [hgood.2.current, h.current]
        exact Ne.symm hcc
      · rw [hgood.2.sweeps, h.quiet]

theorem dispatch_nodes_keeps {ev : QueuedEvent} (hev : ev.IsPosted) (hc : c < m.chain_count)
    {ns : List Nat} (hns : ∀ k ∈ ns, k ∈ m.nodesOf c) (h : Turn m c v) :
    Keeps (contract m) d (dispatch_nodes m c ev ns) (fun _ => Turn m c) v := by
  induction ns generalizing v with
  | nil => exact h
  | cons k rest ih =>
    have hk : k ∈ m.nodesOf c := hns k List.mem_cons_self
    have hrest : ∀ j ∈ rest, j ∈ m.nodesOf c := fun j hj => hns j (List.mem_cons_of_mem _ hj)
    unfold dispatch_nodes
    apply keeps_bind
    apply keeps_bind
    refine note_keeps _ (by trivial) fun _ => ?_
    have hvisit : Turn m c (v.noted d (.visit k (v.state.node_enable k))) :=
      h.noted (fun _ => rfl) fun _ _ => rfl
    split
    · exact ih hrest hvisit
    · apply keeps_bind
      apply (init_node_keeps hvisit hc hk).mono
      intro _ v₁ hinited
      apply keeps_bind
      refine note_keeps _ (by trivial) fun _ => ?_
      have hoffer : Turn m c (v₁.noted d (.offers k ev)) :=
        hinited.1.noted (fun _ => rfl) fun _ _ => rfl
      apply keeps_bind
      have hstep : lifeStep ((v₁.noted d (.offers k ev)).state.node_initialized k) ev.event_id =
          some true := by
        change lifeStep (v₁.state.node_initialized k) ev.event_id = some true
        rw [hinited.2]
        exact lifeStep_posted hev
      apply (handler_in_turn disable_within hoffer hc hk hstep).mono
      intro r v₂ hserved
      have hon : v₂.state.node_initialized k = true := hserved.2.trans hinited.2
      have hturn : Turn m c v₂ :=
        hserved.1.mark rfl (fun _ _ => rfl) hon
      apply keeps_bind
      refine note_keeps _ (by trivial) fun _ => ?_
      have hverdict : Turn m c (v₂.noted d (.verdict k r)) :=
        hturn.noted (fun _ => rfl) fun _ _ => rfl
      cases r with
      | CFL_CONTINUE => exact ih hrest hverdict
      | CFL_HALT => exact hverdict
      | CFL_DISABLE =>
        apply keeps_bind
        apply (node_disabled_keeps hverdict hc hk hon).mono
        intro _ v₃ hcleared
        exact ih hrest hcleared
      | CFL_RESET =>
        apply keeps_bind
        apply (sweep_in_turn hverdict hc).mono
        intro _ v₃ hswept
        exact arm_in_turn hswept hc
      | CFL_TERMINATE => exact sweep_in_turn hverdict hc
      | other value => trivial

/-! ## The pump and the queue -/

theorem pump_keeps (hinv : (contract m).Inv 0 v) :
    Keeps (contract m) 0 (cfl_engine_pump m) (Done (contract m) 0 v) v := by
  obtain ⟨hfree, hbase⟩ := hinv
  obtain ⟨hcurrent, hquiet⟩ := hbase rfl
  have hallFree : ∀ c' < m.chain_count, Free v c' := fun c' hc' =>
    ⟨fun heq => Module.ne_no_chain hc' (heq.symm.trans hcurrent), hquiet c'⟩
  refine keeps_pump (P := Matches m) ⟨hquiet, fun c' hc' => hfree c' hc' (hallFree c' hc')⟩
    ?_ (fun _ _ _ => ⟨trivial, fun _ hw => hw⟩) ?_ ?_ ?_
  · intro v₁ v₂ e he hinit hlog c' h k hk
    have hcalls : callsOf k (0, e) = none := by
      cases e with
      | pops | turn => rfl
      | _ => cases he
    rw [hlog, life_other hcalls, hinit]
    exact h k hk
  · exact ⟨⟨hfree, fun _ => ⟨hcurrent, hquiet⟩⟩, .refl v, fun e he => by cases he⟩
  · intro w ev queue hw hpop
    have hw' : ∀ ev' ∈ ev :: queue.pending, ev'.IsPosted := EventQueue.pending_pop hpop ▸ hw
    refine ⟨trivial, fun ev' h' => hw' ev' (List.mem_cons_of_mem _ h'),
      fun c' hc' v' hmine h => ?_⟩
    have hturn : Turn m c' v' := ⟨hmine, h.quiet, h.all⟩
    apply (dispatch_nodes_keeps (hw' ev List.mem_cons_self) hc' (fun _ hk => hk) hturn).mono
    exact fun _ v'' hdone => ⟨hdone.quiet, hdone.all⟩
  · intro v' h
    refine ⟨⟨fun c' hc' _ => h.all c' hc', fun _ => ⟨rfl, h.quiet⟩⟩, ⟨hcurrent.symm, ?_, ?_⟩, ?_⟩
    · exact fun c' => (h.quiet c').trans (hquiet c').symm
    · exact fun c' hc' hnot => absurd (hallFree c' hc') hnot
    · intro e he
      cases he
      rfl

theorem send_keeps {ev : QueuedEvent} (hev : ev.IsPosted) {Q : Unit → View setting → Prop}
    (h : Q () v) : Keeps (contract m) d (cfl_send_event ev) Q v := by
  intro w hw
  unfold Events.send
  cases hsend : w.queue.send ev with
  | none =>
    simp only [hsend, Option.map_none, noteAt, List.append_nil]
    exact ⟨(fun e he => by cases he), hw, trivial⟩
  | some queue =>
    simp only [hsend, Option.map_some, noteAt, List.append_nil]
    refine ⟨(fun e he => by cases he), ?_, h⟩
    intro ev' hmem
    rw [EventQueue.pending_send hsend, List.mem_append, List.mem_singleton] at hmem
    rcases hmem with hmem | rfl
    · exact hw ev' hmem
    · exact hev

/-! ## Orderly runs -/

/-- A step of the engine is orderly: a chain is armed only while none of its nodes is
initialized, and is not swept while it is being swept. Outside, only the main code pumps,
and nobody posts the events that the engine makes up. -/
def Orderly (m : Module) (mach : Machine setting) : Act setting → Prop
  | .run =>
    match mach.running with
    | some (.note (.arms c) _) => ∀ n ∈ m.nodesOf c, mach.state.node_initialized n = false
    | some (.note (.sweep c) _) => sweeps c mach.log = 0
    | _ => True
  | .other (.cfl_send_event_isr ev) => ev.IsPosted
  | .enter .cfl_engine_pump => mach.stack = []
  | .enter (.cfl_send_event ev) => ev.IsPosted
  | _ => True

theorem Orderly.permits {mach : Machine setting} {a : Act setting} (h : Orderly m mach a) :
    (contract m).Permits mach a := by
  cases a with
  | run =>
    intro e k hr
    simp only [Orderly, hr] at h
    cases e <;> exact h
  | other o => exact h
  | enter e =>
    cases e with
    | cfl_engine_pump => exact List.length_eq_zero_iff.mpr h
    | cfl_send_event ev => exact h
    | _ => trivial
  | answer a => trivial

theorem Good.done {v' : View setting} (h : Good m v v') (hinv : (contract m).Inv d v) :
    Done (contract m) d v none v' := by
  refine ⟨⟨h.1, fun hd => ?_⟩, h.2, fun e he => by cases he⟩
  obtain ⟨hcurrent, hquiet⟩ := hinv.2 hd
  exact ⟨h.2.current.trans hcurrent, fun c => (h.2.sweeps c).trans (hquiet c)⟩

theorem once_keeps {p : Code Unit} (hinv : (contract m).Inv d v)
    (h : Keeps (contract m) d p (fun _ => Good m v) v) :
    Keeps (contract m) d (once p) (Done (contract m) d v) v :=
  keeps_bind (h.mono fun _ _ hgood => hgood.done hinv)

/-- Every entry and the interrupts keep the contract. -/
theorem contract_lawful (m : Module) : (contract m).Lawful (engine m) where
  refl _ := Held.refl
  trans _ _ _ _ := Held.trans
  safe d v e hlaw hsafe n := by
    cases hcall : callsOf n (d, e) with
    | none =>
      rw [life_other hcall]
      exact hsafe n
    | some event_id =>
      cases e with
      | callback k ev =>
        simp only [callsOf, Option.ite_none_right_eq_some, Option.some.injEq] at hcall
        obtain ⟨rfl, rfl⟩ := hcall
        rw [life_callback]
        exact hlaw
      | _ => cases hcall
  other o w w' log hok hlink hw' := by
    obtain ⟨ev⟩ := o
    obtain ⟨queue, hsend, rfl⟩ := Option.map_eq_some_iff.mp hw'
    intro ev' hmem
    rw [EventQueue.pending_send hsend, List.mem_append, List.mem_singleton] at hmem
    rcases hmem with hmem | rfl
    · exact hlink ev' hmem
    · exact hok
  entry d e v hmay hinv := by
    have hfree := hinv.1
    have hgood : Good m v v := .refl hfree
    cases e with
    | cfl_engine_pump =>
      obtain rfl : d = 0 := hmay
      exact pump_keeps hinv
    | cfl_chain_enable c => exact once_keeps hinv (enable_within c v hgood)
    | cfl_chain_disable c => exact once_keeps hinv (disable_within c v hgood)
    | cfl_chain_reset c => exact once_keeps hinv (reset_within c v hgood)
    | cfl_send_event ev => exact once_keeps hinv (send_keeps hmay hgood)
    | cfl_engine_time_tick ms =>
      have hinit : CFL_EVENT_TIME_TICK ≠ CFL_EVENT_INIT := by decide
      have hterminate : CFL_EVENT_TIME_TICK ≠ CFL_EVENT_TERMINATE := by decide
      exact once_keeps hinv (send_keeps ⟨hinit, hterminate⟩ hgood)
    | cfl_node_scratch_set n value =>
      exact once_keeps hinv (Good.of_same hfree rfl rfl fun _ => rfl)

/-- In every orderly run the callbacks of each node alternate. Whenever code outside the
engine runs, a node is marked as initialized exactly while it is acquired, but for a chain
that is in its turn or being swept; for the main code there is no such chain. -/
theorem callbacks_alternate (m : Module) {acts : List (Act setting)} {mach : Machine setting}
    (hok : Meets (step m) (Orderly m) (cfl_engine_init m) acts)
    (hrun : runs (step m) (cfl_engine_init m) acts = some mach) :
    (∀ n, Alternates (calls n mach.log)) ∧
      (mach.running = none → ∀ c < m.chain_count, mach.state.current_chain ≠ c →
        sweeps c mach.log = 0 → ∀ n ∈ m.nodesOf c,
          (life n mach.log = some true ↔ mach.state.node_initialized n = true)) ∧
      (mach.running = none → mach.stack = [] → ∀ c < m.chain_count, ∀ n ∈ m.nodesOf c,
        (life n mach.log = some true ↔ mach.state.node_initialized n = true)) := by
  have hinv : (contract m).Inv 0 ⟨initState m, []⟩ := by
    refine ⟨fun c _ _ n _ => ?_, fun _ => ⟨initState_current, fun _ => rfl⟩⟩
    rw [initState_initialized]
    rfl
  have hmach : InContract (contract m) ⟨initState m, []⟩ mach :=
    run_in_contract (contract_lawful m) hinv (fun ev h => by simp [EventQueue.pending, EventQueue.empty] at h)
      (fun n => rfl) (hok.mono fun _ _ h => h.permits) hrun
  have hmatch : mach.running = none → ∀ c < m.chain_count, Free mach.view c →
      ∀ n ∈ m.nodesOf c,
        (life n mach.log = some true ↔ mach.state.node_initialized n = true) := by
    intro hr c hc hfree n hn
    have hlife : life n mach.log = some (mach.state.node_initialized n) :=
      (hmach.outside hr).inv.1 c hc hfree n hn
    rw [hlife, Option.some.injEq]
  refine ⟨hmach.safe, fun hr c hc hcurrent hquiet => hmatch hr c hc ⟨hcurrent, hquiet⟩,
    fun hr hs c hc => ?_⟩
  have hbase := (hmach.outside hr).inv.2 (by rw [hs]; rfl)
  refine hmatch hr c hc ⟨?_, hbase.2 c⟩
  rw [show mach.view.state.current_chain = NO_CHAIN from hbase.1]
  exact Ne.symm (Module.ne_no_chain hc)

instance (m : Module) (mach : Machine setting) (a : Act setting) : Decidable (Orderly m mach a) := by
  unfold Orderly
  split
  · split <;> infer_instance
  all_goals infer_instance

/-- A session that acquires something when it starts and releases it when it ends. -/
def session : Module where
  chains := [⟨0, 1, true⟩]
  nodes := [⟨.CFL_KIND_INIT_TERM, 0, 1, 0, 0⟩]
  params_pool := []
  chain_count_le := by decide
  node_count_le := by decide
  in_range := by decide
  own := by decide

/-- An event is posted and pumped, up to the call that acquires. -/
def postAndPump : List (Act setting) :=
  .enter (.cfl_send_event ⟨16, 0⟩) :: .run :: .run :: .enter .cfl_engine_pump ::
    List.replicate 10 .run

/-- The call comes back, and the pump ends. -/
def acquireAndEnd : List (Act setting) := .answer .CFL_CONTINUE :: List.replicate 8 .run

theorem session_alternates : ∃ mach,
    runs (step session) (cfl_engine_init session) (postAndPump ++ acquireAndEnd) = some mach ∧
      calls 0 mach.log = [CFL_EVENT_INIT, 16] ∧ ∀ n, Alternates (calls n mach.log) := by
  obtain ⟨mach, hrun⟩ : ∃ mach, runs (step session) (cfl_engine_init session)
      (postAndPump ++ acquireAndEnd) = some mach := ⟨_, rfl⟩
  have hcalls : ((runs (step session) (cfl_engine_init session)
      (postAndPump ++ acquireAndEnd)).map fun mach => calls 0 mach.log) =
      some [CFL_EVENT_INIT, 16] := by decide +kernel
  rw [hrun] at hcalls
  exact ⟨mach, hrun, Option.some.inj hcalls,
    (callbacks_alternate session (by decide +kernel) hrun).1⟩

/-- The chain of the session is enabled again while it is up. -/
def enableAgain : List (Act setting) := .enter (.cfl_chain_enable 0) :: List.replicate 4 .run

theorem enabled_session_acquires_twice : ∃ mach,
    runs (step session) (cfl_engine_init session)
      (postAndPump ++ acquireAndEnd ++ enableAgain ++ postAndPump) = some mach ∧
    calls 0 mach.log = [CFL_EVENT_INIT, 16, CFL_EVENT_INIT] ∧
    ¬ Alternates (calls 0 mach.log) := by
  have hcalls : ((runs (step session) (cfl_engine_init session)
      (postAndPump ++ acquireAndEnd ++ enableAgain ++ postAndPump)).map fun mach =>
        calls 0 mach.log) = some [CFL_EVENT_INIT, 16, CFL_EVENT_INIT] := by decide +kernel
  obtain ⟨mach, hrun, hlog⟩ := Option.map_eq_some_iff.mp hcalls
  exact ⟨mach, hrun, hlog, by rw [hlog]; decide⟩

end motioncore.cfl
