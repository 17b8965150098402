-- The callbacks of a node of the chain-flow engine: INIT, events, TERMINATE, over
-- and over. The order holds in every run in which a chain is armed only when it is
-- down, is not swept twice at once, and the pump is not called by a user function.
-- Chains are disabled by a sweep of TERMINATE from the last node to the first. While
-- it lasts the nodes behind it are released but still marked, and user functions run.
import Mathlib.Data.List.Nodup
import MotionCore.Cfl.Rules

namespace motioncore.cfl

open motioncore.callbacks motioncore.machine

/-! ## The order of the callbacks -/

def callsOf (n : Nat) : Nat × Note → Option Nat
  | (_, .callback node event_id) => if node = n then some event_id else none
  | _ => none

def calls (n : Nat) (log : List (Nat × Note)) : List Nat := log.filterMap (callsOf n)

/-- One callback for a node that is acquired or not, or `none` when it has no place there. -/
def lifeStep (acquired : Bool) (event_id : Nat) : Option Bool :=
  if event_id = CFL_EVENT_INIT then
    if acquired then none else some true
  else if acquired then
    some (decide (event_id ≠ CFL_EVENT_TERMINATE))
  else none

/-- INIT, any number of events, TERMINATE, and so on. -/
def Alternates (evs : List Nat) : Prop := (evs.foldlM lifeStep false).isSome = true

instance (evs : List Nat) : Decidable (Alternates evs) := by
  unfold Alternates
  infer_instance

/-- Whether a node is acquired after the log, or `none` when its callbacks do not alternate. -/
def life (n : Nat) (log : List (Nat × Note)) : Option Bool := (calls n log).foldlM lifeStep false

theorem life_append (n : Nat) (log : List (Nat × Note)) (e : Nat × Note) :
    life n (log ++ [e]) = (life n log).bind fun b =>
      match callsOf n e with
      | none => some b
      | some event_id => lifeStep b event_id := by
  unfold life calls
  rw [List.filterMap_append, List.foldlM_append]
  cases hc : callsOf n e with
  | none => simp [hc]
  | some event_id => simp [hc]

theorem life_other {n : Nat} {log : List (Nat × Note)} {e : Nat × Note} (h : callsOf n e = none) :
    life n (log ++ [e]) = life n log := by
  rw [life_append, h]
  cases life n log <;> rfl

theorem life_callback (n d event_id : Nat) (log : List (Nat × Note)) :
    life n (log ++ [(d, .callback n event_id)]) = (life n log).bind (lifeStep · event_id) := by
  rw [life_append]
  simp [callsOf]

/-- An event that is posted is not one that the engine makes up. -/
def QueuedEvent.IsPosted (ev : QueuedEvent) : Prop :=
  ev.event_id ≠ CFL_EVENT_INIT ∧ ev.event_id ≠ CFL_EVENT_TERMINATE

instance (ev : QueuedEvent) : Decidable ev.IsPosted := by
  unfold QueuedEvent.IsPosted
  infer_instance

theorem lifeStep_posted {ev : QueuedEvent} (h : ev.IsPosted) :
    lifeStep true ev.event_id = some true := by
  simp [lifeStep, h.1, h.2]

variable {m : Module}

/-! ## The contract -/

variable (m) in
/-- The nodes of the chain are marked as initialized when they are acquired. -/
def Matches (v : View setting) (c : Nat) : Prop :=
  ∀ n ∈ m.nodesOf c, life n v.log = some (v.state.node_initialized n)

variable (m) in
def FreeMatch (v : View setting) : Prop := ∀ c < m.chain_count, Free v c → Matches m v c

variable (m) in
structure Held (v v' : View setting) : Prop where
  current : v'.state.current_chain = v.state.current_chain
  sweeps : ∀ c, sweeps c v'.log = sweeps c v.log
  kept : ∀ c < m.chain_count, ¬ Free v c → ∀ n ∈ m.nodesOf c,
    life n v'.log = life n v.log ∧ v'.state.node_initialized n = v.state.node_initialized n

theorem Held.refl (v : View setting) : Held m v v := ⟨rfl, fun _ => rfl, fun _ _ _ _ _ => ⟨rfl, rfl⟩⟩

variable {v' : View setting}

theorem Held.free {v : View setting} (h : Held m v v') (c : Nat) : Free v' c ↔ Free v c := by
  rw [Free, Free, h.current, h.sweeps]

theorem Held.trans {v₁ v₂ v₃ : View setting} (h : Held m v₁ v₂) (h' : Held m v₂ v₃) :
    Held m v₁ v₃ where
  current := h'.current.trans h.current
  sweeps c := (h'.sweeps c).trans (h.sweeps c)
  kept c hc hfree n hn := by
    obtain ⟨hlife, hinit⟩ := h.kept c hc hfree n hn
    obtain ⟨hlife', hinit'⟩ := h'.kept c hc (fun hf => hfree ((h.free c).mp hf)) n hn
    exact ⟨hlife'.trans hlife, hinit'.trans hinit⟩

variable (m) in
/-- A run is orderly when a chain is armed only while none of its nodes is initialized, is
not swept while it is being swept, when only events of the application are posted, and the
main code alone pumps. -/
def contract : Contract setting where
  Inv d v := FreeMatch m v ∧
    (d = 0 → v.state.current_chain = NO_CHAIN ∧ ∀ c, sweeps c v.log = 0)
  Rely _ := Held m
  Link w _ := ∀ ev ∈ w.queue.pending, ev.IsPosted
  Safe log := ∀ n, (life n log).isSome = true
  Law _ v
    | .callback n event_id => ((life n v.log).bind (lifeStep · event_id)).isSome = true
    | _ => True
  Allowed v
    | .arms c => ∀ n ∈ m.nodesOf c, v.state.node_initialized n = false
    | .sweep c => sweeps c v.log = 0
    | _ => True
  MayEnter d
    | .cfl_engine_pump => d = 0
    | .cfl_send_event ev => ev.IsPosted
    | _ => True
  MayAct
    | .cfl_send_event_isr ev => ev.IsPosted

/-- The code outside left the engine in order, and what is not free alone. -/
def Good (m : Module) (v v' : View setting) : Prop := FreeMatch m v' ∧ Held m v v'

/-! ## Handlers -/

variable {d c n : Nat} {v : View setting}

/-- A note that is no callback and no part of a sweep changes nothing. -/
theorem note_keeps {Q : Unit → View setting → Prop} (e : Note) (hlaw : (contract m).Law d v e)
    (h : (contract m).Allowed v e → Q () (v.noted d e)) :
    Keeps (contract m) d (note e) Q v := fun hallowed => ⟨hlaw, fun _ hw => hw, h hallowed⟩

theorem Good.trans {v₁ v₂ v₃ : View setting} (h : Good m v₁ v₂) (h' : Good m v₂ v₃) :
    Good m v₁ v₃ := ⟨h'.1, h.2.trans h'.2⟩

theorem Good.refl (h : FreeMatch m v) : Good m v v := ⟨h, .refl v⟩

theorem good_spell : Spell (contract m) d (Good m) where
  trans := Good.trans
  again h := .refl h.1
  inv h := ⟨h.1, fun hd => absurd hd (Nat.succ_ne_zero d)⟩
  outside _ hinv hrely := ⟨hinv.1, hrely⟩

theorem Good.of_same (h : FreeMatch m v) (hlog : v'.log = v.log)
    (hcurrent : v'.state.current_chain = v.state.current_chain)
    (hinit : ∀ n, v'.state.node_initialized n = v.state.node_initialized n) : Good m v v' := by
  have hheld : Held m v v' :=
    ⟨hcurrent, fun c => by rw [hlog], fun c _ _ n _ => ⟨by rw [hlog], hinit n⟩⟩
  refine ⟨fun c hc hfree n hn => ?_, hheld⟩
  rw [hlog, hinit]
  exact h c hc ((hheld.free c).mp hfree) n hn

theorem Good.noted {e : Note} (h : FreeMatch m v) (hcalls : ∀ n, callsOf n (d, e) = none)
    (hsweep : ∀ c on, sweepsStep c on (d, e) = on) : Good m v (v.noted d e) := by
  have hheld : Held m v (v.noted d e) :=
    ⟨rfl, fun c => by rw [View.noted, sweeps_append, hsweep],
      fun c _ _ n _ => ⟨life_other (hcalls n), rfl⟩⟩
  refine ⟨fun c hc hfree n hn => ?_, hheld⟩
  rw [View.noted, life_other (hcalls n)]
  exact h c hc ((hheld.free c).mp hfree) n hn

theorem FreeMatch.callback (h : FreeMatch m v) (hc : c < m.chain_count) (hn : n ∈ m.nodesOf c)
    (hheld : ¬ Free v c) (event_id : Nat) : FreeMatch m (v.noted d (.callback n event_id)) := by
  intro c' hc' hfree k hk
  have hfree' : Free v c' := ⟨hfree.1, by
    rw [← hfree.2, View.noted, sweeps_append]
    rfl⟩
  have hne : n ≠ k := by
    rintro rfl
    exact hheld (Module.chain_unique hc hc' hn hk ▸ hfree')
  rw [View.noted, life_other (by simp [callsOf, hne])]
  exact h c' hc' hfree' k hk

theorem arm_within (c : Nat) : Within (contract m) d (Good m) (chain_enable_internal m c) := by
  intro v h
  apply keeps_bind
  refine note_keeps _ (by trivial) fun hdown => ?_
  have hgood : Good m v (v.noted d (.arms c)) := .noted h.1 (fun _ => rfl) (fun _ _ => rfl)
  refine hgood.trans (.of_same hgood.1 rfl (armChain_current m c _) fun n => ?_)
  change (armChain m c v.state).node_initialized n = v.state.node_initialized n
  rw [armChain_initialized]
  split
  · rename_i hn
    exact (hdown n hn).symm
  · rfl

theorem enable_within (c : Nat) : Within (contract m) d (Good m) (cfl_chain_enable m c) := by
  intro v h
  unfold cfl_chain_enable
  split
  · trivial
  · apply keeps_bind
    apply guard_keeps
    intro _
    exact arm_within c v h

/-- A handler of a node whose chain is not free, where the callback has its place. -/
theorem handler_keeps {disable : Nat → Code Unit} {event_id event_data : Nat}
    (hdisable : ∀ c, Within (contract m) d (Good m) (disable c))
    (hfree : FreeMatch m v) (hc : c < m.chain_count) (hn : n ∈ m.nodesOf c) (hheld : ¬ Free v c)
    (hlife : ((life n v.log).bind (lifeStep · event_id)).isSome = true) :
    Keeps (contract m) d (handleWith disable m n event_id event_data)
      (fun _ => Good m (v.noted d (.callback n event_id))) v := by
  apply handleWith_keeps good_spell (fun v value h => .of_same h.1 rfl rfl fun _ => rfl)
    enable_within hdisable
  refine note_keeps _ (by exact hlife) fun _ => ?_
  exact ⟨.refl (hfree.callback hc hn hheld event_id), fun _ h => h⟩

open motioncore.callbacks

variable {m : Module} {d c n : Nat} {v : View setting}

/-! ## One sweep -/

variable (m) in
/-- In the middle of a sweep: the nodes that it is behind are not acquired, all are still
marked. -/
structure Sweeping (c : Nat) (v : View setting) (behind : List Nat) (v' : View setting) :
    Prop where
  current : v'.state.current_chain = v.state.current_chain
  here : sweeps c v'.log = 1
  others : ∀ c' ≠ c, sweeps c' v'.log = sweeps c' v.log
  matched : ∀ c' < m.chain_count, c' ≠ c → Free v c' → Matches m v' c'
  kept : ∀ c' < m.chain_count, c' ≠ c → ¬ Free v c' → ∀ n ∈ m.nodesOf c',
    life n v'.log = life n v.log ∧ v'.state.node_initialized n = v.state.node_initialized n
  nodes : ∀ n ∈ m.nodesOf c, v'.state.node_initialized n = v.state.node_initialized n ∧
    life n v'.log = some (if n ∈ behind then false else v.state.node_initialized n)

variable {behind : List Nat}

theorem Sweeping.held (h : Sweeping m c v behind v') : ¬ Free v' c := fun hfree => by
  have hhere := h.here
  rw [hfree.2] at hhere
  cases hhere

theorem Sweeping.free (h : Sweeping m c v behind v') {c' : Nat} (hne : c' ≠ c) :
    Free v' c' ↔ Free v c' := by
  rw [Free, Free, h.current, h.others c' hne]

theorem Sweeping.freeMatch (h : Sweeping m c v behind v') : FreeMatch m v' := by
  intro c' hc' hfree
  have hne : c' ≠ c := fun heq => h.held (heq ▸ hfree)
  exact h.matched c' hc' hne ((h.free hne).mp hfree)

theorem Sweeping.terminated {v'' : View setting} (h : Sweeping m c v behind v')
    (hc : c < m.chain_count) (hn : n ∈ m.nodesOf c) (hbehind : n ∉ behind)
    (hinit : v.state.node_initialized n = true)
    (hgood : Good m (v'.noted d (.callback n CFL_EVENT_TERMINATE)) v'') :
    Sweeping m c v (behind ++ [n]) v'' := by
  have hsweep : ∀ c', sweeps c' (v'.noted d (.callback n CFL_EVENT_TERMINATE)).log =
      sweeps c' v'.log := fun c' => by rw [View.noted, sweeps_append]; rfl
  have hfree : ∀ c', Free (v'.noted d (.callback n CFL_EVENT_TERMINATE)) c' ↔ Free v' c' :=
    fun c' => by rw [Free, Free, hsweep]; rfl
  have hlife : ∀ k, k ≠ n → life k (v'.noted d (.callback n CFL_EVENT_TERMINATE)).log =
      life k v'.log := fun k hk => life_other (by simp [callsOf, Ne.symm hk])
  constructor
  · exact hgood.2.current.trans h.current
  · rw [hgood.2.sweeps, hsweep, h.here]
  · intro c' hne
    rw [hgood.2.sweeps, hsweep, h.others c' hne]
  · intro c' hc' hne hfree'
    apply hgood.1 c' hc'
    rw [hgood.2.free, hfree, h.free hne]
    exact hfree'
  · intro c' hc' hne hfree' k hk
    have hkn : k ≠ n := fun heq => hne (Module.chain_unique hc' hc hk (heq ▸ hn))
    have hnot : ¬ Free (v'.noted d (.callback n CFL_EVENT_TERMINATE)) c' := by
      rw [hfree, h.free hne]
      exact hfree'
    obtain ⟨hl, hi⟩ := hgood.2.kept c' hc' hnot k hk
    obtain ⟨hl', hi'⟩ := h.kept c' hc' hne hfree' k hk
    exact ⟨(hl.trans (hlife k hkn)).trans hl', hi.trans hi'⟩
  · intro k hk
    have hnot : ¬ Free (v'.noted d (.callback n CFL_EVENT_TERMINATE)) c := by
      rw [hfree]
      exact h.held
    obtain ⟨hl, hi⟩ := hgood.2.kept c hc hnot k hk
    obtain ⟨hi', hl'⟩ := h.nodes k hk
    refine ⟨hi.trans hi', ?_⟩
    rw [hl]
    by_cases hkn : k = n
    · subst hkn
      rw [View.noted, life_callback, hl', if_neg hbehind, hinit, if_pos (by simp)]
      rfl
    · rw [hlife k hkn, hl']
      simp [hkn]

theorem Sweeping.next (h : Sweeping m c v behind v') (hc : c < m.chain_count) (hn : n ∈ m.nodesOf c)
    (hbehind : n ∉ behind) :
    Keeps (contract m) d (node_synth_terminate m n) (fun _ => Sweeping m c v (behind ++ [n]))
      v' := by
  obtain ⟨hinit, hlife⟩ := h.nodes n hn
  rw [if_neg hbehind] at hlife
  unfold node_synth_terminate
  change Keeps (contract m) d (if v'.state.node_initialized n = true then _ else _) _ v'
  split
  · rename_i hon
    rw [hon] at hinit
    apply keeps_bind
    have hcall : ((life n v'.log).bind (lifeStep · CFL_EVENT_TERMINATE)).isSome = true := by
      rw [hlife, ← hinit]
      rfl
    apply (handler_keeps panic_within h.freeMatch hc hn h.held hcall).mono
    intro _ v'' hgood
    exact h.terminated hc hn hbehind hinit.symm hgood
  · rename_i hoff
    have hoff' : v.state.node_initialized n = false := by
      rw [← hinit]
      exact Bool.eq_false_iff.mpr hoff
    refine ⟨h.current, h.here, h.others, h.matched, h.kept, fun k hk => ?_⟩
    obtain ⟨hi, hl⟩ := h.nodes k hk
    refine ⟨hi, ?_⟩
    rw [hl]
    by_cases hkn : k = n
    · subst hkn
      simp [hoff']
    · simp [hkn]

variable (m) in
/-- A chain that was swept: none of its nodes is acquired or marked. -/
structure Swept (c : Nat) (v v' : View setting) : Prop where
  current : v'.state.current_chain = v.state.current_chain
  sweeps : ∀ c', sweeps c' v'.log = sweeps c' v.log
  matched : ∀ c' < m.chain_count, c' ≠ c → Free v c' → Matches m v' c'
  kept : ∀ c' < m.chain_count, c' ≠ c → ¬ Free v c' → ∀ n ∈ m.nodesOf c',
    life n v'.log = life n v.log ∧ v'.state.node_initialized n = v.state.node_initialized n
  cleared : ∀ n ∈ m.nodesOf c, life n v'.log = some false ∧ v'.state.node_initialized n = false

theorem sweep_keeps (hc : c < m.chain_count) (hown : sweeps c v.log = 0 → Matches m v c)
    (hothers : ∀ c' < m.chain_count, c' ≠ c → Free v c' → Matches m v c') :
    Keeps (contract m) d (chain_disable_internal m c)
      (fun _ v' => sweeps c v.log = 0 ∧ Swept m c v v') v := by
  unfold chain_disable_internal
  apply keeps_bind
  refine note_keeps _ (by trivial) fun hstill => ?_
  replace hstill : sweeps c v.log = 0 := hstill
  apply keeps_bind
  have hlife : ∀ k, life k (v.noted d (.sweep c)).log = life k v.log := fun k => life_other rfl
  have hsweep : ∀ c', sweeps c' (v.noted d (.sweep c)).log =
      if c = c' then sweeps c' v.log + 1 else sweeps c' v.log := fun c' => by
    rw [View.noted, sweeps_append]
    rfl
  have hstart : Sweeping m c v [] (v.noted d (.sweep c)) := by
    refine ⟨rfl, by rw [hsweep, if_pos rfl, hstill], fun c' hne => ?_, fun c' hc' hne hfree k hk => ?_,
      fun c' _ _ _ k _ => ⟨hlife k, rfl⟩, fun k hk => ⟨rfl, ?_⟩⟩
    · rw [hsweep, if_neg (Ne.symm hne)]
    · rw [hlife]
      exact hothers c' hc' hne hfree k hk
    · rw [hlife, hown hstill k hk]
      simp
  have hnodup : (m.nodesOf c).reverse.Nodup := List.nodup_reverse.mpr (Module.nodesOf_nodup c)
  apply (keeps_forEach (Sweeping m c v) _ hstart ?_).mono
  · intro _ v' hall
    apply keeps_bind
    change Keeps (contract m) d (note (.swept c)) _ { v' with state := clearChain m c v'.state }
    refine note_keeps _ (by trivial) fun _ => ⟨hstill, ?_⟩
    have hlife' : ∀ k, life k (v'.log ++ [(d, Note.swept c)]) = life k v'.log :=
      fun k => life_other rfl
    refine ⟨(clearChain_current m c _).trans hall.current, fun c' => ?_,
      fun c' hc' hne hfree k hk => ?_, fun c' hc' hne hfree k hk => ?_, fun k hk => ?_⟩
    · change sweeps c' (v'.log ++ [(d, Note.swept c)]) = _
      rw [sweeps_append]
      by_cases hne : c' = c
      · subst hne
        simp [sweepsStep, hstill, hall.here]
      · simp [sweepsStep, Ne.symm hne, hall.others c' hne]
    · have hkc : k ∉ m.nodesOf c := fun hkc => hne (Module.chain_unique hc' hc hk hkc)
      change life k (v'.log ++ [(d, Note.swept c)]) =
        some ((clearChain m c v'.state).node_initialized k)
      rw [hlife', clearChain_initialized, if_neg hkc]
      exact hall.matched c' hc' hne hfree k hk
    · have hkc : k ∉ m.nodesOf c := fun hkc => hne (Module.chain_unique hc' hc hk hkc)
      obtain ⟨hl, hi⟩ := hall.kept c' hc' hne hfree k hk
      refine ⟨(hlife' k).trans hl, ?_⟩
      change (clearChain m c v'.state).node_initialized k = _
      rw [clearChain_initialized, if_neg hkc]
      exact hi
    · obtain ⟨-, hl⟩ := hall.nodes k hk
      refine ⟨(hlife' k).trans ?_, ?_⟩
      · rw [hl, if_pos (List.mem_reverse.mpr hk)]
      · change (clearChain m c v'.state).node_initialized k = _
        rw [clearChain_initialized, if_pos hk]
  · intro pre k post v' heq hinv
    have hk : k ∈ m.nodesOf c := List.mem_reverse.mp (heq ▸ by simp)
    have hbehind : k ∉ pre := fun hmem => by
      rw [← heq] at hnodup
      exact (List.disjoint_of_nodup_append hnodup) hmem List.mem_cons_self
    exact hinv.next hc hk hbehind

/-! ## The chain operations -/

theorem Swept.good (h : Swept m c v v') (hfree : Free v c) : Good m v v' := by
  have hsame : ∀ c', Free v' c' ↔ Free v c' := fun c' => by
    rw [Free, Free, h.current, h.sweeps]
  refine ⟨fun c' hc' hfree' k hk => ?_, h.current, h.sweeps, fun c' hc' hnot k hk => ?_⟩
  · by_cases hne : c' = c
    · subst hne
      obtain ⟨hl, hi⟩ := h.cleared k hk
      rw [hl, hi]
    · exact h.matched c' hc' hne ((hsame c').mp hfree') k hk
  · exact h.kept c' hc' (fun heq => hnot (heq ▸ hfree)) hnot k hk

theorem disable_internal_keeps (hc : c < m.chain_count) (hfree : FreeMatch m v)
    (hcurrent : v.state.current_chain ≠ c) :
    Keeps (contract m) d (chain_disable_internal m c) (fun _ => Good m v) v := by
  apply (sweep_keeps hc (fun hs => hfree c hc ⟨hcurrent, hs⟩)
    fun c' hc' _ hf => hfree c' hc' hf).mono
  intro _ v' h
  exact h.2.good ⟨hcurrent, h.1⟩

theorem disable_within (c : Nat) : Within (contract m) d (Good m) (cfl_chain_disable m c) := by
  intro v h
  unfold cfl_chain_disable
  split
  · trivial
  · rename_i hc
    apply keeps_bind
    apply guard_keeps
    intro hguard
    have hlt : c < m.chain_count := Nat.lt_of_not_le hc
    exact disable_internal_keeps hlt h.1 (not_current hlt hguard)

theorem reset_within (c : Nat) : Within (contract m) d (Good m) (cfl_chain_reset m c) := by
  intro v h
  unfold cfl_chain_reset
  split
  · trivial
  · rename_i hc
    apply keeps_bind
    apply guard_keeps
    intro hguard
    have hlt : c < m.chain_count := Nat.lt_of_not_le hc
    apply keeps_bind
    apply (disable_internal_keeps hlt h.1 (not_current hlt hguard)).mono
    intro _ v' hgood
    exact (arm_within c v' (.refl hgood.1)).mono fun _ _ h' => hgood.trans h'

end motioncore.cfl
