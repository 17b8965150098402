-- Rules for the functions of the chain-flow engine that hold under every contract: what
-- a handler does behind its callback, and what the bits are after arming and clearing.
import MotionCore.Cfl.Engine

namespace motioncore.cfl

open motioncore.callbacks

variable {m : Module} {C : Contract setting} {G : View setting → View setting → Prop}
variable {d c n : Nat} {v : View setting}

/-! ## Handlers -/

theorem guard_keeps {Q : Unit → View setting → Prop}
    (h : v.state.current_chain ≠ c ∨ v.state.current_chain = NO_CHAIN → Q () v) :
    Keeps C d (self_modify_guard c) Q v := by
  unfold self_modify_guard
  change Keeps C d (if _ then _ else _) Q v
  split
  · trivial
  · rename_i hguard
    apply h
    by_contra hcon
    push Not at hcon
    exact hguard ⟨hcon.2, hcon.1⟩

/-- Behind its callback a handler calls at most one user function, writes its scratch word,
or enables or disables chains. -/
theorem handleWith_keeps {disable : Nat → Code Unit} {event_id event_data : Nat}
    {Q : View setting → Prop} (hG : Spell C d G) (hscratch : ∀ v value, G v v →
      G v { v with state := cfl_node_scratch_set v.state n value })
    (henable : ∀ c, Within C d G (cfl_chain_enable m c))
    (hdisable : ∀ c, Within C d G (disable c))
    (hnote : Keeps C d (note (.callback n event_id))
      (fun _ v₁ => G v₁ v₁ ∧ ∀ v', G v₁ v' → Q v') v) :
    Keeps C d (handleWith disable m n event_id event_data) (fun _ => Q) v := by
  unfold handleWith
  apply keeps_bind
  apply hnote.mono
  intro _ v₁ hv₁
  suffices hrest : ∀ p : Code Status, Within C d G p → Keeps C d p (fun _ => Q) v₁ by
    apply hrest
    have hpure : ∀ r : Status, Within C d G (pure r : Code Status) := within_pure
    have hcall : ∀ fn, Within C d G (callFn fn n event_id event_data) :=
      fun fn => within_call hG _
    have hthen : ∀ {fn : Nat} {f : Status → Code Status}, (∀ a, Within C d G (f a)) →
        Within C d G (callFn fn n event_id event_data >>= f) := fun hf => (hcall _).bind hG hf
    have hset : ∀ f : Engine → Nat, Within C d G (do
        modify fun eng => cfl_node_scratch_set eng n (f eng) : Code Unit) :=
      fun f v h => hscratch v (f v.state) h
    cases (m.node n).kind <;> dsimp only
    case CFL_KIND_NOP => exact hpure _
    case CFL_KIND_M_CALL =>
      split
      · exact hpure _
      · exact hcall _
    case CFL_KIND_ONE_SHOT =>
      split
      · split
        · exact hpure _
        · exact hthen fun _ => hpure _
      · split <;> exact hpure _
    case CFL_KIND_TIME_DELAY =>
      split
      · exact (hset fun _ => 0).bind hG fun _ => hpure _
      · split
        · exact hpure _
        · split
          · refine Within.bind (p := get) hG (fun v h => h) fun eng => ?_
            exact (hset fun _ => _).bind hG fun _ => hpure _
          · exact hpure _
    case CFL_KIND_ENABLE_CHAINS =>
      split
      · exact (Within.forEach hG (fun i => henable _) _).bind hG fun _ => hpure _
      · split <;> exact hpure _
    case CFL_KIND_DISABLE_CHAINS =>
      split
      · exact (Within.forEach hG (fun i => hdisable _) _).bind hG fun _ => hpure _
      · split <;> exact hpure _
    case CFL_KIND_RESET_SELF => split <;> exact hpure _
    case CFL_KIND_TERMINATE_SELF => split <;> exact hpure _
    case CFL_KIND_WHILE =>
      split
      · exact hpure _
      · split
        · exact hpure _
        · exact hthen fun _ => hpure _
    case CFL_KIND_VERIFY =>
      split
      · exact hpure _
      · split
        · exact hpure _
        · exact hthen fun _ => hpure _
    case CFL_KIND_INIT_TERM =>
      split
      · split
        · exact hpure _
        · exact hthen fun _ => hpure _
      · split
        · split
          · exact hpure _
          · exact hthen fun _ => hpure _
        · exact hpure _
    case other k => exact within_halt
  intro p hp
  exact (hp v₁ hv₁.1).mono fun _ v' h => hv₁.2 v' h

theorem panic_within (c : Nat) : Within C d G ((fun _ => cfl_panic : Nat → Code Unit) c) :=
  within_halt

/-! ## Bits and nodes -/

theorem foldl_armNode (ns : List Nat) (eng : Engine) :
    (ns.foldl armNode eng).current_chain = eng.current_chain ∧
      ∀ n, (ns.foldl armNode eng).node_initialized n =
        if n ∈ ns then false else eng.node_initialized n := by
  induction ns generalizing eng with
  | nil => simp
  | cons k ns ih =>
    obtain ⟨hcurrent, hinit⟩ := ih (armNode eng k)
    refine ⟨hcurrent, fun n => ?_⟩
    rw [List.foldl_cons, hinit]
    simp only [armNode, bm_clr, List.mem_cons]
    split_ifs <;> simp_all

theorem foldl_clearNode (ns : List Nat) (eng : Engine) :
    (ns.foldl clearNode eng).current_chain = eng.current_chain ∧
      ∀ n, (ns.foldl clearNode eng).node_initialized n =
        if n ∈ ns then false else eng.node_initialized n := by
  induction ns generalizing eng with
  | nil => simp
  | cons k ns ih =>
    obtain ⟨hcurrent, hinit⟩ := ih (clearNode eng k)
    refine ⟨hcurrent, fun n => ?_⟩
    rw [List.foldl_cons, hinit]
    simp only [clearNode, bm_clr, List.mem_cons]
    split_ifs <;> simp_all

variable (m)

theorem armChain_current (c : Nat) (eng : Engine) :
    (armChain m c eng).current_chain = eng.current_chain := (foldl_armNode _ _).1

theorem armChain_initialized (c : Nat) (eng : Engine) (n : Nat) :
    (armChain m c eng).node_initialized n =
      if n ∈ m.nodesOf c then false else eng.node_initialized n := (foldl_armNode _ _).2 n

theorem clearChain_current (c : Nat) (eng : Engine) :
    (clearChain m c eng).current_chain = eng.current_chain := (foldl_clearNode _ _).1

theorem clearChain_initialized (c : Nat) (eng : Engine) (n : Nat) :
    (clearChain m c eng).node_initialized n =
      if n ∈ m.nodesOf c then false else eng.node_initialized n := (foldl_clearNode _ _).2 n

variable {m}

theorem Module.nodesOf_nodup (c : Nat) : (m.nodesOf c).Nodup := List.nodup_range'

theorem Module.chain_unique {c' : Nat} (hc : c < m.chain_count) (hc' : c' < m.chain_count)
    (hn : n ∈ m.nodesOf c) (hn' : n ∈ m.nodesOf c') : c = c' := by
  have happart := List.pairwise_iff_getElem.mp m.own
  have hget : ∀ i (hi : i < m.chain_count), m.chain i = m.chains.get ⟨i, hi⟩ := fun i hi => by
    rw [Module.chain, List.getD_eq_getElem?_getD, List.getElem?_eq_getElem hi]
    rfl
  rw [Module.nodesOf, hget c hc] at hn
  rw [Module.nodesOf, hget c' hc'] at hn'
  rcases Nat.lt_trichotomy c c' with hlt | heq | hlt
  · exact absurd hn' (happart c c' hc hc' hlt n hn)
  · exact heq
  · exact absurd hn (happart c' c hc' hc hlt n hn')

theorem Module.ne_no_chain (hc : c < m.chain_count) : c ≠ NO_CHAIN := by
  have h := m.chain_count_le
  unfold Module.chain_count at hc
  unfold NO_CHAIN
  omega

theorem not_current (hc : c < m.chain_count)
    (h : v.state.current_chain ≠ c ∨ v.state.current_chain = NO_CHAIN) :
    v.state.current_chain ≠ c := by
  rcases h with h | h
  · exact h
  · exact fun heq => Module.ne_no_chain hc (heq.symm.trans h)

theorem initState_initialized (n : Nat) : (initState m).node_initialized n = false := by
  unfold initState
  generalize List.range m.chain_count = cs
  have hfold : ∀ eng : Engine, eng.node_initialized n = false →
      (cs.foldl (fun eng c => if (m.chain c).auto_start then armChain m c eng else eng)
        eng).node_initialized n = false := by
    induction cs with
    | nil => exact fun _ h => h
    | cons c cs ih =>
      intro eng h
      rw [List.foldl_cons]
      apply ih
      split
      · rw [armChain_initialized, h]
        simp
      · exact h
  exact hfold _ rfl

theorem initState_current : (initState m).current_chain = NO_CHAIN := by
  unfold initState
  generalize List.range m.chain_count = cs
  have hfold : ∀ eng : Engine, eng.current_chain = NO_CHAIN →
      (cs.foldl (fun eng c => if (m.chain c).auto_start then armChain m c eng else eng)
        eng).current_chain = NO_CHAIN := by
    induction cs with
    | nil => exact fun _ h => h
    | cons c cs ih =>
      intro eng h
      rw [List.foldl_cons]
      apply ih
      split
      · rw [armChain_current, h]
      · exact h
  exact hfold _ rfl

/-- The sweeps of a chain that are under way. -/
def sweepsStep (c k : Nat) : Nat × Note → Nat
  | (_, .sweep chain) => if chain = c then k + 1 else k
  | (_, .swept chain) => if chain = c then k - 1 else k
  | _ => k

def sweeps (c : Nat) (log : List (Nat × Note)) : Nat := log.foldl (sweepsStep c) 0

theorem sweeps_append (c : Nat) (log : List (Nat × Note)) (e : Nat × Note) :
    sweeps c (log ++ [e]) = sweepsStep c (sweeps c log) e := by
  simp [sweeps, List.foldl_append]

/-- No dispatch and no sweep of the chain is under way. -/
def Free (v : View setting) (c : Nat) : Prop :=
  v.state.current_chain ≠ c ∧ sweeps c v.log = 0

/-! ## The pump -/

def Note.ofPump : Note → Bool
  | .pops _ | .turn _ _ => true
  | _ => false

variable (m) in
/-- Between the turns no sweep is under way, and each chain is in order. -/
structure Settled (P : View setting → Nat → Prop) (v : View setting) : Prop where
  quiet : ∀ c, sweeps c v.log = 0
  all : ∀ c < m.chain_count, P v c

variable {P : View setting → Nat → Prop} {Q : Option Entry → View setting → Prop}

/-- A round of the pump, for an order of the chains that the notes of the pump do not disturb
and that does not ask whose turn it is. -/
theorem keeps_pump (h : Settled m P v) (hkeep : ∀ v₁ v₂ e, Note.ofPump e = true →
      v₂.state.node_initialized = v₁.state.node_initialized → v₂.log = v₁.log ++ [(0, e)] →
      ∀ c, P v₁ c → P v₂ c) (hturn : ∀ v' c on, C.Law 0 v' (.turn c on) ∧
      ∀ w, C.Link w v'.log → C.Link w (v'.log ++ [(0, .turn c on)])) (hnone : Q none v)
    (hpop : ∀ w ev queue, C.Link w v.log → w.queue.pop = some (ev, queue) →
      C.Law 0 v (.pops ev) ∧ C.Link { w with queue := queue } (v.log ++ [(0, .pops ev)]) ∧
      ∀ c < m.chain_count, ∀ v', v'.state.current_chain = c → Settled m P v' →
        Keeps C 0 (dispatch_nodes m c ev (m.nodesOf c)) (fun _ => Settled m P) v')
    (hdone : ∀ v', Settled m P v' → Q (some .cfl_engine_pump)
      { v' with state := { v'.state with current_chain := NO_CHAIN } }) :
    Keeps C 0 (cfl_engine_pump m) Q v := by
  have hnoted : ∀ v₁ v₂ e, Note.ofPump e = true →
      v₂.state.node_initialized = v₁.state.node_initialized → v₂.log = v₁.log ++ [(0, e)] →
      Settled m P v₁ → Settled m P v₂ := by
    intro v₁ v₂ e he hinit hlog h₁
    refine ⟨fun c => ?_, fun c hc => hkeep v₁ v₂ e he hinit hlog c (h₁.all c hc)⟩
    rw [hlog, sweeps_append, h₁.quiet]
    cases e with
    | pops | turn => rfl
    | _ => cases he
  unfold cfl_engine_pump
  apply keeps_bind
  intro w hw
  cases hq : w.queue.pop with
  | none =>
    simp only [hq, Option.map_none, noteAt, List.append_nil]
    exact ⟨(fun e he => by cases he), hw, hnone⟩
  | some taken =>
    obtain ⟨ev, queue⟩ := taken
    obtain ⟨hlaw, hlink, hserve⟩ := hpop w ev queue hw hq
    simp only [hq, Option.map_some, noteAt]
    refine ⟨fun e he => ?_, hlink, ?_⟩
    · cases he
      exact hlaw
    have hstart : Settled m P (v.noted 0 (.pops ev)) := hnoted v _ _ rfl rfl rfl h
    apply keeps_bind
    apply (keeps_forEach (fun _ => Settled m P) _ hstart ?_).mono
    · exact fun _ v' hall => hdone v' hall
    intro pre c post v' heq hall
    have hc : c < m.chain_count := by
      have hmem : c ∈ [] ++ List.range m.chain_count := heq ▸ by simp
      simpa using hmem
    unfold chain_turn
    apply keeps_bind
    apply keeps_bind
    intro _
    refine ⟨(hturn v' c _).1, (hturn v' c _).2, ?_⟩
    split
    · exact keeps_bind (hserve c hc _ rfl (hnoted v' _ _ rfl rfl rfl hall))
    · exact hnoted v' _ _ rfl rfl rfl hall

end motioncore.cfl
