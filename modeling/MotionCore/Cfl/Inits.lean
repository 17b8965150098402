-- A node of the chain-flow engine sees no event before its own INIT: before each event
-- it was initialized since it was last armed, swept or disabled. This holds when the
-- main code alone pumps, and then chains may be armed and swept in any order.
import MotionCore.Cfl.Rules

namespace motioncore.cfl

open motioncore.callbacks motioncore.machine

/-! ## The law -/

variable (m : Module)

/-- What a note makes of a node that is initialized or not. -/
def readyStep (n : Nat) (ready : Bool) : Nat × Note → Bool
  | (_, .inits node) => if node = n then true else ready
  | (_, .verdict node .CFL_DISABLE) => if node = n then false else ready
  | (_, .arms c) => if n ∈ m.nodesOf c then false else ready
  | (_, .sweep c) => if n ∈ m.nodesOf c then false else ready
  | _ => ready

/-- The node had its INIT since it was last armed, swept or disabled. -/
def ready (n : Nat) (log : List (Nat × Note)) : Bool := log.foldl (readyStep m n) false

def OfferedReady (log : List (Nat × Note)) : Prop :=
  ∀ pre d n ev post, log = pre ++ (d, Note.offers n ev) :: post → ready m n pre = true

variable {m}

theorem ready_append (n : Nat) (log : List (Nat × Note)) (e : Nat × Note) :
    ready m n (log ++ [e]) = readyStep m n (ready m n log) e := by
  simp [ready, List.foldl_append]

theorem OfferedReady.append {log : List (Nat × Note)} {e : Nat × Note} (h : OfferedReady m log)
    (he : ∀ n ev, e.2 = .offers n ev → ready m n log = true) : OfferedReady m (log ++ [e]) := by
  intro pre d n ev post heq
  rcases List.eq_nil_or_concat post with rfl | ⟨post, x, rfl⟩
  · obtain ⟨rfl, hlast⟩ := List.append_inj' heq rfl
    obtain rfl := List.singleton_inj.mp hlast
    exact he n ev rfl
  · have hsplit : log ++ [e] = (pre ++ (d, Note.offers n ev) :: post) ++ [x] := by
      simpa using heq
    exact h pre d n ev post (List.append_inj' hsplit rfl).1

/-! ## The contract -/

variable (m) in
/-- The nodes that are marked as initialized are ready. -/
def Readied (v : View setting) (c : Nat) : Prop :=
  ∀ n ∈ m.nodesOf c, v.state.node_initialized n = true → ready m n v.log = true

variable (m) in
def FreeReadied (v : View setting) : Prop := ∀ c < m.chain_count, Free v c → Readied m v c

variable (m) in
/-- What the code outside leaves alone: the chain that has its turn. -/
structure Spared (v v' : View setting) : Prop where
  current : v'.state.current_chain = v.state.current_chain
  sweeps : ∀ c, sweeps c v'.log = sweeps c v.log
  kept : ∀ n ∈ m.nodesOf v.state.current_chain, v.state.current_chain < m.chain_count →
    v'.state.node_initialized n = v.state.node_initialized n ∧
      ready m n v'.log = ready m n v.log

variable (m) in
/-- The main code alone pumps. -/
def inits : Contract setting where
  Inv d v := FreeReadied m v ∧
    (d = 0 → v.state.current_chain = NO_CHAIN ∧ ∀ c, sweeps c v.log = 0)
  Rely _ := Spared m
  Link _ _ := True
  Safe := OfferedReady m
  Law _ v
    | .offers n _ => ready m n v.log = true
    | _ => True
  Allowed _ _ := True
  MayEnter d
    | .cfl_engine_pump => d = 0
    | _ => True
  MayAct _ := True

def Fine (m : Module) (v v' : View setting) : Prop := FreeReadied m v' ∧ Spared m v v'

variable {α β : Type} {d c n : Nat} {v : View setting}

theorem Spared.refl (v : View setting) : Spared m v v := ⟨rfl, fun _ => rfl, fun _ _ _ => ⟨rfl, rfl⟩⟩

theorem Spared.trans {v₁ v₂ v₃ : View setting} (h : Spared m v₁ v₂) (h' : Spared m v₂ v₃) :
    Spared m v₁ v₃ where
  current := h'.current.trans h.current
  sweeps c := (h'.sweeps c).trans (h.sweeps c)
  kept n hn hc := by
    obtain ⟨hinit, hready⟩ := h.kept n hn hc
    obtain ⟨hinit', hready'⟩ := h'.kept n (h.current ▸ hn) (h.current ▸ hc)
    exact ⟨hinit'.trans hinit, hready'.trans hready⟩

variable {v' : View setting}

theorem Spared.free {v : View setting} (h : Spared m v v') (c : Nat) : Free v' c ↔ Free v c := by
  rw [Free, Free, h.current, h.sweeps]

theorem Fine.refl (h : FreeReadied m v) : Fine m v v := ⟨h, .refl v⟩

theorem Fine.trans {v₁ v₂ v₃ : View setting} (h : Fine m v₁ v₂) (h' : Fine m v₂ v₃) :
    Fine m v₁ v₃ := ⟨h'.1, h.2.trans h'.2⟩

theorem Fine.of_same (h : FreeReadied m v)
    (hcurrent : v'.state.current_chain = v.state.current_chain)
    (hinit : ∀ n, v'.state.node_initialized n = v.state.node_initialized n)
    (hsweeps : ∀ c, sweeps c v'.log = sweeps c v.log)
    (hready : ∀ n, ready m n v'.log = ready m n v.log) : Fine m v v' := by
  have hspared : Spared m v v' := ⟨hcurrent, hsweeps, fun n _ _ => ⟨hinit n, hready n⟩⟩
  refine ⟨fun c hc hfree n hn hon => ?_, hspared⟩
  rw [hready]
  exact h c hc ((hspared.free c).mp hfree) n hn (hinit n ▸ hon)

/-- A note that makes no node ready or not, and is no part of a sweep. -/
theorem Fine.noted {e : Note} (h : FreeReadied m v) (hready : ∀ n b, readyStep m n b (d, e) = b)
    (hsweeps : ∀ c k, sweepsStep c k (d, e) = k) : Fine m v (v.noted d e) :=
  .of_same h rfl (fun _ => rfl) (fun c => (sweeps_append c _ _).trans (hsweeps c _))
    fun n => (ready_append n _ _).trans (hready n _)

variable (m) in
/-- A chain that was swept: its nodes are not marked, and the rest is in order. -/
structure Emptied (c : Nat) (v v' : View setting) : Prop where
  current : v'.state.current_chain = v.state.current_chain
  sweeps : ∀ c', sweeps c' v'.log = sweeps c' v.log
  others : ∀ c' < m.chain_count, c' ≠ c → Free v c' → Readied m v' c'
  kept : v.state.current_chain ≠ c → ∀ n ∈ m.nodesOf v.state.current_chain,
    v.state.current_chain < m.chain_count →
      v'.state.node_initialized n = v.state.node_initialized n ∧
        ready m n v'.log = ready m n v.log
  cleared : ∀ n ∈ m.nodesOf c, v'.state.node_initialized n = false

theorem Emptied.fine (h : Emptied m c v v') (hcurrent : v.state.current_chain ≠ c) :
    Fine m v v' := by
  refine ⟨fun c' hc' hfree n hn hon => ?_, h.current, h.sweeps, h.kept hcurrent⟩
  by_cases hcc : c' = c
  · subst hcc
    rw [h.cleared n hn] at hon
    cases hon
  · refine h.others c' hc' hcc ⟨?_, ?_⟩ n hn hon
    · rw [← h.current]
      exact hfree.1
    · rw [← h.sweeps]
      exact hfree.2

variable (m) in
/-- A chain has its turn. The marks are right, but for a node that gives up. -/
structure InTurn (c : Nat) (but : Option Nat) (v : View setting) : Prop where
  current : v.state.current_chain = c
  quiet : ∀ c', sweeps c' v.log = 0
  here : ∀ n, but = some n → n ∈ m.nodesOf c
  all : ∀ c' < m.chain_count, ∀ n ∈ m.nodesOf c', but ≠ some n →
    v.state.node_initialized n = true → ready m n v.log = true

variable {but : Option Nat}

theorem InTurn.free (h : InTurn m c but v) (hc : c < m.chain_count) : FreeReadied m v := by
  intro c' hc' hfree n hn hon
  refine h.all c' hc' n hn (fun hbut => ?_) hon
  exact hfree.1 (h.current.trans (Module.chain_unique hc hc' (h.here n hbut) hn))

theorem InTurn.fine (h : InTurn m c but v) (hc : c < m.chain_count) (hfine : Fine m v v') :
    InTurn m c but v' := by
  have hcurrent := hfine.2.current.trans h.current
  have hquiet : ∀ c', sweeps c' v'.log = 0 := fun c' => (hfine.2.sweeps c').trans (h.quiet c')
  refine ⟨hcurrent, hquiet, h.here, fun c' hc' n hn hbut hon => ?_⟩
  by_cases hcc : c' = c
  · subst hcc
    have hn' : n ∈ m.nodesOf v.state.current_chain := by rwa [h.current]
    obtain ⟨hinit, hrdy⟩ := hfine.2.kept n hn' (by rwa [h.current])
    rw [hrdy]
    exact h.all c' hc' n hn hbut (hinit ▸ hon)
  · exact hfine.1 c' hc' ⟨fun heq => hcc (heq.symm.trans hcurrent), hquiet c'⟩ n hn hon

theorem InTurn.noted {e : Note} (h : InTurn m c but v)
    (hready : ∀ n, readyStep m n true (d, e) = true) (hsweeps : ∀ c k, sweepsStep c k (d, e) = k) :
    InTurn m c but (v.noted d e) := by
  refine ⟨h.current, fun c' => ?_, h.here, fun c' hc' n hn hbut hon => ?_⟩
  · rw [View.noted, sweeps_append, hsweeps]
    exact h.quiet c'
  · rw [View.noted, ready_append, h.all c' hc' n hn hbut hon]
    exact hready n

theorem InTurn.within {α : Type} {p : Code α} (h : InTurn m c but v) (hc : c < m.chain_count)
    (hp : Within (inits m) d (Fine m) p) : Keeps (inits m) d p (fun _ => InTurn m c but) v :=
  (hp v (.refl (h.free hc))).mono fun _ _ hfine => h.fine hc hfine

theorem Fine.done (h : Fine m v v') (hinv : (inits m).Inv d v) : Done (inits m) d v none v' := by
  refine ⟨⟨h.1, fun hd => ?_⟩, h.2, fun e he => by cases he⟩
  obtain ⟨hcurrent, hquiet⟩ := hinv.2 hd
  exact ⟨h.2.current.trans hcurrent, fun c => (h.2.sweeps c).trans (hquiet c)⟩

end motioncore.cfl
