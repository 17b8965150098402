-- The edges that the bus controller tells the host (`bus_drain_events`): a
-- slave goes down, and comes up again. Full rings of the USB link delay an
-- edge, or let it fall out with its opposite, but lose none.
import Mathlib.Data.List.Chain
import MotionCore.Bus.PollEngine
import MotionCore.Lib.Trace

open motioncore.bytes motioncore.machine motioncore.trace

namespace motioncore.bus

/-! ## The law -/

/-- The edge of the slave `addr` that an event tells the host. -/
def BusEv.edge (addr : UInt8) : BusEv → Option BusState
  | .pushed r _ =>
    if r.addr = addr then
      if r.cmd = OP_BUS_SLAVE_DOWN then some .dead
      else if r.cmd = OP_BUS_SLAVE_UP then some .alive
      else none
    else none
  | _ => none

/-- The edges of a slave, oldest first. -/
def edgesOf (addr : UInt8) (log : List BusEv) : List BusState := log.filterMap (BusEv.edge addr)

structure Alternates (edges : List BusState) : Prop where
  first : ∀ e, edges.head? = some e → e = .dead
  strict : edges.IsChain (· ≠ ·)

/-- What an event says of the slave is so. -/
def Truthful (s : BusSlave) : BusEv → Prop
  | .pushed r _ =>
    (r.addr = s.addr → r.cmd = OP_BUS_SLAVE_DOWN → s.state = .dead ∧ r.payload = [s.addr]) ∧
    (r.addr = s.addr → r.cmd = OP_BUS_SLAVE_UP →
      s.state = .alive ∧ r.payload = s.addr :: bytes32 s.class_id)
  | _ => True

/-- Each edge that a step tells of the slave at `k` is its state in that step. -/
def TruthfulStep (k : Fin BUS_ROSTER_MAX) (c : BusController) (op : BusOp) : Prop :=
  ∀ c', busStep c op = some c' → ∀ e ∈ c'.log.drop c.log.length, Truthful (c.roster k) e

/-- The edges of the slave at `k` since its registration, which wrote the log `past`. -/
structure TellsEdges (k : Fin BUS_ROSTER_MAX) (past : List BusEv) (c : BusController) : Prop where
  alternate : Alternates (edgesOf (c.roster k).addr (c.log.drop past.length))
  settled : (c.roster k).state = (c.roster k).announced_state →
    (∀ e, (edgesOf (c.roster k).addr (c.log.drop past.length)).getLast? = some e →
      e = (c.roster k).state) ∧
    ((c.roster k).state = .dead →
      (edgesOf (c.roster k).addr (c.log.drop past.length)).getLast? = some .dead)

/-- As many calls of `bus_drain_events` as the roster has places, with room in the ring. -/
def drainAll : List BusOp := List.replicate BUS_ROSTER_MAX (.drainEvents true)

/-- The op leaves the registration of the slave `addr` as it is. -/
def BusOp.leaves (addr : UInt8) : BusOp → Bool
  | .unregister a => a != addr
  | .clearRoster => false
  | _ => true

/-! ## Edges and their order -/

variable (c : BusController) (room : Bool) (addr : UInt8)

@[simp] theorem edgesOf_append (a b : List BusEv) :
    edgesOf addr (a ++ b) = edgesOf addr a ++ edgesOf addr b := List.filterMap_append

theorem Alternates.nil : Alternates [] := ⟨fun _ h => (nomatch h), List.isChain_nil⟩

variable {edges : List BusState}

/-- After the last edge comes its opposite. -/
theorem Alternates.snoc (h : Alternates edges) {e : BusState} (hfirst : edges = [] → e = .dead)
    (hlast : ∀ x, edges.getLast? = some x → x ≠ e) : Alternates (edges ++ [e]) where
  first := by
    intro x hx
    cases edges with
    | nil =>
      cases hx
      exact hfirst rfl
    | cons y ys => exact h.first x hx
  strict := by
    rw [List.isChain_append]
    refine ⟨h.strict, List.isChain_singleton e, ?_⟩
    intro x hx y hy
    cases hy
    exact hlast x hx

/-- What one call of `bus_drain_events` does to the slave `s`: the state that it
announces, and the edges that it tells. -/
inductive Tells (s : BusSlave) : BusState → List BusState → Prop
  | keep : Tells s s.announced_state []
  | silent (hs : s.state = .alive) (ha : s.announced_state ≠ .dead) : Tells s .alive []
  | down (hs : s.state = .dead) (ha : s.announced_state ≠ .dead) : Tells s .dead [.dead]
  | up (hs : s.state = .alive) (ha : s.announced_state = .dead) : Tells s .alive [.alive]

/-- What a slave has announced agrees with the edges that were told of it. -/
structure Told (announced : BusState) (edges : List BusState) : Prop where
  alternate : Alternates edges
  unknown : announced = .unknown → edges = []
  dead : announced = .dead → edges.getLast? = some .dead
  alive : announced = .alive → edges = [] ∨ edges.getLast? = some .alive

variable {s : BusSlave}

theorem Told.tells {new : List BusState} {a : BusState} (h : Told s.announced_state edges)
    (ht : Tells s a new) : Told a (edges ++ new) := by
  have hopen : s.announced_state ≠ .dead → edges = [] ∨ edges.getLast? = some .alive := by
    intro ha
    cases hs : s.announced_state with
    | unknown => exact Or.inl (h.unknown hs)
    | alive => exact h.alive hs
    | dead => exact absurd hs ha
  cases ht with
  | keep => simpa using h
  | silent hs ha =>
    rw [List.append_nil]
    exact ⟨h.alternate, fun h => (nomatch h), fun h => (nomatch h), fun _ => hopen ha⟩
  | down hs ha =>
    refine ⟨h.alternate.snoc (fun _ => rfl) ?_, fun h => (nomatch h), fun _ => by simp,
      fun h => (nomatch h)⟩
    intro x hx
    rcases hopen ha with rfl | hlast
    · cases hx
    · rw [hlast] at hx
      cases hx
      exact BusState.noConfusion
  | up hs ha =>
    have hlast := h.dead ha
    refine ⟨h.alternate.snoc ?_ ?_, fun h => (nomatch h), fun h => (nomatch h), fun _ => by simp⟩
    · rintro rfl
      cases hlast
    · intro x hx
      rw [hlast] at hx
      cases hx
      exact BusState.noConfusion

theorem Told.settled (h : Told s.announced_state edges) (hs : s.state = s.announced_state) :
    (∀ e, edges.getLast? = some e → e = s.state) ∧ (s.state = .dead → edges.getLast? = some .dead) := by
  refine ⟨?_, fun hd => h.dead (hs ▸ hd)⟩
  intro e he
  rw [hs]
  cases ha : s.announced_state with
  | unknown =>
    rw [h.unknown ha] at he
    cases he
  | dead =>
    rw [h.dead ha] at he
    exact (Option.some.inj he).symm
  | alive =>
    rcases h.alive ha with rfl | hl
    · cases he
    · rw [hl] at he
      exact (Option.some.inj he).symm

/-! ## One call of `bus_drain_events` -/

/-- No two places of the roster hold the same slave. -/
def Distinct (r : BusRoster) : Prop := ∀ i j, (r i).addr ≠ 0 → (r i).addr = (r j).addr → i = j

variable {r : BusRoster} {k : Fin BUS_ROSTER_MAX}

theorem find_addr {addr : UInt8} (h : busRosterFind r addr = some k) :
    (r k).addr = addr ∧ addr ≠ 0 := by
  unfold busRosterFind at h
  split at h
  · cases h
  · rename_i hne
    exact ⟨by simpa using List.find?_some h, hne⟩

theorem find_self (hd : Distinct r) (hk : (r k).addr ≠ 0) :
    busRosterFind r (r k).addr = some k := by
  have hsome : (busRosterFind r (r k).addr).isSome := by
    rw [busRosterFind, if_neg hk, List.find?_isSome]
    exact ⟨k, List.mem_finRange k, by simp⟩
  obtain ⟨j, hj⟩ := Option.isSome_iff_exists.mp hsome
  rw [hj, hd k j hk (find_addr hj).1.symm]

/-- The slaves after a call: nothing but what is announced has changed. -/
structure Announces (c c' : BusController) : Prop where
  same : ∀ i, c'.roster i = { c.roster i with announced_state := (c'.roster i).announced_state }
  log : ∃ new, c'.log = c.log ++ new ∧
    ∀ i, (c.roster i).addr ≠ 0 →
      Tells (c.roster i) (c'.roster i).announced_state (edgesOf (c.roster i).addr new) ∧
      ∀ e ∈ new, Truthful (c.roster i) e

theorem Announces.refl : Announces c c :=
  ⟨fun _ => rfl, [], (List.append_nil _).symm, fun _ _ => ⟨.keep, by simp⟩⟩

theorem Announces.told {c : BusController} (hd : Distinct c.roster) {cmd : UInt16}
    {payload : List UInt8} {a : BusState}
    (htells : Tells (c.roster k) a (edgesOf (c.roster k).addr [.pushed ⟨(c.roster k).addr, cmd,
      payload⟩ c.bridge_seq]))
    (htrue : Truthful (c.roster k) (.pushed ⟨(c.roster k).addr, cmd, payload⟩ c.bridge_seq))
    (hk : (c.roster k).addr ≠ 0) : Announces c ((c.push (c.roster k).addr cmd payload).setSlave k
      { c.roster k with announced_state := a }) where
  same i := by
    by_cases hi : i = k
    · subst hi
      simp [BusController.setSlave]
    · simp [BusController.setSlave, Function.update_of_ne hi, BusController.push, BusController.note]
  log := by
    refine ⟨[.pushed ⟨(c.roster k).addr, cmd, payload⟩ c.bridge_seq], rfl, fun i hi => ?_⟩
    by_cases hik : i = k
    · subst hik
      refine ⟨?_, by simpa using htrue⟩
      simpa [BusController.setSlave] using htells
    · have hne : (c.roster k).addr ≠ (c.roster i).addr := fun h => hik (hd k i hk h).symm
      have hnone : edgesOf (c.roster i).addr
          [.pushed ⟨(c.roster k).addr, cmd, payload⟩ c.bridge_seq] = [] := by
        simp [edgesOf, BusEv.edge, hne]
      rw [hnone]
      refine ⟨?_, ?_⟩
      · simp only [BusController.setSlave, Function.update_of_ne hik]
        exact .keep
      · intro e he
        rw [List.mem_singleton.mp he]
        exact ⟨fun h => absurd h hne, fun h => absurd h hne⟩

theorem up_ne_down : OP_BUS_SLAVE_UP ≠ OP_BUS_SLAVE_DOWN := by decide

theorem Distinct.of_addr {r' : BusRoster} (hd : Distinct r) (h : ∀ i, (r' i).addr = (r i).addr) :
    Distinct r' := by
  intro i j hi hij
  rw [h] at hi
  rw [h, h] at hij
  exact hd i j hi hij

theorem update_addr {c : BusController} (hs : s.addr = (c.roster k).addr) (i : Fin BUS_ROSTER_MAX) :
    ((c.setSlave k s).roster i).addr = (c.roster i).addr := by
  by_cases hi : i = k
  · subst hi
    simpa [BusController.setSlave] using hs
  · simp [BusController.setSlave, Function.update_of_ne hi]

variable {c' : BusController}

/-- A slave that comes alive for the first time is announced without a frame. -/
theorem Announces.silent {c : BusController} (hs : (c.roster k).state = .alive)
    (ha : (c.roster k).announced_state ≠ .dead)
    (h : Announces (c.setSlave k { c.roster k with announced_state := .alive }) c') :
    Announces c c' where
  same i := by
    have hi := h.same i
    by_cases hik : i = k
    · subst hik
      simpa [BusController.setSlave] using hi
    · simpa [BusController.setSlave, Function.update_of_ne hik] using hi
  log := by
    obtain ⟨new, hlog, hnew⟩ := h.log
    refine ⟨new, hlog, fun i hi => ?_⟩
    have hti := hnew i
    by_cases hik : i = k
    · subst hik
      simp only [BusController.setSlave, Function.update_self] at hti
      obtain ⟨ht, htrue⟩ := hti hi
      refine ⟨?_, htrue⟩
      generalize edgesOf _ new = es at ht ⊢
      generalize (c'.roster i).announced_state = a at ht ⊢
      cases ht with
      | keep => exact .silent hs ha
      | silent => exact .silent hs ha
      | down hdead => exact absurd (hs.symm.trans hdead) BusState.noConfusion
      | up _ hdead => exact absurd hdead BusState.noConfusion
    · simp only [BusController.setSlave, Function.update_of_ne hik] at hti
      exact hti hi

theorem drainEventsFrom_announces {c : BusController} (hd : Distinct c.roster)
    (is : List (Fin BUS_ROSTER_MAX)) : Announces c (drainEventsFrom room c is) := by
  induction is generalizing c with
  | nil => exact .refl c
  | cons i is ih =>
    unfold drainEventsFrom
    split
    · exact ih hd
    rename_i hpending
    split
    · exact ih hd
    rename_i k hk
    obtain ⟨haddr, hne⟩ := find_addr hk
    have hki : k = i := hd k i (haddr ▸ hne) haddr
    subst hki
    dsimp only
    split
    · rename_i hdead
      split
      · refine .told hd ?_ ?_ hne
        · have he : edgesOf (c.roster k).addr [.pushed ⟨(c.roster k).addr, OP_BUS_SLAVE_DOWN,
              [(c.roster k).addr]⟩ c.bridge_seq] = [.dead] := by simp [edgesOf, BusEv.edge]
          rw [he]
          exact .down hdead fun ha => hpending (hdead.trans ha.symm)
        · exact ⟨fun _ _ => ⟨hdead, rfl⟩, fun _ h => absurd h up_ne_down.symm⟩
      · exact .refl c
    · rename_i halive
      split
      · rename_i ha
        split
        · refine .told hd ?_ ?_ hne
          · have he : edgesOf (c.roster k).addr [.pushed ⟨(c.roster k).addr, OP_BUS_SLAVE_UP,
                (c.roster k).addr :: bytes32 (c.roster k).class_id⟩ c.bridge_seq] = [.alive] := by
              simp [edgesOf, BusEv.edge, up_ne_down]
            rw [he]
            exact .up halive ha
          · exact ⟨fun _ h => absurd h up_ne_down, fun _ _ => ⟨halive, rfl⟩⟩
        · exact .refl c
      · rename_i ha
        refine .silent halive ha (ih (hd.of_addr ?_))
        intro i
        apply update_addr
        rfl
    · exact ih hd

/-! ## The other steps -/

/-- An event that tells no edge of any slave. -/
def BusEv.edgeless : BusEv → Bool
  | .pushed r _ => r.cmd != OP_BUS_SLAVE_DOWN && r.cmd != OP_BUS_SLAVE_UP
  | _ => true

theorem edgesOf_edgeless {new : List BusEv} (h : ∀ e ∈ new, e.edgeless = true) (addr : UInt8) :
    edgesOf addr new = [] := by
  apply List.filterMap_eq_nil_iff.mpr
  intro e he
  have hq := h e he
  cases e with
  | pushed r seq =>
    simp only [BusEv.edgeless, Bool.and_eq_true, bne_iff_ne] at hq
    simp [BusEv.edge, hq.1, hq.2]
  | _ => rfl

theorem truthful_edgeless {e : BusEv} (h : e.edgeless = true) (s : BusSlave) : Truthful s e := by
  cases e with
  | pushed r seq =>
    simp only [BusEv.edgeless, Bool.and_eq_true, bne_iff_ne] at h
    exact ⟨fun _ hr => absurd hr h.1, fun _ hr => absurd hr h.2⟩
  | _ => trivial

/-- What the other steps leave alone: the addresses, what is announced, and the
edges. A state may change, but not back to unknown. -/
structure Unannounced (c c' : BusController) : Prop where
  addr : ∀ i, (c'.roster i).addr = (c.roster i).addr
  announced : ∀ i, (c'.roster i).announced_state = (c.roster i).announced_state
  state : ∀ i, (c'.roster i).state = (c.roster i).state ∨ (c'.roster i).state ≠ .unknown
  log : ∃ new, c'.log = c.log ++ new ∧ ∀ e ∈ new, e.edgeless = true

theorem Unannounced.refl : Unannounced c c :=
  ⟨fun _ => rfl, fun _ => rfl, fun _ => Or.inl rfl, Adds.refl _⟩

theorem Unannounced.trans {a b c : BusController} (hab : Unannounced a b) (hbc : Unannounced b c) :
    Unannounced a c := by
  refine ⟨fun i => (hbc.addr i).trans (hab.addr i),
    fun i => (hbc.announced i).trans (hab.announced i), fun i => ?_, Adds.trans hab.log hbc.log⟩
  rcases hbc.state i with h | h
  · rw [h]
    exact hab.state i
  · exact Or.inr h

/-- A change beside the roster, with an event that tells no edge, or with none. -/
theorem Unannounced.beside {c : BusController} (hroster : c'.roster = c.roster) {l : List BusEv}
    (hlog : c'.log = c.log ++ l) (hnew : ∀ e ∈ l, e.edgeless = true) : Unannounced c c' := by
  refine ⟨?_, ?_, ?_, l, hlog, hnew⟩
  all_goals simp [hroster]

theorem Unannounced.same {c : BusController} (hroster : c'.roster = c.roster)
    (hlog : c'.log = c.log) : Unannounced c c' :=
  .beside hroster (by rw [hlog, List.append_nil]) (l := []) (by simp)

theorem Unannounced.setSlave (k : Fin BUS_ROSTER_MAX) (haddr : s.addr = (c.roster k).addr)
    (hannounced : s.announced_state = (c.roster k).announced_state)
    (hstate : s.state = (c.roster k).state ∨ s.state ≠ .unknown) :
    Unannounced c (c.setSlave k s) := by
  refine ⟨update_addr haddr, fun i => ?_, fun i => ?_, Adds.refl _⟩
  · by_cases hi : i = k
    · subst hi
      simpa [BusController.setSlave] using hannounced
    · simp [BusController.setSlave, Function.update_of_ne hi]
  · by_cases hi : i = k
    · subst hi
      simpa [BusController.setSlave] using hstate
    · simp [BusController.setSlave, Function.update_of_ne hi]

theorem Unannounced.push {cmd : UInt16} (payload : List UInt8)
    (hcmd : cmd ≠ OP_BUS_SLAVE_DOWN ∧ cmd ≠ OP_BUS_SLAVE_UP) :
    Unannounced c (c.push addr cmd payload) := by
  refine .beside rfl (l := [.pushed _ _]) rfl ?_
  intro e he
  rw [List.mem_singleton.mp he]
  simp [BusEv.edgeless, hcmd.1, hcmd.2]

theorem flagged_tells_no_edge :
    OP_BUS_SLAVE_FLAGGED ≠ OP_BUS_SLAVE_DOWN ∧ OP_BUS_SLAVE_FLAGGED ≠ OP_BUS_SLAVE_UP := by decide

theorem report_tells_no_edge :
    OP_BUS_STATUS_REPORT ≠ OP_BUS_SLAVE_DOWN ∧ OP_BUS_STATUS_REPORT ≠ OP_BUS_SLAVE_UP := by decide

theorem nak_tells_no_edge : OP_NAK ≠ OP_BUS_SLAVE_DOWN ∧ OP_NAK ≠ OP_BUS_SLAVE_UP := by decide

theorem busMarkAlive_unannounced : Unannounced c (busMarkAlive c addr) := by
  unfold busMarkAlive
  split
  · exact .refl c
  · exact .setSlave c _ rfl rfl (Or.inr BusState.noConfusion)

theorem busMarkMiss_unannounced : Unannounced c (busMarkMiss c addr) := by
  unfold busMarkMiss
  split
  · exact .refl c
  · refine .setSlave c _ rfl rfl ?_
    dsimp only
    generalize (if _ < (0xFF : UInt8) then _ else _ : UInt8) = misses
    by_cases hm : c.max_misses ≤ misses
    · rw [if_pos hm]
      exact Or.inr BusState.noConfusion
    · rw [if_neg hm]
      exact Or.inl rfl

theorem storeSummary_unannounced (f : Rs485Frame) : Unannounced c (storeSummary c f) := by
  unfold storeSummary
  split
  · exact .refl c
  · exact .setSlave c _ rfl rfl (Or.inl rfl)

theorem openSlot_unannounced (txFree : Bool) : Unannounced c (openSlot c txFree) := by
  have hsent : ∀ (a b : BusController) f, b.roster = a.roster → b.log = a.log →
      Unannounced a (b.note (.sent f)) := by
    intro a b f hroster hlog
    refine .beside hroster (l := [.sent f]) ?_ (by simp [BusEv.edgeless])
    rw [BusController.note, hlog]
  unfold openSlot
  split
  · exact .refl c
  dsimp only
  split
  · split
    · exact hsent _ _ _ rfl rfl
    · exact .same rfl rfl
  · split
    · exact .same rfl rfl
    · split
      · exact hsent _ _ _ rfl rfl
      · exact .same rfl rfl

theorem takeAnswer_unannounced (h : Heard) : Unannounced c (takeAnswer c h) := by
  have hack : ∀ c : BusController, Unannounced c { stageAck c h with cmd_state := .idle } := by
    intro c
    unfold stageAck
    split <;> exact .same rfl rfl
  have hreply : ∀ c : BusController, Unannounced c (stageReply c h) := by
    intro c
    unfold stageReply
    split <;> exact .same rfl rfl
  unfold takeAnswer
  refine (busMarkAlive_unannounced c c.cur_addr).trans ?_
  generalize busMarkAlive c c.cur_addr = d
  refine Unannounced.trans ?_ (.same rfl rfl (c := if d.cmd_state = .sent then
    { stageAck d h with cmd_state := .idle }
    else if h.frame.isReply then stageReply d h else storeSummary d h.frame))
  split
  · exact hack d
  · split
    · exact hreply d
    · exact storeSummary_unannounced d _

theorem awaitAnswer_unannounced : Unannounced c (awaitAnswer c) := by
  unfold awaitAnswer
  split
  · refine (busMarkMiss_unannounced c c.cur_addr).trans ?_
    dsimp only
    split <;> exact .same rfl rfl
  · exact .refl c

theorem busPollEngine_unannounced (txFree : Bool) : Unannounced c (busPollEngine c txFree) := by
  unfold busPollEngine
  split
  · exact .same rfl rfl
  split
  · exact openSlot_unannounced c txFree
  · split
    · exact awaitAnswer_unannounced c
    · rename_i h rx _
      have hrx : Unannounced c { c with rx } := .same rfl rfl
      dsimp only
      split
      · exact hrx.trans (takeAnswer_unannounced _ h)
      · exact hrx.trans (awaitAnswer_unannounced _)

theorem drainFlaggedFrom_unannounced (c : BusController) (is : List (Fin BUS_ROSTER_MAX)) :
    Unannounced c (drainFlaggedFrom room c is) := by
  induction is with
  | nil => exact .refl c
  | cons i is ih =>
    unfold drainFlaggedFrom
    split
    · exact ih
    split
    · exact ih
    dsimp only
    split
    · rename_i k _ _
      have hpush := Unannounced.push c (c.roster k).addr [(c.roster k).addr, (c.roster k).summary]
        flagged_tells_no_edge
      exact hpush.trans (.setSlave _ k rfl rfl (Or.inl rfl))
    · exact .refl c

theorem busDrainStatusReport_unannounced : Unannounced c (busDrainStatusReport c room) := by
  have hstart : Unannounced c (startStatus c) := by
    unfold startStatus
    split <;> exact .same rfl rfl
  unfold busDrainStatusReport
  split
  · exact .same rfl rfl
  dsimp only
  split
  · exact hstart
  split
  · exact hstart.trans (.same rfl rfl)
  · split
    · exact hstart.trans ((Unannounced.push _ _ _ report_tells_no_edge).trans (.same rfl rfl))
    · exact hstart

theorem busDrainCmdReply_unannounced : Unannounced c (busDrainCmdReply c room) := by
  unfold busDrainCmdReply
  split
  · exact .refl c
  · split
    · exact .beside rfl (l := [.relayed _ _ _]) rfl (by simp [BusEv.edgeless])
    · exact .refl c

theorem busDrainCmdAck_unannounced : Unannounced c (busDrainCmdAck c room) := by
  unfold busDrainCmdAck
  split
  · exact .refl c
  · split
    · exact .beside rfl (l := [.relayed _ _ _]) rfl (by simp [BusEv.edgeless])
    · exact .refl c

theorem awaitBridge_unannounced : Unannounced c (awaitBridge c room) := by
  unfold awaitBridge
  split
  · unfold bridgeNak
    dsimp only
    split
    · exact (Unannounced.push c _ _ nak_tells_no_edge).trans (.same rfl rfl)
    · exact .same rfl rfl
  · exact .refl c

theorem rs485BridgePoll_unannounced : Unannounced c (rs485BridgePoll c room) := by
  unfold rs485BridgePoll
  split
  · exact .refl c
  split
  · split
    · exact .beside rfl (l := [.relayed _ _ _]) rfl (by simp [BusEv.edgeless])
    · split
      · exact .same rfl rfl
      · exact .refl c
  · split
    · exact awaitBridge_unannounced c room
    · rename_i h rx _
      have hrx : Unannounced c { c with rx } := .same rfl rfl
      dsimp only
      split
      · exact .same rfl rfl
      · exact hrx.trans (awaitBridge_unannounced _ room)

theorem fromHost_unannounced (opcode : UInt16) (addr : UInt8) (payload : List UInt8) :
    Unannounced c (fromHost c opcode addr payload) := by
  unfold fromHost
  split
  · exact .refl c
  split
  · unfold busCmdEnqueue
    split
    · exact .refl c
    · exact .same rfl rfl
  · unfold bridgeStart
    split
    · exact .refl c
    split
    · exact .refl c
    · exact .beside rfl (l := [.sent _]) rfl (by simp [BusEv.edgeless])

theorem hear_unannounced (f : Rs485Frame) : Unannounced c (hear c f) := by
  unfold hear
  dsimp only
  split
  · exact .beside rfl (l := [.heard f]) rfl (by simp [BusEv.edgeless])
  · exact .same rfl rfl

theorem whilePolling_unannounced {c : BusController} (h : Unannounced c c') :
    Unannounced c (whilePolling c c') := by
  unfold whilePolling
  split
  · exact h
  · exact .refl c

/-- The steps that touch neither the set of slaves nor what is announced. -/
def BusOp.beside : BusOp → Bool
  | .drainEvents _ => false
  | .register .. => false
  | .unregister _ => false
  | .clearRoster => false
  | _ => true

theorem busStep_unannounced {c : BusController} {op : BusOp} (hop : op.beside = true)
    (hstep : busStep c op = some c') : Unannounced c c' := by
  cases op with
  | hear f =>
    cases hstep
    exact hear_unannounced c f
  | engine txFree =>
    cases hstep
    exact whilePolling_unannounced (busPollEngine_unannounced c txFree)
  | drainEvents room => exact absurd hop Bool.noConfusion
  | drainFlagged room =>
    cases hstep
    exact whilePolling_unannounced (drainFlaggedFrom_unannounced room c _)
  | drainCmdAck room =>
    cases hstep
    exact whilePolling_unannounced (busDrainCmdAck_unannounced c room)
  | drainCmdReply room =>
    cases hstep
    exact whilePolling_unannounced (busDrainCmdReply_unannounced c room)
  | drainStatusReport room =>
    cases hstep
    exact whilePolling_unannounced (busDrainStatusReport_unannounced c room)
  | bridgePoll room =>
    simp only [busStep, Option.some.injEq] at hstep
    subst hstep
    split
    · exact .refl c
    · exact rs485BridgePoll_unannounced c room
  | fromHost opcode addr payload =>
    cases hstep
    exact fromHost_unannounced c opcode addr payload
  | register => exact absurd hop Bool.noConfusion
  | unregister => exact absurd hop Bool.noConfusion
  | clearRoster => exact absurd hop Bool.noConfusion
  | setPoll period misses retries =>
    cases hstep
    unfold cmdBusSetPoll
    split
    · exact .refl c
    · exact .same rfl rfl
  | pollEnable on =>
    cases hstep
    exact .same rfl rfl
  | tick ms =>
    cases hstep
    exact .same rfl rfl

end motioncore.bus
