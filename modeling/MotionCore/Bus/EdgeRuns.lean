-- Every run of the bus controller tells the edges of a slave from its
-- registration on. With room in the ring, as many calls as the roster has
-- places bring what is announced up to date.
import Mathlib.Data.Fintype.Card
import MotionCore.Bus.Edges

open motioncore.bytes motioncore.machine

namespace motioncore.bus

/-! ## The set of slaves -/

variable {r : BusRoster}

theorem not_mem_of_find_none {addr : UInt8} (hne : addr ≠ 0) (h : busRosterFind r addr = none)
    (i : Fin BUS_ROSTER_MAX) : (r i).addr ≠ addr := by
  rw [busRosterFind, if_neg hne, List.find?_eq_none] at h
  simpa using h i (List.mem_finRange i)

/-- A registration takes a free place, or is refused. -/
theorem register_cases (r : BusRoster) (addr : UInt8) (class_id : UInt32) (flags : UInt8) :
    busRosterRegister r addr class_id flags = r ∨
      ∃ k, addr ≠ 0 ∧ busRosterFind r addr = none ∧ (r k).addr = 0 ∧
        busRosterRegister r addr class_id flags =
          Function.update r k { BusSlave.empty with addr, class_id, flags } := by
  unfold busRosterRegister
  split
  · exact Or.inl rfl
  rename_i haddr
  split
  · exact Or.inl rfl
  rename_i hfind
  split
  · exact Or.inl rfl
  · rename_i k hk
    refine Or.inr ⟨k, fun h => haddr (Or.inl h), ?_, by simpa using List.find?_some hk, rfl⟩
    simpa using hfind

theorem register_distinct (hd : Distinct r) (addr : UInt8) (class_id : UInt32) (flags : UInt8) :
    Distinct (busRosterRegister r addr class_id flags) := by
  rcases register_cases r addr class_id flags with h | ⟨k, hne, hfind, hfree, h⟩
  · rw [h]
    exact hd
  · rw [h]
    have hnot := not_mem_of_find_none hne hfind
    intro i j hi hij
    by_cases hik : i = k
    · subst hik
      by_cases hjk : j = i
      · exact hjk.symm
      · simp only [Function.update_self, Function.update_of_ne hjk] at hij
        exact absurd hij.symm (hnot j)
    · by_cases hjk : j = k
      · subst hjk
        simp only [Function.update_self, Function.update_of_ne hik] at hij
        exact absurd hij (hnot i)
      · simp only [Function.update_of_ne hik, Function.update_of_ne hjk] at hi hij
        exact hd i j hi hij

theorem unregister_cases (r : BusRoster) (addr : UInt8) :
    busRosterUnregister r addr = r ∨ ∃ k, busRosterFind r addr = some k ∧
      busRosterUnregister r addr = Function.update r k { r k with addr := 0 } := by
  unfold busRosterUnregister
  split
  · exact Or.inl rfl
  · rename_i k hk
    exact Or.inr ⟨k, hk, rfl⟩

theorem unregister_distinct (hd : Distinct r) (addr : UInt8) :
    Distinct (busRosterUnregister r addr) := by
  rcases unregister_cases r addr with h | ⟨k, -, h⟩
  · rw [h]
    exact hd
  · rw [h]
    intro i j hi hij
    by_cases hik : i = k
    · subst hik
      simp at hi
    · by_cases hjk : j = k
      · subst hjk
        simp only [Function.update_self, Function.update_of_ne hik] at hi hij
        exact absurd hij hi
      · simp only [Function.update_of_ne hik, Function.update_of_ne hjk] at hi hij
        exact hd i j hi hij

variable {c c' : BusController}

theorem busStep_distinct (hd : Distinct c.roster) {op : BusOp} (hstep : busStep c op = some c') :
    Distinct c'.roster := by
  by_cases hop : op.beside = true
  · exact hd.of_addr (busStep_unannounced hop hstep).addr
  · cases op with
    | drainEvents room =>
      cases hstep
      unfold whilePolling
      split
      · refine hd.of_addr fun i => ?_
        rw [busDrainEvents, (drainEventsFrom_announces room hd _).same i]
      · exact hd
    | register addr class_id flags =>
      cases hstep
      exact register_distinct hd addr class_id flags
    | unregister addr =>
      cases hstep
      exact unregister_distinct hd addr
    | clearRoster =>
      cases hstep
      exact fun i _ hi _ => absurd rfl hi
    | _ => exact absurd rfl hop

/-! ## Every run -/

/-- The slave `addr` is registered at `k`, and the edges since the log `past`
agree with what it has announced. -/
structure Watched (k : Fin BUS_ROSTER_MAX) (addr : UInt8) (past : List BusEv)
    (c : BusController) : Prop where
  place : (c.roster k).addr = addr
  real : addr ≠ 0
  distinct : Distinct c.roster
  known : (c.roster k).state = .unknown → (c.roster k).announced_state = .unknown
  told : ∃ since, c.log = past ++ since ∧
    Told (c.roster k).announced_state (edgesOf addr since)

section

variable {k : Fin BUS_ROSTER_MAX} {addr : UInt8} {past : List BusEv} {c c' : BusController}

theorem Watched.unannounced (hw : Watched k addr past c) (hu : Unannounced c c')
    (hd : Distinct c'.roster) : Watched k addr past c' := by
  obtain ⟨since, hlog, htold⟩ := hw.told
  obtain ⟨new, hlog', hnew⟩ := hu.log
  refine ⟨(hu.addr k).trans hw.place, hw.real, hd, fun hs => ?_, since ++ new, ?_, ?_⟩
  · rw [hu.announced k]
    rcases hu.state k with h | h
    · exact hw.known (h ▸ hs)
    · exact absurd hs h
  · rw [hlog', hlog, List.append_assoc]
  · rw [hu.announced k, edgesOf_append, edgesOf_edgeless hnew, List.append_nil]
    exact htold

theorem Watched.announces (hw : Watched k addr past c) (ha : Announces c c')
    (hd : Distinct c'.roster) : Watched k addr past c' := by
  obtain ⟨since, hlog, htold⟩ := hw.told
  obtain ⟨new, hlog', hnew⟩ := ha.log
  have hk : (c.roster k).addr ≠ 0 := by
    rw [hw.place]
    exact hw.real
  obtain ⟨htells, -⟩ := hnew k hk
  rw [hw.place] at htells
  have hstate : (c'.roster k).state = (c.roster k).state := by rw [ha.same k]
  refine ⟨by rw [ha.same k, ← hw.place], hw.real, hd, fun hs => ?_, since ++ new, ?_, ?_⟩
  · rw [hstate] at hs
    have hknown := hw.known hs
    generalize edgesOf addr new = es at htells
    generalize (c'.roster k).announced_state = a at htells ⊢
    cases htells with
    | keep => exact hknown
    | silent h => exact absurd (hs.symm.trans h) BusState.noConfusion
    | down h => exact absurd (hs.symm.trans h) BusState.noConfusion
    | up h => exact absurd (hs.symm.trans h) BusState.noConfusion
  · rw [hlog', hlog, List.append_assoc]
  · rw [edgesOf_append]
    exact htold.tells htells

theorem Watched.same (hw : Watched k addr past c) (hk : c'.roster k = c.roster k)
    (hlog : c'.log = c.log) (hd : Distinct c'.roster) : Watched k addr past c' := by
  refine ⟨?_, hw.real, hd, ?_, ?_⟩
  · rw [hk]
    exact hw.place
  · rw [hk]
    exact hw.known
  · rw [hk, hlog]
    exact hw.told

theorem busStep_watched (hw : Watched k addr past c) {op : BusOp} (hop : op.leaves addr = true)
    (hstep : busStep c op = some c') : Watched k addr past c' := by
  have hd := busStep_distinct hw.distinct hstep
  by_cases hbeside : op.beside = true
  · exact hw.unannounced (busStep_unannounced hbeside hstep) hd
  · cases op with
    | drainEvents room =>
      cases hstep
      unfold whilePolling at hd ⊢
      by_cases hon : c.enabled = true
      · rw [if_pos hon] at hd ⊢
        exact hw.announces (drainEventsFrom_announces room hw.distinct _) hd
      · rw [if_neg hon]
        exact hw
    | register a class_id flags =>
      cases hstep
      refine hw.same ?_ rfl hd
      rcases register_cases c.roster a class_id flags with h | ⟨j, -, -, hfree, h⟩
      · exact congrFun h k
      · refine (congrFun h k).trans (Function.update_of_ne ?_ _ _)
        rintro rfl
        exact hw.real (hw.place ▸ hfree)
    | unregister a =>
      cases hstep
      refine hw.same ?_ rfl hd
      rcases unregister_cases c.roster a with h | ⟨j, hj, h⟩
      · exact congrFun h k
      · refine (congrFun h k).trans (Function.update_of_ne ?_ _ _)
        rintro rfl
        have ha : a ≠ addr := by simpa [BusOp.leaves] using hop
        exact ha ((find_addr hj).1.symm.trans hw.place)
    | clearRoster => exact absurd hop Bool.noConfusion
    | _ => exact absurd rfl hbeside

/-- Each step tells the truth about a slave that is watched. -/
theorem truthful_step (hw : Watched k addr past c) (op : BusOp) : TruthfulStep k c op := by
  intro c' hstep e he
  by_cases hbeside : op.beside = true
  · obtain ⟨new, hlog, hnew⟩ := (busStep_unannounced hbeside hstep).log
    rw [hlog, List.drop_left] at he
    exact truthful_edgeless (hnew e he) _
  · have hsame : c'.log = c.log → Truthful (c.roster k) e := by
      intro hlog
      rw [hlog, List.drop_length] at he
      cases he
    cases op with
    | drainEvents room =>
      cases hstep
      unfold whilePolling at he hsame
      split at he
      · obtain ⟨new, hlog, hnew⟩ :=
          (drainEventsFrom_announces room hw.distinct (occupied c.roster)).log
        rw [busDrainEvents, hlog, List.drop_left] at he
        exact (hnew k (by rw [hw.place]; exact hw.real)).2 e he
      · rw [List.drop_length] at he
        cases he
    | register =>
      cases hstep
      exact hsame rfl
    | unregister =>
      cases hstep
      exact hsame rfl
    | clearRoster =>
      cases hstep
      exact hsame rfl
    | _ => exact absurd rfl hbeside

end

/-! ## With room in the ring -/

/-- The slaves that have something to announce. -/
def pendingEdges (c : BusController) : Finset (Fin BUS_ROSTER_MAX) :=
  Finset.univ.filter fun i => (c.roster i).addr ≠ 0 ∧
    (c.roster i).state ≠ (c.roster i).announced_state

theorem mem_pendingEdges {i : Fin BUS_ROSTER_MAX} : i ∈ pendingEdges c ↔ (c.roster i).addr ≠ 0 ∧
      (c.roster i).state ≠ (c.roster i).announced_state := by
  simp [pendingEdges]

variable {k : Fin BUS_ROSTER_MAX}

/-- A call that has something to announce settles one slave at least. -/
theorem drainEventsFrom_settles (hd : Distinct c.roster) {is : List (Fin BUS_ROSTER_MAX)}
    (hk : k ∈ is) (hpending : k ∈ pendingEdges c) (hknown : (c.roster k).state ≠ .unknown) :
    ∃ i ∈ pendingEdges c, i ∉ pendingEdges (drainEventsFrom true c is) := by
  induction is with
  | nil => cases hk
  | cons i is ih =>
    have hrest : k ≠ i → ∃ i ∈ pendingEdges c, i ∉ pendingEdges (drainEventsFrom true c is) := by
      intro hki
      exact ih ((List.mem_cons.mp hk).resolve_left hki)
    unfold drainEventsFrom
    split
    · rename_i hsettled
      apply hrest
      rintro rfl
      exact (mem_pendingEdges.mp hpending).2 hsettled
    rename_i hi
    split
    · rename_i hnone
      apply hrest
      rintro rfl
      rw [find_self hd (mem_pendingEdges.mp hpending).1] at hnone
      cases hnone
    rename_i j hj
    obtain ⟨haddr, hne⟩ := find_addr hj
    have hji : j = i := hd j i (haddr ▸ hne) haddr
    subst hji
    have hmem : j ∈ pendingEdges c := mem_pendingEdges.mpr ⟨hne, hi⟩
    dsimp only
    split
    · rename_i hdead
      refine ⟨j, hmem, fun h => (mem_pendingEdges.mp h).2 ?_⟩
      simp [BusController.setSlave, hdead]
    · rename_i halive
      split
      · refine ⟨j, hmem, fun h => (mem_pendingEdges.mp h).2 ?_⟩
        simp [BusController.setSlave, halive]
      · -- A silent announcement settles its slave, and the rest keeps it so.
        refine ⟨j, hmem, fun h => (mem_pendingEdges.mp h).2 ?_⟩
        have hd' : Distinct (c.setSlave j { c.roster j with announced_state := .alive }).roster := by
          refine hd.of_addr fun i => ?_
          apply update_addr
          rfl
        have ha := drainEventsFrom_announces true hd' is
        obtain ⟨new, -, hnew⟩ := ha.log
        have hself : (c.setSlave j { c.roster j with announced_state := .alive }).roster j =
            { c.roster j with announced_state := .alive } := Function.update_self ..
        have htells := (hnew j (by rw [hself]; exact hne)).1
        rw [ha.same j, hself] at *
        generalize edgesOf _ new = es at htells
        generalize ((drainEventsFrom true _ is).roster j).announced_state = a at htells ⊢
        cases htells with
        | keep => exact halive
        | silent => exact halive
        | down h => exact absurd (halive.symm.trans h) BusState.noConfusion
        | up _ h => exact absurd h BusState.noConfusion
    · rename_i hunknown
      apply hrest
      rintro rfl
      exact hknown hunknown

theorem Announces.pending (ha : Announces c c') : pendingEdges c' ⊆ pendingEdges c := by
  intro i hi
  obtain ⟨haddr, hstate⟩ := mem_pendingEdges.mp hi
  rw [ha.same i] at haddr hstate
  obtain ⟨new, -, hnew⟩ := ha.log
  have htells := (hnew i haddr).1
  generalize edgesOf (c.roster i).addr new = es at htells
  generalize (c'.roster i).announced_state = a at htells hstate
  cases htells with
  | keep => exact mem_pendingEdges.mpr ⟨haddr, hstate⟩
  | silent h => exact absurd h hstate
  | down h => exact absurd h hstate
  | up h => exact absurd h hstate

theorem drainEventsFrom_enabled (room : Bool) (c : BusController) (is : List (Fin BUS_ROSTER_MAX)) :
    (drainEventsFrom room c is).enabled = c.enabled := by
  induction is generalizing c with
  | nil => rfl
  | cons i is ih =>
    unfold drainEventsFrom
    split
    · exact ih c
    split
    · exact ih c
    dsimp only
    split
    · split <;> rfl
    · split
      · split <;> rfl
      · exact ih _
    · exact ih c

/-- With room in the ring each call settles a slave, until none is left. -/
theorem drains_settle {addr : UInt8} {past : List BusEv} (n : Nat) (hw : Watched k addr past c)
    (hon : c.enabled = true) (hn : k ∉ pendingEdges c ∨ (pendingEdges c).card ≤ n)
    (hrun : runs busStep c (List.replicate n (.drainEvents true)) = some c') :
    (c'.roster k).state = (c'.roster k).announced_state := by
  induction n generalizing c with
  | zero =>
    cases hrun
    have hnot : k ∉ pendingEdges c' := by
      rcases hn with h | h
      · exact h
      · rw [Finset.card_eq_zero.mp (Nat.le_zero.mp h)]
        exact Finset.notMem_empty k
    by_contra hne
    refine hnot (mem_pendingEdges.mpr ⟨?_, hne⟩)
    rw [hw.place]
    exact hw.real
  | succ n ih =>
    have hstep : busStep c (.drainEvents true) = some (busDrainEvents c true) := by
      rw [busStep, whilePolling, if_pos hon]
    rw [List.replicate_succ, runs_cons, hstep, Option.bind_some] at hrun
    have ha := drainEventsFrom_announces true hw.distinct (occupied c.roster)
    refine ih (busStep_watched hw rfl hstep) ?_ ?_ hrun
    · rw [busDrainEvents, drainEventsFrom_enabled]
      exact hon
    · by_cases hk : k ∈ pendingEdges c
      · have hcard := hn.resolve_left (not_not.mpr hk)
        have hp := mem_pendingEdges.mp hk
        have hknown : (c.roster k).state ≠ .unknown := by
          intro h
          exact hp.2 (h.trans (hw.known h).symm)
        have hmem : k ∈ occupied c.roster := by simpa [occupied] using hp.1
        obtain ⟨i, hi, hi'⟩ := drainEventsFrom_settles hw.distinct hmem hk hknown
        have hlt : (pendingEdges (busDrainEvents c true)).card < (pendingEdges c).card :=
          Finset.card_lt_card ⟨ha.pending, fun h => hi' (h hi)⟩
        exact Or.inr (by omega)
      · exact Or.inl fun h => hk (ha.pending h)

/-- A slave that is new to the roster has nothing to announce. -/
theorem register_fresh (hd : Distinct r) {addr : UInt8} {class_id : UInt32} {flags : UInt8}
    (hnew : busRosterFind r addr = none)
    (hk : busRosterFind (busRosterRegister r addr class_id flags) addr = some k) :
    (busRosterRegister r addr class_id flags k).state = .unknown ∧
      (busRosterRegister r addr class_id flags k).announced_state = .unknown := by
  have hd' := register_distinct hd addr class_id flags
  obtain ⟨hplace, hreal⟩ := find_addr hk
  rcases register_cases r addr class_id flags with h | ⟨j, -, -, -, h⟩
  · rw [h, hnew] at hk
    cases hk
  · have hself : (busRosterRegister r addr class_id flags j).addr = addr := by
      rw [h, Function.update_self]
    have hjk : j = k := hd' j k (hself.symm ▸ hreal) (hself.trans hplace.symm)
    subst hjk
    rw [h, Function.update_self]
    exact ⟨rfl, rfl⟩

theorem boot_distinct : Distinct BusController.boot.roster := fun _ _ hi _ => absurd rfl hi

/-- From the registration of a slave on, as long as it stays registered, the host
is told its edges: they alternate, each is true when it is told, and none is lost. -/
theorem each_edge_is_told (before ops : List BusOp) (addr : UInt8) (class_id : UInt32)
    (flags : UInt8) (k : Fin BUS_ROSTER_MAX) (c0 c1 : BusController)
    (hbefore : runs busStep .boot before = some c0) (hnew : busRosterFind c0.roster addr = none)
    (hregister : busStep c0 (.register addr class_id flags) = some c1)
    (hk : busRosterFind c1.roster addr = some k) (hops : ∀ op ∈ ops, op.leaves addr = true) :
    Meets busStep (TruthfulStep k) c1 ops ∧
      ∀ c, runs busStep c1 ops = some c → TellsEdges k c1.log c ∧
        (c.enabled = true → ∀ c', runs busStep c drainAll = some c' →
          (c'.roster k).state = (c'.roster k).announced_state) := by
  have hd : Distinct c0.roster :=
    inv_runs (I := fun c => Distinct c.roster) (P := fun _ _ => True)
      (fun _ _ _ hd _ hstep => busStep_distinct hd hstep) boot_distinct
      (Meets.of_forall (fun _ _ => trivial) _ _) hbefore
  have hd1 := busStep_distinct hd hregister
  cases hregister
  obtain ⟨hplace, hreal⟩ := find_addr hk
  have hfresh := register_fresh hd hnew hk
  have hw : Watched k addr c0.log
      { c0 with roster := busRosterRegister c0.roster addr class_id flags } := by
    refine ⟨hplace, hreal, hd1, fun _ => hfresh.2, [], (List.append_nil _).symm, Alternates.nil,
      fun _ => rfl, fun h => ?_, fun _ => Or.inl rfl⟩
    exact absurd (hfresh.2.symm.trans h) BusState.noConfusion
  have hmeets := Meets.of_mem (f := busStep) (P := fun _ op => op.leaves addr = true)
    (fun op hop _ => hops op hop) { c0 with roster := busRosterRegister c0.roster addr class_id flags }
  refine ⟨meets_of_inv (fun _ _ _ hw hop hstep => busStep_watched hw hop hstep)
    (fun _ op hw _ => truthful_step hw op) hw hmeets, fun c hrun => ?_⟩
  have hend := inv_runs (fun _ _ _ hw hop hstep => busStep_watched hw hop hstep) hw hmeets hrun
  obtain ⟨since, hlog, htold⟩ := hend.told
  refine ⟨⟨?_, fun hs => ?_⟩, fun hon c' hdrain => ?_⟩
  · rw [hlog, List.drop_left, hend.place]
    exact htold.alternate
  · rw [hlog, List.drop_left, hend.place]
    exact htold.settled hs
  · refine drains_settle BUS_ROSTER_MAX hend hon (Or.inr ?_) hdrain
    exact (Finset.card_le_univ _).trans (by simp)

/-- A slave that misses a poll while the ring is full, and answers the next one. -/
def downAndUp : List BusOp :=
  [.setPoll 10 1 0, .pollEnable true, .engine true, .tick 20, .engine true, .drainEvents false,
    .drainEvents true, .tick 10, .engine true, .hear (txFrame 0 5 RS485_FT_NO_MESSAGE 2 [0]),
    .engine true, .drainEvents true]

set_option maxRecDepth 8000 in
/-- It goes down and comes up, and both edges are told. -/
theorem a_slave_goes_down_and_up :
    ∃ c1 c, busStep .boot (.register 5 7 BUS_FLAG_ENABLED) = some c1 ∧
      runs busStep c1 downAndUp = some c ∧ edgesOf 5 c.log = [.dead, .alive] ∧
      TellsEdges 0 c1.log c := by
  have hfacts : (busStep .boot (.register 5 7 BUS_FLAG_ENABLED)).map (fun c1 =>
      (busRosterFind c1.roster 5, (runs busStep c1 downAndUp).map fun c => edgesOf 5 c.log)) =
      some (some 0, some [.dead, .alive]) := by decide
  obtain ⟨c1, h1, hfacts⟩ := Option.map_eq_some_iff.mp hfacts
  simp only [Prod.mk.injEq] at hfacts
  obtain ⟨c, hc, hedges⟩ := Option.map_eq_some_iff.mp hfacts.2
  refine ⟨c1, c, h1, hc, hedges, ?_⟩
  exact ((each_edge_is_told [] downAndUp 5 7 BUS_FLAG_ENABLED 0 .boot c1 rfl (by decide) h1
    hfacts.1 (by decide)).2 c hc).1

end motioncore.bus
