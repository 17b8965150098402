-- The roster as a table: each address stands in it once, a refused command leaves it as it is,
-- and the polls go round its enabled slaves in order.
import MotionCore.Bus.EdgeRuns
import MotionCore.Lib.RoundRobin

open motioncore.bytes motioncore.machine

namespace motioncore.bus

/-! ## What the commands answer -/

/-- The result codes of a registration, `BUS_REG_*`. -/
inductive BusReg where
  | ok
  | full
  | dup
  | badaddr
deriving DecidableEq

/-- `bus_roster_count`, a counter of one byte. -/
def busRosterCount (r : BusRoster) : UInt8 :=
  (List.finRange BUS_ROSTER_MAX).foldl (fun n k => if (r k).addr ≠ 0 then n + 1 else n) 0

/-- `bus_roster_register` with its result code and the count. -/
def busRosterRegisterResult (r : BusRoster) (addr : UInt8) (class_id : UInt32) (flags : UInt8) :
    BusRoster × BusReg × UInt8 :=
  if addr = 0 ∨ addr = 0xFF then (r, .badaddr, busRosterCount r)
  else if (busRosterFind r addr).isSome then (r, .dup, busRosterCount r)
  else
    match (List.finRange BUS_ROSTER_MAX).find? fun k => (r k).addr == 0 with
    | none => (r, .full, busRosterCount r)
    | some k =>
      let r' := Function.update r k { BusSlave.empty with addr, class_id, flags }
      (r', .ok, busRosterCount r')

/-- `bus_roster_unregister` with its result and the count. -/
def busRosterUnregisterResult (r : BusRoster) (addr : UInt8) : BusRoster × Bool × UInt8 :=
  match busRosterFind r addr with
  | none => (r, false, busRosterCount r)
  | some k =>
    let r' := Function.update r k { r k with addr := 0 }
    (r', true, busRosterCount r')

/-! ## The count -/

variable (r : BusRoster)

/-- The counter does not run over: there are fewer places than it can count. -/
theorem count_eq : (busRosterCount r).toNat = (occupied r).length := by
  have hfold : ∀ (ks : List (Fin BUS_ROSTER_MAX)) (n : UInt8), n.toNat + ks.length < 256 →
      (ks.foldl (fun n k => if (r k).addr ≠ 0 then n + 1 else n) n).toNat =
        n.toNat + (ks.filter fun k => (r k).addr != 0).length := by
    intro ks
    induction ks with
    | nil => simp
    | cons k ks ih =>
      intro n hroom
      rw [List.length_cons] at hroom
      rw [List.foldl_cons]
      by_cases hk : (r k).addr = 0
      · rw [if_neg (by simpa using hk), ih n (by omega), List.filter_cons_of_neg (by simpa using hk)]
      · have hone : (n + 1).toNat = n.toNat + 1 := by
          rw [UInt8.toNat_add, UInt8.toNat_one, Nat.mod_eq_of_lt (by omega)]
        rw [if_pos hk, ih (n + 1) (by omega), List.filter_cons_of_pos (by simpa using hk), hone,
          List.length_cons]
        omega
  have hall := hfold (List.finRange BUS_ROSTER_MAX) 0 (by rw [List.length_finRange]; decide)
  rw [UInt8.toNat_zero, Nat.zero_add] at hall
  exact hall

theorem occupied_card :
    (occupied r).length = (Finset.univ.filter fun k => (r k).addr ≠ 0).card := by
  have hnodup : (occupied r).Nodup := (List.nodup_finRange _).filter _
  rw [← List.toFinset_card_of_nodup hnodup]
  congr 1
  ext k
  simp [occupied]

/-! ## Refusals -/

/-- What a registration answers, and what it does to the roster. -/
structure Registers (r : BusRoster) (addr : UInt8) (res : BusRoster × BusReg × UInt8) : Prop where
  bad : res.2.1 = .badaddr ↔ addr = 0 ∨ addr = 0xFF
  dup : res.2.1 = .dup ↔ ¬ (addr = 0 ∨ addr = 0xFF) ∧ ∃ k, (r k).addr = addr
  full : res.2.1 = .full ↔
    ¬ (addr = 0 ∨ addr = 0xFF) ∧ (∀ k, (r k).addr ≠ addr) ∧ ∀ k, (r k).addr ≠ 0
  /-- A refused slave leaves the roster as it is. -/
  refused : res.2.1 ≠ .ok → res.1 = r
  /-- Any other takes one free place. -/
  accepted : res.2.1 = .ok → ∃ k, (r k).addr = 0 ∧ (res.1 k).addr = addr ∧
    ∀ i, i ≠ k → res.1 i = r i
  count : res.2.2 = busRosterCount res.1

theorem exists_of_find {r : BusRoster} {addr : UInt8} (h : (busRosterFind r addr).isSome = true) :
    ∃ k, (r k).addr = addr := by
  obtain ⟨k, hk⟩ := Option.isSome_iff_exists.mp h
  exact ⟨k, (find_addr hk).1⟩

theorem register_registers (addr : UInt8) (class_id : UInt32) (flags : UInt8) :
    Registers r addr (busRosterRegisterResult r addr class_id flags) := by
  unfold busRosterRegisterResult
  split
  · rename_i hbad
    exact ⟨iff_of_true rfl hbad, iff_of_false nofun fun h => h.1 hbad,
      iff_of_false nofun fun h => h.1 hbad, fun _ => rfl, nofun, rfl⟩
  rename_i hgood
  split
  · rename_i hfind
    obtain ⟨k, hk⟩ := exists_of_find hfind
    exact ⟨iff_of_false nofun hgood, iff_of_true rfl ⟨hgood, k, hk⟩,
      iff_of_false nofun fun h => h.2.1 k hk, fun _ => rfl, nofun, rfl⟩
  rename_i hfind
  have hnew : ∀ k, (r k).addr ≠ addr :=
    not_mem_of_find_none (fun h => hgood (.inl h)) (by simpa using hfind)
  cases hfree : (List.finRange BUS_ROSTER_MAX).find? fun k => (r k).addr == 0 with
  | none =>
    have hfull : ∀ k, (r k).addr ≠ 0 := by simpa using hfree
    exact ⟨iff_of_false nofun hgood, iff_of_false nofun fun h => absurd h.2.choose_spec (hnew _),
      iff_of_true rfl ⟨hgood, hnew, hfull⟩, fun _ => rfl, nofun, rfl⟩
  | some k =>
    have hk : (r k).addr = 0 := by simpa using List.find?_some hfree
    refine ⟨iff_of_false nofun hgood, iff_of_false nofun fun h => absurd h.2.choose_spec (hnew _),
      iff_of_false nofun fun h => h.2.2 k hk, fun h => absurd rfl h, fun _ => ⟨k, hk, ?_, ?_⟩, rfl⟩
    · dsimp only
      rw [Function.update_self]
    · intro i hi
      exact Function.update_of_ne hi _ _

/-- What the removal of a slave answers, and what it does to the roster. -/
structure Unregisters (r : BusRoster) (addr : UInt8) (res : BusRoster × Bool × UInt8) : Prop where
  found : res.2.1 = true ↔ addr ≠ 0 ∧ ∃ k, (r k).addr = addr
  /-- A slave that is not there leaves the roster as it is. -/
  refused : res.2.1 = false → res.1 = r
  /-- Any other gives its place back. -/
  removed : res.2.1 = true → ∃ k, (r k).addr = addr ∧ (res.1 k).addr = 0 ∧
    ∀ i, i ≠ k → res.1 i = r i
  count : res.2.2 = busRosterCount res.1

theorem unregister_unregisters (addr : UInt8) :
    Unregisters r addr (busRosterUnregisterResult r addr) := by
  unfold busRosterUnregisterResult
  cases hfind : busRosterFind r addr with
  | none =>
    refine ⟨iff_of_false nofun ?_, fun _ => rfl, nofun, rfl⟩
    rintro ⟨hne, k, hk⟩
    exact not_mem_of_find_none hne hfind k hk
  | some k =>
    obtain ⟨hk, hne⟩ := find_addr hfind
    refine ⟨iff_of_true rfl ⟨hne, k, hk⟩, nofun, fun _ => ⟨k, hk, ?_, ?_⟩, rfl⟩
    · dsimp only
      rw [Function.update_self]
    · intro i hi
      exact Function.update_of_ne hi _ _

/-! ## The round of the polls -/

def enabledAt (r : BusRoster) (k : Fin BUS_ROSTER_MAX) : Bool :=
  (r k).addr != 0 && (r k).flags &&& BUS_FLAG_ENABLED != 0

/-- The slaves that are polled, in the order of their places. -/
def enabledSlaves (r : BusRoster) : List (Fin BUS_ROSTER_MAX) :=
  (List.finRange BUS_ROSTER_MAX).filter (enabledAt r)

/-- `bus_roster_next_enabled` with the cursor that it leaves. -/
def busRosterTurn (r : BusRoster) (cursor : Nat) : Option (Fin BUS_ROSTER_MAX) × Nat :=
  match busRosterNextEnabled r cursor with
  | none => (none, cursor)
  | some k => (some k, (k.val + 1) % BUS_ROSTER_MAX)

/-- Calls of it one after the other, on a roster that stays as it is. -/
def busRosterTurns (r : BusRoster) : Nat → Nat → List (Option (Fin BUS_ROSTER_MAX))
  | _, 0 => []
  | cursor, m + 1 => (busRosterTurn r cursor).1 :: busRosterTurns r (busRosterTurn r cursor).2 m

variable (cursor : Nat)

theorem nextEnabled_eq : busRosterNextEnabled r cursor = roundrobin.next (enabledAt r) cursor := by
  unfold busRosterNextEnabled roundrobin.next
  congr 1

theorem turn_eq : busRosterTurn r cursor = roundrobin.turn (enabledAt r) cursor := by
  unfold busRosterTurn roundrobin.turn
  rw [nextEnabled_eq]
  cases roundrobin.next (enabledAt r) cursor <;> rfl

theorem turns_eq (m : Nat) :
    busRosterTurns r cursor m = roundrobin.turns (enabledAt r) cursor m := by
  induction m generalizing cursor with
  | zero => rfl
  | succ m ih =>
    unfold busRosterTurns roundrobin.turns
    rw [turn_eq, ih]

/-! ## The roster of every run -/

/-- In every run the roster is a table of slaves with distinct addresses, and it counts them.
What is refused changes nothing. On every roster, and from every cursor, the turns go round the
enabled slaves in order, each once in a round, and take none exactly when there are none. -/
theorem roster_keeps_its_rounds :
    (∀ ops c, runs busStep .boot ops = some c → Distinct c.roster ∧
      (busRosterCount c.roster).toNat = (Finset.univ.filter fun k => (c.roster k).addr ≠ 0).card ∧
      (busRosterCount c.roster).toNat ≤ BUS_ROSTER_MAX) ∧
    (∀ r addr class_id flags, Registers r addr (busRosterRegisterResult r addr class_id flags)) ∧
    (∀ r addr, Unregisters r addr (busRosterUnregisterResult r addr)) ∧
    ∀ r cursor,
      (∃ start, ∀ m, busRosterTurns r cursor m = (List.range m).map fun i =>
        (enabledSlaves r)[(start + i) % (enabledSlaves r).length]?) ∧
      (busRosterTurns r cursor (enabledSlaves r).length).Perm ((enabledSlaves r).map some) ∧
      ((busRosterTurn r cursor).1 = none ↔ ∀ k, enabledAt r k = false) := by
  refine ⟨fun ops c hrun => ?_, register_registers, unregister_unregisters,
    fun r cursor => ⟨?_, ?_, ?_⟩⟩
  · have hd : Distinct c.roster :=
      inv_runs (I := fun c => Distinct c.roster) (P := fun _ _ => True)
        (fun _ _ _ hd _ hstep => busStep_distinct hd hstep) boot_distinct
        (Meets.of_forall (fun _ _ => trivial) _ _) hrun
    have hcount := count_eq c.roster
    refine ⟨hd, hcount.trans (occupied_card _), ?_⟩
    rw [hcount]
    have hle := List.length_filter_le (fun k => (c.roster k).addr != 0) (List.finRange BUS_ROSTER_MAX)
    simpa [occupied] using hle
  · refine ⟨roundrobin.passed (enabledAt r) cursor, fun m => ?_⟩
    rw [turns_eq]
    exact roundrobin.turns_eq (enabledAt r) cursor m
  · rw [turns_eq]
    refine (List.Perm.of_eq (roundrobin.circle_perm (enabledAt r) cursor)).trans ?_
    exact (List.rotate_perm _ _).map some
  · rw [turn_eq]
    exact roundrobin.turn_none_iff (enabledAt r) cursor

end motioncore.bus
