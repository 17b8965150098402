-- The gate of a tripped interlock (`cmd_tracker.h`): while the last flags of a
-- slave have bit 0 set, its queue is held. A send that takes the link down can
-- leave a slot waiting for a command that was never sent, and the gate then fails.
import MotionCore.Host.CommandRuns
import MotionCore.Host.CommandMoves

open motioncore.ring motioncore.machine motioncore.bus

namespace motioncore.host

/-! ## What was transmitted -/

/-- The handles of the commands that went on the wire for slot `i`. -/
def sentOf (i : Fin SLOT_MAX) (log : List Ev) : List Nat :=
  log.filterMap fun e =>
    match e with | .request _ (.slot j) x _ => if j = i then some x else none | _ => none

section

variable {i j : Fin SLOT_MAX} {x : Nat} {a b : List Ev}

@[simp] theorem sentOf_append : sentOf i (a ++ b) = sentOf i a ++ sentOf i b :=
  List.filterMap_append

@[simp] theorem sentOf_request (s : Nat) (f : LinkFrame) :
    sentOf i [.request s (.slot j) x f] = if j = i then [x] else [] := by
  by_cases h : j = i <;> simp [sentOf, h]

theorem sentOf_noCommand (h : ∀ e ∈ a, e.noCommand = true) : sentOf i a = [] := by
  apply List.filterMap_eq_nil_iff.mpr
  intro e he
  have := h e he
  cases e with
  | request s cb y f =>
    cases cb with
    | slot k => exact absurd this Bool.noConfusion
    | _ => rfl
  | _ => rfl

end

/-! ## A transmit -/

/-- The link takes the commands of the tracker, or refuses them, and does
nothing else. -/
structure PlainCommands (send : Send) : Prop where
  slots : ∀ h f, f.cmd = OP_BUS_EXEC → (send h f).1.slots = h.slots
  log : ∀ h f, f.cmd = OP_BUS_EXEC → ∃ new : List Ev, (send h f).1.log = h.log ++ new ∧
    ∀ e ∈ new, e.noCommand = true

/-- The log grows by a transmit of the command `x` of slot `i`, or, when none
went out, by nothing of the tracker. -/
def Wires (i : Fin SLOT_MAX) (x : Nat) (went : Bool) (log log' : List Ev) : Prop :=
  ∃ quiet, (∀ e ∈ quiet, e.noCommand = true) ∧
    (went = false ∧ log' = log ++ quiet ∨
      went = true ∧ ∃ s f, log' = log ++ quiet ++ [.request s (.slot i) x f])

variable {env : Env} {send : Send}

theorem busExec_spec (hs : PlainCommands send) (h : Host) (addr : UInt8)
    (command_id exec_timeout_ms : UInt16) (args : List UInt8) (i : Fin SLOT_MAX) (x : Nat) :
    let r := demuxSendBusExec send h addr command_id exec_timeout_ms args (.slot i) x
    r.1.slots = h.slots ∧ ∃ went, Wires i x went h.log r.1.log ∧
      (went = false → r.2 = NO_REQUEST) := by
  have hnone : ∃ went, Wires i x went h.log h.log ∧
      (went = false → NO_REQUEST = NO_REQUEST) :=
    ⟨false, ⟨[], by simp, Or.inl ⟨rfl, (List.append_nil _).symm⟩⟩, fun _ => rfl⟩
  unfold demuxSendBusExec demuxRequest
  dsimp only
  split
  · exact ⟨rfl, hnone⟩
  split
  · exact ⟨rfl, hnone⟩
  unfold sendFrameAddr
  generalize hr : send _ _ = r
  have hslots : r.1.slots = h.slots := by
    rw [← hr]
    exact hs.slots _ _ rfl
  obtain ⟨new, hlog, hnew⟩ : ∃ new : List Ev, r.1.log = h.log ++ new ∧
      ∀ e ∈ new, e.noCommand = true := by
    rw [← hr]
    exact hs.log _ _ rfl
  split
  · refine ⟨hslots, true, ⟨new, hnew, Or.inr ⟨rfl, ?_⟩⟩, fun h => absurd h Bool.noConfusion⟩
    exact ⟨_, _, congrArg (· ++ _) hlog⟩
  · exact ⟨hslots, false, ⟨new, hnew, Or.inl ⟨rfl, hlog⟩⟩, fun _ => rfl⟩

theorem sendInflight_transmits (hs : PlainCommands send) (h : Host) (i : Fin SLOT_MAX) :
    ∃ t rid went, (sendInflight send h i).1.slots =
        Function.update h.slots i ((h.slots i).afterSend (sendInflight send h i).2 t rid) ∧
      Wires i (h.slots i).inflight.handle went h.log (sendInflight send h i).1.log ∧
      ((sendInflight send h i).2 = true → went = true) := by
  obtain ⟨hslots, went, hlog, hwent⟩ := busExec_spec hs h (h.slots i).addr
    (h.slots i).inflight.command_id (wireTimeout (h.slots i).inflight.exec_timeout_ms)
    (h.slots i).inflight.args i (h.slots i).inflight.handle
  unfold sendInflight
  dsimp only
  generalize demuxSendBusExec send h _ _ _ _ _ _ = r at hslots hlog hwent ⊢
  refine ⟨r.1.now, r.2, went, ?_⟩
  split
  · refine ⟨?_, hlog, fun h => absurd h Bool.noConfusion⟩
    simp [Host.modSlot, Host.setSlot, hslots, Slot.afterSend]
  · rename_i hne
    refine ⟨?_, hlog, fun _ => ?_⟩
    · simp [Host.modSlot, Host.setSlot, hslots, Slot.afterSend]
    · cases went with
      | true => rfl
      | false => exact absurd (hwent rfl) hne

/-- What `pump_slot` does to an idle slot with a command in its queue. -/
structure Pumped (i : Fin SLOT_MAX) (h h' : Host) : Prop where
  others : ∀ j, j ≠ i → h'.slots j = h.slots j
  in_use : (h'.slots i).in_use = (h.slots i).in_use
  addr : (h'.slots i).addr = (h.slots i).addr
  faulted : (h'.slots i).faulted = (h.slots i).faulted
  log : ∃ went, Wires i (h.slots i).q.front.handle went h.log h'.log ∧
    (went = true ∧ (h'.slots i).inflight = (h.slots i).q.front ∧
        (h'.slots i).q = (h.slots i).q.pop ∨
      (h'.slots i).state = .idle ∧ (h'.slots i).q = (h.slots i).q)

variable {h : Host} {i : Fin SLOT_MAX}

theorem pumpSlot_pumps (hs : PlainCommands send) (hf : (h.slots i).faulted = false)
    (hst : (h.slots i).state = .idle) (hq : (h.slots i).q.count ≠ 0) :
    Pumped i h (pumpSlot send h i) := by
  have hgo : ¬ ((h.slots i).state ≠ .idle ∨ (h.slots i).q.count = 0) :=
    not_or.mpr ⟨not_not.mpr hst, hq⟩
  obtain ⟨t, rid, went, hslots, hlog, hwent⟩ := sendInflight_transmits hs (h.setSlot i
    { h.slots i with inflight := (h.slots i).q.front, has_inflight := true, retries := 0 }) i
  unfold pumpSlot
  dsimp only
  rw [if_neg (Bool.eq_false_iff.mp hf), if_neg hgo]
  generalize sendInflight send (h.setSlot i _) i = r at hslots hlog hwent ⊢
  obtain ⟨h', ok⟩ := r
  simp only [Host.setSlot, Function.update_self, Function.update_idem] at hslots hlog hwent
  unfold Host.modSlot Host.setSlot
  cases ok with
  | true =>
    simp only [if_true, hslots, Function.update_self, Function.update_idem]
    refine ⟨fun j hj => Function.update_of_ne hj _ _, ?_, ?_, ?_, went, hlog, Or.inl ?_⟩
    all_goals simp [Slot.afterSend, hwent]
  | false =>
    simp only [Bool.false_eq_true, if_false, hslots, Function.update_self, Function.update_idem]
    refine ⟨fun j hj => Function.update_of_ne hj _ _, ?_, ?_, ?_, went, hlog, Or.inr ?_⟩
    all_goals simp [Slot.afterSend, hst]

structure Resent (i : Fin SLOT_MAX) (h h' : Host) : Prop where
  others : ∀ j, j ≠ i → h'.slots j = h.slots j
  in_use : (h'.slots i).in_use = (h.slots i).in_use
  addr : (h'.slots i).addr = (h.slots i).addr
  faulted : (h'.slots i).faulted = (h.slots i).faulted
  q : (h'.slots i).q = (h.slots i).q
  inflight : (h'.slots i).inflight = (h.slots i).inflight
  log : ∃ went, Wires i (h.slots i).inflight.handle went h.log h'.log

theorem sendInflight_resends (hs : PlainCommands send) (h : Host) (i : Fin SLOT_MAX) :
    Resent i h (sendInflight send h i).1 := by
  obtain ⟨t, rid, went, hslots, hlog, -⟩ := sendInflight_transmits hs h i
  have hslot : (sendInflight send h i).1.slots i =
      (h.slots i).afterSend (sendInflight send h i).2 t rid := by
    rw [hslots, Function.update_self]
  refine ⟨fun j hj => ?_, ?_, ?_, ?_, ?_, ?_, went, hlog⟩
  · rw [hslots, Function.update_of_ne hj]
  all_goals
    rw [hslot]
    unfold Slot.afterSend
    split <;> rfl

/-! ## A busy slot has sent its command -/

/-- The command that a busy slot waits for has been on the wire. -/
def SentBefore (h : Host) : Prop :=
  ∀ i, (h.slots i).state ≠ .idle → (h.slots i).inflight.handle ∈ sentOf i h.log

variable {h' : Host} {l : List Ev}

theorem SentBefore.grow (hb : SentBefore h) (hslots : h'.slots = h.slots)
    (hlog : h'.log = h.log ++ l) : SentBefore h' := by
  intro i hi
  rw [hslots] at hi ⊢
  rw [hlog, sentOf_append]
  exact List.mem_append_left _ (hb i hi)

theorem SentBefore.update (hb : SentBefore h) (hothers : ∀ j, j ≠ i → h'.slots j = h.slots j)
    (hlog : h'.log = h.log ++ l)
    (hi : (h'.slots i).state ≠ .idle → (h'.slots i).inflight.handle ∈ sentOf i h'.log) :
    SentBefore h' := by
  intro j hj
  by_cases hji : j = i
  · subst hji
    exact hi hj
  · rw [hothers j hji] at hj ⊢
    rw [hlog, sentOf_append]
    exact List.mem_append_left _ (hb j hj)

theorem SentBefore.setSlot (hb : SentBefore h) (i : Fin SLOT_MAX) {s : Slot}
    (hs : s.state ≠ .idle → (h.slots i).state ≠ .idle ∧ s.inflight = (h.slots i).inflight) :
    SentBefore (h.setSlot i s) := by
  refine hb.update (i := i) (l := []) (fun j hj => Function.update_of_ne hj _ _)
    (List.append_nil _).symm ?_
  simp only [Host.setSlot, Function.update_self]
  intro hst
  obtain ⟨hbusy, hin⟩ := hs hst
  rw [hin]
  exact hb i hbusy

theorem Wires.grows {x : Nat} {went : Bool} {log log' : List Ev} (h : Wires i x went log log') :
    ∃ new, log' = log ++ new := by
  obtain ⟨quiet, -, ⟨-, hlog⟩ | ⟨-, s, f, hlog⟩⟩ := h
  · exact ⟨quiet, hlog⟩
  · exact ⟨quiet ++ [.request s (.slot i) x f], by rw [hlog, List.append_assoc]⟩

theorem Wires.mem {x : Nat} {log log' : List Ev} (h : Wires i x true log log') :
    x ∈ sentOf i log' := by
  obtain ⟨quiet, -, ⟨hwent, -⟩ | ⟨-, s, f, hlog⟩⟩ := h
  · exact absurd hwent Bool.noConfusion
  · rw [hlog]
    simp

theorem sentBefore_moves (hs : PlainCommands send)
    (hsends : ∀ h f, SentBefore h → SentBefore (send h f).1) : TrackerMoves send SentBefore where
  same hb hslots hlog := hb.grow (l := []) hslots (by rw [hlog, List.append_nil])
  note h e _ hb := hb.grow (l := [e]) rfl rfl
  touch _ i _ ht hb := hb.setSlot i fun hst => ⟨ht.state hst, ht.inflight⟩
  push _ i _ hb := hb.setSlot i fun hst => ⟨hst, rfl⟩
  pump h i hf hst hq hb := by
    have hp := pumpSlot_pumps hs hf hst hq
    obtain ⟨went, hlog, hcase⟩ := hp.log
    obtain ⟨new, hnew⟩ := hlog.grows
    refine hb.update hp.others hnew fun hbusy => ?_
    rcases hcase with ⟨rfl, hin, -⟩ | ⟨hidle, -⟩
    · rw [hin]
      exact hlog.mem
    · exact absurd hidle hbusy
  resend h i hst hb := by
    have hr := sendInflight_resends hs h i
    obtain ⟨went, hlog⟩ := hr.log
    obtain ⟨new, hnew⟩ := hlog.grows
    refine hb.update hr.others hnew fun _ => ?_
    rw [hr.inflight, hnew, sentOf_append]
    refine List.mem_append_left _ (hb i ?_)
    rw [hst]
    exact SlotState.noConfusion
  sends := hsends

theorem sentBefore_addSlave (hb : SentBefore h) (addr : UInt8) :
    SentBefore (cmdTrackerAddSlave h addr) := by
  unfold cmdTrackerAddSlave
  split
  · exact hb
  split
  · exact hb
  · exact (hb.setSlot _ fun hne => absurd rfl hne).grow (l := [.cleared _]) rfl rfl

/-- The flags of a slave and the changes of a reset leave it so. -/
theorem sentBefore_resets (hm : TrackerMoves send SentBefore) :
    ResetMoves send (fun e => e.noCommand = true) SentBefore where
  toCommandMoves := hm.moves
  flags _ i _ _ _ hb := hb.setSlot i fun hst => ⟨hst, rfl⟩
  pop _ i hb := hb.setSlot i fun hst => ⟨hst, rfl⟩
  clear _ i _ hst _ _ hb := hb.setSlot i fun hne => absurd hst hne

/-! ## The gate -/

/-- Since the state `g` no command of slot `i` was transmitted for the first
time, and its queue has only grown at the end. -/
structure Kept (i : Fin SLOT_MAX) (g h : Host) : Prop where
  queue : (g.slots i).q.contents <+: (h.slots i).q.contents
  silent : ∃ new, h.log = g.log ++ new ∧ ∀ x ∈ sentOf i new, x ∈ sentOf i g.log

/-- Since the state `g` the head of the queue of slot `i` went out, and no
other command of the slot was transmitted for the first time before it. -/
def HeadFirst (i : Fin SLOT_MAX) (g h : Host) : Prop :=
  ∀ e rest, (g.slots i).q.contents = e :: rest → ∃ l l' s f,
    h.log = g.log ++ (l ++ .request s (.slot i) e.handle f :: l') ∧
      ∀ x ∈ sentOf i l, x ∈ sentOf i g.log

theorem Kept.refl (i : Fin SLOT_MAX) (g : Host) : Kept i g g :=
  ⟨List.prefix_refl _, [], (List.append_nil _).symm, by simp [sentOf]⟩

variable {g : Host}

theorem Kept.grow (hk : Kept i g h) (hqueue : (h.slots i).q.contents <+: (h'.slots i).q.contents)
    (hlog : h'.log = h.log ++ l) (hnew : ∀ x ∈ sentOf i l, x ∈ sentOf i h.log) : Kept i g h' := by
  obtain ⟨past, hpast, hsilent⟩ := hk.silent
  refine ⟨hk.queue.trans hqueue, past ++ l, by rw [hlog, hpast, List.append_assoc], ?_⟩
  intro x hx
  rw [sentOf_append, List.mem_append] at hx
  rcases hx with hx | hx
  · exact hsilent x hx
  · have hmem := hnew x hx
    rw [hpast, sentOf_append, List.mem_append] at hmem
    exact hmem.elim id (hsilent x)

theorem HeadFirst.grow (hf : HeadFirst i g h) {m : List Ev} (hlog : h'.log = h.log ++ m) :
    HeadFirst i g h' := by
  intro e rest hq
  obtain ⟨l, l', s, f, hl, hsilent⟩ := hf e rest hq
  refine ⟨l, l' ++ m, s, f, ?_, hsilent⟩
  rw [hlog, hl]
  simp

theorem Kept.headFirst (hk : Kept i g h) (hq : (h.slots i).q.count ≠ 0)
    (hlog : Wires i (h.slots i).q.front.handle true h.log h'.log) : HeadFirst i g h' := by
  intro e rest hcontents
  obtain ⟨past, hpast, hsilent⟩ := hk.silent
  obtain ⟨quiet, hquiet, ⟨hwent, -⟩ | ⟨-, s, f, hl⟩⟩ := hlog
  · exact absurd hwent Bool.noConfusion
  have hfront : (h.slots i).q.front = e := by
    obtain ⟨tail, htail⟩ := hk.queue
    rw [hcontents, Ring.contents_eq_cons hq] at htail
    exact (List.cons.inj htail).1.symm
  refine ⟨past ++ quiet, [], s, f, ?_, ?_⟩
  · rw [hl, hpast, hfront]
    simp
  · rw [sentOf_append, sentOf_noCommand hquiet, List.append_nil]
    exact hsilent

/-- The state of the slave `addr` since the state `g`. It is held while its flags
are set; with `C` its flags may have been cleared. -/
structure Gate (C : Prop) (g : Host) (addr : UInt8) (i : Fin SLOT_MAX) (h : Host) : Prop where
  slot : h.slotFor addr = some i
  sent : SentBefore h
  gate : (C ∨ (h.slots i).faulted = true) ∧ Kept i g h ∨ C ∧ HeadFirst i g h

theorem slotFor_congr
    (hsame : ∀ j, (h'.slots j).in_use = (h.slots j).in_use ∧ (h'.slots j).addr = (h.slots j).addr)
    (addr : UInt8) : h'.slotFor addr = h.slotFor addr := by
  unfold Host.slotFor
  congr 1
  funext j
  rw [(hsame j).1, (hsame j).2]

theorem contents_grows {α : Type} {cap : Nat} {r r' : Ring α cap} (h : r' = r) :
    r.contents <+: r'.contents := by
  subst h
  exact List.prefix_refl _

theorem contents_push_grows {α : Type} {cap : Nat} (r : Ring α cap) (a : α) :
    r.contents <+: (r.push a).contents := by
  by_cases h : r.count < cap
  · rw [Ring.contents_push a h]
    exact List.prefix_append _ _
  · exact contents_grows (dif_neg h)

section

variable {C : Prop} {g h h' : Host} {addr : UInt8} {i : Fin SLOT_MAX}

/-- A change that leaves the slot of the slave alone, but for its queue, and
transmits nothing new for it. -/
theorem Gate.grow (hg : Gate C g addr i h) {l : List Ev}
    (hsame : ∀ j, (h'.slots j).in_use = (h.slots j).in_use ∧ (h'.slots j).addr = (h.slots j).addr)
    (hsent : SentBefore h') (hfaulted : (h'.slots i).faulted = (h.slots i).faulted)
    (hqueue : (h.slots i).q.contents <+: (h'.slots i).q.contents) (hlog : h'.log = h.log ++ l)
    (hnew : ∀ x ∈ sentOf i l, x ∈ sentOf i h.log) : Gate C g addr i h' where
  slot := by rw [slotFor_congr hsame, hg.slot]
  sent := hsent
  gate := by
    rcases hg.gate with ⟨hf, hk⟩ | ⟨hc, hh⟩
    · rw [hfaulted]
      exact Or.inl ⟨hf, hk.grow hqueue hlog hnew⟩
    · exact Or.inr ⟨hc, hh.grow hlog⟩

variable {j : Fin SLOT_MAX}

theorem Gate.other (hg : Gate C g addr i h) (hji : j ≠ i)
    (hothers : ∀ k, k ≠ j → h'.slots k = h.slots k)
    (hsame : (h'.slots j).in_use = (h.slots j).in_use ∧ (h'.slots j).addr = (h.slots j).addr)
    (hsent : SentBefore h') {l : List Ev} (hlog : h'.log = h.log ++ l) (hnew : sentOf i l = []) :
    Gate C g addr i h' := by
  have hi := hothers i hji.symm
  refine hg.grow ?_ hsent ?_ ?_ hlog ?_
  · intro k
    by_cases hk : k = j
    · subst hk
      exact hsame
    · rw [hothers k hk]
      exact ⟨rfl, rfl⟩
  · rw [hi]
  · exact contents_grows (congrArg Slot.q hi)
  · rw [hnew]
    simp

theorem Wires.other (hji : j ≠ i) {x : Nat} {went : Bool} {log log' : List Ev}
    (h : Wires j x went log log') : ∃ new, log' = log ++ new ∧ sentOf i new = [] := by
  obtain ⟨quiet, hquiet, ⟨-, hlog⟩ | ⟨-, s, f, hlog⟩⟩ := h
  · exact ⟨quiet, hlog, sentOf_noCommand hquiet⟩
  · refine ⟨quiet ++ [.request s (.slot j) x f], by rw [hlog, List.append_assoc], ?_⟩
    rw [sentOf_append, sentOf_noCommand hquiet, sentOf_request, if_neg hji]
    rfl

theorem same_of_update (hothers : ∀ k, k ≠ j → h'.slots k = h.slots k)
    (hsame : (h'.slots j).in_use = (h.slots j).in_use ∧ (h'.slots j).addr = (h.slots j).addr)
    (k : Fin SLOT_MAX) :
    (h'.slots k).in_use = (h.slots k).in_use ∧ (h'.slots k).addr = (h.slots k).addr := by
  by_cases hk : k = j
  · subst hk
    exact hsame
  · rw [hothers k hk]
    exact ⟨rfl, rfl⟩

/-- An open gate: the pump sends the head of the queue, or leaves the queue as it is. -/
theorem Gate.pumped (hg : Gate C g addr i h) (hopen : C ∨ (h.slots i).faulted = true → C)
    (hq : (h.slots i).q.count ≠ 0) (hp : Pumped i h h') (hsent : SentBefore h') :
    Gate C g addr i h' where
  slot := by rw [slotFor_congr (same_of_update hp.others ⟨hp.in_use, hp.addr⟩), hg.slot]
  sent := hsent
  gate := by
    obtain ⟨went, hlog, hcase⟩ := hp.log
    rcases hg.gate with ⟨hf, hk⟩ | ⟨hc, hh⟩
    · have hc := hopen hf
      cases went with
      | true => exact Or.inr ⟨hc, hk.headFirst hq hlog⟩
      | false =>
        rcases hcase with ⟨hwent, -⟩ | ⟨-, hqueue⟩
        · exact absurd hwent Bool.noConfusion
        · obtain ⟨quiet, hquiet, ⟨-, hl⟩ | ⟨hwent, -⟩⟩ := hlog
          · refine Or.inl ⟨Or.inl hc, hk.grow (contents_grows hqueue) hl ?_⟩
            rw [sentOf_noCommand hquiet]
            simp
          · exact absurd hwent Bool.noConfusion
    · obtain ⟨new, hnew⟩ := hlog.grows
      exact Or.inr ⟨hc, hh.grow hnew⟩

end

variable {addr : UInt8} {C : Prop}

theorem gate_moves (hs : PlainCommands send) (hm : TrackerMoves send SentBefore)
    (hsends : ∀ h f, Gate C g addr i h → Gate C g addr i (send h f).1) :
    TrackerMoves send (Gate C g addr i) where
  same hg hslots hlog := by
    refine hg.grow (l := []) (fun j => ?_) (hm.same hg.sent hslots hlog) ?_ ?_ ?_ (by simp [sentOf])
    all_goals simp [hslots, hlog]
  note h e he hg := by
    refine hg.grow (l := [e]) (fun j => ⟨rfl, rfl⟩) (hm.note h e he hg.sent) rfl
      (List.prefix_refl _) rfl ?_
    rw [sentOf_noCommand (a := [e]) (by simpa using he)]
    simp
  touch h j s ht hg := by
    have hothers : ∀ k, k ≠ j → (h.setSlot j s).slots k = h.slots k :=
      fun k hk => Function.update_of_ne hk _ _
    have hj : (h.setSlot j s).slots j = s := Function.update_self ..
    refine hg.grow (l := []) (same_of_update hothers ?_) (hm.touch h j s ht hg.sent) ?_ ?_
      (List.append_nil _).symm (by simp [sentOf])
    · rw [hj]
      exact ⟨ht.in_use, ht.addr⟩
    · by_cases hji : j = i
      · rw [← hji, hj, ht.faulted]
      · rw [hothers i (Ne.symm hji)]
    · by_cases hji : j = i
      · subst hji
        exact contents_grows (by rw [hj, ht.q])
      · exact contents_grows (congrArg Slot.q (hothers i (Ne.symm hji)))
  push h j e hg := by
    have hothers : ∀ k, k ≠ j →
        (h.modSlot j fun s => { s with q := s.q.push e }).slots k = h.slots k :=
      fun k hk => Function.update_of_ne hk _ _
    have hj : (h.modSlot j fun s => { s with q := s.q.push e }).slots j =
        { h.slots j with q := (h.slots j).q.push e } := Function.update_self ..
    refine hg.grow (l := []) (same_of_update hothers ?_) (hm.push h j e hg.sent) ?_ ?_
      (List.append_nil _).symm (by simp [sentOf])
    · rw [hj]
      exact ⟨rfl, rfl⟩
    · by_cases hji : j = i
      · rw [← hji, hj]
      · rw [hothers i (Ne.symm hji)]
    · by_cases hji : j = i
      · rw [← hji, hj]
        exact contents_push_grows _ e
      · exact contents_grows (congrArg Slot.q (hothers i (Ne.symm hji)))
  pump h j hf hst hq hg := by
    have hp := pumpSlot_pumps hs hf hst hq
    have hsent := hm.pump h j hf hst hq hg.sent
    by_cases hji : j = i
    · subst hji
      refine hg.pumped (fun hor => ?_) hq hp hsent
      rcases hor with hc | hfault
      · exact hc
      · rw [hf] at hfault
        exact absurd hfault Bool.noConfusion
    · obtain ⟨went, hlog, -⟩ := hp.log
      obtain ⟨new, hnew, hnone⟩ := hlog.other hji
      exact hg.other hji hp.others ⟨hp.in_use, hp.addr⟩ hsent hnew hnone
  resend h j hst hg := by
    have hr := sendInflight_resends hs h j
    have hsent := hm.resend h j hst hg.sent
    obtain ⟨went, hlog⟩ := hr.log
    by_cases hji : j = i
    · subst hji
      have hbusy : (h.slots j).inflight.handle ∈ sentOf j h.log := by
        apply hg.sent
        rw [hst]
        exact SlotState.noConfusion
      have hold : ∃ new, (sendInflight send h j).1.log = h.log ++ new ∧
          ∀ x ∈ sentOf j new, x ∈ sentOf j h.log := by
        obtain ⟨quiet, hquiet, ⟨-, hl⟩ | ⟨-, s, f, hl⟩⟩ := hlog
        · exact ⟨quiet, hl, by simp [sentOf_noCommand hquiet]⟩
        · refine ⟨quiet ++ [.request s (.slot j) (h.slots j).inflight.handle f],
            by rw [hl, List.append_assoc], ?_⟩
          simpa [sentOf_noCommand hquiet] using hbusy
      obtain ⟨new, hnew, hmem⟩ := hold
      exact hg.grow (same_of_update hr.others ⟨hr.in_use, hr.addr⟩) hsent hr.faulted
        (contents_grows hr.q) hnew hmem
    · obtain ⟨new, hnew, hnone⟩ := hlog.other hji
      exact hg.other hji hr.others ⟨hr.in_use, hr.addr⟩ hsent hnew hnone
  sends := hsends

/-- The flags of a slave. Only flags without bit 0 open the gate of their slave. -/
theorem gate_flagged (hm : TrackerMoves send SentBefore) (hg' : TrackerMoves send (Gate C g addr i))
    (hg : Gate C g addr i h) (a flags : UInt8) (hopen : a = addr → C ∨ flags &&& 1 ≠ 0) :
    Gate C g addr i (cmdTrackerOnFlagged send h a flags) := by
  have hsent := (sentBefore_resets hm).onFlagged hg.sent a flags
  unfold cmdTrackerOnFlagged
  split
  · exact hg
  rename_i j hj
  have haddr : (h.slots j).addr = a := by
    have := List.find?_some hj
    simp only [Bool.and_eq_true, beq_iff_eq] at this
    exact this.2
  have hset : Gate C g addr i (h.setSlot j { h.slots j with
      il_known := true, il_flags := flags, faulted := flags &&& 1 != 0 }) := by
    have hothers : ∀ k, k ≠ j → (h.setSlot j { h.slots j with
        il_known := true, il_flags := flags, faulted := flags &&& 1 != 0 }).slots k = h.slots k :=
      fun k hk => Function.update_of_ne hk _ _
    have hself : (h.setSlot j { h.slots j with
        il_known := true, il_flags := flags, faulted := flags &&& 1 != 0 }).slots j =
        { h.slots j with il_known := true, il_flags := flags, faulted := flags &&& 1 != 0 } :=
      Function.update_self ..
    have hbefore : SentBefore (h.setSlot j { h.slots j with
        il_known := true, il_flags := flags, faulted := flags &&& 1 != 0 }) := by
      refine hg.sent.update (l := []) hothers (List.append_nil _).symm ?_
      rw [hself]
      exact hg.sent j
    have hsame := same_of_update (j := j) hothers (by rw [hself]; exact ⟨rfl, rfl⟩)
    by_cases hji : j = i
    · subst hji
      have ha : a = addr := by
        have hi := List.find?_some hg.slot
        simp only [Bool.and_eq_true, beq_iff_eq] at hi
        rw [← haddr, hi.2]
      refine ⟨by rw [slotFor_congr hsame, hg.slot], hbefore, ?_⟩
      rcases hg.gate with ⟨-, hk⟩ | ⟨hc, hh⟩
      · refine Or.inl ⟨?_, hk.grow (l := []) (contents_grows (by rw [hself]))
          (List.append_nil _).symm (by simp [sentOf])⟩
        rw [hself]
        simpa using hopen ha
      · exact Or.inr ⟨hc, hh⟩
    · exact hg.other hji hothers (hsame j) hbefore (l := []) (List.append_nil _).symm rfl
  exact ite_keeps (hg'.moves.pumpSlot hset j) hset

theorem gate_addSlave (hg : Gate C g addr i h) (a : UInt8) :
    Gate C g addr i (cmdTrackerAddSlave h a) := by
  have hsent := sentBefore_addSlave hg.sent a
  unfold cmdTrackerAddSlave at hsent ⊢
  split at hsent
  · exact hg
  rename_i hnone
  split at hsent
  · exact hg
  rename_i j hj
  have hfree : (h.slots j).in_use = false := by simpa using List.find?_some hj
  have hi := List.find?_some hg.slot
  simp only [Bool.and_eq_true, beq_iff_eq] at hi
  have hji : j ≠ i := by
    rintro rfl
    rw [hi.1] at hfree
    exact absurd hfree Bool.noConfusion
  have ha : addr ≠ a := by
    rintro rfl
    rw [hg.slot] at hnone
    cases hnone
  have hothers : ∀ k, k ≠ j → (h.setSlot j { Slot.cleared with in_use := true, addr := a }).slots k =
      h.slots k := fun k hk => Function.update_of_ne hk _ _
  refine ⟨?_, hsent, ?_⟩
  · rw [← hg.slot]
    unfold Host.slotFor
    congr 1
    funext k
    by_cases hk : k = j
    · subst hk
      simp [Host.note, Host.setSlot, hfree, Ne.symm ha]
    · simp [Host.note, Host.setSlot, Function.update_of_ne hk]
  · have hslot : ((h.setSlot j { Slot.cleared with in_use := true, addr := a }).note
        (.cleared j)).slots i = h.slots i := hothers i hji.symm
    rw [hslot]
    rcases hg.gate with ⟨hf, hk⟩ | ⟨hc, hh⟩
    · refine Or.inl ⟨hf, hk.grow (l := [.cleared j]) (contents_grows (congrArg Slot.q hslot)) rfl ?_⟩
      simp [sentOf]
    · exact Or.inr ⟨hc, hh.grow (m := [.cleared j]) rfl⟩

/-! ## Every run -/

/-- No send of a command takes the link down before it returns. -/
def Env.CommandsNeverDrop (env : Env) : Prop :=
  ∀ n f, f.cmd = OP_BUS_EXEC → env.link_send n f ≠ .queuedThenDown

theorem linkClosed_commands : PlainCommands linkClosed :=
  ⟨fun _ _ _ => rfl, fun _ _ _ => ⟨[], (List.append_nil _).symm, by simp⟩⟩

theorem linkSend_commands (henv : env.CommandsNeverDrop) : PlainCommands (linkSend env) := by
  have hcases : ∀ h f, f.cmd = OP_BUS_EXEC → (linkSend env h f).1.slots = h.slots ∧
      ∃ new : List Ev, (linkSend env h f).1.log = h.log ++ new ∧
        ∀ e ∈ new, e.noCommand = true := by
    intro h f hcmd
    unfold linkSend
    split
    · exact ⟨rfl, [], (List.append_nil _).symm, by simp⟩
    dsimp only
    split
    · exact ⟨rfl, [], (List.append_nil _).symm, by simp⟩
    · exact ⟨rfl, [.queued f], rfl, by simp [Ev.noCommand]⟩
    · rename_i hdrop
      exact absurd hdrop (henv h.sends f hcmd)
  exact ⟨fun h f hf => (hcases h f hf).1, fun h f hf => (hcases h f hf).2⟩

theorem closed_sentBefore : TrackerMoves linkClosed SentBefore :=
  sentBefore_moves linkClosed_commands fun _ _ hb => hb

theorem link_sentBefore (henv : env.CommandsNeverDrop) : TrackerMoves (linkSend env) SentBefore :=
  sentBefore_moves (linkSend_commands henv) fun h f hb => linkSend_sends closed_sentBefore h f hb

theorem closed_gate (C : Prop) (g : Host) (addr : UInt8) (i : Fin SLOT_MAX) :
    TrackerMoves linkClosed (Gate C g addr i) :=
  gate_moves linkClosed_commands closed_sentBefore fun _ _ hg => hg

theorem link_gate (henv : env.CommandsNeverDrop) (C : Prop) (g : Host) (addr : UInt8)
    (i : Fin SLOT_MAX) : TrackerMoves (linkSend env) (Gate C g addr i) :=
  gate_moves (linkSend_commands henv) (link_sentBefore henv) fun h f hg =>
    linkSend_sends (closed_gate C g addr i) h f hg

theorem step_sentBefore (henv : env.CommandsNeverDrop) (hb : SentBefore h) {op : Op}
    (hstep : step env h op = some h') : SentBefore h' := by
  have hm := link_sentBefore henv
  refine hm.step closed_sentBefore hb ?_ ?_ ?_ hstep
  · intro f addr flags _ _
    exact (sentBefore_resets hm).onFlagged hb addr flags
  · intro addr _
    exact sentBefore_addSlave hb addr
  · rintro fuel r rfl
    exact (sentBefore_resets hm).attachRoster hb hstep

/-- The op reports flags of the slave `addr` without bit 0. -/
def Op.clears (addr : UInt8) : Op → Bool
  | .frame f => (flagsOf f).any fun r => r.1 == addr && r.2 &&& 1 == 0
  | _ => false

/-- A step that resets nothing keeps the gate. Without `C` it must not clear the
flags of the slave. -/
theorem step_gate (henv : env.CommandsNeverDrop) (hg : Gate C g addr i h) {op : Op}
    (hreset : op.resets = false) (hclear : C ∨ op.clears addr = false)
    (hstep : step env h op = some h') : Gate C g addr i h' := by
  have hm := link_gate henv C g addr i
  refine hm.step (closed_gate C g addr i) hg ?_ ?_ ?_ hstep
  · rintro f a flags rfl hflags
    refine gate_flagged (link_sentBefore henv) hm hg a flags fun ha => ?_
    refine hclear.imp_right fun hc => ?_
    simpa [Op.clears, hflags, ha] using hc
  · intro a _
    exact gate_addSlave hg a
  · rintro fuel r rfl
    exact absurd hreset Bool.noConfusion

/-- A frame with flags gives them to the tracker, and else changes only what the
controller keeps for itself. -/
theorem onLinkFrame_flags {f : LinkFrame} {flags : UInt8} (hf : flagsOf f = some (addr, flags))
    (h : Host) : SameCore (cmdTrackerOnFlagged send h addr flags) (onLinkFrame env send h f) := by
  unfold flagsOf at hf
  split at hf
  · rename_i hcmd
    obtain ⟨hcmd, hlen⟩ := hcmd
    cases hf
    have hnot : f.cmd ≠ OP_SHELL_REPLY := by rcases hcmd with hc | hc <;> rw [hc] <;> decide
    rw [onLinkFrame, if_neg hnot]
    unfold onEvent
    rcases hcmd with hc | hc
    · simp only [hc, hlen, if_true]
      exact evqPush_core _ _
    · simp only [hc, hlen, if_true]
      constructor <;> rfl
  · cases hf

/-- Flags with bit 0 close the gate, and send nothing. -/
theorem gate_closes (hb : SentBefore g) {flags : UInt8} (hslot : g.slotFor addr = some i)
    (hset : flags &&& 1 ≠ 0) : Gate False g addr i (cmdTrackerOnFlagged send g addr flags) := by
  have htripped : (flags &&& 1 != 0) = true := by simpa using hset
  have hclosed : cmdTrackerOnFlagged send g addr flags = g.setSlot i { g.slots i with
      il_known := true, il_flags := flags, faulted := true } := by
    simp [cmdTrackerOnFlagged, hslot, htripped]
  rw [hclosed]
  have hothers : ∀ k, k ≠ i → (g.setSlot i { g.slots i with
      il_known := true, il_flags := flags, faulted := true }).slots k = g.slots k :=
    fun k hk => Function.update_of_ne hk _ _
  have hself : (g.setSlot i { g.slots i with
      il_known := true, il_flags := flags, faulted := true }).slots i =
      { g.slots i with il_known := true, il_flags := flags, faulted := true } :=
    Function.update_self ..
  refine ⟨?_, ?_, Or.inl ⟨Or.inr (by rw [hself]), ?_⟩⟩
  · rw [slotFor_congr (same_of_update hothers (by rw [hself]; exact ⟨rfl, rfl⟩)), hslot]
  · refine hb.update (l := []) hothers (List.append_nil _).symm ?_
    rw [hself]
    exact hb i
  · exact (Kept.refl i g).grow (l := []) (contents_grows (by rw [hself]))
      (List.append_nil _).symm (by simp [sentOf])

/-- Once the flags of the slave are clear, the head of its queue is the next
command that is transmitted, however the run goes on. -/
def NextIsHead (env : Env) (addr : UInt8) (i : Fin SLOT_MAX) (h : Host) : Prop :=
  ∀ f flags later h', flagsOf f = some (addr, flags) → flags &&& 1 = 0 →
    (∀ op ∈ later, op.resets = false) → runs (step env) h (.frame f :: later) = some h' →
      Kept i h h' ∨ HeadFirst i h h'

/-- The gate of a tripped slave, over every run: from the flags that trip it to
the ones that clear it, its queue is held. A reset drops the queue and the flags. -/
def HoldsQueue (env : Env) : Prop :=
  ∀ before after f addr flags i g h, runs (step env) .create before = some g →
    g.slotFor addr = some i → flagsOf f = some (addr, flags) → flags &&& 1 ≠ 0 →
    (∀ op ∈ after, op.resets = false ∧ op.clears addr = false) →
    runs (step env) g (.frame f :: after) = some h → Kept i g h ∧ NextIsHead env addr i h

/-- When no send of a command takes the link down before it returns, the queue
of a tripped slave is held. -/
theorem a_tripped_slave_is_held {env : Env} (henv : env.CommandsNeverDrop) : HoldsQueue env := by
  intro before after f addr flags i g h hbefore hslot hf hset hafter hrun
  have hb : SentBefore g := by
    refine inv_runs (P := fun _ _ => True) ?_ ?_ (Meets.of_forall (fun _ _ => trivial) _ _) hbefore
    · exact fun h op h' hb _ hstep => step_sentBefore henv hb hstep
    · exact fun i hi => absurd rfl hi
  simp only [runs_cons, step, Option.bind_some] at hrun
  have hclosed : Gate False g addr i (onLinkFrame env (linkSend env) g f) := by
    have hcore : SameCore _ (onLinkFrame env (linkSend env) g f) := onLinkFrame_flags hf g
    exact (link_gate henv False g addr i).same (gate_closes hb hslot hset) hcore.slots hcore.log
  have hend : Gate False g addr i h := by
    refine inv_runs (P := fun _ op => op.resets = false ∧ op.clears addr = false) ?_ hclosed
      (Meets.of_mem (fun op hop _ => hafter op hop) _) hrun
    exact fun h op h' hg hok hstep => step_gate henv hg hok.1 (Or.inr hok.2) hstep
  refine ⟨?_, ?_⟩
  · rcases hend.gate with ⟨-, hk⟩ | ⟨hc, -⟩
    · exact hk
    · exact hc.elim
  · intro f' flags' later h' _ _ hlater hrun'
    have hstart : Gate True h addr i h :=
      ⟨hend.slot, hend.sent, Or.inl ⟨Or.inl trivial, Kept.refl i h⟩⟩
    have hlast : Gate True h addr i h' := by
      refine inv_runs (P := fun _ op => op.resets = false) ?_ hstart (Meets.of_mem ?_ _) hrun'
      · exact fun h op h' hg hok hstep => step_gate henv hg hok (Or.inl trivial) hstep
      · intro op hop _
        rcases List.mem_cons.mp hop with rfl | hop
        · rfl
        · exact hlater op hop
    rcases hlast.gate with ⟨-, hk⟩ | ⟨-, hh⟩
    · exact Or.inl hk
    · exact Or.inr hh

/-! ## A resend that takes the link down -/

def flagsFrame (addr flags : UInt8) : LinkFrame where
  addr := 0
  cmd := OP_BUS_SLAVE_FLAGGED
  seq := 0
  payload := [addr, flags]

/-- The first resend takes the link down. -/
def dropResendEnv : Env where
  link_send := fun n _ => if n = 1 then .queuedThenDown else .queued
  on_done := fun _ => []

/-- The first of two commands is sent again when its ACK does not come. -/
def resendRun : List Op :=
  [.linkUp, .addSlave 1, .submit (command 1 .null), .submit (command 1 .null),
    .tick ACK_TIMEOUT_MS, .trackerPoll, .linkUp]

/-- The slave trips, and the ACK does not come again. -/
def trippedRun : List Op :=
  [.frame (flagsFrame 1 1), .tick ACK_TIMEOUT_MS, .trackerPoll]

set_option maxRecDepth 8000 in
/-- The slot then waits for an ACK of the second command, which was never sent.
When that does not come, the command is sent for the first time, past the gate. -/
theorem gate_fails_after_a_dropped_resend : ¬ ∀ env, HoldsQueue env := by
  intro hall
  have hfacts : (runs (step dropResendEnv) .create resendRun).map (fun g =>
      (g.slotFor 1, sentOf 0 g.log,
        (runs (step dropResendEnv) g trippedRun).map fun h => sentOf 0 h.log)) =
      some (some 0, [1, 1], some [1, 1, 2]) := by decide
  obtain ⟨g, hg, hfacts⟩ := Option.map_eq_some_iff.mp hfacts
  simp only [Prod.mk.injEq] at hfacts
  obtain ⟨hslot, hbefore, hfacts⟩ := hfacts
  obtain ⟨h, hh, hsent⟩ := Option.map_eq_some_iff.mp hfacts
  obtain ⟨hkept, -⟩ := hall dropResendEnv resendRun [.tick ACK_TIMEOUT_MS, .trackerPoll]
    (flagsFrame 1 1) 1 1 0 g h hg hslot (by decide) (by decide) (by decide) hh
  obtain ⟨new, hlog, hsilent⟩ := hkept.silent
  rw [hlog, sentOf_append, hbefore] at hsent
  have hnew : sentOf 0 new = [2] := by simpa using hsent
  rw [hnew, hbefore] at hsilent
  exact absurd (hsilent 2 (by simp)) (by decide)

set_option maxRecDepth 8000 in
/-- With a link that takes every frame, the same calls leave the second command in its queue. -/
theorem queue_is_held_on_a_silent_link :
    ∃ g h, runs (step silentEnv) .create resendRun = some g ∧
      runs (step silentEnv) g trippedRun = some h ∧ Kept 0 g h := by
  have hfacts : (runs (step silentEnv) .create resendRun).map (fun g =>
      (g.slotFor 1, (runs (step silentEnv) g trippedRun).isSome)) = some (some 0, true) := by decide
  obtain ⟨g, hg, hfacts⟩ := Option.map_eq_some_iff.mp hfacts
  simp only [Prod.mk.injEq] at hfacts
  obtain ⟨h, hh⟩ := Option.isSome_iff_exists.mp hfacts.2
  refine ⟨g, h, hg, hh, ?_⟩
  exact (a_tripped_slave_is_held (fun _ _ _ => SendResult.noConfusion) resendRun
    [.tick ACK_TIMEOUT_MS, .trackerPoll] (flagsFrame 1 1) 1 1 0 g h hg hfacts.1 (by decide)
    (by decide) (by decide) hh).1

end motioncore.host
