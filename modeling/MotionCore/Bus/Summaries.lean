-- The summaries of the slaves. A poll is answered with a NO_MESSAGE frame that carries
-- the summary of the interlocks, and the engine takes every other answer that is no
-- reply for one of these.
import MotionCore.Bus.Edges

open motioncore.bytes motioncore.machine

namespace motioncore.bus

/-! ## The law -/

/-- The frame that the next call of the engine takes for an answer to its poll. -/
def pollAnswer (c : BusController) : BusOp → Option Rs485Frame
  | .engine _ =>
    match c.poll_state, c.rx with
    | .wait, h :: _ =>
      if c.enabled && h.frame.src == c.cur_addr && c.cmd_state != .sent && !h.frame.isReply then
        some h.frame
      else none
    | _, _ => none
  | _ => none

/-- A step changes the summary of a slave only by a NO_MESSAGE frame of that very slave,
and to the first byte of its payload. -/
def SummaryStep (c : BusController) (op : BusOp) : Prop :=
  ∀ c', busStep c op = some c' → ∀ k, (c.roster k).addr ≠ 0 →
    (c'.roster k).summary ≠ (c.roster k).summary →
      ∃ h rest, c.rx = h :: rest ∧ c'.rx = rest ∧ h.frame.cls = RS485_FT_NO_MESSAGE ∧
        h.frame.src = (c.roster k).addr ∧ h.frame.payload.head? = some (c'.roster k).summary

/-- The answer to a poll is a NO_MESSAGE frame with a summary, or says what the roster
says already. -/
def TellsSummary (c : BusController) (op : BusOp) : Prop :=
  ∀ f, pollAnswer c op = some f →
    f.cls = RS485_FT_NO_MESSAGE ∧ f.payload ≠ [] ∨
      ∀ k, busRosterFind c.roster c.cur_addr = some k → (c.roster k).summary = f.payload.headD 0

/-! ## Steps that change no summary -/

def Kept (c c' : BusController) : Prop := ∀ k, (c'.roster k).summary = (c.roster k).summary

variable {c' : BusController}

theorem Kept.same {c : BusController} (h : c'.roster = c.roster) : Kept c c' := by
  intro k
  rw [h]

theorem Kept.trans {a b c : BusController} (hab : Kept a b) (hbc : Kept b c) : Kept a c :=
  fun k => (hbc k).trans (hab k)

variable (c : BusController)

theorem Kept.setSlave (k : Fin BUS_ROSTER_MAX) {s : BusSlave}
    (hs : s.summary = (c.roster k).summary) : Kept c (c.setSlave k s) := by
  intro i
  unfold BusController.setSlave
  dsimp only
  by_cases hi : i = k
  · subst hi
    rw [Function.update_self]
    exact hs
  · rw [Function.update_of_ne hi]

variable (room : Bool) (addr : UInt8)

theorem busMarkAlive_kept : Kept c (busMarkAlive c addr) := by
  unfold busMarkAlive
  split
  · exact .same rfl
  · exact .setSlave c _ rfl

theorem busMarkMiss_kept : Kept c (busMarkMiss c addr) := by
  unfold busMarkMiss
  split
  · exact .same rfl
  · exact .setSlave c _ rfl

theorem openSlot_kept (txFree : Bool) : Kept c (openSlot c txFree) := by
  unfold openSlot
  split
  · exact .same rfl
  dsimp only
  split
  · split <;> exact .same rfl
  · split
    · exact .same rfl
    · split <;> exact .same rfl

theorem awaitAnswer_kept : Kept c (awaitAnswer c) := by
  unfold awaitAnswer
  split
  · refine (busMarkMiss_kept c c.cur_addr).trans ?_
    dsimp only
    split <;> exact .same rfl
  · exact .same rfl

theorem drainEventsFrom_kept (c : BusController) (is : List (Fin BUS_ROSTER_MAX)) :
    Kept c (drainEventsFrom room c is) := by
  induction is generalizing c with
  | nil => exact .same rfl
  | cons i is ih =>
    unfold drainEventsFrom
    split
    · exact ih c
    split
    · exact ih c
    rename_i k _
    dsimp only
    split
    · split
      · exact Kept.setSlave (c.push _ _ _) k rfl
      · exact .same rfl
    · split
      · split
        · exact Kept.setSlave (c.push _ _ _) k rfl
        · exact .same rfl
      · have hset : Kept c (c.setSlave k { c.roster k with announced_state := .alive }) :=
          .setSlave c k rfl
        exact hset.trans (ih _)
    · exact ih c

theorem drainFlaggedFrom_kept (c : BusController) (is : List (Fin BUS_ROSTER_MAX)) :
    Kept c (drainFlaggedFrom room c is) := by
  induction is with
  | nil => exact .same rfl
  | cons i is ih =>
    unfold drainFlaggedFrom
    split
    · exact ih
    split
    · exact ih
    rename_i k _
    dsimp only
    split
    · exact Kept.setSlave (c.push _ _ _) k rfl
    · exact .same rfl

theorem busDrainStatusReport_kept : Kept c (busDrainStatusReport c room) := by
  have hstart : Kept c (startStatus c) := by
    unfold startStatus
    split <;> exact .same rfl
  unfold busDrainStatusReport
  split
  · exact .same rfl
  dsimp only
  split
  · exact hstart
  split
  · exact hstart.trans (.same rfl)
  · split
    · exact hstart.trans (.same rfl)
    · exact hstart

theorem rs485BridgePoll_kept : Kept c (rs485BridgePoll c room) := by
  have hawait : ∀ d : BusController, Kept d (awaitBridge d room) := by
    intro d
    unfold awaitBridge bridgeNak
    split
    · dsimp only
      split <;> exact .same rfl
    · exact .same rfl
  unfold rs485BridgePoll
  split
  · exact .same rfl
  split
  · split
    · exact .same rfl
    · split <;> exact .same rfl
  · split
    · exact hawait c
    · dsimp only
      split
      · exact .same rfl
      · exact Kept.trans (.same rfl) (hawait _)

theorem fromHost_kept (opcode : UInt16) (addr : UInt8) (payload : List UInt8) :
    Kept c (fromHost c opcode addr payload) := by
  unfold fromHost busCmdEnqueue bridgeStart
  split
  · exact .same rfl
  split
  · split <;> exact .same rfl
  split
  · exact .same rfl
  · exact .same rfl

/-! ## The answer to a poll -/

theorem find_congr {r r' : BusRoster} (h : ∀ i, (r' i).addr = (r i).addr) (addr : UInt8) :
    busRosterFind r' addr = busRosterFind r addr := by
  unfold busRosterFind
  simp only [h]

structure MarkedAlive (c d : BusController) : Prop where
  kept : Kept c d
  addr : ∀ i, (d.roster i).addr = (c.roster i).addr
  cmd_state : d.cmd_state = c.cmd_state
  cur_addr : d.cur_addr = c.cur_addr
  rx : d.rx = c.rx

theorem busMarkAlive_marked : MarkedAlive c (busMarkAlive c addr) := by
  refine ⟨busMarkAlive_kept c addr, fun i => ?_, ?_, ?_, ?_⟩
  · unfold busMarkAlive
    split
    · rfl
    · refine update_addr ?_ i
      rfl
  all_goals
    unfold busMarkAlive
    split <;> rfl

variable {h : Heard}

/-- The answer of a slave to a command, and its reply, say nothing of the summary. -/
theorem takeAnswer_kept {c : BusController} (hother : c.cmd_state = .sent ∨ h.frame.isReply = true)
    : Kept c (takeAnswer c h) := by
  have hmark := busMarkAlive_marked c c.cur_addr
  unfold takeAnswer
  dsimp only
  refine hmark.kept.trans ?_
  rw [hmark.cmd_state]
  split
  · unfold stageAck
    split <;> exact .same rfl
  · rename_i hsent
    rw [if_pos (hother.resolve_left hsent)]
    unfold stageReply
    split <;> exact .same rfl

theorem takeAnswer_stores {c : BusController} (hsent : c.cmd_state ≠ .sent)
    (hreply : h.frame.isReply = false) (k : Fin BUS_ROSTER_MAX) :
    ((takeAnswer c h).roster k).summary =
      if busRosterFind c.roster c.cur_addr = some k then h.frame.payload.headD 0
      else (c.roster k).summary := by
  have hmark := busMarkAlive_marked c c.cur_addr
  have hbyte : (if 1 ≤ h.frame.payload.length then h.frame.payload.getD 0 0 else 0) =
      h.frame.payload.headD 0 := by
    cases h.frame.payload <;> rfl
  have hstore : ((takeAnswer c h).roster k).summary =
      ((storeSummary (busMarkAlive c c.cur_addr) h.frame).roster k).summary := by
    unfold takeAnswer
    dsimp only
    rw [hmark.cmd_state, if_neg hsent, hreply]
    rfl
  rw [hstore]
  unfold storeSummary
  rw [hmark.cur_addr, find_congr hmark.addr, hbyte]
  cases hfind : busRosterFind c.roster c.cur_addr with
  | none =>
    rw [if_neg (Option.some_ne_none k).symm]
    exact hmark.kept k
  | some j =>
    unfold BusController.setSlave
    dsimp only
    by_cases hk : k = j
    · subst hk
      rw [Function.update_self, if_pos rfl]
    · rw [Function.update_of_ne hk, if_neg (fun he => hk (Option.some.inj he).symm)]
      exact hmark.kept k

theorem takeAnswer_rx (h : Heard) : (takeAnswer c h).rx = c.rx := by
  have hmark := busMarkAlive_marked c c.cur_addr
  unfold takeAnswer closeSlot
  dsimp only
  split
  · unfold stageAck
    split <;> exact hmark.rx
  split
  · unfold stageReply
    split <;> exact hmark.rx
  · unfold storeSummary
    split <;> exact hmark.rx

/-! ## Each step -/

theorem pollAnswer_engine {c : BusController} {txFree : Bool} {rest : List Heard}
    (henabled : c.enabled = true) (hwait : c.poll_state = .wait) (hrx : c.rx = h :: rest)
    (hsrc : h.frame.src = c.cur_addr) : pollAnswer c (.engine txFree) =
      if c.cmd_state = .sent ∨ h.frame.isReply = true then none else some h.frame := by
  have hsrc' : (h.frame.src == c.cur_addr) = true := beq_iff_eq.mpr hsrc
  unfold pollAnswer
  rw [hwait, hrx]
  dsimp only
  rw [henabled, hsrc']
  cases c.cmd_state <;> cases h.frame.isReply <;> rfl

theorem busPollEngine_kept {c : BusController} {txFree : Bool}
    (hnone : pollAnswer c (.engine txFree) = none) (henabled : c.enabled = true) :
    Kept c (busPollEngine c txFree) := by
  unfold busPollEngine
  rw [if_neg (by rw [henabled]; decide)]
  split
  · exact openSlot_kept c txFree
  · rename_i hwait
    split
    · exact awaitAnswer_kept c
    · rename_i h rest hrx
      have hread : Kept c { c with rx := rest } := .same rfl
      dsimp only
      split
      · rename_i hsrc
        rw [pollAnswer_engine henabled hwait hrx hsrc] at hnone
        have hother : c.cmd_state = .sent ∨ h.frame.isReply = true := by
          by_contra hneg
          rw [if_neg hneg] at hnone
          exact nomatch hnone
        exact hread.trans (takeAnswer_kept (c := { c with rx := rest }) hother)
      · exact hread.trans (awaitAnswer_kept _)

/-- The roster commands change no slave that is registered, but for its address. -/
theorem register_kept (r : BusRoster) (addr : UInt8) (class_id : UInt32) (flags : UInt8)
    {k : Fin BUS_ROSTER_MAX} (hk : (r k).addr ≠ 0) :
    busRosterRegister r addr class_id flags k = r k := by
  unfold busRosterRegister
  split
  · rfl
  split
  · rfl
  cases hj : (List.finRange BUS_ROSTER_MAX).find? fun k => (r k).addr == 0 with
  | none => rfl
  | some j =>
    have hfree : (r j).addr = 0 := by simpa using List.find?_some hj
    refine Function.update_of_ne ?_ _ _
    rintro rfl
    exact hk hfree

theorem unregister_kept (r : BusRoster) (addr : UInt8) (k : Fin BUS_ROSTER_MAX) :
    (busRosterUnregister r addr k).summary = (r k).summary := by
  unfold busRosterUnregister
  cases busRosterFind r addr with
  | none => rfl
  | some j =>
    dsimp only
    by_cases hk : k = j
    · subst hk
      rw [Function.update_self]
    · rw [Function.update_of_ne hk]

theorem busStep_kept {c : BusController} {op : BusOp} (hnone : pollAnswer c op = none)
    (hstep : busStep c op = some c') {k : Fin BUS_ROSTER_MAX} (hk : (c.roster k).addr ≠ 0) :
    (c'.roster k).summary = (c.roster k).summary := by
  have hpolling : ∀ d, Kept c d → Kept c (whilePolling c d) := by
    intro d hd
    unfold whilePolling
    split
    · exact hd
    · exact .same rfl
  cases op with
  | hear f =>
    cases hstep
    unfold hear
    dsimp only
    split <;> rfl
  | engine txFree =>
    cases hstep
    unfold whilePolling
    split
    · rename_i henabled
      exact busPollEngine_kept hnone henabled k
    · rfl
  | drainEvents room =>
    cases hstep
    exact hpolling _ (drainEventsFrom_kept room c _) k
  | drainFlagged room =>
    cases hstep
    exact hpolling _ (drainFlaggedFrom_kept room c _) k
  | drainCmdAck room =>
    cases hstep
    refine hpolling _ ?_ k
    unfold busDrainCmdAck
    split
    · exact .same rfl
    · split <;> exact .same rfl
  | drainCmdReply room =>
    cases hstep
    refine hpolling _ ?_ k
    unfold busDrainCmdReply
    split
    · exact .same rfl
    · split <;> exact .same rfl
  | drainStatusReport room =>
    cases hstep
    exact hpolling _ (busDrainStatusReport_kept c room) k
  | bridgePoll room =>
    cases hstep
    split
    · rfl
    · exact rs485BridgePoll_kept c room k
  | fromHost opcode addr payload =>
    cases hstep
    exact fromHost_kept c opcode addr payload k
  | register addr class_id flags =>
    cases hstep
    exact congrArg BusSlave.summary (register_kept c.roster addr class_id flags hk)
  | unregister addr =>
    cases hstep
    exact unregister_kept c.roster addr k
  | clearRoster =>
    cases hstep
    rfl
  | setPoll period misses retries =>
    cases hstep
    unfold cmdBusSetPoll
    split <;> rfl
  | pollEnable on =>
    cases hstep
    rfl
  | tick ms =>
    cases hstep
    rfl

theorem busStep_stores {c : BusController} {op : BusOp} {f : Rs485Frame}
    (hsome : pollAnswer c op = some f) (hstep : busStep c op = some c') :
    ∃ h rest, c.rx = h :: rest ∧ c'.rx = rest ∧ h.frame = f ∧ f.src = c.cur_addr ∧
      ∀ k, (c'.roster k).summary =
        if busRosterFind c.roster c.cur_addr = some k then f.payload.headD 0
        else (c.roster k).summary := by
  unfold pollAnswer at hsome
  split at hsome
  · rename_i txFree
    split at hsome
    · rename_i h rest hwait hrx
      rw [Option.ite_none_right_eq_some, Option.some.injEq, Bool.and_eq_true, Bool.and_eq_true,
        Bool.and_eq_true, beq_iff_eq, bne_iff_ne, Bool.not_eq_true'] at hsome
      obtain ⟨⟨⟨⟨henabled, hsrc⟩, hsent⟩, hreply⟩, rfl⟩ := hsome
      cases hstep
      have hengine : whilePolling c (busPollEngine c txFree) =
          takeAnswer { c with rx := rest } h := by
        unfold whilePolling busPollEngine
        rw [if_pos henabled, if_neg (by rw [henabled]; decide), hwait, hrx]
        dsimp only
        rw [if_pos hsrc]
      refine ⟨h, rest, hrx, ?_, rfl, hsrc, fun k => ?_⟩
      · rw [hengine]
        exact takeAnswer_rx _ h
      · rw [hengine]
        exact takeAnswer_stores (c := { c with rx := rest }) hsent hreply k
    · exact nomatch hsome
  · exact nomatch hsome

theorem summaryStep_iff (op : BusOp) : SummaryStep c op ↔ TellsSummary c op := by
  constructor
  · intro h f hf
    by_contra hneg
    rw [not_or, not_forall] at hneg
    obtain ⟨hbad, k, hk⟩ := hneg
    rw [Classical.not_imp] at hk
    obtain ⟨hfind, hne⟩ := hk
    obtain ⟨c', hstep⟩ : ∃ c', busStep c op = some c' := by
      cases op <;> exact ⟨_, rfl⟩
    obtain ⟨h', rest', hrx', hrest, hframe, hsrc, hstore⟩ := busStep_stores hf hstep
    have hnew := hstore k
    rw [if_pos hfind] at hnew
    obtain ⟨haddr, hne0⟩ := find_addr hfind
    have hchange : (c'.roster k).summary ≠ (c.roster k).summary := by
      rw [hnew]
      exact fun he => hne he.symm
    obtain ⟨g, rest, hrx, -, hcls, -, hhead⟩ := h c' hstep k (by rw [haddr]; exact hne0) hchange
    rw [hrx'] at hrx
    obtain ⟨rfl, -⟩ := List.cons.inj hrx
    refine hbad ⟨by rw [← hframe]; exact hcls, fun hnil => ?_⟩
    rw [hframe, hnil] at hhead
    exact nomatch hhead
  · intro h c' hstep k hk hchange
    cases hf : pollAnswer c op with
    | none => exact absurd (busStep_kept hf hstep hk) hchange
    | some f =>
      obtain ⟨g, rest, hrx, hrest, rfl, hsrc, hstore⟩ := busStep_stores hf hstep
      have hnew := hstore k
      by_cases hfind : busRosterFind c.roster c.cur_addr = some k
      · rw [if_pos hfind] at hnew
        rcases h _ hf with ⟨hcls, hne⟩ | hsame
        · refine ⟨g, rest, hrx, hrest, hcls, hsrc.trans (find_addr hfind).1.symm, ?_⟩
          rw [hnew]
          cases hp : g.frame.payload with
          | nil => exact absurd hp hne
          | cons b bs => rfl
        · exact absurd (hnew.trans (hsame k hfind).symm) hchange
      · rw [if_neg hfind] at hnew
        exact absurd hnew hchange

/-- In each run the summaries change as they should, exactly when every answer to a poll
is a NO_MESSAGE frame with a summary, or says what the roster says already. -/
theorem summaries_change_iff (ops : List BusOp) :
    Meets busStep SummaryStep .boot ops ↔ Meets busStep TellsSummary .boot ops :=
  ⟨Meets.mono fun c op => (summaryStep_iff c op).mp,
    Meets.mono fun c op => (summaryStep_iff c op).mpr⟩

/-- The slave at address 5 answers a command with the id 7, but after its slot. -/
def lateAck : List BusOp :=
  [.register 5 1 BUS_FLAG_ENABLED, .pollEnable true,
    .fromHost OP_BUS_EXEC 5 [0, 0, 7, 0, 1, 0], .engine true, .tick 40, .engine true, .tick 100,
    .engine true, .hear (txFrame 0 5 RS485_FT_ACK 1 [7, 0])]

/-- Its ACK is taken for the answer to the next poll, and the id becomes the summary. -/
theorem late_ack_becomes_the_summary :
    ¬ ∀ ops, Meets busStep SummaryStep .boot ops := by
  intro h
  have hrun : ∃ c, runs busStep .boot lateAck = some c ∧
      (pollAnswer c (.engine true)).map (fun f => (f.cls, f.payload)) = some (RS485_FT_ACK, [7, 0]) ∧
      busRosterFind c.roster c.cur_addr = some 0 ∧ (c.roster 0).summary = 0 :=
    ⟨_, rfl, by decide, by decide, by decide⟩
  obtain ⟨c, hrun, hanswer, hfind, hzero⟩ := hrun
  have hlast := (Meets.append_right (h (lateAck ++ [.engine true])) hrun).1
  obtain ⟨f, hf, hfields⟩ := Option.map_eq_some_iff.mp hanswer
  obtain ⟨hcls, hpayload⟩ := Prod.mk.inj hfields
  rcases (summaryStep_iff c _).mp hlast f hf with ⟨hno, -⟩ | hsame
  · rw [hcls] at hno
    exact absurd hno (by decide)
  · have hseven := hsame 0 hfind
    rw [hzero, hpayload] at hseven
    exact absurd hseven (by decide)

end motioncore.bus
