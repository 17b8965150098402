-- The moves of the tracker: what its functions do to one slot and to the log, a
-- move at a time. A property that each move keeps is kept by every step of the
-- host. One that does not ask what a slot waits for needs only the changes of a
-- slot and the sends, in a step that resets nothing.
import MotionCore.Host.Leaves

open motioncore.bytes motioncore.ring motioncore.machine

namespace motioncore.host

/-- Events that are no move of a command. -/
def Ev.plain : Ev → Bool
  | .queued _ => true
  | .resolved .. => true
  | .acked .. => true
  | .cleared _ => true
  | .provReset => true
  | _ => false

/-- A status that the host gives to a command on its own. -/
def LocalStatus (status : UInt8) : Prop :=
  status = CMD_STATUS_BUSY ∨ status = DEMUX_STATUS_TIMEOUT ∨ status = DEMUX_STATUS_LINK_DOWN

/-- The event of a completion that an answer to the request at `k` brings about. -/
def Completes (h : Host) (k : Fin PENDING_MAX) (status : UInt8) (cause : Cause) (e : Ev) : Prop :=
  ∃ p i, h.pending k = some p ∧ p.cb = .slot i ∧ (h.slots i).has_inflight = true ∧
    p.request_id = (h.slots i).inflight_rid ∧
    e = .done i (h.slots i).inflight.handle status cause h.clock

/-- A property that the tracker keeps while the link goes down: commands end, callbacks
submit, and queues are pumped. The log grows only by events that are `ok`. -/
structure DropMoves (send : Send) (ok : Ev → Prop) (J : Host → Prop) : Prop where
  same : ∀ {h h'}, J h → h'.slots = h.slots → h'.next_handle = h.next_handle → h'.log = h.log → J h'
  note : ∀ h e, ok e → J h → J (h.note e)
  finish : ∀ h i, (h.slots i).has_inflight = true → J h →
    J (h.setSlot i { h.slots i with has_inflight := false, inflight_rid := 0, state := .idle })
  accept : ∀ h i e, (h.slots i).q.isFull = false → e.handle = h.next_handle → J h →
    J (({ h with next_handle := h.next_handle + 1 }.modSlot i
      fun s => { s with q := s.q.push e }).note (.accepted i h.next_handle))
  pump : ∀ h i, (h.slots i).faulted = false → (h.slots i).state = .idle →
    (h.slots i).q.count ≠ 0 → J h → J (pumpSlot send h i)
  sends : ∀ h f, J h → J (send h f).1
  plain : ∀ e, e.plain = true → ok e
  shell : ∀ serial cb addr seq command_id args, (∀ i, cb ≠ .slot i) →
    ok (.request serial cb 0
      ⟨addr, OP_SHELL_EXEC, seq, shellExecBody command_id args (UInt16.ofNat serial)⟩)
  ended : ∀ i x status cause t, LocalStatus status → ok (.done i x status cause t)

namespace DropMoves

variable {env : Env} {send : Send} {ok : Ev → Prop} {J : Host → Prop} (hm : DropMoves send ok J)

include hm

/-! ## The tracker -/

theorem pumpSlot {h : Host} (hj : J h) (i : Fin SLOT_MAX) : J (pumpSlot send h i) := by
  by_cases hf : (h.slots i).faulted = true
  · rw [motioncore.host.pumpSlot, if_pos hf]
    exact hj
  · by_cases hi : (h.slots i).state ≠ .idle ∨ (h.slots i).q.count = 0
    · rw [motioncore.host.pumpSlot, if_neg hf, if_pos hi]
      exact hj
    · obtain ⟨hst, hq⟩ := not_or.mp hi
      exact hm.pump h i (Bool.eq_false_iff.mpr hf) (not_not.mp hst) hq hj

variable {h : Host}

theorem evqPush (hj : J h) (e : CtrlEvent) : J (h.evqPush e) :=
  hm.same hj (evqPush_core h e).slots (evqPush_core h e).next_handle (evqPush_core h e).log

theorem submit (hj : J h) (c : Submit) : J (cmdTrackerSubmit send h c).1 := by
  unfold cmdTrackerSubmit
  split
  · exact hj
  split
  · exact hj
  rename_i i _
  split
  · exact hj
  · rename_i hroom
    exact hm.pumpSlot (hm.accept h i _ (Bool.eq_false_iff.mpr hroom) rfl hj) i

theorem submitAll {h : Host} (hj : J h) (cs : List Submit) : J (submitAll send h cs) := by
  refine foldl_keeps ?_ hj cs
  exact fun h c hj => hm.submit hj c

theorem runDone {h : Host} (hj : J h) (cb : DoneCb) (handle : Nat) (addr status : UInt8)
    (result : List UInt8) : J (runDone env send h cb handle addr status result) := by
  unfold motioncore.host.runDone
  cases cb with
  | null => exact hj
  | event => exact hm.evqPush hj _
  | client =>
    have hc : J { h with calls := h.calls + 1 } := hm.same hj rfl rfl rfl
    exact hm.submitAll hc _

theorem completeInflight {h : Host} (hj : J h) (i : Fin SLOT_MAX) (status : UInt8)
    (result : List UInt8) (cause : Cause) (hok : (h.slots i).has_inflight = true →
      ok (.done i (h.slots i).inflight.handle status cause h.clock)) :
    J (completeInflight env send h i status result cause) := by
  unfold motioncore.host.completeInflight
  refine ite_keeps_of (fun hin => ?_) fun _ => hj
  exact hm.runDone (hm.note _ _ (hok hin) (hm.finish h i hin hj)) _ _ _ _ _

/-- The host gives up the command of a slot, and goes on with its queue. -/
theorem giveUp (hj : J h) (i : Fin SLOT_MAX) {status : UInt8} (hst : LocalStatus status)
    (result : List UInt8) (cause : Cause) : J (motioncore.host.pumpSlot send
      (motioncore.host.completeInflight env send h i status result cause) i) :=
  hm.pumpSlot (hm.completeInflight hj i status result cause fun _ => hm.ended i _ _ cause _ hst) i

theorem onTrackerReply {h : Host} (hj : J h) (i : Fin SLOT_MAX) (rid : UInt16) (status : UInt8)
    (result : List UInt8) (cause : Cause)
    (hok : (h.slots i).has_inflight = true → rid = (h.slots i).inflight_rid →
      ok (.done i (h.slots i).inflight.handle status cause h.clock)) :
    J (onTrackerReply env send h i rid status result cause) := by
  unfold motioncore.host.onTrackerReply
  refine ite_keeps_of (fun _ => hj) fun hin => ?_
  have hrid := not_not.mp (not_or.mp hin).2
  exact hm.pumpSlot (hm.completeInflight hj i status result cause fun hi => hok hi hrid) i

/-! ## The demux and the controller -/

theorem shellTo (hj : J h) (addr : UInt8) (command_id : UInt16) (args : List UInt8) (cb : ReplyCb)
    (hcb : ∀ i, cb ≠ .slot i) : J (demuxSendShellTo send h addr command_id args cb).1 := by
  unfold demuxSendShellTo demuxRequest
  split
  · exact hj
  split
  · exact hj
  dsimp only
  have hsent : J (sendFrameAddr send { h with next_id := h.next_id + 1 } addr OP_SHELL_EXEC
      (shellExecBody command_id args (UInt16.ofNat h.next_id))).1 :=
    hm.sends _ _ (hm.same hj rfl rfl rfl)
  split
  · exact hm.note _ _ (hm.shell _ cb addr _ command_id args hcb) (hm.same hsent rfl rfl rfl)
  · exact hsent

theorem raw (hj : J h) (opcode : UInt16) (payload : List UInt8) :
    J (demuxSendRaw send h opcode payload) := hm.sends _ _ (hm.same hj rfl rfl rfl)

theorem provSend (hj : J h) (command_id : UInt16) (args : List UInt8) :
    J (demuxSendShell send h command_id args .prov).1 :=
  hm.shellTo hj _ _ _ .prov fun _ => ReplyCb.noConfusion

theorem provAfterSlaves {h : Host} (hj : J h) : J (provAfterSlaves send h) := by
  have hset : J { h with prov := .setPoll } := hm.same hj rfl rfl rfl
  have hlist : J { h with prov := .list } := hm.same hj rfl rfl rfl
  unfold motioncore.host.provAfterSlaves
  exact ite_keeps (hm.provSend hset _ _) (hm.provSend hlist _ _)

theorem onProvReply {h : Host} (hj : J h) (status : UInt8) (result : List UInt8) :
    J (onProvReply send h status result) := by
  have hregister : J { h with prov := .register, prov_idx := 0 } := hm.same hj rfl rfl rfl
  have hnext : J { h with prov_idx := h.prov_idx + 1 } := hm.same hj rfl rfl rfl
  have hlist : J { h with prov := .list } := hm.same hj rfl rfl rfl
  unfold motioncore.host.onProvReply
  refine ite_keeps (hm.same hj rfl rfl rfl) ?_
  split
  · exact ite_keeps (hm.provSend hregister _ _) (hm.provAfterSlaves hj)
  · exact ite_keeps (hm.provSend hnext _ _) (hm.provAfterSlaves hnext)
  · exact hm.provSend hlist _ _
  · exact hm.same hj rfl rfl rfl
  · exact hj

theorem resolve {h : Host} (hj : J h) (k : Fin PENDING_MAX) (status : UInt8) (result : List UInt8)
    (cause : Cause) (hok : ∀ e, Completes h k status cause e → ok e) :
    J (resolve env send h k status result cause) := by
  unfold motioncore.host.resolve
  split
  · exact hj
  · rename_i p hp
    have hfree : J ((h.setPending k none).note (.resolved p.serial p.cb status cause)) :=
      hm.note _ _ (hm.plain _ rfl) (hm.same hj rfl rfl rfl)
    unfold replyCb
    split
    · rename_i i hcb
      exact hm.onTrackerReply hfree i _ _ _ _ fun hin hrid => hok _ ⟨p, i, hp, hcb, hin, hrid, rfl⟩
    · exact hm.onProvReply hfree _ _
    · exact hm.evqPush hfree _
    · exact hfree
    · exact hfree

theorem drop (hj : J h) (k : Fin PENDING_MAX) {status : UInt8} (hst : LocalStatus status)
    (result : List UInt8) (cause : Cause) :
    J (motioncore.host.resolve env send h k status result cause) := by
  refine hm.resolve hj k status result cause ?_
  rintro e ⟨p, i, -, -, -, -, rfl⟩
  exact hm.ended i _ _ cause _ hst

theorem onShellReply {h : Host} (hj : J h) (payload : List UInt8)
    (hok : ∀ k e, h.pendingFind (le16 (payload.getD 0 0) (payload.getD 1 0)) = some k →
      SHELL_REPLY_HDR ≤ payload.length → Completes h k (payload.getD 2 0) .reply e → ok e) :
    J (onShellReply env send h payload) := by
  unfold motioncore.host.onShellReply
  refine ite_keeps_of (fun _ => hj) fun hlen => ?_
  split
  · exact hj
  · rename_i k hk
    exact hm.resolve hj k _ _ _ fun e he => hok k e hk (Nat.le_of_not_lt hlen) he

theorem demuxSweep {h : Host} (hj : J h) : J (demuxSweep env send h) := by
  refine foldl_keeps ?_ hj _
  intro h k hj
  unfold sweepPending
  split
  · exact hj
  · exact ite_keeps (hm.drop hj k (Or.inr (Or.inl rfl)) [] .sweep) hj

theorem provGate {h : Host} (hj : J h) : J (provGate send h) := by
  have hclear : J { h with prov := .clear, prov_idx := 0, bc_total := 0 } :=
    hm.same hj rfl rfl rfl
  unfold motioncore.host.provGate
  refine ite_keeps ?_ hj
  split
  · exact hj
  · exact ite_keeps (hm.provSend hclear _ _) (hm.same hj rfl rfl rfl)

theorem linkDown (hj : J h) : J (onLinkState env send h .down) := by
  have hdrop : J (dropRequests env send h) := by
    refine foldl_keeps ?_ hj _
    exact fun h k hj => hm.drop hj k (Or.inr (Or.inr rfl)) [] .linkDown
  have hlink := hm.evqPush (h := { dropRequests env send h with link := .down })
    (hm.same hdrop rfl rfl rfl) (linkEvent .down)
  exact hm.note _ _ (hm.plain _ rfl) (hm.same hlink rfl rfl rfl)

end DropMoves

/-! ## The frames of the bus, and the timers -/

/-- A property that all the moves of the tracker keep, but for flags and resets. -/
structure CommandMoves (send : Send) (ok : Ev → Prop) (J : Host → Prop) : Prop
    extends DropMoves send ok J where
  ack : ∀ h i, (h.slots i).state = .sent → J h →
    J (h.setSlot i { h.slots i with state := .inflight, ack_ms := h.now, retries := 0 })
  message : ∀ h i msg n, J h → J (h.modSlot i fun s => { s with il_msg := msg, il_msg_count := n })
  retry : ∀ h i, (h.slots i).state = .sent → (h.slots i).retries < MAX_ACK_RETRIES → J h →
    J (sendInflight send
      (h.setSlot i { h.slots i with retries := (h.slots i).retries + 1 }) i).1

namespace CommandMoves

variable {env : Env} {send : Send} {ok : Ev → Prop} {J : Host → Prop} (hm : CommandMoves send ok J)

include hm

variable {h : Host}

theorem onAck (hj : J h) (addr : UInt8) (req_id : UInt16) : J (cmdTrackerOnAck h addr req_id) := by
  unfold cmdTrackerOnAck
  split
  · exact hj
  rename_i i _
  refine ite_keeps_of (fun _ => hj) fun hst => ?_
  have hsent := not_not.mp (not_or.mp hst).1
  exact hm.note _ _ (hm.plain _ rfl) (hm.same (hm.ack h i hsent hj) rfl rfl rfl)

theorem onNak (hj : J h) (addr : UInt8) (req_id : UInt16) :
    J (cmdTrackerOnNak env send h addr req_id) := by
  unfold cmdTrackerOnNak
  split
  · exact hj
  rename_i i _
  refine ite_keeps_of (fun _ => hj) fun hst => ?_
  refine ite_keeps_of (fun hlt => ?_) fun _ => hm.giveUp hj i (Or.inl rfl) [] .nak
  exact hm.retry h i (not_not.mp (not_or.mp hst).1) hlt hj

theorem onInterlockMsg (hj : J h) (addr : UInt8) (msg : List UInt8) :
    J (cmdTrackerOnInterlockMsg h addr msg) := by
  unfold cmdTrackerOnInterlockMsg
  split
  · exact hj
  · exact hm.message h _ _ _ hj

theorem pollSlot {h : Host} (hj : J h) (i : Fin SLOT_MAX) : J (pollSlot env send h i) := by
  have hend : ∀ cause, J (motioncore.host.pumpSlot send
      (motioncore.host.completeInflight env send h i DEMUX_STATUS_TIMEOUT [] cause) i) :=
    fun cause => hm.giveUp hj i (Or.inr (Or.inl rfl)) [] cause
  unfold motioncore.host.pollSlot
  refine ite_keeps hj (ite_keeps_of (fun hst => ?_) fun _ => ?_)
  · exact ite_keeps_of (fun hlt => hm.retry h i hst.1 hlt hj) fun _ => hend _
  · exact ite_keeps (ite_keeps (hend _) hj) (ite_keeps (hm.pumpSlot hj i) hj)

theorem trackerPoll (hj : J h) : J (cmdTrackerPoll env send h) := by
  have hnow : J { h with now := h.clock } := hm.same hj rfl rfl rfl
  refine foldl_keeps ?_ hnow _
  exact fun h i hj => hm.pollSlot hj i

theorem calmLeaves : CalmLeaves env send (fun _ => True) J where
  core hc hj := hm.same hj hc.slots hc.next_handle hc.log
  quiet _ _ := trivial
  raw _ _ _ hj := hm.raw hj _ _
  shell h _ _ _ cb hcb hj := by
    refine hm.shellTo hj _ _ _ cb ?_
    rintro i rfl
    exact absurd hcb Bool.noConfusion
  resetSync _ _ hj := hm.note _ _ (hm.plain _ rfl) (hm.same hj rfl rfl rfl)
  linkDown _ k hj := hm.drop hj k (Or.inr (Or.inr rfl)) [] .linkDown
  ack _ _ _ hj := hm.onAck hj _ _
  nak _ _ _ hj := hm.onNak hj _ _
  interlock _ _ _ hj := hm.onInterlockMsg hj _ _

end CommandMoves

/-! ## The steps of the host -/

variable {env : Env} {ok : Ev → Prop} {J : Host → Prop}

/-- A send of the link, which may take the link down before it returns. -/
theorem DropMoves.keepsSend (hclosed : DropMoves linkClosed ok J) (h : Host) (f : LinkFrame)
    (hj : J h) : J (linkSend env h f).1 := by
  unfold linkSend
  split
  · exact hj
  dsimp only
  have hcount : J { h with sends := h.sends + 1 } := hclosed.same hj rfl rfl rfl
  split
  · exact hcount
  · exact hclosed.note _ _ (hclosed.plain _ rfl) hcount
  · have hsent : J ({ h with sends := h.sends + 1 }.note (.queued f)) :=
      hclosed.note _ _ (hclosed.plain _ rfl) hcount
    have hdown : J { { h with sends := h.sends + 1 }.note (.queued f) with ep_state := .down } :=
      hclosed.same hsent rfl rfl rfl
    exact hclosed.linkDown hdown

variable {h h' : Host} {op : Op}

/-- What the moves keep is kept by every step, when the replies, the flags, the slots and
the resets of the step keep it. -/
theorem CommandMoves.step (hm : CommandMoves (linkSend env) ok J)
    (hclosed : DropMoves linkClosed ok J) (hj : J h)
    (hreply : ∀ f, op = .frame f → f.cmd = OP_SHELL_REPLY → J (motioncore.host.onShellReply env
      (linkSend env) h f.payload))
    (hflags : ∀ f addr flags, op = .frame f → flagsOf f = some (addr, flags) →
      J (cmdTrackerOnFlagged (linkSend env) h addr flags))
    (hadd : ∀ addr, op = .addSlave addr → J (cmdTrackerAddSlave h addr))
    (hattach : ∀ fuel r, op = .attachRoster fuel r → J h') (hstep : step env h op = some h') :
    J h' := by
  have hl : CalmLeaves env (linkSend env) (fun _ => True) J := hm.calmLeaves
  cases op with
  | frame f =>
    cases hstep
    unfold onLinkFrame
    refine ite_keeps_of (fun hcmd => hreply f rfl hcmd) fun _ => ?_
    exact hl.onEvent hj f (fun _ => trivial) fun addr flags => hflags f addr flags rfl
  | linkUp =>
    rcases step_cases hstep with ⟨-, rfl⟩ | rfl
    · have hup : J { h with ep_state := .up } := hm.same hj rfl rfl rfl
      exact hl.onLinkState hup .up fun _ => trivial
    · exact hj
  | linkDown =>
    rcases step_cases hstep with ⟨-, rfl⟩ | rfl
    · have hdown : J { h with ep_state := .down } := hm.same hj rfl rfl rfl
      exact hclosed.linkDown hdown
    · exact hj
  | demuxSweep =>
    cases hstep
    exact hm.demuxSweep hj
  | manifestDue =>
    cases hstep
    exact hl.manifestDue hj
  | provGate =>
    cases hstep
    exact hm.provGate hj
  | trackerPoll =>
    cases hstep
    exact hm.trackerPoll hj
  | reconcile =>
    cases hstep
    exact hl.reconcileInterlocks hj
  | submit c =>
    cases hstep
    exact hm.submit hj c
  | sendShell dest_addr command_id args cb =>
    obtain ⟨hcb, rfl⟩ := step_cases hstep
    exact hl.shell h dest_addr command_id args cb hcb.1 hj
  | addSlave addr =>
    cases hstep
    exact hadd addr rfl
  | attachRoster fuel r => exact hattach fuel r rfl
  | drain =>
    cases hstep
    exact hm.same hj rfl rfl rfl
  | tick ms =>
    cases hstep
    exact hm.same hj rfl rfl rfl

/-! ## Flags, resets and the set of slaves -/

/-- A property that the flags of a slave keep as well, and the changes of a reset. -/
structure ResetMoves (send : Send) (ok : Ev → Prop) (J : Host → Prop) : Prop
    extends CommandMoves send ok J where
  flags : ∀ h i known flags faulted, J h →
    J (h.modSlot i fun s => { s with il_known := known, il_flags := flags, faulted })
  pop : ∀ h i, J h → J (h.modSlot i fun s => { s with q := s.q.pop })
  clear : ∀ h i s, s.state = .idle → s.has_inflight = false → s.q = Slot.cleared.q → J h →
    J (h.setSlot i s)

namespace ResetMoves

variable {env : Env} {send : Send} {ok : Ev → Prop} {J : Host → Prop} (hm : ResetMoves send ok J)

include hm

variable {h : Host}

theorem onFlagged (hj : J h) (addr flags : UInt8) : J (cmdTrackerOnFlagged send h addr flags) := by
  unfold cmdTrackerOnFlagged
  split
  · exact hj
  rename_i i _
  have hset := hm.flags h i true flags (flags &&& 1 != 0) hj
  exact ite_keeps (hm.pumpSlot hset i) hset

theorem addSlave (hj : J h) (addr : UInt8) : J (cmdTrackerAddSlave h addr) := by
  unfold cmdTrackerAddSlave
  split
  · exact hj
  split
  · exact hj
  · exact hm.note _ _ (hm.plain _ rfl) (hm.clear h _ _ rfl rfl rfl hj)

variable {h' : Host} {fuel : Nat}

/-- Each callback runs before its command leaves the queue. -/
theorem drainQueue (hj : J h) {i : Fin SLOT_MAX} {abort_status : UInt8}
    (hst : LocalStatus abort_status)
    (hdrain : drainQueue env send h i abort_status fuel = some h') : J h' := by
  induction fuel generalizing h with
  | zero =>
    simp only [motioncore.host.drainQueue, Option.ite_none_right_eq_some,
      Option.some.injEq] at hdrain
    exact hdrain.2 ▸ hj
  | succ fuel ih =>
    unfold motioncore.host.drainQueue at hdrain
    dsimp only at hdrain
    split at hdrain
    · exact Option.some.inj hdrain ▸ hj
    · have hnoted := hm.note _ _ (hm.ended i (h.slots i).q.front.handle _ .reset h.clock hst) hj
      exact ih (hm.pop _ i (hm.runDone hnoted _ _ _ _ _)) hdrain

theorem resetSlot (hj : J h) {abort_status : UInt8} {i : Fin SLOT_MAX}
    (hst : LocalStatus abort_status) (hreset : resetSlot env send fuel abort_status h i = some h') :
    J h' := by
  unfold motioncore.host.resetSlot at hreset
  split at hreset
  · obtain ⟨g, hg, rfl⟩ := Option.map_eq_some_iff.mp hreset
    have hcut : J (motioncore.host.completeInflight env send h i abort_status [] .reset) :=
      hm.completeInflight hj i abort_status [] .reset fun _ => hm.ended i _ _ .reset _ hst
    have hend := hm.drainQueue hcut hst hg
    exact hm.note _ _ (hm.plain _ rfl) (hm.clear g i _ rfl rfl rfl hend)
  · exact Option.some.inj hreset ▸ hj

theorem attachRoster (hj : J h) {r : Option Roster}
    (hattach : controllerAttachRoster env send fuel h r = some h') : J h' := by
  unfold controllerAttachRoster at hattach
  obtain ⟨g, hg, rfl⟩ := Option.map_eq_some_iff.mp hattach
  have hreset : J g := by
    refine inv_runs (P := fun _ _ => True) ?_ ?_ (Meets.of_forall (fun _ _ => trivial) _ _) hg
    · exact fun h i h' hj _ hslot => hm.resetSlot hj (Or.inr (Or.inr rfl)) hslot
    · exact hm.note _ _ (hm.plain _ rfl) (hm.same hj rfl rfl rfl)
  refine hm.same (h := g.roster.slaves.foldl (fun h s => cmdTrackerAddSlave h s.addr) g) ?_ rfl rfl
    rfl
  refine foldl_keeps ?_ hreset _
  exact fun h s hj => hm.addSlave hj s.addr

end ResetMoves

/-- Events that put no command of the tracker on the wire. -/
def Ev.noCommand : Ev → Bool
  | .request _ (.slot _) _ _ => false
  | _ => true

/-- The slot keeps its slave, its queue, its command and its flags, and it does
not become busy. -/
structure Touch (s s' : Slot) : Prop where
  in_use : s'.in_use = s.in_use
  addr : s'.addr = s.addr
  q : s'.q = s.q
  inflight : s'.inflight = s.inflight
  faulted : s'.faulted = s.faulted
  state : s'.state ≠ .idle → s.state ≠ .idle

structure TrackerMoves (send : Send) (J : Host → Prop) : Prop where
  same : ∀ {h h'}, J h → h'.slots = h.slots → h'.log = h.log → J h'
  note : ∀ h e, e.noCommand = true → J h → J (h.note e)
  touch : ∀ h i s, Touch (h.slots i) s → J h → J (h.setSlot i s)
  push : ∀ h i e, J h → J (h.modSlot i fun s => { s with q := s.q.push e })
  pump : ∀ h i, (h.slots i).faulted = false → (h.slots i).state = .idle →
    (h.slots i).q.count ≠ 0 → J h → J (pumpSlot send h i)
  resend : ∀ h i, (h.slots i).state = .sent → J h → J (sendInflight send h i).1
  sends : ∀ h f, J h → J (send h f).1

theorem TrackerMoves.moves {send : Send} (hm : TrackerMoves send J) :
    CommandMoves send (fun e => e.noCommand = true) J where
  same hj hslots _ hlog := hm.same hj hslots hlog
  note := hm.note
  finish h i _ hj := hm.touch h i _ ⟨rfl, rfl, rfl, rfl, rfl, fun hne => absurd rfl hne⟩ hj
  accept h i e _ _ hj := hm.note _ _ rfl (hm.push _ i e (hm.same hj rfl rfl))
  pump := hm.pump
  ack h i hst hj := by
    refine hm.touch h i _ ⟨rfl, rfl, rfl, rfl, rfl, fun _ => ?_⟩ hj
    rw [hst]
    exact SlotState.noConfusion
  message h i _ _ hj := hm.touch h i _ ⟨rfl, rfl, rfl, rfl, rfl, id⟩ hj
  retry h i hst _ hj := by
    apply hm.resend
    · simp [Host.setSlot, hst]
    · exact hm.touch h i _ ⟨rfl, rfl, rfl, rfl, rfl, id⟩ hj
  sends := hm.sends
  plain e he := by
    cases e with
    | request serial cb handle f => exact absurd he Bool.noConfusion
    | _ => rfl
  shell serial cb addr seq command_id args hcb := by
    cases cb with
    | slot i => exact absurd rfl (hcb i)
    | _ => rfl
  ended _ _ _ _ _ _ := rfl

/-- A send of the link, which may take the link down before it returns. -/
theorem linkSend_sends (hclosed : TrackerMoves linkClosed J) (h : Host) (f : LinkFrame) (hj : J h) :
    J (linkSend env h f).1 :=
  hclosed.moves.toDropMoves.keepsSend h f hj

/-- What the moves keep is kept by every step, when the flags, the slots and the
resets of the step keep it. -/
theorem TrackerMoves.step (hm : TrackerMoves (linkSend env) J) (hclosed : TrackerMoves linkClosed J)
    (hj : J h) (hflags : ∀ f addr flags, op = .frame f → flagsOf f = some (addr, flags) →
      J (cmdTrackerOnFlagged (linkSend env) h addr flags))
    (hadd : ∀ addr, op = .addSlave addr → J (cmdTrackerAddSlave h addr))
    (hattach : ∀ fuel r, op = .attachRoster fuel r → J h') (hstep : step env h op = some h') :
    J h' := by
  refine hm.moves.step hclosed.moves.toDropMoves hj ?_ hflags hadd hattach hstep
  intro f _ _
  refine hm.moves.onShellReply hj f.payload ?_
  rintro k e - - ⟨p, i, -, -, -, -, rfl⟩
  rfl

end motioncore.host
