-- Properties of the host that do not look at the senders of its requests. When
-- each request keeps such a property, so do the replies, provisioning, the
-- tracker and the parts of `controller_poll`. Last come the properties of the
-- pending table and of what the log says about it.
import MotionCore.Host.ProvisioningRuns

open motioncore.bytes motioncore.ring motioncore.bus motioncore.machine

namespace motioncore.host

/-- What the attach of a roster does before it resets the tracker. -/
def Host.attaching (h : Host) (r : Option Roster) : Host :=
  { h with
    roster := r.getD .empty
    have_roster := r.isSome
    prov := .idle
    prov_idx := 0
    bc_total := 0 }.note .provReset

theorem pendingAlloc_free {h : Host} {k : Fin PENDING_MAX} (hk : h.pendingAlloc = some k) :
    h.pending k = none := by
  have hfree := List.find?_some hk
  exact Option.isNone_iff_eq_none.mp hfree

/-- A property that each request of the host itself keeps. Those of `submit_command_ungated_ev`
are left out. -/
structure RequestBlind (send : Send) (J : Host → Prop) : Prop where
  change : ∀ {h h'}, TrackerChange h h' → J h → J h'
  phase : ∀ h prov prov_idx bc_total, J h → J { h with prov, prov_idx, bc_total }
  request : ∀ h hdr args_len addr opcode body cb handle, opcode ≠ OP_GET_MANIFEST →
    cb ≠ .ungated → J h → J (demuxRequest send h hdr args_len addr opcode body cb handle).1
  freed : ∀ h k q status cause, h.pending k = some q → J h → J (h.freed k q status cause)
  attaching : ∀ h r, J h → J (Host.attaching h r)

namespace RequestBlind

variable {env : Env} {send : Send} {J : Host → Prop} (hr : RequestBlind send J)

include hr

theorem tracker : TrackerBlind send J where
  change := hr.change
  request _ _ _ _ _ _ hj := hr.request _ _ _ _ _ _ _ _ (by decide) ReplyCb.noConfusion hj

variable {h : Host}

theorem aside {h' : Host} (hj : J h) (hep : h'.ep_state = h.ep_state) (hid : h'.next_id = h.next_id)
    (hpending : h'.pending = h.pending) (hidentity : h'.identity = h.identity)
    (hproto : h'.proto = h.proto) (hhave : h'.have_roster = h.have_roster)
    (hroster : h'.roster = h.roster) (hprov : h'.prov = h.prov) (hidx : h'.prov_idx = h.prov_idx)
    (hclock : h'.clock = h.clock) (hlog : h'.log = h.log) : J h' := by
  refine hr.change ⟨hep, hid, hpending, hidentity, hproto, hhave, hroster, hprov, hidx, hclock, [],
    ?_, by simp⟩ hj
  rw [hlog, List.append_nil]

theorem shell (hj : J h) (addr : UInt8) (command_id : UInt16) (args : List UInt8) {cb : ReplyCb}
    (hcb : cb ≠ .ungated) : J (demuxSendShellTo send h addr command_id args cb).1 :=
  hr.request _ _ _ _ _ _ _ _ (by decide) hcb hj

theorem provAfterSlaves {h : Host} (hj : J h) : J (provAfterSlaves send h) := by
  unfold motioncore.host.provAfterSlaves
  split
  · exact hr.shell (hr.phase h .setPoll h.prov_idx h.bc_total hj) _ _ _ ReplyCb.noConfusion
  · exact hr.shell (hr.phase h .list h.prov_idx h.bc_total hj) _ _ _ ReplyCb.noConfusion

theorem onProvReply {h : Host} (hj : J h) (status : UInt8) (result : List UInt8) :
    J (onProvReply send h status result) := by
  unfold motioncore.host.onProvReply
  split
  · exact hr.phase h .fail h.prov_idx h.bc_total hj
  split
  · split
    · exact hr.shell (hr.phase h .register 0 h.bc_total hj) _ _ _ ReplyCb.noConfusion
    · exact hr.provAfterSlaves hj
  · have hidx : J { h with prov_idx := h.prov_idx + 1 } :=
      hr.phase h h.prov (h.prov_idx + 1) h.bc_total hj
    dsimp only
    split
    · exact hr.shell hidx _ _ _ ReplyCb.noConfusion
    · exact hr.provAfterSlaves hidx
  · exact hr.shell (hr.phase h .list h.prov_idx h.bc_total hj) _ _ _ ReplyCb.noConfusion
  · exact hr.phase h _ h.prov_idx _ hj
  · exact hj

theorem replyCb {h : Host} (hj : J h) (cb : ReplyCb) (rid : UInt16) (status : UInt8)
    (result : List UInt8) (cause : Cause) : J (replyCb env send h cb rid status result cause) := by
  unfold motioncore.host.replyCb
  cases cb with
  | slot i => exact hr.tracker.onTrackerReply hj i rid status result cause
  | prov => exact hr.onProvReply hj status result
  | ungated => exact hr.tracker.evqPush hj _
  | client => exact hj
  | null => exact hj

theorem resolve {h : Host} (hj : J h) (k : Fin PENDING_MAX) (status : UInt8) (result : List UInt8)
    (cause : Cause) : J (resolve env send h k status result cause) := by
  cases hq : h.pending k with
  | none =>
    unfold motioncore.host.resolve
    rw [hq]
    exact hj
  | some q =>
    rw [resolve_eq hq]
    exact hr.replyCb (hr.freed h k q status cause hq hj) _ _ _ _ _

theorem onShellReply {h : Host} (hj : J h) (payload : List UInt8) :
    J (onShellReply env send h payload) := by
  unfold motioncore.host.onShellReply
  split
  · exact hj
  split
  · exact hj
  · exact hr.resolve hj _ _ _ _

theorem dropRequests {h : Host} (hj : J h) : J (dropRequests env send h) := by
  refine foldl_keeps ?_ hj _
  exact fun h k hj => hr.resolve hj k _ _ _

theorem demuxSweep {h : Host} (hj : J h) : J (demuxSweep env send h) := by
  refine foldl_keeps ?_ hj _
  intro h k hj
  unfold sweepPending
  split
  · exact hj
  · exact ite_keeps (hr.resolve hj k _ _ _) hj

theorem provGate {h : Host} (hj : J h) : J (provGate send h) := by
  unfold motioncore.host.provGate
  split
  swap
  · exact hj
  split
  · exact hj
  · refine ite_keeps ?_ (hr.phase h .fail h.prov_idx h.bc_total hj)
    exact hr.shell (hr.phase h .clear 0 0 hj) _ _ _ ReplyCb.noConfusion

theorem setGap (hj : J h) (i : Fin ROSTER_MAX_SLAVES) (t : Nat) : J (h.setGap i t) :=
  hr.aside hj rfl rfl rfl rfl rfl rfl rfl rfl rfl rfl rfl

theorem sendRepush {h : Host} (hj : J h) (i : Fin ROSTER_MAX_SLAVES) (addr : UInt8) :
    J (sendRepush send h i addr) := by
  have hcb : ReplyCb.null ≠ .ungated := ReplyCb.noConfusion
  have hsent := hr.shell hj addr CMD_INTERLOCK_REPUSH [] hcb
  exact hr.aside hsent rfl rfl rfl rfl rfl rfl rfl rfl rfl rfl rfl

theorem reconcileSlave {h : Host} (hj : J h) (i : Fin ROSTER_MAX_SLAVES) :
    J (reconcileSlave send h i) := by
  unfold motioncore.host.reconcileSlave
  refine ite_keeps hj ?_
  dsimp only
  split
  · exact hr.setGap hj i 0
  · refine ite_keeps (hr.setGap hj i 0) (ite_keeps (hr.setGap hj i _) ?_)
    exact ite_keeps (hr.setGap hj i _) (hr.sendRepush (hr.setGap hj i _) i _)

theorem reconcileInterlocks {h : Host} (hj : J h) : J (reconcileInterlocks send h) := by
  unfold motioncore.host.reconcileInterlocks
  refine ite_keeps ?_ hj
  refine foldl_keeps ?_ hj _
  exact fun h i hj => hr.reconcileSlave hj i

theorem attachRoster {h' : Host} (hj : J h) {fuel : Nat} {r : Option Roster}
    (hattach : controllerAttachRoster env send fuel h r = some h') : J h' := by
  obtain ⟨g, hg, rfl⟩ := Option.map_eq_some_iff.mp hattach
  have hreset : J g := hr.tracker.reset (hr.attaching h r hj) hg
  have hadd : J (g.roster.slaves.foldl (fun h s => cmdTrackerAddSlave h s.addr) g) := by
    refine foldl_keeps ?_ hreset _
    exact fun h s hj => hr.tracker.addSlave hj s.addr
  exact hr.aside hadd rfl rfl rfl rfl rfl rfl rfl rfl rfl rfl rfl

theorem drained (hj : J h) (q : Ring CtrlEvent CTRL_EVQ_CAP) : J { h with evq := q } :=
  hr.aside hj rfl rfl rfl rfl rfl rfl rfl rfl rfl rfl rfl

end RequestBlind

/-! ## The frames of the dongle -/

/-- A property that the sync ladder keeps as well. -/
structure LadderBlind (send : Send) (J : Host → Prop) : Prop extends RequestBlind send J where
  ladder : ∀ {h h'}, SameCore h h' → J h → J h'
  raw : ∀ h opcode payload, opcode ≠ OP_GET_MANIFEST → J h →
    J (demuxSendRaw send h opcode payload)
  resync : ∀ h, J h → J (resetSync h)

namespace LadderBlind

variable {env : Env} {send : Send} {J : Host → Prop} (hl : LadderBlind send J)

include hl

theorem onRegister {h : Host} (hj : J h) (payload : List UInt8) :
    J (onRegister send h payload) := by
  have hlearn : J (learnIdentity h payload) := by
    unfold learnIdentity
    refine ite_keeps (hl.ladder ?_ hj) hj
    constructor <;> rfl
  have hsync : J (resyncOnReset (learnIdentity h payload)) :=
    ite_keeps (hl.resync _ hlearn) hlearn
  have hboot : J (enterBoot (resyncOnReset (learnIdentity h payload))) := by
    unfold enterBoot
    refine ite_keeps (hl.ladder ?_ hsync) hsync
    constructor <;> rfl
  unfold motioncore.host.onRegister
  refine ite_keeps ?_ hboot
  unfold driveBoot
  refine ite_keeps hboot ?_
  refine hl.ladder ?_ (hl.raw _ OP_REGISTER_ACK [] (by decide) hboot)
  constructor <;> rfl

theorem onManifestReply {h : Host} (hj : J h) (payload : List UInt8) :
    J (onManifestReply send h payload) := by
  have hstore : J { storeManifest h payload with get_manifest_pending := false } := by
    refine hl.ladder ?_ hj
    unfold storeManifest
    split
    · constructor <;> rfl
    · constructor <;> rfl
  refine hl.ladder ?_ (hl.raw _ OP_OPERATIONAL_BEGIN [] (by decide) hstore)
  constructor <;> rfl

theorem onEvent {h : Host} (hj : J h) (f : LinkFrame) : J (onEvent env send h f) := by
  have hb := hl.tracker
  have hflags := hb.onFlagged hj (f.payload.getD 0 0) (f.payload.getD 1 0)
  unfold motioncore.host.onEvent
  refine ite_keeps (hl.onRegister hj _) (ite_keeps (hl.onManifestReply hj _) (ite_keeps ?_ ?_))
  · unfold onHeartbeat
    refine ite_keeps (hl.ladder ?_ hj) hj
    constructor <;> rfl
  refine ite_keeps (ite_keeps (hb.evqPush hj _) hj) ?_
  refine ite_keeps (ite_keeps (hb.evqPush hj _) hj) ?_
  refine ite_keeps (ite_keeps (hb.evqPush hflags _) hj) ?_
  refine ite_keeps (ite_keeps (hb.onAck hj _ _) hj) ?_
  refine ite_keeps (ite_keeps (hb.onNak hj _ _) hj) ?_
  refine ite_keeps (hb.evqPush (hb.onInterlockMsg hj _ _) _) ?_
  refine ite_keeps (ite_keeps (hl.ladder ?_ hflags) hj) hj
  constructor <;> rfl

theorem onLinkFrame {h : Host} (hj : J h) (f : LinkFrame) : J (onLinkFrame env send h f) := by
  unfold motioncore.host.onLinkFrame
  exact ite_keeps (hl.onShellReply hj _) (hl.onEvent hj f)

end LadderBlind

/-! ## The pending table -/

/-- `go_down`, when the link was up. -/
abbrev goDown (env : Env) (h : Host) : Host :=
  onLinkState env linkClosed { h with ep_state := .down } .down

/-- Events that say nothing about a request. -/
def Ev.tableless : Ev → Bool
  | .request .. => false
  | .resolved .. => false
  | _ => true

theorem ofTracker_tableless {e : Ev} (he : e.ofTracker = true) : e.tableless = true := by
  cases e with
  | request => exact absurd he Bool.noConfusion
  | resolved => exact absurd he Bool.noConfusion
  | _ => rfl

/-- A property of the ids, the pending table and the log of the requests. -/
structure TableBlind (J : Host → Prop) : Prop where
  same : ∀ {h h'} (new : List Ev), J h → h.next_id ≤ h'.next_id → h'.pending = h.pending →
    h'.log = h.log ++ new → (∀ e ∈ new, e.tableless = true) → J h'
  freed : ∀ h k q status cause, h.pending k = some q → J h → J (h.freed k q status cause)

namespace TableBlind

variable {env : Env} {J : Host → Prop} (ht : TableBlind J)

include ht

variable {h h' : Host}

theorem unlogged (hj : J h) (hid : h.next_id ≤ h'.next_id) (hpending : h'.pending = h.pending)
    (hlog : h'.log = h.log) : J h' :=
  ht.same [] hj hid hpending (by rw [hlog, List.append_nil]) (by simp)

theorem change (hc : TrackerChange h h') (hj : J h) : J h' := by
  obtain ⟨new, hlog, hnew⟩ := hc.log
  exact ht.same new hj (Nat.le_of_eq hc.next_id.symm) hc.pending hlog fun e he =>
    ofTracker_tableless (hnew e he)

theorem reset (hj : J h) (hid : h'.next_id = h.next_id) (hpending : h'.pending = h.pending)
    (hlog : h'.log = h.log ++ [.provReset]) : J h' := by
  refine ht.same _ hj (Nat.le_of_eq hid.symm) hpending hlog ?_
  intro e he
  rw [List.mem_singleton.mp he]
  rfl

theorem closed : RequestBlind linkClosed J where
  change hc hj := ht.change hc hj
  phase _ _ _ _ hj := ht.unlogged hj (Nat.le_refl _) rfl rfl
  request h _ _ _ _ _ _ _ _ _ hj := by
    unfold demuxRequest
    split
    · exact hj
    split
    · exact hj
    · exact ht.unlogged hj (Nat.le_succ _) rfl rfl
  freed := ht.freed
  attaching _ _ hj := ht.reset hj rfl rfl rfl

theorem goDown {h : Host} (hj : J h) : J (goDown env h) := by
  have hdown : J { h with ep_state := .down } := ht.unlogged hj (Nat.le_refl _) rfl rfl
  have hdrop : J (dropRequests env linkClosed { h with ep_state := .down }) :=
    ht.closed.dropRequests hdown
  have hlink : J { dropRequests env linkClosed { h with ep_state := .down } with link := .down } :=
    ht.unlogged hdrop (Nat.le_refl _) rfl rfl
  have hpush := ht.closed.tracker.evqPush hlink (linkEvent .down)
  have hforget : J { Host.evqPush
      { dropRequests env linkClosed { h with ep_state := .down } with link := .down }
      (linkEvent .down) with identity := none } := ht.unlogged hpush (Nat.le_refl _) rfl rfl
  exact ht.reset hforget rfl rfl rfl

theorem linkSend {h : Host} (hj : J h) (f : LinkFrame) : J (linkSend env h f).1 := by
  have hqueued : J ({ h with sends := h.sends + 1 }.note (.queued f)) := by
    refine ht.same [.queued f] hj (Nat.le_refl _) rfl rfl ?_
    intro e he
    rw [List.mem_singleton.mp he]
    rfl
  unfold motioncore.host.linkSend
  split
  · exact hj
  dsimp only
  split
  · exact ht.unlogged hj (Nat.le_refl _) rfl rfl
  · exact hqueued
  · exact ht.goDown hqueued

theorem sendRaw (hj : J h) (opcode : UInt16) (payload : List UInt8) :
    J (demuxSendRaw (motioncore.host.linkSend env) h opcode payload) := by
  have hseq : J { h with tx_seq := h.tx_seq + 1 } := ht.unlogged hj (Nat.le_refl _) rfl rfl
  exact ht.linkSend hseq _

/-- When the requests of the host keep the property on its own link. -/
theorem ladder (hrequest : ∀ h hdr args_len addr opcode body cb handle, cb ≠ .ungated → J h →
    J (demuxRequest (motioncore.host.linkSend env) h hdr args_len addr opcode body cb handle).1) :
    LadderBlind (motioncore.host.linkSend env) J where
  change hc hj := ht.change hc hj
  phase _ _ _ _ hj := ht.unlogged hj (Nat.le_refl _) rfl rfl
  request h _ _ _ _ _ _ _ _ hcb hj := hrequest h _ _ _ _ _ _ _ hcb hj
  freed := ht.freed
  attaching _ _ hj := ht.reset hj rfl rfl rfl
  ladder hc hj := ht.unlogged hj (Nat.le_of_eq hc.next_id.symm) hc.pending hc.log
  raw _ _ _ _ hj := ht.sendRaw hj _ _
  resync _ hj := ht.reset hj rfl rfl rfl

/-- Each step of the host keeps the property. Only the request that a client sends is looked at
on its own. -/
theorem step (hrequest : ∀ h hdr args_len addr opcode body cb handle, cb ≠ .ungated → J h →
      J (demuxRequest (motioncore.host.linkSend env) h hdr args_len addr opcode body cb handle).1)
    (hj : J h) {op : Op}
    (hclient : ∀ addr command_id args cb, op = .sendShell addr command_id args cb →
      J (demuxSendShellTo (motioncore.host.linkSend env) h addr command_id args cb).1)
    (hstep : step env h op = some h') : J h' := by
  have hl : LadderBlind (motioncore.host.linkSend env) J := ht.ladder hrequest
  cases op with
  | frame f =>
    cases hstep
    exact hl.onLinkFrame hj f
  | linkUp =>
    rcases step_cases hstep with ⟨-, rfl⟩ | rfl
    · have hup : J { h with ep_state := .up, link := .up } :=
        ht.unlogged hj (Nat.le_refl _) rfl rfl
      exact hl.tracker.evqPush hup (linkEvent .up)
    · exact hj
  | linkDown =>
    rcases step_cases hstep with ⟨-, rfl⟩ | rfl
    · exact ht.goDown hj
    · exact hj
  | demuxSweep =>
    cases hstep
    exact hl.demuxSweep hj
  | manifestDue =>
    cases hstep
    unfold manifestDue
    split
    · exact ht.unlogged (ht.sendRaw hj OP_GET_MANIFEST []) (Nat.le_refl _) rfl rfl
    · exact hj
  | provGate =>
    cases hstep
    exact hl.provGate hj
  | trackerPoll =>
    cases hstep
    exact hl.tracker.trackerPoll hj
  | reconcile =>
    cases hstep
    exact hl.reconcileInterlocks hj
  | submit c =>
    cases hstep
    exact hl.tracker.submit hj c
  | sendShell dest_addr command_id args cb =>
    obtain ⟨-, rfl⟩ := step_cases hstep
    exact hclient _ _ _ _ rfl
  | addSlave addr =>
    cases hstep
    exact hl.tracker.addSlave hj addr
  | attachRoster fuel r => exact hl.attachRoster hj hstep
  | drain =>
    cases hstep
    exact hl.drained hj _
  | tick ms =>
    cases hstep
    exact ht.unlogged hj (Nat.le_refl _) rfl rfl

end TableBlind

end motioncore.host
