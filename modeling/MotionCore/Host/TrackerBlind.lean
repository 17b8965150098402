-- Properties of the host that do not look at the command tracker. When the
-- requests of the tracker keep such a property, so does every function of it.
import MotionCore.Host.Leaves
import MotionCore.Lib.Trace

open motioncore.ring motioncore.machine motioncore.trace

namespace motioncore.host

/-! ## What the tracker changes on its own -/

def Ev.ofTracker : Ev → Bool
  | .accepted .. => true
  | .acked .. => true
  | .done .. => true
  | .cleared _ => true
  | _ => false

/-- Two states that differ in the tracker, and in events of the tracker. -/
structure TrackerChange (h h' : Host) : Prop where
  ep_state : h'.ep_state = h.ep_state
  next_id : h'.next_id = h.next_id
  pending : h'.pending = h.pending
  identity : h'.identity = h.identity
  proto : h'.proto = h.proto
  have_roster : h'.have_roster = h.have_roster
  roster : h'.roster = h.roster
  prov : h'.prov = h.prov
  prov_idx : h'.prov_idx = h.prov_idx
  clock : h'.clock = h.clock
  log : ∃ new : List Ev, h'.log = h.log ++ new ∧ ∀ e ∈ new, e.ofTracker = true

variable (h : Host)

theorem TrackerChange.setSlot (i : Fin SLOT_MAX) (s : Slot) : TrackerChange h (h.setSlot i s) := by
  exact ⟨rfl, rfl, rfl, rfl, rfl, rfl, rfl, rfl, rfl, rfl, Adds.refl _⟩

theorem TrackerChange.note {e : Ev} (he : e.ofTracker = true) : TrackerChange h (h.note e) := by
  exact ⟨rfl, rfl, rfl, rfl, rfl, rfl, rfl, rfl, rfl, rfl, (Adds.refl _).snoc he⟩

theorem TrackerChange.evqPush (e : CtrlEvent) : TrackerChange h (h.evqPush e) := by
  unfold Host.evqPush
  split
  · exact ⟨rfl, rfl, rfl, rfl, rfl, rfl, rfl, rfl, rfl, rfl, Adds.refl _⟩
  · exact ⟨rfl, rfl, rfl, rfl, rfl, rfl, rfl, rfl, rfl, rfl, Adds.refl _⟩

/-- A property that the tracker keeps, because it is blind to it. -/
structure TrackerBlind (send : Send) (J : Host → Prop) : Prop where
  change : ∀ {h h'}, TrackerChange h h' → J h → J h'
  request : ∀ h args_len addr body i handle, J h →
    J (demuxRequest send h BUS_EXEC_HDR args_len addr OP_BUS_EXEC body (.slot i) handle).1

namespace TrackerBlind

variable {env : Env} {send : Send} {J : Host → Prop} (hb : TrackerBlind send J)

include hb

variable {h : Host}

theorem setSlot (hj : J h) (i : Fin SLOT_MAX) (s : Slot) : J (h.setSlot i s) :=
  hb.change (TrackerChange.setSlot h i s) hj

theorem sendInflight {h : Host} (hj : J h) (i : Fin SLOT_MAX) : J (sendInflight send h i).1 := by
  have hreq := hb.request h (h.slots i).inflight.args.length (h.slots i).addr
    (busExecBody (h.slots i).inflight.command_id
      (wireTimeout (h.slots i).inflight.exec_timeout_ms) (h.slots i).inflight.args) i
      (h.slots i).inflight.handle hj
  unfold motioncore.host.sendInflight demuxSendBusExec
  dsimp only
  generalize demuxRequest send h BUS_EXEC_HDR _ _ _ _ _ _ = r at hreq ⊢
  split
  · exact hb.setSlot hreq i _
  · exact hb.setSlot (hb.setSlot hreq i _) i _

theorem pumpSlot {h : Host} (hj : J h) (i : Fin SLOT_MAX) : J (pumpSlot send h i) := by
  have hsent : ∀ s, J (motioncore.host.sendInflight send (h.setSlot i s) i).1 :=
    fun s => hb.sendInflight (hb.setSlot hj i s) i
  unfold motioncore.host.pumpSlot
  dsimp only
  refine ite_keeps hj (ite_keeps hj ?_)
  exact ite_keeps (hb.setSlot (hsent _) i _) (hb.setSlot (hsent _) i _)

theorem submit (hj : J h) (c : Submit) : J (cmdTrackerSubmit send h c).1 := by
  unfold cmdTrackerSubmit
  split
  · exact hj
  split
  · exact hj
  split
  · exact hj
  rename_i i _ _
  have hnext : J { h with next_handle := h.next_handle + 1 } := by
    refine hb.change ?_ hj
    exact ⟨rfl, rfl, rfl, rfl, rfl, rfl, rfl, rfl, rfl, rfl, Adds.refl _⟩
  refine hb.pumpSlot (hb.change (TrackerChange.note _ rfl) ?_) i
  exact hb.setSlot hnext i _

theorem submitAll {h : Host} (hj : J h) (cs : List Submit) : J (submitAll send h cs) := by
  refine foldl_keeps ?_ hj cs
  exact fun h c hj => hb.submit hj c

theorem evqPush (hj : J h) (e : CtrlEvent) : J (h.evqPush e) :=
  hb.change (TrackerChange.evqPush h e) hj

theorem runDone {h : Host} (hj : J h) (cb : DoneCb) (handle : Nat) (addr status : UInt8)
    (result : List UInt8) : J (runDone env send h cb handle addr status result) := by
  unfold motioncore.host.runDone
  cases cb with
  | null => exact hj
  | event => exact hb.evqPush hj _
  | client =>
    refine hb.submitAll (hb.change ?_ hj) _
    exact ⟨rfl, rfl, rfl, rfl, rfl, rfl, rfl, rfl, rfl, rfl, Adds.refl _⟩

theorem completeInflight {h : Host} (hj : J h) (i : Fin SLOT_MAX) (status : UInt8)
    (result : List UInt8) (cause : Cause) :
    J (completeInflight env send h i status result cause) := by
  unfold motioncore.host.completeInflight
  refine ite_keeps ?_ hj
  refine hb.runDone (hb.change (TrackerChange.note _ rfl) ?_) _ _ _ _ _
  exact hb.setSlot hj i _

theorem onTrackerReply {h : Host} (hj : J h) (i : Fin SLOT_MAX) (rid : UInt16) (status : UInt8)
    (result : List UInt8) (cause : Cause) :
    J (onTrackerReply env send h i rid status result cause) := by
  unfold motioncore.host.onTrackerReply
  exact ite_keeps hj (hb.pumpSlot (hb.completeInflight hj i status result cause) i)

theorem onAck (hj : J h) (addr : UInt8) (req_id : UInt16) : J (cmdTrackerOnAck h addr req_id) := by
  unfold cmdTrackerOnAck
  split
  · exact hj
  rename_i i _
  have hset : J (h.setSlot i
      { h.slots i with state := .inflight, ack_ms := h.now, retries := 0 }) := hb.setSlot hj i _
  refine ite_keeps hj (hb.change (TrackerChange.note _ rfl) (hb.change ?_ hset))
  exact ⟨rfl, rfl, rfl, rfl, rfl, rfl, rfl, rfl, rfl, rfl, Adds.refl _⟩

theorem onNak (hj : J h) (addr : UInt8) (req_id : UInt16) :
    J (cmdTrackerOnNak env send h addr req_id) := by
  unfold cmdTrackerOnNak
  split
  · exact hj
  rename_i i _
  refine ite_keeps hj (ite_keeps ?_ ?_)
  · exact hb.sendInflight (hb.setSlot hj i _) i
  · exact hb.pumpSlot (hb.completeInflight hj i _ _ _) i

theorem onFlagged (hj : J h) (addr flags : UInt8) : J (cmdTrackerOnFlagged send h addr flags) := by
  unfold cmdTrackerOnFlagged
  split
  · exact hj
  rename_i i _
  exact ite_keeps (hb.pumpSlot (hb.setSlot hj i _) i) (hb.setSlot hj i _)

theorem onInterlockMsg (hj : J h) (addr : UInt8) (msg : List UInt8) :
    J (cmdTrackerOnInterlockMsg h addr msg) := by
  unfold cmdTrackerOnInterlockMsg
  split
  · exact hj
  · exact hb.setSlot hj _ _

theorem pollSlot {h : Host} (hj : J h) (i : Fin SLOT_MAX) : J (pollSlot env send h i) := by
  unfold motioncore.host.pollSlot
  refine ite_keeps hj (ite_keeps (ite_keeps ?_ ?_) (ite_keeps (ite_keeps ?_ hj) (ite_keeps ?_ hj)))
  · exact hb.sendInflight (hb.setSlot hj i _) i
  · exact hb.pumpSlot (hb.completeInflight hj i _ _ _) i
  · exact hb.pumpSlot (hb.completeInflight hj i _ _ _) i
  · exact hb.pumpSlot hj i

theorem trackerPoll (hj : J h) : J (cmdTrackerPoll env send h) := by
  have hnow : J { h with now := h.clock } := by
    refine hb.change ?_ hj
    exact ⟨rfl, rfl, rfl, rfl, rfl, rfl, rfl, rfl, rfl, rfl, Adds.refl _⟩
  refine foldl_keeps ?_ hnow _
  exact fun h i hj => hb.pollSlot hj i

variable {h' : Host} {abort_status : UInt8} {fuel : Nat}

theorem drainQueue (hj : J h) {i : Fin SLOT_MAX}
    (hdrain : drainQueue env send h i abort_status fuel = some h') : J h' := by
  induction fuel generalizing h with
  | zero =>
    simp only [motioncore.host.drainQueue, Option.ite_none_right_eq_some,
      Option.some.injEq] at hdrain
    exact hdrain.2 ▸ hj
  | succ fuel ih =>
    unfold motioncore.host.drainQueue at hdrain
    dsimp only at hdrain
    split at hdrain
    · exact Option.some.inj hdrain ▸ hj
    · refine ih (hb.setSlot ?_ i _) hdrain
      exact hb.runDone (hb.change (TrackerChange.note _ rfl) hj) _ _ _ _ _

theorem resetSlot (hj : J h) {i : Fin SLOT_MAX}
    (hreset : resetSlot env send fuel abort_status h i = some h') : J h' := by
  unfold motioncore.host.resetSlot at hreset
  split at hreset
  · obtain ⟨g, hg, rfl⟩ := Option.map_eq_some_iff.mp hreset
    refine hb.change (TrackerChange.note _ rfl) (hb.setSlot ?_ i _)
    exact hb.drainQueue (hb.completeInflight hj i _ _ _) hg
  · exact Option.some.inj hreset ▸ hj

theorem reset (hj : J h) (hreset : cmdTrackerReset env send fuel h abort_status = some h') : J h' :=
  inv_runs (P := fun _ _ => True) (fun _ _ _ hj _ hreset => hb.resetSlot hj hreset) hj
    (Meets.of_forall (fun _ _ => trivial) _ _) hreset

theorem addSlave (hj : J h) (addr : UInt8) : J (cmdTrackerAddSlave h addr) := by
  unfold cmdTrackerAddSlave
  split
  · exact hj
  split
  · exact hj
  · exact hb.change (TrackerChange.note _ rfl) (hb.setSlot hj _ _)

end TrackerBlind

end motioncore.host
