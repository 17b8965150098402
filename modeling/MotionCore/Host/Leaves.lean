-- From the leaf functions of the host to the whole host. A property that each
-- leaf keeps is kept by the frames of the dongle, by a link that goes up or
-- down, and by the parts of `controller_poll`.
import MotionCore.Host.Controller

open motioncore.ring

namespace motioncore.host

/-! ## What the controller changes on its own -/

/-- Two states that differ only in what the controller keeps for itself: the
ladder, the identity, the reconciliation and the events for the client. -/
structure SameCore (h h' : Host) : Prop where
  ep_state : h'.ep_state = h.ep_state
  next_id : h'.next_id = h.next_id
  pending : h'.pending = h.pending
  slots : h'.slots = h.slots
  next_handle : h'.next_handle = h.next_handle
  now : h'.now = h.now
  have_roster : h'.have_roster = h.have_roster
  roster : h'.roster = h.roster
  prov : h'.prov = h.prov
  prov_idx : h'.prov_idx = h.prov_idx
  clock : h'.clock = h.clock
  log : h'.log = h.log

theorem evqPush_core (h : Host) (e : CtrlEvent) : SameCore h (h.evqPush e) := by
  unfold Host.evqPush
  split
  · constructor <;> rfl
  · constructor <;> rfl

/-! ## The leaves -/

/-- A property that the leaf functions keep, where the ladder is started again
only in a state that is `Quiet`. The flags of the slaves are left out. -/
structure CalmLeaves (env : Env) (send : Send) (Quiet J : Host → Prop) : Prop where
  core : ∀ {h h'}, SameCore h h' → J h → J h'
  quiet : ∀ {h h'}, SameCore h h' → Quiet h → Quiet h'
  raw : ∀ h opcode payload, J h → J (demuxSendRaw send h opcode payload)
  shell : ∀ h addr command_id args cb, cb.ofClient = true → J h →
    J (demuxSendShellTo send h addr command_id args cb).1
  resetSync : ∀ h, Quiet h → J h → J (resetSync h)
  linkDown : ∀ h k, J h → J (resolve env send h k DEMUX_STATUS_LINK_DOWN [] .linkDown)
  ack : ∀ h addr req_id, J h → J (cmdTrackerOnAck h addr req_id)
  nak : ∀ h addr req_id, J h → J (cmdTrackerOnNak env send h addr req_id)
  interlock : ∀ h addr msg, J h → J (cmdTrackerOnInterlockMsg h addr msg)

/-- A property that the flags of the slaves keep as well. -/
structure Leaves (env : Env) (send : Send) (Quiet J : Host → Prop) : Prop
    extends CalmLeaves env send Quiet J where
  flagged : ∀ h addr flags, J h → J (cmdTrackerOnFlagged send h addr flags)

/-- The dongle was reset under us: it announces itself in the middle of a session. -/
def Resyncs (h : Host) (f : LinkFrame) : Prop :=
  f.cmd = OP_REGISTER ∧ (h.proto = .operational ∨ h.proto = .manifestOk)

/-- The address and the flags in a frame that reports the flags of a slave. -/
def flagsOf (f : LinkFrame) : Option (UInt8 × UInt8) :=
  if (f.cmd = OP_BUS_SLAVE_FLAGGED ∨ f.cmd = OP_BUS_STATUS_REPORT) ∧ 2 ≤ f.payload.length then
    some (f.payload.getD 0 0, f.payload.getD 1 0)
  else none

/-- The requests that wait when the link goes down are resolved. -/
def dropRequests (env : Env) (send : Send) (h : Host) : Host :=
  (List.finRange PENDING_MAX).foldl
    (fun h k => resolve env send h k DEMUX_STATUS_LINK_DOWN [] .linkDown) h

variable {J : Host → Prop}

theorem foldl_keeps {α : Type} {f : Host → α → Host} (hf : ∀ h a, J h → J (f h a)) {h : Host}
    (hj : J h) (l : List α) : J (l.foldl f h) := by
  induction l generalizing h with
  | nil => exact hj
  | cons a l ih => exact ih (hf h a hj)

theorem ite_keeps_of {c : Prop} [Decidable c] {a b : Host} (ha : c → J a) (hb : ¬ c → J b) :
    J (if c then a else b) := by
  by_cases hc : c
  · rw [if_pos hc]
    exact ha hc
  · rw [if_neg hc]
    exact hb hc

theorem ite_keeps {c : Prop} [Decidable c] {a b : Host} (ha : J a) (hb : J b) :
    J (if c then a else b) := ite_keeps_of (fun _ => ha) fun _ => hb

namespace CalmLeaves

variable {env : Env} {send : Send} {Quiet J : Host → Prop} (hl : CalmLeaves env send Quiet J)

include hl

theorem driveBoot {h : Host} (hj : J h) : J (driveBoot send h) := by
  unfold motioncore.host.driveBoot
  dsimp only
  split
  · exact hj
  · refine hl.core ?_ (hl.raw h OP_REGISTER_ACK [] hj)
    constructor <;> rfl

theorem onRegister {h : Host} (hj : J h)
    (hq : h.proto = .operational ∨ h.proto = .manifestOk → Quiet h) (payload : List UInt8) :
    J (onRegister send h payload) := by
  have hsame : SameCore h (learnIdentity h payload) ∧
      (learnIdentity h payload).proto = h.proto := by
    unfold learnIdentity
    split
    · exact ⟨by constructor <;> rfl, rfl⟩
    · exact ⟨by constructor <;> rfl, rfl⟩
  have hreset : J (resyncOnReset (learnIdentity h payload)) := by
    unfold resyncOnReset
    split
    · rename_i hproto
      rw [hsame.2] at hproto
      exact hl.resetSync _ (hl.quiet hsame.1 (hq hproto)) (hl.core hsame.1 hj)
    · exact hl.core hsame.1 hj
  have hboot : J (enterBoot (resyncOnReset (learnIdentity h payload))) := by
    unfold enterBoot
    split
    · refine hl.core ?_ hreset
      constructor <;> rfl
    · exact hreset
  unfold motioncore.host.onRegister
  dsimp only
  split
  · exact hl.driveBoot hboot
  · exact hboot

theorem onManifestReply {h : Host} (hj : J h) (payload : List UInt8) :
    J (onManifestReply send h payload) := by
  have hstore : J { storeManifest h payload with get_manifest_pending := false } := by
    refine hl.core ?_ hj
    unfold storeManifest
    split
    · constructor <;> rfl
    · constructor <;> rfl
  refine hl.core ?_ (hl.raw _ OP_OPERATIONAL_BEGIN [] hstore)
  constructor <;> rfl

theorem onHeartbeat {h : Host} (hj : J h) : J (onHeartbeat h) := by
  unfold motioncore.host.onHeartbeat
  split
  · refine hl.core ?_ hj
    constructor <;> rfl
  · exact hj

theorem evqPush {h : Host} (hj : J h) (e : CtrlEvent) : J (h.evqPush e) :=
  hl.core (evqPush_core h e) hj

theorem onEvent {h : Host} (hj : J h) (f : LinkFrame) (hq : Resyncs h f → Quiet h)
    (hf : ∀ addr flags, flagsOf f = some (addr, flags) → J (cmdTrackerOnFlagged send h addr flags)) :
    J (onEvent env send h f) := by
  have hflagged : f.cmd = OP_BUS_SLAVE_FLAGGED ∨ f.cmd = OP_BUS_STATUS_REPORT →
      2 ≤ f.payload.length →
      J (cmdTrackerOnFlagged send h (f.payload.getD 0 0) (f.payload.getD 1 0)) := by
    intro hcmd hlen
    exact hf _ _ (if_pos ⟨hcmd, hlen⟩)
  unfold motioncore.host.onEvent
  refine ite_keeps_of (fun hcmd => hl.onRegister hj (fun hproto => hq ⟨hcmd, hproto⟩) _) fun _ => ?_
  refine ite_keeps (hl.onManifestReply hj _) ?_
  refine ite_keeps (hl.onHeartbeat hj) ?_
  refine ite_keeps (ite_keeps (hl.evqPush hj _) hj) ?_
  refine ite_keeps (ite_keeps (hl.evqPush hj _) hj) ?_
  refine ite_keeps_of (fun hcmd => ?_) fun _ => ?_
  · refine ite_keeps_of (fun hlen => ?_) fun _ => hj
    exact hl.evqPush (hflagged (Or.inl hcmd) hlen) _
  refine ite_keeps (ite_keeps (hl.ack _ _ _ hj) hj) ?_
  refine ite_keeps (ite_keeps (hl.nak _ _ _ hj) hj) ?_
  refine ite_keeps (hl.evqPush (hl.interlock _ _ _ hj) _) ?_
  refine ite_keeps_of (fun hcmd => ?_) fun _ => hj
  refine ite_keeps_of (fun hlen => ?_) fun _ => hj
  refine hl.core ?_ (hflagged (Or.inr hcmd) hlen)
  constructor <;> rfl

theorem onLinkFrame {h : Host} (hj : J h) (f : LinkFrame)
    (hreply : J (onShellReply env send h f.payload)) (hq : Resyncs h f → Quiet h)
    (hf : ∀ addr flags, flagsOf f = some (addr, flags) → J (cmdTrackerOnFlagged send h addr flags)) :
    J (onLinkFrame env send h f) := by
  unfold motioncore.host.onLinkFrame
  split
  · exact hreply
  · exact hl.onEvent hj f hq hf

theorem onState {h : Host} (hj : J h) (st : LinkState) (hq : st = .down → Quiet h) :
    J (onState h st) := by
  have hlink : J ({ h with link := st }.evqPush (linkEvent st)) := by
    refine hl.evqPush (hl.core ?_ hj) _
    constructor <;> rfl
  unfold motioncore.host.onState
  cases st with
  | down =>
    have hfirst : SameCore h { h with link := .down } := by constructor <;> rfl
    have hlast : SameCore ({ h with link := .down }.evqPush (linkEvent .down))
        { { h with link := .down }.evqPush (linkEvent .down) with identity := none } := by
      constructor <;> rfl
    refine hl.resetSync _ ?_ (hl.core hlast hlink)
    exact hl.quiet hlast (hl.quiet (evqPush_core _ _) (hl.quiet hfirst (hq rfl)))
  | up => exact hlink

theorem dropRequests {h : Host} (hj : J h) : J (dropRequests env send h) := by
  refine foldl_keeps ?_ hj _
  exact fun h k hj => hl.linkDown h k hj

theorem onLinkState {h : Host} (hj : J h) (st : LinkState)
    (hq : st = .down → Quiet (motioncore.host.dropRequests env send h)) :
    J (onLinkState env send h st) := by
  unfold motioncore.host.onLinkState
  cases st with
  | down => exact hl.onState (hl.dropRequests hj) .down fun _ => hq rfl
  | up => exact hl.onState hj .up fun hup => LinkState.noConfusion hup

theorem manifestDue {h : Host} (hj : J h) : J (manifestDue send h) := by
  unfold motioncore.host.manifestDue
  split
  · refine hl.core ?_ (hl.raw h OP_GET_MANIFEST [] hj)
    constructor <;> rfl
  · exact hj

theorem setGap {h : Host} (hj : J h) (i : Fin ROSTER_MAX_SLAVES) (t : Nat) : J (h.setGap i t) := by
  refine hl.core ?_ hj
  constructor <;> rfl

theorem sendRepush {h : Host} (hj : J h) (i : Fin ROSTER_MAX_SLAVES) (addr : UInt8) :
    J (sendRepush send h i addr) := by
  have hsent := hl.shell h addr CMD_INTERLOCK_REPUSH [] .null rfl hj
  unfold motioncore.host.sendRepush
  generalize (demuxSendShellTo send h addr CMD_INTERLOCK_REPUSH [] .null).1 = r at hsent ⊢
  refine hl.core ?_ hsent
  constructor <;> rfl

theorem reconcileSlave {h : Host} (hj : J h) (i : Fin ROSTER_MAX_SLAVES) :
    J (reconcileSlave send h i) := by
  unfold motioncore.host.reconcileSlave
  refine ite_keeps hj ?_
  dsimp only
  split
  · exact hl.setGap hj i 0
  · refine ite_keeps (hl.setGap hj i 0) (ite_keeps (hl.setGap hj i _) ?_)
    exact ite_keeps (hl.setGap hj i _) (hl.sendRepush (hl.setGap hj i _) i _)

theorem reconcileInterlocks {h : Host} (hj : J h) : J (reconcileInterlocks send h) := by
  unfold motioncore.host.reconcileInterlocks
  split
  · refine foldl_keeps ?_ hj _
    exact fun h i hj => hl.reconcileSlave hj i
  · exact hj

end CalmLeaves

theorem Leaves.onLinkFrame {env : Env} {send : Send} {Quiet : Host → Prop}
    (hl : Leaves env send Quiet J) {h : Host} (hj : J h) (f : LinkFrame)
    (hreply : J (onShellReply env send h f.payload)) (hq : Resyncs h f → Quiet h) :
    J (onLinkFrame env send h f) :=
  hl.toCalmLeaves.onLinkFrame hj f hreply hq fun addr flags _ => hl.flagged h addr flags hj

end motioncore.host
