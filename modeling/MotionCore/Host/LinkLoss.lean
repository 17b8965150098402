-- The loss of the link (`usb_link.c`, `demux.c`). A poll of the link delivers the
-- frames of one chunk and flushes what is staged; a read or a write that fails
-- takes the link down. A send also flushes, so the link may go down inside it:
-- then the sender goes on as if its frame was on the way.
import MotionCore.Host.RequestBlind

open motioncore.bytes motioncore.ring motioncore.bus motioncore.machine

namespace motioncore.host

/-! ## The polls of the host -/

/-- What the device answers in one `usb_poll`. -/
structure Device where
  /-- A link that is down can be opened. -/
  opens : Bool
  /-- A hangup, the end of the file, or a read that fails. -/
  hangup : Bool
  /-- The frames that are decoded from the chunk that was read. -/
  frames : List LinkFrame
  /-- The staged bytes are written, or wait, without an error. -/
  flushes : Bool

/-- `usb_poll`. The loop of `service_rx` delivers each frame of its chunk, also when a callback
has taken the link down. A link that is down is not flushed. -/
def usbPoll (ep_state : LinkState) (d : Device) : List Op :=
  match ep_state with
  | .down => if d.opens then [.linkUp] else []
  | .up =>
    if d.hangup then [.linkDown]
    else d.frames.map .frame ++ if d.flushes then [] else [.linkDown]

/-- Each part takes its time. -/
def paced (ms : Nat → Nat) (ops : List Op) : List Op :=
  ops.zipIdx.flatMap fun p => [p.1, .tick (ms p.2)]

inductive HostOp where
  /-- `controller_poll`. -/
  | poll (d : Device) (ms : Nat → Nat)
  /-- A call of the client, between two polls. -/
  | call (op : Op)

def Op.ofClient : Op → Bool
  | .submit _ => true
  | .sendShell .. => true
  | .addSlave _ => true
  | .attachRoster .. => true
  | .drain => true
  | .tick _ => true
  | _ => false

def hostOps (h : Host) : HostOp → List Op
  | .poll d ms => paced ms (usbPoll h.ep_state d ++ controllerPoll)
  | .call op => [op]

def HostOp.allowed : HostOp → Bool
  | .poll _ _ => true
  | .call op => op.ofClient

def hostStep (env : Env) (h : Host) (op : HostOp) : Option Host :=
  if op.allowed then runs (step env) h (hostOps h op) else none

/-! ## The law -/

/-- The demux and the controller hold nothing of the session. -/
structure NothingHeld (h : Host) : Prop where
  pending : ∀ k, h.pending k = none
  identity : h.identity = none
  proto : h.proto = .unknown

def endsOf (n : Nat) (log : List Ev) : List Ev :=
  log.filter fun e => match e with | .resolved m _ _ _ => m == n | _ => false

/-- When the link goes down, each request that was pending has one end, which is LINK_DOWN. -/
def LossLaw (env : Env) (h : Host) (op : Op) : Prop :=
  ∀ h', step env h op = some h' → h.ep_state = .up → h'.ep_state = .down →
    ∀ k p, h.pending k = some p →
      endsOf p.serial h'.log = [.resolved p.serial p.cb DEMUX_STATUS_LINK_DOWN .linkDown]

/-- No send takes the link down, but for the one that asks for the manifest: it registers nothing
and moves no state after it. -/
def Env.DropsOnlyManifest (env : Env) : Prop :=
  ∀ n f, env.link_send n f = .queuedThenDown → f.cmd = OP_GET_MANIFEST

variable {env : Env} {send : Send}

/-! ## The link stays up -/

def Up (h : Host) : Prop := h.ep_state = .up

variable {h : Host}

theorem linkSend_up (henv : env.DropsOnlyManifest) (hup : Up h) {f : LinkFrame}
    (hf : f.cmd ≠ OP_GET_MANIFEST) : Up (linkSend env h f).1 := by
  unfold linkSend
  split
  · exact hup
  dsimp only
  split
  · exact hup
  · exact hup
  · rename_i hdrop
    exact absurd (henv _ _ hdrop) hf

theorem request_up (henv : env.DropsOnlyManifest) (hup : Up h) (hdr args_len : Nat) (addr : UInt8)
    {opcode : UInt16} (hop : opcode ≠ OP_GET_MANIFEST) (body : UInt16 → List UInt8) (cb : ReplyCb)
    (handle : Nat) :
    Up (demuxRequest (linkSend env) h hdr args_len addr opcode body cb handle).1 := by
  have hsent := linkSend_up henv (h := { h with next_id := h.next_id + 1, tx_seq := h.tx_seq + 1 })
    hup (f := .mk addr opcode h.tx_seq (body (UInt16.ofNat h.next_id))) hop
  unfold demuxRequest
  split
  · exact hup
  split
  · exact hup
  unfold sendFrameAddr
  dsimp only
  split
  · exact hsent
  · exact hsent

theorem up_blind (henv : env.DropsOnlyManifest) : LadderBlind (linkSend env) Up where
  change hc hup := hc.ep_state.trans hup
  phase _ _ _ _ hup := hup
  request _ _ _ _ _ _ _ _ hop _ hup := request_up henv hup _ _ _ hop _ _ _
  freed _ _ _ _ _ _ hup := hup
  attaching _ _ hup := hup
  ladder hc hup := hc.ep_state.trans hup
  raw h opcode payload hop hup :=
    linkSend_up henv (h := { h with tx_seq := h.tx_seq + 1 }) hup (f := .mk _ opcode _ payload) hop
  resync _ hup := hup

variable {h' : Host} {op : Op}

/-- Only a link that is lost outside a send goes down, or one that is lost in the send of
GET_MANIFEST. -/
theorem step_up (henv : env.DropsOnlyManifest) (hup : Up h) (hdown : op ≠ .linkDown)
    (hmanifest : op ≠ .manifestDue) (hstep : step env h op = some h') : Up h' := by
  have hl : LadderBlind (linkSend env) Up := up_blind henv
  cases op with
  | frame f =>
    cases hstep
    exact hl.onLinkFrame hup f
  | linkUp =>
    unfold step at hstep
    dsimp only at hstep
    rw [if_neg (fun hdown => LinkState.noConfusion (hup.symm.trans hdown))] at hstep
    cases hstep
    exact hup
  | linkDown => exact absurd rfl hdown
  | demuxSweep =>
    cases hstep
    exact hl.demuxSweep hup
  | manifestDue => exact absurd rfl hmanifest
  | provGate =>
    cases hstep
    exact hl.provGate hup
  | trackerPoll =>
    cases hstep
    exact hl.tracker.trackerPoll hup
  | reconcile =>
    cases hstep
    exact hl.reconcileInterlocks hup
  | submit c =>
    cases hstep
    exact hl.tracker.submit hup c
  | sendShell dest_addr command_id args cb =>
    obtain ⟨-, rfl⟩ := step_cases hstep
    exact request_up henv hup _ _ _ (by decide) _ _ _
  | addSlave addr =>
    cases hstep
    exact hl.tracker.addSlave hup addr
  | attachRoster fuel r => exact hl.attachRoster hup hstep
  | drain =>
    cases hstep
    exact hup
  | tick ms =>
    cases hstep
    exact hup

/-! ## The link is down -/

structure Lost (h : Host) : Prop where
  down : h.ep_state = .down
  held : NothingHeld h

variable (env) in
theorem request_down {h : Host} (hdown : h.ep_state = .down) (hdr args_len : Nat) (addr : UInt8)
    (opcode : UInt16) (body : UInt16 → List UInt8) (cb : ReplyCb) (handle : Nat) :
    ∃ n t, demuxRequest (linkSend env) h hdr args_len addr opcode body cb handle =
      ({ h with next_id := n, tx_seq := t }, NO_REQUEST) := by
  unfold demuxRequest
  split
  · exact ⟨h.next_id, h.tx_seq, rfl⟩
  split
  · exact ⟨h.next_id, h.tx_seq, rfl⟩
  · unfold sendFrameAddr linkSend
    dsimp only
    rw [if_pos hdown]
    exact ⟨_, _, rfl⟩

theorem request_lost (hlost : Lost h) (hdr args_len : Nat) (addr : UInt8) (opcode : UInt16)
    (body : UInt16 → List UInt8) (cb : ReplyCb) (handle : Nat) :
    Lost (demuxRequest (linkSend env) h hdr args_len addr opcode body cb handle).1 := by
  obtain ⟨n, t, heq⟩ := request_down env hlost.down hdr args_len addr opcode body cb handle
  rw [heq]
  exact ⟨hlost.down, hlost.held.1, hlost.held.2, hlost.held.3⟩

theorem lost_blind : RequestBlind (linkSend env) Lost where
  change hc hlost := by
    refine ⟨hc.ep_state.trans hlost.down, ?_, hc.identity.trans hlost.held.identity,
      hc.proto.trans hlost.held.proto⟩
    rw [hc.pending]
    exact hlost.held.pending
  phase _ _ _ _ hlost := ⟨hlost.down, hlost.held.1, hlost.held.2, hlost.held.3⟩
  request _ _ _ _ _ _ _ _ _ _ hlost := request_lost hlost _ _ _ _ _ _ _
  freed _ k _ _ _ hq hlost :=
    absurd ((hlost.held.pending k).symm.trans hq) (Option.some_ne_none _).symm
  attaching _ _ hlost := ⟨hlost.down, hlost.held.1, hlost.held.2, hlost.held.3⟩

theorem down_blind : RequestBlind linkClosed (fun h => h.ep_state = .down) where
  change hc hdown := hc.ep_state.trans hdown
  phase _ _ _ _ hdown := hdown
  request h hdr args_len addr opcode body cb handle _ _ hdown := by
    unfold demuxRequest
    split
    · exact hdown
    split
    · exact hdown
    · exact hdown
  freed _ _ _ _ _ _ hdown := hdown
  attaching _ _ hdown := hdown

variable (env) in
theorem goDown_lost (h : Host) : Lost (goDown env h) := by
  have hdown : (dropRequests env linkClosed { h with ep_state := .down }).ep_state = .down :=
    down_blind.dropRequests rfl
  have hpending := dropRequests_empty env { h with ep_state := .down }
  have hcore := evqPush_core
    { dropRequests env linkClosed { h with ep_state := .down } with link := .down }
    (linkEvent .down)
  refine ⟨hcore.ep_state.trans hdown, ?_, rfl, rfl⟩
  intro k
  have hk := congrFun hcore.pending k
  exact hk.trans (hpending k)

/-- A link that is down stays down, and nothing is held, until it is opened. -/
theorem step_lost (hlost : Lost h) (hframe : ∀ f, op ≠ .frame f) (hopen : op ≠ .linkUp)
    (hstep : step env h op = some h') : Lost h' := by
  have hr : RequestBlind (linkSend env) Lost := lost_blind
  cases op with
  | frame f => exact absurd rfl (hframe f)
  | linkUp => exact absurd rfl hopen
  | linkDown =>
    unfold step at hstep
    dsimp only at hstep
    rw [if_neg (fun hup => LinkState.noConfusion (hup.symm.trans hlost.down))] at hstep
    cases hstep
    exact hlost
  | demuxSweep =>
    cases hstep
    exact hr.demuxSweep hlost
  | manifestDue =>
    cases hstep
    unfold manifestDue
    split
    · unfold demuxSendRaw sendFrameAddr linkSend
      dsimp only
      rw [if_pos hlost.down]
      exact ⟨hlost.down, hlost.held.1, hlost.held.2, hlost.held.3⟩
    · exact hlost
  | provGate =>
    cases hstep
    exact hr.provGate hlost
  | trackerPoll =>
    cases hstep
    exact hr.tracker.trackerPoll hlost
  | reconcile =>
    cases hstep
    exact hr.reconcileInterlocks hlost
  | submit c =>
    cases hstep
    exact hr.tracker.submit hlost c
  | sendShell dest_addr command_id args cb =>
    obtain ⟨-, rfl⟩ := step_cases hstep
    exact request_lost hlost _ _ _ _ _ _ _
  | addSlave addr =>
    cases hstep
    exact hr.tracker.addSlave hlost addr
  | attachRoster fuel r => exact hr.attachRoster hlost hstep
  | drain =>
    cases hstep
    exact hr.drained hlost _
  | tick ms =>
    cases hstep
    exact ⟨hlost.down, hlost.held.1, hlost.held.2, hlost.held.3⟩

variable (env) in
/-- The send of GET_MANIFEST leaves the link up, or loses it with nothing held. -/
theorem manifestDue_cases (h : Host) (hup : Up h) : (manifestDue (linkSend env) h).ep_state = .up ∨
      ∃ g, manifestDue (linkSend env) h = { goDown env g with get_manifest_pending := false } ∧
        g.pending = h.pending ∧
        g.log = h.log ++ [.queued (.mk DONGLE_ADDR OP_GET_MANIFEST h.tx_seq [])] ∧
        g.next_id = h.next_id := by
  unfold manifestDue
  split
  swap
  · exact Or.inl hup
  unfold demuxSendRaw sendFrameAddr linkSend
  dsimp only
  rw [if_neg (fun hdown => LinkState.noConfusion (hup.symm.trans hdown))]
  split
  · exact Or.inl hup
  · exact Or.inl hup
  · exact Or.inr ⟨_, rfl, rfl, rfl, rfl⟩

/-! ## Each request ends at most once -/

@[simp] theorem endsOf_append (n : Nat) (a b : List Ev) :
    endsOf n (a ++ b) = endsOf n a ++ endsOf n b :=
  List.filter_append ..

theorem endsOf_tableless {new : List Ev} (hnew : ∀ e ∈ new, e.tableless = true) (n : Nat) :
    endsOf n new = [] := by
  apply List.filter_eq_nil_iff.mpr
  intro e he
  have hless := hnew e he
  cases e with
  | resolved => exact absurd hless Bool.noConfusion
  | _ => exact Bool.false_ne_true

theorem endsOf_resolved (n m : Nat) (cb : ReplyCb) (status : UInt8) (cause : Cause) :
    endsOf n [.resolved m cb status cause] =
      if m = n then [.resolved m cb status cause] else [] := by
  simp [endsOf, List.filter_cons]

/-- The requests and their ends, where the id `o` may be set aside for a request that is not
registered yet. -/
structure Reserved (o : Option Nat) (h : Host) : Prop where
  aside : ∀ n ∈ o, n < h.next_id ∧ endsOf n h.log = [] ∧
    ∀ k p, h.pending k = some p → p.serial ≠ n
  later : ∀ n, h.next_id ≤ n → endsOf n h.log = []
  old : ∀ k p, h.pending k = some p → p.serial < h.next_id
  waits : ∀ k p, h.pending k = some p → endsOf p.serial h.log = []
  distinct : ∀ k l p q, h.pending k = some p → h.pending l = some q → p.serial = q.serial → k = l
  once : ∀ n, (endsOf n h.log).length ≤ 1

abbrev Serials (h : Host) : Prop := Reserved none h

theorem Reserved.same {o : Option Nat} (hs : Reserved o h) (hid : h.next_id ≤ h'.next_id)
    (hpending : h'.pending = h.pending) (hlog : ∀ n, endsOf n h'.log = endsOf n h.log) :
    Reserved o h' := by
  refine ⟨?_, ?_, ?_, ?_, ?_, ?_⟩
  · rw [hpending]
    intro n hn
    rw [hlog]
    exact ⟨Nat.lt_of_lt_of_le (hs.aside n hn).1 hid, (hs.aside n hn).2⟩
  · intro n hn
    rw [hlog]
    exact hs.later n (Nat.le_trans hid hn)
  · rw [hpending]
    exact fun k p hp => Nat.lt_of_lt_of_le (hs.old k p hp) hid
  · rw [hpending]
    intro k p hp
    rw [hlog]
    exact hs.waits k p hp
  · rw [hpending]
    exact hs.distinct
  · intro n
    rw [hlog]
    exact hs.once n

variable {k : Fin PENDING_MAX}

theorem Reserved.freed {o : Option Nat} (hs : Reserved o h) {q : Pending}
    (hq : h.pending k = some q) (status : UInt8) (cause : Cause) :
    Reserved o (h.freed k q status cause) := by
  have hold : ∀ l r, (h.freed k q status cause).pending l = some r →
      l ≠ k ∧ h.pending l = some r := by
    intro l r hr
    by_cases hl : l = k
    · subst hl
      simp [Host.freed, Host.note, Host.setPending] at hr
    · simp only [Host.freed, Host.note, Host.setPending, Function.update_of_ne hl] at hr
      exact ⟨hl, hr⟩
  have hends : ∀ n, endsOf n (h.freed k q status cause).log =
      endsOf n h.log ++ if q.serial = n then [.resolved q.serial q.cb status cause] else [] := by
    intro n
    rw [← endsOf_resolved, ← endsOf_append]
    rfl
  have hother : ∀ n, q.serial ≠ n → endsOf n (h.freed k q status cause).log = endsOf n h.log := by
    intro n hn
    rw [hends, if_neg hn, List.append_nil]
  refine ⟨?_, ?_, ?_, ?_, ?_, ?_⟩
  · intro n hn
    obtain ⟨hlt, hnone, hne⟩ := hs.aside n hn
    refine ⟨hlt, ?_, fun l r hr => hne l r (hold l r hr).2⟩
    rw [hother n (hne k q hq)]
    exact hnone
  · intro n hn
    rw [hother n (Nat.ne_of_lt (Nat.lt_of_lt_of_le (hs.old k q hq) hn))]
    exact hs.later n hn
  · exact fun l r hr => hs.old l r (hold l r hr).2
  · intro l r hr
    obtain ⟨hlk, hr⟩ := hold l r hr
    rw [hother _ fun heq => hlk (hs.distinct l k r q hr hq heq.symm)]
    exact hs.waits l r hr
  · exact fun l m r t hr ht => hs.distinct l m r t (hold l r hr).2 (hold m t ht).2
  · intro n
    by_cases hn : q.serial = n
    · subst hn
      rw [hends, if_pos rfl, hs.waits k q hq]
      exact Nat.le_refl 1
    · rw [hother n hn]
      exact hs.once n

theorem reserved_table (o : Option Nat) : TableBlind (Reserved o) where
  same new hs hid hpending hlog hnew := by
    refine hs.same hid hpending fun n => ?_
    rw [hlog, endsOf_append, endsOf_tableless hnew, List.append_nil]
  freed _ _ _ status cause hq hs := hs.freed hq status cause

variable {p : Pending}

/-- A request that is registered has a place in the order that no other one has. -/
theorem Reserved.register {n : Nat} (hs : Reserved (some n) h) (k : Fin PENDING_MAX)
    (hp : p.serial = n) (cb : ReplyCb) (handle : Nat) (f : LinkFrame) :
    Serials ((h.setPending k (some p)).note (.request n cb handle f)) := by
  obtain ⟨hlt, hnone, hne⟩ := hs.aside n rfl
  have hends : ∀ m, endsOf m ((h.setPending k (some p)).note (.request n cb handle f)).log =
      endsOf m h.log := fun m =>
    (endsOf_append m h.log [.request n cb handle f]).trans (List.append_nil _)
  have hat : ∀ l r, (h.setPending k (some p)).pending l = some r →
      l = k ∧ r = p ∨ l ≠ k ∧ h.pending l = some r := by
    intro l r hr
    by_cases hl : l = k
    · subst hl
      simp only [Host.setPending, Function.update_self] at hr
      exact Or.inl ⟨rfl, (Option.some.inj hr).symm⟩
    · simp only [Host.setPending, Function.update_of_ne hl] at hr
      exact Or.inr ⟨hl, hr⟩
  refine ⟨fun _ hnone => absurd hnone (Option.not_mem_none _), ?_, ?_, ?_, ?_, ?_⟩
  · intro m hm
    rw [hends]
    exact hs.later m hm
  · intro l r hr
    rcases hat l r hr with ⟨-, rfl⟩ | ⟨-, hr⟩
    · rw [hp]
      exact hlt
    · exact hs.old l r hr
  · intro l r hr
    rw [hends]
    rcases hat l r hr with ⟨-, rfl⟩ | ⟨-, hr⟩
    · rw [hp]
      exact hnone
    · exact hs.waits l r hr
  · intro l m r t hr ht heq
    rcases hat l r hr with ⟨hl, hrp⟩ | ⟨-, hr⟩
    · rcases hat m t ht with ⟨hm, -⟩ | ⟨-, ht⟩
      · exact hl.trans hm.symm
      · rw [hrp, hp] at heq
        exact absurd heq.symm (hne m t ht)
    · rcases hat m t ht with ⟨-, htp⟩ | ⟨-, ht⟩
      · rw [htp, hp] at heq
        exact absurd heq (hne l r hr)
      · exact hs.distinct l m r t hr ht heq
  · intro m
    rw [hends]
    exact hs.once m

theorem request_serials (hs : Serials h) (hdr args_len : Nat) (addr : UInt8) (opcode : UInt16)
    (body : UInt16 → List UInt8) (cb : ReplyCb) (handle : Nat) :
    Serials (demuxRequest (linkSend env) h hdr args_len addr opcode body cb handle).1 := by
  have haside : Reserved (some h.next_id)
      { h with next_id := h.next_id + 1, tx_seq := h.tx_seq + 1 } := by
    have hsame : Serials { h with next_id := h.next_id + 1, tx_seq := h.tx_seq + 1 } :=
      hs.same (Nat.le_succ _) rfl fun _ => rfl
    refine ⟨?_, hsame.later, hsame.old, hsame.waits, hsame.distinct, hsame.once⟩
    intro n hn
    obtain rfl := Option.some.inj hn
    exact ⟨Nat.lt_succ_self _, hs.later _ (Nat.le_refl _),
      fun k p hp => Nat.ne_of_lt (hs.old k p hp)⟩
  let f : LinkFrame := .mk addr opcode h.tx_seq (body (UInt16.ofNat h.next_id))
  have hsent : Reserved (some h.next_id) (linkSend env
      { h with next_id := h.next_id + 1, tx_seq := h.tx_seq + 1 } f).1 :=
    (reserved_table _).linkSend haside f
  unfold demuxRequest
  split
  · exact hs
  split
  · exact hs
  unfold sendFrameAddr
  dsimp only
  split
  · exact hsent.register _ rfl _ _ _
  · exact ⟨fun _ hnone => absurd hnone (Option.not_mem_none _), hsent.later, hsent.old, hsent.waits,
      hsent.distinct, hsent.once⟩

theorem step_serials (hs : Serials h) (hstep : step env h op = some h') : Serials h' :=
  (reserved_table none).step (fun _ _ _ _ _ _ _ _ _ hs => request_serials hs _ _ _ _ _ _ _) hs
    (fun _ _ _ _ _ => request_serials hs _ _ _ _ _ _ _) hstep

/-! ## The requests of a link that goes down -/

/-- The end that a lost link gives to a request. -/
def lossOf (p : Pending) : Ev := .resolved p.serial p.cb DEMUX_STATUS_LINK_DOWN .linkDown

/-- The places `S` of the table `pending` are resolved, and the other ones are as they were. -/
structure Dropping (pending : Fin PENDING_MAX → Option Pending) (S : Fin PENDING_MAX → Prop)
    (h : Host) : Prop where
  rest : ∀ l, ¬ S l → h.pending l = pending l
  ended : ∀ l p, S l → pending l = some p → lossOf p ∈ h.log

variable {pending : Fin PENDING_MAX → Option Pending} {S : Fin PENDING_MAX → Prop}

theorem dropping_blind : TrackerBlind linkClosed (Dropping pending S) where
  change hc hd := by
    obtain ⟨new, hlog, -⟩ := hc.log
    refine ⟨?_, ?_⟩
    · rw [hc.pending]
      exact hd.rest
    · rw [hlog]
      exact fun l p hl hp => List.mem_append_left _ (hd.ended l p hl hp)
  request h _ _ _ _ _ hd := by
    unfold demuxRequest
    split
    · exact hd
    split
    · exact hd
    · exact ⟨hd.rest, hd.ended⟩

variable (env) in
theorem resolve_dropping {h : Host} (hd : Dropping pending S h) (k : Fin PENDING_MAX) :
    Dropping pending (fun l => S l ∨ l = k)
      (resolve env linkClosed h k DEMUX_STATUS_LINK_DOWN [] .linkDown) := by
  cases hq : h.pending k with
  | none =>
    unfold resolve
    rw [hq]
    refine ⟨fun l hl => hd.rest l fun hS => hl (Or.inl hS), ?_⟩
    intro l p hl hp
    by_cases hS : S l
    · exact hd.ended l p hS hp
    · obtain rfl := hl.resolve_left hS
      rw [← hd.rest l hS, hq] at hp
      exact absurd hp (Option.some_ne_none p).symm
  | some q =>
    have hfreed : Dropping pending (fun l => S l ∨ l = k)
        (h.freed k q DEMUX_STATUS_LINK_DOWN .linkDown) := by
      refine ⟨?_, ?_⟩
      · intro l hl
        have hlk : l ≠ k := fun heq => hl (Or.inr heq)
        simp only [Host.freed, Host.note, Host.setPending, Function.update_of_ne hlk]
        exact hd.rest l fun hS => hl (Or.inl hS)
      · intro l p hl hp
        by_cases hS : S l
        · exact List.mem_append_left _ (hd.ended l p hS hp)
        · obtain rfl := hl.resolve_left hS
          rw [← hd.rest l hS, hq] at hp
          obtain rfl := Option.some.inj hp
          exact List.mem_append_right _ (List.mem_singleton.mpr rfl)
    rw [resolve_eq hq]
    unfold replyCb
    cases q.cb with
    | slot i => exact dropping_blind.onTrackerReply hfreed i _ _ _ _
    | prov =>
      unfold onProvReply
      rw [if_pos (by decide)]
      exact ⟨hfreed.rest, hfreed.ended⟩
    | ungated => exact dropping_blind.evqPush hfreed _
    | client => exact hfreed
    | null => exact hfreed

theorem dropRequests_ended (h : Host) (hp : h.pending k = some p) :
    lossOf p ∈ (dropRequests env linkClosed h).log := by
  have hfold : ∀ (ks : List (Fin PENDING_MAX)) (S : Fin PENDING_MAX → Prop) (g : Host),
      Dropping h.pending S g → Dropping h.pending (fun l => S l ∨ l ∈ ks)
        (ks.foldl
          (fun g k => resolve env linkClosed g k DEMUX_STATUS_LINK_DOWN [] .linkDown) g) := by
    intro ks
    induction ks with
    | nil =>
      intro S g hd
      simpa using hd
    | cons k ks ih =>
      intro S g hd
      have hrest := ih _ _ (resolve_dropping env hd k)
      simpa [or_assoc] using hrest
  have hnone : Dropping h.pending (fun _ => False) h := ⟨fun _ _ => rfl, fun _ _ hf => hf.elim⟩
  exact (hfold (List.finRange PENDING_MAX) _ h hnone).ended k p (Or.inr (List.mem_finRange k)) hp

theorem goDown_log (h : Host) : (goDown env h).log =
      (dropRequests env linkClosed { h with ep_state := .down }).log ++ [.provReset] := by
  have hcore := evqPush_core
    { dropRequests env linkClosed { h with ep_state := .down } with link := .down }
    (linkEvent .down)
  exact congrArg (· ++ [.provReset]) hcore.log

/-- A link that goes down gives each pending request its one end. -/
theorem goDown_ends (hs : Serials h) (hp : h.pending k = some p) :
    endsOf p.serial (goDown env h).log = [lossOf p] := by
  have hended : lossOf p ∈ endsOf p.serial (goDown env h).log := by
    rw [goDown_log, endsOf_append]
    apply List.mem_append_left
    refine List.mem_filter.mpr ⟨dropRequests_ended { h with ep_state := .down } hp, ?_⟩
    exact beq_self_eq_true p.serial
  have hdown : Reserved none (goDown env h) := (reserved_table none).goDown hs
  have honce := hdown.once p.serial
  generalize endsOf p.serial (goDown env h).log = ends at hended honce ⊢
  match ends, honce with
  | [e], _ => rw [List.mem_singleton.mp hended]

/-! ## Every run -/

/-- The session is up, or nothing of it is held, and each request ends at most once. -/
structure LinkHeld (h : Host) : Prop where
  state : Up h ∨ Lost h
  serials : Serials h

def Delivered (h : Host) : Op → Prop
  | .frame _ => Up h
  | _ => True

theorem step_linkHeld (henv : env.DropsOnlyManifest) (hh : LinkHeld h) (hop : Delivered h op)
    (hstep : step env h op = some h') : LinkHeld h' := by
  refine ⟨?_, step_serials hh.serials hstep⟩
  rcases hh.state with hup | hlost
  · by_cases hdown : op = .linkDown
    · subst hdown
      unfold step at hstep
      dsimp only at hstep
      rw [if_pos (c := h.ep_state = .up) hup] at hstep
      cases hstep
      exact Or.inr (goDown_lost env h)
    by_cases hmanifest : op = .manifestDue
    · subst hmanifest
      cases hstep
      rcases manifestDue_cases env h hup with hup' | ⟨g, heq, -, -, -⟩
      · exact Or.inl hup'
      · have hlost := goDown_lost env g
        rw [heq]
        exact Or.inr ⟨hlost.down, hlost.held.1, hlost.held.2, hlost.held.3⟩
    exact Or.inl (step_up henv hup hdown hmanifest hstep)
  · by_cases hopen : op = .linkUp
    · subst hopen
      unfold step at hstep
      dsimp only at hstep
      rw [if_pos hlost.down] at hstep
      cases hstep
      exact Or.inl (evqPush_core _ _).ep_state
    refine Or.inr (step_lost hlost ?_ hopen hstep)
    rintro f rfl
    exact LinkState.noConfusion (hop.symm.trans hlost.down)

theorem step_loss (henv : env.DropsOnlyManifest) (hh : LinkHeld h) (op : Op) :
    LossLaw env h op := by
  intro h' hstep hup hdown k p hp
  by_cases hop : op = .linkDown
  · subst hop
    unfold step at hstep
    dsimp only at hstep
    rw [if_pos (c := h.ep_state = .up) hup] at hstep
    cases hstep
    exact goDown_ends hh.serials hp
  by_cases hmanifest : op = .manifestDue
  · subst hmanifest
    cases hstep
    rcases manifestDue_cases env h hup with hup' | ⟨g, heq, hpending, hlog, hid⟩
    · exact LinkState.noConfusion (hup'.symm.trans hdown)
    have hserials : Serials g := by
      refine hh.serials.same (Nat.le_of_eq hid.symm) hpending fun n => ?_
      rw [hlog, endsOf_append]
      exact List.append_nil _
    rw [← hpending] at hp
    rw [heq]
    exact goDown_ends hserials hp
  exact LinkState.noConfusion ((step_up henv hup hop hmanifest hstep).symm.trans hdown)

/-! ### The parts of a poll -/

/-- While the frames of a chunk are delivered, the link stays up. -/
theorem frames_delivered (henv : env.DropsOnlyManifest) (hup : Up h) (ms : Nat → Nat)
    (fs : List LinkFrame) (rest : List Op) (hrest : ∀ op ∈ rest, ∀ f, op ≠ .frame f) (n : Nat) :
    Meets (step env) Delivered h
      (((fs.map Op.frame ++ rest).zipIdx n).flatMap fun p => [p.1, .tick (ms p.2)]) := by
  induction fs generalizing h n with
  | nil =>
    apply Meets.of_mem
    intro op hop g
    simp only [List.map_nil, List.nil_append, List.mem_flatMap, List.mem_cons, List.not_mem_nil,
      or_false] at hop
    obtain ⟨p, hp, hop⟩ := hop
    have hmem : p.1 ∈ rest := (List.mem_zipIdx hp).2.2 ▸ List.getElem_mem _
    rcases hop with rfl | rfl
    · cases hcase : p.1 with
      | frame f => exact absurd hcase (hrest p.1 hmem f)
      | _ => trivial
    · trivial
  | cons f fs ih =>
    refine ⟨hup, fun g hg => ⟨trivial, fun g' hg' => ?_⟩⟩
    have hup' : Up g := step_up henv hup Op.noConfusion Op.noConfusion hg
    exact ih (step_up henv hup' Op.noConfusion Op.noConfusion hg') (n + 1)

theorem delivered_of_ne (hop : ∀ f, op ≠ .frame f) : Delivered h op := by
  cases op with
  | frame f => exact absurd rfl (hop f)
  | _ => trivial

theorem hostOps_delivered (henv : env.DropsOnlyManifest) {op : HostOp} (hop : op.allowed = true) :
    Meets (step env) Delivered h (hostOps h op) := by
  cases op with
  | call op =>
    refine ⟨delivered_of_ne ?_, fun _ _ => trivial⟩
    rintro f rfl
    exact Bool.noConfusion hop
  | poll d ms =>
    -- Without the frames of a chunk there is none.
    have hnone : ∀ ops : List Op, (∀ op ∈ ops, ∀ f, op ≠ .frame f) →
        Meets (step env) Delivered h (paced ms ops) := by
      intro ops hops
      apply Meets.of_mem
      intro op hop g
      obtain ⟨p, hp, hop⟩ := List.mem_flatMap.mp hop
      have hmem : p.1 ∈ ops := (List.mem_zipIdx hp).2.2 ▸ List.getElem_mem _
      simp only [List.mem_cons, List.not_mem_nil, or_false] at hop
      rcases hop with rfl | rfl
      · exact delivered_of_ne (hops p.1 hmem)
      · trivial
    unfold hostOps usbPoll
    cases hst : h.ep_state with
    | down =>
      apply hnone
      cases d.opens with
      | true => simp [controllerPoll]
      | false => simp [controllerPoll]
    | up =>
      dsimp only
      split
      · apply hnone
        simp [controllerPoll]
      · rw [List.append_assoc]
        refine frames_delivered henv hst ms d.frames _ ?_ 0
        cases d.flushes with
        | true => simp [controllerPoll]
        | false => simp [controllerPoll]

theorem hostStep_linkHeld (henv : env.DropsOnlyManifest) (hh : LinkHeld h) {op : HostOp}
    (hstep : hostStep env h op = some h') : LinkHeld h' := by
  obtain ⟨hallowed, hrun⟩ := Option.ite_none_right_eq_some.mp hstep
  exact inv_runs (fun _ _ _ hh hop hstep => step_linkHeld henv hh hop hstep) hh
    (hostOps_delivered henv hallowed) hrun

theorem create_linkHeld : LinkHeld .create where
  state := Or.inr ⟨rfl, fun _ => rfl, rfl, rfl⟩
  serials := {
    aside := fun _ hnone => absurd hnone (Option.not_mem_none _)
    later := fun _ _ => rfl
    old := fun _ _ hp => absurd hp (Option.some_ne_none _).symm
    waits := fun _ _ hp => absurd hp (Option.some_ne_none _).symm
    distinct := fun _ _ _ _ hp => absurd hp (Option.some_ne_none _).symm
    once := fun _ => Nat.zero_le 1 }

/-- In every run whose sends do not take the link down (the one of GET_MANIFEST may): a link that
is down between two polls holds nothing, and in each part of each poll, and in each call of the
client, a link that goes down ends each pending request once with LINK_DOWN. -/
theorem lost_link_holds_nothing (henv : env.DropsOnlyManifest) (ops : List HostOp) :
    (∀ h, runs (hostStep env) .create ops = some h → h.ep_state = .down → NothingHeld h) ∧
      Meets (hostStep env)
        (fun h op => op.allowed = true → Meets (step env) (LossLaw env) h (hostOps h op))
        .create ops := by
  have hstep : ∀ h op h', LinkHeld h → True → hostStep env h op = some h' → LinkHeld h' :=
    fun _ _ _ hh _ hstep => hostStep_linkHeld henv hh hstep
  have hall : Meets (hostStep env) (fun _ _ => True) .create ops :=
    Meets.of_forall (fun _ _ => trivial) _ _
  refine ⟨?_, ?_⟩
  · intro h hrun hdown
    rcases (inv_runs hstep create_linkHeld hall hrun).state with hup | hlost
    · exact LinkState.noConfusion (hup.symm.trans hdown)
    · exact hlost.held
  · refine meets_of_inv hstep ?_ create_linkHeld hall
    intro h op hh _ hallowed
    exact meets_of_inv (fun _ _ _ hh hop hstep => step_linkHeld henv hh hop hstep)
      (fun _ op hh _ => step_loss henv hh op) hh (hostOps_delivered henv hallowed)

/-! ## A send that takes the link down -/

def quietPoll (opens hangup : Bool) : HostOp :=
  .poll { opens, hangup, frames := [], flushes := true } fun _ => 1

def pingCall : HostOp := .call (.sendShell 1 5 [] .client)

/-- A request is pending when the cable is pulled. -/
theorem pulled_cable_ends_the_request : ∃ h,
    runs (hostStep silentEnv) .create [quietPoll true false, pingCall, quietPoll false true] =
      some h ∧ h.ep_state = .down ∧ NothingHeld h := by
  have hrun : (runs (hostStep silentEnv) .create
      [quietPoll true false, pingCall, quietPoll false true]).map Host.ep_state = some .down := by
    decide +kernel
  obtain ⟨h, hrun, hdown⟩ := Option.map_eq_some_iff.mp hrun
  have henv : silentEnv.DropsOnlyManifest := fun _ _ hdrop => SendResult.noConfusion hdrop
  exact ⟨h, hrun, hdown, (lost_link_holds_nothing henv _).1 h hrun hdown⟩

/-- A device that is gone when the first frame is written. -/
def goneEnv : Env where
  link_send := fun _ _ => .queuedThenDown
  on_done := fun _ => []

/-- The request whose send takes the link down is registered after the requests were resolved. -/
theorem dropped_send_stays_pending :
    ¬ ∀ (env : Env) (ops : List HostOp) (h : Host),
      runs (hostStep env) .create ops = some h → h.ep_state = .down → NothingHeld h := by
  intro hall
  have hstate : (runs (hostStep goneEnv) .create [quietPoll true false, pingCall]).map
      (fun h => (h.ep_state, (h.pending 0).isSome)) = some (.down, true) := by
    decide +kernel
  obtain ⟨h, hrun, hstate⟩ := Option.map_eq_some_iff.mp hstate
  obtain ⟨hdown, hsome⟩ := Prod.mk.inj hstate
  rw [(hall goneEnv _ h hrun hdown).pending 0] at hsome
  exact Bool.noConfusion hsome

end motioncore.host
