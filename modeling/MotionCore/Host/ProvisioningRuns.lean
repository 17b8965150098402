-- Every run of the host keeps the law of provisioning, when a reset finds no
-- provisioning request pending and no send of one takes the link down. A reply
-- that comes after a reset is taken for the reply of the new command, as the
-- last section shows.
import MotionCore.Host.Provisioning

open motioncore.bytes motioncore.ring motioncore.bus motioncore.machine motioncore.trace

namespace motioncore.host

variable {env : Env} {send : Send}

/-! ## Requests are resolved -/

/-- The state in which the callback of the request `q` at place `k` runs. -/
def Host.freed (h : Host) (k : Fin PENDING_MAX) (q : Pending) (status : UInt8) (cause : Cause) :
    Host := (h.setPending k none).note (.resolved q.serial q.cb status cause)

variable {h : Host} {k : Fin PENDING_MAX} {q : Pending}

theorem Provisions.resolved (hp : Provisions h) (hq : h.pending k = some q)
    (hprov : isProv q = true) (status : UInt8) (cause : Cause) :
    ∃ p ns c, cursor h = some p ∧ ns.length = p ∧ (provCommands h.roster)[p]? = some c ∧
      provSince (h.freed k q status cause).log =
        chain ((provCommands h.roster).take p) ns ++ [asked q.serial c] ++
          [.answered q.serial status cause] ∧
      Past FreshAnswer (h.freed k q status cause).log ∧ NoProv (h.freed k q status cause) := by
  have hcb : q.cb = .prov := by simpa [isProv] using hprov
  have hsome : NoProv h → False := by
    intro hno
    have := hno.not_prov hq
    rw [hprov] at this
    exact Bool.noConfusion this
  cases hcur : cursor h with
  | none => exact absurd (hp.rest hcur) hsome
  | some p =>
    obtain ⟨ns, hlen, hcase⟩ := hp.active p hcur
    rcases hcase with ⟨-, hno⟩ | ⟨n, c, hc, honly, hchain⟩
    · exact absurd hno hsome
    have hserial := honly.serial k q hq hprov
    subst hserial
    refine ⟨p, ns, c, rfl, hlen, hc, ?_, ?_, ?_⟩
    · unfold Host.freed Host.note
      rw [hcb, provSince_resolved]
      exact congrArg (· ++ _) hchain
    · unfold Host.freed Host.note
      rw [hcb]
      refine hp.fresh.snoc ?_
      have hsent : asked q.serial c ∈ provSince h.log := by
        rw [hchain]
        exact List.mem_append_right _ (List.mem_singleton.mpr rfl)
      exact ⟨DONGLE_ADDR, OP_SHELL_EXEC, _, hsent⟩
    · apply noProv_of
      intro l r hr
      by_contra htrue
      have hrp := Bool.of_not_eq_false htrue
      by_cases hl : l = k
      · subst hl
        simp [Host.freed, Host.note, Host.setPending] at hr
      · simp only [Host.freed, Host.note, Host.setPending, Function.update_of_ne hl] at hr
        exact hl (honly.one l k r q hr hq hrp hprov)

theorem Provisions.failed (hp : Provisions h) (hq : h.pending k = some q) (hprov : isProv q = true)
    {status : UInt8} (hstatus : status ≠ SHELL_STATUS_OK) (result : List UInt8) (cause : Cause) :
    Provisions (onProvReply send (h.freed k q status cause) status result) := by
  obtain ⟨p, ns, c, -, -, -, -, hfresh, hno⟩ := hp.resolved hq hprov status cause
  unfold onProvReply
  rw [if_pos hstatus]
  exact ⟨hfresh, ⟨ProvState.noConfusion, ProvState.noConfusion⟩, ProvState.noConfusion,
    fun p hp => absurd hp (Option.some_ne_none p).symm, fun _ => hno, ProvState.noConfusion⟩

theorem freed_same (hprov : isProv q = false) (status : UInt8) (cause : Cause) :
    ProvSame h (h.freed k q status cause) := by
  refine ⟨rfl, rfl, rfl, ?_, [.resolved q.serial q.cb status cause], rfl, ?_⟩
  · intro l p hp hl
    by_cases hlk : l = k
    · subst hlk
      simp [Host.freed, Host.note, Host.setPending] at hl
    · simpa [Host.freed, Host.note, Host.setPending, Function.update_of_ne hlk] using hl
  · intro e he
    rw [List.mem_singleton.mp he]
    cases hcb : q.cb with
    | prov => simp [isProv, hcb] at hprov
    | _ => rfl

theorem resolve_eq (hq : h.pending k = some q) (status : UInt8) (result : List UInt8)
    (cause : Cause) : resolve env send h k status result cause =
      replyCb env send (h.freed k q status cause) q.cb q.request_id status result cause := by
  unfold resolve
  rw [hq]
  rfl

theorem resolve_other (hb : TrackerBlind send Provisions) (hp : Provisions h)
    (hq : h.pending k = some q) (hprov : isProv q = false) (status : UInt8) (result : List UInt8)
    (cause : Cause) : Provisions (resolve env send h k status result cause) := by
  have hfreed : Provisions (h.freed k q status cause) := hp.same (freed_same hprov status cause)
  rw [resolve_eq hq]
  unfold replyCb
  cases hcb : q.cb with
  | slot i => exact hb.onTrackerReply hfreed i q.request_id status result cause
  | prov => simp [isProv, hcb] at hprov
  | ungated => exact hfreed.same (.of_core (evqPush_core _ _))
  | client => exact hfreed
  | null => exact hfreed

theorem resolve_failed (hb : TrackerBlind send Provisions) (hp : Provisions h) (k : Fin PENDING_MAX)
    {status : UInt8} (hstatus : status ≠ SHELL_STATUS_OK) (result : List UInt8) (cause : Cause) :
    Provisions (resolve env send h k status result cause) := by
  cases hq : h.pending k with
  | none =>
    unfold resolve
    rw [hq]
    exact hp
  | some q =>
    by_cases hprov : isProv q = true
    · rw [resolve_eq hq]
      have hcb : q.cb = .prov := by simpa [isProv] using hprov
      rw [hcb]
      exact hp.failed hq hprov hstatus result cause
    · exact resolve_other hb hp hq (Bool.eq_false_iff.mpr hprov) status result cause

/-! ## The link -/

theorem request_provisions (hs : ∀ h f, Provisions h → Provisions (send h f).1) (hp : Provisions h)
    (hdr args_len : Nat) (addr : UInt8) (opcode : UInt16) (body : UInt16 → List UInt8)
    {cb : ReplyCb} (hcb : cb ≠ .prov) (handle : Nat) :
    Provisions (demuxRequest send h hdr args_len addr opcode body cb handle).1 := by
  unfold demuxRequest
  split
  · exact hp
  split
  · exact hp
  rename_i k hk
  have hid : Provisions { h with next_id := h.next_id + 1, tx_seq := h.tx_seq + 1 } :=
    hp.same ⟨rfl, rfl, rfl, fun _ _ _ h => h, Adds.refl _⟩
  have hsent := hs _ (LinkFrame.mk addr opcode h.tx_seq (body (UInt16.ofNat h.next_id))) hid
  unfold sendFrameAddr
  dsimp only
  split
  · refine hsent.same ⟨rfl, rfl, rfl, ?_, [_], rfl, ?_⟩
    · intro l q hprov hl
      by_cases hlk : l = k
      · subst hlk
        simp only [Host.note, Host.setPending, Function.update_self] at hl
        rw [← Option.some.inj hl] at hprov
        exact absurd (by simpa [isProv] using hprov) hcb
      · simpa [Host.note, Host.setPending, Function.update_of_ne hlk] using hl
    · intro e he
      rw [List.mem_singleton.mp he]
      cases cb with
      | prov => exact absurd rfl hcb
      | _ => rfl
  · exact hsent

theorem provisions_blind (hs : ∀ h f, Provisions h → Provisions (send h f).1) :
    TrackerBlind send Provisions where
  change hc hp := hp.same (.of_tracker hc)
  request _ _ _ _ _ _ hp := request_provisions hs hp _ _ _ _ _ ReplyCb.noConfusion _

theorem provisions_leaves (hs : ∀ h f, Provisions h → Provisions (send h f).1) :
    Leaves env send NoProv Provisions where
  core hc hp := hp.same (.of_core hc)
  quiet hc hn := hn.same (ProvSame.of_core hc).pending
  raw h opcode payload hp := by
    unfold demuxSendRaw sendFrameAddr
    apply hs
    exact hp.same ⟨rfl, rfl, rfl, fun _ _ _ h => h, Adds.refl _⟩
  shell h _ _ _ cb hcb hp := by
    refine request_provisions hs hp _ _ _ _ _ ?_ _
    rintro rfl
    exact Bool.noConfusion hcb
  resetSync h hn hp := by
    refine ⟨hp.fresh.snoc trivial, ⟨ProvState.noConfusion, ProvState.noConfusion⟩, ?_, ?_,
      fun _ => hn, ProvState.noConfusion⟩
    · exact fun _ => provSince_reset h.log
    · exact fun p hcur => absurd hcur (Option.some_ne_none p).symm
  linkDown h k hp := resolve_failed (provisions_blind hs) hp k (by decide) _ _
  flagged _ _ _ hp := (provisions_blind hs).onFlagged hp _ _
  ack _ _ _ hp := (provisions_blind hs).onAck hp _ _
  nak _ _ _ hp := (provisions_blind hs).onNak hp _ _
  interlock _ _ _ hp := (provisions_blind hs).onInterlockMsg hp _ _

theorem linkClosed_provisions (h : Host) (f : LinkFrame) (hp : Provisions h) :
    Provisions (linkClosed h f).1 := hp

/-- Places of the pending table that stay empty while the link is down. -/
theorem closed_blind (S : Fin PENDING_MAX → Prop) :
    TrackerBlind linkClosed (fun h => ∀ k, S k → h.pending k = none) where
  change hc hj := by
    rw [hc.pending]
    exact hj
  request h _ _ _ _ _ hj := by
    unfold demuxRequest
    split
    · exact hj
    split
    · exact hj
    · exact hj

theorem resolve_closed (S : Fin PENDING_MAX → Prop) (hj : ∀ k, S k → h.pending k = none)
    (k j : Fin PENDING_MAX) (hjk : S j ∨ j = k) :
    (resolve env linkClosed h k DEMUX_STATUS_LINK_DOWN [] .linkDown).pending j = none := by
  cases hq : h.pending k with
  | none =>
    unfold resolve
    rw [hq]
    rcases hjk with hS | rfl
    · exact hj j hS
    · exact hq
  | some q =>
    have hfreed : ∀ l, (S l ∨ l = k) →
        (h.freed k q DEMUX_STATUS_LINK_DOWN .linkDown).pending l = none := by
      intro l hl
      by_cases hlk : l = k
      · subst hlk
        simp [Host.freed, Host.note, Host.setPending]
      · simp only [Host.freed, Host.note, Host.setPending, Function.update_of_ne hlk]
        exact hj l (hl.resolve_right hlk)
    rw [resolve_eq hq]
    unfold replyCb
    cases q.cb with
    | slot i => exact (closed_blind _).onTrackerReply hfreed i _ _ _ _ j hjk
    | prov =>
      unfold onProvReply
      rw [if_pos (by decide)]
      exact hfreed j hjk
    | ungated =>
      dsimp only
      rw [(evqPush_core _ _).pending]
      exact hfreed j hjk
    | client => exact hfreed j hjk
    | null => exact hfreed j hjk

variable (env) in
theorem dropRequests_empty (h : Host) (k : Fin PENDING_MAX) :
    (dropRequests env linkClosed h).pending k = none := by
  have hfold : ∀ (ks : List (Fin PENDING_MAX)) (S : Fin PENDING_MAX → Prop) (h : Host),
      (∀ k, S k → h.pending k = none) → ∀ j, S j ∨ j ∈ ks →
      (ks.foldl (fun h k => resolve env linkClosed h k DEMUX_STATUS_LINK_DOWN [] .linkDown)
        h).pending j = none := by
    intro ks
    induction ks with
    | nil => exact fun S h hS j hj => hS j (hj.resolve_right List.not_mem_nil)
    | cons k ks ih =>
      intro S h hS j hj
      refine ih (fun l => S l ∨ l = k) _ (fun l hl => resolve_closed S hS k l hl) j ?_
      rcases hj with hj | hj
      · exact Or.inl (Or.inl hj)
      · rcases List.mem_cons.mp hj with rfl | hj
        · exact Or.inl (Or.inr rfl)
        · exact Or.inr hj
  exact hfold (List.finRange PENDING_MAX) (fun _ => False) h (fun _ hf => hf.elim) k
    (Or.inr (List.mem_finRange k))

theorem dropRequests_noProv (h : Host) : NoProv (dropRequests env linkClosed h) := by
  intro k
  rw [dropRequests_empty]
  rfl

/-- A link that goes down resets provisioning, after the requests are resolved. -/
theorem linkDown_provisions (hp : Provisions h) :
    Provisions (onLinkState env linkClosed { h with ep_state := .down } .down) := by
  refine (provisions_leaves linkClosed_provisions).onLinkState ?_ .down ?_
  · exact hp.same ⟨rfl, rfl, rfl, fun _ _ _ h => h, Adds.refl _⟩
  · exact fun _ => dropRequests_noProv _

theorem linkSend_provisions (h : Host) (f : LinkFrame) (hp : Provisions h) :
    Provisions (linkSend env h f).1 := by
  have hcount : Provisions { h with sends := h.sends + 1 } :=
    hp.same ⟨rfl, rfl, rfl, fun _ _ _ h => h, Adds.refl _⟩
  have hqueued : Provisions ({ h with sends := h.sends + 1 }.note (.queued f)) :=
    hcount.same ⟨rfl, rfl, rfl, fun _ _ _ h => h, [.queued f], rfl, by
      intro e he
      rw [List.mem_singleton.mp he]
      rfl⟩
  unfold linkSend
  split
  · exact hp
  dsimp only
  split
  · exact hcount
  · exact hqueued
  · exact linkDown_provisions hqueued

/-! ## When provisioning is left alone -/

/-- The dongle answers OK to a provisioning request that is pending. -/
def AnswersProv (h : Host) (f : LinkFrame) : Prop :=
  f.cmd = OP_SHELL_REPLY ∧ SHELL_REPLY_HDR ≤ f.payload.length ∧
    f.payload.getD 2 0 = SHELL_STATUS_OK ∧
    (h.pendingFind (le16 (f.payload.getD 0 0) (f.payload.getD 1 0))).any
      (fun k => (h.pending k).any isProv) = true

/-- `controller_poll` sends CLEAR now. -/
def StartsProv (h : Host) : Prop :=
  h.have_roster = true ∧ h.prov = .idle ∧ h.proto = .operational ∧
    h.identity = some CLASS_ID_BUS_CONTROLLER ∧ h.pendingAlloc ≠ none

instance (h : Host) (f : LinkFrame) : Decidable (AnswersProv h f) :=
  inferInstanceAs (Decidable (_ ∧ _ ∧ _ ∧ _))

instance (h : Host) : Decidable (StartsProv h) :=
  inferInstanceAs (Decidable (_ ∧ _ ∧ _ ∧ _ ∧ _))

/-- The provisioning command that is sent in this step. -/
def sendsProv (h : Host) : Op → Option ProvCommand
  | .frame f => if AnswersProv h f then nextProv h else none
  | .provGate => if StartsProv h then some (CMD_BUS_CLEAR_ROSTER, []) else none
  | _ => none

/-- A reset of provisioning outside the loss of the link. -/
def ResetsProv (h : Host) : Op → Prop
  | .frame f => Resyncs h f
  | .attachRoster _ _ => True
  | _ => False

/-- A reset finds no provisioning request pending, and the link stays up while
it takes a provisioning command. -/
def LeftAlone (env : Env) (h : Host) (op : Op) : Prop :=
  (ResetsProv h op → NoProv h) ∧ ∀ c ∈ sendsProv h op, Stays env h c

instance (h : Host) (f : LinkFrame) : Decidable (Resyncs h f) :=
  inferInstanceAs (Decidable (_ ∧ _))

instance (h : Host) : Decidable (NoProv h) := inferInstanceAs (Decidable (∀ _, _))

instance (env : Env) (h : Host) (c : ProvCommand) : Decidable (Stays env h c) :=
  inferInstanceAs (Decidable (_ → _))

instance (h : Host) (op : Op) : Decidable (ResetsProv h op) :=
  match op with
  | .frame f => inferInstanceAs (Decidable (Resyncs h f))
  | .attachRoster _ _ => isTrue trivial
  | .linkUp | .linkDown | .demuxSweep | .manifestDue | .provGate | .trackerPoll | .reconcile
  | .submit _ | .sendShell .. | .addSlave _ | .drain | .tick _ => isFalse id

instance (env : Env) (h : Host) (op : Op) : Decidable (LeftAlone env h op) :=
  inferInstanceAs (Decidable (_ ∧ _))

/-! ## One step -/

theorem onShellReply_provisions (hp : Provisions h) {f : LinkFrame} (hcmd : f.cmd = OP_SHELL_REPLY)
    (hstays : AnswersProv h f → ∀ c, nextProv h = some c → Stays env h c) :
    Provisions (onShellReply env (linkSend env) h f.payload) := by
  have hb : TrackerBlind (linkSend env) Provisions := provisions_blind linkSend_provisions
  unfold onShellReply
  split
  · exact hp
  rename_i hlen
  split
  · exact hp
  rename_i k hk
  by_cases hstatus : f.payload.getD 2 0 = SHELL_STATUS_OK
  swap
  · exact resolve_failed hb hp k hstatus _ _
  cases hq : h.pending k with
  | none =>
    unfold resolve
    rw [hq]
    exact hp
  | some q =>
    by_cases hprov : isProv q = true
    swap
    · exact resolve_other hb hp hq (Bool.eq_false_iff.mpr hprov) _ _ _
    have hcb : q.cb = .prov := by simpa [isProv] using hprov
    have hans : AnswersProv h f := by
      refine ⟨hcmd, Nat.le_of_not_lt hlen, hstatus, ?_⟩
      rw [hk]
      simpa [hq] using hprov
    -- The command at the cursor is answered, so the cursor moves on.
    obtain ⟨p, ns, c, hcur, hns, hc, hsince, hfresh, hno⟩ :=
      hp.resolved hq hprov SHELL_STATUS_OK .reply
    have ha : Answered (h.freed k q SHELL_STATUS_OK .reply) (p + 1) := by
      refine ⟨hfresh, hno, ns ++ [q.serial], ?_, ?_⟩
      · rw [List.length_append, hns]
        rfl
      · rw [hsince, List.append_assoc]
        exact (chain_snoc hns hc).symm
    rw [resolve_eq hq, hcb, hstatus]
    exact onProvReply_ok ha hcur hp.valid (hstays hans) _

theorem provGate_provisions (hp : Provisions h)
    (hstays : StartsProv h → Stays env h (CMD_BUS_CLEAR_ROSTER, [])) :
    Provisions (provGate (linkSend env) h) := by
  unfold provGate
  split
  swap
  · exact hp
  rename_i hgate
  obtain ⟨hroster, hidle, hproto⟩ := hgate
  have hcur : cursor h = none := by
    unfold cursor
    rw [hidle]
  have hno := hp.rest hcur
  split
  · exact hp
  rename_i class_id hidentity
  split
  · rename_i hclass
    subst hclass
    let h' : Host := { h with prov := .clear, prov_idx := 0, bc_total := 0 }
    have ha : Answered h' 0 := ⟨hp.fresh, hno, [], rfl, hp.idle hidle⟩
    have hvalid : ValidPhase h' := ⟨ProvState.noConfusion, ProvState.noConfusion⟩
    have hc : (provCommands h'.roster)[0]? = some (CMD_BUS_CLEAR_ROSTER, []) := rfl
    refine provSend_keeps ha rfl hvalid hc fun halloc => ?_
    exact hstays ⟨hroster, hidle, hproto, hidentity, halloc⟩
  · exact ⟨hp.fresh, ⟨ProvState.noConfusion, ProvState.noConfusion⟩, ProvState.noConfusion,
      fun p hp => absurd hp (Option.some_ne_none p).symm, fun _ => hno, ProvState.noConfusion⟩

theorem attachRoster_provisions {h' : Host} (hp : Provisions h) (hno : NoProv h) {fuel : Nat}
    {r : Option Roster} (hattach : controllerAttachRoster env (linkSend env) fuel h r = some h') :
    Provisions h' := by
  have hb : TrackerBlind (linkSend env) Provisions := provisions_blind linkSend_provisions
  unfold controllerAttachRoster at hattach
  dsimp only at hattach
  obtain ⟨g, hg, rfl⟩ := Option.map_eq_some_iff.mp hattach
  have hreset : Provisions g := by
    refine hb.reset ?_ hg
    refine ⟨hp.fresh.snoc trivial, ⟨ProvState.noConfusion, ProvState.noConfusion⟩, ?_, ?_,
      fun _ => hno, ProvState.noConfusion⟩
    · exact fun _ => provSince_reset h.log
    · exact fun p hcur => absurd hcur (Option.some_ne_none p).symm
  have hslots : Provisions (g.roster.slaves.foldl (fun h s => cmdTrackerAddSlave h s.addr) g) := by
    refine foldl_keeps ?_ hreset _
    exact fun h s hj => hb.addSlave hj s.addr
  refine hslots.same (.of_core ?_)
  constructor <;> rfl

theorem demuxSweep_provisions (hp : Provisions h) :
    Provisions (demuxSweep env (linkSend env) h) := by
  refine foldl_keeps ?_ hp _
  intro h k hp
  unfold sweepPending
  split
  · exact hp
  · exact ite_keeps (resolve_failed (provisions_blind linkSend_provisions) hp k (by decide) _ _) hp

theorem step_provisions {h' : Host} (hp : Provisions h) {op : Op} (hop : LeftAlone env h op)
    (hstep : step env h op = some h') : Provisions h' := by
  have hs : ∀ h f, Provisions h → Provisions (linkSend env h f).1 := linkSend_provisions
  have hb : TrackerBlind (linkSend env) Provisions := provisions_blind hs
  have hl : Leaves env (linkSend env) NoProv Provisions := provisions_leaves hs
  cases op with
  | frame f =>
    cases hstep
    by_cases hcmd : f.cmd = OP_SHELL_REPLY
    · unfold onLinkFrame
      rw [if_pos hcmd]
      refine onShellReply_provisions hp hcmd fun hans c hc => hop.2 c ?_
      simp only [sendsProv, if_pos hans]
      exact hc
    · unfold onLinkFrame
      rw [if_neg hcmd]
      exact hl.onEvent hp f hop.1 fun addr flags _ => hl.flagged h addr flags hp
  | linkUp =>
    rcases step_cases hstep with ⟨-, rfl⟩ | rfl
    · have hup : Provisions { h with ep_state := .up } :=
        hp.same ⟨rfl, rfl, rfl, fun _ _ _ h => h, Adds.refl _⟩
      exact hl.onLinkState hup .up fun hdown => LinkState.noConfusion hdown
    · exact hp
  | linkDown =>
    rcases step_cases hstep with ⟨-, rfl⟩ | rfl
    · exact linkDown_provisions hp
    · exact hp
  | demuxSweep =>
    cases hstep
    exact demuxSweep_provisions hp
  | manifestDue =>
    cases hstep
    exact hl.manifestDue hp
  | provGate =>
    cases hstep
    refine provGate_provisions hp fun hstart => hop.2 _ ?_
    simp only [sendsProv, if_pos hstart]
    rfl
  | trackerPoll =>
    cases hstep
    exact hb.trackerPoll hp
  | reconcile =>
    cases hstep
    exact hl.reconcileInterlocks hp
  | submit c =>
    cases hstep
    exact hb.submit hp c
  | sendShell dest_addr command_id args cb =>
    obtain ⟨hcb, rfl⟩ := step_cases hstep
    exact hl.shell h dest_addr command_id args cb hcb.1 hp
  | addSlave addr =>
    cases hstep
    exact hb.addSlave hp addr
  | attachRoster fuel r => exact attachRoster_provisions hp (hop.1 trivial) hstep
  | drain =>
    cases hstep
    refine hp.same (.of_core ?_)
    constructor <;> rfl
  | tick ms =>
    cases hstep
    exact hp.same ⟨rfl, rfl, rfl, fun _ _ _ h => h, Adds.refl _⟩

/-! ## Every run -/

theorem create_provisions : Provisions .create where
  fresh := past_nil _
  valid := ⟨ProvState.noConfusion, ProvState.noConfusion⟩
  idle _ := rfl
  active p hcur := absurd hcur (Option.some_ne_none p).symm
  rest _ _ := rfl
  done := ProvState.noConfusion

/-- In every run that leaves provisioning alone, it is done only when each
command of the roster was answered, and only commands sent since the last
reset are ever answered. -/
theorem provisioning_is_answered (ops : List Op) (h : Host)
    (halone : Meets (step env) (LeftAlone env) .create ops)
    (hrun : runs (step env) .create ops = some h) : ProvLaw h :=
  (inv_runs (fun _ _ _ hp hop hstep => step_provisions hp hop hstep) create_provisions halone
    hrun).law

/-! ## A roster that is attached again -/

def dongleFrame (cmd : UInt16) (payload : List UInt8) : Op := .frame (.mk 0 cmd 0 payload)

/-- A REGISTER of version 2 that names a bus controller. -/
def registerPayload : List UInt8 :=
  REGISTER_V2_VER :: bytes32 CLASS_ID_BUS_CONTROLLER ++ List.replicate 33 0

def replyOk (rid : UInt16) : Op :=
  dongleFrame OP_SHELL_REPLY [lo16 rid, hi16 rid, SHELL_STATUS_OK]

def clearSent : List Op :=
  [.linkUp, .attachRoster 0 (some .empty), dongleFrame OP_REGISTER registerPayload,
    dongleFrame OP_HEARTBEAT [], .provGate]

/-- The roster is attached again before CLEAR is answered, and CLEAR is sent again. -/
def clearSentTwice : List Op := clearSent ++ [.attachRoster 0 (some .empty), .provGate]

/-- The replies of the two CLEARs count as the replies of CLEAR and LIST. -/
theorem stale_reply_counts_for_the_next_command :
    ¬ ∀ (env : Env) (ops : List Op) (h : Host),
      runs (step env) .create ops = some h → ProvLaw h := by
  intro hall
  have hsome : (runs (step silentEnv) .create (clearSentTwice ++ [replyOk 1, replyOk 2])).isSome := by
    decide
  obtain ⟨h, hrun⟩ := Option.isSome_iff_exists.mp hsome
  have hlog : (runs (step silentEnv) .create (clearSentTwice ++ [replyOk 1, replyOk 2])).map
      (fun h => (h.prov, provCommands h.roster, provSince h.log)) =
      some (.done, [(CMD_BUS_CLEAR_ROSTER, []), (CMD_BUS_LIST_SLAVES, [])],
        [asked 2 (CMD_BUS_CLEAR_ROSTER, []), .answered 1 SHELL_STATUS_OK .reply,
          asked 3 (CMD_BUS_LIST_SLAVES, []), .answered 2 SHELL_STATUS_OK .reply]) := by
    decide
  rw [hrun] at hlog
  simp only [Option.map_some, Option.some.injEq, Prod.mk.injEq] at hlog
  obtain ⟨hdone, hcommands, hsince⟩ := hlog
  obtain ⟨ns, hlen, hchain⟩ := (hall silentEnv _ h hrun).done hdone
  rw [hcommands] at hlen hchain
  rw [hsince] at hchain
  obtain ⟨m, n, rfl⟩ : ∃ m n, ns = [m, n] := by
    match ns, hlen with
    | [m, n], _ => exact ⟨m, n, rfl⟩
  -- The first answer is that of request 1, the first command is request 2.
  simp only [chain, asked, List.zip_cons_cons, List.zip_nil_right, List.flatMap_cons,
    List.flatMap_nil, List.append_nil, List.cons_append, List.nil_append, List.cons.injEq,
    ProvEv.sent.injEq, ProvEv.answered.injEq] at hchain
  omega

/-- The same dongle, when the roster is attached once. -/
theorem one_roster_is_answered :
    ∃ h, runs (step silentEnv) .create (clearSent ++ [replyOk 1, replyOk 2]) = some h ∧
      h.prov = .done ∧ ProvLaw h := by
  have hprov : (runs (step silentEnv) .create (clearSent ++ [replyOk 1, replyOk 2])).map
      Host.prov = some .done := by
    decide
  obtain ⟨h, hrun, hdone⟩ := Option.map_eq_some_iff.mp hprov
  refine ⟨h, hrun, hdone, provisioning_is_answered _ h ?_ hrun⟩
  decide

end motioncore.host
