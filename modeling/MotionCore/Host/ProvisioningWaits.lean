-- Provisioning does not hang: in a phase that waits, one request is pending, and
-- the end of that request moves the phase. The senders of the phases do not look
-- at what the demux returns, so this needs each command to be taken by the
-- pending table and by the link.
import MotionCore.Host.RequestBlind

open motioncore.bytes motioncore.ring motioncore.bus motioncore.machine motioncore.trace

namespace motioncore.host

variable {env : Env} {send : Send}

/-! ## The law -/

def ProvState.waits : ProvState → Bool
  | .clear => true
  | .register => true
  | .setPoll => true
  | .list => true
  | _ => false

/-- The request at place `k` is the only one of provisioning. It carries the command that the
phase is at, and it is the newest thing that provisioning did. -/
structure WaitsAt (h : Host) (k : Fin PENDING_MAX) (q : Pending) (p : Nat) (c : ProvCommand) :
    Prop where
  pending : h.pending k = some q
  ours : q.cb = .prov
  only : ∀ l r, h.pending l = some r → r.cb = .prov → l = k
  phase : cursor h = some p
  command : (provCommands h.roster)[p]? = some c
  sent : (provSince h.log).getLast? = some (asked q.serial c)

structure ProvNeverHangs (env : Env) (h : Host) : Prop where
  waits : h.prov.waits = true → ∃ k q p c, WaitsAt h k q p c
  /-- Any end of the request advances the phase, or fails it. -/
  moves : ∀ k q, h.pending k = some q → q.cb = .prov → ∀ status result cause,
    cursor (resolve env (linkSend env) h k status result cause) ≠ cursor h

theorem waits_iff_cursor (h : Host) : h.prov.waits = true ↔ ∃ p, cursor h = some p := by
  unfold cursor ProvState.waits
  cases h.prov with
  | idle => simp
  | clear => simp
  | register => simp
  | setPoll => simp
  | list => simp
  | done => simp
  | fail => simp

/-! ## A request is pending while the phase waits -/

/-- A phase that waits has a request that is pending. -/
def Waits (h : Host) : Prop :=
  ∀ p, cursor h = some p → ∃ k q, h.pending k = some q ∧ isProv q = true

variable {h : Host}

theorem waits_of_none (hn : cursor h = none) : Waits h := by
  intro p hp
  rw [hn] at hp
  exact absurd hp (Option.some_ne_none p).symm

variable {h' : Host}

theorem Waits.same (hw : Waits h) (hcur : cursor h' = cursor h)
    (hpending : ∀ k q, isProv q = true → h.pending k = some q → h'.pending k = some q) :
    Waits h' := by
  intro p hp
  rw [hcur] at hp
  obtain ⟨k, q, hq, hprov⟩ := hw p hp
  exact ⟨k, q, hpending k q hprov hq, hprov⟩

theorem cursor_eq (hroster : h'.roster = h.roster) (hprov : h'.prov = h.prov)
    (hidx : h'.prov_idx = h.prov_idx) : cursor h' = cursor h := by
  unfold cursor
  rw [hroster, hprov, hidx]

theorem Waits.core (hw : Waits h) (hc : SameCore h h') : Waits h' := by
  refine hw.same (cursor_eq hc.roster hc.prov hc.prov_idx) ?_
  rw [hc.pending]
  exact fun _ _ _ hq => hq

theorem Waits.setPending (hw : Waits h) {k : Fin PENDING_MAX} {o : Option Pending}
    (hk : ∀ q, h.pending k = some q → isProv q = false) : Waits (h.setPending k o) := by
  refine hw.same rfl ?_
  intro l q hprov hl
  have hlk : l ≠ k := by
    rintro rfl
    rw [hk q hl] at hprov
    exact Bool.noConfusion hprov
  simp [Host.setPending, Function.update_of_ne hlk, hl]

/-! ## The link -/

/-- The link leaves provisioning as it is, or goes down and resets it. -/
structure ProvSend (send : Send) : Prop where
  keeps : ∀ h f, Waits h → Waits (send h f).1
  phase : ∀ h f, cursor (send h f).1 = cursor h ∨ cursor (send h f).1 = none
  places : ∀ h f, (send h f).1.pending = h.pending ∨ cursor (send h f).1 = none

theorem onLinkState_down_cursor (h : Host) : cursor (onLinkState env send h .down) = none := rfl

variable (env) in
theorem linkSend_cases (h : Host) (f : LinkFrame) :
    (cursor (linkSend env h f).1 = cursor h ∧ (linkSend env h f).1.pending = h.pending) ∨
      cursor (linkSend env h f).1 = none := by
  unfold linkSend
  split
  · exact Or.inl ⟨rfl, rfl⟩
  dsimp only
  split
  · exact Or.inl ⟨rfl, rfl⟩
  · exact Or.inl ⟨rfl, rfl⟩
  · exact Or.inr (onLinkState_down_cursor _)

theorem linkSend_provSend : ProvSend (linkSend env) where
  keeps h f hw := by
    rcases linkSend_cases env h f with ⟨hcur, hpending⟩ | hnone
    · refine hw.same hcur ?_
      rw [hpending]
      exact fun _ _ _ hq => hq
    · exact waits_of_none hnone
  phase h f := (linkSend_cases env h f).imp And.left id
  places h f := (linkSend_cases env h f).imp And.right id

/-- A request takes a free place, so no other request is lost. -/
theorem request_waits (hs : ProvSend send) (hw : Waits h) (hdr args_len : Nat) (addr : UInt8)
    (opcode : UInt16) (body : UInt16 → List UInt8) (cb : ReplyCb) (handle : Nat) :
    Waits (demuxRequest send h hdr args_len addr opcode body cb handle).1 := by
  unfold demuxRequest
  split
  · exact hw
  split
  · exact hw
  rename_i k hk
  have hid : Waits { h with next_id := h.next_id + 1, tx_seq := h.tx_seq + 1 } :=
    hw.same rfl fun _ _ _ hq => hq
  have hsent := hs.keeps _ (LinkFrame.mk addr opcode h.tx_seq (body (UInt16.ofNat h.next_id))) hid
  have hplace := hs.places { h with next_id := h.next_id + 1, tx_seq := h.tx_seq + 1 }
    (LinkFrame.mk addr opcode h.tx_seq (body (UInt16.ofNat h.next_id)))
  unfold sendFrameAddr
  dsimp only
  split
  · rcases hplace with hsame | hnone
    · refine (hsent.setPending ?_).same rfl fun _ _ _ hq => hq
      intro q hq
      rw [hsame] at hq
      exact absurd ((pendingAlloc_free hk).symm.trans hq) (Option.some_ne_none q).symm
    · exact waits_of_none hnone
  · exact hsent

/-- A request leaves the phase as it is, or the link goes down. -/
theorem request_cursor (hs : ProvSend send) (h : Host) (hdr args_len : Nat) (addr : UInt8)
    (opcode : UInt16) (body : UInt16 → List UInt8) (cb : ReplyCb) (handle : Nat) :
    cursor (demuxRequest send h hdr args_len addr opcode body cb handle).1 = cursor h ∨
      cursor (demuxRequest send h hdr args_len addr opcode body cb handle).1 = none := by
  unfold demuxRequest
  split
  · exact Or.inl rfl
  split
  · exact Or.inl rfl
  have hsent := hs.phase { h with next_id := h.next_id + 1, tx_seq := h.tx_seq + 1 }
    (LinkFrame.mk addr opcode h.tx_seq (body (UInt16.ofNat h.next_id)))
  unfold sendFrameAddr
  dsimp only
  split
  · exact hsent
  · exact hsent

/-! ## The other functions of the host -/

theorem waits_blind (hs : ProvSend send) : TrackerBlind send Waits where
  change hc hw := by
    refine hw.same (cursor_eq hc.roster hc.prov hc.prov_idx) ?_
    rw [hc.pending]
    exact fun _ _ _ hq => hq
  request _ _ _ _ _ _ hw := request_waits hs hw _ _ _ _ _ _ _

theorem failed_cursor (h : Host) {status : UInt8} (hstatus : status ≠ SHELL_STATUS_OK)
    (result : List UInt8) : cursor (onProvReply send h status result) = none := by
  unfold onProvReply
  rw [if_pos hstatus]
  rfl

theorem resolve_waits (hs : ProvSend send) (hw : Waits h) (k : Fin PENDING_MAX) {status : UInt8}
    (result : List UInt8) (cause : Cause)
    (hok : ∀ q, h.pending k = some q → isProv q = true → status ≠ SHELL_STATUS_OK) :
    Waits (resolve env send h k status result cause) := by
  cases hq : h.pending k with
  | none =>
    unfold resolve
    rw [hq]
    exact hw
  | some q =>
    rw [resolve_eq hq]
    by_cases hprov : isProv q = true
    · have hcb : q.cb = .prov := by simpa [isProv] using hprov
      rw [hcb]
      exact waits_of_none (failed_cursor _ (hok q hq hprov) result)
    have hfreed : Waits (h.freed k q status cause) := by
      refine (hw.setPending (k := k) (o := none) ?_).same rfl fun _ _ _ hr => hr
      intro r hr
      rw [hq] at hr
      exact Option.some.inj hr ▸ Bool.eq_false_iff.mpr hprov
    unfold replyCb
    cases hcb : q.cb with
    | slot i => exact (waits_blind hs).onTrackerReply hfreed i _ _ _ _
    | prov => simp [isProv, hcb] at hprov
    | ungated => exact hfreed.core (evqPush_core _ _)
    | client => exact hfreed
    | null => exact hfreed

theorem waits_leaves (hs : ProvSend send) : Leaves env send (fun _ => True) Waits where
  core hc hw := hw.core hc
  quiet _ _ := trivial
  raw h opcode payload hw := by
    unfold demuxSendRaw sendFrameAddr
    apply hs.keeps
    exact hw.same rfl fun _ _ _ hq => hq
  shell h _ _ _ _ _ hw := request_waits hs hw _ _ _ _ _ _ _
  resetSync h _ _ := waits_of_none rfl
  linkDown h k hw := resolve_waits hs hw k _ _ fun _ _ _ => by decide
  flagged _ _ _ hw := (waits_blind hs).onFlagged hw _ _
  ack _ _ _ hw := (waits_blind hs).onAck hw _ _
  nak _ _ _ hw := (waits_blind hs).onNak hw _ _
  interlock _ _ _ hw := (waits_blind hs).onInterlockMsg hw _ _

/-! ## A command that is taken -/

def LinkTakes (env : Env) (h : Host) (c : ProvCommand) : Prop :=
  h.ep_state = .up ∧ env.link_send h.sends (provFrame h c) = .queued

/-- `controller_poll` starts to provision now. -/
def EntersProv (h : Host) : Prop :=
  h.have_roster = true ∧ h.prov = .idle ∧ h.proto = .operational ∧
    h.identity = some CLASS_ID_BUS_CONTROLLER

/-- The provisioning command that this step sends is taken. For CLEAR that needs a free place
in the pending table; after a reply there is one. -/
def CommandTaken (env : Env) (h : Host) : Op → Prop
  | .frame f => AnswersProv h f → ∀ c ∈ nextProv h, LinkTakes env h c
  | .provGate =>
    EntersProv h → h.pendingAlloc ≠ none ∧ LinkTakes env h (CMD_BUS_CLEAR_ROSTER, [])
  | _ => True

/-- A reset finds no provisioning request pending, and each command is taken. -/
def ProvTaken (env : Env) (h : Host) (op : Op) : Prop :=
  (ResetsProv h op → NoProv h) ∧ CommandTaken env h op

instance (env : Env) (h : Host) (c : ProvCommand) : Decidable (LinkTakes env h c) :=
  inferInstanceAs (Decidable (_ ∧ _))

instance (h : Host) : Decidable (EntersProv h) := inferInstanceAs (Decidable (_ ∧ _ ∧ _ ∧ _))

instance (env : Env) (h : Host) (op : Op) : Decidable (CommandTaken env h op) :=
  match op with
  | .frame f => inferInstanceAs (Decidable (AnswersProv h f → ∀ c ∈ nextProv h, LinkTakes env h c))
  | .provGate => inferInstanceAs (Decidable (EntersProv h → h.pendingAlloc ≠ none ∧ _))
  | .linkUp | .linkDown | .demuxSweep | .manifestDue | .trackerPoll | .reconcile | .submit _
  | .sendShell .. | .addSlave _ | .attachRoster .. | .drain | .tick _ => isTrue trivial

instance (env : Env) (h : Host) (op : Op) : Decidable (ProvTaken env h op) :=
  inferInstanceAs (Decidable (_ ∧ _))

variable {c : ProvCommand}

theorem LinkTakes.stays (ht : LinkTakes env h c) : Stays env h c := by
  intro _ hdown
  rw [ht.2] at hdown
  exact SendResult.noConfusion hdown

variable {op : Op}

theorem ProvTaken.leftAlone (ht : ProvTaken env h op) : LeftAlone env h op := by
  refine ⟨ht.1, ?_⟩
  intro c hc
  cases op with
  | frame f =>
    by_cases hans : AnswersProv h f
    · simp only [sendsProv, if_pos hans] at hc
      exact (ht.2 hans c hc).stays
    · simp only [sendsProv, if_neg hans] at hc
      exact absurd hc (Option.some_ne_none c).symm
  | provGate =>
    by_cases hstart : StartsProv h
    · simp only [sendsProv, if_pos hstart] at hc
      obtain rfl := Option.some.inj hc
      exact (ht.2 ⟨hstart.1, hstart.2.1, hstart.2.2.1, hstart.2.2.2.1⟩).2.stays
    · simp only [sendsProv, if_neg hstart] at hc
      exact absurd hc (Option.some_ne_none c).symm
  | _ => exact absurd hc (Option.some_ne_none c).symm

theorem length_registerArgs (s : RosterSlave) : (registerArgs s).length = 6 := rfl

theorem setPollArgs_length (r : Roster) : (setPollArgs r).length = 4 := by
  unfold setPollArgs
  split
  · rfl
  · rfl

/-- No provisioning command is too long for a frame. -/
theorem provCommands_fit {r : Roster} (hc : c ∈ provCommands r) :
    SHELL_EXEC_HDR + c.2.length ≤ COMM_PAYLOAD_MAX := by
  unfold provCommands at hc
  simp only [List.cons_append, List.mem_cons, List.mem_append, List.mem_map] at hc
  rcases hc with rfl | ⟨s, -, rfl⟩ | hpoll | rfl | hnil
  · decide
  · rw [length_registerArgs]
    decide
  · split at hpoll
    · rw [List.mem_singleton.mp hpoll, setPollArgs_length]
      decide
    · exact absurd hpoll List.not_mem_nil
  · decide
  · exact absurd hnil List.not_mem_nil

theorem provSend_waits (hfit : SHELL_EXEC_HDR + c.2.length ≤ COMM_PAYLOAD_MAX)
    (halloc : h.pendingAlloc ≠ none) (ht : LinkTakes env h c) :
    Waits (demuxSendShell (linkSend env) h c.1 c.2 .prov).1 := by
  obtain ⟨k, hk⟩ := Option.ne_none_iff_exists'.mp halloc
  have hup : ¬ h.ep_state = .down := by
    rw [ht.1]
    exact LinkState.noConfusion
  have hframe : LinkFrame.mk DONGLE_ADDR OP_SHELL_EXEC h.tx_seq
      (shellExecBody c.1 c.2 (UInt16.ofNat h.next_id)) = provFrame h c := rfl
  unfold demuxSendShell demuxSendShellTo demuxRequest
  rw [if_neg (Nat.not_lt.mpr hfit), hk]
  dsimp only
  unfold sendFrameAddr linkSend
  dsimp only
  rw [if_neg hup, hframe, ht.2]
  intro p hp
  exact ⟨k, _, Function.update_self .., rfl⟩

/-! ## The reply of a provisioning command -/

variable (send) in
/-- An OK to the command at the cursor sends the next one, or it is the last. -/
theorem onProvReply_next {h : Host} {p : Nat} (hcur : cursor h = some p) (hvalid : ValidPhase h)
    (result : List UInt8) :
    (∃ c prov prov_idx, nextProv h = some c ∧ cursor { h with prov, prov_idx } = some (p + 1) ∧
      onProvReply send h SHELL_STATUS_OK result =
        (demuxSendShell send { h with prov, prov_idx } c.1 c.2 .prov).1) ∨
      cursor (onProvReply send h SHELL_STATUS_OK result) = none := by
  have hnext : ∀ c, (provCommands h.roster)[p + 1]? = some c → nextProv h = some c := by
    intro c hc
    rw [nextProv, hcur]
    exact hc
  -- After the last slave comes SET_POLL or LIST, at the same place of the order.
  have hafter : ∀ idx, p + 1 = 1 + h.roster.slaves.length →
      ∃ c prov prov_idx, nextProv h = some c ∧ cursor { h with prov, prov_idx } = some (p + 1) ∧
        provAfterSlaves send { h with prov_idx := idx } =
          (demuxSendShell send { h with prov, prov_idx } c.1 c.2 .prov).1 := by
    intro idx hp
    unfold provAfterSlaves
    by_cases hpoll : h.roster.poll.isSome = true
    · refine ⟨(CMD_BUS_SET_POLL, setPollArgs h.roster), .setPoll, idx, hnext _ ?_, ?_, ?_⟩
      · rw [hp]
        exact provCommands_setPoll hpoll
      · exact congrArg some hp.symm
      · rw [if_pos hpoll]
        rfl
    · refine ⟨(CMD_BUS_LIST_SLAVES, []), .list, idx, hnext _ ?_, ?_, ?_⟩
      · have hc := provCommands_list h.roster
        rw [if_neg hpoll, Nat.add_zero] at hc
        rw [hp]
        exact hc
      · simp [cursor, hpoll, hp]
      · rw [if_neg hpoll]
        rfl
  unfold onProvReply
  rw [if_neg (fun hne => hne rfl)]
  split
  · rename_i hst
    have hp : p = 0 := by
      rw [cursor, hst] at hcur
      exact (Option.some.inj hcur).symm
    subst hp
    split
    · rename_i hpos
      exact Or.inl ⟨_, .register, 0, hnext _ (provCommands_register hpos), rfl, rfl⟩
    · refine Or.inl (hafter h.prov_idx ?_)
      omega
  · rename_i hst
    have hp : p = 1 + h.prov_idx := by
      rw [cursor, hst] at hcur
      exact (Option.some.inj hcur).symm
    have hidx := hvalid.1 hst
    dsimp only
    split
    · rename_i hmore
      have hpos : p + 1 = 1 + (h.prov_idx + 1) := by omega
      let c := (CMD_BUS_REGISTER_SLAVE, registerArgs (h.roster.slave (h.prov_idx + 1)))
      refine Or.inl ⟨c, h.prov, h.prov_idx + 1, hnext _ ?_, ?_, rfl⟩
      · rw [hpos]
        exact provCommands_register hmore
      · rw [hpos]
        simp [cursor, hst]
    · refine Or.inl (hafter _ ?_)
      omega
  · rename_i hst
    have hpoll := hvalid.2 hst
    have hp : p = 1 + h.roster.slaves.length := by
      rw [cursor, hst] at hcur
      exact (Option.some.inj hcur).symm
    have hc := provCommands_list h.roster
    rw [if_pos hpoll, ← hp] at hc
    refine Or.inl ⟨_, .list, h.prov_idx, hnext _ hc, ?_, rfl⟩
    simp [cursor, hpoll, hp]
  · right
    dsimp only
    split
    · rfl
    · rfl
  · rename_i hclear hregister hset hlist
    exfalso
    unfold cursor at hcur
    split at hcur
    · exact hclear (by assumption)
    · exact hregister (by assumption)
    · exact hset (by assumption)
    · exact hlist (by assumption)
    · exact absurd hcur (Option.some_ne_none p).symm

theorem onProvReply_waits {p : Nat} (hcur : cursor h = some p) (hvalid : ValidPhase h)
    (halloc : h.pendingAlloc ≠ none) (htakes : ∀ c, nextProv h = some c → LinkTakes env h c)
    (result : List UInt8) : Waits (onProvReply (linkSend env) h SHELL_STATUS_OK result) := by
  rcases onProvReply_next (linkSend env) hcur hvalid result with
    ⟨c, prov, idx, hc, -, heq⟩ | hnone
  · rw [heq]
    have hmem : c ∈ provCommands h.roster := by
      rw [nextProv, hcur] at hc
      exact List.mem_of_getElem? hc
    exact provSend_waits (h := { h with prov, prov_idx := idx }) (provCommands_fit hmem) halloc
      (htakes c hc)
  · exact waits_of_none hnone

/-- The end of a provisioning request advances the phase, or fails it. -/
theorem onProvReply_moves (hs : ProvSend send) {p : Nat} (hcur : cursor h = some p)
    (hvalid : ValidPhase h) (status : UInt8) (result : List UInt8) :
    cursor (onProvReply send h status result) ≠ some p := by
  by_cases hstatus : status = SHELL_STATUS_OK
  swap
  · rw [failed_cursor h hstatus]
    exact (Option.some_ne_none p).symm
  subst hstatus
  rcases onProvReply_next send hcur hvalid result with
    ⟨c, prov, idx, -, hnew, heq⟩ | hnone
  · rw [heq]
    rcases request_cursor hs { h with prov, prov_idx := idx } SHELL_EXEC_HDR c.2.length DONGLE_ADDR
      OP_SHELL_EXEC (shellExecBody c.1 c.2) .prov 0 with hsame | hnone
    · unfold demuxSendShell demuxSendShellTo
      rw [hsame, hnew]
      intro heq
      exact absurd (Option.some.inj heq) (Nat.succ_ne_self p)
    · unfold demuxSendShell demuxSendShellTo
      rw [hnone]
      exact (Option.some_ne_none p).symm
  · rw [hnone]
    exact (Option.some_ne_none p).symm

/-! ## One step -/

/-- What provisioning keeps when each of its commands is taken. -/
structure ProvTied (h : Host) : Prop where
  provisions : Provisions h
  waits : Waits h

theorem onShellReply_waits (ht : ProvTied h) {f : LinkFrame} (hcmd : f.cmd = OP_SHELL_REPLY)
    (htaken : AnswersProv h f → ∀ c, nextProv h = some c → LinkTakes env h c) :
    Waits (onShellReply env (linkSend env) h f.payload) := by
  unfold onShellReply
  split
  · exact ht.waits
  rename_i hlen
  split
  · exact ht.waits
  rename_i k hk
  obtain ⟨q, hq⟩ : ∃ q, h.pending k = some q := by
    have hfound := List.find?_some hk
    obtain ⟨q, hq, -⟩ := (Option.any_eq_true _ _).mp hfound
    exact ⟨q, hq⟩
  by_cases hans : isProv q = true ∧ f.payload.getD 2 0 = SHELL_STATUS_OK
  swap
  · refine resolve_waits linkSend_provSend ht.waits k _ _ ?_
    intro r hr hprov hstatus
    rw [hq] at hr
    obtain rfl := Option.some.inj hr
    exact hans ⟨hprov, hstatus⟩
  -- The command at the cursor is answered OK, and the place of its request is free again.
  obtain ⟨hprov, hstatus⟩ := hans
  have hcb : q.cb = .prov := by simpa [isProv] using hprov
  obtain ⟨p, -, -, hcur, -⟩ := ht.provisions.resolved hq hprov SHELL_STATUS_OK .reply
  have hanswers : AnswersProv h f := by
    refine ⟨hcmd, Nat.le_of_not_lt hlen, hstatus, ?_⟩
    rw [hk]
    simpa [hq] using hprov
  rw [resolve_eq hq, hcb, hstatus]
  refine onProvReply_waits (h := h.freed k q SHELL_STATUS_OK .reply) hcur ht.provisions.valid ?_
    (htaken hanswers) _
  intro hnone
  have hfull := List.find?_eq_none.mp hnone k (List.mem_finRange k)
  simp [Host.freed, Host.note, Host.setPending] at hfull

theorem provGate_waits (hw : Waits h)
    (htaken : EntersProv h → h.pendingAlloc ≠ none ∧ LinkTakes env h (CMD_BUS_CLEAR_ROSTER, [])) :
    Waits (provGate (linkSend env) h) := by
  unfold provGate
  split
  swap
  · exact hw
  rename_i hgate
  obtain ⟨hroster, hidle, hproto⟩ := hgate
  split
  · exact hw
  rename_i class_id hidentity
  split
  · rename_i hclass
    subst hclass
    obtain ⟨halloc, htakes⟩ := htaken ⟨hroster, hidle, hproto, hidentity⟩
    exact provSend_waits (h := { h with prov := .clear, prov_idx := 0, bc_total := 0 })
      (c := (CMD_BUS_CLEAR_ROSTER, [])) (by decide) halloc htakes
  · exact waits_of_none rfl

theorem attachRoster_waits {fuel : Nat} {r : Option Roster}
    (hattach : controllerAttachRoster env (linkSend env) fuel h r = some h') : Waits h' := by
  have hb : TrackerBlind (linkSend env) Waits := waits_blind linkSend_provSend
  unfold controllerAttachRoster at hattach
  dsimp only at hattach
  obtain ⟨g, hg, rfl⟩ := Option.map_eq_some_iff.mp hattach
  have hreset : Waits g := hb.reset (waits_of_none rfl) hg
  have hadd : Waits (g.roster.slaves.foldl (fun h s => cmdTrackerAddSlave h s.addr) g) := by
    refine foldl_keeps ?_ hreset _
    exact fun h s hw => hb.addSlave hw s.addr
  exact hadd.same rfl fun _ _ _ hq => hq

theorem step_waits (ht : ProvTied h) (hop : ProvTaken env h op) (hstep : step env h op = some h') :
    Waits h' := by
  have hs : ProvSend (linkSend env) := linkSend_provSend
  have hb : TrackerBlind (linkSend env) Waits := waits_blind hs
  have hl : Leaves env (linkSend env) (fun _ => True) Waits := waits_leaves hs
  have hw := ht.waits
  cases op with
  | frame f =>
    cases hstep
    by_cases hcmd : f.cmd = OP_SHELL_REPLY
    · unfold onLinkFrame
      rw [if_pos hcmd]
      exact onShellReply_waits ht hcmd hop.2
    · unfold onLinkFrame
      rw [if_neg hcmd]
      exact hl.onEvent hw f (fun _ => trivial) fun addr flags _ => hl.flagged h addr flags hw
  | linkUp =>
    rcases step_cases hstep with ⟨-, rfl⟩ | rfl
    · have hup : Waits { h with ep_state := .up } := hw.same rfl fun _ _ _ hq => hq
      exact hl.onLinkState hup .up fun _ => trivial
    · exact hw
  | linkDown =>
    rcases step_cases hstep with ⟨-, rfl⟩ | rfl
    · exact waits_of_none rfl
    · exact hw
  | demuxSweep =>
    cases hstep
    refine foldl_keeps ?_ hw _
    intro h k hw
    unfold sweepPending
    split
    · exact hw
    · exact ite_keeps (resolve_waits hs hw k _ _ fun _ _ _ => by decide) hw
  | manifestDue =>
    cases hstep
    exact hl.manifestDue hw
  | provGate =>
    cases hstep
    exact provGate_waits hw hop.2
  | trackerPoll =>
    cases hstep
    exact hb.trackerPoll hw
  | reconcile =>
    cases hstep
    exact hl.reconcileInterlocks hw
  | submit c =>
    cases hstep
    exact hb.submit hw c
  | sendShell dest_addr command_id args cb =>
    obtain ⟨hcb, rfl⟩ := step_cases hstep
    exact hl.shell h dest_addr command_id args cb hcb.1 hw
  | addSlave addr =>
    cases hstep
    exact hb.addSlave hw addr
  | attachRoster fuel r => exact attachRoster_waits hstep
  | drain =>
    cases hstep
    exact hw.same rfl fun _ _ _ hq => hq
  | tick ms =>
    cases hstep
    exact hw.same rfl fun _ _ _ hq => hq

theorem step_provTied (ht : ProvTied h) (hop : ProvTaken env h op) (hstep : step env h op = some h')
    : ProvTied h' :=
  ⟨step_provisions ht.provisions hop.leftAlone hstep, step_waits ht hop hstep⟩

/-! ## Every run -/

theorem ProvTied.law (ht : ProvTied h) : ProvNeverHangs env h where
  waits hwaits := by
    obtain ⟨p, hcur⟩ := (waits_iff_cursor h).mp hwaits
    obtain ⟨k, q, hq, hprov⟩ := ht.waits p hcur
    obtain ⟨ns, hlen, hcase⟩ := ht.provisions.active p hcur
    rcases hcase with ⟨-, hno⟩ | ⟨n, c, hc, honly, hchain⟩
    · have hnot := hno.not_prov hq
      rw [hprov] at hnot
      exact Bool.noConfusion hnot
    refine ⟨k, q, p, c, hq, by simpa [isProv] using hprov, ?_, hcur, hc, ?_⟩
    · intro l r hr hcb
      exact honly.one l k r q hr hq (by simp [isProv, hcb]) hprov
    · rw [hchain, honly.serial k q hq hprov, List.getLast?_append]
      rfl
  moves k q hq hcb status result cause := by
    have hprov : isProv q = true := by simp [isProv, hcb]
    obtain ⟨p, -, -, hcur, -⟩ := ht.provisions.resolved hq hprov status cause
    rw [resolve_eq hq, hcb, hcur]
    exact onProvReply_moves (h := h.freed k q status cause) linkSend_provSend hcur
      ht.provisions.valid status result

/-- In every run where each provisioning command is taken, and no reset finds one pending, a
phase that waits has its one request pending, and the end of the request moves the phase. -/
theorem provisioning_never_hangs (ops : List Op) (h : Host)
    (htaken : Meets (step env) (ProvTaken env) .create ops)
    (hrun : runs (step env) .create ops = some h) : ProvNeverHangs env h := by
  have htied : ProvTied .create := ⟨create_provisions, waits_of_none rfl⟩
  exact (inv_runs (fun _ _ _ ht hop hstep => step_provTied ht hop hstep) htied htaken hrun).law

/-- A roster without slaves: CLEAR is answered, and LIST waits for its reply. -/
theorem list_waits_for_its_reply : ∃ h,
    runs (step silentEnv) .create (clearSent ++ [replyOk 1]) = some h ∧ h.prov = .list ∧
      ProvNeverHangs silentEnv h := by
  have hprov : (runs (step silentEnv) .create (clearSent ++ [replyOk 1])).map Host.prov =
      some .list := by
    decide
  obtain ⟨h, hrun, hlist⟩ := Option.map_eq_some_iff.mp hprov
  refine ⟨h, hrun, hlist, provisioning_never_hangs _ h ?_ hrun⟩
  decide

/-! ## A command that is refused -/

/-- A link whose staging buffer has room for the REGISTER_ACK, and then for nothing. -/
def fullEnv : Env where
  link_send := fun n _ => if n = 0 then .queued else .refused
  on_done := fun _ => []

/-- CLEAR is refused, and the phase waits for a reply that cannot come. -/
theorem refused_clear_hangs :
    ¬ ∀ (env : Env) (ops : List Op) (h : Host),
      runs (step env) .create ops = some h → ProvNeverHangs env h := by
  intro hall
  have hsome : (runs (step fullEnv) .create clearSent).map
      (fun h => (h.prov, (List.finRange PENDING_MAX).all fun k => (h.pending k).isNone)) =
      some (.clear, true) := by
    decide
  obtain ⟨h, hrun, hstate⟩ := Option.map_eq_some_iff.mp hsome
  obtain ⟨hclear, hnone⟩ := Prod.mk.inj hstate
  have hwaits : h.prov.waits = true := by
    rw [hclear]
    rfl
  obtain ⟨k, q, p, c, hat⟩ := (hall fullEnv clearSent h hrun).waits hwaits
  have hk := List.all_eq_true.mp hnone k (List.mem_finRange k)
  rw [hat.pending] at hk
  exact Bool.noConfusion hk

end motioncore.host
