-- The provisioning of the roster: each command goes out when the one before it
-- is answered, and the phase says which one waits. The law reads the log since
-- the last reset; the invariant ties the phase to the request that is pending.
import MotionCore.Host.TrackerBlind

open motioncore.bytes motioncore.ring motioncore.bus motioncore.machine motioncore.trace

namespace motioncore.host

/-! ## The log since the last reset -/

/-- What the log says about provisioning. -/
inductive ProvEv where
  | sent (serial : Nat) (addr : UInt8) (opcode : UInt16) (payload : List UInt8)
  | answered (serial : Nat) (status : UInt8) (cause : Cause)
deriving DecidableEq

/-- The requests of provisioning and their ends, since the last reset. -/
def provSince (log : List Ev) : List ProvEv :=
  log.foldl (fun evs e =>
    match e with
    | .provReset => []
    | .request n .prov _ f => evs ++ [.sent n f.addr f.cmd f.payload]
    | .resolved n .prov status cause => evs ++ [.answered n status cause]
    | _ => evs) []

abbrev ProvCommand := UInt16 × List UInt8

/-- The commands that push a roster to the dongle, in order. -/
def provCommands (r : Roster) : List ProvCommand :=
  (CMD_BUS_CLEAR_ROSTER, []) :: (r.slaves.map fun s => (CMD_BUS_REGISTER_SLAVE, registerArgs s)) ++
    ((if r.poll.isSome then [(CMD_BUS_SET_POLL, setPollArgs r)] else []) ++
      [(CMD_BUS_LIST_SLAVES, [])])

def asked (n : Nat) (c : ProvCommand) : ProvEv :=
  .sent n DONGLE_ADDR OP_SHELL_EXEC (shellExecBody c.1 c.2 (UInt16.ofNat n))

/-- Each command is sent, and then answered OK by its own reply. -/
def chain (cs : List ProvCommand) (ns : List Nat) : List ProvEv :=
  (cs.zip ns).flatMap fun p => [asked p.2 p.1, .answered p.2 SHELL_STATUS_OK .reply]

/-- An end of a provisioning request is of one that was sent since the last reset. -/
def FreshAnswer (past : List Ev) : Ev → Prop
  | .resolved n .prov _ _ => ∃ addr opcode payload, .sent n addr opcode payload ∈ provSince past
  | _ => True

/-- What provisioning owes: it is done only when each command was answered by
its own reply, and no request from before a reset is looked at after it. -/
structure ProvLaw (h : Host) : Prop where
  done : h.prov = .done → ∃ ns, ns.length = (provCommands h.roster).length ∧
    provSince h.log = chain (provCommands h.roster) ns
  fresh : Past FreshAnswer h.log

/-! ## The invariant -/

def isProv (p : Pending) : Bool := p.cb == .prov

/-- No provisioning request is pending. -/
def NoProv (h : Host) : Prop := ∀ k, (h.pending k).all (fun p => !isProv p) = true

/-- The one provisioning request that is pending has this place in the order of the sends. -/
structure OnlyProv (h : Host) (n : Nat) : Prop where
  serial : ∀ k p, h.pending k = some p → isProv p = true → p.serial = n
  one : ∀ k l p q, h.pending k = some p → h.pending l = some q → isProv p = true →
    isProv q = true → k = l

/-- The place of the command that waits, in `provCommands`. -/
def cursor (h : Host) : Option Nat :=
  match h.prov with
  | .clear => some 0
  | .register => some (1 + h.prov_idx)
  | .setPoll => some (1 + h.roster.slaves.length)
  | .list => some (1 + h.roster.slaves.length + if h.roster.poll.isSome then 1 else 0)
  | _ => none

def ValidPhase (h : Host) : Prop :=
  (h.prov = .register → h.prov_idx < h.roster.slaves.length) ∧
    (h.prov = .setPoll → h.roster.poll.isSome = true)

/-- The commands before the cursor are answered, and the one at the cursor
waits for its reply (unless its send has failed). -/
structure Provisions (h : Host) : Prop where
  fresh : Past FreshAnswer h.log
  valid : ValidPhase h
  idle : h.prov = .idle → provSince h.log = []
  active : ∀ p, cursor h = some p → ∃ ns, ns.length = p ∧
    (provSince h.log = chain ((provCommands h.roster).take p) ns ∧ NoProv h ∨
      ∃ n c, (provCommands h.roster)[p]? = some c ∧ OnlyProv h n ∧
        provSince h.log = chain ((provCommands h.roster).take p) ns ++ [asked n c])
  rest : cursor h = none → NoProv h
  done : h.prov = .done → ∃ ns, ns.length = (provCommands h.roster).length ∧
    provSince h.log = chain (provCommands h.roster) ns

variable {h : Host}

theorem Provisions.law (hp : Provisions h) : ProvLaw h := ⟨hp.done, hp.fresh⟩

/-! ## Lists and logs -/

variable {p : Nat} {c : ProvCommand}

theorem chain_snoc {cs : List ProvCommand} {ns : List Nat} {n : Nat} (hlen : ns.length = p)
    (hc : cs[p]? = some c) : chain (cs.take (p + 1)) (ns ++ [n]) =
      chain (cs.take p) ns ++ [asked n c, .answered n SHELL_STATUS_OK .reply] := by
  have hp : p < cs.length := (List.getElem?_eq_some_iff.mp hc).1
  have htake : cs.take (p + 1) = cs.take p ++ [c] := by
    rw [List.take_add_one, hc]
    rfl
  have hzip : (cs.take p).length = ns.length := by
    rw [List.length_take, hlen]
    exact Nat.min_eq_left (Nat.le_of_lt hp)
  unfold chain
  rw [htake, List.zip_append hzip, List.flatMap_append]
  rfl

variable (r : Roster)

theorem length_provCommands : (provCommands r).length =
    1 + r.slaves.length + (if r.poll.isSome then 1 else 0) + 1 := by
  unfold provCommands
  split
  · simp
    omega
  · simp
    omega

/-- Events that provisioning does not read. -/
def Ev.provless : Ev → Bool
  | .request _ .prov _ _ => false
  | .resolved _ .prov _ _ => false
  | .provReset => false
  | _ => true

variable {e : Ev}

theorem provSince_snoc_provless (he : e.provless = true) (log : List Ev) :
    provSince (log ++ [e]) = provSince log := by
  unfold provSince
  rw [List.foldl_append]
  cases e with
  | request n cb x f =>
    cases cb with
    | prov => exact absurd he Bool.noConfusion
    | _ => rfl
  | resolved n cb st c =>
    cases cb with
    | prov => exact absurd he Bool.noConfusion
    | _ => rfl
  | provReset => exact absurd he Bool.noConfusion
  | _ => rfl

theorem provSince_provless {new : List Ev} (hnew : ∀ e ∈ new, e.provless = true) (log : List Ev) :
    provSince (log ++ new) = provSince log := by
  induction new generalizing log with
  | nil => rw [List.append_nil]
  | cons e new ih =>
    have hstep := ih (fun e' he' => hnew e' (List.mem_cons_of_mem _ he')) (log ++ [e])
    rw [List.append_assoc] at hstep
    exact hstep.trans (provSince_snoc_provless (hnew e List.mem_cons_self) log)

variable (log : List Ev)

theorem provSince_request (n x : Nat) (f : LinkFrame) : provSince (log ++ [.request n .prov x f]) =
      provSince log ++ [.sent n f.addr f.cmd f.payload] := by
  unfold provSince
  rw [List.foldl_append]
  rfl

theorem provSince_resolved (n : Nat) (status : UInt8) (cause : Cause) :
    provSince (log ++ [.resolved n .prov status cause]) =
      provSince log ++ [.answered n status cause] := by
  unfold provSince
  rw [List.foldl_append]
  rfl

theorem provSince_reset : provSince (log ++ [.provReset]) = [] := by
  unfold provSince
  rw [List.foldl_append]
  rfl

theorem freshAnswer_provless (he : e.provless = true) (past : List Ev) : FreshAnswer past e := by
  cases e with
  | resolved n cb st c =>
    cases cb with
    | prov => exact absurd he Bool.noConfusion
    | _ => trivial
  | _ => trivial

theorem fresh_provless {log new : List Ev} (h : Past FreshAnswer log)
    (hnew : ∀ e ∈ new, e.provless = true) : Past FreshAnswer (log ++ new) := by
  apply h.append
  rintro l e l' rfl
  exact freshAnswer_provless (hnew e (by simp)) _

/-! ## Changes that provisioning does not see -/

/-- Two states that agree on the phase. Provisioning requests may be gone, but
none is new. -/
structure ProvSame (h h' : Host) : Prop where
  roster : h'.roster = h.roster
  prov : h'.prov = h.prov
  prov_idx : h'.prov_idx = h.prov_idx
  pending : ∀ k p, isProv p = true → h'.pending k = some p → h.pending k = some p
  log : ∃ new : List Ev, h'.log = h.log ++ new ∧ ∀ e ∈ new, e.provless = true

theorem NoProv.not_prov (hn : NoProv h) {k : Fin PENDING_MAX} {p : Pending}
    (hp : h.pending k = some p) : isProv p = false := by
  have hk := hn k
  rw [hp] at hk
  simpa using hk

theorem noProv_of (hall : ∀ k p, h.pending k = some p → isProv p = false) : NoProv h := by
  intro k
  cases hp : h.pending k with
  | none => rfl
  | some p => simp [hall k p hp]

variable {h' : Host}

theorem NoProv.same (hn : NoProv h)
    (hpending : ∀ k p, isProv p = true → h'.pending k = some p → h.pending k = some p) :
    NoProv h' := by
  apply noProv_of
  intro k p hp
  by_contra hprov
  have htrue := Bool.of_not_eq_false hprov
  have hold := hn.not_prov (hpending k p htrue hp)
  rw [htrue] at hold
  exact Bool.noConfusion hold

theorem cursor_same (hs : ProvSame h h') : cursor h' = cursor h := by
  unfold cursor
  rw [hs.prov, hs.prov_idx, hs.roster]

theorem Provisions.same (hp : Provisions h) (hs : ProvSame h h') : Provisions h' := by
  obtain ⟨new, hlog, hnew⟩ := hs.log
  have hsince : provSince h'.log = provSince h.log := by
    rw [hlog]
    exact provSince_provless hnew h.log
  refine ⟨?_, ?_, ?_, ?_, ?_, ?_⟩
  · rw [hlog]
    exact fresh_provless hp.fresh hnew
  · unfold ValidPhase
    rw [hs.prov, hs.prov_idx, hs.roster]
    exact hp.valid
  · rw [hs.prov, hsince]
    exact hp.idle
  · intro p hcur
    rw [cursor_same hs] at hcur
    rw [hs.roster, hsince]
    obtain ⟨ns, hlen, hcase⟩ := hp.active p hcur
    refine ⟨ns, hlen, ?_⟩
    rcases hcase with ⟨hchain, hno⟩ | ⟨n, c, hc, honly, hchain⟩
    · exact Or.inl ⟨hchain, hno.same hs.pending⟩
    · refine Or.inr ⟨n, c, hc, ⟨?_, ?_⟩, hchain⟩
      · exact fun k q hq hprov => honly.serial k q (hs.pending k q hprov hq) hprov
      · intro k l q r hq hr hqp hrp
        exact honly.one k l q r (hs.pending k q hqp hq) (hs.pending l r hrp hr) hqp hrp
  · rw [cursor_same hs]
    exact fun hcur => (hp.rest hcur).same hs.pending
  · rw [hs.prov, hs.roster, hsince]
    exact hp.done

theorem ProvSame.of_core (hc : SameCore h h') : ProvSame h h' := by
  refine ⟨hc.roster, hc.prov, hc.prov_idx, ?_, [], ?_, by simp⟩
  · rw [hc.pending]
    exact fun _ _ _ hp => hp
  · rw [hc.log, List.append_nil]

theorem ofTracker_provless (he : e.ofTracker = true) : e.provless = true := by
  cases e with
  | request => exact absurd he Bool.noConfusion
  | resolved => exact absurd he Bool.noConfusion
  | provReset => exact absurd he Bool.noConfusion
  | _ => rfl

theorem ProvSame.of_tracker (hc : TrackerChange h h') : ProvSame h h' := by
  obtain ⟨new, hlog, hnew⟩ := hc.log
  refine ⟨hc.roster, hc.prov, hc.prov_idx, ?_, new, hlog, fun e he => ofTracker_provless (hnew e he)⟩
  rw [hc.pending]
  exact fun _ _ _ hp => hp

/-! ## The next command -/

theorem provCommands_register {r : Roster} {i : Nat} (hi : i < r.slaves.length) :
    (provCommands r)[1 + i]? = some (CMD_BUS_REGISTER_SLAVE, registerArgs (r.slave i)) := by
  unfold provCommands Roster.slave
  rw [List.cons_append, Nat.add_comm, List.getElem?_cons_succ,
    List.getElem?_append_left (by simpa using hi), List.getElem?_map,
    List.getElem?_eq_getElem hi]
  simp [List.getD_eq_getElem?_getD, List.getElem?_eq_getElem hi]

theorem provCommands_after (j : Nat) : (provCommands r)[1 + r.slaves.length + j]? =
      ((if r.poll.isSome then [(CMD_BUS_SET_POLL, setPollArgs r)] else []) ++
        [(CMD_BUS_LIST_SLAVES, [])])[j]? := by
  unfold provCommands
  have hsucc : 1 + r.slaves.length + j = (r.slaves.length + j) + 1 := by omega
  rw [List.cons_append, hsucc, List.getElem?_cons_succ,
    List.getElem?_append_right (by simp)]
  simp

theorem provCommands_setPoll {r : Roster} (hpoll : r.poll.isSome = true) :
    (provCommands r)[1 + r.slaves.length]? = some (CMD_BUS_SET_POLL, setPollArgs r) := by
  have h := provCommands_after r 0
  rw [Nat.add_zero, hpoll] at h
  exact h

theorem provCommands_list :
    (provCommands r)[1 + r.slaves.length + if r.poll.isSome then 1 else 0]? =
      some (CMD_BUS_LIST_SLAVES, []) := by
  rw [provCommands_after]
  split
  · rfl
  · rfl

/-- The first `p` commands are answered, and no request is pending. -/
structure Answered (h : Host) (p : Nat) : Prop where
  fresh : Past FreshAnswer h.log
  none_pending : NoProv h
  answered : ∃ ns, ns.length = p ∧ provSince h.log = chain ((provCommands h.roster).take p) ns

theorem Answered.provisions (ha : Answered h p) (hcur : cursor h = some p) (hvalid : ValidPhase h) :
    Provisions h := by
  have hphase : h.prov ≠ .idle ∧ h.prov ≠ .done := by
    constructor
    · intro hst
      simp [cursor, hst] at hcur
    · intro hst
      simp [cursor, hst] at hcur
  obtain ⟨ns, hlen, hchain⟩ := ha.answered
  refine ⟨ha.fresh, hvalid, fun hst => absurd hst hphase.1, ?_, ?_, fun hst => absurd hst hphase.2⟩
  · intro q hq
    rw [hcur] at hq
    obtain rfl := Option.some.inj hq
    exact ⟨ns, hlen, Or.inl ⟨hchain, ha.none_pending⟩⟩
  · intro hnone
    rw [hcur] at hnone
    exact absurd hnone (Option.some_ne_none p)

/-- The frame of a provisioning command that is sent now. -/
def provFrame (h : Host) (c : ProvCommand) : LinkFrame where
  addr := DONGLE_ADDR
  cmd := OP_SHELL_EXEC
  seq := h.tx_seq
  payload := shellExecBody c.1 c.2 (UInt16.ofNat h.next_id)

/-- The link does not go down while it takes the frame of the command. -/
def Stays (env : Env) (h : Host) (c : ProvCommand) : Prop :=
  h.ep_state = .up → env.link_send h.sends (provFrame h c) ≠ .queuedThenDown

variable {env : Env} {send : Send}

theorem Answered.registered {g : Host} {n : Nat} {k : Fin PENDING_MAX} {q : Pending} {f : LinkFrame}
    (ha : Answered h p) (hcur : cursor h = some p) (hvalid : ValidPhase h)
    (hc : (provCommands h.roster)[p]? = some c) (hprov : g.prov = h.prov)
    (hidx : g.prov_idx = h.prov_idx) (hroster : g.roster = h.roster)
    (hpending : g.pending = Function.update h.pending k (some q)) (hserial : q.serial = n)
    (hlog : g.log = h.log ++ [.queued f] ++ [.request n .prov 0 f])
    (hf : asked n c = .sent n f.addr f.cmd f.payload) : Provisions g := by
  have hsame : cursor g = some p := by
    rw [← hcur]
    unfold cursor
    rw [hprov, hidx, hroster]
  -- The request is at place `k`, and no other one is of provisioning.
  have hat : ∀ l r, g.pending l = some r → isProv r = true → l = k ∧ r = q := by
    intro l r hr hrp
    rw [hpending] at hr
    by_cases hl : l = k
    · subst hl
      rw [Function.update_self] at hr
      exact ⟨rfl, (Option.some.inj hr).symm⟩
    · rw [Function.update_of_ne hl] at hr
      rw [ha.none_pending.not_prov hr] at hrp
      exact absurd hrp Bool.noConfusion
  obtain ⟨ns, hlen, hchain⟩ := ha.answered
  refine ⟨?_, ?_, ?_, ?_, ?_, ?_⟩
  · rw [hlog]
    have hqueued : Past FreshAnswer (h.log ++ [.queued f]) := ha.fresh.snoc trivial
    exact hqueued.snoc trivial
  · unfold ValidPhase
    rw [hprov, hidx, hroster]
    exact hvalid
  · intro hst
    simp [cursor, hst] at hsame
  · intro m hm
    obtain rfl := Option.some.inj (hsame.symm.trans hm)
    rw [hroster]
    refine ⟨ns, hlen, Or.inr ⟨n, c, hc, ⟨?_, ?_⟩, ?_⟩⟩
    · intro l r hr hrp
      rw [(hat l r hr hrp).2, hserial]
    · intro l m r t hr ht hrp htp
      rw [(hat l r hr hrp).1, (hat m t ht htp).1]
    · rw [hlog, provSince_request, provSince_snoc_provless rfl, hchain, hf]
  · intro hnone
    exact absurd (hsame.symm.trans hnone) (Option.some_ne_none p)
  · intro hst
    simp [cursor, hst] at hsame

/-- Command `p` is sent. It may fail to go out, and then nothing is pending. -/
theorem provSend_keeps (ha : Answered h p) (hcur : cursor h = some p) (hvalid : ValidPhase h)
    (hc : (provCommands h.roster)[p]? = some c) (hstays : h.pendingAlloc ≠ none → Stays env h c) :
    Provisions (demuxSendShell (linkSend env) h c.1 c.2 .prov).1 := by
  have hp := ha.provisions hcur hvalid
  have hid : ∀ sends, Provisions
      { h with next_id := h.next_id + 1, tx_seq := h.tx_seq + 1, sends } := fun sends =>
    hp.same ⟨rfl, rfl, rfl, fun _ _ _ h => h, Adds.refl _⟩
  unfold demuxSendShell demuxSendShellTo demuxRequest
  split
  · exact hp
  split
  · exact hp
  rename_i k hk
  unfold sendFrameAddr linkSend
  dsimp only
  by_cases hup : h.ep_state = .up
  · have hnot : ¬ h.ep_state = .down := by
      rw [hup]
      exact LinkState.noConfusion
    rw [if_neg hnot]
    have hframe : LinkFrame.mk DONGLE_ADDR OP_SHELL_EXEC h.tx_seq
        (shellExecBody c.1 c.2 (UInt16.ofNat h.next_id)) = provFrame h c := rfl
    rw [hframe]
    cases hsent : env.link_send h.sends (provFrame h c) with
    | refused => exact hid _
    | queued =>
      exact ha.registered (k := k) (f := provFrame h c) hcur hvalid hc rfl rfl rfl rfl rfl rfl rfl
    | queuedThenDown =>
      rw [hk] at hstays
      exact absurd hsent (hstays (Option.some_ne_none k) hup)
  · have hdown : h.ep_state = .down := by
      cases hst : h.ep_state with
      | down => rfl
      | up => exact absurd hst hup
    rw [if_pos hdown]
    exact hid h.sends

/-! ## The reply of a provisioning command -/

/-- The command that an OK to the one at the cursor sends. -/
def nextProv (h : Host) : Option ProvCommand :=
  (cursor h).bind fun p => (provCommands h.roster)[p + 1]?

theorem provAfterSlaves_provisions (ha : Answered h (1 + h.roster.slaves.length))
    (hstays : ∀ c, (provCommands h.roster)[1 + h.roster.slaves.length]? = some c → Stays env h c) :
    Provisions (provAfterSlaves (linkSend env) h) := by
  unfold provAfterSlaves
  split
  · rename_i hpoll
    have hc := provCommands_setPoll hpoll
    have ha' : Answered { h with prov := .setPoll } (1 + h.roster.slaves.length) :=
      ⟨ha.1, ha.2, ha.3⟩
    exact provSend_keeps ha' rfl ⟨ProvState.noConfusion, fun _ => hpoll⟩ hc fun _ => hstays _ hc
  · rename_i hpoll
    have hc := provCommands_list h.roster
    rw [if_neg hpoll, Nat.add_zero] at hc
    have ha' : Answered { h with prov := .list } (1 + h.roster.slaves.length) :=
      ⟨ha.1, ha.2, ha.3⟩
    refine provSend_keeps ha' ?_ ⟨ProvState.noConfusion, ProvState.noConfusion⟩ hc fun _ => hstays _ hc
    simp [cursor, hpoll]

theorem onProvReply_ok (ha : Answered h (p + 1)) (hcur : cursor h = some p) (hvalid : ValidPhase h)
    (hstays : ∀ c, nextProv h = some c → Stays env h c) (result : List UInt8) :
    Provisions (onProvReply (linkSend env) h SHELL_STATUS_OK result) := by
  have hnext : ∀ c, (provCommands h.roster)[p + 1]? = some c → Stays env h c := by
    intro c hc
    apply hstays
    rw [nextProv, hcur]
    exact hc
  unfold onProvReply
  rw [if_neg (fun hne => hne rfl)]
  split
  · rename_i hst
    have hp : p = 0 := by
      rw [cursor, hst] at hcur
      exact (Option.some.inj hcur).symm
    subst hp
    split
    · rename_i hpos
      have hc := provCommands_register hpos
      have ha' : Answered { h with prov := .register, prov_idx := 0 } (1 + 0) := ⟨ha.1, ha.2, ha.3⟩
      exact provSend_keeps ha' rfl ⟨fun _ => hpos, ProvState.noConfusion⟩ hc fun _ => hnext _ hc
    · rename_i hpos
      have hzero : h.roster.slaves.length = 0 := by omega
      have ha' : Answered h (1 + h.roster.slaves.length) := by
        rw [hzero]
        exact ha
      refine provAfterSlaves_provisions ha' ?_
      rw [hzero]
      exact hnext
  · rename_i hst
    have hp : p = 1 + h.prov_idx := by
      rw [cursor, hst] at hcur
      exact (Option.some.inj hcur).symm
    have hidx := hvalid.1 hst
    dsimp only
    split
    · rename_i hmore
      have hc := provCommands_register hmore
      have hpos : p + 1 = 1 + (h.prov_idx + 1) := by omega
      rw [hpos] at ha hnext
      have ha' : Answered { h with prov_idx := h.prov_idx + 1 } (1 + (h.prov_idx + 1)) :=
        ⟨ha.1, ha.2, ha.3⟩
      refine provSend_keeps ha' ?_ ⟨fun _ => hmore, ?_⟩ hc fun _ => hnext _ hc
      · simp [cursor, hst]
      · intro hset
        have hset : h.prov = .setPoll := hset
        rw [hst] at hset
        exact ProvState.noConfusion hset
    · rename_i hlast
      have hpos : p + 1 = 1 + h.roster.slaves.length := by omega
      rw [hpos] at ha hnext
      have ha' : Answered { h with prov_idx := h.prov_idx + 1 } (1 + h.roster.slaves.length) :=
        ⟨ha.1, ha.2, ha.3⟩
      exact provAfterSlaves_provisions ha' hnext
  · rename_i hst
    have hpoll := hvalid.2 hst
    have hp : p = 1 + h.roster.slaves.length := by
      rw [cursor, hst] at hcur
      exact (Option.some.inj hcur).symm
    have hc := provCommands_list h.roster
    rw [if_pos hpoll, ← hp] at hc
    have ha' : Answered { h with prov := .list } (p + 1) := ⟨ha.1, ha.2, ha.3⟩
    refine provSend_keeps ha' ?_ ⟨ProvState.noConfusion, ProvState.noConfusion⟩ hc fun _ => hnext _ hc
    simp [cursor, hpoll, hp]
  · rename_i hst
    have hlen : p + 1 = (provCommands h.roster).length := by
      rw [cursor, hst] at hcur
      have hp := Option.some.inj hcur
      rw [length_provCommands]
      omega
    obtain ⟨ns, hns, hchain⟩ := ha.answered
    rw [hlen, List.take_length] at hchain
    dsimp only
    split
    · exact ⟨ha.fresh, ⟨ProvState.noConfusion, ProvState.noConfusion⟩, ProvState.noConfusion,
        fun q hq => absurd hq (Option.some_ne_none q).symm, fun _ => ha.none_pending,
        fun _ => ⟨ns, hns.trans hlen, hchain⟩⟩
    · exact ⟨ha.fresh, ⟨ProvState.noConfusion, ProvState.noConfusion⟩, ProvState.noConfusion,
        fun q hq => absurd hq (Option.some_ne_none q).symm, fun _ => ha.none_pending,
        ProvState.noConfusion⟩
  · rename_i hclear hregister hset hlist
    exfalso
    unfold cursor at hcur
    split at hcur
    · exact hclear (by assumption)
    · exact hregister (by assumption)
    · exact hset (by assumption)
    · exact hlist (by assumption)
    · exact absurd hcur (Option.some_ne_none p).symm

end motioncore.host
