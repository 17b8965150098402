-- The requests of the demux over any run of its functions: sends, replies,
-- timeouts and a link that goes down, also in the middle of a send. The id of a
-- request has 16 bits, its place in the order of the sends (`serial`) has no
-- bound. A callback that sends is the next step of the run.
import MotionCore.Host.Controller

open motioncore.bytes motioncore.machine

namespace motioncore.host

/-! ## The machine -/

inductive RequestKind where
  | shell
  | busExec (exec_timeout_ms : UInt16)
deriving DecidableEq

def RequestKind.hdr : RequestKind → Nat
  | .shell => SHELL_EXEC_HDR
  | .busExec _ => BUS_EXEC_HDR

/-- The arguments of a call that sends a request. The length check of the code
has 16 bits, and does not wrap. -/
structure Request where
  kind : RequestKind
  dest_addr : UInt8
  command_id : UInt16
  args : List UInt8
  len_lt : kind.hdr + args.length < 2 ^ 16

def Request.send (r : Request) (send : Send) (h : Host) : Host × UInt16 :=
  match r.kind with
  | .shell => demuxSendShellTo send h r.dest_addr r.command_id r.args .client
  | .busExec exec_timeout_ms =>
    demuxSendBusExec send h r.dest_addr r.command_id exec_timeout_ms r.args .client 0

/-- What the callbacks send when the link goes down. The link takes none of it. -/
abbrev Resends := Fin PENDING_MAX → List Request

def sendClosed (h : Host) (rs : List Request) : Host :=
  rs.foldl (fun h r => (r.send linkClosed h).1) h

def dropPending (env : Env) (resends : Resends) (h : Host) (k : Fin PENDING_MAX) : Host :=
  match h.pending k with
  | none => h
  | some _ =>
    sendClosed (resolve env linkClosed h k DEMUX_STATUS_LINK_DOWN [] .linkDown) (resends k)

/-- The loop of `on_link_state` over the pending requests. -/
def dropAll (env : Env) (resends : Resends) (h : Host) : Host :=
  (List.finRange PENDING_MAX).foldl (dropPending env resends) h

inductive LinkAct where
  | refuses
  | takes
  /-- The link takes the frame and goes down before it returns. -/
  | drops (resends : Resends)

def LinkAct.takesFrame : LinkAct → Bool
  | .refuses => false
  | _ => true

def LinkAct.goesDown : LinkAct → Bool
  | .drops _ => true
  | _ => false

def linkAct (env : Env) (a : LinkAct) : Send := fun h f =>
  if h.ep_state = .down then (h, false)
  else
    match a with
    | .refuses => (h, false)
    | .takes => (h.note (.queued f), true)
    | .drops resends => (dropAll env resends { h.note (.queued f) with ep_state := .down }, true)

inductive DemuxOp where
  | send (r : Request) (a : LinkAct)
  | raw (opcode : UInt16) (payload : List UInt8) (a : LinkAct)
  /-- A frame that answers the request `n`. -/
  | reply (n : Nat) (payload : List UInt8)
  /-- The sweep finds request `k` too old. -/
  | timeout (k : Fin PENDING_MAX)
  | linkDown (resends : Resends)
  | linkUp
  | tick (ms : Nat)

/-- One step of the demux. A frame answers a request with the id of the request. -/
def demuxStep (env : Env) (h : Host) : DemuxOp → Option Host
  | .send r a => some (r.send (linkAct env a) h).1
  | .raw opcode payload a => some (demuxSendRaw (linkAct env a) h opcode payload)
  | .reply n payload =>
    if le16 (payload.getD 0 0) (payload.getD 1 0) = UInt16.ofNat n then
      some (onShellReply env linkClosed h payload)
    else none
  | .timeout k => some (resolve env linkClosed h k DEMUX_STATUS_TIMEOUT [] .sweep)
  | .linkDown resends => some (dropAll env resends { h with ep_state := .down })
  | .linkUp => some { h with ep_state := .up }
  | .tick ms => some { h with clock := h.clock + ms }

/-! ## The law -/

def framesOf (log : List Ev) : List LinkFrame :=
  log.filterMap fun e => match e with | .queued f => some f | _ => none

def requestsOf (log : List Ev) : List Nat :=
  log.filterMap fun e => match e with | .request n _ _ _ => some n | _ => none

def answeredOf (log : List Ev) : List Nat :=
  log.filterMap fun e => match e with | .resolved n _ _ .reply => some n | _ => none

/-- Two pending requests have different ids. -/
def DistinctIds (h : Host) : Prop :=
  ∀ k l p q, h.pending k = some p → h.pending l = some q → p.request_id = q.request_id → k = l

/-- A send tells its caller of an error exactly when it has sent and registered nothing. -/
def TellsTruth (h : Host) (r : Host × UInt16) : Prop :=
  r.2 = NO_REQUEST ↔ framesOf r.1.log = framesOf h.log ∧ requestsOf r.1.log = requestsOf h.log

/-- A frame that answers the request `n` resolves that request or none. -/
def Answers (h h' : Host) (n : Nat) : Prop :=
  answeredOf h'.log = answeredOf h.log ∨ answeredOf h'.log = answeredOf h.log ++ [n]

def DemuxLaw (env : Env) (h : Host) (op : DemuxOp) : Prop :=
  DistinctIds h ∧
    match op with
    | .send r a => TellsTruth h (r.send (linkAct env a) h)
    | .reply n _ => ∀ h', demuxStep env h op = some h' → Answers h h' n
    | _ => True

/-! ## The condition -/

/-- The request fits, there is a place for it, and the link takes its frame. -/
def Request.goesOut (r : Request) (a : LinkAct) (h : Host) : Prop :=
  r.kind.hdr + r.args.length ≤ COMM_PAYLOAD_MAX ∧ h.pendingAlloc ≠ none ∧ h.ep_state = .up ∧
    a.takesFrame = true

/-- The next id can be told from an error, and no pending request has it. A
link that goes down leaves no request pending. -/
def FreshId (h : Host) (a : LinkAct) : Prop :=
  UInt16.ofNat h.next_id ≠ NO_REQUEST ∧
    (a.goesDown = false → h.pendingFind (UInt16.ofNat h.next_id) = none)

/-- Ids are not used twice at one time, neither by a new request nor by the
late reply of an old one. -/
def IdsFree (h : Host) : DemuxOp → Prop
  | .send r a => r.goesOut a h → FreshId h a
  | .reply n _ =>
    (∃ k, (h.pending k).any (fun p => p.serial == n) = true) ∨ h.pendingFind (UInt16.ofNat n) = none
  | _ => True

/-! ## The invariant -/

/-- The pending table of a run. -/
structure Ids (h : Host) : Prop where
  distinct : DistinctIds h
  cut : ∀ k p, h.pending k = some p → p.request_id = UInt16.ofNat p.serial
  client : ∀ k p, h.pending k = some p → p.cb = .client

section

variable {a b : List Ev}

@[simp] theorem framesOf_append : framesOf (a ++ b) = framesOf a ++ framesOf b :=
  List.filterMap_append

@[simp] theorem requestsOf_append : requestsOf (a ++ b) = requestsOf a ++ requestsOf b :=
  List.filterMap_append

@[simp] theorem answeredOf_append : answeredOf (a ++ b) = answeredOf a ++ answeredOf b :=
  List.filterMap_append

end

/-- Some requests are no longer pending, and nothing was sent or answered. -/
structure Fewer (h h' : Host) : Prop where
  pending : ∀ k, h'.pending k = h.pending k ∨ h'.pending k = none
  frames : framesOf h'.log = framesOf h.log
  requests : requestsOf h'.log = requestsOf h.log
  answered : answeredOf h'.log = answeredOf h.log

variable {env : Env}

theorem Fewer.refl (h : Host) : Fewer h h := ⟨fun _ => Or.inl rfl, rfl, rfl, rfl⟩

theorem Fewer.trans {a b c : Host} (hab : Fewer a b) (hbc : Fewer b c) : Fewer a c := by
  refine ⟨?_, hbc.frames.trans hab.frames, hbc.requests.trans hab.requests,
    hbc.answered.trans hab.answered⟩
  intro k
  rcases hbc.pending k with h | h
  · rw [h]
    exact hab.pending k
  · exact Or.inr h

variable {h h' : Host} {k : Fin PENDING_MAX} {p : Pending}

theorem Fewer.some (hf : Fewer h h') (hp : h'.pending k = some p) : h.pending k = some p := by
  rcases hf.pending k with hk | hk
  · rw [← hk]
    exact hp
  · rw [hk] at hp
    exact absurd hp (Option.some_ne_none p).symm

theorem Ids.fewer (hi : Ids h) (hf : Fewer h h') : Ids h' := by
  refine ⟨?_, fun k p hp => hi.cut k p (hf.some hp), fun k p hp => hi.client k p (hf.some hp)⟩
  intro k l p q hk hl hid
  exact hi.distinct k l p q (hf.some hk) (hf.some hl) hid

def Request.opcode (r : Request) : UInt16 :=
  match r.kind with
  | .shell => OP_SHELL_EXEC
  | .busExec _ => OP_BUS_EXEC

def Request.body (r : Request) : UInt16 → List UInt8 :=
  match r.kind with
  | .shell => shellExecBody r.command_id r.args
  | .busExec exec_timeout_ms => busExecBody r.command_id exec_timeout_ms r.args

/-- Both kinds of request are sent by the same code. -/
theorem Request.send_eq (r : Request) (send : Send) (h : Host) :
    r.send send h = demuxRequest send h r.kind.hdr r.args.length r.dest_addr r.opcode r.body
      .client 0 := by
  unfold Request.send Request.opcode Request.body RequestKind.hdr
  cases r.kind <;> rfl

theorem send_closed (r : Request) (h : Host) :
    ∃ n t, r.send linkClosed h = ({ h with next_id := n, tx_seq := t }, NO_REQUEST) := by
  rw [Request.send_eq]
  unfold demuxRequest
  split
  · exact ⟨h.next_id, h.tx_seq, rfl⟩
  split
  · exact ⟨h.next_id, h.tx_seq, rfl⟩
  · exact ⟨_, _, rfl⟩

theorem sendClosed_eq (rs : List Request) (h : Host) :
    ∃ n t, sendClosed h rs = { h with next_id := n, tx_seq := t } := by
  induction rs generalizing h with
  | nil => exact ⟨h.next_id, h.tx_seq, rfl⟩
  | cons r rs ih =>
    obtain ⟨n, t, hr⟩ := send_closed r h
    obtain ⟨m, u, hrs⟩ := ih (r.send linkClosed h).1
    refine ⟨m, u, ?_⟩
    have hfold : sendClosed h (r :: rs) = sendClosed (r.send linkClosed h).1 rs := rfl
    rw [hfold, hrs, hr]

theorem resolve_client (hp : h.pending k = some p) (hcb : p.cb = .client) (status : UInt8)
    (result : List UInt8) (cause : Cause) : resolve env linkClosed h k status result cause =
      (h.setPending k none).note (.resolved p.serial .client status cause) := by
  unfold resolve
  rw [hp]
  dsimp only
  rw [hcb]
  rfl

variable (env) in
theorem resolve_fewer {h : Host} (hi : Ids h) (k : Fin PENDING_MAX) (status : UInt8)
    (result : List UInt8) {c : Cause} (hcause : c ≠ .reply) :
    Fewer h (resolve env linkClosed h k status result c) ∧
      (resolve env linkClosed h k status result c).pending k = none := by
  cases hp : h.pending k with
  | none =>
    have hsame : resolve env linkClosed h k status result c = h := by
      unfold resolve
      rw [hp]
    rw [hsame]
    exact ⟨Fewer.refl h, hp⟩
  | some p =>
    rw [resolve_client hp (hi.client k p hp)]
    refine ⟨⟨?_, ?_, ?_, ?_⟩, ?_⟩
    · intro l
      by_cases hl : l = k
      · subst hl
        simp [Host.setPending, Host.note]
      · simp [Host.setPending, Host.note, Function.update_of_ne hl]
    · simp [Host.note, Host.setPending, framesOf]
    · simp [Host.note, Host.setPending, requestsOf]
    · cases c with
      | reply => exact absurd rfl hcause
      | _ => simp [Host.note, Host.setPending, answeredOf]
    · simp [Host.setPending, Host.note]

variable (env) in
theorem dropPending_fewer {h : Host} (hi : Ids h) (resends : Resends) (k : Fin PENDING_MAX) :
    Fewer h (dropPending env resends h k) ∧ (dropPending env resends h k).pending k = none := by
  unfold dropPending
  split
  · rename_i hp
    exact ⟨Fewer.refl h, hp⟩
  · obtain ⟨hfewer, hnone⟩ := resolve_fewer env hi k DEMUX_STATUS_LINK_DOWN []
      (c := .linkDown) Cause.noConfusion
    obtain ⟨n, t, heq⟩ := sendClosed_eq (resends k)
      (resolve env linkClosed h k DEMUX_STATUS_LINK_DOWN [] .linkDown)
    rw [heq]
    exact ⟨⟨hfewer.pending, hfewer.frames, hfewer.requests, hfewer.answered⟩, hnone⟩

variable (env) in
/-- A link that goes down leaves no request pending. -/
theorem dropAll_fewer {h : Host} (hi : Ids h) (resends : Resends) :
    Fewer h (dropAll env resends h) ∧ ∀ k, (dropAll env resends h).pending k = none := by
  have hfold : ∀ (ks : List (Fin PENDING_MAX)) (h : Host), Ids h →
      Fewer h (ks.foldl (dropPending env resends) h) ∧
        ∀ k ∈ ks, (ks.foldl (dropPending env resends) h).pending k = none := by
    intro ks
    induction ks with
    | nil => exact fun h _ => ⟨Fewer.refl h, by simp⟩
    | cons k ks ih =>
      intro h hi
      obtain ⟨hone, hnone⟩ := dropPending_fewer env hi resends k
      obtain ⟨hrest, hall⟩ := ih _ (hi.fewer hone)
      refine ⟨hone.trans hrest, ?_⟩
      intro l hl
      rcases List.mem_cons.mp hl with rfl | hl
      · rcases hrest.pending l with heq | heq
        · exact heq.trans hnone
        · exact heq
      · exact hall l hl
  obtain ⟨hfewer, hall⟩ := hfold (List.finRange PENDING_MAX) h hi
  exact ⟨hfewer, fun k => hall k (List.mem_finRange k)⟩

/-! ## What a send does -/

variable (env) in
theorem linkAct_up {h : Host} (hi : Ids h) (hup : h.ep_state = .up) {a : LinkAct}
    (ha : a.takesFrame = true) (f : LinkFrame) :
    ∃ h', linkAct env a h f = (h', true) ∧ framesOf h'.log = framesOf h.log ++ [f] ∧
      requestsOf h'.log = requestsOf h.log ∧ answeredOf h'.log = answeredOf h.log ∧
      (a.goesDown = false ∧ h'.pending = h.pending ∨ ∀ k, h'.pending k = none) := by
  have hnot : ¬ h.ep_state = .down := by
    rw [hup]
    exact LinkState.noConfusion
  unfold linkAct
  rw [if_neg hnot]
  cases a with
  | refuses => exact absurd ha Bool.noConfusion
  | takes => exact ⟨_, rfl, by simp [Host.note, framesOf], by simp [Host.note, requestsOf],
      by simp [Host.note, answeredOf], Or.inl ⟨rfl, rfl⟩⟩
  | drops resends =>
    have hi' : Ids { h.note (.queued f) with ep_state := .down } := ⟨hi.1, hi.2, hi.3⟩
    obtain ⟨hfewer, hnone⟩ := dropAll_fewer env hi' resends
    refine ⟨_, rfl, ?_, ?_, ?_, Or.inr hnone⟩
    · rw [hfewer.frames]
      simp [Host.note, framesOf]
    · rw [hfewer.requests]
      simp [Host.note, requestsOf]
    · rw [hfewer.answered]
      simp [Host.note, answeredOf]

variable {a : LinkAct}

theorem linkAct_no {f : LinkFrame} (hno : ¬ (h.ep_state = .up ∧ a.takesFrame = true)) :
    linkAct env a h f = (h, false) := by
  unfold linkAct
  split
  · rfl
  rename_i hdown
  have hup : h.ep_state = .up := by
    cases hst : h.ep_state with
    | down => exact absurd hst hdown
    | up => rfl
  cases a with
  | refuses => rfl
  | takes => exact absurd ⟨hup, rfl⟩ hno
  | drops => exact absurd ⟨hup, rfl⟩ hno

variable (env) in
/-- A send that fails has used up an id at most. -/
theorem send_in {r : Request} {a : LinkAct} {h : Host} (hout : ¬ r.goesOut a h) :
    ∃ n t, r.send (linkAct env a) h = ({ h with next_id := n, tx_seq := t }, NO_REQUEST) := by
  rw [Request.send_eq]
  unfold demuxRequest
  split
  · exact ⟨h.next_id, h.tx_seq, rfl⟩
  rename_i hfit
  split
  · exact ⟨h.next_id, h.tx_seq, rfl⟩
  rename_i k hk
  have hno : ¬ (h.ep_state = .up ∧ a.takesFrame = true) := by
    rintro ⟨hup, ha⟩
    exact hout ⟨Nat.not_lt.mp hfit, by rw [hk]; exact Option.some_ne_none k, hup, ha⟩
  unfold sendFrameAddr
  dsimp only
  rw [linkAct_no (h := { h with next_id := h.next_id + 1, tx_seq := h.tx_seq + 1 }) hno]
  exact ⟨_, _, rfl⟩

variable (env) in
/-- A send that goes out registers the request with the next id, beside the
requests that are still pending. -/
theorem send_out {r : Request} {a : LinkAct} {h : Host} (hi : Ids h) (hout : r.goesOut a h) :
    ∃ h' k f, r.send (linkAct env a) h = (h', UInt16.ofNat h.next_id) ∧
      framesOf h'.log = framesOf h.log ++ [f] ∧
      requestsOf h'.log = requestsOf h.log ++ [h.next_id] ∧
      answeredOf h'.log = answeredOf h.log ∧
      ∀ l p, h'.pending l = some p →
        (l = k ∧ p.request_id = UInt16.ofNat h.next_id ∧ p.serial = h.next_id ∧
          p.cb = .client) ∨ (a.goesDown = false ∧ h.pending l = some p) := by
  obtain ⟨hfit, hfree, hup, ha⟩ := hout
  obtain ⟨k, hk⟩ := Option.ne_none_iff_exists'.mp hfree
  have hi' : Ids { h with next_id := h.next_id + 1, tx_seq := h.tx_seq + 1 } :=
    ⟨hi.1, hi.2, hi.3⟩
  rw [Request.send_eq]
  unfold demuxRequest
  rw [if_neg (Nat.not_lt.mpr hfit), hk]
  unfold sendFrameAddr
  dsimp only
  obtain ⟨h', hsent, hframes, hrequests, hanswered, hpending⟩ := linkAct_up env hi' hup ha
    { addr := r.dest_addr, cmd := r.opcode, seq := h.tx_seq,
      payload := r.body (UInt16.ofNat h.next_id) }
  rw [hsent]
  dsimp only
  rw [if_pos rfl]
  refine ⟨_, k, LinkFrame.mk r.dest_addr r.opcode h.tx_seq (r.body (UInt16.ofNat h.next_id)), rfl,
    ?_, ?_, ?_, ?_⟩
  · simp only [Host.note, Host.setPending, framesOf_append]
    rw [hframes]
    simp [framesOf]
  · simp only [Host.note, Host.setPending, requestsOf_append]
    rw [hrequests]
    simp [requestsOf]
  · simp only [Host.note, Host.setPending, answeredOf_append]
    rw [hanswered]
    simp [answeredOf]
  · intro l p hp
    by_cases hl : l = k
    · subst hl
      simp only [Host.note, Host.setPending, Function.update_self, Option.some.injEq] at hp
      rw [← hp]
      exact Or.inl ⟨rfl, rfl, rfl, rfl⟩
    · simp only [Host.note, Host.setPending, Function.update_of_ne hl] at hp
      rcases hpending with ⟨hstays, hsame⟩ | hnone
      · rw [hsame] at hp
        exact Or.inr ⟨hstays, hp⟩
      · rw [hnone l] at hp
        exact absurd hp (Option.some_ne_none p).symm

theorem pendingFind_none {rid : UInt16} (hno : h.pendingFind rid = none) (hp : h.pending k = some p)
    : p.request_id ≠ rid := by
  unfold Host.pendingFind at hno
  have hk := List.find?_eq_none.mp hno k (List.mem_finRange k)
  rw [hp] at hk
  simpa using hk

theorem pendingFind_some {rid : UInt16} (hk : h.pendingFind rid = some k) :
    ∃ p, h.pending k = some p ∧ p.request_id = rid := by
  unfold Host.pendingFind at hk
  have hany := List.find?_some hk
  cases hp : h.pending k with
  | none =>
    rw [hp] at hany
    exact absurd hany Bool.noConfusion
  | some p =>
    rw [hp] at hany
    exact ⟨p, rfl, by simpa using hany⟩

theorem send_ids {r : Request} (hi : Ids h) (hok : r.goesOut a h → FreshId h a) :
    Ids (r.send (linkAct env a) h).1 := by
  by_cases hout : r.goesOut a h
  · obtain ⟨-, hfresh⟩ := hok hout
    obtain ⟨h', k, f, hsent, -, -, -, hpending⟩ := send_out env hi hout
    rw [hsent]
    -- The new request differs from each one that is still pending.
    have hnew : ∀ l p, a.goesDown = false → h.pending l = some p →
        p.request_id ≠ UInt16.ofNat h.next_id :=
      fun l p hstays hp => pendingFind_none (hfresh hstays) hp
    refine ⟨?_, ?_, ?_⟩
    · intro l m p q hp hq hid
      rcases hpending l p hp with ⟨hlk, hpid, -⟩ | ⟨hl, hlp⟩
      · rcases hpending m q hq with ⟨hmk, -⟩ | ⟨hm, hmq⟩
        · rw [hlk, hmk]
        · exact absurd (hid.symm.trans hpid) (hnew m q hm hmq)
      · rcases hpending m q hq with ⟨-, hqid, -⟩ | ⟨hm, hmq⟩
        · exact absurd (hid.trans hqid) (hnew l p hl hlp)
        · exact hi.distinct l m p q hlp hmq hid
    · intro l p hp
      rcases hpending l p hp with ⟨-, hpid, hserial, -⟩ | ⟨-, hlp⟩
      · rw [hpid, hserial]
      · exact hi.cut l p hlp
    · intro l p hp
      rcases hpending l p hp with ⟨-, -, -, hcb⟩ | ⟨-, hlp⟩
      · exact hcb
      · exact hi.client l p hlp
  · obtain ⟨n, t, hsent⟩ := send_in env hout
    rw [hsent]
    exact ⟨hi.1, hi.2, hi.3⟩

theorem send_tells_truth {r : Request} (hi : Ids h) (hok : r.goesOut a h → FreshId h a) :
    TellsTruth h (r.send (linkAct env a) h) := by
  unfold TellsTruth
  by_cases hout : r.goesOut a h
  · obtain ⟨hid, -⟩ := hok hout
    obtain ⟨h', k, f, hsent, hframes, -⟩ := send_out env hi hout
    rw [hsent]
    constructor
    · exact fun hno => absurd hno hid
    · rintro ⟨hsame, -⟩
      rw [hframes] at hsame
      exact absurd hsame (by simp)
  · obtain ⟨n, t, hsent⟩ := send_in env hout
    rw [hsent]
    exact ⟨fun _ => ⟨rfl, rfl⟩, fun _ => rfl⟩

theorem reply_answers (hi : Ids h) {n : Nat} {payload : List UInt8}
    (hrid : le16 (payload.getD 0 0) (payload.getD 1 0) = UInt16.ofNat n)
    (hok : (∃ k, (h.pending k).any (fun p => p.serial == n) = true) ∨
      h.pendingFind (UInt16.ofNat n) = none) : Answers h (onShellReply env linkClosed h payload) n ∧
      Ids (onShellReply env linkClosed h payload) := by
  unfold onShellReply
  split
  · exact ⟨Or.inl rfl, hi⟩
  rw [hrid]
  split
  · exact ⟨Or.inl rfl, hi⟩
  rename_i k hk
  obtain ⟨p, hp, hid⟩ := pendingFind_some hk
  rcases hok with ⟨l, hl⟩ | hnone
  · obtain ⟨q, hq, hserial⟩ := (Option.any_eq_true _ _).mp hl
    have hqn : q.serial = n := by simpa using hserial
    have hkl : k = l := hi.distinct k l p q hp hq (by rw [hid, hi.cut l q hq, hqn])
    rw [← hkl, hp] at hq
    obtain rfl := Option.some.inj hq
    rw [resolve_client hp (hi.client k p hp)]
    refine ⟨Or.inr ?_, ?_⟩
    · simp [Host.note, Host.setPending, answeredOf, hqn]
    · have hless : ∀ m r, ((h.setPending k none).note
          (.resolved p.serial .client (payload.getD 2 0) .reply)).pending m = some r →
          h.pending m = some r := by
        intro m r hm
        by_cases hmk : m = k
        · subst hmk
          simp [Host.note, Host.setPending] at hm
        · simpa [Host.note, Host.setPending, Function.update_of_ne hmk] using hm
      refine ⟨?_, fun m r hm => hi.cut m r (hless m r hm), fun m r hm => hi.client m r (hless m r hm)⟩
      intro m o r q hm ho
      exact hi.distinct m o r q (hless m r hm) (hless o q ho)
  · rw [hk] at hnone
    exact absurd hnone (Option.some_ne_none k)

/-! ## Every run -/

theorem raw_ids (hi : Ids h) (opcode : UInt16) (payload : List UInt8) (a : LinkAct) :
    Ids (demuxSendRaw (linkAct env a) h opcode payload) := by
  have hi' : Ids { h with tx_seq := h.tx_seq + 1 } := ⟨hi.1, hi.2, hi.3⟩
  unfold demuxSendRaw sendFrameAddr
  by_cases hup : h.ep_state = .up ∧ a.takesFrame = true
  · obtain ⟨h', hsent, -, -, -, hpending⟩ := linkAct_up env hi' hup.1 hup.2
      { addr := DONGLE_ADDR, cmd := opcode, seq := h.tx_seq, payload }
    rw [hsent]
    have hless : ∀ k p, h'.pending k = some p → h.pending k = some p := by
      intro k p hp
      rcases hpending with ⟨-, hsame⟩ | hnone
      · rwa [hsame] at hp
      · rw [hnone k] at hp
        exact absurd hp (Option.some_ne_none p).symm
    refine ⟨?_, fun k p hp => hi.cut k p (hless k p hp), fun k p hp => hi.client k p (hless k p hp)⟩
    intro k l p q hk hl
    exact hi.distinct k l p q (hless k p hk) (hless l q hl)
  · rw [linkAct_no (h := { h with tx_seq := h.tx_seq + 1 }) hup]
    exact hi'

theorem demuxStep_ids (hi : Ids h) {op : DemuxOp} (hok : IdsFree h op)
    (hstep : demuxStep env h op = some h') : Ids h' := by
  cases op with
  | send r a =>
    cases hstep
    exact send_ids hi hok
  | raw opcode payload a =>
    cases hstep
    exact raw_ids hi opcode payload a
  | reply n payload =>
    unfold demuxStep at hstep
    dsimp only at hstep
    split at hstep
    · rename_i hrid
      cases hstep
      exact (reply_answers hi hrid hok).2
    · cases hstep
  | timeout k =>
    cases hstep
    exact hi.fewer (resolve_fewer env hi k _ _ Cause.noConfusion).1
  | linkDown resends =>
    cases hstep
    have hi' : Ids { h with ep_state := .down } := ⟨hi.1, hi.2, hi.3⟩
    exact hi'.fewer (dropAll_fewer env hi' resends).1
  | linkUp =>
    cases hstep
    exact ⟨hi.1, hi.2, hi.3⟩
  | tick ms =>
    cases hstep
    exact ⟨hi.1, hi.2, hi.3⟩

theorem create_ids : Ids .create :=
  ⟨fun _ _ _ _ hp => absurd hp (Option.some_ne_none _).symm,
    fun _ _ hp => absurd hp (Option.some_ne_none _).symm,
    fun _ _ hp => absurd hp (Option.some_ne_none _).symm⟩

theorem ids_law (hi : Ids h) {op : DemuxOp} (hok : IdsFree h op) : DemuxLaw env h op := by
  refine ⟨hi.distinct, ?_⟩
  cases op with
  | send r a => exact send_tells_truth hi hok
  | reply n payload =>
    intro h' hstep
    unfold demuxStep at hstep
    dsimp only at hstep
    split at hstep
    · rename_i hrid
      cases hstep
      exact (reply_answers hi hrid hok).1
    · cases hstep
  | _ => trivial

/-- In every run in which no id is used twice at one time and none is the error
value, pending requests have different ids, each send tells the truth, and a
reply resolves the request it answers or none. -/
theorem requests_are_told_apart (ops : List DemuxOp)
    (hops : Meets (demuxStep env) IdsFree .create ops) :
    Meets (demuxStep env) (DemuxLaw env) .create ops ∧
      ∀ h, runs (demuxStep env) .create ops = some h → DistinctIds h :=
  ⟨meets_of_inv (I := Ids) (fun _ _ _ hi hok hstep => demuxStep_ids hi hok hstep)
      (fun _ _ hi hok => ids_law hi hok) create_ids hops,
    fun _ hrun => (inv_runs (I := Ids) (fun _ _ _ hi hok hstep => demuxStep_ids hi hok hstep)
      create_ids hops hrun).distinct⟩

/-! ## The error value as an id -/

/-- A command without arguments to the dongle. -/
def ping : Request where
  kind := .shell
  dest_addr := 0
  command_id := 7
  args := []
  len_lt := by decide

/-- The demux after some requests that the link has refused. -/
def refusedState (n : Nat) (t : UInt8) : Host :=
  { Host.create with ep_state := .up, next_id := n, tx_seq := t }

theorem refused_runs (env : Env) (m n : Nat) (t : UInt8) :
    ∃ u, runs (demuxStep env) (refusedState n t) (List.replicate m (.send ping .refuses)) =
      some (refusedState (n + m) u) := by
  induction m generalizing n t with
  | zero => exact ⟨t, rfl⟩
  | succ m ih =>
    obtain ⟨u, hu⟩ := ih (n + 1) (t + 1)
    refine ⟨u, ?_⟩
    have hstep : demuxStep env (refusedState n t) (.send ping .refuses) =
        some (refusedState (n + 1) (t + 1)) := rfl
    rw [List.replicate_succ, runs_cons, hstep, Option.bind_some, hu, Nat.add_right_comm,
      Nat.add_assoc]

/-- The request with the id 0xFFFF is sent and registered, and its caller is
told that it was not. -/
theorem the_request_0xFFFF_is_reported_as_not_sent :
    ¬ ∀ (env : Env) (ops : List DemuxOp), Meets (demuxStep env) (DemuxLaw env) .create ops := by
  intro hall
  -- The number of the refused requests stays a variable, so that no step is computed.
  obtain ⟨m, hm⟩ : ∃ m : Nat, 1 + m = 65535 := ⟨65534, rfl⟩
  obtain ⟨u, hu⟩ := refused_runs silentEnv m 1 0
  rw [hm] at hu
  have hmeets := hall silentEnv
    ((.linkUp :: List.replicate m (.send ping .refuses)) ++ [.send ping .takes])
  have hlast := hmeets.append_right (t := refusedState 65535 u) (by rw [runs_cons]; exact hu)
  have htold : TellsTruth (refusedState 65535 u)
      (ping.send (linkAct silentEnv .takes) (refusedState 65535 u)) := hlast.1.2
  have hsame := (htold.mp rfl).1
  exact List.cons_ne_nil _ _ hsame

/-- Two requests, the second one answered first. -/
def pingRun : List DemuxOp :=
  [.linkUp, .send ping .takes, .send ping .takes, .reply 2 [2, 0, 0], .reply 1 [1, 0, 0]]

instance (r : Request) (a : LinkAct) (h : Host) : Decidable (r.goesOut a h) :=
  inferInstanceAs (Decidable (_ ∧ _ ∧ _ ∧ _))

instance (h : Host) (a : LinkAct) : Decidable (FreshId h a) :=
  inferInstanceAs (Decidable (_ ∧ (_ → _)))

instance IdsFree.decidable (h : Host) : ∀ op, Decidable (IdsFree h op)
  | .send r a => inferInstanceAs (Decidable (r.goesOut a h → FreshId h a))
  | .reply n _ => inferInstanceAs (Decidable (_ ∨ h.pendingFind (UInt16.ofNat n) = none))
  | .raw .. => isTrue trivial
  | .timeout _ => isTrue trivial
  | .linkDown _ => isTrue trivial
  | .linkUp => isTrue trivial
  | .tick _ => isTrue trivial

theorem pings_are_told_apart :
    Meets (demuxStep silentEnv) (DemuxLaw silentEnv) .create pingRun ∧
      ∀ h, runs (demuxStep silentEnv) .create pingRun = some h → DistinctIds h :=
  requests_are_told_apart pingRun (by decide)

end motioncore.host
