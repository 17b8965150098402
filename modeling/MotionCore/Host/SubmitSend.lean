-- A submit to the tracker, and what it gets on the wire. When its slot is idle
-- and the link takes the frame, the front of the queue goes out at once.
import MotionCore.Host.CommandRuns

open motioncore.ring motioncore.machine motioncore.trace

namespace motioncore.host

/-! ## A submit, and what it gets on the wire -/

/-- The submit is put into the queue of slot `i`. -/
structure AcceptsFor (h : Host) (i : Fin SLOT_MAX) (c : Submit) : Prop where
  args_fit : c.args.length ≤ CMD_ARG_MAX
  slot : h.slotFor c.addr = some i
  room : (h.slots i).q.isFull = false

instance (h : Host) (i : Fin SLOT_MAX) (c : Submit) : Decidable (AcceptsFor h i c) :=
  decidable_of_iff (c.args.length ≤ CMD_ARG_MAX ∧ h.slotFor c.addr = some i ∧
    (h.slots i).q.isFull = false) ⟨fun h => ⟨h.1, h.2.1, h.2.2⟩, fun h => ⟨h.1, h.2, h.3⟩⟩

def Submit.entry (c : Submit) (handle : Nat) : CmdEntry where
  handle := handle
  command_id := c.command_id
  args := c.args
  exec_timeout_ms := c.exec_timeout_ms
  on_done := c.on_done

/-- The state of an accepted submit before `pump_slot` looks at the slot. -/
def Host.enqueue (h : Host) (i : Fin SLOT_MAX) (c : Submit) : Host :=
  ({ h with next_handle := h.next_handle + 1 }.modSlot i fun s =>
    { s with q := s.q.push (c.entry h.next_handle) }).note (.accepted i h.next_handle)

def nextFrame (h : Host) (i : Fin SLOT_MAX) : LinkFrame :=
  let s := h.slots i
  { addr := s.addr
    cmd := OP_BUS_EXEC
    seq := h.tx_seq
    payload := busExecBody s.q.front.command_id (wireTimeout s.q.front.exec_timeout_ms)
      s.q.front.args (UInt16.ofNat h.next_id) }

/-- `pump_slot` gets that frame out to the link. -/
structure GetsOut (env : Env) (h : Host) (i : Fin SLOT_MAX) : Prop where
  trusted : (h.slots i).faulted = false
  idle : (h.slots i).state = .idle
  waiting : (h.slots i).q.count ≠ 0
  fits : BUS_EXEC_HDR + (h.slots i).q.front.args.length ≤ COMM_PAYLOAD_MAX
  free : h.pendingAlloc ≠ none
  up : h.ep_state = .up
  taken : env.link_send h.sends (nextFrame h i) ≠ .refused

def Transmits (env : Env) (i : Fin SLOT_MAX) (h : Host) (c : Submit) : Prop :=
  AcceptsFor h i c ∧ GetsOut env (h.enqueue i c) i

variable {env : Env} {send : Send}

theorem submit_cases (send : Send) (h : Host) (c : Submit) :
    ((∀ i, ¬ AcceptsFor h i c) ∧ (cmdTrackerSubmit send h c).1 = h) ∨
      ∃ i, AcceptsFor h i c ∧ (cmdTrackerSubmit send h c).1 = pumpSlot send (h.enqueue i c) i := by
  unfold cmdTrackerSubmit
  split
  · rename_i hlen
    exact Or.inl ⟨fun i ha => absurd ha.args_fit (Nat.not_le.mpr hlen), rfl⟩
  rename_i hlen
  split
  · rename_i hslot
    refine Or.inl ⟨fun i ha => ?_, rfl⟩
    rw [ha.slot] at hslot
    exact absurd hslot (Option.some_ne_none i)
  rename_i i hslot
  split
  · rename_i hfull
    refine Or.inl ⟨fun j ha => ?_, rfl⟩
    have hij : i = j := Option.some.inj (hslot.symm.trans ha.slot)
    rw [hij, ha.room] at hfull
    exact absurd hfull Bool.noConfusion
  · rename_i hfull
    exact Or.inr ⟨i, ⟨Nat.not_lt.mp hlen, hslot, Bool.eq_false_iff.mpr hfull⟩, rfl⟩

variable {h : Host} {i : Fin SLOT_MAX}

theorem AcceptsFor.unique {j : Fin SLOT_MAX} {c : Submit} (hi : AcceptsFor h i c)
    (hj : AcceptsFor h j c) : i = j := Option.some.inj (hi.slot.symm.trans hj.slot)

theorem AcceptsFor.lt {c : Submit} (ha : AcceptsFor h i c) :
    (h.slots i).q.count < CMD_QUEUE_DEPTH := by
  simpa [Ring.isFull] using ha.room

theorem AcceptsFor.in_use {c : Submit} (ha : AcceptsFor h i c) :
    (h.slots i).in_use = true := slotFor_in_use ha.slot

theorem enqueue_slots (h : Host) (i : Fin SLOT_MAX) (c : Submit) :
    (h.enqueue i c).slots = Function.update h.slots i
      { h.slots i with q := (h.slots i).q.push (c.entry h.next_handle) } := rfl

theorem enqueue_log (h : Host) (i : Fin SLOT_MAX) (c : Submit) :
    (h.enqueue i c).log = h.log ++ [.accepted i h.next_handle] := rfl

theorem pumpSlot_busy (hst : (h.slots i).state ≠ .idle) : pumpSlot send h i = h := by
  unfold pumpSlot
  simp [hst]

variable {f : LinkFrame}

theorem linkSend_takes (henv : env.NeverDrops) (hup : h.ep_state = .up)
    (htaken : env.link_send h.sends f ≠ .refused) :
    linkSend env h f = ({ h with sends := h.sends + 1 }.note (.queued f), true) := by
  unfold linkSend
  have hdrop := henv h.sends f
  rw [hup]
  dsimp only
  cases hr : env.link_send h.sends f with
  | refused => exact absurd hr htaken
  | queued => simp
  | queuedThenDown => exact absurd hr hdrop

variable (env) in
theorem linkSend_refuses {h : Host} {f : LinkFrame}
    (hno : h.ep_state = .up → env.link_send h.sends f = .refused) :
    ∃ n, linkSend env h f = ({ h with sends := n }, false) := by
  unfold linkSend
  split
  · exact ⟨h.sends, rfl⟩
  · rename_i hdown
    have hup : h.ep_state = .up := by
      cases hst : h.ep_state with
      | down => exact absurd hst hdown
      | up => rfl
    exact ⟨h.sends + 1, by simp [hno hup]⟩

/-- The request is sent: it fits, it gets an id and a place, and the link takes its frame. -/
structure RequestOut (env : Env) (h : Host) (len : Nat) (f : LinkFrame) : Prop where
  fits : len ≤ COMM_PAYLOAD_MAX
  free : h.pendingAlloc ≠ none
  up : h.ep_state = .up
  taken : env.link_send h.sends f ≠ .refused

theorem demuxRequest_out (henv : env.NeverDrops) {d args_len : Nat} {a : UInt8} {c : UInt16}
    {b : UInt16 → List UInt8} (cb : ReplyCb) (handle : Nat)
    (hf : f = { addr := a, cmd := c, seq := h.tx_seq, payload := b (UInt16.ofNat h.next_id) })
    (hout : RequestOut env h (d + args_len) f) :
    ∃ h', demuxRequest (linkSend env) h d args_len a c b cb handle =
        (h', UInt16.ofNat h.next_id) ∧ h'.slots = h.slots ∧ h'.next_handle = h.next_handle ∧
      h'.log = h.log ++ [.queued f, .request h.next_id cb handle f] := by
  obtain ⟨k, hk⟩ := Option.ne_none_iff_exists'.mp hout.free
  unfold demuxRequest sendFrameAddr
  rw [if_neg (Nat.not_lt.mpr hout.fits), hk]
  dsimp only
  rw [← hf, linkSend_takes henv (h := { h with next_id := h.next_id + 1, tx_seq := h.tx_seq + 1 })
    hout.up hout.taken, if_pos rfl]
  refine ⟨_, rfl, rfl, rfl, ?_⟩
  simp [Host.note, Host.setPending]

variable (env) in
theorem demuxRequest_in {h : Host} {d args_len : Nat} {a : UInt8}
    {c : UInt16} {b : UInt16 → List UInt8} {f : LinkFrame} (cb : ReplyCb) (handle : Nat)
    (hf : f = { addr := a, cmd := c, seq := h.tx_seq, payload := b (UInt16.ofNat h.next_id) })
    (hout : ¬ RequestOut env h (d + args_len) f) :
    ∃ h', demuxRequest (linkSend env) h d args_len a c b cb handle =
        (h', NO_REQUEST) ∧ h'.slots = h.slots ∧ h'.next_handle = h.next_handle ∧
      h'.log = h.log := by
  unfold demuxRequest sendFrameAddr
  split
  · exact ⟨h, rfl, rfl, rfl, rfl⟩
  rename_i hlen
  split
  · exact ⟨h, rfl, rfl, rfl, rfl⟩
  rename_i k hk
  dsimp only
  have hno : h.ep_state = .up → env.link_send h.sends f = .refused := by
    intro hup
    by_contra hne
    exact hout ⟨Nat.not_lt.mp hlen, by rw [hk]; exact Option.some_ne_none k, hup, hne⟩
  obtain ⟨n, hn⟩ := linkSend_refuses env
    (h := { h with next_id := h.next_id + 1, tx_seq := h.tx_seq + 1 }) hno
  rw [← hf, hn]
  exact ⟨_, rfl, rfl, rfl, rfl⟩

/-- The slot of a command that `pump_slot` tries to send. -/
def Slot.launching (s : Slot) : Slot :=
  { s with inflight := s.q.front, has_inflight := true, retries := 0 }

theorem RequestOut.setSlot {s : Slot} {len : Nat} :
    RequestOut env (h.setSlot i s) len f ↔ RequestOut env h len f :=
  ⟨fun r => ⟨r.fits, r.free, r.up, r.taken⟩, fun r => ⟨r.fits, r.free, r.up, r.taken⟩⟩

theorem launch_out (henv : env.NeverDrops)
    (hout : RequestOut env h (BUS_EXEC_HDR + (h.slots i).q.front.args.length) (nextFrame h i)) :
    ∃ s, (sendInflight (linkSend env) (h.setSlot i (h.slots i).launching) i).1.slots =
        Function.update h.slots i s ∧
      (sendInflight (linkSend env) (h.setSlot i (h.slots i).launching) i).1.log =
        h.log ++ [.queued (nextFrame h i),
          .request h.next_id (.slot i) (h.slots i).q.front.handle (nextFrame h i)] ∧
      (sendInflight (linkSend env) (h.setSlot i (h.slots i).launching) i).2 =
        decide (UInt16.ofNat h.next_id ≠ NO_REQUEST) ∧
      s.has_inflight = true ∧ s.inflight = (h.slots i).q.front := by
  obtain ⟨h', hsent, hslots, -, hlog⟩ := demuxRequest_out henv
    (h := h.setSlot i (h.slots i).launching) (d := BUS_EXEC_HDR) (a := (h.slots i).addr)
    (c := OP_BUS_EXEC) (b := busExecBody (h.slots i).q.front.command_id
      (wireTimeout (h.slots i).q.front.exec_timeout_ms) (h.slots i).q.front.args)
    (.slot i) (h.slots i).q.front.handle rfl (RequestOut.setSlot.mpr hout)
  simp only [Host.setSlot, Slot.launching] at hsent hslots hlog
  simp only [sendInflight, demuxSendBusExec, Host.setSlot, Slot.launching, Function.update_self,
    Host.modSlot]
  rw [hsent]
  dsimp only
  split
  · rename_i hno
    simp only [hslots, hlog, Function.update_self, Function.update_idem]
    refine ⟨_, rfl, rfl, ?_, rfl, rfl⟩
    simp [hno]
  · rename_i hid
    simp only [hslots, hlog, Function.update_self, Function.update_idem]
    refine ⟨_, rfl, rfl, ?_, rfl, rfl⟩
    simp [hid]

theorem launch_in
    (hout : ¬ RequestOut env h (BUS_EXEC_HDR + (h.slots i).q.front.args.length) (nextFrame h i)) :
    ∃ t, (sendInflight (linkSend env) (h.setSlot i (h.slots i).launching) i).1.slots =
        Function.update h.slots i { (h.slots i).launching with sent_ms := t } ∧
      (sendInflight (linkSend env) (h.setSlot i (h.slots i).launching) i).1.next_handle =
        h.next_handle ∧
      (sendInflight (linkSend env) (h.setSlot i (h.slots i).launching) i).1.log = h.log ∧
      (sendInflight (linkSend env) (h.setSlot i (h.slots i).launching) i).2 = false := by
  obtain ⟨h', hsent, hslots, hnext, hlog⟩ := demuxRequest_in env
    (h := h.setSlot i (h.slots i).launching) (d := BUS_EXEC_HDR) (a := (h.slots i).addr)
    (c := OP_BUS_EXEC) (b := busExecBody (h.slots i).q.front.command_id
      (wireTimeout (h.slots i).q.front.exec_timeout_ms) (h.slots i).q.front.args)
    (.slot i) (h.slots i).q.front.handle rfl (fun hr => hout (RequestOut.setSlot.mp hr))
  simp only [Host.setSlot, Slot.launching] at hsent hslots hnext hlog
  simp only [sendInflight, demuxSendBusExec, Host.setSlot, Slot.launching, Function.update_self,
    Host.modSlot]
  rw [hsent, if_pos rfl]
  simp only [hslots, hnext, hlog, Function.update_self, Function.update_idem]
  exact ⟨h'.now, rfl, trivial, trivial, trivial⟩

theorem getsOut_iff : GetsOut env h i ↔
    (h.slots i).faulted = false ∧ ((h.slots i).state = .idle ∧ (h.slots i).q.count ≠ 0) ∧
      RequestOut env h (BUS_EXEC_HDR + (h.slots i).q.front.args.length) (nextFrame h i) :=
  ⟨fun g => ⟨g.trusted, ⟨g.idle, g.waiting⟩, g.fits, g.free, g.up, g.taken⟩,
    fun g => ⟨g.1, g.2.1.1, g.2.1.2, g.2.2.1, g.2.2.2, g.2.2.3, g.2.2.4⟩⟩

theorem rests_of_idle {s : Slot} (hbusy : s.has_inflight = true ↔ s.state ≠ .idle)
    (hst : s.state = .idle) : s.has_inflight = false := by
  cases hi : s.has_inflight
  · rfl
  · exact absurd hst (hbusy.mp hi)

theorem pumpSlot_eq (hf : (h.slots i).faulted = false) (hst : (h.slots i).state = .idle)
    (hq : (h.slots i).q.count ≠ 0) : pumpSlot send h i =
      if (sendInflight send (h.setSlot i (h.slots i).launching) i).2 then
        (sendInflight send (h.setSlot i (h.slots i).launching) i).1.modSlot i
          fun s => { s with q := s.q.pop }
      else
        (sendInflight send (h.setSlot i (h.slots i).launching) i).1.modSlot i
          fun s => { s with has_inflight := false } := by
  unfold pumpSlot
  dsimp only
  rw [if_neg (Bool.eq_false_iff.mp hf), if_neg (by simp [hst, hq])]
  rfl

/-- When no frame gets out, the slot keeps its queue and its state. -/
theorem pumpSlot_holds (hout : ¬ GetsOut env h i)
    (hbusy : (h.slots i).has_inflight = true ↔ (h.slots i).state ≠ .idle) :
    ∃ s, (pumpSlot (linkSend env) h i).slots = Function.update h.slots i s ∧
      (pumpSlot (linkSend env) h i).next_handle = h.next_handle ∧
      (pumpSlot (linkSend env) h i).log = h.log ∧ s.q = (h.slots i).q ∧
      s.state = (h.slots i).state ∧ s.has_inflight = (h.slots i).has_inflight ∧
      s.in_use = (h.slots i).in_use := by
  by_cases hgo : (h.slots i).faulted = false ∧ (h.slots i).state = .idle ∧ (h.slots i).q.count ≠ 0
  · obtain ⟨hf, hst, hq⟩ := hgo
    have hreq : ¬ RequestOut env h (BUS_EXEC_HDR + (h.slots i).q.front.args.length)
        (nextFrame h i) := fun hr => hout (getsOut_iff.mpr ⟨hf, ⟨hst, hq⟩, hr⟩)
    obtain ⟨t, hslots, hnext, hlog, hfail⟩ := launch_in hreq
    rw [pumpSlot_eq hf hst hq, hfail, if_neg Bool.false_ne_true]
    simp only [Host.modSlot, Host.setSlot] at hslots hnext hlog ⊢
    simp only [hslots, hnext, hlog, Function.update_self, Function.update_idem]
    exact ⟨_, rfl, trivial, trivial, rfl, rfl, (rests_of_idle hbusy hst).symm, rfl⟩
  · have hsame : pumpSlot (linkSend env) h i = h := by
      unfold pumpSlot
      dsimp only
      split
      · rfl
      rename_i hf
      split
      · rfl
      rename_i hidle
      obtain ⟨hst, hq⟩ := not_or.mp hidle
      exact absurd ⟨Bool.eq_false_iff.mpr hf, not_not.mp hst, hq⟩ hgo
    rw [hsame]
    exact ⟨h.slots i, by simp⟩

/-- A frame that gets out is the one of the front of the queue. Its command is
in flight then, but for the one request id that stands for a failure. -/
theorem pumpSlot_sends (henv : env.NeverDrops) (hout : GetsOut env h i) :
    (pumpSlot (linkSend env) h i).log = h.log ++ [.queued (nextFrame h i),
        .request h.next_id (.slot i) (h.slots i).q.front.handle (nextFrame h i)] ∧
      (((pumpSlot (linkSend env) h i).slots i).has_inflight = true ↔
        UInt16.ofNat h.next_id ≠ NO_REQUEST) := by
  obtain ⟨hf, ⟨hst, hq⟩, hreq⟩ := getsOut_iff.mp hout
  obtain ⟨s, hslots, hlog, hsent, hin, -⟩ := launch_out henv hreq
  rw [pumpSlot_eq hf hst hq, hsent]
  by_cases hid : UInt16.ofNat h.next_id = NO_REQUEST
  · simp only [Host.modSlot, Host.setSlot] at hslots hlog ⊢
    simp [hslots, hlog, hid]
  · simp only [Host.modSlot, Host.setSlot] at hslots hlog ⊢
    simp [hslots, hlog, hid, hin]

end motioncore.host
