-- Every run of the host keeps the order of the commands, when it has no reset
-- and no send takes the link down before it returns. A send that does can lose
-- a command, as the last section shows.
import MotionCore.Host.CommandOrder
import MotionCore.Host.Leaves

open motioncore.ring motioncore.machine motioncore.trace

namespace motioncore.host

/-! ## Sends that do not drop the link -/

/-- A send that only counts, and logs what the link took. -/
structure Plain (send : Send) : Prop where
  slots : ∀ h f, (send h f).1.slots = h.slots
  next_handle : ∀ h f, (send h f).1.next_handle = h.next_handle
  log : ∀ h f, ∃ new : List Ev, (send h f).1.log = h.log ++ new ∧ ∀ e ∈ new, ∃ g, e = .queued g

/-- What a request changes, when its send is plain. -/
structure RequestSpec (h h' : Host) (cb : ReplyCb) (handle : Nat) : Prop where
  slots : h'.slots = h.slots
  next_handle : h'.next_handle = h.next_handle
  log : ∃ new : List Ev, h'.log = h.log ++ new ∧
    ∀ e ∈ new, (∃ g, e = .queued g) ∨ ∃ s f, e = .request s cb handle f

theorem RequestSpec.refl (h : Host) (cb : ReplyCb) (handle : Nat) : RequestSpec h h cb handle :=
  ⟨rfl, rfl, [], by simp, by simp⟩

variable {h : Host}

theorem RequestSpec.register {h' : Host} {cb : ReplyCb} {handle : Nat}
    (hspec : RequestSpec h h' cb handle) (k : Fin PENDING_MAX) (p : Pending) (serial : Nat)
    (f : LinkFrame) :
    RequestSpec h ((h'.setPending k (some p)).note (.request serial cb handle f)) cb handle := by
  obtain ⟨hslots, hnext, new, hlog, hnew⟩ := hspec
  refine ⟨hslots, hnext, new ++ [.request serial cb handle f], ?_, ?_⟩
  · rw [← List.append_assoc, ← hlog]
    rfl
  · intro e he
    rcases List.mem_append.mp he with he | he
    · exact hnew e he
    · exact Or.inr ⟨serial, f, List.mem_singleton.mp he⟩

variable {env : Env} {send : Send}

theorem sendFrameAddr_spec (hs : Plain send) (h : Host) (addr : UInt8) (opcode : UInt16)
    (payload : List UInt8) (cb : ReplyCb) (handle : Nat) :
    RequestSpec h (sendFrameAddr send h addr opcode payload).1 cb handle := by
  unfold sendFrameAddr
  obtain ⟨new, hlog, hnew⟩ := hs.log { h with tx_seq := h.tx_seq + 1 }
    { addr, cmd := opcode, seq := h.tx_seq, payload }
  exact ⟨hs.slots _ _, hs.next_handle _ _, new, hlog, fun e he => Or.inl (hnew e he)⟩

theorem demuxRequest_spec (hs : Plain send) (h : Host) (hdr args_len : Nat) (addr : UInt8)
    (opcode : UInt16) (body : UInt16 → List UInt8) (cb : ReplyCb) (handle : Nat) :
    RequestSpec h (demuxRequest send h hdr args_len addr opcode body cb handle).1 cb handle := by
  unfold demuxRequest
  split
  · exact RequestSpec.refl h cb handle
  split
  · exact RequestSpec.refl h cb handle
  rename_i k hk
  obtain ⟨hslots, hnext, hlog⟩ := sendFrameAddr_spec hs { h with next_id := h.next_id + 1 } addr
    opcode (body (UInt16.ofNat h.next_id)) cb handle
  have hsent : RequestSpec h (sendFrameAddr send { h with next_id := h.next_id + 1 } addr opcode
    (body (UInt16.ofNat h.next_id))).1 cb handle := ⟨hslots, hnext, hlog⟩
  dsimp only
  split
  · exact hsent.register k _ _ _
  · exact hsent

theorem demuxRequest_ordered (hs : Plain send) (ho : Ordered h) (hdr args_len : Nat) (addr : UInt8)
    (opcode : UInt16) (body : UInt16 → List UInt8) (cb : ReplyCb) (hcb : ∀ i, cb ≠ .slot i) :
    Ordered (demuxRequest send h hdr args_len addr opcode body cb 0).1 := by
  have hspec := demuxRequest_spec hs h hdr args_len addr opcode body cb 0
  obtain ⟨new, hlog, hnew⟩ := hspec.log
  unfold Ordered
  rw [hspec.slots, hspec.next_handle, hlog]
  refine OrderedOn.quiet ho ?_ (fun _ => rfl) ho.busy (fun _ h => h)
  intro e he
  rcases hnew e he with ⟨g, rfl⟩ | ⟨s, f, rfl⟩
  · trivial
  · exact hcb

def Slot.afterSend (s : Slot) (ok : Bool) (t : Nat) (rid : UInt16) : Slot :=
  if ok then { s with sent_ms := t, inflight_rid := rid, state := .sent, ack_ms := 0 }
  else { s with sent_ms := t }

theorem sendInflight_spec (hs : Plain send) (h : Host) (i : Fin SLOT_MAX) : ∃ t rid new,
      (sendInflight send h i).1.slots =
        Function.update h.slots i ((h.slots i).afterSend (sendInflight send h i).2 t rid) ∧
      (sendInflight send h i).1.next_handle = h.next_handle ∧
      (sendInflight send h i).1.log = h.log ++ new ∧
      ∀ e ∈ new, Carries i (h.slots i).inflight.handle e := by
  have hspec := demuxRequest_spec hs h BUS_EXEC_HDR (h.slots i).inflight.args.length
    (h.slots i).addr OP_BUS_EXEC (busExecBody (h.slots i).inflight.command_id
      (wireTimeout (h.slots i).inflight.exec_timeout_ms) (h.slots i).inflight.args) (.slot i)
      (h.slots i).inflight.handle
  unfold sendInflight demuxSendBusExec
  dsimp only
  generalize demuxRequest send h BUS_EXEC_HDR _ _ _ _ _ _ = r at hspec ⊢
  obtain ⟨hslots, hnext, new, hlog, hnew⟩ := hspec
  have hcarry : ∀ e ∈ new, Carries i (h.slots i).inflight.handle e := by
    intro e he
    rcases hnew e he with ⟨g, rfl⟩ | ⟨s, f, rfl⟩
    · trivial
    · exact fun j hj => ⟨(ReplyCb.slot.inj hj).symm, rfl⟩
  refine ⟨r.1.now, r.2, new, ?_⟩
  split
  · refine ⟨?_, hnext, hlog, hcarry⟩
    simp [Host.modSlot, Host.setSlot, hslots, Slot.afterSend]
  · refine ⟨?_, hnext, hlog, hcarry⟩
    simp [Host.modSlot, Host.setSlot, hslots, Slot.afterSend]

variable (s : Slot) (ok : Bool) (t : Nat) (rid : UInt16)

@[simp] theorem afterSend_held : (s.afterSend ok t rid).held = s.held := by
  unfold Slot.afterSend
  split <;> rfl

@[simp] theorem afterSend_in_use : (s.afterSend ok t rid).in_use = s.in_use := by
  unfold Slot.afterSend
  split <;> rfl

@[simp] theorem afterSend_has_inflight : (s.afterSend ok t rid).has_inflight = s.has_inflight := by
  unfold Slot.afterSend
  split <;> rfl

theorem afterSend_busy {s : Slot} {o : Bool} {t : Nat} {r : UInt16}
    (h : o = true ∨ s.state ≠ .idle) : (s.afterSend o t r).state ≠ .idle := by
  unfold Slot.afterSend
  split
  · exact SlotState.noConfusion
  · rename_i hok
    exact h.resolve_left hok

/-- The first command of the queue is the one whose turn it is, when none is in flight. -/
theorem held_of_idle {s : Slot} (hin : s.has_inflight = false) (hq : s.q.count ≠ 0) :
    s.held = s.q.front.handle :: s.q.pop.contents.map (·.handle) := by
  unfold Slot.held
  rw [hin, Ring.contents_eq_cons hq]
  rfl

theorem resend_ordered (hs : Plain send) (ho : Ordered h) (i : Fin SLOT_MAX)
    (hin : (h.slots i).has_inflight = true) : Ordered (sendInflight send h i).1 := by
  obtain ⟨t, rid, new, hslots, hnext, hlog, hnew⟩ := sendInflight_spec hs h i
  have hbusy := afterSend_busy (o := (sendInflight send h i).2) (t := t) (r := rid)
    (Or.inr ((ho.busy i).mp hin))
  unfold Ordered
  rw [hslots, hnext, hlog]
  refine OrderedOn.transmit ho ?_ hnew (by simp) (by simp [hbusy, hin]) (by simp)
  intro _
  refine ⟨(h.slots i).q.contents.map (·.handle), ?_⟩
  rw [Slot.held, hin]
  rfl

/-- What `pump_slot` may change. Its slot holds the same commands, and what is
transmitted is the first of them. -/
theorem pumpSlot_spec (hs : Plain send) (h : Host) (i : Fin SLOT_MAX)
    (hbusy : (h.slots i).has_inflight = true ↔ (h.slots i).state ≠ .idle) :
    ∃ s new x, (pumpSlot send h i).slots = Function.update h.slots i s ∧
      (pumpSlot send h i).next_handle = h.next_handle ∧
      (pumpSlot send h i).log = h.log ++ new ∧ (∀ e ∈ new, Carries i x e) ∧
      ((∃ s f, .request s (.slot i) x f ∈ new) → ∃ rest, (h.slots i).held = x :: rest) ∧
      s.held = (h.slots i).held ∧ (s.has_inflight = true ↔ s.state ≠ .idle) ∧
      s.in_use = (h.slots i).in_use := by
  have hsame : ∃ s new x, h.slots = Function.update h.slots i s ∧
      h.next_handle = h.next_handle ∧ h.log = h.log ++ new ∧ (∀ e ∈ new, Carries i x e) ∧
      ((∃ s f, .request s (.slot i) x f ∈ new) → ∃ rest, (h.slots i).held = x :: rest) ∧
      s.held = (h.slots i).held ∧ (s.has_inflight = true ↔ s.state ≠ .idle) ∧
      s.in_use = (h.slots i).in_use :=
    ⟨h.slots i, [], 0, by simp, rfl, by simp, by simp, by simp, rfl, hbusy, rfl⟩
  unfold pumpSlot
  dsimp only
  split
  · exact hsame
  split
  · exact hsame
  rename_i hidle
  obtain ⟨hst, hq⟩ := not_or.mp hidle
  have hst : (h.slots i).state = .idle := not_not.mp hst
  have hin : (h.slots i).has_inflight = false := by
    cases hi : (h.slots i).has_inflight
    · rfl
    · exact absurd hst (hbusy.mp hi)
  have hheld := held_of_idle hin hq
  obtain ⟨t, rid, new, hslots, hnext, hlog, hnew⟩ := sendInflight_spec hs (h.setSlot i
    { h.slots i with inflight := (h.slots i).q.front, has_inflight := true, retries := 0 }) i
  generalize sendInflight send (h.setSlot i _) i = r at hslots hnext hlog ⊢
  obtain ⟨h', ok⟩ := r
  simp only [Host.setSlot, Function.update_self, Function.update_idem] at hslots hnext hlog hnew
  -- The command leaves the queue only when the send went well, and moves nowhere else.
  unfold Host.modSlot Host.setSlot
  cases ok with
  | true =>
    simp only [if_true, hslots, hnext, hlog, Function.update_self, Function.update_idem]
    refine ⟨_, new, _, rfl, trivial, rfl, hnew, fun _ => ⟨_, hheld⟩, ?_, ?_, rfl⟩
    · rw [hheld]
      rfl
    · simp [Slot.afterSend]
  | false =>
    simp only [Bool.false_eq_true, if_false, hslots, hnext, hlog, Function.update_self,
      Function.update_idem]
    refine ⟨_, new, _, rfl, trivial, rfl, hnew, fun _ => ⟨_, hheld⟩, ?_, ?_, rfl⟩
    · simp [Slot.held, hin, Slot.afterSend]
    · simp [Slot.afterSend, hst]

theorem pumpSlot_ordered (hs : Plain send) (ho : Ordered h) (i : Fin SLOT_MAX) :
    Ordered (pumpSlot send h i) := by
  obtain ⟨s, new, x, hslots, hnext, hlog, hnew, hturn, hheld, hbusy, huse⟩ :=
    pumpSlot_spec hs h i (ho.busy i)
  unfold Ordered
  rw [hslots, hnext, hlog]
  exact OrderedOn.transmit ho hturn hnew hheld hbusy (by rw [huse]; exact id)

/-! ## Submits and completions -/

theorem slotFor_in_use {addr : UInt8} {i : Fin SLOT_MAX} (hi : h.slotFor addr = some i) :
    (h.slots i).in_use = true := by
  unfold Host.slotFor at hi
  have := List.find?_some hi
  simp only [Bool.and_eq_true] at this
  exact this.1

theorem submit_ordered (hs : Plain send) (ho : Ordered h) (c : Submit) :
    Ordered (cmdTrackerSubmit send h c).1 := by
  unfold cmdTrackerSubmit
  split
  · exact ho
  split
  · exact ho
  rename_i i hi
  split
  · exact ho
  rename_i hroom
  have hlt : (h.slots i).q.count < CMD_QUEUE_DEPTH := by
    simpa [Ring.isFull] using hroom
  apply pumpSlot_ordered hs
  refine OrderedOn.accept ho ?_ ?_ ?_
  · exact slotFor_in_use hi
  · unfold Slot.held
    dsimp only
    rw [Ring.contents_push _ hlt]
    simp
  · exact ho.busy i

theorem submitAll_ordered (hs : Plain send) (ho : Ordered h) (cs : List Submit) :
    Ordered (submitAll send h cs) := by
  unfold submitAll
  induction cs generalizing h with
  | nil => exact ho
  | cons c cs ih => exact ih (submit_ordered hs ho c)

theorem evqPush_eq (h : Host) (e : CtrlEvent) : ∃ q, h.evqPush e = { h with evq := q } := by
  unfold Host.evqPush
  split
  · exact ⟨h.evq, rfl⟩
  · exact ⟨_, rfl⟩

theorem evqPush_ordered (ho : Ordered h) (e : CtrlEvent) : Ordered (h.evqPush e) := by
  obtain ⟨q, hq⟩ := evqPush_eq h e
  rw [hq]
  exact ho

theorem runDone_ordered (hs : Plain send) (ho : Ordered h) (cb : DoneCb) (handle : Nat)
    (addr status : UInt8) (result : List UInt8) :
    Ordered (runDone env send h cb handle addr status result) := by
  unfold runDone
  cases cb with
  | null => exact ho
  | event => exact evqPush_ordered ho _
  | client =>
    have hc : Ordered { h with calls := h.calls + 1 } := ho
    exact submitAll_ordered hs hc _

theorem completeInflight_ordered (hs : Plain send) (ho : Ordered h) (i : Fin SLOT_MAX)
    (status : UInt8) (result : List UInt8) (cause : Cause) :
    Ordered (completeInflight env send h i status result cause) := by
  unfold completeInflight
  dsimp only
  split
  · rename_i hin
    apply runDone_ordered hs
    refine OrderedOn.finish ho ?_ ?_ ?_ status cause h.clock
    · simp [Slot.held, hin]
    · simp
    · rfl
  · exact ho

theorem onTrackerReply_ordered (hs : Plain send) (ho : Ordered h) (i : Fin SLOT_MAX) (rid : UInt16)
    (status : UInt8) (result : List UInt8) (cause : Cause) :
    Ordered (onTrackerReply env send h i rid status result cause) := by
  unfold onTrackerReply
  dsimp only
  split
  · exact ho
  · exact pumpSlot_ordered hs (completeInflight_ordered hs ho i status result cause) i

/-! ## The events of the bus, and the timers -/

theorem onAck_ordered (ho : Ordered h) (addr : UInt8) (req_id : UInt16) :
    Ordered (cmdTrackerOnAck h addr req_id) := by
  unfold cmdTrackerOnAck
  split
  · exact ho
  rename_i i hi
  dsimp only
  split
  · exact ho
  · rename_i hst
    have hsent := not_not.mp (not_or.mp hst).1
    apply Ordered.note
    · refine Ordered.setSlot ho rfl ?_ id
      simp [ho.busy i, hsent]
    · trivial

theorem retry_ordered (hs : Plain send) (ho : Ordered h) (i : Fin SLOT_MAX)
    (hst : (h.slots i).state = .sent) (n : Nat) :
    Ordered (sendInflight send (h.setSlot i { h.slots i with retries := n }) i).1 := by
  apply resend_ordered hs
  · exact ho.setSlot rfl (ho.busy i) id
  · simp [Host.setSlot, ho.busy i, hst]

theorem onNak_ordered (hs : Plain send) (ho : Ordered h) (addr : UInt8) (req_id : UInt16) :
    Ordered (cmdTrackerOnNak env send h addr req_id) := by
  unfold cmdTrackerOnNak
  split
  · exact ho
  rename_i i hi
  dsimp only
  split
  · exact ho
  rename_i hst
  split
  · exact retry_ordered hs ho i (not_not.mp (not_or.mp hst).1) _
  · exact pumpSlot_ordered hs (completeInflight_ordered hs ho i _ _ _) i

theorem onFlagged_ordered (hs : Plain send) (ho : Ordered h) (addr flags : UInt8) :
    Ordered (cmdTrackerOnFlagged send h addr flags) := by
  unfold cmdTrackerOnFlagged
  split
  · exact ho
  rename_i i hi
  have hset : Ordered (h.setSlot i { h.slots i with
      il_known := true, il_flags := flags, faulted := flags &&& 1 != 0 }) :=
    ho.setSlot rfl (ho.busy i) id
  dsimp only
  split
  · exact pumpSlot_ordered hs hset i
  · exact hset

theorem onInterlockMsg_ordered (ho : Ordered h) (addr : UInt8) (msg : List UInt8) :
    Ordered (cmdTrackerOnInterlockMsg h addr msg) := by
  unfold cmdTrackerOnInterlockMsg
  split
  · exact ho
  · rename_i i hi
    exact ho.setSlot rfl (ho.busy i) id

theorem pollSlot_ordered (hs : Plain send) (ho : Ordered h) (i : Fin SLOT_MAX) :
    Ordered (pollSlot env send h i) := by
  unfold pollSlot
  dsimp only
  split
  · exact ho
  split
  · rename_i hsent
    split
    · exact retry_ordered hs ho i hsent.1 _
    · exact pumpSlot_ordered hs (completeInflight_ordered hs ho i _ _ _) i
  split
  · split
    · exact pumpSlot_ordered hs (completeInflight_ordered hs ho i _ _ _) i
    · exact ho
  split
  · exact pumpSlot_ordered hs ho i
  · exact ho

theorem trackerPoll_ordered (hs : Plain send) (ho : Ordered h) :
    Ordered (cmdTrackerPoll env send h) := by
  have hnow : Ordered { h with now := h.clock } := ho
  refine foldl_keeps ?_ hnow _
  exact fun h i ho => pollSlot_ordered hs ho i

theorem addSlave_ordered (ho : Ordered h) (addr : UInt8) : Ordered (cmdTrackerAddSlave h addr) := by
  unfold cmdTrackerAddSlave
  split
  · exact ho
  split
  · exact ho
  rename_i i hi
  have huse := List.find?_some hi
  have hnil := ho.unused i (by simpa using huse)
  apply Ordered.note
  · refine ho.setSlot ?_ ?_ (fun h => absurd h Bool.noConfusion)
    · rw [hnil]
      rfl
    · simp [Slot.cleared]
  · trivial

/-! ## The controller -/

theorem sendShell_ordered (hs : Plain send) (ho : Ordered h) (addr : UInt8) (command_id : UInt16)
    (args : List UInt8) (cb : ReplyCb) (hcb : ∀ i, cb ≠ .slot i) :
    Ordered (demuxSendShellTo send h addr command_id args cb).1 :=
  demuxRequest_ordered hs ho _ _ _ _ _ cb hcb

theorem prov_ne_slot (i : Fin SLOT_MAX) : ReplyCb.prov ≠ .slot i := ReplyCb.noConfusion

theorem sendRaw_ordered (hs : Plain send) (ho : Ordered h) (opcode : UInt16) (payload : List UInt8)
    : Ordered (demuxSendRaw send h opcode payload) := by
  obtain ⟨hslots, hnext, new, hlog, hnew⟩ := sendFrameAddr_spec hs h DONGLE_ADDR opcode payload
    .null 0
  unfold Ordered demuxSendRaw
  rw [hslots, hnext, hlog]
  refine OrderedOn.quiet ho ?_ (fun _ => rfl) ho.busy (fun _ h => h)
  intro e he
  rcases hnew e he with ⟨g, rfl⟩ | ⟨s, f, rfl⟩
  · trivial
  · exact fun i => ReplyCb.noConfusion

theorem resetSync_ordered (ho : Ordered h) : Ordered (resetSync h) := by
  unfold resetSync
  refine Ordered.note ?_ trivial
  exact ho

theorem provAfterSlaves_ordered (hs : Plain send) (ho : Ordered h) :
    Ordered (provAfterSlaves send h) := by
  unfold provAfterSlaves
  split
  · have hp : Ordered { h with prov := .setPoll } := ho
    exact sendShell_ordered hs hp _ _ _ _ prov_ne_slot
  · have hp : Ordered { h with prov := .list } := ho
    exact sendShell_ordered hs hp _ _ _ _ prov_ne_slot

theorem onProvReply_ordered (hs : Plain send) (ho : Ordered h) (status : UInt8)
    (result : List UInt8) : Ordered (onProvReply send h status result) := by
  unfold onProvReply
  split
  · exact ho
  split
  · split
    · have hp : Ordered { h with prov := .register, prov_idx := 0 } := ho
      exact sendShell_ordered hs hp _ _ _ _ prov_ne_slot
    · exact provAfterSlaves_ordered hs ho
  · have hp : Ordered { h with prov_idx := h.prov_idx + 1 } := ho
    dsimp only
    split
    · exact sendShell_ordered hs hp _ _ _ _ prov_ne_slot
    · exact provAfterSlaves_ordered hs hp
  · have hp : Ordered { h with prov := .list } := ho
    exact sendShell_ordered hs hp _ _ _ _ prov_ne_slot
  · exact ho
  · exact ho

theorem replyCb_ordered (hs : Plain send) (ho : Ordered h) (cb : ReplyCb) (rid : UInt16)
    (status : UInt8) (result : List UInt8) (cause : Cause) :
    Ordered (replyCb env send h cb rid status result cause) := by
  unfold replyCb
  cases cb with
  | slot i => exact onTrackerReply_ordered hs ho i rid status result cause
  | prov => exact onProvReply_ordered hs ho status result
  | ungated => exact evqPush_ordered ho _
  | client => exact ho
  | null => exact ho

theorem resolve_ordered (hs : Plain send) (ho : Ordered h) (k : Fin PENDING_MAX) (status : UInt8)
    (result : List UInt8) (cause : Cause) : Ordered (resolve env send h k status result cause) := by
  unfold resolve
  split
  · exact ho
  · apply replyCb_ordered hs
    have hp : Ordered (h.setPending k none) := ho
    exact hp.note trivial

theorem onShellReply_ordered (hs : Plain send) (ho : Ordered h) (payload : List UInt8) :
    Ordered (onShellReply env send h payload) := by
  unfold onShellReply
  split
  · exact ho
  split
  · exact ho
  · exact resolve_ordered hs ho _ _ _ _

theorem ordered_leaves (hs : Plain send) : Leaves env send (fun _ => True) Ordered where
  core := by
    intro h h' hc ho
    unfold Ordered
    rw [hc.slots, hc.next_handle, hc.log]
    exact ho
  raw _ _ _ ho := sendRaw_ordered hs ho _ _
  shell _ _ _ _ cb hcb ho := by
    apply sendShell_ordered hs ho
    rintro i rfl
    exact absurd hcb Bool.noConfusion
  quiet _ _ := trivial
  resetSync _ _ ho := resetSync_ordered ho
  linkDown _ _ ho := resolve_ordered hs ho _ _ _ _
  flagged _ _ _ ho := onFlagged_ordered hs ho _ _
  ack _ _ _ ho := onAck_ordered ho _ _
  nak _ _ _ ho := onNak_ordered hs ho _ _
  interlock _ _ _ ho := onInterlockMsg_ordered ho _ _

theorem demuxSweep_ordered (hs : Plain send) (ho : Ordered h) :
    Ordered (demuxSweep env send h) := by
  refine foldl_keeps ?_ ho _
  intro h k ho
  unfold sweepPending
  split
  · exact ho
  · exact ite_keeps (resolve_ordered hs ho _ _ _ _) ho

theorem provGate_ordered (hs : Plain send) (ho : Ordered h) : Ordered (provGate send h) := by
  have hclear : Ordered { h with prov := .clear, prov_idx := 0, bc_total := 0 } := ho
  unfold provGate
  split
  · split
    · exact ho
    · exact ite_keeps (sendShell_ordered hs hclear _ _ _ _ prov_ne_slot) ho
  · exact ho

/-! ## Every run -/

/-- No send takes the link down before it returns. -/
def Env.NeverDrops (env : Env) : Prop := ∀ n f, env.link_send n f ≠ .queuedThenDown

theorem linkClosed_plain : Plain linkClosed :=
  ⟨fun _ _ => rfl, fun _ _ => rfl, fun _ _ => ⟨[], (List.append_nil _).symm, by simp⟩⟩

theorem linkSend_plain (henv : env.NeverDrops) : Plain (linkSend env) := by
  have hcases : ∀ h f, (linkSend env h f).1.slots = h.slots ∧
      (linkSend env h f).1.next_handle = h.next_handle ∧
      ∃ new : List Ev, (linkSend env h f).1.log = h.log ++ new ∧ ∀ e ∈ new, ∃ g, e = .queued g := by
    intro h f
    unfold linkSend
    split
    · exact ⟨rfl, rfl, [], (List.append_nil _).symm, by simp⟩
    dsimp only
    split
    · exact ⟨rfl, rfl, [], (List.append_nil _).symm, by simp⟩
    · exact ⟨rfl, rfl, [.queued f], rfl, by simp⟩
    · rename_i hdrop
      exact absurd hdrop (henv h.sends f)
  exact ⟨fun h f => (hcases h f).1, fun h f => (hcases h f).2.1, fun h f => (hcases h f).2.2⟩

def Op.resets : Op → Bool
  | .attachRoster .. => true
  | _ => false

theorem step_ordered (henv : env.NeverDrops) {h' : Host} (ho : Ordered h) {op : Op}
    (hop : op.resets = false) (hstep : step env h op = some h') : Ordered h' := by
  have hs := linkSend_plain henv
  have hl : Leaves env (linkSend env) (fun _ => True) Ordered := ordered_leaves hs
  cases op with
  | frame f =>
    cases hstep
    exact hl.onLinkFrame ho f (onShellReply_ordered hs ho f.payload) fun _ => trivial
  | linkUp =>
    rcases step_cases hstep with ⟨-, rfl⟩ | rfl
    · exact hl.onLinkState (h := { h with ep_state := .up }) ho .up fun _ => trivial
    · exact ho
  | linkDown =>
    rcases step_cases hstep with ⟨-, rfl⟩ | rfl
    · have hclosed : Leaves env linkClosed (fun _ => True) Ordered := ordered_leaves linkClosed_plain
      exact hclosed.onLinkState (h := { h with ep_state := .down }) ho .down fun _ => trivial
    · exact ho
  | demuxSweep =>
    cases hstep
    exact demuxSweep_ordered hs ho
  | manifestDue =>
    cases hstep
    exact hl.manifestDue ho
  | provGate =>
    cases hstep
    exact provGate_ordered hs ho
  | trackerPoll =>
    cases hstep
    exact trackerPoll_ordered hs ho
  | reconcile =>
    cases hstep
    exact hl.reconcileInterlocks ho
  | submit c =>
    cases hstep
    exact submit_ordered hs ho c
  | sendShell dest_addr command_id args cb =>
    obtain ⟨hcb, rfl⟩ := step_cases hstep
    exact hl.shell h dest_addr command_id args cb hcb.1 ho
  | addSlave addr =>
    cases hstep
    exact addSlave_ordered ho addr
  | attachRoster => exact absurd hop Bool.noConfusion
  | drain =>
    cases hstep
    exact ho
  | tick ms =>
    cases hstep
    exact ho

theorem create_ordered : Ordered .create where
  account _ := rfl
  fresh := by simp [acceptedAll, Host.create]
  increasing := List.Pairwise.nil
  one_at_a_time := past_nil _
  busy _ := by simp [Host.create, Slot.cleared]
  unused _ _ := rfl

/-- In every run without a reset whose sends never take the link down before
they return, the tracker keeps each command in one place until it is done. -/
theorem every_command_is_tracked (henv : env.NeverDrops) (ops : List Op)
    (hops : ∀ op ∈ ops, op.resets = false) (h : Host)
    (hrun : runs (step env) .create ops = some h) : TracksEachCommand h := by
  have hmeets : Meets (step env) (fun _ op => op.resets = false) .create ops :=
    Meets.of_mem (fun op hop _ => hops op hop) _
  have ho := inv_runs (I := Ordered) (fun h op h' ho hop => step_ordered henv ho hop)
    create_ordered hmeets hrun
  exact ho.tracks

/-! ## A send that takes the link down -/

def command (addr : UInt8) (on_done : DoneCb) : Submit where
  addr := addr
  command_id := 7
  args := []
  exec_timeout_ms := 100
  on_done := on_done

/-- The second send takes the link down, and the callback of the first command
then submits a command to the slave of the second. -/
def dropEnv : Env where
  link_send := fun n _ => if n = 1 then .queuedThenDown else .queued
  on_done := fun _ => [command 1 .null]

def dropRun : List Op :=
  [.linkUp, .addSlave 1, .addSlave 2, .submit (command 2 .client), .submit (command 1 .client)]

/-- The second command is accepted, and is then in no place and never done. -/
theorem command_is_lost_in_a_dropped_send :
    ¬ ∀ (env : Env) (ops : List Op), (∀ op ∈ ops, op.resets = false) → ∀ h,
      runs (step env) .create ops = some h → TracksEachCommand h := by
  intro hall
  have hops : ∀ op ∈ dropRun, op.resets = false := by decide
  have hsome : (runs (step dropEnv) .create dropRun).isSome := by decide
  obtain ⟨h, hrun⟩ := Option.isSome_iff_exists.mp hsome
  have hacc : (runs (step dropEnv) .create dropRun).map
      (fun h => (decide (2 ∈ acceptedAll h.log), decide (2 ∈ doneAll h.log), (places h).count 2)) =
      some (true, false, 0) := by decide
  rw [hrun] at hacc
  simp only [Option.map_some, Option.some.injEq, Prod.mk.injEq, decide_eq_true_eq,
    decide_eq_false_iff_not] at hacc
  have hone := (hall dropEnv dropRun hops h hrun).one_place 2 hacc.1 hacc.2.1
  rw [hacc.2.2] at hone
  exact absurd hone (by decide)

/-- A link that takes every frame. -/
def calmEnv : Env where
  link_send := fun _ _ => .queued
  on_done := fun _ => [command 1 .null]

/-- The same calls, with a link that takes every frame and goes down later. -/
theorem command_is_tracked_on_a_calm_link :
    ∃ h, runs (step calmEnv) .create (dropRun ++ [.linkDown]) = some h ∧ TracksEachCommand h := by
  have hsome : (runs (step calmEnv) .create (dropRun ++ [.linkDown])).isSome := by decide
  obtain ⟨h, hrun⟩ := Option.isSome_iff_exists.mp hsome
  exact ⟨h, hrun, every_command_is_tracked (fun _ _ => SendResult.noConfusion) _ (by decide) h hrun⟩

end motioncore.host
