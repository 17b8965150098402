-- A reset that is not clean sends a command that is done, or loses one that it
-- has sent. So a reset keeps the law of the commands exactly when it is clean.
import MotionCore.Host.Reset

open motioncore.ring motioncore.machine motioncore.trace

namespace motioncore.host

variable {env : Env} {send : Send}

/-! ## A reset that is not clean breaks the law -/

variable {h : Host} {i : Fin SLOT_MAX}

/-- A callback of the queue that gets a command of its slot transmitted sends
the very command that it was called for, which is done. -/
theorem transmit_after_end (henv : env.NeverDrops) {c : Submit} (hd : Draining i h)
    (hc : Transmits env i h c) : ¬ Past OneAtATime (cmdTrackerSubmit (linkSend env) h c).1.log := by
  obtain ⟨ha, hout⟩ := hc
  rcases submit_cases (linkSend env) h c with ⟨hno, -⟩ | ⟨j, hj, hpump⟩
  · exact absurd ha (hno i)
  obtain rfl := hj.unique ha
  rw [hpump, (pumpSlot_sends henv hout).1]
  have hfront : ((h.enqueue j c).slots j).q.front = (h.slots j).q.front := by
    rw [enqueue_slots, Function.update_self]
    exact Ring.front_push _ hd.waiting
  rw [hfront]
  intro hpast
  have hundone : (h.slots j).q.front.handle ∉
      doneOf j (h.log ++ [.accepted j h.next_handle, .queued (nextFrame (h.enqueue j c) j)]) :=
    (hpast _ (.request (h.enqueue j c).next_id (.slot j) (h.slots j).q.front.handle
      (nextFrame (h.enqueue j c) j)) [] (by rw [enqueue_log]; simp)).1
  apply hundone
  rw [doneOf_append]
  exact List.mem_append_left _ hd.aborted

theorem submitAll_quiet (henv : env.NeverDrops) {cs : List Submit} (hd : Draining i h)
    (hpast : Past OneAtATime (submitAll (linkSend env) h cs).log) :
    EachSubmit (linkSend env) (fun h c => ¬ Transmits env i h c) h cs := by
  induction cs generalizing h with
  | nil => trivial
  | cons c cs ih =>
    have hquiet : ¬ Transmits env i h c := by
      intro hc
      apply transmit_after_end henv hd hc
      exact hpast.of_prefix (submitAll_later (linkSend_plain henv) _ cs).log
    exact ⟨hquiet, ih (submit_draining henv hd hquiet).1 hpast⟩

theorem runDone_quiet (henv : env.NeverDrops) (hd : Draining i h) {cb : DoneCb} {handle : Nat}
    {addr status : UInt8} {result : List UInt8}
    (hpast : Past OneAtATime (runDone env (linkSend env) h cb handle addr status result).log) :
    EachResubmit env (fun h c => ¬ Transmits env i h c) h cb := by
  rintro rfl
  have hcall : Draining i { h with calls := h.calls + 1 } :=
    ⟨hd.ordered, hd.waiting, hd.rests, hd.aborted⟩
  exact submitAll_quiet henv hcall hpast

variable {abort_status : UInt8} {fuel : Nat} {h' : Host}

/-- A drain that ends, and whose log keeps the law, was calm. -/
theorem drainQueue_quiet (henv : env.NeverDrops) (ho : Ordered h)
    (hrests : (h.slots i).has_inflight = false)
    (hdrain : drainQueue env (linkSend env) h i abort_status fuel = some h')
    (hpast : Past OneAtATime h'.log) : (∀ n, CalmDrain env i abort_status n h) ∧
      ∃ b, ∀ n, resubmits env i abort_status n h ≤ b := by
  have hempty : ∀ h : Host, (h.slots i).q.count = 0 → (∀ n, CalmDrain env i abort_status n h) ∧
      ∃ b, ∀ n, resubmits env i abort_status n h ≤ b := by
    intro h hq
    refine ⟨?_, 0, ?_⟩
    · rintro (_ | n)
      · trivial
      · exact fun hne => absurd hq hne
    · rintro (_ | n)
      · exact Nat.le_refl 0
      · simp [resubmits, hq]
  induction fuel generalizing h with
  | zero =>
    apply hempty
    by_contra hq
    simp [drainQueue, hq] at hdrain
  | succ fuel ih =>
    by_cases hq : (h.slots i).q.count = 0
    · exact hempty h hq
    rw [drainQueue_succ, if_neg hq] at hdrain
    have hround : Past OneAtATime (drainRound env (linkSend env) h i abort_status).log :=
      hpast.of_prefix (drainQueue_later (linkSend_plain henv) hdrain).log
    have hcb : EachResubmit env (fun h c => ¬ Transmits env i h c) (h.aborting i abort_status)
        (h.slots i).q.front.on_done :=
      runDone_quiet henv (aborting_draining ho hrests hq abort_status) hround
    obtain ⟨ho', hrests', -⟩ := drainRound_calm henv ho hrests hq hcb
    obtain ⟨hcalm, b, hb⟩ := ih ho' hrests' hdrain
    refine ⟨?_, resubmitted env i (h.aborting i abort_status) (h.slots i).q.front.on_done + b, ?_⟩
    · rintro (_ | n)
      · trivial
      · exact fun _ => ⟨hcb, hcalm n⟩
    · rintro (_ | n)
      · exact Nat.zero_le _
      · simp only [resubmits]
        rw [if_neg hq]
        exact Nat.add_le_add_left (hb n) _

/-- The command `z` is in flight in slot `i` when its queue is drained. The slot
is then cleared, and no one completes `z`. -/
structure Stuck (i : Fin SLOT_MAX) (z : Nat) (h : Host) : Prop where
  accepted : z ∈ acceptedAll h.log
  undone : z ∉ doneAll h.log
  old : z < h.next_handle
  elsewhere : ∀ j, j ≠ i → z ∉ (h.slots j).held
  unqueued : z ∉ (h.slots i).q.contents.map (·.handle)
  parked : (h.slots i).in_use = true → (h.slots i).state ≠ .idle
  cleared : (h.slots i).in_use = false → (h.slots i).has_inflight = false
  busy : ∀ j, (h.slots j).has_inflight = true ↔ (h.slots j).state ≠ .idle

variable {s : Slot} {z : Nat}

theorem not_mem_queue (h : z ∉ s.held) : z ∉ s.q.contents.map (·.handle) :=
  fun hz => h (List.mem_append_right _ hz)

theorem Stuck.not_queued (hz : Stuck i z h) (j : Fin SLOT_MAX) :
    z ∉ (h.slots j).q.contents.map (·.handle) := by
  by_cases hj : j = i
  · rw [hj]
    exact hz.unqueued
  · exact not_mem_queue (hz.elsewhere j hj)

theorem front_mem (hq : s.q.count ≠ 0) : s.q.front.handle ∈ s.q.contents.map (·.handle) := by
  rw [Ring.contents_eq_cons hq]
  exact List.mem_cons_self

variable {x : Nat}

theorem carries_doneAll {new : List Ev} (h : ∀ e ∈ new, Carries i x e) : doneAll new = [] := by
  apply List.filterMap_eq_nil_iff.mpr
  intro e he
  cases e with
  | done => exact absurd (h _ he) id
  | _ => rfl

theorem submit_stuck (hs : Plain send) (hz : Stuck i z h) (c : Submit) :
    Stuck i z (cmdTrackerSubmit send h c).1 := by
  rcases submit_cases send h c with ⟨-, hsame⟩ | ⟨j, ha, hpump⟩
  · rw [hsame]
    exact hz
  rw [hpump]
  have hslot : (h.enqueue j c).slots j =
      { h.slots j with q := (h.slots j).q.push (c.entry h.next_handle) } := by
    rw [enqueue_slots, Function.update_self]
  have hqueue : ((h.enqueue j c).slots j).q.contents.map (·.handle) =
      (h.slots j).q.contents.map (·.handle) ++ [h.next_handle] := by
    rw [hslot]
    dsimp only
    rw [Ring.contents_push _ ha.lt]
    simp [Submit.entry]
  have hne : z ≠ h.next_handle := Nat.ne_of_lt hz.old
  have hbusy : ((h.enqueue j c).slots j).has_inflight = true ↔
      ((h.enqueue j c).slots j).state ≠ .idle := by
    rw [hslot]
    exact hz.busy j
  by_cases hji : j = i
  · subst hji
    rw [pumpSlot_busy (by rw [hslot]; exact hz.parked ha.in_use)]
    refine ⟨?_, ?_, Nat.lt_succ_of_lt hz.old, ?_, ?_, ?_, ?_, ?_⟩
    · rw [enqueue_log, acceptedAll_append]
      exact List.mem_append_left _ hz.accepted
    · rw [enqueue_log]
      simpa [doneAll] using hz.undone
    · intro k hk
      rw [enqueue_slots, Function.update_of_ne hk]
      exact hz.elsewhere k hk
    · rw [hqueue]
      simp only [List.mem_append, List.mem_singleton, not_or]
      exact ⟨hz.unqueued, hne⟩
    · rw [hslot]
      exact hz.parked
    · rw [hslot]
      exact hz.cleared
    · rw [enqueue_slots]
      exact forall_update (P := fun _ s => s.has_inflight = true ↔ s.state ≠ .idle) (hz.busy j)
        fun k _ => hz.busy k
  · obtain ⟨s, new, x, hslots, hnext, hlog, hnew, -, hheld, hbusy', -⟩ :=
      pumpSlot_spec hs (h.enqueue j c) j hbusy
    rw [enqueue_slots, Function.update_idem] at hslots
    have hself : (pumpSlot send (h.enqueue j c) j).slots i = h.slots i := by
      rw [hslots, Function.update_of_ne (fun hij => hji hij.symm)]
    refine ⟨?_, ?_, ?_, ?_, ?_, ?_, ?_, ?_⟩
    · rw [hlog, enqueue_log, acceptedAll_append, acceptedAll_append]
      exact List.mem_append_left _ (List.mem_append_left _ hz.accepted)
    · rw [hlog, enqueue_log, doneAll_append, doneAll_append, carries_doneAll hnew]
      simpa [doneAll] using hz.undone
    · rw [hnext]
      exact Nat.lt_succ_of_lt hz.old
    · intro k hk
      rw [hslots]
      by_cases hkj : k = j
      · subst hkj
        have hold := hz.elsewhere k hk
        have hin : (h.enqueue k c).slots k = { h.slots k with
          q := (h.slots k).q.push (c.entry h.next_handle) } := hslot
        rw [Function.update_self, hheld]
        unfold Slot.held at hold ⊢
        rw [hqueue, hin]
        simp only [List.mem_append, List.mem_singleton, not_or] at hold ⊢
        exact ⟨hold.1, hold.2, hne⟩
      · rw [Function.update_of_ne hkj]
        exact hz.elsewhere k hk
    · rw [hself]
      exact hz.unqueued
    · rw [hself]
      exact hz.parked
    · rw [hself]
      exact hz.cleared
    · rw [hslots]
      exact forall_update (P := fun _ s => s.has_inflight = true ↔ s.state ≠ .idle) hbusy'
        fun k _ => hz.busy k

theorem submitAll_stuck (hs : Plain send) {cs : List Submit} (hz : Stuck i z h) :
    Stuck i z (submitAll send h cs) := by
  induction cs generalizing h with
  | nil => exact hz
  | cons c cs ih => exact ih (submit_stuck hs hz c)

variable (env) in
theorem runDone_stuck (hs : Plain send) {i : Fin SLOT_MAX} {z : Nat} {h : Host} (hz : Stuck i z h)
    (cb : DoneCb) (handle : Nat) (addr status : UInt8) (result : List UInt8) :
    Stuck i z (runDone env send h cb handle addr status result) := by
  unfold runDone
  cases cb with
  | null => exact hz
  | event =>
    dsimp only
    obtain ⟨q, hq⟩ := evqPush_eq h
      { kind := .cmdDone, addr, status, handle, aux := 0, data := result }
    rw [hq]
    exact ⟨hz.1, hz.2, hz.3, hz.4, hz.5, hz.6, hz.7, hz.8⟩
  | client =>
    have hcall : Stuck i z { h with calls := h.calls + 1 } :=
      ⟨hz.1, hz.2, hz.3, hz.4, hz.5, hz.6, hz.7, hz.8⟩
    exact submitAll_stuck hs hcall

variable {j : Fin SLOT_MAX}

theorem Stuck.note_done (hz : Stuck i z h) (hx : x ≠ z) (status : UInt8) (cause : Cause) (t : Nat) :
    Stuck i z (h.note (.done j x status cause t)) := by
  refine ⟨?_, ?_, hz.old, hz.elsewhere, hz.unqueued, hz.parked, hz.cleared, hz.busy⟩
  · unfold Host.note
    rw [acceptedAll_append]
    exact List.mem_append_left _ hz.accepted
  · unfold Host.note
    rw [doneAll_append]
    simp only [List.mem_append, not_or]
    exact ⟨hz.undone, by simp [doneAll, Ne.symm hx]⟩

theorem Stuck.modSlot (hz : Stuck i z h) (hheld : ∀ x ∈ s.held, x ∈ (h.slots j).held)
    (hq : ∀ x ∈ s.q.contents.map (·.handle), x ∈ (h.slots j).q.contents.map (·.handle))
    (hbusy : s.has_inflight = true ↔ s.state ≠ .idle)
    (hparked : j = i → (s.in_use = true → s.state ≠ .idle) ∧ (s.in_use = false →
      s.has_inflight = false)) : Stuck i z (h.setSlot j s) := by
  refine ⟨hz.accepted, hz.undone, hz.old, ?_, ?_, ?_, ?_, ?_⟩
  · refine forall_update (P := fun k s => k ≠ i → z ∉ s.held) ?_ fun k _ => hz.elsewhere k
    exact fun hj hmem => hz.elsewhere j hj (hheld z hmem)
  · refine forall_update (P := fun k s => z ∉ s.q.contents.map (·.handle)) ?_
      (fun k _ => hz.not_queued k) i
    exact fun hmem => hz.not_queued j (hq z hmem)
  · refine forall_update (P := fun k s => k = i → s.in_use = true → s.state ≠ .idle) ?_ ?_ i rfl
    · exact fun hj => (hparked hj).1
    · rintro k - rfl
      exact hz.parked
  · refine forall_update (P := fun k s => k = i → s.in_use = false → s.has_inflight = false) ?_ ?_
      i rfl
    · exact fun hj => (hparked hj).2
    · rintro k - rfl
      exact hz.cleared
  · exact forall_update (P := fun _ s => s.has_inflight = true ↔ s.state ≠ .idle) hbusy
      fun k _ => hz.busy k

theorem mem_queue_pop (hx : x ∈ s.q.pop.contents.map (·.handle)) :
    x ∈ s.q.contents.map (·.handle) := by
  rw [Ring.contents_pop] at hx
  obtain ⟨e, he, rfl⟩ := List.mem_map.mp hx
  exact List.mem_map_of_mem (List.mem_of_mem_tail he)

theorem drainRound_stuck (hs : Plain send) (hz : Stuck i z h) (hq : (h.slots j).q.count ≠ 0)
    (abort_status : UInt8) : Stuck i z (drainRound env send h j abort_status) := by
  have hfront : (h.slots j).q.front.handle ≠ z :=
    fun heq => hz.not_queued j (heq ▸ front_mem hq)
  have hrun := runDone_stuck env hs
    (hz.note_done (j := j) hfront abort_status .reset h.clock)
    (h.slots j).q.front.on_done (h.slots j).q.front.handle (h.slots j).addr abort_status []
  refine hrun.modSlot ?_ (fun x hx => mem_queue_pop hx) (hrun.busy j) ?_
  · intro x hx
    rcases List.mem_append.mp hx with hx | hx
    · exact List.mem_append_left _ hx
    · exact List.mem_append_right _ (mem_queue_pop hx)
  · rintro rfl
    exact ⟨hrun.parked, hrun.cleared⟩

theorem drainQueue_stuck (hs : Plain send) (hz : Stuck i z h)
    (hdrain : drainQueue env send h j abort_status fuel = some h') : Stuck i z h' := by
  induction fuel generalizing h with
  | zero =>
    simp only [drainQueue] at hdrain
    split at hdrain
    · cases hdrain
      exact hz
    · cases hdrain
  | succ fuel ih =>
    rw [drainQueue_succ] at hdrain
    split at hdrain
    · cases hdrain
      exact hz
    · rename_i hq
      exact ih (drainRound_stuck hs hz hq abort_status) hdrain

theorem clear_stuck (hs : Plain send) (hz : Stuck i z h)
    (hclear : (drainQueue env send h j abort_status fuel).map (fun h => (h.setSlot j .cleared).note
      (.cleared j)) = some h') : Stuck i z h' := by
  obtain ⟨h1, hdrain, rfl⟩ := Option.map_eq_some_iff.mp hclear
  have hz1 := drainQueue_stuck hs hz hdrain
  have hset : Stuck i z (h1.setSlot j .cleared) := by
    refine hz1.modSlot ?_ ?_ (by simp [Slot.cleared]) (fun _ => by simp [Slot.cleared])
    · intro x hx
      exact absurd hx (by simp [Slot.held, Slot.cleared, Ring.contents])
    · intro x hx
      exact absurd hx (by simp [Slot.cleared, Ring.contents])
  refine ⟨?_, ?_, hset.old, hset.elsewhere, hset.unqueued, hset.parked, hset.cleared, hset.busy⟩
  · simpa [Host.note, acceptedAll] using hset.accepted
  · simpa [Host.note, doneAll] using hset.undone

theorem resetSlot_stuck (hs : Plain send) (hji : j ≠ i) (hz : Stuck i z h)
    (hreset : resetSlot env send fuel abort_status h j = some h') : Stuck i z h' := by
  unfold resetSlot at hreset
  split at hreset
  · refine clear_stuck hs ?_ hreset
    by_cases hin : (h.slots j).has_inflight = true
    · rw [completeInflight_eq hin]
      apply runDone_stuck env hs
      have hfin : Stuck i z (h.setSlot j { h.slots j with
          has_inflight := false, inflight_rid := 0, state := .idle }) := by
        refine hz.modSlot ?_ (fun x hx => hx) (by simp) fun hj => absurd hj hji
        exact fun x hx => List.mem_append_right _ (by simpa [Slot.held] using hx)
      apply hfin.note_done
      rintro rfl
      exact hz.elsewhere j hji (by simp [Slot.held, hin])
    · unfold completeInflight
      rw [if_neg hin]
      exact hz
  · cases hreset
    exact hz

theorem resets_stuck (hs : Plain send) {is : List (Fin SLOT_MAX)} (his : i ∉ is) (hz : Stuck i z h)
    (hruns : runs (resetSlot env send fuel abort_status) h is = some h') : Stuck i z h' := by
  induction is generalizing h with
  | nil =>
    cases hruns
    exact hz
  | cons j is ih =>
    rw [runs_cons] at hruns
    obtain ⟨h1, hreset, hrest⟩ := Option.bind_eq_some_iff.mp hruns
    have hji : j ≠ i := fun hj => his (hj ▸ List.mem_cons_self)
    exact ih (fun hi => his (List.mem_cons_of_mem _ hi)) (resetSlot_stuck hs hji hz hreset) hrest

/-- The command that is in flight when the queue of its slot is drained. -/
theorem Ordered.stuck (ho : Ordered h) (hin : (h.slots i).has_inflight = true)
    (huse : (h.slots i).in_use = true) : Stuck i (h.slots i).inflight.handle h := by
  have hheld : (h.slots i).held =
      (h.slots i).inflight.handle :: (h.slots i).q.contents.map (·.handle) := by
    unfold Slot.held
    rw [if_pos hin]
    rfl
  have hall : (acceptedAll h.log).Nodup := ho.increasing.imp fun hlt => Nat.ne_of_lt hlt
  have hmem : (h.slots i).inflight.handle ∈ (h.slots i).held := by
    rw [hheld]
    exact List.mem_cons_self
  have hplace : (h.slots i).inflight.handle ∈ places h := mem_places.mpr ⟨i, hmem⟩
  have hof : ∀ j, (h.slots i).inflight.handle ∈ (h.slots j).held →
      (h.slots i).inflight.handle ∈ acceptedOf j h.log := by
    intro j hj
    rw [ho.account j]
    exact List.mem_append_right _ hj
  have hnd : (h.slots i).held.Nodup := by
    have := hall.sublist (acceptedOf_sublist i h.log)
    rw [ho.account i] at this
    exact (List.nodup_append.mp this).2.1
  refine ⟨held_accepted ho hplace, ?_, ho.fresh _ (held_accepted ho hplace), ?_, ?_, ?_, ?_,
    ho.busy⟩
  · exact fun hdone => (ho.tracks.done_gone _ hdone).2 hplace
  · exact fun j hj hjmem => hj (acceptedOf_inj hall (hof j hjmem) (hof i hmem))
  · rw [hheld] at hnd
    exact (List.nodup_cons.mp hnd).1
  · exact fun _ => (ho.busy i).mp hin
  · intro hfree
    rw [huse] at hfree
    exact absurd hfree Bool.noConfusion

/-- No state that keeps the law, and whose slaves are all gone, has lost a command. -/
theorem not_stuck (ht : TracksEachCommand h) (hempty : ∀ i, (h.slots i).in_use = false)
    (i : Fin SLOT_MAX) (z : Nat) : ¬ Stuck i z h := by
  intro hz
  have hone := ht.one_place z hz.accepted hz.undone
  have hmem : z ∈ places h := by
    apply List.count_pos_iff.mp
    omega
  obtain ⟨j, hj⟩ := mem_places.mp hmem
  by_cases hji : j = i
  · subst hji
    rcases List.mem_append.mp hj with hj | hj
    · rw [hz.cleared (hempty j)] at hj
      exact absurd hj List.not_mem_nil
    · exact hz.unqueued hj
  · exact hz.elsewhere j hji hj

/-- A reset of slot `i` that does not end in a broken law was clean. -/
theorem cleanSlot_of_reset (henv : env.NeverDrops) (ho : Ordered h)
    (hreset : resetSlot env (linkSend env) fuel abort_status h i = some h')
    (hpast : Past OneAtATime h'.log) (hnone : ∀ z, ¬ Stuck i z h')
    (huse : (h.slots i).in_use = true) : CleanSlot env abort_status h i := by
  have hs := linkSend_plain henv
  have ho1 : Ordered (completeInflight env (linkSend env) h i abort_status [] .reset) :=
    completeInflight_ordered hs ho i abort_status [] .reset
  have huse1 := ((completeInflight_later env hs h i abort_status [] .reset).in_use i).trans
    huse
  unfold resetSlot at hreset
  rw [if_pos huse] at hreset
  dsimp only at hreset
  have hrests : ((completeInflight env (linkSend env) h i abort_status [] .reset).slots
      i).has_inflight = false := by
    by_contra hne
    have hin := Bool.of_not_eq_false hne
    exact hnone _ (clear_stuck hs (ho1.stuck hin huse1) hreset)
  obtain ⟨h2, hdrain, rfl⟩ := Option.map_eq_some_iff.mp hreset
  obtain ⟨hcalm, hends⟩ := drainQueue_quiet henv ho1 hrests hdrain
    (hpast.of_prefix (List.prefix_append _ _))
  exact ⟨fun hin => (completeInflight_rests henv ho hin).mp hrests, hcalm, hends⟩

theorem resets_clean_of_aborts (henv : env.NeverDrops) {is : List (Fin SLOT_MAX)} (hnd : is.Nodup)
    (ho : Ordered h) (hruns : runs (resetSlot env (linkSend env) fuel abort_status) h is = some h')
    (hpast : Past OneAtATime h'.log) (hnone : ∀ i z, ¬ Stuck i z h') (n : Nat) :
    Meets (resetSlot env (linkSend env) n abort_status)
      (fun h i => (h.slots i).in_use = true → CleanSlot env abort_status h i) h is := by
  have hs := linkSend_plain henv
  induction is generalizing h with
  | nil => trivial
  | cons i is ih =>
    rw [runs_cons] at hruns
    obtain ⟨h1, hreset, hrest⟩ := Option.bind_eq_some_iff.mp hruns
    obtain ⟨hi, hnd⟩ := List.nodup_cons.mp hnd
    have hclean : (h.slots i).in_use = true → CleanSlot env abort_status h i :=
      cleanSlot_of_reset henv ho hreset (hpast.of_prefix (resets_later hs hrest).1)
        fun z hz => hnone i z (resets_stuck hs hi hz hrest)
    -- The reset of a slot has one outcome, whatever the fuel.
    have hsame : ∀ {m h2}, resetSlot env (linkSend env) m abort_status h i = some h2 → h2 = h1 := by
      intro m h2 h2eq
      have hleft := resetSlot_mono h2eq (Nat.le_max_left m fuel)
      rw [resetSlot_mono hreset (Nat.le_max_right m fuel)] at hleft
      exact (Option.some.inj hleft).symm
    obtain ⟨h2, m, h2eq, ho2⟩ := resetSlot_clean henv ho hclean
    obtain rfl := hsame h2eq
    refine ⟨hclean, fun h3 h3eq => ?_⟩
    obtain rfl := hsame h3eq
    exact ih hnd ho2 hrest

theorem aborts_iff_clean (henv : env.NeverDrops) (ho : Ordered h) (abort_status : UInt8) :
    AbortsEachCommand env h abort_status ↔ CleanReset env h abort_status := by
  constructor
  · rintro ⟨fuel, h', hruns, ht, -⟩ n
    have hempty := (resets_later (linkSend_plain henv) hruns).2
    exact resets_clean_of_aborts henv (List.nodup_finRange SLOT_MAX) ho hruns ht.one_at_a_time
      (not_stuck ht fun i => hempty i (Or.inl (List.mem_finRange i))) n
  · exact clean_reset_aborts henv ho

/-! ## Every run -/

/-- What the attach of a roster does before it resets the tracker. -/
def Host.attach (h : Host) (r : Option Roster) : Host :=
  { h with
    roster := r.getD .empty
    have_roster := r.isSome
    prov := .idle
    prov_idx := 0
    bc_total := 0 }.note .provReset

def CleanOp (env : Env) (h : Host) : Op → Prop
  | .attachRoster _ r => CleanReset env (h.attach r) DEMUX_STATUS_LINK_DOWN
  | _ => True

theorem addSlaves_ordered (ho : Ordered h) (l : List RosterSlave) :
    Ordered (l.foldl (fun h s => cmdTrackerAddSlave h s.addr) h) := by
  refine foldl_keeps ?_ ho l
  exact fun h s ho => addSlave_ordered ho s.addr

theorem clean_step_ordered (henv : env.NeverDrops) (ho : Ordered h) {op : Op}
    (hop : CleanOp env h op) (hstep : step env h op = some h') : Ordered h' := by
  by_cases hresets : op.resets = false
  · exact step_ordered henv ho hresets hstep
  cases op with
  | attachRoster fuel r =>
    have ho1 : Ordered (h.attach r) := by
      unfold Host.attach
      apply Ordered.note
      · exact ho
      · trivial
    obtain ⟨h2, hreset, rfl⟩ := Option.map_eq_some_iff.mp hstep
    obtain ⟨h3, fuel3, hreset3, ho3⟩ := resets_clean (m := 0) henv ho1 fun n _ => hop n
    -- The reset has one outcome, whatever the fuel.
    have hsame := resets_mono hreset3 (Nat.le_max_right fuel fuel3)
    have hmono := resets_mono (l := List.finRange SLOT_MAX) hreset (Nat.le_max_left fuel fuel3)
    obtain rfl := Option.some.inj (hmono.symm.trans hsame)
    exact addSlaves_ordered ho3 _
  | _ => exact absurd rfl hresets

/-- In every run whose earlier resets were clean, and whose sends never take
the link down before they return: a reset ends, and aborts each command once,
exactly when its callbacks leave the slot being reset alone. -/
theorem a_clean_reset_aborts_each_command (henv : env.NeverDrops) (ops : List Op)
    (hops : Meets (step env) (CleanOp env) .create ops) (h : Host)
    (hrun : runs (step env) .create ops = some h) (abort_status : UInt8) :
    AbortsEachCommand env h abort_status ↔ CleanReset env h abort_status :=
  aborts_iff_clean henv
    (inv_runs (I := Ordered) (fun _ _ _ ho hop hstep => clean_step_ordered henv ho hop hstep)
      create_ordered hops hrun) abort_status

/-! ## Callbacks that submit nothing -/

theorem silent_drain_is_calm (hsilent : ∀ n, env.on_done n = []) (i : Fin SLOT_MAX)
    (abort_status : UInt8) (n : Nat) (h : Host) : CalmDrain env i abort_status n h := by
  induction n generalizing h with
  | zero => trivial
  | succ n ih =>
    refine fun _ => ⟨?_, ih _⟩
    intro _
    rw [hsilent]
    trivial

theorem silent_drain_resubmits (hsilent : ∀ n, env.on_done n = []) (i : Fin SLOT_MAX)
    (abort_status : UInt8) (n : Nat) (h : Host) : resubmits env i abort_status n h = 0 := by
  induction n generalizing h with
  | zero => rfl
  | succ n ih => simp [resubmits, ih, resubmitted, hsilent, acceptedIn]

theorem silent_reset_is_clean (hsilent : ∀ n, env.on_done n = []) (h : Host)
    (abort_status : UInt8) : CleanReset env h abort_status := by
  intro fuel
  refine Meets.of_forall ?_ h _
  intro h i _
  refine ⟨fun _ _ => ?_, fun n => silent_drain_is_calm hsilent i abort_status n _, 0, fun n => ?_⟩
  · rw [hsilent]
    trivial
  · exact Nat.le_of_eq (silent_drain_resubmits hsilent i abort_status n _)

/-- One command is in flight, and one is queued behind it. -/
def queueRun : List Op :=
  [.linkUp, .addSlave 1, .submit (command 1 .client), .submit (command 1 .null)]

theorem queued_commands_are_aborted : ∃ h, runs (step silentEnv) .create queueRun = some h ∧
    AbortsEachCommand silentEnv h DEMUX_STATUS_LINK_DOWN := by
  have hsome : (runs (step silentEnv) .create queueRun).isSome := by decide
  obtain ⟨h, hrun⟩ := Option.isSome_iff_exists.mp hsome
  have hops : Meets (step silentEnv) (CleanOp silentEnv) .create queueRun := by
    refine ⟨trivial, fun _ _ => ⟨trivial, fun _ _ => ⟨trivial, fun _ _ => ⟨trivial, ?_⟩⟩⟩⟩
    exact fun _ _ => trivial
  refine ⟨h, hrun, ?_⟩
  exact (a_clean_reset_aborts_each_command (fun _ _ => SendResult.noConfusion) queueRun hops h hrun
    DEMUX_STATUS_LINK_DOWN).mpr (silent_reset_is_clean (fun _ => rfl) h _)

/-! ## A callback that submits to its own slave -/

/-- The callback of the command in flight submits to the same slave. -/
def resubmitEnv : Env where
  link_send := fun _ _ => .queued
  on_done := fun _ => [command 1 .null]

/-- The submit of the callback gets the queued command on the wire, and the
reset then clears the slot without completing it. -/
theorem reset_loses_the_command_it_sends :
    ¬ ∀ (env : Env) (ops : List Op) (h : Host) (abort_status : UInt8),
      runs (step env) .create ops = some h → AbortsEachCommand env h abort_status := by
  intro hall
  have hsome : (runs (step resubmitEnv) .create queueRun).isSome := by decide
  obtain ⟨h, hrun⟩ := Option.isSome_iff_exists.mp hsome
  have hlost : ((runs (step resubmitEnv) .create queueRun).bind fun h =>
      cmdTrackerReset resubmitEnv (linkSend resubmitEnv) 5 h DEMUX_STATUS_LINK_DOWN).map
      (fun h => (decide (2 ∈ acceptedAll h.log), decide (2 ∈ doneAll h.log), (places h).count 2)) =
      some (true, false, 0) := by decide
  rw [hrun, Option.bind_some] at hlost
  obtain ⟨h1, hreset, hlost⟩ := Option.map_eq_some_iff.mp hlost
  simp only [Prod.mk.injEq, decide_eq_true_eq, decide_eq_false_iff_not] at hlost
  obtain ⟨fuel, h2, hreset2, ht, -⟩ := hall resubmitEnv queueRun h DEMUX_STATUS_LINK_DOWN hrun
  -- The reset has one outcome, whatever the fuel.
  have hsame := resets_mono (l := List.finRange SLOT_MAX) hreset2 (Nat.le_max_left fuel 5)
  rw [resets_mono (l := List.finRange SLOT_MAX) hreset (Nat.le_max_right fuel 5)] at hsame
  cases hsame
  have hone := ht.one_place 2 hlost.1 hlost.2.1
  rw [hlost.2.2] at hone
  exact absurd hone (by decide)

end motioncore.host
