-- The health leaf and the reconcile leaf of a dongle, over all orders of the steps of the bus
-- supervisor. They agree as long as no liveness event tells that a slave is down: the
-- handler of the event publishes the health leaf alone.
import MotionCore.BusSup.Gate

namespace motioncore.bussup

open motioncore.machine motioncore.trace

variable {n : Nat} {ν : Type} {config : Fin n → Config} {lua : Lua ν}

/-! ## What the leaves say -/

/-- What was last published for a dongle, and the last liveness event of its slave since it
has been serving. -/
structure Told where
  health : Option Presence
  reconcile : Option Presence
  liveness : Option Nat
deriving DecidableEq, Repr

def Told.next (addr : Nat) (i : Fin n) (t : Told) : Event n → Told
  | .health j h => if j = i then { t with health := some h.state } else t
  | .reconcile j status => if j = i then { t with reconcile := some status } else t
  | .serving j => if j = i then { t with liveness := none } else t
  | .liveness j a status => if j = i ∧ a = addr then { t with liveness := some status } else t
  | _ => t

def told (addr : Nat) (i : Fin n) (log : List (Event n)) : Told :=
  log.foldl (Told.next addr i) ⟨none, none, none⟩

/-- The dongle is in phase serving with its bus open. It is so until DONGLE_TERM has run. -/
def InService (s : System n) (i : Fin n) : Prop :=
  ∃ ns, (s.nodes i = .enabled ns ∨ s.nodes i = .failed ns) ∧ ns.phase = .serving ∧ ns.bus.isSome

/-- The two leaves of a dongle agree, and they say that it is present only while it serves
and its slave was not told to be down. -/
structure LeavesTell (config : Fin n → Config) (s : System n) (i : Fin n) : Prop where
  agree : (told (config i).addr i s.log).health = (told (config i).addr i s.log).reconcile
  present : (told (config i).addr i s.log).health = some .present →
    InService s i ∧ ∀ status, (told (config i).addr i s.log).liveness = some status → status = 1

/-- A serving dongle hears of no slave that is down. -/
def Steady (s : System n) : Step n → Prop
  | .tick i t => ∀ ns, s.nodes i = .enabled ns → ns.phase = .serving →
    ∀ ev ∈ t.drained, ev.kind = 4 → ev.status = 1
  | _ => True

instance (s : System n) : ∀ a, Decidable (Steady s a)
  | .tick i t =>
    match hnode : s.nodes i with
    | .enabled ns =>
      decidable_of_iff (ns.phase = .serving → ∀ ev ∈ t.drained, ev.kind = 4 → ev.status = 1)
        ⟨fun h ns' hns => by rw [hnode] at hns; cases hns; exact h, fun h => h ns hnode⟩
    | .disabled | .failed _ => isTrue fun ns hns => by rw [hnode] at hns; cases hns
  | .enable _ _ | .disable _ | .gate_down | .publish => isTrue trivial

/-! ## Events that say nothing -/

section

variable {addr : Nat} {i : Fin n} {log log' : List (Event n)}

theorem told_snoc (e : Event n) : told addr i (log ++ [e]) = (told addr i log).next addr i e := by
  simp [told]

/-- The event tells nothing of the dongle. -/
def Event.Silent (i : Fin n) (e : Event n) : Prop := ∀ addr t, Told.next addr i t e = t

theorem told_silent (h : Adds (Event.Silent i) log log') : told addr i log' = told addr i log :=
  h.foldl_eq _ fun _ he t => he addr t

theorem Event.silent_of_ne {e : Event n} (h : e.dongle ≠ some i) : e.Silent i := by
  intro addr t
  cases e <;> simp only [Event.dongle, ne_eq, Option.some.injEq] at h <;> simp [Told.next, h]

end

variable {i : Fin n}

theorem silent_of_adds {j : Fin n} {log log' : List (Event n)}
    (h : Adds (fun e => e.dongle = some i) log log') (hne : j ≠ i) :
    Adds (Event.Silent j) log log' :=
  h.mono fun _ he => Event.silent_of_ne fun hj =>
    hne (Option.some.inj (hj.symm.trans he))

theorem Event.IsRequest.silent {j : Fin n} {e : Event n} (h : e.IsRequest i) : e.Silent j := by
  intro addr t
  cases e <;> first | rfl | exact absurd h id

/-! ## The work of a tick -/

/-- The leaves of the dongle say that it is present. -/
structure Work.Fine (addr : Nat) (i : Fin n) (w : Work n) : Prop where
  state : w.rt.g_health.state = .present
  health : (told addr i w.log).health = some .present
  reconcile : (told addr i w.log).reconcile = some .present
  liveness : ∀ status, (told addr i w.log).liveness = some status → status = 1

section

variable {addr : Nat} {i : Fin n} {w w' : Work n}

theorem Work.Fine.silent (h : w.Fine addr i) (hrt : w'.rt.g_health = w.rt.g_health)
    (hlog : Adds (Event.Silent i) w.log w'.log) : w'.Fine addr i := by
  have htold : told addr i w'.log = told addr i w.log := told_silent hlog
  exact ⟨hrt ▸ h.state, htold ▸ h.health, htold ▸ h.reconcile, htold ▸ h.liveness⟩

theorem event_fine (h : w.Fine addr i) {ev : CtrlEvent} (hup : ev.kind = 4 → ev.status = 1) :
    (w.event i ev).Fine addr i := by
  unfold Work.event Work.handle
  split
  · split
    · exact h.silent rfl ((Adds.refl _).snoc fun _ _ => rfl)
    · exact h
  · split
    · split
      · rename_i hkind
        have hstatus := hup hkind
        simp only [hstatus, if_true]
        refine ⟨rfl, ?_, ?_, fun status hlive => ?_⟩
        · simp only [Work.note, told_snoc, Told.next, if_true]
        · simp only [Work.note, told_snoc, Told.next, if_true]
          split <;> exact h.reconcile
        · simp only [Work.note, told_snoc, Told.next, if_true] at hlive
          split at hlive
          · exact (Option.some.inj hlive).symm
          · exact h.liveness status hlive
      · split
        · exact h.silent rfl ((Adds.refl _).snoc fun _ _ => rfl)
        · split
          · exact h.silent rfl ((Adds.refl _).snoc fun _ _ => rfl)
          · exact h
    · exact h

theorem poll_fine (h : w.Fine addr i) {drained : List CtrlEvent}
    (hup : ∀ ev ∈ drained, ev.kind = 4 → ev.status = 1) : (w.poll i drained).Fine addr i := by
  induction drained generalizing w with
  | nil => exact h
  | cons ev drained ih =>
    exact ih (event_fine h (hup ev List.mem_cons_self))
      fun ev' hev' => hup ev' (List.mem_cons_of_mem _ hev')

/-- Before a handler is set, only replies come out of a poll. -/
theorem poll_unheard (h : w.bus.on_event = false) (drained : List CtrlEvent) :
    (w.poll i drained).bus.on_event = false ∧ (w.poll i drained).rt = w.rt ∧
      Adds (Event.IsRequest i) w.log (w.poll i drained).log := by
  induction drained generalizing w with
  | nil => exact ⟨h, rfl, .refl _⟩
  | cons ev drained ih =>
    have hevent : (w.event i ev).bus.on_event = false ∧ (w.event i ev).rt = w.rt ∧
        Adds (Event.IsRequest i) w.log (w.event i ev).log := by
      unfold Work.event
      split
      · split
        · exact ⟨h, rfl, (Adds.refl _).snoc rfl⟩
        · exact ⟨h, rfl, .refl _⟩
      · rw [h]
        exact ⟨h, rfl, .refl _⟩
    obtain ⟨hclosed, hrt, hlog⟩ := ih hevent.1
    exact ⟨hclosed, hrt.trans hevent.2.1, hevent.2.2.trans hlog⟩

theorem submit_rt {handle : Nat → Nat} {id : Nat} {command j : Value ν}
    (h : w.submit lua i handle id command j = some w') : w'.rt = w.rt := by
  unfold Work.submit at h
  dsimp only at h
  split at h
  · cases h
    rfl
  · simp only [Option.bind_eq_bind, Option.bind_eq_some_iff] at h
    obtain ⟨encoded, -, h⟩ := h
    split at h
    · cases h
      rfl
    · split at h
      · split at h <;> cases h <;> rfl
      · cases h

theorem serve_rt {handle : Nat → Nat} {payload : List UInt8}
    (h : w.serve lua i handle payload = some w') : w'.rt = w.rt := by
  unfold Work.serve at h
  dsimp only at h
  split at h
  · split at h
    · split at h
      · cases h
        rfl
      · exact (submit_rt h).trans rfl
    · cases h
      rfl
  · cases h
    rfl

theorem serves_rt {handle : Nat → Nat} {payloads : List (List UInt8)}
    (h : payloads.foldlM (Work.serve lua i handle) w = some w') : w'.rt = w.rt :=
  rel_runs (R := fun w w' : Work n => w'.rt = w.rt) (fun _ => rfl)
    (fun _ _ _ h h' => h'.trans h) (fun _ _ _ => serve_rt) h

theorem catalog_fine (h : w.Fine addr i) (now : Time) : (w.catalog i now).Fine addr i := by
  unfold Work.catalog
  split
  · exact h.silent rfl ((Adds.refl _).snoc fun _ _ => rfl)
  · exact h

theorem heartbeat_fine (h : w.Fine addr i) (now : Time) : (w.heartbeat i now).Fine addr i := by
  unfold Work.heartbeat
  split
  · refine ⟨h.state, ?_, ?_, fun status hlive => h.liveness status ?_⟩
    · simp only [Work.note, told_snoc, Told.next, if_true, h.state]
    · simp only [Work.note, told_snoc, Told.next, if_true]
    · simpa only [Work.note, told_snoc, Told.next, if_true] using hlive
  · exact h

/-- A serving dongle that hears of no slave that is down says that it is present. -/
theorem served_fine (h : w.Fine addr i) {t : Tick}
    (hup : ∀ ev ∈ t.drained, ev.kind = 4 → ev.status = 1)
    (hserve : t.requests.foldlM (Work.serve lua i t.handle) (w.poll i t.drained) = some w') :
    ((w'.catalog i t.now).heartbeat i t.now).Fine addr i := by
  have hpoll := poll_fine h hup
  have hrt : w'.rt.g_health = (w.poll i t.drained).rt.g_health := by rw [serves_rt hserve]
  have hserved : w'.Fine addr i :=
    hpoll.silent hrt ((serves_adds hserve).mono fun _ => Event.IsRequest.silent)
  exact heartbeat_fine (catalog_fine hserved _) _

end

/-! ## The invariant -/

/-- What the leaves of a dongle say, with what is needed to keep it so. -/
structure Tells (config : Fin n → Config) (s : System n) (i : Fin n) : Prop where
  agree : (told (config i).addr i s.log).health = (told (config i).addr i s.log).reconcile
  serving : InService s i → (s.rts i).g_health.state = .present ∧
    (told (config i).addr i s.log).health = some .present ∧
    ∀ status, (told (config i).addr i s.log).liveness = some status → status = 1
  away : ¬ InService s i → (told (config i).addr i s.log).health ≠ some .present
  handler : ∀ ns bus, s.nodes i = .enabled ns → ns.phase ≠ .serving → ns.bus = some bus →
    bus.on_event = false

theorem Tells.leaves {s : System n} (h : Tells config s i) : LeavesTell config s i := by
  refine ⟨h.agree, fun hpresent => ?_⟩
  by_cases hin : InService s i
  · exact ⟨hin, (h.serving hin).2.2⟩
  · exact absurd hpresent (h.away hin)

section

variable {s s' : System n} {i j : Fin n}

theorem Tells.same (h : Tells config s j) (hnode : s'.nodes j = s.nodes j)
    (hrt : s'.rts j = s.rts j) (hlog : Adds (Event.Silent j) s.log s'.log) : Tells config s' j := by
  have htold : told (config j).addr j s'.log = told (config j).addr j s.log := told_silent hlog
  have hin : InService s' j ↔ InService s j := by rw [InService, InService, hnode]
  refine ⟨by rw [htold]; exact h.agree, fun hs => ?_, fun hs => ?_, fun ns bus hns => ?_⟩
  · rw [htold, hrt]
    exact h.serving (hin.mp hs)
  · rw [htold]
    exact h.away fun hs' => hs (hin.mpr hs')
  · rw [hnode] at hns
    exact h.handler ns bus hns

theorem Tells.aside (h : Tells config s i) (hout : ¬ InService s i) {node : Node}
    (hnode : s'.nodes i = node)
    (hphase : ∀ ns, node = .enabled ns ∨ node = .failed ns → ns.phase ≠ .serving)
    (hhandler : ∀ ns bus, node = .enabled ns → ns.bus = some bus → bus.on_event = false)
    (hlog : Adds (Event.Silent i) s.log s'.log) : Tells config s' i := by
  have htold : told (config i).addr i s'.log = told (config i).addr i s.log := told_silent hlog
  have hout' : ¬ InService s' i := by
    rintro ⟨ns, hns, hserving, -⟩
    rw [hnode] at hns
    exact hphase ns hns hserving
  refine ⟨by rw [htold]; exact h.agree, fun hs => absurd hs hout', fun _ => ?_,
    fun ns bus hns _ => ?_⟩
  · rw [htold]
    exact h.away hout
  · rw [hnode] at hns
    exact hhandler ns bus hns

theorem not_inService {ns : NodeData} (hns : s.nodes i = .enabled ns)
    (hphase : ns.phase ≠ .serving) : ¬ InService s i := by
  rintro ⟨ns', hns', hserving, -⟩
  rw [hns] at hns'
  rcases hns' with hns' | hns' <;> cases hns'
  exact hphase hserving

/-! ## One step -/

variable {ns : NodeData} {t : Tick}

theorem Work.Fine.tells {w : Work n} (h : w.Fine (config i).addr i) {node : Node}
    {ns' : NodeData} (hnode : s'.nodes i = node) (hns : node = .enabled ns' ∨ node = .failed ns')
    (hphase : ns'.phase = .serving) (hbus : ns'.bus.isSome) (hrt : s'.rts i = w.rt)
    (hlog : s'.log = w.log) : Tells config s' i := by
  have hin : InService s' i := ⟨ns', hnode ▸ hns, hphase, hbus⟩
  refine ⟨?_, fun _ => ?_, fun hout => absurd hin hout, fun ns₁ bus hns₁ hother => ?_⟩
  · rw [hlog, h.health, h.reconcile]
  · rw [hlog, hrt]
    exact ⟨h.state, h.health, h.liveness⟩
  · rw [hnode] at hns₁
    subst hns₁
    rcases hns with hns | hns <;> cases hns
    exact absurd hphase hother

theorem enter_tells {ns' : NodeData} (hphase : ns'.phase = .serving) (hbus : ns'.bus.isSome) :
    Tells config ((enter_serving s i ns).setNode i (.enabled ns')) i := by
  have htold : ∀ addr, told addr i (enter_serving s i ns).log =
      ⟨some .present, some .present, none⟩ := by
    intro addr
    simp [told, enter_serving, Told.next]
  let w : Work n := ⟨⟨[], true⟩, false, (enter_serving s i ns).rts i, 0, (enter_serving s i ns).log⟩
  have hfine : w.Fine (config i).addr i := by
    refine ⟨?_, ?_, ?_, ?_⟩
    · simp [w, enter_serving]
    · rw [htold]
    · rw [htold]
    · rw [htold]
      exact fun _ h => by cases h
  exact hfine.tells (Function.update_self _ _ _) (.inl rfl) hphase hbus rfl rfl

theorem serve_own_tells (hgated : Gated config s) (h : Tells config s i)
    (hns : s.nodes i = .enabled ns)
    (hup : ns.phase = .serving → ∀ ev ∈ t.drained, ev.kind = 4 → ev.status = 1)
    (hserve : DONGLE_SERVE config lua s i ns t = some s') : Tells config s' i := by
  have hgood := hgated.node i ns hns
  unfold DONGLE_SERVE at hserve
  cases hphase : ns.phase with
  | wait_turn =>
    simp only [hphase, wait_turn, Option.some.injEq] at hserve
    have hout := not_inService hns (by rw [hphase]; decide)
    split at hserve
    · exact hserve ▸ h
    · split at hserve
      · exact hserve ▸ h
      · split at hserve <;> subst hserve
        · refine h.aside hout (Function.update_self _ _ _) ?_ ?_ ((Adds.refl _).snoc ?_)
          · rintro _ (hnode | hnode) <;> cases hnode
            exact fun h => by cases h
          · rintro _ bus ⟨⟩ ⟨⟩
            rfl
          · exact fun _ _ => rfl
        · refine h.aside hout (Function.update_self _ _ _) ?_ ?_ (.refl _)
          · rintro _ (hnode | hnode) <;> cases hnode
            exact fun h => by cases h
          · rintro _ bus ⟨⟩ hbus
            exact h.handler ns bus hns (by rw [hphase]; decide) hbus
  | provisioning =>
    simp only [hphase, provisioning, Option.some.injEq] at hserve
    have hout := not_inService hns (by rw [hphase]; decide)
    have hhandler : ∀ bus, ns.bus = some bus → bus.on_event = false :=
      fun bus => h.handler ns bus hns (by rw [hphase]; decide)
    split at hserve <;> subst hserve
    · refine h.aside hout (Function.update_self _ _ _) ?_ ?_ (.refl _)
      · rintro _ (hnode | hnode) <;> cases hnode
        exact fun h => by cases h
      · rintro _ bus ⟨⟩ hbus
        exact hhandler bus hbus
    · rename_i bus hbus
      obtain ⟨hclosed, -, hlog⟩ :=
        poll_unheard (i := i) (w := s.work i ns bus) (hhandler bus hbus) t.drained
      refine h.aside hout (Function.update_self _ _ _) ?_ ?_
        (hlog.mono fun _ => Event.IsRequest.silent)
      · rintro _ (hnode | hnode) <;> cases hnode
        dsimp only
        split
        · exact fun h => by cases h
        · split <;> exact fun h => by cases h
      · rintro _ bus' ⟨⟩ ⟨⟩
        exact hclosed
  | verify =>
    have hout := not_inService hns (by rw [hphase]; decide)
    have hup : ns.phase.isUp := by rw [hphase]; rfl
    obtain ⟨bus, hbus⟩ := Option.isSome_iff_exists.mp (hgood.bus hup)
    simp only [hphase, verify, hbus, Option.isSome_some, if_true, Option.some.injEq] at hserve
    split at hserve <;> subst hserve
    · refine h.aside hout (Function.update_self _ _ _) ?_ ?_ (.refl _)
      · rintro _ (hnode | hnode) <;> cases hnode
        exact fun h => by cases h
      · rintro _ bus' ⟨⟩ ⟨⟩
        exact h.handler ns bus hns (by rw [hphase]; decide) hbus
    · exact enter_tells rfl rfl
  | fault =>
    simp only [hphase, Option.some.injEq] at hserve
    have hout := not_inService hns (by rw [hphase]; decide)
    subst hserve
    refine h.aside hout (Function.update_self _ _ _) ?_ ?_ (.refl _)
    · rintro _ (hnode | hnode) <;> cases hnode
      rw [hphase]
      decide
    · rintro _ _ ⟨⟩
  | serving =>
    have hup' : ns.phase.isUp := by rw [hphase]; rfl
    obtain ⟨bus, hbus⟩ := Option.isSome_iff_exists.mp (hgood.bus hup')
    simp only [hphase, serving, hbus, Option.bind_eq_bind, Option.bind_eq_some_iff] at hserve
    obtain ⟨w, hw, hserve⟩ := hserve
    have hin : InService s i := ⟨ns, .inl hns, hphase, by rw [hbus]; rfl⟩
    obtain ⟨hstate, hhealth, hlive⟩ := h.serving hin
    have hfine : (s.work i ns bus).Fine (config i).addr i :=
      ⟨hstate, hhealth, h.agree.symm.trans hhealth, hlive⟩
    have hserved := served_fine hfine (hup hphase) hw
    split at hserve <;> cases hserve
    · exact hserved.tells (Function.update_self _ _ _) (.inr rfl) rfl rfl
        (Function.update_self _ _ _) rfl
    · exact hserved.tells (Function.update_self _ _ _) (.inl rfl) rfl rfl
        (Function.update_self _ _ _) rfl

theorem serve_tells (hgated : Gated config s) (h : ∀ j, Tells config s j)
    (hns : s.nodes i = .enabled ns)
    (hup : ns.phase = .serving → ∀ ev ∈ t.drained, ev.kind = 4 → ev.status = 1)
    (hserve : DONGLE_SERVE config lua s i ns t = some s') (j : Fin n) : Tells config s' j := by
  by_cases hne : j = i
  · subst hne
    exact serve_own_tells hgated (h j) hns hup hserve
  · obtain ⟨hframe, hlog⟩ := serve_frame hserve
    exact (h j).same (hframe j hne).1 (hframe j hne).2 (silent_of_adds hlog hne)

theorem disabled_not_inService (hnode : s.nodes i = .disabled) : ¬ InService s i := by
  rintro ⟨ns, hns | hns, -⟩ <;> rw [hnode] at hns <;> cases hns

theorem bind_tells (h : ∀ j, Tells config s j) (hnode : s.nodes i = .disabled) (now : Time)
    (j : Fin n) : Tells config (DONGLE_BIND s i now) j := by
  by_cases hne : j = i
  · subst hne
    refine (h j).aside (disabled_not_inService hnode) (Function.update_self _ _ _) ?_ ?_ (.refl _)
    · rintro _ (hns | hns) <;> cases hns
      exact nofun
    · rintro _ bus ⟨⟩ ⟨⟩
  · exact (h j).same (Function.update_of_ne hne _ _) rfl (.refl _)

theorem term_tells (h : ∀ j, Tells config s j) (j : Fin n) : Tells config (DONGLE_TERM s i) j := by
  by_cases hne : j = i
  · subst hne
    have hnode : (DONGLE_TERM s j).nodes j = .disabled := Function.update_self _ _ _
    have hhealth : ∀ addr, (told addr j (DONGLE_TERM s j).log).health = some .missing := by
      simp [told, DONGLE_TERM, System.setNode, Told.next]
    have hreconcile : ∀ addr, (told addr j (DONGLE_TERM s j).log).reconcile = some .missing := by
      simp [told, DONGLE_TERM, System.setNode, Told.next]
    refine ⟨(hhealth _).trans (hreconcile _).symm,
      fun hin => absurd hin (disabled_not_inService hnode), fun _ => ?_, fun ns bus hns => ?_⟩
    · rw [hhealth]
      exact fun h => by cases h
    · rw [hnode] at hns
      cases hns
  · refine (h j).same (Function.update_of_ne hne _ _) (Function.update_of_ne hne _ _) ⟨_, rfl, ?_⟩
    intro e he
    apply Event.silent_of_ne
    simp only [List.mem_cons, List.not_mem_nil, or_false] at he
    rcases he with rfl | rfl | rfl <;> exact fun heq => hne (Option.some.inj heq).symm

theorem step_tells (hgated : Gated config s) (h : ∀ j, Tells config s j) {a : Step n}
    (hsteady : Steady s a) (hstep : step config lua s a = some s') (j : Fin n) :
    Tells config s' j := by
  cases a with
  | enable i now =>
    cases hns : s.nodes i <;> simp only [step, hns] at hstep <;> cases hstep
    exact bind_tells h hns now j
  | tick i t =>
    cases hns : s.nodes i <;> simp only [step, hns] at hstep
    · cases hstep
    · exact serve_tells hgated h hns (hsteady _ hns) hstep j
    · cases hstep
  | disable i =>
    cases hns : s.nodes i <;> simp only [step, hns] at hstep <;> cases hstep <;>
      exact term_tells h j
  | gate_down =>
    cases hstep
    refine (h j).same rfl rfl ⟨_, rfl, ?_⟩
    simp [Event.Silent, Told.next]
  | publish =>
    cases hstep
    exact (h j).same rfl rfl ((Adds.refl _).snoc fun _ _ => rfl)

end

/-! ## Every run -/

theorem init_tells (i : Fin n) : Tells config (.init n) i := by
  refine ⟨rfl, fun hin => absurd hin (disabled_not_inService rfl), fun _ => nofun, ?_⟩
  rintro _ _ ⟨⟩

/-- In every run in which no serving dongle hears of a slave that is down, the leaves of each
dongle agree, and say that it is present only while it serves. -/
theorem leaves_tell {acts : List (Step n)} {s : System n}
    (hrun : runs (step config lua) (.init n) acts = some s)
    (hsteady : Meets (step config lua) Steady (.init n) acts) (i : Fin n) :
    LeavesTell config s i := by
  have hinv : Gated config s ∧ ∀ j, Tells config s j :=
    inv_runs (I := fun s => Gated config s ∧ ∀ j, Tells config s j)
      (fun _ _ _ h hok hstep => ⟨step_gated h.1 hstep, step_tells h.1 h.2 hok hstep⟩)
      ⟨init_gated, init_tells⟩ hsteady hrun
  exact (hinv.2 i).leaves

def livenessTick (status : Nat) : Tick := { quietTick with drained := [⟨4, 1, status, 0, 0, []⟩] }

def alone (_ : Fin 1) : Config := ⟨1, 0, none⟩

/-- A dongle comes up, and hears of its slave. -/
def hears (status : Nat) : List (Step 1) :=
  [.enable 0 0, .tick 0 quietTick, .tick 0 quietTick, .tick 0 quietTick, .tick 0 quietTick,
    .tick 0 (livenessTick status)]

theorem up_is_told : ∃ s, runs (step alone integers) (.init 1) (hears 1) = some s ∧
    (told 1 0 s.log).health = some .present ∧ LeavesTell alone s 0 := by
  obtain ⟨s, hrun⟩ : ∃ s, runs (step alone integers) (.init 1) (hears 1) = some s := ⟨_, rfl⟩
  have htold : (runs (step alone integers) (.init 1) (hears 1)).map (fun s =>
      (told 1 0 s.log).health) = some (some .present) := by decide +kernel
  rw [hrun] at htold
  exact ⟨s, hrun, Option.some.inj htold, leaves_tell hrun (by decide +kernel) 0⟩

/-- The slave of a serving dongle goes down: one leaf says so, the other does not. -/
theorem down_is_half_told : ∃ s, runs (step alone integers) (.init 1) (hears 0) = some s ∧
    ¬ LeavesTell alone s 0 := by
  obtain ⟨s, hrun⟩ : ∃ s, runs (step alone integers) (.init 1) (hears 0) = some s := ⟨_, rfl⟩
  have htold : (runs (step alone integers) (.init 1) (hears 0)).map (fun s =>
      told 1 0 s.log) = some ⟨some .missing, some .present, some 0⟩ := by decide +kernel
  rw [hrun] at htold
  have hlast : told 1 0 s.log = ⟨some .missing, some .present, some 0⟩ := Option.some.inj htold
  refine ⟨s, hrun, fun h => ?_⟩
  have hagree : (told 1 0 s.log).health = (told 1 0 s.log).reconcile := h.agree
  rw [hlast] at hagree
  cases hagree

end motioncore.bussup
