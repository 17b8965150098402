-- The gates of the bus supervisor, over all orders of its steps: a dongle opens its bus only
-- behind those before it, the system is called operational only while all dongles serve, and
-- never again once the gate is down.
import MotionCore.BusSup.Dongle
import MotionCore.Lib.Runs
import MotionCore.Lib.Trace

namespace motioncore.bussup

open motioncore.machine motioncore.trace

variable {n : Nat} {ν : Type} {config : Fin n → Config} {lua : Lua ν}

/-! ## What should hold -/

/-- A dongle is in phase serving with its bus open, and has the chip that it is pinned to. -/
def Serves (config : Fin n → Config) (s : System n) (i : Fin n) : Prop :=
  ∃ ns, s.nodes i = .enabled ns ∧ ns.phase = .serving ∧ ns.bus.isSome ∧
    ((config i).chip_uid.isSome → ns.chip_uid = (config i).chip_uid)

/-- The dongles before one that is opened have been serving. -/
def OpensInTurn (log : List (Event n)) : Prop :=
  Past (fun before e => ∀ i, e = .opened i → ∀ j < i, .serving j ∈ before) log

/-- The system is not called operational behind a gate that is down. -/
def StaysDown (log : List (Event n)) : Prop :=
  Past (fun before e => ∀ reason, e = .operational true reason → .gate_down ∉ before) log

/-! ## What is added to the log -/

def Event.dongle : Event n → Option (Fin n)
  | .opened i | .serving i | .terminated i | .catalog i | .health i _ | .interlock i _
  | .reconcile i _ | .liveness i _ _ | .taken i _ _ | .answered i _ _ => some i
  | .operational _ _ | .gate_down => none

/-- The event is about the dongle, and says nothing of the gates. -/
def Event.IsLeaf (i : Fin n) : Event n → Prop
  | .opened _ | .serving _ | .operational _ _ | .gate_down => False
  | e => e.dongle = some i

def Event.IsRequest (i : Fin n) : Event n → Prop
  | .taken j _ _ | .answered j _ _ => j = i
  | _ => False

variable {i : Fin n}

theorem Event.IsRequest.leaf {e : Event n} (h : e.IsRequest i) : e.IsLeaf i := by
  cases e <;> first | exact congrArg some h | exact absurd h id

section

variable {w w' : Work n} {i : Fin n}

theorem event_adds (w : Work n) (ev : CtrlEvent) :
    Adds (Event.IsLeaf i) w.log (w.event i ev).log := by
  unfold Work.event Work.handle
  split
  · split
    · exact (Adds.refl _).snoc rfl
    · exact .refl _
  · split
    · split
      · exact ((Adds.refl _).snoc (by rfl)).snoc rfl
      · split
        · exact (Adds.refl _).snoc rfl
        · split
          · exact (Adds.refl _).snoc rfl
          · exact .refl _
    · exact .refl _

theorem poll_adds (w : Work n) (drained : List CtrlEvent) :
    Adds (Event.IsLeaf i) w.log (w.poll i drained).log := by
  induction drained generalizing w with
  | nil => exact .refl _
  | cons ev drained ih => exact (event_adds w ev).trans (ih _)

theorem submit_adds {handle : Nat → Nat} {id : Nat} {command j : Value ν}
    (h : w.submit lua i handle id command j = some w') : Adds (Event.IsRequest i) w.log w'.log := by
  unfold Work.submit at h
  dsimp only at h
  split at h
  · cases h
    exact (Adds.refl _).snoc rfl
  · simp only [Option.bind_eq_bind, Option.bind_eq_some_iff] at h
    obtain ⟨encoded, -, h⟩ := h
    split at h
    · cases h
      exact (Adds.refl _).snoc rfl
    · split at h
      · split at h <;> cases h
        · exact (Adds.refl _).snoc rfl
        · exact .refl _
      · cases h

theorem serve_adds {handle : Nat → Nat} {payload : List UInt8}
    (h : w.serve lua i handle payload = some w') : Adds (Event.IsRequest i) w.log w'.log := by
  have htaken : Adds (Event.IsRequest i) w.log (w.log ++ [Event.taken i w.requests payload]) :=
    (Adds.refl _).snoc rfl
  unfold Work.serve at h
  dsimp only at h
  split at h
  · split at h
    · split at h
      · cases h
        exact htaken.snoc rfl
      · exact htaken.trans (submit_adds h)
    · cases h
      exact htaken.snoc rfl
  · cases h
    exact htaken.snoc rfl

theorem serves_adds {handle : Nat → Nat} {payloads : List (List UInt8)}
    (h : payloads.foldlM (Work.serve lua i handle) w = some w') :
    Adds (Event.IsRequest i) w.log w'.log :=
  rel_runs (R := fun w w' : Work n => Adds (Event.IsRequest i) w.log w'.log) (fun _ => .refl _)
    (fun _ _ _ => Adds.trans) (fun _ _ _ => serve_adds) h

theorem catalog_adds (w : Work n) (now : Time) :
    Adds (Event.IsLeaf i) w.log (w.catalog i now).log := by
  unfold Work.catalog
  split
  · exact (Adds.refl _).snoc rfl
  · exact .refl _

theorem heartbeat_adds (w : Work n) (now : Time) :
    Adds (Event.IsLeaf i) w.log (w.heartbeat i now).log := by
  unfold Work.heartbeat
  split
  · exact ((Adds.refl _).snoc (by rfl)).snoc rfl
  · exact .refl _

theorem served_adds {t : Tick} (h : t.requests.foldlM (Work.serve lua i t.handle)
    (w.poll i t.drained) = some w') :
    Adds (Event.IsLeaf i) w.log ((w'.catalog i t.now).heartbeat i t.now).log := by
  have hserved := (serves_adds h).mono fun _ => Event.IsRequest.leaf
  exact (((poll_adds _ _).trans hserved).trans (catalog_adds _ _)).trans (heartbeat_adds _ _)

end

/-! ## The invariant -/

def Phase.isUp : Phase → Bool
  | .provisioning | .verify | .serving => true
  | .wait_turn | .fault => false

structure NodeData.Good (config : Fin n → Config) (brought_up : Nat) (i : Fin n)
    (ns : NodeData) : Prop where
  k : ns.k = i.val + 1
  turn : ns.phase.isUp → i.val ≤ brought_up
  bus : ns.phase.isUp → ns.bus.isSome
  pinned : ns.phase = .serving → (config i).chip_uid.isSome → ns.chip_uid = (config i).chip_uid

structure Gated (config : Fin n → Config) (s : System n) : Prop where
  node : ∀ i ns, s.nodes i = .enabled ns → ns.Good config s.brought_up i
  served : ∀ j : Fin n, j.val < s.brought_up → .serving j ∈ s.log
  counted : ∀ i, s.dongle_serving i = true → ∃ ns, s.nodes i = .enabled ns ∧ ns.phase = .serving
  turns : OpensInTurn s.log
  latched : .gate_down ∈ s.log → s.bus_operational = some false
  down : StaysDown s.log

variable {s : System n}

theorem Gated.serves (h : Gated config s) (hi : s.dongle_serving i = true) : Serves config s i := by
  obtain ⟨ns, hns, hphase⟩ := h.counted i hi
  have hgood := h.node i ns hns
  exact ⟨ns, hns, hphase, hgood.bus (by rw [hphase]; rfl), hgood.pinned hphase⟩

theorem init_gated : Gated config (.init n) where
  node i ns h := by cases h
  served j h := by simp [System.init] at h
  counted i h := by cases h
  turns := past_nil _
  latched h := by simp [System.init] at h
  down := past_nil _

/-! ## One step -/

variable {s' : System n}

/-- A step of one dongle that changes its node and adds leaves to the log. -/
theorem Gated.moved (h : Gated config s) {node : Node}
    (hnodes : s'.nodes = Function.update s.nodes i node)
    (hgood : ∀ ns, node = .enabled ns → ns.Good config s.brought_up i)
    (hup : s'.brought_up = s.brought_up)
    (hserving : ∀ j, s'.dongle_serving j = true → s.dongle_serving j = true ∧ (j = i →
      ∃ ns, node = .enabled ns ∧ ns.phase = .serving))
    (hoper : s'.bus_operational = s.bus_operational) (hlog : Adds (Event.IsLeaf i) s.log s'.log) :
    Gated config s' where
  node j ns hj := by
    have hgood' : ns.Good config s.brought_up j := by
      rw [hnodes] at hj
      by_cases hji : j = i
      · subst hji
        rw [Function.update_self] at hj
        exact hgood ns hj
      · rw [Function.update_of_ne hji] at hj
        exact h.node j ns hj
    exact ⟨hgood'.k, fun hphase => hup ▸ hgood'.turn hphase, hgood'.bus, hgood'.pinned⟩
  served j hj := hlog.mem (h.served j (hup ▸ hj))
  counted j hj := by
    obtain ⟨hold, hnew⟩ := hserving j hj
    rw [hnodes]
    by_cases hji : j = i
    · subst hji
      rw [Function.update_self]
      exact hnew rfl
    · rw [Function.update_of_ne hji]
      exact h.counted j hold
  turns := hlog.past h.turns fun l e he i heq => by
    subst heq
    exact absurd he id
  latched hdown := by
    rw [hoper]
    exact h.latched (hlog.mem_of_mem hdown id)
  down := hlog.past h.down fun l e he reason heq => by
    subst heq
    exact absurd he id

variable {ns : NodeData}

theorem enter_gated (h : Gated config s) {ns' : NodeData} (hk : ns.k = i.val + 1)
    (hturn : i.val ≤ s.brought_up) (hgood : ns'.Good config s.brought_up i)
    (hserving : ns'.phase = .serving) :
    Gated config ((enter_serving s i ns).setNode i (.enabled ns')) := by
  have hadds : Adds (fun e => e.IsLeaf i ∨ e = .serving i) s.log
      (s.log ++ [.health i ⟨.present, ns.chip_uid⟩, .reconcile i .present, .serving i]) := by
    refine ⟨_, rfl, ?_⟩
    simp [Event.IsLeaf, Event.dongle]
  refine ⟨fun j ns₁ hj => ?_, fun j hj => ?_, fun j hj => ?_, ?_, fun hdown => ?_, ?_⟩
  · have hold : ns₁.Good config s.brought_up j := by
      by_cases hji : j = i
      · subst hji
        simp only [System.setNode, Function.update_self, Node.enabled.injEq] at hj
        exact hj ▸ hgood
      · simp only [System.setNode, Function.update_of_ne hji] at hj
        exact h.node j ns₁ hj
    exact ⟨hold.k, fun hphase => (hold.turn hphase).trans (le_max_left _ _), hold.bus,
      hold.pinned⟩
  · change j.val < max s.brought_up ns.k at hj
    by_cases hji : j = i
    · subst hji
      exact List.mem_append_right _ (by simp)
    · refine List.mem_append_left _ (h.served j ?_)
      have hne : j.val ≠ i.val := fun heq => hji (Fin.ext heq)
      omega
  · by_cases hji : j = i
    · subst hji
      exact ⟨ns', Function.update_self _ _ _, hserving⟩
    · simp only [System.setNode, enter_serving, Function.update_of_ne hji] at hj ⊢
      exact h.counted j hj
  · refine hadds.past h.turns fun l e he j heq => ?_
    subst heq
    rcases he with he | he
    · exact absurd he id
    · cases he
  · refine h.latched (hadds.mem_of_mem hdown ?_)
    rintro (he | he)
    · exact he
    · cases he
  · refine hadds.past h.down fun l e he reason heq => ?_
    subst heq
    rcases he with he | he
    · exact absurd he id
    · cases he

section

variable {s s' : System n} {i : Fin n} {ns : NodeData} {t : Tick}

theorem Gated.not_counted (h : Gated config s) (hns : s.nodes i = .enabled ns)
    (hphase : ns.phase ≠ .serving) : s.dongle_serving i = false := by
  cases hi : s.dongle_serving i with
  | false => rfl
  | true =>
    obtain ⟨ns₁, hns₁, hserving⟩ := h.counted i hi
    rw [hns] at hns₁
    cases hns₁
    exact absurd hserving hphase

/-- A step of a dongle that is not serving leaves the set as it is. -/
theorem Gated.aside (h : Gated config s) (hns : s.nodes i = .enabled ns)
    (hphase : ns.phase ≠ .serving) {node : Node}
    (hnodes : s'.nodes = Function.update s.nodes i node)
    (hgood : ∀ ns', node = .enabled ns' → ns'.Good config s.brought_up i)
    (hup : s'.brought_up = s.brought_up) (hset : s'.dongle_serving = s.dongle_serving)
    (hoper : s'.bus_operational = s.bus_operational) (hlog : Adds (Event.IsLeaf i) s.log s'.log) :
    Gated config s' := by
  refine h.moved hnodes hgood hup (fun j hj => ?_) hoper hlog
  rw [hset] at hj
  refine ⟨hj, fun hji => ?_⟩
  rw [hji, h.not_counted hns hphase] at hj
  cases hj

theorem down_good (hk : ns.k = i.val + 1) (hphase : ns.phase = .fault ∨ ns.phase = .wait_turn) :
    ns.Good config s.brought_up i := by
  rcases hphase with hphase | hphase <;>
  · refine ⟨hk, ?_, ?_, ?_⟩ <;> simp [hphase, Phase.isUp]

/-- A dongle that opens its bus has its turn. -/
theorem open_gated (h : Gated config s) (hns : s.nodes i = .enabled ns)
    (hphase : ns.phase = .wait_turn) (hturn : i.val ≤ s.brought_up) {ns' : NodeData}
    (hgood : ns'.Good config s.brought_up i) :
    Gated config ((s.note (.opened i)).setNode i (.enabled ns')) := by
  have hopened : Adds (fun e => e = .opened i) s.log (s.log ++ [Event.opened i]) :=
    (Adds.refl _).snoc rfl
  have hnot : s.dongle_serving i = false := h.not_counted hns (by rw [hphase]; decide)
  refine ⟨fun j ns₁ hj => ?_, fun j hj => hopened.mem (h.served j hj), fun j hj => ?_, ?_,
    fun hdown => h.latched (hopened.mem_of_mem hdown (by simp)), ?_⟩
  · have hold : ns₁.Good config s.brought_up j := by
      by_cases hji : j = i
      · subst hji
        simp only [System.setNode, Function.update_self, Node.enabled.injEq] at hj
        exact hj ▸ hgood
      · simp only [System.setNode, Function.update_of_ne hji] at hj
        exact h.node j ns₁ hj
    exact ⟨hold.k, hold.turn, hold.bus, hold.pinned⟩
  · have hji : j ≠ i := by
      rintro rfl
      exact absurd hj (by simp [System.setNode, System.note, hnot])
    simp only [System.setNode, Function.update_of_ne hji]
    exact h.counted j hj
  · refine Past.snoc h.turns fun j heq k hk => ?_
    cases heq
    exact h.served k (lt_of_lt_of_le hk hturn)
  · exact Past.snoc h.down fun reason heq => by cases heq

theorem wait_turn_gated (h : Gated config s) (hns : s.nodes i = .enabled ns)
    (hphase : ns.phase = .wait_turn) : Gated config (wait_turn s i ns t) := by
  have hgood := h.node i ns hns
  have hne : ns.phase ≠ .serving := by rw [hphase]; decide
  unfold wait_turn
  split
  · exact h
  · rename_i hturn
    have hi : i.val ≤ s.brought_up := by
      have hk := hgood.k
      omega
    split
    · exact h
    · split
      · refine open_gated h hns hphase hi ⟨hgood.k, fun _ => hi, fun _ => rfl, ?_⟩
        intro hserving
        cases hserving
      · refine h.aside hns hne rfl ?_ rfl rfl rfl (.refl _)
        rintro _ ⟨⟩
        exact down_good hgood.k (.inl rfl)

theorem provisioning_gated (h : Gated config s) (hns : s.nodes i = .enabled ns)
    (hphase : ns.phase = .provisioning) : Gated config (provisioning s i ns t) := by
  have hgood := h.node i ns hns
  have hne : ns.phase ≠ .serving := by rw [hphase]; decide
  have hup : ns.phase.isUp := by rw [hphase]; rfl
  unfold provisioning
  split
  · refine h.aside hns hne rfl ?_ rfl rfl rfl (.refl _)
    rintro _ ⟨⟩
    exact down_good hgood.k (.inl rfl)
  · refine h.aside hns hne rfl ?_ rfl rfl rfl (poll_adds _ _)
    rintro _ ⟨⟩
    refine ⟨hgood.k, fun _ => hgood.turn hup, fun _ => rfl, fun hserving => ?_⟩
    dsimp only at hserving
    split at hserving
    · cases hserving
    · split at hserving <;> cases hserving

theorem verify_gated (h : Gated config s) (hns : s.nodes i = .enabled ns)
    (hphase : ns.phase = .verify) : Gated config (verify config s i ns t) := by
  have hgood := h.node i ns hns
  have hne : ns.phase ≠ .serving := by rw [hphase]; decide
  have hup : ns.phase.isUp := by rw [hphase]; rfl
  obtain ⟨bus, hbus⟩ := Option.isSome_iff_exists.mp (hgood.bus hup)
  simp only [verify, hbus, Option.isSome_some, if_true]
  split
  · refine h.aside hns hne rfl ?_ rfl rfl rfl (.refl _)
    rintro _ ⟨⟩
    exact down_good hgood.k (.inl rfl)
  · rename_i hpin
    refine enter_gated h hgood.k (hgood.turn hup)
      ⟨hgood.k, fun _ => hgood.turn hup, fun _ => rfl, fun _ hpinned => ?_⟩ rfl
    by_contra hother
    exact hpin ⟨hpinned, hother⟩

theorem serving_gated (h : Gated config s) (hns : s.nodes i = .enabled ns)
    (hphase : ns.phase = .serving) (hserve : serving config lua s i ns t = some s') :
    Gated config s' := by
  have hgood := h.node i ns hns
  have hup : ns.phase.isUp := by rw [hphase]; rfl
  obtain ⟨bus, hbus⟩ := Option.isSome_iff_exists.mp (hgood.bus hup)
  simp only [serving, hbus, Option.bind_eq_bind, Option.bind_eq_some_iff] at hserve
  obtain ⟨w, hw, hserve⟩ := hserve
  have hadds := served_adds hw
  split at hserve <;> cases hserve
  · refine h.moved rfl ?_ rfl ?_ rfl hadds
    · rintro _ ⟨⟩
    · intro j hj
      by_cases hji : j = i
      · subst hji
        simp [System.setNode] at hj
      · simp only [System.setNode, System.put, Function.update_of_ne hji] at hj
        exact ⟨hj, fun heq => absurd heq hji⟩
  · refine h.moved rfl ?_ rfl (fun j hj => ⟨hj, fun hji => ⟨_, rfl, hphase⟩⟩) rfl hadds
    rintro _ ⟨⟩
    exact ⟨hgood.k, fun _ => hgood.turn hup, fun _ => rfl, fun _ => hgood.pinned hphase⟩

end

theorem term_gated (h : Gated config s) (i : Fin n) : Gated config (DONGLE_TERM s i) := by
  refine h.moved rfl (fun ns hns => by cases hns) rfl (fun j hj => ?_) rfl ?_
  · by_cases hji : j = i
    · subst hji
      simp [DONGLE_TERM, System.setNode] at hj
    · simp only [DONGLE_TERM, System.setNode, Function.update_of_ne hji] at hj
      exact ⟨hj, fun heq => absurd heq hji⟩
  · refine ⟨_, rfl, ?_⟩
    simp [Event.IsLeaf, Event.dongle]

theorem gate_down_gated (h : Gated config s) : Gated config (BUS_GATE_DOWN s) := by
  have hadds : Adds (fun e => e = .gate_down ∨ ∃ reason, e = .operational false reason) s.log
      (BUS_GATE_DOWN s).log := by
    refine ⟨_, rfl, ?_⟩
    simp
  refine ⟨h.node, fun j hj => hadds.mem (h.served j hj), h.counted, ?_, fun _ => rfl, ?_⟩
  · refine hadds.past h.turns fun l e he i heq => ?_
    subst heq
    rcases he with he | ⟨reason, he⟩ <;> cases he
  · refine hadds.past h.down fun l e he reason heq => ?_
    subst heq
    rcases he with he | ⟨reason', he⟩ <;> cases he

/-- The whole system is operational when all dongles are counted and no gate is down. -/
theorem all_serve (h : Gated config s) (hcount : s.servingCount = n) (i : Fin n) :
    Serves config s i := by
  apply h.serves
  have hall : ∀ j ∈ List.finRange n, s.dongle_serving j = true := by
    apply List.countP_eq_length.mp
    rw [List.length_finRange]
    exact hcount
  exact hall i (List.mem_finRange i)

theorem publish_gated (h : Gated config s) : Gated config (publish_operational s) := by
  have hadds : Adds (fun e => ∃ op reason, e = .operational op reason) s.log
      (publish_operational s).log := by
    refine ⟨_, rfl, fun e he => ?_⟩
    exact ⟨_, _, List.mem_singleton.mp he⟩
  refine ⟨h.node, fun j hj => hadds.mem (h.served j hj), h.counted, ?_,
    fun hdown => h.latched (hadds.mem_of_mem hdown (by simp)), ?_⟩
  · refine hadds.past h.turns fun l e he i heq => ?_
    subst heq
    obtain ⟨op, reason, he⟩ := he
    cases he
  · refine Past.snoc h.down fun reason heq hdown => ?_
    have hop := (Event.operational.inj heq).1
    simp [h.latched hdown] at hop

theorem step_gated (h : Gated config s) {a : Step n} (hstep : step config lua s a = some s') :
    Gated config s' := by
  cases a with
  | enable i now =>
    cases hns : s.nodes i with
    | disabled =>
      simp only [step, hns, Option.some.injEq] at hstep
      subst hstep
      have hnot : s.dongle_serving i = false := by
        cases hi : s.dongle_serving i with
        | false => rfl
        | true =>
          obtain ⟨ns, hns', -⟩ := h.counted i hi
          rw [hns] at hns'
          cases hns'
      refine h.moved rfl ?_ rfl (fun j hj => ⟨hj, fun hji => ?_⟩) rfl (.refl _)
      · rintro _ ⟨⟩
        exact down_good rfl (.inr rfl)
      · subst hji
        exact absurd hj (by simp [DONGLE_BIND, System.setNode, hnot])
    | enabled ns => simp [step, hns] at hstep
    | failed ns => simp [step, hns] at hstep
  | tick i t =>
    cases hns : s.nodes i with
    | disabled => simp [step, hns] at hstep
    | failed ns => simp [step, hns] at hstep
    | enabled ns =>
      simp only [step, hns, DONGLE_SERVE] at hstep
      cases hphase : ns.phase with
      | wait_turn =>
        simp only [hphase, Option.some.injEq] at hstep
        exact hstep ▸ wait_turn_gated h hns hphase
      | provisioning =>
        simp only [hphase, Option.some.injEq] at hstep
        exact hstep ▸ provisioning_gated h hns hphase
      | verify =>
        simp only [hphase, Option.some.injEq] at hstep
        exact hstep ▸ verify_gated h hns hphase
      | fault =>
        simp only [hphase, Option.some.injEq] at hstep
        subst hstep
        have hne : ns.phase ≠ .serving := by rw [hphase]; decide
        refine h.aside hns hne rfl ?_ rfl rfl rfl (.refl _)
        rintro _ ⟨⟩
      | serving =>
        simp only [hphase] at hstep
        exact serving_gated h hns hphase hstep
  | disable i =>
    cases hns : s.nodes i with
    | disabled => simp [step, hns] at hstep
    | enabled ns =>
      simp only [step, hns, Option.some.injEq] at hstep
      exact hstep ▸ term_gated h i
    | failed ns =>
      simp only [step, hns, Option.some.injEq] at hstep
      exact hstep ▸ term_gated h i
  | gate_down =>
    cases hstep
    exact gate_down_gated h
  | publish =>
    cases hstep
    exact publish_gated h

/-! ## Every run -/

/-- The event does not say whether the system is operational. -/
def Event.IsOther : Event n → Prop
  | .operational _ _ => False
  | _ => True

theorem Event.IsLeaf.dongle_eq {e : Event n} (h : e.IsLeaf i) : e.dongle = some i := by
  cases e <;> first | exact h | exact absurd h id

/-- A tick of a dongle changes nothing of the others. -/
theorem serve_frame {t : Tick} (hserve : DONGLE_SERVE config lua s i ns t = some s') :
    (∀ j ≠ i, s'.nodes j = s.nodes j ∧ s'.rts j = s.rts j) ∧
      Adds (fun e => e.dongle = some i) s.log s'.log := by
  have hset : ∀ (node : Node) j, j ≠ i → Function.update s.nodes i node j = s.nodes j :=
    fun node j hne => Function.update_of_ne hne node s.nodes
  have hput : ∀ (rt : Runtime) j, j ≠ i → Function.update s.rts i rt j = s.rts j :=
    fun rt j hne => Function.update_of_ne hne rt s.rts
  unfold DONGLE_SERVE at hserve
  cases hphase : ns.phase with
  | wait_turn =>
    simp only [hphase, wait_turn, Option.some.injEq] at hserve
    split at hserve
    · exact hserve ▸ ⟨fun _ _ => ⟨rfl, rfl⟩, .refl _⟩
    · split at hserve
      · exact hserve ▸ ⟨fun _ _ => ⟨rfl, rfl⟩, .refl _⟩
      · split at hserve <;> subst hserve
        · exact ⟨fun j hne => ⟨hset _ j hne, rfl⟩, (Adds.refl _).snoc rfl⟩
        · exact ⟨fun j hne => ⟨hset _ j hne, rfl⟩, .refl _⟩
  | provisioning =>
    simp only [hphase, provisioning, Option.some.injEq] at hserve
    split at hserve <;> subst hserve
    · exact ⟨fun j hne => ⟨hset _ j hne, rfl⟩, .refl _⟩
    · exact ⟨fun j hne => ⟨hset _ j hne, hput _ j hne⟩,
        (poll_adds _ _).mono fun _ => Event.IsLeaf.dongle_eq⟩
  | verify =>
    simp only [hphase, verify, Option.some.injEq] at hserve
    generalize (if ns.bus.isSome = true then t.identity else none) = uid at hserve
    split at hserve <;> subst hserve
    · exact ⟨fun j hne => ⟨hset _ j hne, rfl⟩, .refl _⟩
    · refine ⟨fun j hne => ⟨hset _ j hne, hput _ j hne⟩, _, rfl, ?_⟩
      simp [Event.dongle]
  | fault =>
    simp only [hphase, Option.some.injEq] at hserve
    subst hserve
    exact ⟨fun j hne => ⟨hset _ j hne, rfl⟩, .refl _⟩
  | serving =>
    simp only [hphase, serving] at hserve
    split at hserve
    · cases hserve
      exact ⟨fun j hne => ⟨hset _ j hne, rfl⟩, .refl _⟩
    · simp only [Option.bind_eq_bind, Option.bind_eq_some_iff] at hserve
      obtain ⟨w, hw, hserve⟩ := hserve
      have hadds := (served_adds hw).mono fun _ => Event.IsLeaf.dongle_eq
      split at hserve <;> cases hserve <;>
        exact ⟨fun j hne => ⟨hset _ j hne, hput _ j hne⟩, hadds⟩

theorem serve_adds_other {t : Tick} (hserve : DONGLE_SERVE config lua s i ns t = some s') :
    Adds Event.IsOther s.log s'.log :=
  (serve_frame hserve).2.mono fun e he => by cases e <;> trivial

/-- What a step adds to the log, and that it is called operational only when all serve. -/
theorem step_operational (h : Gated config s) {a : Step n} (hstep : step config lua s a = some s') :
    ∃ new, s'.log = s.log ++ new ∧
      ∀ reason, .operational true reason ∈ new → ∀ i, Serves config s' i := by
  have hother : Adds Event.IsOther s.log s'.log → ∃ new, s'.log = s.log ++ new ∧
      ∀ reason, .operational true reason ∈ new → ∀ i, Serves config s' i := by
    rintro ⟨new, hlog, hnew⟩
    exact ⟨new, hlog, fun reason hmem => absurd (hnew _ hmem) id⟩
  cases a with
  | enable i now =>
    cases hns : s.nodes i <;> simp only [step, hns] at hstep <;> cases hstep
    exact hother (.refl _)
  | tick i t =>
    cases hns : s.nodes i <;> simp only [step, hns] at hstep
    · cases hstep
    · exact hother (serve_adds_other hstep)
    · cases hstep
  | disable i =>
    have hterm : Adds Event.IsOther s.log (DONGLE_TERM s i).log := by
      refine ⟨_, rfl, ?_⟩
      simp [Event.IsOther]
    cases hns : s.nodes i <;> simp only [step, hns] at hstep <;> cases hstep <;>
      exact hother hterm
  | gate_down =>
    cases hstep
    exact ⟨_, rfl, fun reason hmem => by simp at hmem⟩
  | publish =>
    cases hstep
    refine ⟨_, rfl, fun reason hmem i => ?_⟩
    have hop := (Event.operational.inj (List.mem_singleton.mp hmem)).1
    exact all_serve h (of_decide_eq_true hop.symm).2 i

/-- In every run of the supervisor a dongle opens its bus only behind those before it, the
system is called operational only while each dongle serves on its open bus with its own chip,
and it is not called operational again once the gate is down. -/
theorem gates_hold {acts : List (Step n)} {s : System n}
    (hrun : runs (step config lua) (.init n) acts = some s) :
    OpensInTurn s.log ∧ StaysDown s.log ∧ ∀ a s', step config lua s a = some s' →
      ∃ new, s'.log = s.log ++ new ∧
        ∀ reason, .operational true reason ∈ new → ∀ i, Serves config s' i := by
  have hgated : Gated config s :=
    inv_runs (P := fun _ _ => True) (fun _ _ _ h _ hstep => step_gated h hstep) init_gated
      (.of_forall (fun _ _ => trivial) _ _) hrun
  exact ⟨hgated.turns, hgated.down, fun a s' hstep => step_operational hgated hstep⟩

def quietTick : Tick := ⟨0, true, [], true, false, some "00c0ffee", [], fun _ => 1⟩

def pinned (_ : Fin 2) : Config := ⟨1, 0, some "00c0ffee"⟩

/-- Two dongles come up, one after the other. -/
def bringUp : List (Step 2) :=
  let a : Fin 2 := ⟨0, Nat.zero_lt_two⟩
  let b : Fin 2 := ⟨1, Nat.one_lt_two⟩
  [.enable a 0, .enable b 0, .tick b quietTick, .tick a quietTick, .tick a quietTick,
    .tick a quietTick, .tick b quietTick, .tick b quietTick, .tick b quietTick]

theorem two_dongles_serve : ∃ s s' reason,
    runs (step pinned integers) (.init 2) bringUp = some s ∧
      step pinned integers s .publish = some s' ∧ s'.log = s.log ++ [.operational true reason] ∧
      ∀ i, Serves pinned s' i := by
  obtain ⟨s, hrun⟩ : ∃ s, runs (step pinned integers) (.init 2) bringUp = some s := ⟨_, rfl⟩
  have hcount : (runs (step pinned integers) (.init 2) bringUp).map (fun s =>
      (s.bus_operational, s.servingCount)) = some (none, 2) := by decide +kernel
  rw [hrun] at hcount
  obtain ⟨hoper, hserving⟩ := Prod.mk.inj (Option.some.inj hcount)
  obtain ⟨new, hnew, hall⟩ := (gates_hold hrun).2.2 .publish (publish_operational s) rfl
  have hlog : (publish_operational s).log =
      s.log ++ [.operational true "all 2 dongle(s) serving"] := by
    have hevent : (Event.operational (decide ((¬ (none : Option Bool) = some false) ∧ 2 = 2))
        "all 2 dongle(s) serving" : Event 2) = .operational true "all 2 dongle(s) serving" := rfl
    simp only [publish_operational, System.note, hoper, hserving]
    exact congrArg (fun e => s.log ++ [e]) hevent
  refine ⟨s, _, _, hrun, rfl, hlog, hall "all 2 dongle(s) serving" ?_⟩
  rw [hlog] at hnew
  rw [← List.append_cancel_left hnew]
  exact List.mem_singleton_self _

end motioncore.bussup
