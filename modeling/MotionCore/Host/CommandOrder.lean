-- The order of the commands of the tracker: each accepted command is in one
-- place until it is done, is done once, and a slave gets its commands in the
-- order of their submits. First the law, then the invariant that carries it
-- and the rules that keep the invariant.
import Mathlib.Data.List.Nodup
import MotionCore.Host.State
import MotionCore.Lib.Trace

open motioncore.ring motioncore.trace

namespace motioncore.host

/-! ## What the log says about the commands -/

def acceptedOf (i : Fin SLOT_MAX) (log : List Ev) : List Nat :=
  log.filterMap fun e => match e with | .accepted j x => if j = i then some x else none | _ => none

/-- The handles whose completion callback ran for slot `i`. -/
def doneOf (i : Fin SLOT_MAX) (log : List Ev) : List Nat :=
  log.filterMap fun e =>
    match e with | .done j x _ _ _ => if j = i then some x else none | _ => none

def acceptedAll (log : List Ev) : List Nat :=
  log.filterMap fun e => match e with | .accepted _ x => some x | _ => none

def doneAll (log : List Ev) : List Nat :=
  log.filterMap fun e => match e with | .done _ x _ _ _ => some x | _ => none

/-- The handles that a slot holds: the one in flight, and then the queue. -/
def Slot.held (s : Slot) : List Nat :=
  (if s.has_inflight then [s.inflight.handle] else []) ++ s.q.contents.map (·.handle)

/-- Every place of the tracker that holds a command. -/
def places (h : Host) : List Nat := (List.finRange SLOT_MAX).flatMap fun i => (h.slots i).held

/-- A command goes on the wire only before it is done, and only when each earlier
command of its slave is done. -/
def OneAtATime (past : List Ev) : Ev → Prop
  | .request _ (.slot i) x _ =>
    x ∉ doneOf i past ∧ ∀ y ∈ acceptedOf i past, y < x → y ∈ doneOf i past
  | _ => True

structure TracksEachCommand (h : Host) : Prop where
  done_once : (doneAll h.log).Nodup
  done_gone : ∀ x ∈ doneAll h.log, x ∈ acceptedAll h.log ∧ x ∉ places h
  one_place : ∀ x ∈ acceptedAll h.log, x ∉ doneAll h.log → (places h).count x = 1
  in_order : ∀ i, acceptedOf i h.log = doneOf i h.log ++ (h.slots i).held
  one_at_a_time : Past OneAtATime h.log
  increasing : (acceptedAll h.log).Pairwise (· < ·)

section

variable {i j : Fin SLOT_MAX} {x : Nat} {a b : List Ev}

@[simp] theorem acceptedOf_append : acceptedOf i (a ++ b) = acceptedOf i a ++ acceptedOf i b :=
  List.filterMap_append

@[simp] theorem doneOf_append : doneOf i (a ++ b) = doneOf i a ++ doneOf i b :=
  List.filterMap_append

@[simp] theorem acceptedAll_append : acceptedAll (a ++ b) = acceptedAll a ++ acceptedAll b :=
  List.filterMap_append

@[simp] theorem doneAll_append : doneAll (a ++ b) = doneAll a ++ doneAll b :=
  List.filterMap_append

theorem acceptedOf_sublist (i : Fin SLOT_MAX) (log : List Ev) :
    (acceptedOf i log).Sublist (acceptedAll log) := by
  induction log with
  | nil => exact List.Sublist.refl _
  | cons e log ih =>
    cases e with
    | accepted j x =>
      by_cases hj : j = i
      · simpa [acceptedOf, acceptedAll, hj] using ih
      · simpa [acceptedOf, acceptedAll, hj] using ih.cons x
    | _ => exact ih

theorem mem_acceptedAll {log : List Ev} : x ∈ acceptedAll log ↔ ∃ i, x ∈ acceptedOf i log := by
  induction log with
  | nil => simp [acceptedAll, acceptedOf]
  | cons e log ih =>
    cases e with
    | accepted j y =>
      have hcons : ∀ i, x ∈ acceptedOf i (.accepted j y :: log) ↔
          (j = i ∧ x = y) ∨ x ∈ acceptedOf i log := by
        intro i
        by_cases hj : j = i <;> simp [acceptedOf, hj]
      simp only [hcons, exists_or]
      rw [← ih]
      simp [acceptedAll]
    | _ => exact ih

theorem mem_doneAll {log : List Ev} : x ∈ doneAll log ↔ ∃ i, x ∈ doneOf i log := by
  induction log with
  | nil => simp [doneAll, doneOf]
  | cons e log ih =>
    cases e with
    | done j y st c t =>
      have hcons : ∀ i, x ∈ doneOf i (.done j y st c t :: log) ↔
          (j = i ∧ x = y) ∨ x ∈ doneOf i log := by
        intro i
        by_cases hj : j = i <;> simp [doneOf, hj]
      simp only [hcons, exists_or]
      rw [← ih]
      simp [doneAll]
    | _ => exact ih

end

/-! ## The invariant -/

/-- The invariant, on the parts of the host that it reads. -/
structure OrderedOn (slots : Fin SLOT_MAX → Slot) (next_handle : Nat) (log : List Ev) : Prop where
  account : ∀ i, acceptedOf i log = doneOf i log ++ (slots i).held
  fresh : ∀ x ∈ acceptedAll log, x < next_handle
  increasing : (acceptedAll log).Pairwise (· < ·)
  one_at_a_time : Past OneAtATime log
  busy : ∀ i, (slots i).has_inflight = true ↔ (slots i).state ≠ .idle
  unused : ∀ i, (slots i).in_use = false → (slots i).held = []

def Ordered (h : Host) : Prop := OrderedOn h.slots h.next_handle h.log

/-- Events that are nothing but transmits of the command `x` of slot `i`. -/
def Carries (i : Fin SLOT_MAX) (x : Nat) : Ev → Prop
  | .request _ cb y _ => ∀ j, cb = .slot j → j = i ∧ y = x
  | .queued _ => True
  | .resolved .. => True
  | .provReset => True
  | .acked .. => True
  | .cleared _ => True
  | _ => False

variable {i : Fin SLOT_MAX} {x : Nat} {new : List Ev}

theorem carries_accepted (h : ∀ e ∈ new, Carries i x e) : acceptedAll new = [] := by
  apply List.filterMap_eq_nil_iff.mpr
  intro e he
  cases e with
  | accepted => exact absurd (h _ he) id
  | _ => rfl

theorem carries_acceptedOf (h : ∀ e ∈ new, Carries i x e) (j : Fin SLOT_MAX) :
    acceptedOf j new = [] := by
  apply List.filterMap_eq_nil_iff.mpr
  intro e he
  cases e with
  | accepted => exact absurd (h _ he) id
  | _ => rfl

theorem carries_doneOf (h : ∀ e ∈ new, Carries i x e) (j : Fin SLOT_MAX) : doneOf j new = [] := by
  apply List.filterMap_eq_nil_iff.mpr
  intro e he
  cases e with
  | done => exact absurd (h _ he) id
  | _ => rfl

/-- Of a list in increasing order, what comes before `x` is smaller, and no other. -/
theorem mem_of_lt_split {l m : List Nat} {y : Nat} (hs : (l ++ x :: m).Pairwise (· < ·))
    (hy : y ∈ l ++ x :: m) (hlt : y < x) : y ∈ l := by
  rw [List.pairwise_append] at hs
  obtain ⟨-, hxm, -⟩ := hs
  rw [List.pairwise_cons] at hxm
  rcases List.mem_append.mp hy with h | h
  · exact h
  · rcases List.mem_cons.mp h with rfl | h
    · exact absurd hlt (Nat.lt_irrefl _)
    · exact absurd hlt (Nat.lt_asymm (hxm.1 y h))

variable {slots : Fin SLOT_MAX → Slot} {n : Nat} {log : List Ev}

/-- Transmits of a command whose turn it is, and a change of the slots that
moves no command, keep the invariant. -/
theorem OrderedOn.carry {slots' : Fin SLOT_MAX → Slot} (h : OrderedOn slots n log)
    (hturn : (∃ s f, .request s (.slot i) x f ∈ new) → ∃ rest,
      acceptedOf i log = doneOf i log ++ x :: rest)
    (hnew : ∀ e ∈ new, Carries i x e) (hheld : ∀ j, (slots' j).held = (slots j).held)
    (hbusy : ∀ j, (slots' j).has_inflight = true ↔ (slots' j).state ≠ .idle)
    (huse : ∀ j, (slots' j).in_use = false → (slots j).in_use = false) :
    OrderedOn slots' n (log ++ new) where
  account := by
    intro j
    rw [acceptedOf_append, doneOf_append, carries_acceptedOf hnew, carries_doneOf hnew, hheld]
    simpa using h.account j
  fresh := by simpa [carries_accepted hnew] using h.fresh
  increasing := by simpa [carries_accepted hnew] using h.increasing
  one_at_a_time := by
    apply h.one_at_a_time.append
    rintro l e l' rfl
    have hl : ∀ e ∈ l, Carries i x e := fun e he => hnew e (by simp [he])
    have he := hnew e (by simp)
    cases e with
    | request s cb y f =>
      cases cb with
      | slot j =>
        obtain ⟨rfl, rfl⟩ := he j rfl
        obtain ⟨rest, hrest⟩ := hturn ⟨s, f, by simp⟩
        have hsorted : (doneOf j log ++ y :: rest).Pairwise (· < ·) := by
          rw [← hrest]
          exact h.increasing.sublist (acceptedOf_sublist _ _)
        show y ∉ doneOf j (log ++ l) ∧
          ∀ z ∈ acceptedOf j (log ++ l), z < y → z ∈ doneOf j (log ++ l)
        rw [acceptedOf_append, doneOf_append, carries_acceptedOf hl, carries_doneOf hl,
          List.append_nil, List.append_nil, hrest]
        refine ⟨?_, fun z hz hlt => mem_of_lt_split hsorted hz hlt⟩
        intro hdone
        rw [List.pairwise_append] at hsorted
        exact absurd (hsorted.2.2 y hdone y (by simp)) (Nat.lt_irrefl _)
      | _ => trivial
    | _ => trivial
  busy := hbusy
  unused := by
    intro j hj
    rw [hheld]
    exact h.unused j (huse j hj)

/-- Events that are about no command of the tracker, but for its ACK. -/
def Quiet (e : Ev) : Prop :=
  match e with
  | .request _ cb _ _ => ∀ j, cb ≠ .slot j
  | .accepted .. => False
  | .done .. => False
  | _ => True

theorem Quiet.carries {e : Ev} (h : Quiet e) (i : Fin SLOT_MAX) (x : Nat) : Carries i x e := by
  cases e with
  | request s cb y f => exact fun j hj => absurd hj (h j)
  | accepted => exact h
  | done => exact h
  | _ => trivial

theorem OrderedOn.quiet {slots' : Fin SLOT_MAX → Slot} (h : OrderedOn slots n log)
    (hnew : ∀ e ∈ new, Quiet e) (hheld : ∀ j, (slots' j).held = (slots j).held)
    (hbusy : ∀ j, (slots' j).has_inflight = true ↔ (slots' j).state ≠ .idle)
    (huse : ∀ j, (slots' j).in_use = false → (slots j).in_use = false) :
    OrderedOn slots' n (log ++ new) := by
  refine h.carry (i := 0) (x := 0) ?_ (fun e he => (hnew e he).carries 0 0) hheld hbusy huse
  rintro ⟨s, f, hf⟩
  exact absurd rfl (hnew _ hf 0)

variable {h : Host}

theorem Ordered.note (ho : Ordered h) {e : Ev} (he : Quiet e) : Ordered (h.note e) := by
  refine OrderedOn.quiet ho ?_ (fun _ => rfl) ho.busy (fun _ h => h)
  rintro e' he'
  rwa [List.mem_singleton.mp he']

variable {s : Slot}

theorem forall_update {P : Fin SLOT_MAX → Slot → Prop} (hi : P i s)
    (hj : ∀ j, j ≠ i → P j (slots j)) (j : Fin SLOT_MAX) : P j (Function.update slots i s j) := by
  by_cases h : j = i
  · subst h
    rwa [Function.update_self]
  · rw [Function.update_of_ne h]
    exact hj j h


/-- A transmit of the command whose turn it is, with a change of its slot that
moves no command. -/
theorem OrderedOn.transmit (h : OrderedOn slots n log)
    (hturn : (∃ s f, .request s (.slot i) x f ∈ new) → ∃ rest, (slots i).held = x :: rest)
    (hnew : ∀ e ∈ new, Carries i x e) (hheld : s.held = (slots i).held)
    (hbusy : s.has_inflight = true ↔ s.state ≠ .idle)
    (huse : s.in_use = false → (slots i).in_use = false) :
    OrderedOn (Function.update slots i s) n (log ++ new) := by
  refine h.carry ?_ hnew ?_ ?_ ?_
  · intro hsent
    obtain ⟨rest, hrest⟩ := hturn hsent
    exact ⟨rest, by rw [h.account i, hrest]⟩
  · exact forall_update (P := fun j s => s.held = (slots j).held) hheld fun _ _ => rfl
  · exact forall_update (P := fun _ s => s.has_inflight = true ↔ s.state ≠ .idle) hbusy
      fun j _ => h.busy j
  · exact forall_update (P := fun j s => s.in_use = false → (slots j).in_use = false) huse
      fun _ _ => id

theorem OrderedOn.clear (h : OrderedOn slots n log) (hheld : (slots i).held = []) :
    OrderedOn (Function.update slots i .cleared) n log where
  account := by
    refine forall_update (P := fun j s => acceptedOf j log = doneOf j log ++ s.held) ?_
      fun j _ => h.account j
    rw [h.account i, hheld]
    rfl
  fresh := h.fresh
  increasing := h.increasing
  one_at_a_time := h.one_at_a_time
  busy := forall_update (P := fun _ s => s.has_inflight = true ↔ s.state ≠ .idle)
    (by simp [Slot.cleared]) fun j _ => h.busy j
  unused := forall_update (P := fun _ s => s.in_use = false → s.held = []) (fun _ => rfl)
    fun j _ => h.unused j

theorem OrderedOn.accept (h : OrderedOn slots n log) (huse : s.in_use = true)
    (hheld : s.held = (slots i).held ++ [n]) (hbusy : s.has_inflight = true ↔ s.state ≠ .idle) :
    OrderedOn (Function.update slots i s) (n + 1) (log ++ [.accepted i n]) where
  account := by
    refine forall_update (P := fun j s => acceptedOf j (log ++ [.accepted i n]) =
      doneOf j (log ++ [.accepted i n]) ++ s.held) ?_ ?_
    · rw [hheld, acceptedOf_append, doneOf_append, h.account i]
      simp [acceptedOf, doneOf]
    · intro j hj
      rw [acceptedOf_append, doneOf_append, h.account j]
      simp [acceptedOf, doneOf, Ne.symm hj]
  fresh := by
    intro x hx
    rw [acceptedAll_append] at hx
    rcases List.mem_append.mp hx with hx | hx
    · exact Nat.lt_succ_of_lt (h.fresh x hx)
    · have hx : x = n := by simpa [acceptedAll] using hx
      omega
  increasing := by
    rw [acceptedAll_append, List.pairwise_append]
    refine ⟨h.increasing, List.pairwise_singleton _ _, ?_⟩
    intro x hx y hy
    have hy : y = n := by simpa [acceptedAll] using hy
    rw [hy]
    exact h.fresh x hx
  one_at_a_time := h.one_at_a_time.snoc trivial
  busy := forall_update (P := fun _ s => s.has_inflight = true ↔ s.state ≠ .idle) hbusy
    fun j _ => h.busy j
  unused := by
    refine forall_update (P := fun _ s => s.in_use = false → s.held = []) ?_ fun j _ => h.unused j
    intro hfalse
    rw [huse] at hfalse
    exact absurd hfalse Bool.noConfusion

theorem OrderedOn.finish (h : OrderedOn slots n log) (hheld : (slots i).held = x :: s.held)
    (hidle : s.has_inflight = true ↔ s.state ≠ .idle) (huse : s.in_use = (slots i).in_use)
    (status : UInt8) (cause : Cause) (t : Nat) :
    OrderedOn (Function.update slots i s) n (log ++ [.done i x status cause t]) where
  account := by
    refine forall_update (P := fun j s => acceptedOf j (log ++ [.done i x status cause t]) =
      doneOf j (log ++ [.done i x status cause t]) ++ s.held) ?_ ?_
    · rw [acceptedOf_append, doneOf_append, h.account i, hheld]
      simp [acceptedOf, doneOf]
    · intro j hj
      rw [acceptedOf_append, doneOf_append, h.account j]
      simp [acceptedOf, doneOf, Ne.symm hj]
  fresh := by simpa [acceptedAll] using h.fresh
  increasing := by simpa [acceptedAll] using h.increasing
  one_at_a_time := h.one_at_a_time.snoc trivial
  busy := forall_update (P := fun _ s => s.has_inflight = true ↔ s.state ≠ .idle) hidle
    fun j _ => h.busy j
  unused := by
    refine forall_update (P := fun _ s => s.in_use = false → s.held = []) ?_ fun j _ => h.unused j
    intro hfalse
    have hnil := h.unused i (huse ▸ hfalse)
    rw [hheld] at hnil
    exact absurd hnil (List.cons_ne_nil _ _)

theorem Ordered.setSlot (ho : Ordered h) (hheld : s.held = (h.slots i).held)
    (hbusy : s.has_inflight = true ↔ s.state ≠ .idle)
    (huse : s.in_use = false → (h.slots i).in_use = false) : Ordered (h.setSlot i s) := by
  have hq : OrderedOn (Function.update h.slots i s) h.next_handle (h.log ++ []) := by
    refine OrderedOn.quiet ho (by simp) ?_ ?_ ?_
    · exact forall_update (P := fun j s => s.held = (h.slots j).held) hheld fun _ _ => rfl
    · exact forall_update (P := fun _ s => s.has_inflight = true ↔ s.state ≠ .idle) hbusy
        fun j _ => ho.busy j
    · exact forall_update (P := fun j s => s.in_use = false → (h.slots j).in_use = false) huse
        fun _ _ => id
  rwa [List.append_nil] at hq

/-! ## From the invariant to the law -/

theorem acceptedOf_inj (h : (acceptedAll log).Nodup) {j : Fin SLOT_MAX} (hi : x ∈ acceptedOf i log)
    (hj : x ∈ acceptedOf j log) : i = j := by
  induction log with
  | nil => exact absurd hi List.not_mem_nil
  | cons e log ih =>
    cases e with
    | accepted k y =>
      have hcons : ∀ i, x ∈ acceptedOf i (.accepted k y :: log) →
          (k = i ∧ x = y) ∨ x ∈ acceptedOf i log := by
        intro i hx
        by_cases hk : k = i
        · simpa [acceptedOf, hk] using hx
        · simpa [acceptedOf, hk] using hx
      have hnd : y ∉ acceptedAll log ∧ (acceptedAll log).Nodup := List.nodup_cons.mp h
      rcases hcons i hi with ⟨rfl, rfl⟩ | hi
      · rcases hcons j hj with ⟨rfl, -⟩ | hj
        · rfl
        · exact absurd (mem_acceptedAll.mpr ⟨j, hj⟩) hnd.1
      · rcases hcons j hj with ⟨rfl, hx⟩ | hj
        · rw [← hx] at hnd
          exact absurd (mem_acceptedAll.mpr ⟨i, hi⟩) hnd.1
        · exact ih hnd.2 hi hj
    | _ => exact ih h hi hj

theorem doneAll_nodup (hnd : ∀ i, (doneOf i log).Nodup)
    (hinj : ∀ i j x, x ∈ doneOf i log → x ∈ doneOf j log → i = j) : (doneAll log).Nodup := by
  induction log with
  | nil => exact List.nodup_nil
  | cons e log ih =>
    cases e with
    | done k y st c t =>
      have hcons : ∀ i, doneOf i (.done k y st c t :: log) =
          if k = i then y :: doneOf i log else doneOf i log := by
        intro i
        by_cases hk : k = i <;> simp [doneOf, hk]
      have hmem : ∀ i x, x ∈ doneOf i log → x ∈ doneOf i (.done k y st c t :: log) := by
        intro i x hx
        rw [hcons]
        split
        · exact List.mem_cons_of_mem _ hx
        · exact hx
      have hk : y ∈ doneOf k (.done k y st c t :: log) := by simp [hcons]
      refine List.nodup_cons.mpr ⟨?_, ih ?_ ?_⟩
      · intro hy
        obtain ⟨i, hi⟩ := mem_doneAll.mp hy
        obtain rfl := hinj k i y hk (hmem i y hi)
        have := hnd k
        rw [hcons, if_pos rfl] at this
        exact (List.nodup_cons.mp this).1 hi
      · intro i
        have := hnd i
        rw [hcons] at this
        split at this
        · exact (List.nodup_cons.mp this).2
        · exact this
      · exact fun i j x hi hj => hinj i j x (hmem i x hi) (hmem j x hj)
    | _ => exact ih hnd hinj

theorem mem_places : x ∈ places h ↔ ∃ i, x ∈ (h.slots i).held := by
  simp [places]

theorem Ordered.tracks (ho : Ordered h) : TracksEachCommand h := by
  have hall : (acceptedAll h.log).Nodup := ho.increasing.imp fun hlt => Nat.ne_of_lt hlt
  have hnd : ∀ i, (doneOf i h.log ++ (h.slots i).held).Nodup := by
    intro i
    rw [← ho.account i]
    exact hall.sublist (acceptedOf_sublist i h.log)
  have hdone : ∀ i x, x ∈ doneOf i h.log → x ∈ acceptedOf i h.log := by
    intro i x hx
    rw [ho.account i]
    exact List.mem_append_left _ hx
  have hheld : ∀ i x, x ∈ (h.slots i).held → x ∈ acceptedOf i h.log := by
    intro i x hx
    rw [ho.account i]
    exact List.mem_append_right _ hx
  have hplaces : (places h).Nodup := by
    refine List.nodup_flatMap.mpr ⟨fun i _ => (List.nodup_append.mp (hnd i)).2.1, ?_⟩
    refine (List.nodup_finRange SLOT_MAX).imp ?_
    intro i j hij x hi hj
    exact hij (acceptedOf_inj hall (hheld i x hi) (hheld j x hj))
  refine ⟨?_, ?_, ?_, ho.account, ho.one_at_a_time, ho.increasing⟩
  · refine doneAll_nodup (fun i => (List.nodup_append.mp (hnd i)).1) ?_
    exact fun i j x hi hj => acceptedOf_inj hall (hdone i x hi) (hdone j x hj)
  · intro x hx
    obtain ⟨i, hi⟩ := mem_doneAll.mp hx
    refine ⟨mem_acceptedAll.mpr ⟨i, hdone i x hi⟩, ?_⟩
    intro hp
    obtain ⟨j, hj⟩ := mem_places.mp hp
    obtain rfl := acceptedOf_inj hall (hdone i x hi) (hheld j x hj)
    exact (List.nodup_append.mp (hnd i)).2.2 x hi x hj rfl
  · intro x hx hnot
    obtain ⟨i, hi⟩ := mem_acceptedAll.mp hx
    rw [ho.account i] at hi
    rcases List.mem_append.mp hi with hi | hi
    · exact absurd (mem_doneAll.mpr ⟨i, hi⟩) hnot
    · exact List.count_eq_one_of_mem hplaces (mem_places.mpr ⟨i, hi⟩)

end motioncore.host
