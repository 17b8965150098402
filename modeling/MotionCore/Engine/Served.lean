-- What a spawning node owes its child. A watcher reads the history of the node and stops at
-- the first entry that is not lawful. The node keeps to it as long as its child answers only
-- with PIPELINE_CONTINUE until it completes, and as long as no reset hits a live child.
import MotionCore.Engine.Spawn

namespace motioncore.spawn

open engine engine.EventType machine

variable {σ : Type}

/-! ## The lawful histories -/

/-- Where the node is in its history. -/
inductive Phase where
  | idle
  /-- INIT: the child is created. -/
  | entering
  /-- The new child gets its first tick. -/
  | created
  | starting
  /-- TICK: the child gets the tick. -/
  | owed (event_id event_data : Nat)
  | serving
  | terminating
deriving DecidableEq, Repr

/-- A live child as the watcher knows it: the events queued to it that it has not received,
and its last answer. -/
structure Ward where
  number : Nat
  pending : List QueuedEvent
  answer : Option Result
deriving DecidableEq, Repr

structure Watch where
  phase : Phase
  child : Option Ward
  parent : List QueuedEvent
  next : Nat
deriving DecidableEq, Repr

def Watch.start : Watch := ⟨.idle, none, [], 0⟩

/-- The codes that end a tree. -/
def completes (r : Result) : Bool := r.code = .TERMINATE || r.code = .DISABLE

def Ward.completed (c : Ward) : Bool := c.answer.any completes

/-- A tick of the child is lawful as the first one, as the tick that it is owed, or as the
oldest event of a queue. -/
def Watch.tick (w : Watch) (c : Ward) (source : Source) (e : QueuedEvent) : Option (Watch × Ward) :=
  match source with
  | .start => if w.phase = .created then some ({ w with phase := .starting }, c) else none
  | .tick =>
    if w.phase = .owed e.event_id e.event_data then some ({ w with phase := .serving }, c) else none
  | .own =>
    if w.phase = .starting ∨ w.phase = .serving then
      match c.pending with
      | e' :: rest => if e' = e then some (w, { c with pending := rest }) else none
      | [] => none
    else none
  | .parent =>
    if w.phase = .serving then
      match w.parent with
      | e' :: rest => if e' = e then some ({ w with parent := rest }, c) else none
      | [] => none
    else none

/-- One entry of a lawful history. -/
def Watch.step (w : Watch) : Entry → Option Watch
  | .init => if w.phase = .idle ∧ w.child = none then some { w with phase := .entering } else none
  | .created k =>
    if w.phase = .entering ∧ w.child = none ∧ w.next ≤ k then
      some { w with phase := .created, child := some ⟨k, [], none⟩, next := k + 1 }
    else none
  | .entered =>
    if w.phase = .starting ∧ w.child.all (fun c => c.pending = [] || c.completed) then
      some { w with phase := .idle }
    else none
  | .tick event_id event_data =>
    if w.phase = .idle then
      some { w with phase := if w.child = none then .serving else .owed event_id event_data }
    else none
  | .ticked k source e r =>
    match w.child with
    | some c =>
      if c.number = k then (w.tick c source e).map
        fun (w, c) => { w with child := some { c with answer := some r } }
      else none
    | none => none
  | .queued k e =>
    match w.child with
    | some c =>
      if c.number = k then some { w with child := some { c with pending := c.pending ++ [e] } }
      else none
    | none => none
  | .queuedToParent e => some { w with parent := w.parent ++ [e] }
  | .returned =>
    if w.phase = .serving ∧ w.child.all (fun c => c.pending = [] && w.parent = []) then
      some { w with phase := .idle }
    else none
  | .terminate =>
    if w.phase = .idle then
      some { w with phase := if w.child = none then .idle else .terminating }
    else none
  | .freed k =>
    match w.child with
    | some c =>
      if c.number = k then
        if w.phase = .terminating then some { w with phase := .idle, child := none }
        else if w.phase = .serving ∧ c.completed then some { w with child := none }
        else none
      else none
    | none => none

/-- The child is created once at INIT and only there, gets every tick, and every event in
order, and is freed once, after it completed or at TERMINATE. -/
def Lawful (log : List Entry) : Prop := ∃ w, runs Watch.step .start log = some w

instance (log : List Entry) : Decidable (Lawful log) :=
  decidable_of_iff ((runs Watch.step .start log).isSome) Option.isSome_iff_exists

/-- The answers under which the node serves its child. -/
def Allowed (r : Result) : Prop := r = SE_PIPELINE_CONTINUE ∨ completes r = true

def Answers (log : List Entry) : Prop :=
  ∀ k source e r, Entry.ticked k source e r ∈ log → Allowed r

variable {log : List Entry}

theorem Answers.of_isPrefix {log' : List Entry} (h : log <+: log') (ha : Answers log') :
    Answers log :=
  fun k source e r hr => ha k source e r (h.subset hr)

/-! ## What the watcher knows -/

/-- As long as the child answers as it should, the history is lawful, and the watcher is in a
state with the property. -/
def Watched (log : List Entry) (P : Watch → Prop) : Prop :=
  Answers log → ∃ w, runs Watch.step .start log = some w ∧ P w

theorem Watched.mono {P Q : Watch → Prop} (h : Watched log P) (hPQ : Answers log → ∀ w, P w → Q w) :
    Watched log Q := by
  intro ha
  obtain ⟨w, hw, hP⟩ := h ha
  exact ⟨w, hw, hPQ ha w hP⟩

variable {e : Entry}

theorem Watched.entry {P Q : Watch → Prop} (h : Watched log P)
    (hstep : Answers (log ++ [e]) → ∀ w, P w → ∃ w', w.step e = some w' ∧ Q w') :
    Watched (log ++ [e]) Q := by
  intro ha
  obtain ⟨w, hw, hP⟩ := h (ha.of_isPrefix (List.prefix_append _ _))
  obtain ⟨w', hw', hQ⟩ := hstep ha w hP
  refine ⟨w', ?_, hQ⟩
  rw [runs_append, hw, Option.bind_some, runs_cons, hw']
  rfl

/-- The watcher sees the live child and the queues as they are. -/
structure Shows (phase : Phase) (answer : Option Result) (c : Child σ) (s : Spawner σ)
    (w : Watch) : Prop where
  phase : w.phase = phase
  child : w.child = some ⟨c.number, c.queue, answer⟩
  parent : w.parent = s.queue
  next : w.next ≤ s.attempts

/-- Events are queued, and nothing else happens to the child and the node. -/
structure Queues (c : Child σ) (s : Spawner σ) (c' : Child σ) (s' : Spawner σ) : Prop where
  grows : s.log <+: s'.log
  number : c'.number = c.number
  tick_type : c'.tick_type = c.tick_type
  slot : s'.slot = s.slot
  node : s'.node = s.node
  attempts : s'.attempts = s.attempts

theorem Queues.refl (c : Child σ) (s : Spawner σ) : Queues c s c s :=
  ⟨List.prefix_rfl, rfl, rfl, rfl, rfl, rfl⟩

theorem Queues.trans {c c₁ c₂ : Child σ} {s s₁ s₂ : Spawner σ} (h : Queues c s c₁ s₁)
    (h' : Queues c₁ s₁ c₂ s₂) : Queues c s c₂ s₂ where
  grows := h.grows.trans h'.grows
  number := h'.number.trans h.number
  tick_type := h'.tick_type.trans h.tick_type
  slot := h'.slot.trans h.slot
  node := h'.node.trans h.node
  attempts := h'.attempts.trans h.attempts

section

variable (phase : Phase) (answer : Option Result) {c c' : Child σ} {s s' : Spawner σ}

theorem pushToChild_queues (e : QueuedEvent)
    (hpush : pushToChild e c s = (c', s')) : Queues c s c' s' ∧
      (Watched s.log (Shows phase answer c s) → Watched s'.log (Shows phase answer c' s')) := by
  unfold pushToChild at hpush
  split at hpush
  · cases hpush
    refine ⟨⟨List.prefix_append _ _, rfl, rfl, rfl, rfl, rfl⟩, fun h => h.entry fun _ w hw => ?_⟩
    refine ⟨{ w with child := some ⟨c.number, c.queue ++ [e], answer⟩ }, ?_, hw.phase, rfl,
      hw.parent, hw.next⟩
    simp [Watch.step, hw.child]
  · cases hpush
    exact ⟨.refl c s, id⟩

theorem pushAllToChild_queues (es : List QueuedEvent)
    (hpush : pushAllToChild es c s = (c', s')) : Queues c s c' s' ∧
      (Watched s.log (Shows phase answer c s) → Watched s'.log (Shows phase answer c' s')) := by
  induction es generalizing c s with
  | nil =>
    cases hpush
    exact ⟨.refl _ _, id⟩
  | cons e es ih =>
    simp only [pushAllToChild] at hpush
    obtain ⟨hfirst, hwfirst⟩ := pushToChild_queues phase answer e (rfl : pushToChild e c s = (_, _))
    obtain ⟨hrest, hwrest⟩ := ih hpush
    exact ⟨hfirst.trans hrest, hwrest ∘ hwfirst⟩

theorem pushToParent_queues (e : QueuedEvent) (c : Child σ) (s : Spawner σ) : Queues c s c (pushToParent e s) ∧
    (Watched s.log (Shows phase answer c s) →
      Watched (pushToParent e s).log (Shows phase answer c (pushToParent e s))) := by
  unfold pushToParent
  split
  · refine ⟨⟨List.prefix_append _ _, rfl, rfl, rfl, rfl, rfl⟩, fun h => h.entry fun _ w hw => ?_⟩
    refine ⟨_, rfl, hw.phase, hw.child, ?_, hw.next⟩
    simp [Spawner.record, hw.parent]
  · exact ⟨.refl c s, id⟩

theorem pushAllToParent_queues (es : List QueuedEvent) (c : Child σ) (s : Spawner σ) :
    Queues c s c (pushAllToParent es s) ∧
    (Watched s.log (Shows phase answer c s) →
      Watched (pushAllToParent es s).log (Shows phase answer c (pushAllToParent es s))) := by
  induction es generalizing s with
  | nil => exact ⟨.refl c s, id⟩
  | cons e es ih =>
    obtain ⟨hfirst, hwfirst⟩ := pushToParent_queues phase answer e c s
    obtain ⟨hrest, hwrest⟩ := ih (pushToParent e s)
    exact ⟨hfirst.trans hrest, hwrest ∘ hwfirst⟩

end

section

variable {m : Module σ} {phase : Phase} {source : Source} {event_id event_data : Nat}
variable {c c' : Child σ} {s s' : Spawner σ} {r : Result}

theorem node_tick_shows
    (hrun : s_expr_node_tick m source event_id event_data c s = some (r, c', s'))
    (h : Watched s.log fun w => ∀ r, ∃ w',
      w.step (.ticked c.number source ⟨c.tick_type, event_id, event_data⟩ r) = some w' ∧
        Shows phase (some r) c s w') :
    Queues c s c' s' ∧ Watched s'.log fun w => Allowed r ∧ Shows phase (some r) c' s' w := by
  simp only [s_expr_node_tick, Option.bind_eq_bind, Option.bind_eq_some_iff] at hrun
  obtain ⟨⟨r', state, own, up⟩, -, hrun⟩ := hrun
  let ticked : Entry := .ticked c.number source ⟨c.tick_type, event_id, event_data⟩ r'
  obtain ⟨c₁, s₁, hown⟩ : ∃ c₁ s₁,
      pushAllToChild own { c with state := state } (s.record ticked) = (c₁, s₁) := ⟨_, _, rfl⟩
  simp only [ticked] at hown
  simp only [hown, Option.pure_def, Option.some.injEq, Prod.mk.injEq] at hrun
  obtain ⟨rfl, rfl, rfl⟩ := hrun
  have hticked : Watched (s.record ticked).log (Shows phase (some r') c (s.record ticked)) := by
    refine h.entry fun _ w hw => ?_
    obtain ⟨w', hw', hshows⟩ := hw r'
    exact ⟨w', hw', hshows.phase, hshows.child, hshows.parent, hshows.next⟩
  obtain ⟨hqown, hwown⟩ := pushAllToChild_queues phase (some r') own hown
  obtain ⟨hqup, hwup⟩ := pushAllToParent_queues phase (some r') up c₁ s₁
  have hqueues := hqown.trans hqup
  have hgrows : s.log <+: (s.record ticked).log := List.prefix_append _ _
  refine ⟨⟨hgrows.trans hqueues.grows, hqueues.number, hqueues.tick_type, hqueues.slot,
    hqueues.node, hqueues.attempts⟩, ?_⟩
  refine (hwup (hwown (hticked.mono fun _ w hw => ?_))).mono fun ha w hw => ⟨?_, hw⟩
  · exact ⟨hw.phase, hw.child, hw.parent, hw.next⟩
  · refine (ha.of_isPrefix hqueues.grows) c.number source
      ⟨c.tick_type, event_id, event_data⟩ r' ?_
    exact List.mem_append_right _ (List.mem_singleton_self _)

/-- The child has answered `result` last, or it has received all its events. -/
def Settled (result last : Result) (c : Child σ) : Prop :=
  if result_is_complete result then last = result else c.queue = []

theorem drain_own_shows {fuel : Nat} {result : Result}
    (hphase : phase = .starting ∨ phase = .serving)
    (hrun : drain_own m fuel result c s = some (r, c', s'))
    (h : Watched s.log fun w => ∃ last, Allowed last ∧ Shows phase (some last) c s w ∧
      (result_is_complete result = true → last = result)) :
    Queues c s c' s' ∧ Watched s'.log fun w => ∃ last, Allowed last ∧
      Shows phase (some last) c' s' w ∧ Settled r last c' := by
  induction fuel generalizing c s with
  | zero => cases hrun
  | succ fuel ih =>
    unfold drain_own at hrun
    split at hrun
    · rename_i hempty
      cases hrun
      refine ⟨.refl _ _, h.mono fun _ w ⟨last, hlast, hw, hres⟩ => ⟨last, hlast, hw, ?_⟩⟩
      unfold Settled
      split
      · rename_i hcomplete
        exact hres hcomplete
      · exact hempty
    · rename_i e rest hqueue
      split at hrun
      · rename_i hcomplete
        cases hrun
        refine ⟨.refl _ _, h.mono fun _ w ⟨last, hlast, hw, hres⟩ => ⟨last, hlast, hw, ?_⟩⟩
        rw [Settled, if_pos hcomplete]
        exact hres hcomplete
      · simp only [Option.bind_eq_bind, Option.bind_eq_some_iff] at hrun
        obtain ⟨⟨event_result, c₁, s₁⟩, htick, hrun⟩ := hrun
        -- the watcher has the same event at the head of its own list
        have hpop : Watched s.log fun w => ∀ r, ∃ w', w.step (.ticked c.number .own e r) = some w' ∧
            Shows phase (some r) { c with queue := rest, tick_type := e.tick_type } s w' := by
          refine h.mono fun _ w ⟨last, _, hw, _⟩ r => ?_
          refine ⟨{ w with child := some ⟨c.number, rest, some r⟩ }, ?_, hw.phase, rfl, hw.parent,
            hw.next⟩
          rw [← hw.phase] at hphase
          simp [Watch.step, Watch.tick, hw.child, hqueue, hphase]
        obtain ⟨hq, hshows⟩ := node_tick_shows htick hpop
        have hback : Queues c s { c₁ with tick_type := c.tick_type } s₁ :=
          ⟨hq.grows, hq.number, rfl, hq.slot, hq.node, hq.attempts⟩
        have hshows' : Watched s₁.log fun w => Allowed event_result ∧
            Shows phase (some event_result) { c₁ with tick_type := c.tick_type } s₁ w :=
          hshows.mono fun _ w ⟨ha, hw⟩ => ⟨ha, hw.phase, hw.child, hw.parent, hw.next⟩
        split at hrun
        · rename_i hcomplete
          cases hrun
          refine ⟨hback, hshows'.mono fun _ w ⟨ha, hw⟩ => ⟨_, ha, hw, ?_⟩⟩
          rw [Settled, if_pos hcomplete]
        · rename_i hgoes _
          obtain ⟨hrest, hwrest⟩ := ih hrun (hshows'.mono fun _ w ⟨ha, hw⟩ =>
            ⟨_, ha, hw, fun hcomplete => absurd hcomplete hgoes⟩)
          exact ⟨hback.trans hrest, hwrest⟩

theorem tick_with_event_queue_shows (hphase : phase = .starting ∨ phase = .serving)
    (hrun : tick_with_event_queue m source event_id event_data c s = some (r, c', s'))
    (h : Watched s.log fun w => ∀ r, ∃ w',
      w.step (.ticked c.number source ⟨c.tick_type, event_id, event_data⟩ r) = some w' ∧
        Shows phase (some r) c s w') :
    Queues c s c' s' ∧ Watched s'.log fun w => ∃ last, Allowed last ∧
      Shows phase (some last) c' s' w ∧ Settled r last c' := by
  simp only [tick_with_event_queue, Option.bind_eq_bind, Option.bind_eq_some_iff] at hrun
  obtain ⟨⟨result, c₁, s₁⟩, htick, hrun⟩ := hrun
  obtain ⟨hq, hshows⟩ := node_tick_shows htick h
  obtain ⟨hrest, hwrest⟩ := drain_own_shows hphase hrun
    (hshows.mono fun _ w ⟨ha, hw⟩ => ⟨result, ha, hw, fun _ => rfl⟩)
  exact ⟨hq.trans hrest, hwrest⟩

theorem drain_parent_shows {fuel : Nat} {result : Result}
    (hrun : drain_parent m fuel result c s = some (r, c', s'))
    (h : Watched s.log fun w => ∃ last, Allowed last ∧ Shows .serving (some last) c s w ∧
      Settled result last c) : Queues c s c' s' ∧ Watched s'.log fun w => ∃ last, Allowed last ∧
      Shows .serving (some last) c' s' w ∧ Settled r last c' ∧
      (result_is_complete r = false → s'.queue = []) := by
  induction fuel generalizing result c s with
  | zero => cases hrun
  | succ fuel ih =>
    unfold drain_parent at hrun
    split at hrun
    · rename_i hempty
      cases hrun
      exact ⟨.refl _ _, h.mono fun _ w ⟨last, hlast, hw, hset⟩ =>
        ⟨last, hlast, hw, hset, fun _ => hempty⟩⟩
    · rename_i e rest hqueue
      split at hrun
      · rename_i hcomplete
        cases hrun
        exact ⟨.refl _ _, h.mono fun _ w ⟨last, hlast, hw, hset⟩ =>
          ⟨last, hlast, hw, hset, fun hno => absurd hcomplete (by simp [hno])⟩⟩
      · simp only [Option.bind_eq_bind, Option.bind_eq_some_iff] at hrun
        obtain ⟨⟨result', c₁, s₁⟩, htick, hrun⟩ := hrun
        have hpop : Watched s.log fun w => ∀ r, ∃ w',
            w.step (.ticked c.number .parent e r) = some w' ∧
            Shows .serving (some r) { c with tick_type := e.tick_type } { s with queue := rest }
              w' := by
          refine h.mono fun _ w ⟨last, _, hw, _⟩ r => ?_
          refine ⟨{ w with child := some ⟨c.number, c.queue, some r⟩, parent := rest }, ?_,
            hw.phase, rfl, rfl, hw.next⟩
          simp [Watch.step, Watch.tick, hw.child, hw.parent, hw.phase, hqueue]
        obtain ⟨hq, hshows⟩ := tick_with_event_queue_shows (Or.inr rfl) htick hpop
        have hback : Queues c s { c₁ with tick_type := c.tick_type } s₁ :=
          ⟨hq.grows, hq.number, rfl, hq.slot, hq.node, hq.attempts⟩
        obtain ⟨hrest, hwrest⟩ := ih hrun (hshows.mono fun _ w ⟨last, ha, hw, hset⟩ =>
          ⟨last, ha, ⟨hw.phase, hw.child, hw.parent, hw.next⟩, hset⟩)
        exact ⟨hback.trans hrest, hwrest⟩

end

/-! ## The calls of the node -/

/-- Between two calls the watcher sees the slot and the queues. -/
structure Between (s : Spawner σ) (w : Watch) : Prop where
  phase : w.phase = .idle
  slot : (s.slot = none ∧ w.child = none) ∨ ∃ c last, s.slot = some c ∧
    w.child = some ⟨c.number, c.queue, some last⟩ ∧ Allowed last
  parent : w.parent = s.queue
  next : w.next ≤ s.attempts

/-- INIT has made the child, and only INIT can. -/
structure Kept (s : Spawner σ) : Prop where
  fresh : s.node.initialized = false → s.slot = none
  state : s.node.initialized = true → s.node.data.state = 1

/-- Behind a tick of the node, all events of a live child are with it. -/
structure Tended (s : Spawner σ) (w : Watch) : Prop where
  phase : w.phase = .serving
  slot : (s.slot = none ∧ w.child = none) ∨ ∃ c last, s.slot = some c ∧
    w.child = some ⟨c.number, [], some last⟩ ∧ c.queue = [] ∧ w.parent = [] ∧ Allowed last
  parent : w.parent = s.queue
  next : w.next ≤ s.attempts

theorem completes_of_settled {result last : Result} {c : Child σ} (hlast : Allowed last)
    (hset : Settled result last c) (hcomplete : result_is_complete result = true) :
    completes last = true := by
  rw [Settled, if_pos hcomplete] at hset
  rcases hlast with rfl | hlast
  · subst hset
    cases hcomplete
  · exact hlast

section

variable {m : Module σ} {event_id event_data : Nat} {s s' : Spawner σ} {r : Result}

theorem create_child_enters (hcreates : ∀ n, m.creates n = true)
    (hrun : create_child m s = some (r, s'))
    (h : Watched s.log fun w => w.phase = .entering ∧ w.child = none ∧ w.parent = s.queue ∧
      w.next ≤ s.attempts) : s'.node = { s.node with data := { s.node.data with state := 1 } } ∧
      Watched (s'.record .entered).log (Between (s'.record .entered)) := by
  simp only [create_child, hcreates, if_true, Option.bind_eq_bind, Option.bind_eq_some_iff] at hrun
  obtain ⟨⟨result, c, s₁⟩, htick, hrun⟩ := hrun
  simp only [Option.pure_def, Option.some.injEq, Prod.mk.injEq] at hrun
  obtain ⟨-, rfl⟩ := hrun
  have hcreated := h.entry (e := .created s.attempts)
    (Q := fun w => ∀ r, ∃ w', w.step (.ticked s.attempts .start ⟨0, 0, 0⟩ r) = some w' ∧
      Shows .starting (some r) ⟨s.attempts, m.tree.created, 0, []⟩
        { s with attempts := s.attempts + 1 } w')
    fun _ w ⟨hphase, hnone, hparent, hnext⟩ => by
      refine ⟨⟨.created, some ⟨s.attempts, [], none⟩, w.parent, s.attempts + 1⟩, ?_, fun r => ?_⟩
      · simp [Watch.step, hphase, hnone, hnext]
      · refine ⟨⟨.starting, some ⟨s.attempts, [], some r⟩, w.parent, s.attempts + 1⟩, ?_, rfl, rfl,
          hparent, Nat.le_refl _⟩
        simp [Watch.step, Watch.tick]
  obtain ⟨hq, hshows⟩ := tick_with_event_queue_shows (Or.inl rfl) htick
    (hcreated.mono fun _ w hw r => by
      obtain ⟨w', hw', hshows⟩ := hw r
      exact ⟨w', hw', hshows.phase, hshows.child, hshows.parent, hshows.next⟩)
  refine ⟨by rw [hq.node]; rfl, ?_⟩
  refine hshows.entry fun _ w ⟨last, hlast, hw, hset⟩ => ?_
  refine ⟨{ w with phase := .idle }, ?_, rfl, ?_, hw.parent, hw.next⟩
  · have hdone : c.queue = [] ∨ completes last = true := by
      by_cases hcomplete : result_is_complete result = true
      · exact Or.inr (completes_of_settled hlast hset hcomplete)
      · rw [Settled, if_neg hcomplete] at hset
        exact Or.inl hset
    simp [Watch.step, hw.phase, hw.child, Ward.completed, hdone]
  · exact Or.inr ⟨c, last, rfl, hw.child, hlast⟩

theorem tick_child_tends {c : Child σ} (hrun : tick_child m event_id event_data c s = some (r, s'))
    (h : Watched s.log fun w => ∃ last, Shows (.owed event_id event_data) last c s w) :
    s'.node = s.node ∧ Watched s'.log (Tended s') := by
  simp only [tick_child, Option.bind_eq_bind, Option.bind_eq_some_iff] at hrun
  obtain ⟨⟨result, c₁, s₁⟩, htick, ⟨result', c₂, s₂⟩, hdrain, hrun⟩ := hrun
  have hserving : Phase.serving = .starting ∨ Phase.serving = .serving := Or.inr rfl
  obtain ⟨hq, hshows⟩ := tick_with_event_queue_shows hserving htick
    (h.mono fun _ w ⟨last, hw⟩ r => by
      refine ⟨⟨.serving, some ⟨c.number, c.queue, some r⟩, w.parent, w.next⟩, ?_, rfl, rfl,
        hw.parent, hw.next⟩
      simp [Watch.step, Watch.tick, hw.child, hw.phase])
  obtain ⟨hq', hdrained⟩ := drain_parent_shows hdrain hshows
  have hnode : s₂.node = s.node := hq'.node.trans hq.node
  dsimp only at hrun
  split at hrun
  · rename_i hcomplete
    cases hrun
    refine ⟨hnode, hdrained.entry fun _ w ⟨last, hlast, hw, hset, _⟩ => ?_⟩
    refine ⟨{ w with child := none }, ?_, hw.phase, Or.inl ⟨rfl, rfl⟩, hw.parent, hw.next⟩
    have hdone := completes_of_settled hlast hset hcomplete
    simp [Watch.step, hw.phase, hw.child, Ward.completed, hdone]
  · rename_i hgoes
    cases hrun
    refine ⟨hnode, hdrained.mono fun _ w ⟨last, hlast, hw, hset, hempty⟩ => ?_⟩
    have hparent : s₂.queue = [] := hempty (by simpa using hgoes)
    rw [Settled, if_neg hgoes] at hset
    refine ⟨hw.phase, Or.inr ⟨c₂, last, rfl, ?_, hset, ?_, hlast⟩, hw.parent, hw.next⟩
    · rw [hw.child, hset]
    · rw [hw.parent, hparent]

theorem tick_between (hstate : s.node.data.state = 1) (h : Watched s.log (Between s))
    (hrun : se_spawn_and_tick_tree m SE_EVENT_TICK event_id event_data
      (s.record (.tick event_id event_data)) = some (r, s')) :
    s'.node = s.node ∧ Watched (s'.record .returned).log (Between (s'.record .returned)) := by
  have hreturn : ∀ {t : Spawner σ}, Watched t.log (Tended t) →
      Watched (t.record .returned).log (Between (t.record .returned)) := by
    intro t ht
    refine ht.entry fun _ w hw => ⟨{ w with phase := .idle }, ?_, rfl, ?_, hw.parent, hw.next⟩
    · rcases hw.slot with ⟨_, hnone⟩ | ⟨c, last, _, hchild, _, hparent, _⟩
      · simp [Watch.step, hw.phase, hnone]
      · simp [Watch.step, hw.phase, hchild, hparent]
    · rcases hw.slot with hslot | ⟨c, last, hslot, hchild, hqueue, _, hlast⟩
      · exact Or.inl hslot
      · exact Or.inr ⟨c, last, hslot, by rw [hqueue]; exact hchild, hlast⟩
  have hno : ¬ (SE_EVENT_TICK = SE_EVENT_INIT ∨
      (s.record (.tick event_id event_data)).node.data.state = 0) := by
    simp [Spawner.record, hstate]
  rw [se_spawn_and_tick_tree, if_neg hno, if_neg (by decide)] at hrun
  split at hrun
  · rename_i hslot
    cases hrun
    refine ⟨rfl, hreturn (h.entry fun _ w hw => ?_)⟩
    rcases hw.slot with ⟨_, hnone⟩ | ⟨c, last, hsome, _⟩
    · refine ⟨{ w with phase := .serving }, ?_, rfl, Or.inl ⟨hslot, hnone⟩, hw.parent, hw.next⟩
      simp [Watch.step, hw.phase, hnone]
    · rw [show s.slot = none from hslot] at hsome
      cases hsome
  · rename_i c hslot
    obtain ⟨hnode, htended⟩ := tick_child_tends hrun (h.entry fun _ w hw => by
      rcases hw.slot with ⟨hnone, _⟩ | ⟨c', last, hsome, hchild, _⟩
      · rw [show s.slot = some c from hslot] at hnone
        cases hnone
      · rw [show s.slot = some c from hslot] at hsome
        cases hsome
        refine ⟨{ w with phase := .owed event_id event_data }, ?_, some last, rfl, hchild,
          hw.parent, hw.next⟩
        simp [Watch.step, hw.phase, hchild])
    exact ⟨hnode, hreturn htended⟩

theorem terminate_between (hstate : s.node.data.state = 1) (h : Watched s.log (Between s))
    (hrun : se_spawn_and_tick_tree m SE_EVENT_TERMINATE event_id event_data
      (s.record .terminate) = some (r, s')) :
    s'.node = s.node ∧ s'.slot = none ∧ Watched s'.log (Between s') := by
  have hno : ¬ (SE_EVENT_TERMINATE = SE_EVENT_INIT ∨
      (s.record .terminate).node.data.state = 0) := by
    simp [Spawner.record, hstate]
  rw [se_spawn_and_tick_tree, if_neg hno, if_pos rfl] at hrun
  split at hrun
  · rename_i c hslot
    cases hrun
    refine ⟨rfl, rfl, ?_⟩
    have hterminating : Watched (s.record .terminate).log fun w => w.phase = .terminating ∧
        (∃ last, w.child = some ⟨c.number, c.queue, last⟩) ∧ w.parent = s.queue ∧
        w.next ≤ s.attempts := by
      refine h.entry fun _ w hw => ?_
      rcases hw.slot with ⟨hnone, _⟩ | ⟨c', last, hsome, hchild, _⟩
      · rw [show s.slot = some c from hslot] at hnone
        cases hnone
      · rw [show s.slot = some c from hslot] at hsome
        cases hsome
        refine ⟨{ w with phase := .terminating }, ?_, rfl, ⟨some last, hchild⟩, hw.parent, hw.next⟩
        simp [Watch.step, hw.phase, hchild]
    refine hterminating.entry fun _ w ⟨hphase, ⟨last, hchild⟩, hparent, hnext⟩ => ?_
    refine ⟨{ w with phase := .idle, child := none }, ?_, rfl, Or.inl ⟨rfl, rfl⟩, hparent, hnext⟩
    simp [Watch.step, hphase, hchild]
  · rename_i hslot
    cases hrun
    refine ⟨rfl, hslot, h.entry fun _ w hw => ?_⟩
    rcases hw.slot with ⟨_, hnone⟩ | ⟨c, last, hsome, _⟩
    · refine ⟨{ w with phase := .idle }, ?_, rfl, Or.inl ⟨hslot, hnone⟩, hw.parent, hw.next⟩
      simp [Watch.step, hw.phase, hnone]
    · rw [show s.slot = none from hslot] at hsome
      cases hsome

end

/-! ## Runs -/

/-- A reset by the parent hits no live child. -/
def NoLiveReset (s : Spawner σ) (i : Step) : Prop := i = .reset → s.slot = none

structure Tracked (s : Spawner σ) : Prop where
  kept : Kept s
  watched : Watched s.log (Between s)

section

variable {m : Module σ} {event_id event_data : Nat} {s s' : Spawner σ} {r : Result}

theorem first_call_tracked (hcreates : ∀ n, m.creates n = true) (h : Tracked s)
    (hrun : first_call m event_id event_data s = some s') :
    Tracked s' ∧ s'.node.initialized = true := by
  unfold first_call at hrun
  split at hrun
  · rename_i hinit
    cases hrun
    exact ⟨h, hinit⟩
  · rename_i hinit
    simp only [Option.map_eq_some_iff] at hrun
    obtain ⟨⟨r, s₁⟩, hrun, rfl⟩ := hrun
    rw [se_spawn_and_tick_tree, if_pos (Or.inl rfl)] at hrun
    have hslot : s.slot = none := h.kept.fresh (by simpa using hinit)
    obtain ⟨hnode, hbetween⟩ := create_child_enters hcreates hrun
      (h.watched.entry fun _ w hw => by
        rcases hw.slot with ⟨_, hnone⟩ | ⟨c, last, hsome, _⟩
        · exact ⟨{ w with phase := .entering }, by simp [Watch.step, hw.phase, hnone], rfl, hnone,
            hw.parent, hw.next⟩
        · rw [hslot] at hsome
          cases hsome)
    have hfacts : s₁.node.initialized = true ∧ s₁.node.data.state = 1 := by
      rw [hnode]
      exact ⟨rfl, rfl⟩
    refine ⟨⟨⟨fun hno => ?_, fun _ => hfacts.2⟩, hbetween⟩, hfacts.1⟩
    exact absurd (hno.symm.trans hfacts.1) (by decide)

theorem dispatch_main_tracked (hcreates : ∀ n, m.creates n = true) (h : Tracked s)
    (hrun : dispatch_main m event_id event_data s = some s') : Tracked s' := by
  unfold dispatch_main at hrun
  split at hrun
  · cases hrun
    exact h
  · simp only [Option.bind_eq_bind, Option.bind_eq_some_iff] at hrun
    obtain ⟨s₁, hfirst, ⟨result, s₂⟩, htick, hlast⟩ := hrun
    obtain ⟨hs₁, hinit⟩ := first_call_tracked hcreates h hfirst
    have hstate := hs₁.kept.state hinit
    obtain ⟨hnode, hs₂⟩ := tick_between hstate hs₁.watched htick
    have hinit₂ : s₂.node.initialized = true := by rw [hnode, hinit]
    have hstate₂ : s₂.node.data.state = 1 := by rw [hnode, hstate]
    dsimp only [last_call] at hlast
    split at hlast
    · simp only [Option.map_eq_some_iff] at hlast
      obtain ⟨⟨r, s₃⟩, hterm, rfl⟩ := hlast
      obtain ⟨hnode₃, hslot, hs₃⟩ := terminate_between (s := s₂.record .returned) hstate₂ hs₂ hterm
      have hstate₃ : s₃.node.data.state = 1 := by
        rw [hnode₃]
        exact hstate₂
      exact ⟨⟨fun _ => hslot, fun _ => hstate₃⟩,
        hs₃.mono fun _ w hw => ⟨hw.phase, hw.slot, hw.parent, hw.next⟩⟩
    · cases hlast
      refine ⟨⟨fun hno => ?_, fun _ => hstate₂⟩, hs₂⟩
      exact absurd (hno.symm.trans hinit₂) (by decide)

theorem step_tracked {i : Step} (hcreates : ∀ n, m.creates n = true) (h : Tracked s)
    (hreset : NoLiveReset s i) (hrun : step m s i = some s') : Tracked s' := by
  cases i with
  | dispatch event_id event_data => exact dispatch_main_tracked hcreates h hrun
  | terminate =>
    simp only [step, s_expr_child_terminate] at hrun
    split at hrun
    · rename_i hinit
      simp only [Option.map_eq_some_iff] at hrun
      obtain ⟨⟨r, s₁⟩, hterm, rfl⟩ := hrun
      obtain ⟨-, hslot, hs₁⟩ := terminate_between (h.kept.state hinit) h.watched hterm
      exact ⟨⟨fun _ => hslot, fun hno => absurd hno Bool.false_ne_true⟩,
        hs₁.mono fun _ w hw => ⟨hw.phase, hw.slot, hw.parent, hw.next⟩⟩
    · cases hrun
      exact h
  | reset =>
    cases hrun
    exact ⟨⟨fun _ => hreset rfl, fun hno => absurd hno (by simp [s_expr_child_reset])⟩,
      h.watched.mono fun _ w hw => ⟨hw.phase, hw.slot, hw.parent, hw.next⟩⟩
  | pushToChild e =>
    simp only [step] at hrun
    split at hrun
    · rename_i c hslot
      obtain ⟨c', s₁, hpush⟩ : ∃ c' s₁, pushToChild e c s = (c', s₁) := ⟨_, _, rfl⟩
      simp only [hpush, Option.some.injEq] at hrun
      subst hrun
      have hq := (pushToChild_queues .idle none e hpush).1
      refine ⟨⟨fun hno => ?_, fun hinit => ?_⟩, ?_⟩
      · rw [h.kept.fresh (hq.node ▸ hno)] at hslot
        cases hslot
      · exact hq.node ▸ h.kept.state (hq.node ▸ hinit)
      · intro ha
        obtain ⟨w, hw, hbetween⟩ := h.watched (ha.of_isPrefix hq.grows)
        rcases hbetween.slot with ⟨hnone, _⟩ | ⟨c₀, last, hsome, hchild, hlast⟩
        · rw [hslot] at hnone
          cases hnone
        · rw [hslot] at hsome
          cases hsome
          have hshows : Watched s.log (Shows .idle (some last) c s) := by
            refine fun _ => ⟨w, hw, hbetween.phase, hchild, hbetween.parent, hbetween.next⟩
          obtain ⟨w', hw', hs'⟩ := (pushToChild_queues .idle (some last) e hpush).2 hshows ha
          exact ⟨w', hw', hs'.phase, Or.inr ⟨c', last, rfl, hs'.child, hlast⟩, hs'.parent, hs'.next⟩
    · cases hrun
      exact h
  | pushToParent e =>
    cases hrun
    unfold pushToParent
    split
    · refine ⟨⟨h.kept.fresh, h.kept.state⟩, h.watched.entry fun _ w hw => ?_⟩
      refine ⟨{ w with parent := w.parent ++ [e] }, rfl, hw.phase, hw.slot, ?_, hw.next⟩
      simp [Spawner.record, hw.parent]
    · exact h

end

/-! ## Every child is freed once -/

variable {w w' : Watch}

theorem Watch.step_keeps (h : w.step e = some w') (hcreated : ∀ k, e ≠ .created k)
    (hfreed : ∀ k, e ≠ .freed k) :
    w'.next = w.next ∧ w'.child.map Ward.number = w.child.map Ward.number := by
  have htick : ∀ {c c' : Ward} {source : Source} {ev : QueuedEvent} {w₁ : Watch},
      w.tick c source ev = some (w₁, c') → w₁.next = w.next ∧ c'.number = c.number := by
    intro c c' source ev w₁ ht
    unfold Watch.tick at ht
    grind
  cases e with
  | created k => exact absurd rfl (hcreated k)
  | freed k => exact absurd rfl (hfreed k)
  | ticked k source ev r =>
    simp only [Watch.step] at h
    split at h
    · rename_i c hc
      split at h
      · simp only [Option.map_eq_some_iff] at h
        obtain ⟨⟨w₁, c'⟩, ht, rfl⟩ := h
        have := htick ht
        simp [hc, this]
      · cases h
    · cases h
  | _ =>
    simp only [Watch.step] at h
    grind

/-- A child that has been created is alive or has been freed once. -/
structure Balanced (w : Watch) (log : List Entry) : Prop where
  count : ∀ k, log.count (.created k) =
    log.count (.freed k) + if w.child.map Ward.number = some k then 1 else 0
  once : ∀ k, log.count (.created k) ≤ if k < w.next then 1 else 0

theorem Balanced.entry (hb : Balanced w log) (h : w.step e = some w') :
    Balanced w' (log ++ [e]) := by
  by_cases hcreated : ∃ k, e = .created k
  · obtain ⟨k, rfl⟩ := hcreated
    simp only [Watch.step] at h
    split at h
    · rename_i hphase
      obtain ⟨-, hnone, hnext⟩ := hphase
      cases h
      have hnever : ∀ n, w.next ≤ n → log.count (.created n) = 0 := by
        intro n hn
        have := hb.once n
        rwa [if_neg (by omega), Nat.le_zero] at this
      constructor
      · intro n
        have hcount := hb.count n
        rw [hnone] at hcount
        simp only [List.count_append, hcount, Option.map_none, Option.map_some]
        by_cases hn : n = k <;> simp [hn, Ne.symm, eq_comm]
      · intro n
        have honce := hb.once n
        by_cases hn : n = k
        · subst hn
          simp [List.count_append, hnever n hnext]
        · have hother : ([Entry.created k].count (.created n)) = 0 := by
            simp [Ne.symm hn]
          rw [List.count_append, hother, Nat.add_zero]
          refine Nat.le_trans honce ?_
          dsimp only
          split <;> split <;> omega
    · cases h
  · by_cases hfreed : ∃ k, e = .freed k
    · obtain ⟨k, rfl⟩ := hfreed
      have hw' : w'.next = w.next ∧ w'.child = none ∧ w.child.map Ward.number = some k := by
        simp only [Watch.step] at h
        grind
      constructor
      · intro n
        have hcount := hb.count n
        rw [hw'.2.2] at hcount
        rw [hw'.2.1]
        simp only [List.count_append, hcount, Option.map_none]
        by_cases hn : n = k <;> simp [hn, Ne.symm, eq_comm]
      · intro n
        rw [List.count_append, hw'.1]
        exact hb.once n
    · have hkeeps := Watch.step_keeps h (fun k hk => hcreated ⟨k, hk⟩) (fun k hk => hfreed ⟨k, hk⟩)
      have hc : ∀ k, [e].count (.created k) = 0 := by
        refine fun k => List.count_eq_zero.mpr fun hk => hcreated ⟨k, ?_⟩
        exact (List.mem_singleton.mp hk).symm
      have hf : ∀ k, [e].count (.freed k) = 0 := by
        refine fun k => List.count_eq_zero.mpr fun hk => hfreed ⟨k, ?_⟩
        exact (List.mem_singleton.mp hk).symm
      constructor
      · intro k
        rw [List.count_append, List.count_append, hc, hf, hkeeps.2]
        exact hb.count k
      · intro k
        rw [List.count_append, hc, hkeeps.1]
        exact hb.once k

theorem balanced_run {es : List Entry} (hb : Balanced w log) (h : runs Watch.step w es = some w') :
    Balanced w' (log ++ es) := by
  induction es generalizing w log with
  | nil =>
    cases h
    rwa [List.append_nil]
  | cons e es ih =>
    simp only [runs_cons, Option.bind_eq_some_iff] at h
    obtain ⟨w₁, h₁, h⟩ := h
    have := ih (hb.entry h₁) h
    rwa [List.append_assoc] at this

theorem tracked_start : Tracked (Spawner.start : Spawner σ) where
  kept := ⟨fun _ => rfl, fun h => absurd h Bool.false_ne_true⟩
  watched := fun _ => ⟨.start, rfl, rfl, Or.inl ⟨rfl, rfl⟩, rfl, Nat.le_refl _⟩

/-- In every run, as long as the child answers only with PIPELINE_CONTINUE until it completes,
is created when it should be and is not forgotten by a reset, its history is lawful, and each
child is created once and freed once. -/
theorem child_is_served {m : Module σ} (hcreates : ∀ n, m.creates n = true) {is : List Step}
    {s : Spawner σ} (hresets : Meets (step m) NoLiveReset .start is)
    (hrun : runs (step m) .start is = some s) (hanswers : Answers s.log) :
    Lawful s.log ∧ ∀ k, s.log.count (.created k) ≤ 1 ∧
      s.log.count (.created k) =
        s.log.count (.freed k) + if s.slot.map Child.number = some k then 1 else 0 := by
  have htracked : Tracked s :=
    inv_runs (fun _ _ _ h hr hs => step_tracked hcreates h hr hs) tracked_start hresets hrun
  obtain ⟨w, hw, hbetween⟩ := htracked.watched hanswers
  have hb : Balanced w ([] ++ s.log) := balanced_run ⟨fun k => rfl, fun k => Nat.zero_le _⟩ hw
  refine ⟨⟨w, hw⟩, fun k => ⟨?_, ?_⟩⟩
  · refine Nat.le_trans (hb.once k) ?_
    split <;> omega
  · have hslot : s.slot.map Child.number = w.child.map Ward.number := by
      rcases hbetween.slot with ⟨hs, hc⟩ | ⟨c, last, hs, hc, -⟩
      · rw [hs, hc]
        rfl
      · rw [hs, hc]
        rfl
    rw [hslot]
    exact hb.count k

/-! ## Children that are trees -/

/-- A leaf below a root, as a child tree. -/
def leafChild (fn : MainFn) (answer : Result) : Module (Eng (Unit × List QueuedEvent)) where
  tree := treeChild
    { fuel := 1
      main := fun _ _ _ d env => (answer, d, env)
      oneshot := fun _ _ env => env
      test := fun _ _ env => (true, env)
      counter := fun _ _ st env => (true, st, env)
      field := fun _ _ => 0 }
    (.main fn 0 [.main (.leaf 0) 1 []]) ()
  creates _ := true
  fuel := 20

def twoTicks : List Step :=
  [.dispatch 4 0, .pushToParent ⟨0, 7, 0⟩, .dispatch 4 0, .terminate]

/-- A chain flow is served for two ticks with an event, and is freed at TERMINATE. -/
theorem chain_flow_is_served : ∃ s,
    runs (step (leafChild .se_chain_flow SE_PIPELINE_CONTINUE)) .start twoTicks = some s ∧
    s.log.count (.freed 0) = 1 ∧ Lawful s.log := by
  have hlog : (runs (step (leafChild .se_chain_flow SE_PIPELINE_CONTINUE)) .start twoTicks).map
      Spawner.log = some [.init, .created 0,
        .ticked 0 .start ⟨0, 0, 0⟩ SE_PIPELINE_CONTINUE, .entered, .tick 4 0,
        .ticked 0 .tick ⟨0, 4, 0⟩ SE_PIPELINE_CONTINUE, .returned, .queuedToParent ⟨0, 7, 0⟩,
        .tick 4 0, .ticked 0 .tick ⟨0, 4, 0⟩ SE_PIPELINE_CONTINUE,
        .ticked 0 .parent ⟨0, 7, 0⟩ SE_PIPELINE_CONTINUE, .returned, .terminate, .freed 0] := by
    decide +kernel
  obtain ⟨s, hrun, hs⟩ := Option.map_eq_some_iff.mp hlog
  have hanswers : Answers s.log := by
    intro k source e r h
    rw [hs] at h
    left
    simp only [List.mem_cons, List.not_mem_nil, reduceCtorEq, Entry.ticked.injEq, false_or,
      or_false] at h
    rcases h with h | h | h | h
    · exact h.2.2.2
    · exact h.2.2.2
    · exact h.2.2.2
    · exact h.2.2.2
  have hserved := child_is_served (fun _ => rfl) (Meets.of_mem (by simp [twoTicks, NoLiveReset]) _)
    hrun hanswers
  exact ⟨s, hrun, by rw [hs]; decide, hserved.1⟩

/-- A function interface that goes on is freed at its first tick. -/
theorem running_child_is_freed : ¬ ∀ (m : Module (Eng (Unit × List QueuedEvent)))
    (is : List Step) (s : Spawner (Eng (Unit × List QueuedEvent))),
    (∀ n, m.creates n = true) → Meets (step m) NoLiveReset .start is →
    runs (step m) .start is = some s → Lawful s.log := by
  intro hall
  have hlog : (runs (step (leafChild .se_function_interface SE_PIPELINE_CONTINUE)) .start
      [.dispatch 4 0]).map Spawner.log = some [.init, .created 0,
        .ticked 0 .start ⟨0, 0, 0⟩ SE_FUNCTION_CONTINUE, .entered, .tick 4 0,
        .ticked 0 .tick ⟨0, 4, 0⟩ SE_FUNCTION_CONTINUE, .freed 0, .returned] := by
    decide +kernel
  obtain ⟨s, hrun, hs⟩ := Option.map_eq_some_iff.mp hlog
  have hlawful := hall _ _ s (fun _ => rfl) (Meets.of_mem (by simp [NoLiveReset]) _) hrun
  rw [hs] at hlawful
  exact absurd hlawful (by decide +kernel)

end motioncore.spawn
