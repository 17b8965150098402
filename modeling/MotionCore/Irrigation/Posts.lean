-- The POSTs of the irrigation robot, over all runs of its poll loop. Each is for another kind
-- of event than the others of its poll, and a kind that has fired in a session is not posted
-- again for it until a poll has no event of the kind.
import MotionCore.Irrigation.Poll
import MotionCore.Lib.Runs
import MotionCore.Lib.Trace

namespace motioncore.irrigation

open motioncore.machine motioncore.raising motioncore.trace

variable {ν : Type} {num : Num ν} {setup : Setup ν}

/-! ## What the log tells -/

def Kind.action : State → Kind → Option Action
  | .ACTIVE_RUN, .MODE_4_PER_VALVE_TRIP | .ACTIVE_RUN, .MODE_3_HIGH_RED
  | .ACTIVE_RUN, .KB3_PIPE_BREAK_HIGH => some .SKIP_STATION
  | .MASTER_IDLE_CHECK, .MASTER_HIGH_TRIP => some .CLOSE_MASTER_VALVE
  | .IDLE, .EQ_TRIP | .MASTER_IDLE_CHECK, .EQ_TRIP | .ACTIVE_RUN, .EQ_TRIP =>
    some .CLOSE_MASTER_VALVE
  | _, _ => none

/-- The state and the posted kinds of the poll that is under way. -/
structure Now where
  state : Option State
  posted : List Kind
deriving DecidableEq, Repr

def Now.next (now : Now) : Note → Now
  | .seen state _ => ⟨some state, []⟩
  | .post _ kind _ _ _ => { now with posted := kind :: now.posted }
  | _ => now

def nowOf (log : List Note) : Now := log.foldl Now.next ⟨none, []⟩

/-- Whether a kind is on for a session: it was posted with its message sent, and every poll
since had an event of the kind. -/
def onNext (table : Nat) (kind : Kind) (b : Bool) : Note → Bool
  | .post session k _ sent _ => b ∨ session = some table ∧ k = kind ∧ sent
  | .seen _ kinds => b ∧ kind ∈ kinds
  | _ => b

def isOn (table : Nat) (kind : Kind) (log : List Note) : Bool :=
  log.foldl (onNext table kind) false

/-- What is posted belongs to the kind, no poll posts a kind twice, and none is posted for a
session in which it is on. -/
def OnEdges (log : List Note) : Prop :=
  Past (fun before e => ∀ session kind action sent accepted,
    e = .post session kind action sent accepted →
      (∃ state, (nowOf before).state = some state ∧ kind.action state = some action) ∧
        kind ∉ (nowOf before).posted ∧
        ∀ table, session = some table → isOn table kind before = false) log

/-! ## The invariant -/

def memory (s : Robot ν) : List (Nat × List Kind) :=
  (s.arming.map fun a => (a.session.table, a.session.fired)).toList ++
    (s.master_idle.map fun m => (m.session.table, m.session.fired)).toList

structure Sound (s : Robot ν) : Prop where
  edges : OnEdges s.log
  tables : ∀ entry ∈ memory s, entry.1 < s.tables
  known : ∀ entry ∈ memory s, ∀ kind, isOn entry.1 kind s.log = true → kind ∈ entry.2
  apart : ((memory s).map Prod.fst).Nodup
  fresh : ∀ table ≥ s.tables, ∀ kind, isOn table kind s.log = false

/-- Neither a POST nor the events of a poll. -/
def Note.Quiet : Note → Prop
  | .seen _ _ | .post _ _ _ _ _ => False
  | _ => True

section

variable {s s' : Robot ν}

theorem isOn_quiet {log log' : List Note} (h : Adds Note.Quiet log log') (table : Nat)
    (kind : Kind) : isOn table kind log' = isOn table kind log :=
  h.foldl_eq _ fun e he b => by cases e <;> first | rfl | exact absurd he id

theorem OnEdges.quiet {log log' : List Note} (hlog : OnEdges log) (h : Adds Note.Quiet log log') :
    OnEdges log' :=
  h.past hlog fun l e he session kind action sent accepted heq => by
    subst heq
    exact absurd he id

theorem Sound.frame (h : Sound s) (hmem : ∀ entry ∈ memory s', entry ∈ memory s ∨
      entry = (s.tables, []) ∧ s.tables < s'.tables) (htables : s.tables ≤ s'.tables)
    (hapart : ((memory s').map Prod.fst).Nodup) (hlog : Adds Note.Quiet s.log s'.log) :
    Sound s' where
  edges := h.edges.quiet hlog
  tables entry he := by
    rcases hmem entry he with he | ⟨rfl, hlt⟩
    · exact (h.tables entry he).trans_le htables
    · exact hlt
  known entry he kind hon := by
    rw [isOn_quiet hlog] at hon
    rcases hmem entry he with he | ⟨rfl, -⟩
    · exact h.known entry he kind hon
    · rw [h.fresh s.tables le_rfl] at hon
      cases hon
  apart := hapart
  fresh table hle kind := by
    rw [isOn_quiet hlog]
    exact h.fresh table (htables.trans hle) kind

theorem Sound.same (h : Sound s) (hmem : memory s' = memory s) (htables : s'.tables = s.tables)
    (hlog : Adds Note.Quiet s.log s'.log) : Sound s' :=
  h.frame (fun _ he => .inl (hmem ▸ he)) htables.ge (hmem ▸ h.apart) hlog

theorem Sound.drop (h : Sound s) (hmem : (memory s').Sublist (memory s))
    (htables : s'.tables = s.tables) (hlog : Adds Note.Quiet s.log s'.log) : Sound s' :=
  h.frame (fun _ he => .inl (hmem.mem he)) htables.ge (h.apart.sublist (hmem.map _)) hlog

theorem memory_update_session {f : Session ν → Session ν} (state : State)
    (hf : ∀ sess, (f sess).table = sess.table ∧ (f sess).fired = sess.fired) :
    memory (update_session state f s) = memory s := by
  unfold update_session
  split
  · simp [memory, Function.comp_def, hf]
  · simp [memory, Function.comp_def, hf]
  · rfl

theorem session_mem {state : State} {sess : Session ν} (h : session_for state s = some sess) :
    (sess.table, sess.fired) ∈ memory s := by
  unfold session_for at h
  split at h
  · obtain ⟨a, ha, rfl⟩ := Option.map_eq_some_iff.mp h
    simp [memory, ha]
  · obtain ⟨m, hm, rfl⟩ := Option.map_eq_some_iff.mp h
    simp [memory, hm]
  · cases h

theorem arm_sound (h : Sound s) (now : Int) (ent : Delta ν) (bin_key : String) :
    Sound (arm setup now ent bin_key s) := by
  have hmem : memory (arm setup now ent bin_key s) = (s.tables, []) ::
      (s.master_idle.map fun m => (m.session.table, m.session.fired)).toList := rfl
  have hidle : ∀ entry ∈ (s.master_idle.map fun m => (m.session.table, m.session.fired)).toList,
      entry ∈ memory s := fun entry he => List.mem_append_right _ he
  refine h.frame (fun entry he => ?_) (Nat.le_succ _) ?_ ?_
  · rw [hmem] at he
    rcases List.mem_cons.mp he with rfl | he
    · exact .inr ⟨rfl, Nat.lt_succ_self _⟩
    · exact .inl (hidle entry he)
  · rw [hmem, List.map_cons, List.nodup_cons]
    refine ⟨fun hin => ?_, h.apart.sublist ((List.sublist_append_right _ _).map _)⟩
    obtain ⟨entry, he, heq⟩ := List.mem_map.mp hin
    exact absurd (h.tables entry (hidle entry he)) (by omega)
  · refine ⟨_, rfl, fun e he => ?_⟩
    split at he
    · cases he
    · rw [List.mem_singleton.mp he]
      trivial

theorem track_idle_sound (h : Sound s) (state : State) (now : Int) :
    Sound (track_idle state now s) := by
  unfold track_idle
  split
  · split
    · exact h
    · let s' : Robot ν := { s with
        tables := s.tables + 1, master_idle := some ⟨⟨s.tables, [], [], none⟩, now⟩ }
      have hmem : memory s' = (s.arming.map fun a => (a.session.table, a.session.fired)).toList ++
          [(s.tables, [])] := rfl
      have harmed : ∀ entry ∈ (s.arming.map fun a => (a.session.table, a.session.fired)).toList,
          entry ∈ memory s := fun entry he => List.mem_append_left _ he
      have hsound : (∀ entry ∈ memory s', entry ∈ memory s ∨
          entry = (s.tables, []) ∧ s.tables < s'.tables) → _ → Sound s' :=
        fun hentries hapart => h.frame hentries (Nat.le_succ _) hapart (.refl _)
      refine hsound (fun entry he => ?_) ?_
      · rw [hmem] at he
        rcases List.mem_append.mp he with he | he
        · exact .inl (harmed entry he)
        · exact .inr ⟨List.mem_singleton.mp he, Nat.lt_succ_self _⟩
      · rw [hmem, List.map_append, List.nodup_append]
        refine ⟨h.apart.sublist ((List.sublist_append_left _ _).map _), List.nodup_singleton _, ?_⟩
        rintro table ht table' ht' rfl
        obtain ⟨entry, he, heq⟩ := List.mem_map.mp ht
        have hlt := h.tables entry (harmed entry he)
        rw [List.map_singleton, List.mem_singleton] at ht'
        omega
  · refine h.drop ?_ rfl (.refl _)
    simp [memory]

theorem entry_step_sound (h : Sound s) {now : Int} {ent : Delta ν} {pending : List (Nat × String)}
    (hstep : entry_step num setup now ent s = some (s', pending)) : Sound s' := by
  obtain ⟨⟨s₁, pending₁⟩, hin, heq⟩ := Option.map_eq_some_iff.mp hstep
  cases heq
  have hsound : Sound s₁ := by
    unfold entry_effect at hin
    split at hin
    · obtain ⟨bin_key, -, heq⟩ := Option.map_eq_some_iff.mp hin
      cases heq
      exact arm_sound h now ent bin_key
    · split at hin
      · obtain ⟨bin_key, -, heq⟩ := Option.map_eq_some_iff.mp hin
        cases heq
        exact h.drop (by simp [memory]) rfl (.refl _)
      · split at hin
        · cases hin
          exact h.drop (by simp [memory]) rfl (.refl _)
        · split at hin
          · cases hin
            exact h.same (by simp [memory, Function.comp_def]) rfl (.refl _)
          · cases hin
            exact h
  exact hsound.same rfl rfl (.refl _)

theorem take_sample_sound (h : Sound s) (state : State) (popup : Popup ν) :
    Sound (take_sample num state popup s) := by
  have haccept : ∀ sess : Session ν, (accept_sample num popup sess).table = sess.table ∧
      (accept_sample num popup sess).fired = sess.fired := by
    intro sess
    unfold accept_sample
    dsimp only
    split <;> split <;> exact ⟨rfl, rfl⟩
  unfold take_sample
  dsimp only
  refine h.same ((memory_update_session state haccept).trans ?_) ?_ ?_
  · split
    · simp [memory, Function.comp_def]
    · rfl
  · unfold update_session
    split <;> rfl
  · unfold update_session
    split <;> exact .refl _

end

/-! ## Events with an action -/

def acting (events : List Event) : List Kind :=
  (events.filter fun ev => ev.action.isSome).map Event.kind

/-- Events to be posted are of these kinds, each at most once, and have the action that the
kind has in this state. -/
structure Alarms (state : State) (kinds : List Kind) (events : List Event) : Prop where
  fits : ∀ ev ∈ events, ∀ a, ev.action = some a →
    ev.kind.action state = some a ∧ ev.kb4_already_edged = false
  once : (acting events).Sublist kinds

section

variable {state : State} {kinds kinds' : List Kind} {events events' : List Event}

theorem Alarms.nil : Alarms state [] [] := by
  refine ⟨?_, .refl _⟩
  rintro _ ⟨⟩

theorem Alarms.silent {ev : Event} (h : ev.action = none) : Alarms state [] [ev] := by
  refine ⟨fun ev' hev a ha => ?_, ?_⟩
  · rw [List.mem_singleton.mp hev, h] at ha
    cases ha
  · simp [acting, h]

theorem Alarms.single {kind : Kind} {level : Level} {action : Action}
    (h : kind.action state = some action) :
    Alarms state [kind] [event kind level (some action)] := by
  refine ⟨fun ev' hev a ha => ?_, .refl _⟩
  rw [List.mem_singleton.mp hev] at ha ⊢
  cases ha
  exact ⟨h, rfl⟩

theorem Alarms.append (h : Alarms state kinds events) (h' : Alarms state kinds' events') :
    Alarms state (kinds ++ kinds') (events ++ events') := by
  refine ⟨fun ev hev => ?_, ?_⟩
  · rcases List.mem_append.mp hev with hev | hev
    · exact h.fits ev hev
    · exact h'.fits ev hev
  · rw [acting, List.filter_append, List.map_append]
    exact h.once.append h'.once

theorem Alarms.weaken (h : Alarms state [] events) (kinds : List Kind) :
    Alarms state kinds events := ⟨h.fits, h.once.trans (List.nil_sublist _)⟩

theorem Alarms.ite {c : Prop} [Decidable c] (h : Alarms state kinds events) :
    Alarms state kinds (if c then events else []) := by
  split
  · exact h
  · exact Alarms.nil.weaken kinds

theorem eval_eq_alarms (eq : ν) (prev_eq : Option ν)
    (h : Kind.action state .EQ_TRIP = some .CLOSE_MASTER_VALVE) :
    Alarms state [.EQ_TRIP] (eval_eq num eq prev_eq) := by
  unfold eval_eq
  split
  · exact .single h
  · exact ((Alarms.silent rfl).ite).weaken _

theorem eval_calibrated_alarms (median : Option ν) (n : Nat) (curve : Curve ν) (warmup : Bool) :
    Alarms state [] (eval_calibrated_modes num median n curve warmup) := by
  unfold eval_calibrated_modes
  split
  · exact .nil
  · exact ((Alarms.silent rfl).ite).append ((Alarms.silent rfl).ite)

theorem eval_master_idle_alarms (irr : ν) (median : Option ν) (n : Nat) (warmup : Bool) :
    Alarms .MASTER_IDLE_CHECK [.MASTER_HIGH_TRIP] (eval_master_idle num irr median n warmup) := by
  unfold eval_master_idle
  split
  · exact .single rfl
  · split
    · exact Alarms.nil.weaken _
    · exact (((Alarms.silent rfl).ite).append ((Alarms.silent rfl).ite)).weaken _

/-- All the kinds that are posted by the modes. -/
def trips : State → List Kind
  | .ACTIVE_RUN => [.EQ_TRIP, .MODE_4_PER_VALVE_TRIP, .MODE_3_HIGH_RED]
  | .MASTER_IDLE_CHECK => [.EQ_TRIP, .MASTER_HIGH_TRIP]
  | .IDLE => [.EQ_TRIP]
  | _ => []

theorem evaluate_alarms (popup : Popup ν) (arming : Option (Armed ν)) (prev_eq : Option ν)
    (ctx : Ctx ν) : Alarms state (trips state) (evaluate num state popup arming prev_eq ctx) := by
  unfold evaluate
  cases state with
  | SUSPENDED_MANUAL => exact .nil
  | SUSPENDED_CLEAN_FILTER => exact .nil
  | SUSPENDED_RESISTANCE => exact .nil
  | IDLE => exact eval_eq_alarms _ _ rfl
  | MASTER_IDLE_CHECK => exact (eval_eq_alarms _ _ rfl).append (eval_master_idle_alarms _ _ _ _)
  | ACTIVE_RUN =>
    have hmode4 : Alarms .ACTIVE_RUN [.MODE_4_PER_VALVE_TRIP]
        (eval_mode4_irr num (num.readOr0 popup.PLC_IRRIGATION_CURRENT)) := (Alarms.single rfl).ite
    refine ((eval_eq_alarms _ _ rfl).append hmode4).append (?_ : Alarms _ [.MODE_3_HIGH_RED] _)
    split
    · exact ((Alarms.single rfl).ite).append (eval_calibrated_alarms _ _ _ _)
    · exact Alarms.nil.weaken _

end

/-! ## The stages before the alerts -/

section

variable {p : Poll ν} {state : State} {popup : Popup ν}

theorem keeps_note {e : Note} (he : e.Quiet) : Keeps (Sound : Robot ν → Prop) (note e) :=
  keeps_modify fun _ h => h.same rfl rfl ((Adds.refl _).snoc he)

theorem fetch_keeps : Keeps Sound (fetch p) := by
  unfold fetch
  split
  · exact keeps_pure _
  · refine keeps_bind keeps_get fun s => ?_
    split
    · exact keeps_throw
    · exact keeps_bind (keeps_note trivial) fun _ => keeps_pure _

theorem work_entry_keeps (now : Int) (ent : Delta ν) :
    Keeps Sound (work_entry num setup now ent) := by
  unfold work_entry
  refine triple_bind (Q := fun s₀ s => s₀ = s ∧ Sound s) (triple_get fun s hs => ⟨rfl, hs⟩)
    fun s => ?_
  split
  · exact triple_throw fun _ h => h.2
  · rename_i s' pending hstep
    refine triple_bind (Q := fun _ => Sound) (triple_set fun s₁ hs => ?_) fun _ => keeps_pure _
    obtain ⟨rfl, hs⟩ := hs
    exact entry_step_sound hs hstep

theorem kb2_events_keeps : Triple Sound (kb2_events p state)
    (fun events s => Sound s ∧ Alarms state [] events) Sound := by
  unfold kb2_events
  refine triple_bind (Q := fun _ => Sound) (triple_get fun _ h => h) fun s => ?_
  split
  · split
    · exact triple_throw fun _ h => h
    · exact triple_pure fun _ h => ⟨h, .nil⟩
    · refine triple_pure fun _ h => ⟨h, .silent ?_⟩
      unfold kb2_event
      split
      · rfl
      · split <;> rfl
  · exact triple_pure fun _ h => ⟨h, .nil⟩

theorem kb4_events_keeps (pending : Nat × String) : Triple Sound (kb4_events p pending)
    (fun events s => Sound s ∧ Alarms state [] events) Sound := by
  unfold kb4_events
  refine triple_bind (Q := fun _ => Sound) (keeps_note trivial) fun _ => ?_
  split
  · exact triple_throw fun _ h => h
  · exact triple_pure fun _ h => ⟨h, .nil⟩
  · rename_i result _
    refine triple_bind (Q := fun _ => Sound) (keeps_modify fun s h => ?_)
      fun _ => triple_pure fun _ h => ⟨h, ?_⟩
    · cases result.new_ref with
      | none => exact h
      | some ref => exact h.same rfl rfl (.refl _)
    · cases result.high with
      | none => exact .nil
      | some high => exact .silent rfl

theorem kb3_events_keeps : Triple Sound (kb3_events num state popup)
    (fun events s => Sound s ∧ Alarms state [.KB3_PIPE_BREAK_HIGH] events) Sound := by
  unfold kb3_events
  refine triple_bind (Q := fun s₀ s => s₀ = s ∧ Sound s) (triple_get fun s hs => ⟨rfl, hs⟩)
    fun s₀ => ?_
  have hnone : Alarms state [.KB3_PIPE_BREAK_HIGH] [] := Alarms.nil.weaken _
  split
  · rename_i a harming
    split
    · split
      · exact triple_throw fun _ h => h.2
      · refine triple_bind (Q := fun _ => Sound) (triple_set fun s h => ?_)
          fun _ => triple_pure fun _ h => ⟨h, ?_⟩
        · obtain ⟨rfl, hs⟩ := h
          exact hs.same (by simp [memory, harming]) rfl (.refl _)
        · split
          · exact .single rfl
          · exact hnone
    · exact triple_pure fun _ h => ⟨h.2, hnone⟩
  · exact triple_pure fun _ h => ⟨h.2, hnone⟩

end

/-! ## The alerts -/

theorem nowOf_snoc (log : List Note) (e : Note) : nowOf (log ++ [e]) = (nowOf log).next e := by
  rw [nowOf, List.foldl_append]
  rfl

theorem isOn_snoc (table : Nat) (kind : Kind) (log : List Note) (e : Note) :
    isOn table kind (log ++ [e]) = onNext table kind (isOn table kind log) e := by
  rw [isOn, List.foldl_append]
  rfl

section

variable {s s' : Robot ν} {p : Poll ν} {state : State} {popup : Popup ν}

/-- The alerts that are left of a poll may be posted. -/
structure Ready (state : State) (events : List Event) (s : Robot ν) : Prop where
  sound : Sound s
  now : (nowOf s.log).state = some state
  fits : ∀ ev ∈ events, ∀ a, ev.action = some a →
    ev.kind.action state = some a ∧ ev.kb4_already_edged = false
  once : (acting events).Nodup
  free : ∀ kind ∈ acting events, kind ∉ (nowOf s.log).posted

/-- An event of a poll is noted: a kind that has none is on no more. -/
theorem Sound.seen (h : Sound s) (state : State) (kinds : List Kind) :
    Sound { s with log := s.log ++ [.seen state kinds] } := by
  refine ⟨Past.snoc h.edges nofun, h.tables, fun entry he kind hon => ?_, h.apart,
    fun table hle kind => ?_⟩
  · simp only [isOn_snoc, onNext, Bool.decide_and, Bool.and_eq_true, decide_eq_true_eq] at hon
    exact h.known entry he kind hon.1
  · simp [isOn_snoc, onNext, h.fresh table hle kind]

variable {kinds : List Kind}

theorem Sound.clear (h : Sound s)
    (hseen : ∀ table kind, isOn table kind s.log = true → kind ∈ kinds)
    (hmem : memory s' = (memory s).map fun entry => (entry.1,
      entry.2.filter fun kind => kind ∈ kinds))
    (htables : s'.tables = s.tables) (hlog : s'.log = s.log) : Sound s' := by
  refine ⟨hlog ▸ h.edges, fun entry he => ?_, fun entry he kind hon => ?_, ?_,
    fun table hle kind => ?_⟩
  · rw [hmem] at he
    obtain ⟨old, hold, rfl⟩ := List.mem_map.mp he
    exact htables ▸ h.tables old hold
  · rw [hmem] at he
    obtain ⟨old, hold, rfl⟩ := List.mem_map.mp he
    rw [hlog] at hon
    exact List.mem_filter.mpr ⟨h.known old hold kind hon, by simpa using hseen _ kind hon⟩
  · rw [hmem, List.map_map]
    exact h.apart
  · rw [hlog]
    exact h.fresh table (htables ▸ hle) kind

theorem fire_memory (h : Sound s) (kind : Kind) {sess : Session ν}
    (hsess : session_for state s = some sess) :
    memory (update_session state (fun sess => { sess with fired := kind :: sess.fired }) s) =
      (memory s).map fun entry =>
        if entry.1 = sess.table then (entry.1, kind :: entry.2) else entry := by
  have hapart := h.apart
  unfold session_for at hsess
  unfold update_session
  split at hsess
  · obtain ⟨a, ha, rfl⟩ := Option.map_eq_some_iff.mp hsess
    cases hm : s.master_idle with
    | none => simp [memory, ha, hm]
    | some m =>
      have hne : m.session.table ≠ a.session.table := by
        simp only [memory, ha, hm, Option.map_some, Option.toList_some, List.singleton_append,
          List.map_cons, List.map_nil, List.nodup_cons, List.mem_singleton] at hapart
        exact Ne.symm hapart.1
      simp [memory, ha, hm, hne]
  · obtain ⟨m, hm, rfl⟩ := Option.map_eq_some_iff.mp hsess
    cases ha : s.arming with
    | none => simp [memory, ha, hm]
    | some a =>
      have hne : a.session.table ≠ m.session.table := by
        simp only [memory, ha, hm, Option.map_some, Option.toList_some, List.singleton_append,
          List.map_cons, List.map_nil, List.nodup_cons, List.mem_singleton] at hapart
        exact hapart.1
      simp [memory, ha, hm, hne]
  · cases hsess

theorem Sound.fire (h : Sound s) {kind : Kind} {sess : Session ν}
    (hsess : session_for state s = some sess)
    (hs' : s' = update_session state (fun sess => { sess with fired := kind :: sess.fired }) s) :
    Sound s' ∧ ∀ entry ∈ memory s', entry.1 = sess.table → kind ∈ entry.2 := by
  have hmem := fire_memory h kind hsess
  rw [← hs'] at hmem
  have hrest : s'.tables = s.tables ∧ s'.log = s.log := by
    rw [hs']
    unfold update_session
    split <;> exact ⟨rfl, rfl⟩
  refine ⟨⟨hrest.2 ▸ h.edges, fun entry he => ?_, fun entry he k hon => ?_, ?_,
    fun table hle k => ?_⟩, fun entry he htable => ?_⟩
  · rw [hmem] at he
    obtain ⟨old, hold, rfl⟩ := List.mem_map.mp he
    rw [hrest.1]
    split <;> exact h.tables old hold
  · rw [hmem] at he
    obtain ⟨old, hold, rfl⟩ := List.mem_map.mp he
    rw [hrest.2] at hon
    split at hon
    · rw [if_pos ‹_›]
      exact List.mem_cons_of_mem _ (h.known old hold k hon)
    · rw [if_neg ‹_›]
      exact h.known old hold k hon
  · have hfst : (memory s').map Prod.fst = (memory s).map Prod.fst := by
      rw [hmem, List.map_map]
      refine List.map_congr_left fun entry _ => ?_
      simp only [Function.comp_apply]
      split <;> rfl
    rw [hfst]
    exact h.apart
  · rw [hrest.2]
    exact h.fresh table (hrest.1 ▸ hle) k
  · rw [hmem] at he
    obtain ⟨old, hold, rfl⟩ := List.mem_map.mp he
    split at htable
    · rw [if_pos ‹_›]
      exact List.mem_cons_self
    · exact absurd htable ‹_›

theorem Sound.post (h : Sound s) {session : Option Nat} {kind : Kind} {action : Action}
    {sent accepted : Bool} (hnow : (nowOf s.log).state = some state)
    (haction : kind.action state = some action) (hfree : kind ∉ (nowOf s.log).posted)
    (hoff : ∀ table, session = some table → isOn table kind s.log = false)
    (htable : ∀ table, session = some table → table < s.tables)
    (hfired : sent = true → ∀ entry ∈ memory s, session = some entry.1 → kind ∈ entry.2) :
    Sound { s with log := s.log ++ [.post session kind action sent accepted] } := by
  refine ⟨Past.snoc h.edges ?_, h.tables, fun entry he k hon => ?_, h.apart,
    fun table hle k => ?_⟩
  · rintro _ _ _ _ _ ⟨⟩
    exact ⟨⟨state, hnow, haction⟩, hfree, hoff⟩
  · simp only [isOn_snoc, onNext, Bool.decide_or, Bool.or_eq_true, decide_eq_true_eq] at hon
    rcases hon with hon | ⟨hsession, rfl, hsent⟩
    · exact h.known entry he k hon
    · exact hfired hsent entry he hsession
  · have hne : session ≠ some table := fun heq => (htable table heq).not_ge hle
    simp [isOn_snoc, onNext, h.fresh table hle k, hne]

theorem acting_cons (ev : Event) (events : List Event) :
    acting (ev :: events) = if ev.action.isSome then ev.kind :: acting events
      else acting events := by
  unfold acting
  rw [List.filter_cons]
  split <;> rfl

variable {ev : Event} {events : List Event}

theorem Ready.skip (h : Ready state (ev :: events) s) (hsound : Sound s') (hlog : s'.log = s.log) :
    Ready state events s' := by
  have hsub : (acting events).Sublist (acting (ev :: events)) := by
    rw [acting_cons]
    split
    · exact List.sublist_cons_self _ _
    · exact .refl _
  exact ⟨hsound, hlog ▸ h.now, fun ev' hev' => h.fits ev' (List.mem_cons_of_mem _ hev'),
    h.once.sublist hsub, fun kind hk => hlog ▸ h.free kind (hsub.mem hk)⟩

theorem Ready.posted {action : Action} {session : Option Nat} {sent accepted : Bool}
    (h : Ready state (ev :: events) s) (haction : ev.action = some action)
    (hsound : Sound { s' with log := s'.log ++ [.post session ev.kind action sent accepted] })
    (hlog : s'.log = s.log) :
    Ready state events
      { s' with log := s'.log ++ [.post session ev.kind action sent accepted] } := by
  have honce := h.once
  have hfree := h.free
  rw [acting_cons, haction, Option.isSome_some, if_pos rfl] at honce hfree
  obtain ⟨hnew, hrest⟩ := List.nodup_cons.mp honce
  have hnow : nowOf (s'.log ++ [Note.post session ev.kind action sent accepted]) =
      { nowOf s.log with posted := ev.kind :: (nowOf s.log).posted } := by
    rw [nowOf_snoc, hlog]
    rfl
  refine ⟨hsound, ?_, fun ev' hev' => h.fits ev' (List.mem_cons_of_mem _ hev'), hrest,
    fun kind hk hmem => ?_⟩
  · rw [hnow]
    exact h.now
  · rw [hnow] at hmem
    rcases List.mem_cons.mp hmem with rfl | hmem
    · exact hnew hk
    · exact hfree kind (List.mem_cons_of_mem _ hk) hmem

/-- What the session of the state remembers after an event was sent. -/
theorem sent_sound (h : Sound s) {k : Nat} (hs' : s' = if p.sends k ∧ ¬ ev.kb4_already_edged then
      update_session state (fun sess => { sess with fired := ev.kind :: sess.fired }) s else s) :
    (Sound s' ∧ s'.log = s.log ∧ s'.tables = s.tables) ∧
      (p.sends k = true → ev.kb4_already_edged = false → ∀ entry ∈ memory s',
        (session_for state s).map Session.table = some entry.1 → ev.kind ∈ entry.2) := by
  split at hs'
  · cases hsess : session_for state s with
    | none =>
      have hsame : s' = s := by
        rw [hs']
        unfold session_for at hsess
        unfold update_session
        split at hsess
        · rw [Option.map_eq_none_iff.mp hsess]
          cases s
          simp_all
        · rw [Option.map_eq_none_iff.mp hsess]
          cases s
          simp_all
        · rfl
      subst hsame
      exact ⟨⟨h, rfl, rfl⟩, fun _ _ _ _ hnone => by cases hnone⟩
    | some sess =>
      obtain ⟨hsound, hfired⟩ := h.fire hsess hs'
      refine ⟨⟨hsound, ?_⟩, fun _ _ entry he heq => hfired entry he (Option.some.inj heq).symm⟩
      rw [hs']
      unfold update_session
      split <;> exact ⟨rfl, rfl⟩
  · rename_i hnot
    subst hs'
    refine ⟨⟨h, rfl, rfl⟩, fun hsent hedged => absurd ⟨hsent, ?_⟩ hnot⟩
    rw [hedged]
    decide

theorem dispatch_event_ready {k : Nat} :
    Triple (Ready state (ev :: events)) (dispatch_event p state popup k ev)
      (fun _ => Ready state events) Sound := by
  unfold dispatch_event
  refine triple_start fun s hs => ?_
  refine triple_bind (Q := fun s₀ s₁ => s₀ = s ∧ s₁ = s)
    (triple_get fun s₁ h => ⟨h, h⟩) fun s₀ => ?_
  dsimp only
  split
  · exact triple_pure fun s₁ h => h.2 ▸ hs.skip hs.sound rfl
  · rename_i hnot
    split
    · refine triple_bind (Q := fun _ s₁ => s₀ = s ∧ s₁ = if p.sends k ∧ ¬ ev.kb4_already_edged then
        update_session state (fun sess => { sess with fired := ev.kind :: sess.fired }) s else s)
        (triple_modify fun s₁ h => ⟨h.1, h.2 ▸ rfl⟩) fun _ => ?_
      cases haction : ev.action with
      | none =>
        refine triple_pure fun s₁ h => ?_
        obtain ⟨⟨hsound, hlog, -⟩, -⟩ := sent_sound hs.sound h.2
        exact hs.skip hsound hlog
      | some action =>
        refine triple_modify fun s₁ h => ?_
        obtain ⟨rfl, hs₁⟩ := h
        obtain ⟨⟨hsound, hlog, htables⟩, hfired⟩ := sent_sound hs.sound hs₁
        obtain ⟨hkind, hedged⟩ := hs.fits ev List.mem_cons_self action haction
        refine hs.posted haction ?_ hlog
        have hacting : ev.kind ∈ acting (ev :: events) := by
          rw [acting_cons, haction, Option.isSome_some, if_pos rfl]
          exact List.mem_cons_self
        refine hsound.post (hlog ▸ hs.now) hkind (hlog ▸ hs.free _ hacting) ?_ ?_ ?_
        · intro table htable
          obtain ⟨sess, hsess, rfl⟩ := Option.map_eq_some_iff.mp htable
          by_contra hon
          rw [hlog, Bool.not_eq_false] at hon
          have hmem := hs.sound.known _ (session_mem hsess) _ hon
          exact hnot (by simp [hedged, hsess, hmem])
        · intro table htable
          obtain ⟨sess, hsess, rfl⟩ := Option.map_eq_some_iff.mp htable
          rw [htables]
          exact hs.sound.tables _ (session_mem hsess)
        · exact fun hsent => hfired hsent hedged
    · exact triple_throw fun s₁ h => h.2 ▸ hs.sound

theorem dispatch_events_ready (k : Nat) :
    Triple (Ready state events) (dispatch_events p state popup k events) (fun _ => Sound) Sound := by
  induction events generalizing k with
  | nil => exact triple_pure fun _ h => h.sound
  | cons ev events ih => exact triple_bind dispatch_event_ready fun _ => ih (k + 1)

theorem memory_clear (s : Robot ν) (kinds : List Kind) : memory { s with
      arming := s.arming.map fun a => { a with session := clear_unseen kinds a.session }
      master_idle := s.master_idle.map fun m => { m with session := clear_unseen kinds m.session } } =
      (memory s).map fun entry => (entry.1, entry.2.filter fun kind => kind ∈ kinds) := by
  unfold memory clear_unseen
  cases s.arming <;> cases s.master_idle <;> rfl

theorem dispatch_keeps (h : Alarms state kinds events) (hkinds : kinds.Nodup) :
    Keeps Sound (dispatch p state popup events) := by
  unfold dispatch
  refine triple_bind (Q := fun _ s => Sound s ∧ (∀ table kind, isOn table kind s.log = true →
      kind ∈ (events.filter fun ev => ¬ ev.kb4_already_edged).map Event.kind) ∧
      nowOf s.log = ⟨some state, []⟩)
    (triple_modify fun s hs => ⟨hs.seen state _, fun table kind hon => ?_, ?_⟩) fun _ => ?_
  · simp only [isOn_snoc, onNext, Bool.decide_and, Bool.and_eq_true, decide_eq_true_eq] at hon
    exact hon.2
  · rw [nowOf_snoc]
    rfl
  · refine triple_bind (Q := fun _ => Ready state events)
      (triple_modify fun s hs => ?_) fun _ => dispatch_events_ready 0
    obtain ⟨hsound, hseen, hnow⟩ := hs
    refine ⟨hsound.clear hseen (memory_clear s _) rfl rfl, by rw [hnow], h.fits,
      hkinds.sublist h.once, fun kind _ hmem => ?_⟩
    rw [hnow] at hmem
    cases hmem

/-! ## Every run -/

theorem report_keeps (h : Alarms state kinds events) (hkinds : kinds.Nodup) :
    Keeps Sound (report p state popup events) := by
  unfold report
  split
  · refine keeps_bind (dispatch_keeps h hkinds) fun _ => keeps_modify fun s hs => ?_
    exact hs.same rfl rfl (.refl _)
  · exact keeps_throw

theorem trips_nodup (state : State) : (trips state ++ [Kind.KB3_PIPE_BREAK_HIGH]).Nodup := by
  cases state <;> decide

theorem work_popup_keeps (pending : List (Nat × String)) :
    Keeps Sound (work_popup num p state popup pending) := by
  unfold work_popup
  refine keeps_bind (keeps_modify fun s h => track_idle_sound h _ _) fun _ => ?_
  refine triple_bind kb2_events_keeps fun kb2 => triple_fact fun hkb2 => ?_
  have hkb4 : Triple Sound (collect (kb4_events p) pending)
      (fun events s => Sound s ∧ Alarms state [] events) Sound := by
    refine (triple_collect (I := fun _ bs s => Sound s ∧ Alarms state [] bs)
      fun _ c _ bs _ => triple_fact fun hbs => ?_).conseq (fun s h => ⟨h, .nil⟩)
        (fun _ _ h => h) fun _ h => h
    exact (kb4_events_keeps c).conseq (fun _ h => h) (fun _ _ h => ⟨h.1, hbs.append h.2⟩)
      fun _ h => h
  refine triple_bind hkb4 fun kb4 => triple_fact fun hkb4 => ?_
  refine keeps_bind (keeps_modify fun s h => take_sample_sound h _ _) fun _ => ?_
  refine triple_bind kb3_events_keeps fun kb3 => triple_fact fun hkb3 => ?_
  refine keeps_bind keeps_get fun s => ?_
  refine keeps_bind (keeps_note trivial) fun _ => ?_
  refine keeps_bind (keeps_modify fun s h => h.same rfl rfl (.refl _)) fun _ => ?_
  have hmodes : Alarms state (trips state) (mode_events num state popup p.now s) :=
    evaluate_alarms _ _ _ _
  refine report_keeps (((hmodes.append hkb3).append hkb2).append hkb4) ?_
  rw [List.append_nil, List.append_nil]
  exact trips_nodup state

theorem poll_once_keeps : Keeps Sound (poll_once num setup p) := by
  unfold poll_once
  split
  · exact keeps_pure _
  · refine keeps_bind fetch_keeps fun delta => ?_
    refine keeps_bind (keeps_collect fun ent => work_entry_keeps _ ent) fun pending => ?_
    exact work_popup_keeps pending

theorem init_sound (last_id : Option Nat) (baselines : Option (List (String × Baseline ν))) :
    Sound (.init last_id baselines) :=
  ⟨past_nil _, nofun, nofun, List.nodup_nil, fun _ _ _ => rfl⟩

/-- In every run of the poll loop each POST is for a kind that its state posts, no poll posts a
kind twice, and a kind that is on for a session is not posted again for it. -/
theorem posts_on_edges {last_id : Option Nat} {baselines : Option (List (String × Baseline ν))}
    {polls : List (Poll ν)} {s : Robot ν}
    (hrun : runs (poll num setup) (.init last_id baselines) polls = some s) : OnEdges s.log := by
  have hsound : Sound s :=
    inv_runs (P := fun _ _ => True) (fun s p s' h _ hpoll => by
      cases hpoll
      exact poll_once_keeps.after h) (init_sound _ _) (.of_forall (fun _ _ => trivial) _ _) hrun
  exact hsound.edges

end

/-- A sprinkler of the run is shorted over two polls. -/
def shorted : List (Poll Int) :=
  [quietPoll "ZONE" 180 0 started, quietPoll "ZONE" 180 0 started]

theorem shorted_on_edges : ∃ s, runs (poll hundredths oneBin) (.init none none) shorted = some s ∧
    OnEdges s.log := by
  obtain ⟨s, hrun⟩ : ∃ s, runs (poll hundredths oneBin) (.init none none) shorted = some s :=
    ⟨_, rfl⟩
  exact ⟨s, hrun, posts_on_edges hrun⟩

def Note.posts (kind : Kind) (action : Action) : Note → Bool
  | .post _ k a _ _ => k = kind ∧ a = action
  | _ => false

/-- Two kinds of one poll are posted alike, and without a session a kind is posted in every
poll. -/
theorem alike_and_again :
    (runs (poll hundredths oneBin) (.init none none) [quietPoll "ZONE" 180 0 started]).map (fun s =>
      (s.log.countP (Note.posts .MODE_4_PER_VALVE_TRIP .SKIP_STATION),
        s.log.countP (Note.posts .MODE_3_HIGH_RED .SKIP_STATION))) = some (1, 1) ∧
    (runs (poll hundredths oneBin) (.init none none)
      [quietPoll "OFFLINE" 0 200 started, quietPoll "OFFLINE" 0 200 started]).map (fun s =>
        (s.log.countP (Note.posts .EQ_TRIP .CLOSE_MASTER_VALVE),
          s.log.countP fun e => e = .seen .IDLE [.EQ_TRIP])) = some (2, 2) := by
  decide +kernel

end motioncore.irrigation
