-- The rows of a stream leaf as a circular buffer: a push goes over the oldest row and a clear
-- makes rows not valid (vendor/lua/kb_stream.lua), and a check brings the leaf to its length
-- (vendor/lua/construct_stream_table.lua). A statement that fails changes nothing, and is left out.
import Mathlib.Data.List.Induction
import Mathlib.Data.List.Sort
import Mathlib.Data.String.Basic

namespace motioncore.persistence.stream

variable {τ δ : Type}

/-- A row of one path. The times are texts. -/
structure StreamRow (τ δ : Type) where
  id : Nat
  recorded_at : τ
  data : δ
  valid : Bool

structure Stream (τ δ : Type) where
  rows : List (StreamRow τ δ)
  next_id : Nat
  fresh : ∀ r ∈ rows, r.id < next_id
  ids : (rows.map StreamRow.id).Nodup

def Stream.empty : Stream τ δ := ⟨[], 1, fun _ h => absurd h List.not_mem_nil, List.nodup_nil⟩

/-- What `ORDER BY recorded_at ASC` gives. Rows of one time come in any order. -/
structure OldestFirst (τ δ : Type) [LE τ] where
  sort : List (StreamRow τ δ) → List (StreamRow τ δ)
  perm : ∀ rows, (sort rows).Perm rows
  sorted : ∀ rows, (sort rows).Pairwise fun a b => a.recorded_at ≤ b.recorded_at

/-! ## The statements -/

/-- `UPDATE` of rows leaves their ids. -/
def Stream.update (s : Stream τ δ) (f : StreamRow τ δ → StreamRow τ δ)
    (hid : ∀ r, (f r).id = r.id) : Stream τ δ where
  rows := s.rows.map f
  next_id := s.next_id
  fresh r hr := by
    obtain ⟨old, hold, rfl⟩ := List.mem_map.mp hr
    exact hid old ▸ s.fresh old hold
  ids := by
    have hids : s.rows.map (StreamRow.id ∘ f) = s.rows.map StreamRow.id :=
      List.map_congr_left fun r _ => hid r
    rw [List.map_map, hids]
    exact s.ids

/-- `DELETE` of the rows with some ids. -/
def Stream.delete (s : Stream τ δ) (gone : List Nat) : Stream τ δ where
  rows := s.rows.filter fun r => r.id ∉ gone
  next_id := s.next_id
  fresh r hr := s.fresh r (List.mem_of_mem_filter hr)
  ids := s.ids.sublist (List.filter_sublist.map _)

/-- `INSERT` of empty rows, each with the time of its own statement. -/
def Stream.insert (s : Stream τ δ) (n : Nat) (now : Nat → τ) (data : δ) : Stream τ δ where
  rows := s.rows ++ (List.range n).map fun k => ⟨s.next_id + k, now k, data, false⟩
  next_id := s.next_id + n
  fresh r hr := by
    rcases List.mem_append.mp hr with hr | hr
    · exact Nat.lt_add_right n (s.fresh r hr)
    · obtain ⟨k, hk, rfl⟩ := List.mem_map.mp hr
      exact Nat.add_lt_add_left (List.mem_range.mp hk) _
  ids := by
    rw [List.map_append, List.map_map, List.nodup_append]
    refine ⟨s.ids, List.nodup_range.map fun _ _ => Nat.add_left_cancel, ?_⟩
    rintro id hid _ hnew rfl
    obtain ⟨r, hr, rfl⟩ := List.mem_map.mp hid
    obtain ⟨k, -, hk⟩ := List.mem_map.mp hnew
    exact absurd (s.fresh r hr) (by simp [← hk])

def StreamRow.write (id : Nat) (now : τ) (data : δ) (r : StreamRow τ δ) : StreamRow τ δ :=
  if r.id = id then { r with recorded_at := now, data, valid := true } else r

theorem write_id (id : Nat) (now : τ) (data : δ) (r : StreamRow τ δ) :
    (r.write id now data).id = r.id := by
  unfold StreamRow.write
  split <;> rfl

/-- The first rows of a list go by their ids. -/
theorem filter_drop {l : List (StreamRow τ δ)} (hids : (l.map StreamRow.id).Nodup) (n : Nat) :
    l.filter (fun r => r.id ∉ (l.take n).map StreamRow.id) = l.drop n := by
  have hsplit := List.take_append_drop n l
  generalize l.take n = gone, l.drop n = stay at hsplit ⊢
  subst hsplit
  rw [List.map_append, List.nodup_append] at hids
  rw [List.filter_append, List.filter_eq_nil_iff.mpr, List.filter_eq_self.mpr, List.nil_append]
  · intro r hr
    refine decide_eq_true fun hgone => hids.2.2 _ hgone _ (List.mem_map_of_mem hr) rfl
  · intro r hr
    simpa using List.mem_map_of_mem hr

/-- The readings in the rows. -/
def held (rows : List (StreamRow τ δ)) : List (τ × δ) :=
  (rows.filter StreamRow.valid).map fun r => (r.recorded_at, r.data)

variable {rows rows' : List (StreamRow τ δ)}

theorem held_perm (h : rows.Perm rows') : (held rows).Perm (held rows') := (h.filter _).map _

theorem held_append (rows rows' : List (StreamRow τ δ)) :
    held (rows ++ rows') = held rows ++ held rows' := by
  unfold held
  rw [List.filter_append, List.map_append]

theorem mem_held {p : τ × δ} (h : p ∈ held rows) : ∃ r ∈ rows, r.recorded_at = p.1 := by
  obtain ⟨r, hr, rfl⟩ := List.mem_map.mp h
  exact ⟨r, List.mem_of_mem_filter hr, rfl⟩

variable [LinearOrder τ]

/-- Whether a clear takes the readings of a time. -/
def cleared (older_than : Option τ) (t : τ) : Bool := older_than.all fun bound => t < bound

def StreamRow.clear (older_than : Option τ) (r : StreamRow τ δ) : StreamRow τ δ :=
  { r with valid := r.valid && !cleared older_than r.recorded_at }

section ops

variable (sql : OldestFirst τ δ) (empty : δ)

/-- No row to go over is an error. -/
def push_stream_data (s : Stream τ δ) (now : τ) (data : δ) : Option (Stream τ δ) :=
  (sql.sort s.rows).head?.map fun old =>
    s.update (StreamRow.write old.id now data) (write_id old.id now data)

def clear_stream_data (s : Stream τ δ) (older_than : Option τ) : Stream τ δ :=
  s.update (StreamRow.clear older_than) fun _ => rfl

def manage_stream_table (s : Stream τ δ) (target_length : Nat) (now : Nat → τ) : Stream τ δ :=
  if target_length < s.rows.length then
    s.delete (((sql.sort s.rows).take (s.rows.length - target_length)).map StreamRow.id)
  else s.insert (target_length - s.rows.length) now empty

inductive StreamOp (τ δ : Type) where
  | push (now : τ) (data : δ)
  | clear (older_than : Option τ)
  | check (target_length : Nat) (now : Nat → τ)

def streamStep (s : Stream τ δ) : StreamOp τ δ → Stream τ δ
  | .push now data => (push_stream_data sql s now data).getD s
  | .clear older_than => clear_stream_data s older_than
  | .check target_length now => manage_stream_table sql empty s target_length now

end ops

/-! ## The readings -/

/-- The readings that a stream without bounds would have. -/
def readingsStep (readings : List (τ × δ)) : StreamOp τ δ → List (τ × δ)
  | .push now data => readings ++ [(now, data)]
  | .clear older_than => readings.filter fun r => !cleared older_than r.1
  | .check .. => readings

/-- The length that the last check has set. -/
def lengthStep (n : Nat) : StreamOp τ δ → Nat
  | .check target_length _ => target_length
  | _ => n

def StreamOp.pushTime : StreamOp τ δ → Option τ
  | .push now _ => some now
  | _ => none

/-- The rows hold the newest of the readings: none that was lost is newer than one that is held. -/
def HoldsNewest (readings : List (τ × δ)) (rows : List (StreamRow τ δ)) : Prop :=
  ∃ lost, readings.Perm (held rows ++ lost) ∧ ∀ old ∈ lost, ∀ r ∈ held rows, old.1 ≤ r.1

/-- An op gives up only readings that are not newer than any row that is left. -/
def StepHolds (s s' : Stream τ δ) (op : StreamOp τ δ) : Prop :=
  ∃ gone, (readingsStep (held s.rows) op).Perm (held s'.rows ++ gone) ∧
    ∀ old ∈ gone, ∀ r ∈ s'.rows, old.1 ≤ r.recorded_at

variable {readings : List (τ × δ)} {s s' : Stream τ δ} {op : StreamOp τ δ}

theorem readings_perm {l l' : List (τ × δ)} (h : l.Perm l') (op : StreamOp τ δ) :
    (readingsStep l op).Perm (readingsStep l' op) := by
  cases op with
  | push now data => exact h.append_right _
  | clear older_than => exact h.filter _
  | check n now => exact h

/-- What was lost before is lost, or a clear has taken it. -/
theorem readings_lost (l lost : List (τ × δ)) (op : StreamOp τ δ) :
    ∃ lost', (readingsStep (l ++ lost) op).Perm (readingsStep l op ++ lost') ∧ lost' ⊆ lost := by
  cases op with
  | push now data =>
    refine ⟨lost, ?_, List.Subset.refl _⟩
    rw [readingsStep, readingsStep, List.append_assoc, List.append_assoc]
    exact List.perm_append_comm.append_left l
  | clear older_than =>
    refine ⟨lost.filter fun r => !cleared older_than r.1, ?_, List.filter_subset_self _⟩
    rw [readingsStep, readingsStep, List.filter_append]
  | check n now => exact ⟨lost, .refl _, List.Subset.refl _⟩

/-- A reading after an op was there before, or is pushed. -/
theorem mem_readings {l : List (τ × δ)} {p : τ × δ} (h : p ∈ readingsStep l op) :
    p ∈ l ∨ op = .push p.1 p.2 := by
  cases op with
  | push now data =>
    rcases List.mem_append.mp h with h | h
    · exact Or.inl h
    · rw [List.mem_singleton.mp h]
      exact Or.inr rfl
  | clear older_than => exact Or.inl (List.mem_of_mem_filter h)
  | check n now => exact Or.inl h

/-- What each op holds, a run holds. -/
theorem StepHolds.newest (h : StepHolds s s' op) (hnewest : HoldsNewest readings s.rows)
    (hclock : ∀ p ∈ readings, ∀ now ∈ op.pushTime, p.1 ≤ now) :
    HoldsNewest (readingsStep readings op) s'.rows := by
  obtain ⟨lost, hperm, hlost⟩ := hnewest
  obtain ⟨gone, hstep, hgone⟩ := h
  obtain ⟨lost', hrest, hsub⟩ := readings_lost (held s.rows) lost op
  refine ⟨gone ++ lost', ?_, fun old hold r hr => ?_⟩
  · rw [← List.append_assoc]
    exact ((readings_perm hperm op).trans hrest).trans (hstep.append_right lost')
  · rcases List.mem_append.mp hold with hold | hold
    · obtain ⟨row, hrow, htime⟩ := mem_held hr
      exact htime ▸ hgone old hold row hrow
    · rcases mem_readings (hstep.symm.subset (List.mem_append_left _ hr)) with hr | rfl
      · exact hlost old (hsub hold) r hr
      · exact hclock old (hperm.symm.subset (List.mem_append_right _ (hsub hold))) r.1 rfl

/-! ## What each op gives up -/

variable {sql : OldestFirst τ δ} {empty data : δ} {now : τ}

/-- A push goes over an oldest row. -/
theorem push_ok (h : push_stream_data sql s now data = some s') :
    ∃ old rest, s.rows.Perm (old :: rest) ∧ (∀ r ∈ rest, old.recorded_at ≤ r.recorded_at) ∧
      s'.rows.Perm (⟨old.id, now, data, true⟩ :: rest) := by
  obtain ⟨old, hhead, rfl⟩ := Option.map_eq_some_iff.mp h
  obtain ⟨rest, hsort⟩ := List.head?_eq_some_iff.mp hhead
  have hperm := (sql.perm s.rows).symm
  have hsorted := sql.sorted s.rows
  rw [hsort] at hperm hsorted
  have hids := (hperm.map StreamRow.id).nodup_iff.mp s.ids
  rw [List.map_cons, List.nodup_cons] at hids
  have hrest : rest.map (StreamRow.write old.id now data) = rest := by
    refine (List.map_congr_left fun r hr => if_neg fun hid => hids.1 ?_).trans (List.map_id _)
    exact hid ▸ List.mem_map_of_mem hr
  have hwritten := hperm.map (StreamRow.write old.id now data)
  rw [List.map_cons, hrest, StreamRow.write, if_pos rfl] at hwritten
  exact ⟨old, rest, hperm, (List.pairwise_cons.mp hsorted).1, hwritten⟩

theorem push_none (h : push_stream_data sql s now data = none) : s.rows = [] := by
  have hsort := List.head?_eq_none_iff.mp (Option.map_eq_none_iff.mp h)
  exact ((sql.perm s.rows).symm.trans (.of_eq hsort)).eq_nil

theorem push_holds (h : push_stream_data sql s now data = some s')
    (hclock : ∀ p ∈ held s.rows, p.1 ≤ now) : StepHolds s s' (.push now data) := by
  obtain ⟨old, rest, hrows, holdest, hrows'⟩ := push_ok h
  have hnew : (held s'.rows).Perm ((now, data) :: held rest) := held_perm hrows'
  have hpush := (List.perm_append_singleton (now, data) (held s.rows)).trans
    ((held_perm hrows).cons _)
  cases hvalid : old.valid with
  | false =>
    -- Nothing is given up with a row that is not valid.
    have hheld : held (old :: rest) = held rest := by simp [held, hvalid]
    rw [hheld] at hpush
    refine ⟨[], ?_, fun _ hgone => absurd hgone List.not_mem_nil⟩
    rw [List.append_nil]
    exact hpush.trans hnew.symm
  | true =>
    have hheld : held (old :: rest) = (old.recorded_at, old.data) :: held rest := by
      simp [held, hvalid]
    have hin := (held_perm hrows).symm.subset (hheld ▸ List.mem_cons_self)
    rw [hheld] at hpush
    refine ⟨[(old.recorded_at, old.data)], ?_, fun p hp r hr => ?_⟩
    · refine (hpush.trans (.swap _ _ _)).trans ?_
      exact (hnew.symm.cons _).trans (List.perm_append_singleton _ _).symm
    · rw [List.mem_singleton.mp hp]
      rcases List.mem_cons.mp (hrows'.subset hr) with rfl | hr
      · exact hclock _ hin
      · exact holdest r hr

theorem push_keeps (s : Stream τ δ) (hclock : ∀ p ∈ held s.rows, p.1 ≤ now) :
    StepHolds s ((push_stream_data sql s now data).getD s) (.push now data) ∧
      ((push_stream_data sql s now data).getD s).rows.length = s.rows.length := by
  cases hpush : push_stream_data sql s now data with
  | none =>
    have hnil := push_none hpush
    refine ⟨⟨[(now, data)], .refl _, fun _ _ r hr => ?_⟩, rfl⟩
    rw [Option.getD_none, hnil] at hr
    exact absurd hr List.not_mem_nil
  | some s' =>
    obtain ⟨old, rest, hrows, -, hrows'⟩ := push_ok hpush
    exact ⟨push_holds hpush hclock, hrows'.length_eq.trans hrows.length_eq.symm⟩

theorem clear_holds (s : Stream τ δ) (older_than : Option τ) :
    StepHolds s (clear_stream_data s older_than) (.clear older_than) := by
  have hheld : held (s.rows.map (StreamRow.clear older_than)) =
      (held s.rows).filter fun r => !cleared older_than r.1 := by
    unfold held
    rw [List.filter_map, List.filter_map, List.map_map, List.filter_filter]
    simp [StreamRow.clear, Function.comp_def, Bool.and_comm]
  refine ⟨[], ?_, fun _ hgone => absurd hgone List.not_mem_nil⟩
  rw [List.append_nil, readingsStep, ← hheld]
  exact .refl _

/-- A check that deletes takes the oldest rows. -/
theorem delete_perm (s : Stream τ δ) (n : Nat) :
    (s.delete (((sql.sort s.rows).take n).map StreamRow.id)).rows.Perm
      ((sql.sort s.rows).drop n) := by
  rw [← filter_drop (((sql.perm s.rows).map _).nodup_iff.mpr s.ids) n]
  exact (sql.perm s.rows).symm.filter _

theorem delete_holds (s : Stream τ δ) (n m : Nat) (now : Nat → τ) :
    StepHolds s (s.delete (((sql.sort s.rows).take n).map StreamRow.id)) (.check m now) := by
  have hsorted := sql.sorted s.rows
  have hsplit := held_perm (sql.perm s.rows).symm
  rw [← List.take_append_drop n (sql.sort s.rows)] at hsorted hsplit
  rw [held_append] at hsplit
  refine ⟨held ((sql.sort s.rows).take n), ?_, fun old hold r hr => ?_⟩
  · exact (hsplit.trans List.perm_append_comm).trans
      ((held_perm (delete_perm s n)).symm.append_right _)
  · obtain ⟨row, hrow, htime⟩ := mem_held hold
    rw [← htime]
    exact (List.pairwise_append.mp hsorted).2.2 row hrow r ((delete_perm s n).subset hr)

theorem check_keeps (s : Stream τ δ) (n : Nat) (now : Nat → τ) :
    StepHolds s (manage_stream_table sql empty s n now) (.check n now) ∧
      (manage_stream_table sql empty s n now).rows.length = n := by
  unfold manage_stream_table
  split
  · refine ⟨delete_holds s _ n now, ?_⟩
    rw [(delete_perm s _).length_eq, List.length_drop, (sql.perm s.rows).length_eq]
    omega
  · refine ⟨⟨[], ?_, fun _ hgone => absurd hgone List.not_mem_nil⟩, ?_⟩
    · have hnone : held ((List.range (n - s.rows.length)).map fun k =>
          (⟨s.next_id + k, now k, empty, false⟩ : StreamRow τ δ)) = [] := by simp [held]
      rw [readingsStep, Stream.insert, held_append, hnone, List.append_nil, List.append_nil]
    · simp only [Stream.insert, List.length_append, List.length_map, List.length_range]
      omega

/-! ## Whole runs -/

theorem step_keeps (sql : OldestFirst τ δ) (empty : δ) (s : Stream τ δ) (op : StreamOp τ δ)
    (hclock : ∀ p ∈ held s.rows, ∀ now ∈ op.pushTime, p.1 ≤ now) :
    StepHolds s (streamStep sql empty s op) op ∧
      (streamStep sql empty s op).rows.length = lengthStep s.rows.length op := by
  cases op with
  | push now data => exact push_keeps s fun p hp => hclock p hp now rfl
  | clear older_than => exact ⟨clear_holds s older_than, List.length_map _⟩
  | check n now => exact check_keeps s n now

theorem readings_pushed (ops : List (StreamOp τ δ)) {p : τ × δ}
    (h : p ∈ ops.foldl readingsStep []) : .push p.1 p.2 ∈ ops := by
  induction ops using List.reverseRecOn with
  | nil => exact absurd h List.not_mem_nil
  | append_singleton ops op ih =>
    rw [List.foldl_append] at h
    rcases mem_readings h with h | rfl
    · exact List.mem_append_left _ (ih h)
    · exact List.mem_append_right _ List.mem_cons_self

/-- The times of the pushes, in their order. -/
def clock (ops : List (StreamOp τ δ)) : List τ := ops.filterMap StreamOp.pushTime

theorem clock_step {ops : List (StreamOp τ δ)} (h : (clock (ops ++ [op])).Pairwise (· ≤ ·)) :
    (clock ops).Pairwise (· ≤ ·) ∧
      ∀ p ∈ ops.foldl readingsStep [], ∀ now ∈ op.pushTime, p.1 ≤ now := by
  rw [clock, List.filterMap_append, List.pairwise_append] at h
  refine ⟨h.1, fun p hp now hnow => h.2.2 p.1 ?_ now ?_⟩
  · exact List.mem_filterMap.mpr ⟨_, readings_pushed ops hp, rfl⟩
  · exact List.mem_filterMap.mpr ⟨op, List.mem_cons_self, hnow⟩

/-- The leaf after some ops. -/
structure HoldsAfter (ops : List (StreamOp τ δ)) (s : Stream τ δ) : Prop where
  newest : HoldsNewest (ops.foldl readingsStep []) s.rows
  length : s.rows.length = ops.foldl lengthStep 0

theorem step_holds {ops : List (StreamOp τ δ)} (h : HoldsAfter ops s)
    (hclock : ∀ p ∈ ops.foldl readingsStep [], ∀ now ∈ op.pushTime, p.1 ≤ now) :
    StepHolds s (streamStep sql empty s op) op ∧
      HoldsAfter (ops ++ [op]) (streamStep sql empty s op) := by
  obtain ⟨lost, hperm, -⟩ := h.newest
  obtain ⟨hstep, hlength⟩ := step_keeps sql empty s op fun p hp =>
    hclock p (hperm.symm.subset (List.mem_append_left _ hp))
  refine ⟨hstep, ?_, ?_⟩
  · rw [List.foldl_append]
    exact hstep.newest h.newest hclock
  · rw [List.foldl_append, hlength, h.length]
    rfl

theorem run_holds (ops : List (StreamOp τ δ)) (hclock : (clock ops).Pairwise (· ≤ ·)) :
    HoldsAfter ops (ops.foldl (streamStep sql empty) .empty) := by
  induction ops using List.reverseRecOn with
  | nil => exact ⟨⟨[], .refl _, fun _ h => absurd h List.not_mem_nil⟩, rfl⟩
  | append_singleton ops op ih =>
    obtain ⟨hbefore, hlast⟩ := clock_step hclock
    rw [List.foldl_append]
    exact (step_holds (ih hbefore) hlast).2

/-- As long as the times of the pushes do not go back, the leaf holds the newest readings, and
no op gives up a reading that is newer than a row that is left. -/
theorem pushes_keep_the_newest (sql : OldestFirst τ δ) (empty : δ) (ops : List (StreamOp τ δ))
    (hclock : (clock ops).Pairwise (· ≤ ·)) :
    HoldsAfter ops (ops.foldl (streamStep sql empty) .empty) ∧
      ∀ before op after, ops = before ++ op :: after →
        StepHolds (before.foldl (streamStep sql empty) .empty)
          ((before ++ [op]).foldl (streamStep sql empty) .empty) op := by
  refine ⟨run_holds ops hclock, ?_⟩
  rintro before op after rfl
  rw [List.append_cons, clock, List.filterMap_append, List.pairwise_append] at hclock
  obtain ⟨hbefore, hlast⟩ := clock_step hclock.1
  rw [List.foldl_append]
  exact (step_holds (run_holds before hbefore) hlast).1

/-- Rows of one time stay in their order. -/
def stableOrder : OldestFirst String Nat where
  sort := List.insertionSort fun a b => a.recorded_at ≤ b.recorded_at
  perm := List.perm_insertionSort _
  sorted rows :=
    have : Std.Total fun a b : StreamRow String Nat => a.recorded_at ≤ b.recorded_at :=
      ⟨fun a b => le_total a.recorded_at b.recorded_at⟩
    have : IsTrans (StreamRow String Nat) fun a b => a.recorded_at ≤ b.recorded_at :=
      ⟨fun _ _ _ h h' => h.trans h'⟩
    List.pairwise_insertionSort _ rows

/-- Two rows are made ready, and three readings come. -/
def threeReadings : List (StreamOp String Nat) :=
  [.check 2 fun _ => "2026-06-01 08:00:00", .push "2026-06-01T08:00:05" 1,
    .push "2026-06-01T08:00:10" 2, .push "2026-06-01T08:00:15" 3]

theorem two_rows_hold_two_readings :
    HoldsAfter threeReadings (threeReadings.foldl (streamStep stableOrder 0) .empty) ∧
      (threeReadings.foldl (streamStep stableOrder 0) .empty).rows.map StreamRow.data = [3, 2] :=
  ⟨(pushes_keep_the_newest stableOrder 0 threeReadings (by decide +kernel)).1, by decide +kernel⟩

end motioncore.persistence.stream
