-- Every day of CIMIS comes out once, in order: over all runs of the ticks, as long as no day
-- becomes final behind a later one that was recorded, no day comes twice in one reply, and what
-- is recorded can be encoded and is taken.
import MotionCore.Farm.Cimis
import MotionCore.Lib.Runs

namespace motioncore.farm

open motioncore.machine motioncore.raising

variable {α : Type}

/-! ## What should hold -/

/-- The days on the sample leaf of a source, in the order of the publishes. -/
def sampleDates (id : SourceId) (ps : List (Publication α)) : List String :=
  (ps.filter fun p => p.id = id ∧ p.leaf = .sample).map (·.reading.date)

/-- The days of a source come in order, each of them once. What is published is final, and of a
day before the one of the tick. -/
structure Daily (s : Robot α) : Prop where
  increasing : ∀ id, (sampleDates id s.published).Pairwise (· < ·)
  final : ∀ p ∈ s.published, ¬ p.reading.qc.any (Json.isStr "A") ∧ p.reading.date < p.today

/-- The reply has a value for the day that is final. -/
def ReportsFinal (lua : Lua α) (body : Option (Json α)) (kind date : String) : Prop :=
  ∃ providers prov records rec target val value,
    (body.bind (Json.field · "Data")).bind (Json.field · "Providers") = some providers ∧
    prov ∈ providers.ipairs ∧ prov.field "Type" = some (.str kind) ∧
    prov.field "Records" = some records ∧ rec ∈ records.ipairs ∧
    rec.field "Date" = some (.str date) ∧ target_from_record lua rec kind = some target ∧
    rec.field MEASUREMENT = some val ∧ val.isTable ∧
    to_number lua (val.field "Value") = some value ∧ ¬ (val.field "Qc").any (Json.isStr "A")

/-- The tick gets past its gates, to a reply. -/
structure Fetches (cfg : Config) (s : Robot α) (i : Input α) (body : Option (Json α)) : Prop where
  behind : (s.sources i.id).last_recorded_date ≠ some i.tick.yesterday
  window : cfg.window_start_h ≤ i.tick.hour
  app_key : i.tick.app_key = true
  fetch : i.tick.fetch = .body body

/-- Each day that a reply reports as final is published when the tick ends. -/
def TakesEachDay (lua : Lua α) (cfg : Config) (srt : TableSort α) (s : Robot α) (i : Input α) :
    Prop :=
  ∀ body, Fetches cfg s i body → ∀ date, ReportsFinal lua body (cfg.target_kind i.id) date →
    date < i.tick.today → ∀ s', step lua cfg srt s i = some s' →
      date ∈ sampleDates i.id s'.published

/-! ## When it holds -/

def Json.isText : Json α → Bool
  | .str _ => true
  | _ => false

def finals (kind today : String) (rows : List (Row α)) : List (Reading α) :=
  rows.filterMap fun r =>
    if r.target_kind = kind ∧ r.item = MEASUREMENT then
      match r.date with
      | .str date => if date < today then finalReading r date else none
      | _ => none
    else none

/-- The readings that are later than the last day recorded. -/
def newer (last : String) (rs : List (Reading α)) : List (Reading α) :=
  rs.filter fun r => last < r.date

def lastDate (s : Robot α) (id : SourceId) : String := (s.sources id).last_recorded_date.getD ""

/-- What a reply needs, for its days to come out once each. -/
structure InOrder (lua : Lua α) (s : Robot α) (id : SourceId) (t : Tick α) (kind : String)
    (rows : List (Row α)) : Prop where
  texts : ∀ r ∈ rows, r.target_kind = kind → r.item = MEASUREMENT → r.date.isText = true
  once : ((newer (lastDate s id) (finals kind t.today rows)).map (·.date)).Nodup
  /-- No day becomes final behind the last one that was recorded. -/
  timely : ∀ r ∈ finals kind t.today rows,
    lastDate s id < r.date ∨ r.date ∈ sampleDates id s.published
  encodes : ∀ r ∈ newer (lastDate s id) (finals kind t.today rows), r.encodes lua = true
  taken : ∀ n, t.taken .sample n = true

def Orderly (lua : Lua α) (cfg : Config) (s : Robot α) (i : Input α) : Prop :=
  ∀ body, Fetches cfg s i body →
    InOrder lua s i.id i.tick (cfg.target_kind i.id) (parse_response lua body)

/-! ## The decoder -/

theorem mem_lastFields {k : String} {v : Json α} {fields : List (String × Json α)}
    (h : (lastFields fields).lookup k = some v) : (k, v) ∈ lastFields fields := by
  obtain ⟨before, after, heq, -⟩ := List.lookup_eq_some_iff.mp h
  rw [heq]
  exact List.mem_append_right _ List.mem_cons_self

theorem mem_pairs {rec : Json α} {k : String} {v : Json α} (h : rec.field k = some v) :
    (k, v) ∈ rec.pairs := by
  unfold Json.field at h
  have hlookup : rec.pairs.lookup k = some v := by
    split at h
    · exact absurd h.symm (Option.some_ne_none _)
    · exact h
  cases rec with
  | obj fields => exact mem_lastFields hlookup
  | _ => exact absurd hlookup.symm (Option.some_ne_none _)

variable {kind today : String}

theorem reported_row {lua : Lua α} {body : Option (Json α)} {date : String}
    (h : ReportsFinal lua body kind date) (hdate : date < today) :
    ∃ r ∈ finals kind today (parse_response lua body), r.date = date := by
  obtain ⟨providers, prov, records, rec, target, val, value, hproviders, hprov, htype, hrecords,
    hrec, hday, htarget, hval, htable, hvalue, hqc⟩ := h
  let row : Row α := .mk kind target (.str date) MEASUREMENT (some value) (val.field "Unit")
    (val.field "Qc")
  have hrow : row ∈ recordRows lua kind rec := by
    unfold recordRows
    rw [hday, htarget]
    refine List.mem_map.mpr ⟨(MEASUREMENT, val), List.mem_filter.mpr ⟨mem_pairs hval, ?_⟩, ?_⟩
    · rw [decide_eq_true_eq]
      exact ⟨by decide +kernel, htable⟩
    · dsimp only [row]
      rw [hvalue]
  have hmem : row ∈ parse_response lua body := by
    unfold parse_response
    rw [hproviders]
    refine List.mem_flatMap.mpr ⟨prov, hprov, ?_⟩
    unfold providerRows
    rw [htype, hrecords]
    exact List.mem_flatMap.mpr ⟨rec, hrec, hrow⟩
  refine ⟨⟨kind, target, date, MEASUREMENT, value, row.unit, row.qc⟩, ?_, rfl⟩
  refine List.mem_filterMap.mpr ⟨row, hmem, ?_⟩
  rw [if_pos ⟨rfl, rfl⟩]
  dsimp only [row]
  rw [if_pos hdate]
  unfold finalReading
  dsimp only
  rw [if_neg hqc]

theorem finals_final {rows : List (Row α)} {r : Reading α} (h : r ∈ finals kind today rows) :
    ¬ r.qc.any (Json.isStr "A") ∧ r.date < today := by
  obtain ⟨row, -, hrow⟩ := List.mem_filterMap.mp h
  obtain ⟨-, hrow⟩ := Option.ite_none_right_eq_some.mp hrow
  cases hdate : row.date with
  | str date =>
    rw [hdate] at hrow
    obtain ⟨hlt, hrow⟩ := Option.ite_none_right_eq_some.mp hrow
    unfold finalReading at hrow
    cases hvalue : row.value with
    | none =>
      rw [hvalue] at hrow
      exact absurd hrow.symm (Option.some_ne_none _)
    | some value =>
      rw [hvalue] at hrow
      obtain ⟨hqc, hrow⟩ := Option.ite_none_left_eq_some.mp hrow
      obtain rfl := Option.some.inj hrow
      exact ⟨hqc, hlt⟩
  | _ =>
    rw [hdate] at hrow
    exact absurd hrow.symm (Option.some_ne_none _)

/-- When the dates are texts, the filter passes the final readings that are new. -/
theorem filterRows_eq {last : String} {rows : List (Row α)}
    (htexts : ∀ r ∈ rows, r.target_kind = kind → r.item = MEASUREMENT → r.date.isText = true) :
    filterRows kind last today rows = some (newer last (finals kind today rows)) := by
  induction rows with
  | nil => rfl
  | cons r rest ih =>
    have hrest := ih fun r' hr' => htexts r' (List.mem_cons_of_mem _ hr')
    unfold filterRows finals
    rw [List.filterMap_cons]
    by_cases hkind : r.target_kind = kind ∧ r.item = MEASUREMENT
    swap
    · rw [if_neg hkind, if_neg hkind]
      exact hrest
    rw [if_pos hkind, if_pos hkind]
    have htext := htexts r List.mem_cons_self hkind.1 hkind.2
    cases hdate : r.date with
    | str date =>
      dsimp only
      rw [hrest]
      unfold newer
      by_cases hlt : date < today
      swap
      · rw [if_neg fun h => hlt h.2, if_neg hlt]
        rfl
      rw [if_pos hlt]
      cases hfinal : finalReading r date with
      | none =>
        rw [Option.toList_none, ite_self]
        rfl
      | some reading =>
        have hreading : reading.date = date := by
          unfold finalReading at hfinal
          cases hvalue : r.value with
          | none =>
            rw [hvalue] at hfinal
            exact absurd hfinal.symm (Option.some_ne_none _)
          | some value =>
            rw [hvalue] at hfinal
            obtain ⟨-, hfinal⟩ := Option.ite_none_left_eq_some.mp hfinal
            obtain rfl := Option.some.inj hfinal
            rfl
        dsimp only
        rw [List.filter_cons, hreading]
        by_cases hlast : last < date
        · rw [if_pos ⟨hlast, hlt⟩, if_pos (by simpa using hlast)]
          rfl
        · rw [if_neg fun h => hlast h.1, if_neg (by simpa using hlast)]
          rfl
    | _ =>
      rw [hdate] at htext
      exact Bool.noConfusion htext

/-! ## One tick -/

/-- The days were recorded for the source and published, and nothing else was. -/
structure Recorded (s₀ : Robot α) (id : SourceId) (today : String) (rs : List (Reading α))
    (s : Robot α) : Prop where
  dates : sampleDates id s.published = sampleDates id s₀.published ++ rs.map (·.date)
  last : (s.sources id).last_recorded_date =
    (rs.getLast?.map (·.date)).or (s₀.sources id).last_recorded_date
  others : ∀ id', id' ≠ id → s.sources id' = s₀.sources id' ∧
    sampleDates id' s.published = sampleDates id' s₀.published
  new : ∀ p ∈ s.published, p ∈ s₀.published ∨ p.reading ∈ rs ∧ p.today = today

theorem Recorded.refl (s : Robot α) (id : SourceId) (today : String) :
    Recorded s id today [] s where
  dates := (List.append_nil _).symm
  last := (Option.none_or).symm
  others _ _ := ⟨rfl, rfl⟩
  new _ hp := Or.inl hp

variable {s : Robot α}

theorem Recorded.trans {s₀ s₁ : Robot α} {id : SourceId} {rs rs' : List (Reading α)}
    (h : Recorded s₀ id today rs s₁) (h' : Recorded s₁ id today rs' s) :
    Recorded s₀ id today (rs ++ rs') s where
  dates := by rw [h'.dates, h.dates, List.map_append, List.append_assoc]
  last := by
    rw [h'.last, h.last, List.getLast?_append, ← Option.or_assoc]
    cases rs'.getLast? <;> rfl
  others id' hid := ⟨((h'.others id' hid).1).trans (h.others id' hid).1,
    ((h'.others id' hid).2).trans (h.others id' hid).2⟩
  new p hp := by
    rcases h'.new p hp with hp | ⟨hp, htoday⟩
    · rcases h.new p hp with hp | ⟨hp, htoday⟩
      · exact Or.inl hp
      · exact Or.inr ⟨List.mem_append_left _ hp, htoday⟩
    · exact Or.inr ⟨List.mem_append_right _ hp, htoday⟩

variable {lua : Lua α} {cfg : Config} {srt : TableSort α}

theorem day_recorded (s₀ : Robot α) (id : SourceId) (t : Tick α) (r : Reading α)
    (latest : List (Publication α)) (hlatest : ∀ p ∈ latest, p = ⟨id, .latest, r, t.today⟩) :
    Recorded s₀ id t.today [r] { record id r s₀ with
      published := s₀.published ++ [⟨id, .sample, r, t.today⟩] ++ latest } := by
  have hnone : ∀ id', latest.filter (fun p => p.id = id' ∧ p.leaf = .sample) = [] := by
    intro id'
    refine List.filter_eq_nil_iff.mpr fun p hp => ?_
    rw [hlatest p hp]
    simp
  refine ⟨?_, ?_, ?_, ?_⟩
  · unfold sampleDates
    dsimp only
    rw [List.filter_append, hnone, List.append_nil, List.filter_append, List.map_append]
    simp
  · unfold record
    dsimp only
    rw [Function.update_self]
    rfl
  · intro id' hid
    refine ⟨Function.update_of_ne hid _ _, ?_⟩
    unfold sampleDates
    dsimp only
    rw [List.filter_append, hnone, List.append_nil, List.filter_append]
    simp [Ne.symm hid]
  · intro p hp
    rcases List.mem_append.mp hp with hp | hp
    · rcases List.mem_append.mp hp with hp | hp
      · exact Or.inl hp
      · rw [List.mem_singleton.mp hp]
        exact Or.inr ⟨List.mem_cons_self, rfl⟩
    · rw [hlatest p hp]
      exact Or.inr ⟨List.mem_cons_self, rfl⟩

variable (lua) in
theorem record_days_recorded (id : SourceId) (t : Tick α) (htaken : ∀ n, t.taken .sample n = true)
    (rs : List (Reading α)) (hencodes : ∀ r ∈ rs, r.encodes lua = true) (n : Nat) (s₀ : Robot α) :
    Triple (fun s => s = s₀) (record_days lua id t n rs) (fun _ => Recorded s₀ id t.today rs)
      (fun _ => False) := by
  induction rs generalizing n s₀ with
  | nil => exact triple_pure fun s hs => hs ▸ .refl s₀ id t.today
  | cons r rest ih =>
    have hr := hencodes r List.mem_cons_self
    have ih := ih fun r' hr' => hencodes r' (List.mem_cons_of_mem _ hr')
    unfold record_days publish_to
    dsimp only
    rw [if_pos hr, if_pos hr, htaken n, if_pos rfl]
    refine triple_bind (Q := fun _ s => s = record id r s₀) (triple_modify fun _ hs => hs ▸ rfl)
      fun _ => ?_
    refine triple_bind (Q := fun _ s => s = { record id r s₀ with
      published := s₀.published ++ [⟨id, .sample, r, t.today⟩] }) (triple_modify fun _ hs => ?_)
      fun _ => ?_
    · rw [hs]
      rfl
    refine triple_bind (Q := fun _ => Recorded s₀ id t.today [r]) (triple_modify fun _ hs => ?_)
      fun _ => triple_start fun s₁ hs₁ => ?_
    · rw [hs]
      refine day_recorded s₀ id t r _ fun p hp => ?_
      split at hp
      · exact List.mem_singleton.mp hp
      · exact absurd hp List.not_mem_nil
    · exact (ih (n + 1) s₁).conseq (fun _ hs => hs) (fun _ _ hrest => hs₁.trans hrest)
        fun _ hf => hf

variable (srt) in
theorem tick_program (s : Robot α) (i : Input α) :
    (cimis_tick_impl lua cfg srt i.id i.tick).after s =
      Prog.after (if (s.sources i.id).last_recorded_date = some i.tick.yesterday then pure ()
        else if i.tick.hour < cfg.window_start_h then pure ()
        else if ¬ i.tick.app_key then pure ()
        else match i.tick.fetch with
          | .failed => pure ()
          | .body decoded =>
            match filterRows (cfg.target_kind i.id) ((s.sources i.id).last_recorded_date.getD "")
                i.tick.today (parse_response lua decoded) with
            | none => throw ()
            | some pending => record_days lua i.id i.tick 0 (srt.sort pending)) s := rfl

variable (srt) in
/-- A tick leaves the state, or it fetches a reply and records the days that are new. -/
theorem tick_cases {s : Robot α} {i : Input α} (hok : Orderly lua cfg s i) :
    (¬ (∃ body, Fetches cfg s i body) ∧ (cimis_tick_impl lua cfg srt i.id i.tick).after s = s) ∨
      ∃ body, Fetches cfg s i body ∧ Recorded s i.id i.tick.today
        (srt.sort (newer (lastDate s i.id)
          (finals (cfg.target_kind i.id) i.tick.today (parse_response lua body))))
        ((cimis_tick_impl lua cfg srt i.id i.tick).after s) := by
  have hskip : ∀ m : Prog (Robot α) Unit, m = pure () → m.after s = s := by
    rintro _ rfl
    rfl
  let state := s.sources i.id
  rw [tick_program srt]
  by_cases hbehind : state.last_recorded_date = some i.tick.yesterday
  · rw [if_pos hbehind]
    exact Or.inl ⟨fun h => h.choose_spec.behind hbehind, rfl⟩
  rw [if_neg hbehind]
  by_cases hwindow : i.tick.hour < cfg.window_start_h
  · rw [if_pos hwindow]
    exact Or.inl ⟨fun h => absurd hwindow (Nat.not_lt.mpr h.choose_spec.window), rfl⟩
  rw [if_neg hwindow]
  by_cases hkey : ¬ i.tick.app_key = true
  · rw [if_pos hkey]
    exact Or.inl ⟨fun h => hkey h.choose_spec.app_key, rfl⟩
  rw [if_neg hkey]
  cases hfetch : i.tick.fetch with
  | failed =>
    refine Or.inl ⟨fun h => ?_, rfl⟩
    rw [h.choose_spec.fetch] at hfetch
    cases hfetch
  | body decoded =>
    have hf : Fetches cfg s i decoded :=
      ⟨hbehind, Nat.le_of_not_lt hwindow, not_not.mp hkey, hfetch⟩
    have hin := hok decoded hf
    refine Or.inr ⟨decoded, hf, ?_⟩
    dsimp only
    rw [filterRows_eq hin.texts]
    have hdays := record_days_recorded lua i.id i.tick hin.taken
      (srt.sort (newer (lastDate s i.id)
        (finals (cfg.target_kind i.id) i.tick.today (parse_response lua decoded))))
      (fun r hr => hin.encodes r ((srt.perm _).mem_iff.mp hr)) 0 s
    exact Triple.after (hdays.conseq (fun _ hs => hs) (fun _ _ h => h) fun _ hf => hf.elim) rfl

/-! ## Every run -/

/-- The days of a source come in order, up to the last one recorded. -/
structure Gated (s : Robot α) : Prop where
  daily : Daily s
  upto : ∀ id, ∀ date ∈ sampleDates id s.published,
    ∃ last, (s.sources id).last_recorded_date = some last ∧ date ≤ last

theorem init_gated : Gated (.init : Robot α) where
  daily := ⟨fun _ => List.Pairwise.nil, fun _ hp => absurd hp List.not_mem_nil⟩
  upto _ _ hdate := absurd hdate List.not_mem_nil

/-- The readings that are recorded come in order, behind the last day. -/
theorem sorted_increasing {last : String} {rs : List (Reading α)}
    (honce : ((newer last rs).map (·.date)).Nodup) :
    ((srt.sort (newer last rs)).map (·.date)).Pairwise (· < ·) := by
  have hperm := srt.perm (newer last rs)
  have hnodup : ((srt.sort (newer last rs)).map (·.date)).Nodup :=
    (hperm.map _).nodup_iff.mpr honce
  have hsorted : ((srt.sort (newer last rs)).map (·.date)).Pairwise (· ≤ ·) :=
    List.pairwise_map.mpr (srt.sorted _)
  exact (hsorted.and hnodup).imp fun h => lt_of_le_of_ne h.1 h.2

theorem step_gated {s' : Robot α} {i : Input α} (hs : Gated s) (hok : Orderly lua cfg s i)
    (hstep : step lua cfg srt s i = some s') : Gated s' := by
  obtain rfl := Option.some.inj hstep
  rcases tick_cases srt hok with ⟨-, hsame⟩ | ⟨body, hf, hr⟩
  · rw [hsame]
    exact hs
  have honce := (hok body hf).once
  generalize hrs : finals (cfg.target_kind i.id) i.tick.today (parse_response lua body) = rs at hr honce
  have hmem : ∀ r ∈ srt.sort (newer (lastDate s i.id) rs), r ∈ rs ∧ lastDate s i.id < r.date := by
    intro r hr
    obtain ⟨hr, hlt⟩ := List.mem_filter.mp ((srt.perm _).mem_iff.mp hr)
    exact ⟨hr, of_decide_eq_true hlt⟩
  have hsorted : ((srt.sort (newer (lastDate s i.id) rs)).map (·.date)).Pairwise (· < ·) :=
    sorted_increasing honce
  have hold : ∀ d ∈ sampleDates i.id s.published, d ≤ lastDate s i.id := by
    intro d hd
    obtain ⟨last, hlast, hle⟩ := hs.upto i.id d hd
    unfold lastDate
    rw [hlast]
    exact hle
  refine ⟨⟨?_, ?_⟩, ?_⟩
  · intro id
    by_cases hid : id = i.id
    · rw [hid, hr.dates]
      refine List.pairwise_append.mpr ⟨hs.daily.increasing i.id, hsorted, ?_⟩
      intro d hd d' hd'
      obtain ⟨r, hr, rfl⟩ := List.mem_map.mp hd'
      exact (hold d hd).trans_lt (hmem r hr).2
    · rw [(hr.others id hid).2]
      exact hs.daily.increasing id
  · intro p hp
    rcases hr.new p hp with hp | ⟨hp, htoday⟩
    · exact hs.daily.final p hp
    · have hfinal := (hmem p.reading hp).1
      rw [← hrs] at hfinal
      rw [htoday]
      exact finals_final hfinal
  · intro id d hd
    by_cases hid : id = i.id
    swap
    · rw [(hr.others id hid).2] at hd
      rw [(hr.others id hid).1]
      exact hs.upto id d hd
    subst hid
    rw [hr.dates] at hd
    rw [hr.last]
    generalize srt.sort (newer (lastDate s i.id) rs) = days at hmem hsorted hd
    cases hlast : days.getLast? with
    | none =>
      rw [List.getLast?_eq_none_iff.mp hlast, List.map_nil, List.append_nil] at hd
      exact hs.upto i.id d hd
    | some r =>
      refine ⟨r.date, rfl, ?_⟩
      obtain ⟨before, rfl⟩ := List.getLast?_eq_some_iff.mp hlast
      have hlt := (hmem r (List.mem_append_right _ List.mem_cons_self)).2
      rcases List.mem_append.mp hd with hd | hd
      · exact ((hold d hd).trans_lt hlt).le
      rw [List.map_append, List.map_singleton] at hd hsorted
      rcases List.mem_append.mp hd with hd | hd
      · exact ((List.pairwise_append.mp hsorted).2.2 d hd r.date List.mem_cons_self).le
      · exact (List.mem_singleton.mp hd).le

theorem step_takes {i : Input α} (hok : Orderly lua cfg s i) : TakesEachDay lua cfg srt s i := by
  intro body hf date hreport hlt s' hstep
  obtain rfl := Option.some.inj hstep
  rcases tick_cases srt hok with ⟨hnone, -⟩ | ⟨body', hf', hr⟩
  · exact absurd ⟨body, hf⟩ hnone
  have hbody : body' = body := Fetch.body.inj (hf'.fetch.symm.trans hf.fetch)
  subst hbody
  obtain ⟨r, hfinal, rfl⟩ := reported_row hreport hlt
  rw [hr.dates]
  rcases (hok body' hf).timely r hfinal with hnew | hold
  · apply List.mem_append_right
    refine List.mem_map.mpr ⟨r, (srt.perm _).mem_iff.mpr ?_, rfl⟩
    exact List.mem_filter.mpr ⟨hfinal, decide_eq_true hnew⟩
  · exact List.mem_append_left _ hold

/-- In every run whose replies are in order, the days of each source come in order, each of them
once and final, and each day that a reply reports as final is published. -/
theorem each_final_day_once (inputs : List (Input α))
    (hok : Meets (step lua cfg srt) (Orderly lua cfg) .init inputs) :
    (∀ s, runs (step lua cfg srt) .init inputs = some s → Daily s) ∧
      Meets (step lua cfg srt) (TakesEachDay lua cfg srt) .init inputs := by
  have hstep : ∀ s i s', Gated s → Orderly lua cfg s i → step lua cfg srt s i = some s' →
      Gated s' := fun _ _ _ hs hok hstep => step_gated hs hok hstep
  refine ⟨fun s hrun => (inv_runs hstep init_gated hok hrun).daily, ?_⟩
  exact meets_of_inv hstep (fun _ _ _ hok => step_takes hok) init_gated hok

/-! ## A day that becomes final late -/

/-- Numbers with two decimals, in replies that have no texts for them. -/
def hundredths : Lua Int where
  finite _ := true
  tonumber _ := none
  tostring
    | .str s => s
    | _ => ""

/-- Readings of one date stay in their order. -/
def stableSort : TableSort Int where
  sort := List.insertionSort fun a b => a.date ≤ b.date
  perm := List.perm_insertionSort _
  sorted l :=
    have : Std.Total fun a b : Reading Int => a.date ≤ b.date := ⟨fun a b => le_total a.date b.date⟩
    have : IsTrans (Reading Int) fun a b => a.date ≤ b.date := ⟨fun _ _ _ h h' => h.trans h'⟩
    List.pairwise_insertionSort _ l

def classSpec : Config where
  window_start_h := 9
  target_kind
    | .station => "station"
    | .spatial => "spatial"

/-- A reply for station 237, with the date, the value and the flag of each record. -/
def stationReply (records : List (String × Int × String)) : Json Int :=
  .obj [("Data", .obj [("Providers", .arr [.obj [("Type", .str "station"), ("Records", .arr
    (records.map fun (date, value, qc) => .obj [("Date", .str date), ("Station", .str "237"),
      (MEASUREMENT, .obj [("Value", .num value), ("Qc", .str qc)])]))]])])]

def stationTick (yesterday today : String) (records : List (String × Int × String)) : Input Int where
  id := .station
  tick := {
    yesterday, today
    hour := 9
    app_key := true
    fetch := .body (some (stationReply records))
    taken := fun _ _ => true }

/-- A day is not final yet, and then it is. -/
def inOrderRun : List (Input Int) :=
  [stationTick "2026-06-01" "2026-06-02" [("2026-05-31", 18, "Y"), ("2026-06-01", 20, "A")],
    stationTick "2026-06-01" "2026-06-02" [("2026-05-31", 18, "Y"), ("2026-06-01", 19, "Y")]]

theorem days_in_order : ∃ s, runs (step hundredths classSpec stableSort) .init inOrderRun = some s ∧
    sampleDates .station s.published = ["2026-05-31", "2026-06-01"] ∧ Daily s := by
  have hdates : (runs (step hundredths classSpec stableSort) .init inOrderRun).map
      (fun s => sampleDates .station s.published) = some ["2026-05-31", "2026-06-01"] := by
    decide +kernel
  obtain ⟨s, hrun, hdates⟩ := Option.map_eq_some_iff.mp hdates
  refine ⟨s, hrun, hdates, (each_final_day_once inOrderRun ⟨?_, ?_⟩).1 s hrun⟩
  · rintro body ⟨-, -, -, ⟨⟩⟩
    exact ⟨by decide +kernel, by decide +kernel, by decide +kernel, by decide +kernel, fun _ => rfl⟩
  rintro _ ⟨⟩
  refine ⟨?_, fun _ _ => trivial⟩
  rintro body ⟨-, -, -, ⟨⟩⟩
  exact ⟨by decide +kernel, by decide +kernel, by decide +kernel, by decide +kernel, fun _ => rfl⟩

/-- The second day is recorded first, and then the first one is final. -/
def lateRun : List (Input Int) :=
  [stationTick "2026-06-01" "2026-06-02" [("2026-05-31", 18, "A"), ("2026-06-01", 20, "Y")],
    stationTick "2026-06-02" "2026-06-03" [("2026-05-31", 17, "Y"), ("2026-06-01", 20, "Y")]]

/-- A day that becomes final behind the last one recorded never comes out. -/
theorem late_day_is_lost :
    ¬ ∀ (inputs : List (Input Int)),
      (∀ s, runs (step hundredths classSpec stableSort) .init inputs = some s → Daily s) ∧
        Meets (step hundredths classSpec stableSort)
          (TakesEachDay hundredths classSpec stableSort) .init inputs := by
  intro hall
  have hlast : (runs (step hundredths classSpec stableSort) .init lateRun).map
      (fun s => sampleDates .station s.published) = some ["2026-06-01"] := by
    decide +kernel
  obtain ⟨s, hrun, hdates⟩ := Option.map_eq_some_iff.mp hlast
  have htakes := ((hall lateRun).2.2 _ rfl).1
  have hfetches : Fetches classSpec ((cimis_tick_impl hundredths classSpec stableSort .station
      (stationTick "2026-06-01" "2026-06-02"
        [("2026-05-31", 18, "A"), ("2026-06-01", 20, "Y")]).tick).after .init)
      (stationTick "2026-06-02" "2026-06-03" [("2026-05-31", 17, "Y"), ("2026-06-01", 20, "Y")])
      (some (stationReply [("2026-05-31", 17, "Y"), ("2026-06-01", 20, "Y")])) :=
    ⟨by decide +kernel, by decide, rfl, rfl⟩
  have hmem : "2026-05-31" ∈ sampleDates .station s.published :=
    htakes _ hfetches "2026-05-31" ?_ (by decide +kernel) s ?_
  · rw [hdates] at hmem
    exact absurd hmem (by decide)
  · exact ⟨_, _, _, _, _, _, _, rfl, List.mem_cons_self, rfl, rfl, List.mem_cons_self, rfl, rfl,
      rfl, rfl, rfl, by decide⟩
  · exact hrun

end motioncore.farm
