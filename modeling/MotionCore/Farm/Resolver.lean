-- The daily ETo resolver (farm_soil/chains/eto_resolver_user_functions.lua): the first source
-- with a good record for yesterday is published. The guard against a second record of a day
-- also asks who won, so a source that comes later publishes the day again.
import Mathlib.Algebra.Ring.Int.Defs
import Mathlib.Data.List.Induction
import Mathlib.Data.List.Nodup

namespace motioncore.farm.resolver

variable {α : Type}

structure StationRecord (α : Type) where
  date : Option String
  eto : Option α
  coverage : Option α
  n_obs : Option α
  status : Option String

structure CimisRecord (α : Type) where
  date : Option String
  value : Option α

/-- The part of the blackboard that the sources fill. -/
structure Blackboard (α : Type) where
  synoptic : String → Option (StationRecord α)
  cimis : String → Option (CimisRecord α)

inductive Verdict where
  | ok | no_record | stale | sparse | low_coverage
deriving DecidableEq, Repr

structure Probed (α : Type) where
  verdict : Verdict
  date : Option String
  eto_in : Option α
  coverage : Option α
  n_obs : Option α
  status_str : Option String

/-- The fields of `eto_resolver`, with their defaults in place. -/
structure Config (α : Type) where
  priority : List String
  min_coverage : α

structure Summary (α : Type) where
  date : String
  eto_in : Option α
  source : String
  coverage : Option α
  n_obs : Option α
  status : String
  fallback_chain : List (String × Probed α)
  priority : List String
  min_coverage : α

/-- `bb._eto_resolver`, and what the two leaves hold. -/
structure State (α : Type) where
  last_published_date : Option String
  last_winner : Option String
  last_record : Option (Summary α)
  last_chain : List (String × Probed α)
  daily : List (Summary α)
  latest : Option (Summary α)

def State.init : State α := ⟨none, none, none, [], [], none⟩

/-- What a tick finds: the records of the sources, the day, and whether the broker takes what
is published to the leaves. -/
structure Tick (α : Type) where
  bb : Blackboard α
  yesterday : String
  daily_ok : Bool
  latest_ok : Bool

section resolver

variable [One α] [LT α] [DecidableLT α]

def probe_source (bb : Blackboard α) (source_id yesterday : String) (min_coverage : α) :
    Probed α :=
  if source_id = "SE224" ∨ source_id = "SRUC1" then
    match bb.synoptic source_id with
    | none => ⟨.no_record, none, none, none, none, none⟩
    | some r =>
      let seen (verdict : Verdict) : Probed α :=
        ⟨verdict, r.date, r.eto, r.coverage, r.n_obs, r.status⟩
      if r.date ≠ some yesterday then seen .stale
      else if r.status ≠ some "OK" then
        seen (if r.status = some "SPARSE" then .sparse else .low_coverage)
      else if r.coverage.getD 1 < min_coverage then seen .low_coverage
      else seen .ok
  else if source_id = "cimis_spatial" ∨ source_id = "cimis_station" then
    match bb.cimis (if source_id = "cimis_spatial" then "spatial" else "station") with
    | none => ⟨.no_record, none, none, none, none, none⟩
    | some r =>
      if r.date ≠ some yesterday then ⟨.stale, r.date, r.value, none, none, none⟩
      else if r.value.isNone then ⟨.no_record, r.date, none, none, none, none⟩
      else ⟨.ok, r.date, r.value, some 1, none, none⟩
  else ⟨.no_record, none, none, none, none, none⟩

variable (cfg : Config α)

def chain (t : Tick α) : List (String × Probed α) :=
  cfg.priority.map fun src => (src, probe_source t.bb src t.yesterday cfg.min_coverage)

def winner (t : Tick α) : Option (String × Probed α) :=
  (chain cfg t).find? fun v => v.2.verdict = .ok

def summarize (t : Tick α) (source : String) (v : Probed α) : Summary α where
  date := t.yesterday
  eto_in := v.eto_in
  source := source
  coverage := v.coverage
  n_obs := v.n_obs
  status := v.status_str.getD "OK"
  fallback_chain := chain cfg t
  priority := cfg.priority
  min_coverage := cfg.min_coverage

/-- A publish that the broker does not take is logged only. -/
def publish_resolution (t : Tick α) (summary : Summary α) (s : State α) : State α :=
  { s with
    daily := if t.daily_ok then s.daily ++ [summary] else s.daily
    latest := if t.latest_ok then some summary else s.latest }

def ETO_RESOLVE_TICK (s : State α) (t : Tick α) : State α :=
  match winner cfg t with
  | none => { s with last_chain := chain cfg t }
  | some (source, v) =>
    if s.last_published_date = some t.yesterday ∧ s.last_winner = some source then
      { s with last_chain := chain cfg t }
    else
      let summary := summarize cfg t source v
      { publish_resolution t summary s with
        last_published_date := some t.yesterday
        last_winner := some source
        last_record := some summary
        last_chain := chain cfg t }

def run (ts : List (Tick α)) : State α := ts.foldl (ETO_RESOLVE_TICK cfg) State.init

/-! ## What should hold -/

/-- The record of a source is for the day, with status OK and sufficient coverage. A day of
CIMIS counts as covered when it has a value. -/
inductive Good (bb : Blackboard α) (yesterday : String) (min_coverage : α) :
    String → Option α → Prop where
  | station (source : String) (r : StationRecord α) (hsource : source = "SE224" ∨ source = "SRUC1")
      (hr : bb.synoptic source = some r) (hdate : r.date = some yesterday)
      (hstatus : r.status = some "OK") (hcoverage : ¬ r.coverage.getD 1 < min_coverage) :
      Good bb yesterday min_coverage source r.eto
  | cimis (source short : String) (r : CimisRecord α) (x : α)
      (hsource : (source, short) = ("cimis_spatial", "spatial") ∨
        (source, short) = ("cimis_station", "station"))
      (hr : bb.cimis short = some r) (hdate : r.date = some yesterday)
      (hvalue : r.value = some x) : Good bb yesterday min_coverage source (some x)

/-- The record carries the value of the first good source. -/
def CarriesFirst (t : Tick α) (r : Summary α) : Prop :=
  r.date = t.yesterday ∧ Good t.bb t.yesterday cfg.min_coverage r.source r.eto_in ∧
    ∃ better worse, cfg.priority = better ++ r.source :: worse ∧
      ∀ src ∈ better, ∀ x, ¬ Good t.bb t.yesterday cfg.min_coverage src x

/-- Each tick publishes nothing or one record, which carries the value of the first good source
of that tick, and no date is published twice. -/
def OncePerDate (ts : List (Tick α)) : Prop :=
  (∀ before t after, ts = before ++ t :: after →
    (run cfg (before ++ [t])).daily = (run cfg before).daily ∨
      ∃ r, (run cfg (before ++ [t])).daily = (run cfg before).daily ++ [r] ∧
        CarriesFirst cfg t r) ∧
    ((run cfg ts).daily.map Summary.date).Nodup

/-- When the day of a tick is on the stream already and a source is good, the day is the one
published last and the source the one that won it. -/
def SameWinner (s : State α) (t : Tick α) : Prop :=
  ∀ source v, winner cfg t = some (source, v) → t.daily_ok = true →
    t.yesterday ∈ s.daily.map Summary.date →
    s.last_published_date = some t.yesterday ∧ s.last_winner = some source

/-! ## A tick -/

variable {cfg} {bb : Blackboard α} {t : Tick α} {source yesterday : String} {min_coverage : α}

theorem probe_source_ok {x : Option α} (h : Good bb yesterday min_coverage source x) :
    (probe_source bb source yesterday min_coverage).verdict = .ok ∧
      (probe_source bb source yesterday min_coverage).eto_in = x := by
  cases h with
  | station r hsource hr hdate hstatus hcoverage =>
    simp [probe_source, hsource, hr, hdate, hstatus, hcoverage]
  | cimis short r x hsource hr hdate hvalue =>
    rcases hsource with h | h <;>
    · obtain ⟨rfl, rfl⟩ := Prod.mk.inj h
      simp [probe_source, hr, hdate, hvalue]

theorem good_of_ok (h : (probe_source bb source yesterday min_coverage).verdict = .ok) :
    Good bb yesterday min_coverage source
      (probe_source bb source yesterday min_coverage).eto_in := by
  unfold probe_source at h ⊢
  by_cases hstation : source = "SE224" ∨ source = "SRUC1"
  · rw [if_pos hstation] at h ⊢
    cases hr : bb.synoptic source with
    | none =>
      rw [hr] at h
      cases h
    | some r =>
      simp only [hr] at h ⊢
      by_cases hdate : r.date ≠ some yesterday
      · rw [if_pos hdate] at h
        cases h
      · rw [if_neg hdate] at h ⊢
        by_cases hstatus : r.status ≠ some "OK"
        · rw [if_pos hstatus] at h
          split at h <;> cases h
        · rw [if_neg hstatus] at h ⊢
          by_cases hcoverage : r.coverage.getD 1 < min_coverage
          · rw [if_pos hcoverage] at h
            cases h
          · rw [if_neg hcoverage]
            exact .station source r hstation hr (not_not.mp hdate) (not_not.mp hstatus) hcoverage
  · rw [if_neg hstation] at h ⊢
    by_cases hcimis : source = "cimis_spatial" ∨ source = "cimis_station"
    · rw [if_pos hcimis] at h ⊢
      cases hr : bb.cimis (if source = "cimis_spatial" then "spatial" else "station") with
      | none =>
        rw [hr] at h
        cases h
      | some r =>
        simp only [hr] at h ⊢
        by_cases hdate : r.date ≠ some yesterday
        · rw [if_pos hdate] at h
          cases h
        · rw [if_neg hdate] at h ⊢
          cases hvalue : r.value with
          | none =>
            rw [hvalue] at h
            cases h
          | some x =>
            refine .cimis source _ r x ?_ hr (not_not.mp hdate) hvalue
            rcases hcimis with rfl | rfl
            · exact Or.inl rfl
            · exact Or.inr rfl
    · rw [if_neg hcimis] at h
      cases h

theorem winner_carries {v : Probed α} (h : winner cfg t = some (source, v)) :
    CarriesFirst cfg t (summarize cfg t source v) := by
  unfold winner chain at h
  rw [List.find?_map] at h
  obtain ⟨src, hfind, heq⟩ := Option.map_eq_some_iff.mp h
  obtain ⟨rfl, rfl⟩ := Prod.mk.inj heq
  obtain ⟨hok, better, worse, hsplit, hbetter⟩ := List.find?_eq_some_iff_append.mp hfind
  have hverdict : (probe_source t.bb src t.yesterday cfg.min_coverage).verdict = .ok := by
    simpa using hok
  refine ⟨rfl, good_of_ok hverdict, better, worse, hsplit, fun p hp x hgood => ?_⟩
  have hnot := hbetter p hp
  simp [(probe_source_ok hgood).1] at hnot

theorem tick_daily (cfg : Config α) (s : State α) (t : Tick α) :
    (ETO_RESOLVE_TICK cfg s t).daily = s.daily ∨
      ∃ source v, winner cfg t = some (source, v) ∧ t.daily_ok = true ∧
        ¬ (s.last_published_date = some t.yesterday ∧ s.last_winner = some source) ∧
        (ETO_RESOLVE_TICK cfg s t).daily = s.daily ++ [summarize cfg t source v] := by
  unfold ETO_RESOLVE_TICK
  cases hwinner : winner cfg t with
  | none => exact Or.inl rfl
  | some w =>
    obtain ⟨source, v⟩ := w
    simp only
    by_cases hidle : s.last_published_date = some t.yesterday ∧ s.last_winner = some source
    · rw [if_pos hidle]
      exact Or.inl rfl
    · rw [if_neg hidle]
      cases hok : t.daily_ok with
      | false => exact Or.inl (by simp [publish_resolution, hok])
      | true => exact Or.inr ⟨source, v, rfl, rfl, hidle, by simp [publish_resolution, hok]⟩

theorem run_snoc (cfg : Config α) (ts : List (Tick α)) (t : Tick α) :
    run cfg (ts ++ [t]) = ETO_RESOLVE_TICK cfg (run cfg ts) t := by
  simp [run]

/-- A tick that meets the condition keeps the dates of the stream apart, and one that does not
breaks them. -/
theorem tick_nodup_iff (cfg : Config α) {s : State α} (t : Tick α)
    (hs : (s.daily.map Summary.date).Nodup) :
    ((ETO_RESOLVE_TICK cfg s t).daily.map Summary.date).Nodup ↔ SameWinner cfg s t := by
  have hdates : ∀ source v, ((s.daily ++ [summarize cfg t source v]).map Summary.date).Nodup ↔
      t.yesterday ∉ s.daily.map Summary.date := by
    intro source v
    rw [List.map_append, List.nodup_append']
    simp [hs, summarize]
  rcases tick_daily cfg s t with h | ⟨source, v, hwinner, hok, hidle, h⟩
  · rw [h]
    refine iff_of_true hs fun source v hwinner hok hmem => ?_
    by_contra hidle
    have hpublished : (ETO_RESOLVE_TICK cfg s t).daily = s.daily ++ [summarize cfg t source v] := by
      unfold ETO_RESOLVE_TICK
      simp [hwinner, if_neg hidle, publish_resolution, hok]
    rw [hpublished] at h
    simp at h
  · rw [h, hdates]
    constructor
    · intro hnot _ _ _ _ hmem
      exact absurd hmem hnot
    · intro hsame hmem
      exact hidle (hsame source v hwinner hok hmem)

/-! ## Runs -/

theorem daily_grows (cfg : Config α) (before after : List (Tick α)) :
    (run cfg before).daily <+: (run cfg (before ++ after)).daily := by
  induction after using List.reverseRecOn with
  | nil => simp
  | append_singleton after t ih =>
    rw [← List.append_assoc, run_snoc]
    rcases tick_daily cfg (run cfg (before ++ after)) t with h | ⟨_, _, _, _, _, h⟩
    · rw [h]
      exact ih
    · rw [h]
      exact ih.trans (List.prefix_append _ _)

/-- In every run each tick publishes at most the record of its first good source, and no date is
published twice exactly when every tick whose day is on the stream already finds the winner of
that day, which was the last one published. -/
theorem once_per_date_iff (cfg : Config α) (ts : List (Tick α)) :
    OncePerDate cfg ts ↔
      ∀ before t after, ts = before ++ t :: after → SameWinner cfg (run cfg before) t := by
  constructor
  · rintro ⟨-, hnodup⟩ before t after rfl
    have hsplit : before ++ t :: after = before ++ [t] ++ after := by simp
    have hbefore : ((run cfg before).daily.map Summary.date).Nodup :=
      hnodup.sublist ((daily_grows cfg before (t :: after)).sublist.map _)
    rw [← tick_nodup_iff cfg t hbefore, ← run_snoc]
    rw [hsplit] at hnodup
    exact hnodup.sublist ((daily_grows cfg (before ++ [t]) after).sublist.map _)
  · intro h
    refine ⟨fun before t after _ => ?_, ?_⟩
    · rw [run_snoc]
      rcases tick_daily cfg (run cfg before) t with hsame | ⟨source, v, hwinner, -, -, hnew⟩
      · exact Or.inl hsame
      · exact Or.inr ⟨_, hnew, winner_carries hwinner⟩
    · induction ts using List.reverseRecOn with
      | nil => exact List.nodup_nil
      | append_singleton ts t ih =>
        rw [run_snoc, tick_nodup_iff cfg t]
        · exact h ts t [] rfl
        · apply ih
          rintro before u after rfl
          exact h before u (after ++ [t]) (by simp)

end resolver

/-- The station comes in after the day was published with the value of CIMIS. -/
def lateStation : List (Tick Int) :=
  let spatial : CimisRecord Int := ⟨some "2026-05-01", some 20⟩
  let station : StationRecord Int := ⟨some "2026-05-01", some 22, some 1, some 24, some "OK"⟩
  [⟨⟨fun _ => none, fun _ => some spatial⟩, "2026-05-01", true, true⟩,
    ⟨⟨fun _ => some station, fun _ => some spatial⟩, "2026-05-01", true, true⟩]

/-- The day is published twice, first with the value of CIMIS. -/
theorem late_station_repeats :
    ¬ OncePerDate ⟨["SE224", "cimis_spatial", "SRUC1", "cimis_station"], 1⟩ lateStation := by
  rintro ⟨-, hnodup⟩
  revert hnodup
  decide +kernel

end motioncore.farm.resolver
