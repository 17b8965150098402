-- How often the ETo accumulators are adjusted, over all runs of the sync. Each Pacific date
-- and each day of CIMIS has one adjustment as long as every write that is applied is answered
-- and marked, and both sources are ahead of the last one.
import MotionCore.Eto.Sync
import MotionCore.Lib.Runs
import MotionCore.Lib.Trace

namespace motioncore.eto

open motioncore.machine motioncore.raising motioncore.trace

variable {α : Type}

/-! ## What should hold -/

def Note.adjustment : Note α → Option (Adjustment α)
  | .adjusted adj => some adj
  | _ => none

def adjustments (log : List (Note α)) : List (Adjustment α) := log.filterMap Note.adjustment

theorem adjustments_append (log new : List (Note α)) :
    adjustments (log ++ new) = adjustments log ++ adjustments new := List.filterMap_append

theorem adjustments_note {e : Note α} (he : e.adjustment = none) (log : List (Note α)) :
    adjustments (log ++ [e]) = adjustments log := by
  rw [adjustments_append]
  simp [adjustments, he]

/-- Each Pacific date has at most one adjustment, each is by the difference of one day of CIMIS,
no day is used twice, and the values are between the bounds. -/
structure Once [LinearOrder α] (num : Num α) (cfg : Config α) (log : List (Note α)) : Prop where
  dates : ((adjustments log).map Adjustment.today).Nodup
  one_day : ∀ adj ∈ adjustments log, adj.station.date = adj.spatial.date
  days : ((adjustments log).map fun adj => adj.station.date).Nodup
  between : ∀ adj ∈ adjustments log, ∀ row ∈ adj.new_table,
    ∃ x, row.2 = .num x ∧ floor num cfg ≤ x ∧ x ≤ cap num cfg

/-! ## The last success -/

/-- The date of the last success, as far as the robot knows. -/
def known (s : Robot α) : Option String :=
  if s.sync.loaded then s.sync.success_date else s.success_marker

variable (s : Robot α)

theorem known_hydrate : known (hydrate s) = known s := by
  unfold hydrate
  split
  · rfl
  · rename_i hnot
    rw [known, known, if_neg hnot]
    rfl

theorem hydrate_loaded : (hydrate s).sync.loaded = true := by
  unfold hydrate
  split
  · assumption
  · rfl

theorem hydrate_rest : (hydrate s).log = s.log ∧
    (hydrate s).station = s.station ∧ (hydrate s).spatial = s.spatial := by
  unfold hydrate
  split <;> exact ⟨rfl, rfl, rfl⟩

/-! ## When it holds -/

/-- The day is not marked and the window is open. -/
def Due (cfg : Config α) (s : Robot α) (t : Tick α) : Prop :=
  known s ≠ some t.today ∧ hour_p cfg ≤ t.hour

/-- Both records are of one day, which is later than those that were used. -/
structure Fits (num : Num α) (cfg : Config α) (log : List (Note α)) (r_st r_sp : Record α) :
    Prop where
  one_day : r_st.date = r_sp.date
  newer : ∀ adj ∈ adjustments log, adj.station.date < r_st.date
  publishable : publishable num cfg r_st r_sp = true

/-- A write that is applied is answered, and the tick gets to its end. -/
structure Answered (num : Num α) (cfg : Config α) (s : Robot α) (t : Tick α) : Prop where
  reply : t.put.reply = some true
  goes_on : t.stopped = false
  records : ∀ r_st r_sp, s.station.last_record = some r_st → s.spatial.last_record = some r_sp →
    Fits num cfg s.log r_st r_sp

def Regular (num : Num α) (cfg : Config α) (s : Robot α) : Input α → Prop
  | .cimis _ _ => True
  | .sync t => Due cfg s t →
    (∀ date, known s = some date → date ≤ t.today) ∧ (t.put.applied → Answered num cfg s t)
  | .restart => s.success_marker = known s

variable [LinearOrder α] {num : Num α} {cfg : Config α}

/-! ## The invariant -/

/-- No adjustment is of a later date than the last success. -/
structure Settled (num : Num α) (cfg : Config α) (s : Robot α) : Prop where
  once : Once num cfg s.log
  past : ∀ adj ∈ adjustments s.log, ∃ date, known s = some date ∧ adj.today ≤ date

/-- A tick is past its gates. -/
structure Ready (num : Num α) (cfg : Config α) (today : String) (s : Robot α) : Prop where
  settled : Settled num cfg s
  loaded : s.sync.loaded = true
  before : ∀ adj ∈ adjustments s.log, adj.today < today

/-- A tick has written, and is to mark the day. -/
structure Written (num : Num α) (cfg : Config α) (today : String) (s : Robot α) : Prop where
  once : Once num cfg s.log
  loaded : s.sync.loaded = true
  upto : ∀ adj ∈ adjustments s.log, adj.today ≤ today

section

variable {s s' : Robot α} {today : String}

theorem Once.of_eq {log log' : List (Note α)} (h : Once num cfg log)
    (heq : adjustments log' = adjustments log) : Once num cfg log' :=
  ⟨heq ▸ h.dates, heq ▸ h.one_day, heq ▸ h.days, heq ▸ h.between⟩

theorem Settled.frame (h : Settled num cfg s) (hlog : adjustments s'.log = adjustments s.log)
    (hknown : known s' = known s) : Settled num cfg s' :=
  ⟨h.once.of_eq hlog, hlog ▸ hknown ▸ h.past⟩

theorem hydrate_settled (h : Settled num cfg s) : Settled num cfg (hydrate s) :=
  h.frame (congrArg adjustments (hydrate_rest s).1) (known_hydrate s)

theorem hydrate_ready (h : Settled num cfg s) (hnot : known s ≠ some today)
    (hclock : ∀ date, known s = some date → date ≤ today) : Ready num cfg today (hydrate s) := by
  refine ⟨hydrate_settled h, hydrate_loaded s, fun adj hadj => ?_⟩
  rw [(hydrate_rest s).1] at hadj
  obtain ⟨date, hdate, hle⟩ := h.past adj hadj
  have hne : date ≠ today := fun heq => hnot (heq ▸ hdate)
  exact hle.trans_lt (lt_of_le_of_ne (hclock date hdate) hne)

theorem Ready.written (h : Ready num cfg today s) : Written num cfg today s :=
  ⟨h.settled.once, h.loaded, fun adj hadj => (h.before adj hadj).le⟩

end

/-! ## The parts of a tick -/

section

variable {s : Robot α} {t : Tick α} {r_st r_sp : Record α}

theorem report_keeps (reason : Reason) :
    Keeps (Settled num cfg) (maybe_report_failure cfg t reason) := by
  unfold maybe_report_failure
  refine keeps_bind keeps_get fun s => ?_
  split
  · exact keeps_pure _
  · split
    · exact keeps_pure _
    · split
      · refine keeps_bind (keeps_modify fun s h => ?_) fun _ => keeps_modify fun s h => ?_
        · exact h.frame (adjustments_note rfl _) rfl
        · exact h.frame rfl rfl
      · exact keeps_pure _

theorem clamp_between {v : Double α} {lo hi : α} (hle : lo ≤ hi)
    (henc : num.encodes (clamp v lo hi).1 = true) :
    ∃ x, (clamp v lo hi).1 = .num x ∧ lo ≤ x ∧ x ≤ hi := by
  unfold clamp at henc ⊢
  split
  · exact ⟨lo, rfl, le_rfl, hle⟩
  · rename_i hlo
    rw [if_neg hlo] at henc
    split
    · exact ⟨hi, rfl, hle, le_rfl⟩
    · rename_i hhi
      rw [if_neg hhi] at henc
      cases v with
      | nan => cases henc
      | num x =>
        refine ⟨x, rfl, not_lt.mp fun hlt => hlo ?_, not_lt.mp fun hlt => hhi ?_⟩
        · simpa [Double.lt] using hlt
        · simpa [Double.lt] using hlt

theorem rows_between (hle : floor num cfg ≤ cap num cfg) {delta : Double α}
    {current : List (String × Option (Double α))}
    (henc : (rows num cfg delta current).all (fun r => num.encodes r.new) = true) :
    ∀ row ∈ new_table (rows num cfg delta current),
      ∃ x, row.2 = .num x ∧ floor num cfg ≤ x ∧ x ≤ cap num cfg := by
  intro row hrow
  obtain ⟨r, hr, rfl⟩ := List.mem_map.mp hrow
  have hr_enc := List.all_eq_true.mp henc r hr
  obtain ⟨⟨k, v⟩, -, heq⟩ := List.mem_filterMap.mp hr
  obtain ⟨v, -, rfl⟩ := Option.map_eq_some_iff.mp heq
  exact clamp_between hle hr_enc

theorem Ready.adjusted (adj : Adjustment α) (h : Ready num cfg adj.today s)
    (hfits : Fits num cfg s.log adj.station adj.spatial)
    (hbetween : ∀ row ∈ adj.new_table, ∃ x, row.2 = .num x ∧ floor num cfg ≤ x ∧ x ≤ cap num cfg) :
    Written num cfg adj.today { s with log := s.log ++ [.adjusted adj] } := by
  have hlog : adjustments (s.log ++ [Note.adjusted adj]) = adjustments s.log ++ [adj] :=
    adjustments_append _ _
  have hmem : ∀ {P : Adjustment α → Prop}, (∀ a ∈ adjustments s.log, P a) → P adj →
      ∀ a ∈ adjustments (s.log ++ [Note.adjusted adj]), P a := by
    intro P hold hnew a ha
    rw [hlog] at ha
    rcases List.mem_append.mp ha with ha | ha
    · exact hold a ha
    · exact List.mem_singleton.mp ha ▸ hnew
  have honce := h.settled.once
  refine ⟨⟨?_, hmem honce.one_day hfits.one_day, ?_, hmem honce.between hbetween⟩, h.loaded,
    hmem (fun a ha => (h.before a ha).le) le_rfl⟩
  · rw [hlog, List.map_append, List.map_singleton]
    refine honce.dates.append (List.nodup_singleton _) (List.disjoint_singleton.mpr fun hin => ?_)
    obtain ⟨a, ha, heq⟩ := List.mem_map.mp hin
    exact (h.before a ha).ne heq
  · rw [hlog, List.map_append, List.map_singleton]
    refine honce.days.append (List.nodup_singleton _) (List.disjoint_singleton.mpr fun hin => ?_)
    obtain ⟨a, ha, heq⟩ := List.mem_map.mp hin
    exact (hfits.newer a ha).ne heq

/-- The end of a tick, which raises only from a state that may stay. -/
theorem succeed_settled {P : Robot α → Prop} {rs : List (Row α)}
    (hwritten : ∀ s, P s → Written num cfg t.today s)
    (hraise : publishable num cfg r_st r_sp = false → ∀ s, P s → Settled num cfg s) :
    Triple P (succeed num cfg t r_st r_sp rs) (fun _ => Settled num cfg) (Settled num cfg) := by
  unfold succeed
  split
  · refine triple_bind (Q := fun _ => Written num cfg t.today) (triple_modify fun s h => ?_)
      fun _ => triple_modify fun s h => ?_
    · have hlog := adjustments_note (e := .published (summarize num t.today r_st r_sp rs)) rfl s.log
      obtain ⟨honce, hloaded, hupto⟩ := hwritten s h
      exact ⟨honce.of_eq hlog, hloaded, hlog ▸ hupto⟩
    · exact ⟨h.once, fun adj hadj => ⟨t.today, if_pos h.loaded, h.upto adj hadj⟩⟩
  · rename_i hnot
    exact triple_throw (hraise (Bool.eq_false_of_not_eq_true hnot))

theorem apply_delta_settled (hle : floor num cfg ≤ cap num cfg)
    {current : List (String × Option (Double α))} (hs : Ready num cfg t.today s)
    (hfits : t.put.applied = true → t.put.reply = some true ∧ t.stopped = false ∧
      Fits num cfg s.log r_st r_sp) :
    Triple (fun s₁ => s₁ = s) (apply_delta num cfg t r_st r_sp current)
      (fun _ => Settled num cfg) (Settled num cfg) := by
  unfold apply_delta
  dsimp only
  split
  · exact succeed_settled (fun _ heq => heq ▸ hs.written) fun _ _ heq => heq ▸ hs.settled
  · unfold hmset
    split
    · rename_i henc
      cases happlied : t.put.applied with
      | true =>
        obtain ⟨hreply, hgoes, hfits⟩ := hfits happlied
        rw [hreply, hgoes]
        refine triple_bind (Q := fun _ => Written num cfg t.today)
          (triple_modify fun s₁ heq => ?_) fun _ => ?_
        · subst heq
          exact Ready.adjusted ⟨t.today, r_st, r_sp, _⟩ hs hfits (rows_between hle henc.2)
        · refine succeed_settled (fun _ h => h) fun hnot => ?_
          rw [hfits.publishable] at hnot
          cases hnot
      | false =>
        refine triple_bind (Q := fun _ s₁ => s₁ = s) (triple_modify fun s₁ heq => ?_) fun _ => ?_
        · subst heq
          simp
        · split
          · refine triple_bind (Q := fun _ => Settled num cfg) (triple_modify fun s₁ heq => ?_)
              fun _ => triple_throw fun _ h => h
            exact heq ▸ hs.settled.frame rfl rfl
          · split
            · exact (report_keeps _).conseq (fun _ heq => heq ▸ hs.settled) (fun _ _ h => h)
                fun _ h => h
            · exact triple_throw fun _ heq => heq ▸ hs.settled
            · exact succeed_settled (fun _ heq => heq ▸ hs.written)
                fun _ _ heq => heq ▸ hs.settled
    · exact triple_bind (Q := fun _ _ => False) (triple_throw fun _ heq => heq ▸ hs.settled)
        fun _ _ h => h.elim

end

/-! ## Every run -/

section

variable {s s' : Robot α}

theorem sync_settled (hle : floor num cfg ≤ cap num cfg) {t : Tick α} (h : Settled num cfg s)
    (hregular : Regular num cfg s (.sync t)) :
    Triple (fun s₁ => s₁ = s) (ETO_SYNC_TICK num cfg t) (fun _ => Settled num cfg)
      (Settled num cfg) := by
  unfold ETO_SYNC_TICK
  refine triple_bind (Q := fun _ s₁ => s₁ = hydrate s) (triple_modify fun _ heq => heq ▸ rfl)
    fun _ => triple_bind_get ?_
  have hset := hydrate_settled h
  have hreport : ∀ reason, Triple (fun s₁ => s₁ = hydrate s) (maybe_report_failure cfg t reason)
      (fun _ => Settled num cfg) (Settled num cfg) := fun reason =>
    (report_keeps reason).conseq (fun _ heq => heq ▸ hset) (fun _ _ h => h) fun _ h => h
  split
  · exact triple_pure fun _ heq => heq ▸ hset
  · rename_i hnot
    split
    · exact triple_pure fun _ heq => heq ▸ hset
    · rename_i hhour
      have hdate : known s = (hydrate s).sync.success_date := by
        rw [← known_hydrate s, known, if_pos (hydrate_loaded s)]
      have hdue : Due cfg s t := ⟨hdate ▸ hnot, Nat.le_of_not_lt hhour⟩
      obtain ⟨hclock, hanswered⟩ := hregular hdue
      obtain ⟨hlog, hstation, hspatial⟩ := hydrate_rest s
      split
      · rename_i r_st r_sp hst hsp
        split
        · exact hreport _
        · split
          · exact hreport _
          · split
            · exact hreport _
            · exact hreport _
            · refine apply_delta_settled hle (hydrate_ready h hdue.1 hclock) fun happlied => ?_
              obtain ⟨hreply, hgoes, hrecords⟩ := hanswered happlied
              have hfits := hrecords r_st r_sp (hstation ▸ hst) (hspatial ▸ hsp)
              exact ⟨hreply, hgoes, hlog ▸ hfits⟩
      · exact hreport _

theorem record_days_keeps (id : SourceId) (rs : List (Record α)) :
    Keeps (Settled num cfg) (record_days num id rs) := by
  induction rs with
  | nil => exact keeps_pure _
  | cons r rs ih =>
    refine keeps_bind (keeps_modify fun s h => ?_) fun _ => ?_
    · cases id <;> exact h.frame rfl rfl
    · split
      · exact keeps_bind (keeps_modify fun s h => h.frame (adjustments_note rfl _) rfl) fun _ => ih
      · exact keeps_throw

theorem cimis_keeps (id : SourceId) (c : CimisTick α) :
    Keeps (Settled num cfg) (cimis_tick_impl num cfg id c) := by
  unfold cimis_tick_impl
  refine keeps_bind keeps_get fun s => ?_
  dsimp only
  split
  · exact keeps_pure _
  · split
    · exact keeps_pure _
    · split
      · exact keeps_pure _
      · split
        · exact keeps_pure _
        · exact keeps_throw
        · exact record_days_keeps id _

theorem step_settled (hle : floor num cfg ≤ cap num cfg) {i : Input α} (h : Settled num cfg s)
    (hregular : Regular num cfg s i) (hstep : step num cfg s i = some s') : Settled num cfg s' := by
  cases i with
  | cimis id c =>
    obtain ⟨-, heq⟩ := Option.ite_none_right_eq_some.mp hstep
    cases heq
    exact (cimis_keeps id c).after h
  | sync t =>
    obtain ⟨-, heq⟩ := Option.ite_none_right_eq_some.mp hstep
    cases heq
    exact (sync_settled hle h hregular).after rfl
  | restart =>
    cases hstep
    exact h.frame rfl hregular

theorem init_settled (success_marker failure_marker : Option String) :
    Settled num cfg (.init success_marker failure_marker) :=
  ⟨⟨List.nodup_nil, nofun, List.nodup_nil, nofun⟩, nofun⟩

/-- In every run whose writes are answered and marked, and whose records are one day of CIMIS
that is later than those used before, each date and each day has at most one adjustment, and
what is written is between the bounds. -/
theorem adjusts_once (hle : floor num cfg ≤ cap num cfg)
    {success_marker failure_marker : Option String} {inputs : List (Input α)}
    (hregular : Meets (step num cfg) (Regular num cfg) (.init success_marker failure_marker) inputs)
    (hrun : runs (step num cfg) (.init success_marker failure_marker) inputs = some s) :
    Once num cfg s.log :=
  (inv_runs (fun _ _ _ h hi hstep => step_settled hle h hi hstep) (init_settled _ _) hregular
    hrun).once

end

def cimisDay (id : SourceId) (yesterday today : String) (value : Int) : Input Int :=
  .cimis id {
    yesterday := yesterday
    hour := 9
    today := today
    app_key := true
    fetch := .records [{
      target_kind := classSpec.target_kind id
      date := yesterday
      item := MEASUREMENT
      value := some (.num value)
      qc := some "Y" }] }

def syncTick (today : String) (eto : Int) (reply : Option Bool) : Input Int :=
  .sync {
    hour := 14
    today := today
    creds := true
    current := .rows [("zone", some (.num eto))]
    put := ⟨true, true, reply⟩
    stopped := false
    notifies := true
    success_mark := .stored
    failure_mark := .stored }

/-- A day is synced, and the process starts again. -/
def synced : List (Input Int) :=
  [cimisDay .station "2026-06-01" "2026-06-02" 18, cimisDay .spatial "2026-06-01" "2026-06-02" 15,
    syncTick "2026-06-02" 10 (some true), .restart, syncTick "2026-06-02" 7 (some true)]

theorem synced_once : ∃ s, runs (step hundredths classSpec) (.init none none) synced = some s ∧
    Once hundredths classSpec s.log := by
  obtain ⟨s, hrun⟩ : ∃ s, runs (step hundredths classSpec) (.init none none) synced = some s :=
    ⟨_, rfl⟩
  refine ⟨s, hrun, adjusts_once (by decide) ?_ hrun⟩
  refine ⟨trivial, ?_⟩
  rintro _ ⟨⟩
  refine ⟨trivial, ?_⟩
  rintro _ ⟨⟩
  refine ⟨fun _ => ⟨nofun, fun _ => ⟨rfl, rfl, ?_⟩⟩, ?_⟩
  · rintro _ _ ⟨⟩ ⟨⟩
    exact ⟨rfl, nofun, rfl⟩
  rintro _ ⟨⟩
  refine ⟨rfl, ?_⟩
  rintro _ ⟨⟩
  exact ⟨fun hdue => absurd rfl hdue.1, fun _ _ => trivial⟩

def adjusted (inputs : List (Input Int)) : Option (List (String × String × String)) :=
  (runs (step hundredths classSpec) (.init none none) inputs).map fun s =>
    (adjustments s.log).map fun adj => (adj.today, adj.station.date, adj.spatial.date)

/-- A reply is lost, a source is a day behind, and both sources are a day behind. -/
theorem adjusts_again :
    adjusted [cimisDay .station "2026-06-01" "2026-06-02" 18,
      cimisDay .spatial "2026-06-01" "2026-06-02" 15,
      syncTick "2026-06-02" 10 none, syncTick "2026-06-02" 7 (some true)] =
        some [("2026-06-02", "2026-06-01", "2026-06-01"),
          ("2026-06-02", "2026-06-01", "2026-06-01")] ∧
    adjusted [cimisDay .spatial "2026-05-31" "2026-06-01" 15,
      cimisDay .station "2026-06-01" "2026-06-02" 18, syncTick "2026-06-02" 10 (some true)] =
        some [("2026-06-02", "2026-06-01", "2026-05-31")] ∧
    adjusted [cimisDay .station "2026-06-01" "2026-06-02" 18,
      cimisDay .spatial "2026-06-01" "2026-06-02" 15,
      syncTick "2026-06-02" 10 (some true), syncTick "2026-06-03" 7 (some true)] =
        some [("2026-06-02", "2026-06-01", "2026-06-01"),
          ("2026-06-03", "2026-06-01", "2026-06-01")] := by
  decide +kernel

end motioncore.eto
