-- The live detector of a run (`kb3_live.lua`): over any updates it fires once, when five steps in
-- a row stand over the threshold for the first time, and is suppressed from then on.
import Mathlib.Data.List.Induction
import MotionCore.Irrigation.Modes

namespace motioncore.irrigation

variable {ν : Type} (num : Num ν)

/-- An update of the detector, with the baseline that the poll looked up. -/
structure Update (ν : Type) where
  baseline : Baseline ν
  sample : ν
  step : ν

/-- An update that raises leaves the state, and reports nothing. -/
def Update.apply (u : Update ν) (kb3 : KB3 ν) : KB3 ν × Option (KB3Result ν) :=
  (kb3_update num u.baseline kb3 u.sample u.step).getD (kb3, none)

/-- The state after some updates of one run. -/
def detector (us : List (Update ν)) : KB3 ν :=
  us.foldl (fun kb3 u => (u.apply num kb3).1) ⟨[], 0, false⟩

def reported (us : List (Update ν)) (i : Nat) : Option (KB3Result ν) :=
  us[i]?.bind fun u => (u.apply num (detector num (us.take i))).2

def Update.index (u : Update ν) : Option Int :=
  if num.lt u.step (num.lit 100) then none else num.floor u.step

/-- The latest sample of a step. -/
def recorded (us : List (Update ν)) (n : Int) : Option ν :=
  (us.reverse.find? fun u => u.index num = some n).map Update.sample

def Baseline.Eligible (b : Baseline ν) : Prop :=
  b.mode = some .long ∧ b.kb3_eligible = true ∧ b.kb3_threshold.isSome ∧ b.ref.isSome

def sampleAt (by_step : List (Int × ν)) (k : Int) : Option ν := by_step.lookup k

/-- The last five steps up to `n` have samples, all of them over the threshold. -/
def WindowOver (sample : Int → Option ν) (ref thresh : ν) (n : Int) : Prop :=
  ∀ k, n - 4 ≤ k → k ≤ n → ∃ v, sample k = some v ∧ num.lt thresh (num.sub v ref) = true

/-- At the update at place `i` the detector is to fire. -/
def Hit (us : List (Update ν)) (i : Nat) : Prop :=
  ∃ u n ref thresh, us[i]? = some u ∧ u.index num = some n ∧ u.baseline.ref = some ref ∧
    u.baseline.kb3_threshold = some thresh ∧ 9 ≤ n ∧
    WindowOver num (recorded num (us.take (i + 1))) ref thresh n

/-! ## One update -/

variable {num} {u : Update ν} {us : List (Update ν)} {kb3 : KB3 ν} {n : Int}

theorem windowOver_le (by_step : List (Int × ν)) (ref thresh : ν) (s : Int) (k : Nat) :
    (windowOver num by_step ref thresh s k).1 ≤ k := by
  induction k generalizing s with
  | zero => simp [windowOver]
  | succ k ih =>
    have := ih (s + 1)
    unfold windowOver
    split
    · simp
    · simp only
      split <;> omega

theorem windowOver_full (by_step : List (Int × ν)) (ref thresh : ν) (s : Int) (k : Nat) :
    ((windowOver num by_step ref thresh s k).2 = false ∧
        k ≤ (windowOver num by_step ref thresh s k).1) ↔
      ∀ j, s ≤ j → j < s + k →
        ∃ v, by_step.lookup j = some v ∧ num.lt thresh (num.sub v ref) = true := by
  induction k generalizing s with
  | zero => simp [windowOver]; omega
  | succ k ih =>
    have hle : (windowOver num by_step ref thresh (s + 1) k).1 ≤ k :=
      windowOver_le by_step ref thresh (s + 1) k
    have hcons : (∀ j, s ≤ j → j < s + (k + 1 : Nat) →
        ∃ v, by_step.lookup j = some v ∧ num.lt thresh (num.sub v ref) = true) ↔
        (∃ v, by_step.lookup s = some v ∧ num.lt thresh (num.sub v ref) = true) ∧
        ∀ j, s + 1 ≤ j → j < s + 1 + k →
          ∃ v, by_step.lookup j = some v ∧ num.lt thresh (num.sub v ref) = true := by
      constructor
      · intro h
        exact ⟨h s (by omega) (by omega), fun j hj hj' => h j (by omega) (by omega)⟩
      · rintro ⟨hs, hrest⟩ j hj hj'
        by_cases hjs : j = s
        · exact hjs ▸ hs
        · exact hrest j (by omega) (by omega)
    rw [hcons, ← ih]
    simp only [windowOver]
    cases hlookup : by_step.lookup s with
    | none => simp
    | some v =>
      simp only [Option.some.injEq, exists_eq_left']
      cases hv : num.lt thresh (num.sub v ref) with
      | true =>
        simp only [if_true, true_and, Nat.add_le_add_iff_right]
      | false =>
        simp only [Bool.false_eq_true, if_false, false_and, iff_false]
        omega

/-- What an update of an eligible bin does, at its step. -/
theorem apply_at (kb3 : KB3 ν) {ref thresh : ν} (hi : u.index num = some n)
    (hb : u.baseline = ⟨some .long, true, some thresh, some ref⟩) :
    let by_step := (n, u.sample) :: kb3.by_step.filter fun entry => entry.1 ≠ n
    (u.apply num kb3).1.by_step = by_step ∧
      ∃ r, (u.apply num kb3).2 = some r ∧
        ((9 ≤ n ∧ WindowOver num (sampleAt by_step) ref thresh n) ∧
            (u.apply num kb3).1.fired = true ∧ r.fired = !kb3.fired ∧ r.suppressed = kb3.fired ∨
          ¬ (9 ≤ n ∧ WindowOver num (sampleAt by_step) ref thresh n) ∧
            (u.apply num kb3).1.fired = kb3.fired ∧ r.fired = false ∧ r.suppressed = false) := by
  intro by_step
  obtain ⟨hone, hfloor⟩ : num.lt u.step (num.lit 100) = false ∧ num.floor u.step = some n := by
    unfold Update.index at hi
    split at hi
    · cases hi
    · next hone => exact ⟨by simpa using hone, hi⟩
  have hwindow : ((windowOver num by_step ref thresh (n - 4) 5).2 = false ∧
      5 ≤ (windowOver num by_step ref thresh (n - 4) 5).1) ↔
      WindowOver num (sampleAt by_step) ref thresh n := by
    rw [windowOver_full]
    unfold WindowOver sampleAt
    refine forall_congr' fun j => imp_congr_right fun _ => ?_
    have hlast : j < n - 4 + ((5 : Nat) : Int) ↔ j ≤ n := by omega
    rw [hlast]
  unfold Update.apply kb3_update
  rw [hb]
  simp only [hone, hfloor, Bool.false_eq_true, if_false, Option.bind_eq_bind, Option.bind_some]
  by_cases hn : n < KB3_FIRST_EVAL_STEP
  · rw [if_pos hn]
    refine ⟨rfl, _, rfl, Or.inr ⟨fun h => ?_, rfl, rfl, rfl⟩⟩
    unfold KB3_FIRST_EVAL_STEP at hn
    omega
  · rw [if_neg hn]
    have hnine : 9 ≤ n := by
      unfold KB3_FIRST_EVAL_STEP at hn
      omega
    have hsteps : n - ((KB3_WINDOW_N : Int) - 1) = n - 4 := by
      unfold KB3_WINDOW_N
      omega
    rw [hsteps]
    by_cases hfull : (windowOver num by_step ref thresh (n - 4) 5).2 = false ∧
        5 ≤ (windowOver num by_step ref thresh (n - 4) 5).1
    · have hcond : ¬ (windowOver num by_step ref thresh (n - 4) KB3_WINDOW_N).2 = true ∧
          (windowOver num by_step ref thresh (n - 4) KB3_WINDOW_N).1 ≥ KB3_WINDOW_N :=
        ⟨by rw [KB3_WINDOW_N, hfull.1]; simp, hfull.2⟩
      rw [if_pos hcond]
      by_cases hfired : kb3.fired = true
      · rw [if_pos hfired]
        refine ⟨rfl, _, rfl, Or.inl ⟨⟨hnine, hwindow.mp hfull⟩, hfired, ?_, hfired.symm⟩⟩
        rw [hfired]
        rfl
      · rw [if_neg hfired]
        refine ⟨rfl, _, rfl, Or.inl ⟨⟨hnine, hwindow.mp hfull⟩, rfl, ?_, ?_⟩⟩
        · rw [Bool.eq_false_iff.mpr hfired]
          rfl
        · rw [Bool.eq_false_iff.mpr hfired]
    · have hcond : ¬ (¬ (windowOver num by_step ref thresh (n - 4) KB3_WINDOW_N).2 = true ∧
          (windowOver num by_step ref thresh (n - 4) KB3_WINDOW_N).1 ≥ KB3_WINDOW_N) := by
        intro h
        exact hfull ⟨Bool.eq_false_iff.mpr h.1, h.2⟩
      rw [if_neg hcond]
      exact ⟨rfl, _, rfl, Or.inr ⟨fun h => hfull (hwindow.mpr h.2), rfl, rfl, rfl⟩⟩

theorem apply_none (hi : u.index num = none) : u.apply num kb3 = (kb3, none) := by
  unfold Update.index at hi
  unfold Update.apply kb3_update
  split
  · split
    · rfl
    · next hone =>
      rw [if_neg hone] at hi
      rw [hi]
      rfl
  · rfl

theorem Baseline.Eligible.eq {b : Baseline ν} (h : b.Eligible) :
    ∃ thresh ref, b = ⟨some .long, true, some thresh, some ref⟩ := by
  obtain ⟨mode, kb3_eligible, kb3_threshold, ref⟩ := b
  obtain ⟨rfl, rfl, hthresh, href⟩ := h
  obtain ⟨thresh, rfl⟩ := Option.isSome_iff_exists.mp hthresh
  obtain ⟨ref, rfl⟩ := Option.isSome_iff_exists.mp href
  exact ⟨thresh, ref, rfl⟩

/-! ## A run of updates -/

theorem detector_append : detector num (us ++ [u]) = (u.apply num (detector num us)).1 := by
  simp [detector]

theorem recorded_append (k : Int) : recorded num (us ++ [u]) k =
    if u.index num = some k then some u.sample else recorded num us k := by
  unfold recorded
  rw [List.reverse_append, List.reverse_singleton, List.singleton_append, List.find?_cons]
  by_cases h : u.index num = some k <;> simp [h]

theorem lookup_filter_ne (l : List (Int × ν)) {k : Int} (h : k ≠ n) :
    (l.filter fun entry => entry.1 ≠ n).lookup k = l.lookup k := by
  induction l with
  | nil => rfl
  | cons entry l ih =>
    obtain ⟨j, v⟩ := entry
    by_cases hj : j = n
    · have hkj : (k == j) = false := by simpa [hj] using h
      have hdrop : ((j, v) :: l).filter (fun entry => entry.1 ≠ n) =
          l.filter fun entry => entry.1 ≠ n := by simp [hj]
      rw [hdrop, ih, List.lookup_cons, hkj]
    · by_cases hkj : k = j
      · simp [hj, hkj]
      · have hkj' : (k == j) = false := by simpa using hkj
        simp only [List.filter_cons, List.lookup_cons, hkj']
        simpa [hj, List.lookup_cons, hkj'] using ih

/-- The table holds the latest sample of each step. -/
theorem detector_recorded (us : List (Update ν)) (hus : ∀ u ∈ us, u.baseline.Eligible) :
    sampleAt (detector num us).by_step = recorded num us := by
  induction us using List.reverseRecOn with
  | nil => rfl
  | append_singleton us u ih =>
    have hrest := ih fun v hv => hus v (List.mem_append_left [u] hv)
    obtain ⟨thresh, ref, hb⟩ := (hus u (by simp)).eq
    rw [detector_append]
    funext k
    rw [recorded_append, ← hrest]
    cases hi : u.index num with
    | none => simp [apply_none hi]
    | some n =>
      rw [(apply_at _ hi hb).1, sampleAt, List.lookup_cons]
      by_cases hk : n = k
      · simp [hk]
      · have hk' : (k == n) = false := by simpa using fun h : k = n => hk h.symm
        rw [hk', lookup_filter_ne _ fun h => hk h.symm]
        simp [hk, sampleAt]

theorem hit_take {i j : Nat} (hij : i < j) : Hit num (us.take j) i ↔ Hit num us i := by
  unfold Hit
  rw [List.getElem?_take_of_lt hij, List.take_take, Nat.min_eq_left hij]

theorem not_hit_of_le {i : Nat} (h : us.length ≤ i) : ¬ Hit num us i := by
  rintro ⟨u, n, ref, thresh, hu, -⟩
  rw [List.getElem?_eq_none h] at hu
  cases hu

/-- What the last of some updates reports, and whether the detector has fired after it. -/
theorem last_report (hu : u.baseline.Eligible) (hus : ∀ u ∈ us, u.baseline.Eligible) :
    let r := u.apply num (detector num us)
    (Hit num (us ++ [u]) us.length ∧ r.1.fired = true ∧
        ∃ q, r.2 = some q ∧ q.fired = !(detector num us).fired ∧
          q.suppressed = (detector num us).fired) ∨
      (¬ Hit num (us ++ [u]) us.length ∧ r.1.fired = (detector num us).fired ∧
        ∀ q, r.2 = some q → q.fired = false ∧ q.suppressed = false) := by
  intro r
  obtain ⟨thresh, ref, hb⟩ := hu.eq
  have hlast : (us ++ [u])[us.length]? = some u := by simp
  have htake : (us ++ [u]).take (us.length + 1) = us ++ [u] := by
    exact List.take_of_length_le (by simp)
  cases hi : u.index num with
  | none =>
    right
    have hr : r = (detector num us, none) := apply_none hi
    refine ⟨?_, by rw [hr], by rw [hr]; simp⟩
    rintro ⟨v, n, _, _, hv, hn, -⟩
    obtain rfl := Option.some.inj (hlast.symm.trans hv)
    rw [hi] at hn
    cases hn
  | some n =>
    obtain ⟨hstep, q, hq, hcases⟩ := apply_at (detector num us) hi hb
    have htable : sampleAt ((n, u.sample) :: (detector num us).by_step.filter
        fun entry => entry.1 ≠ n) = recorded num (us ++ [u]) := by
      rw [← hstep, ← detector_append]
      apply detector_recorded
      intro v hv
      rcases List.mem_append.mp hv with hv | hv
      · exact hus v hv
      · exact List.mem_singleton.mp hv ▸ hu
    have hiff : Hit num (us ++ [u]) us.length ↔ 9 ≤ n ∧
        WindowOver num (recorded num (us ++ [u])) ref thresh n := by
      constructor
      · rintro ⟨v, m, ref', thresh', hv, hm, href, hthresh, hnine, hwindow⟩
        obtain rfl := Option.some.inj (hlast.symm.trans hv)
        obtain rfl := Option.some.inj (hi.symm.trans hm)
        rw [hb] at href hthresh
        obtain rfl := Option.some.inj href
        obtain rfl := Option.some.inj hthresh
        rw [htake] at hwindow
        exact ⟨hnine, hwindow⟩
      · rintro ⟨hnine, hwindow⟩
        exact ⟨u, n, ref, thresh, hlast, hi, by rw [hb], by rw [hb], hnine, by rwa [htake]⟩
    rw [htable] at hcases
    rcases hcases with ⟨hhit, hfired, hq', hq''⟩ | ⟨hhit, hfired, hq', hq''⟩
    · exact Or.inl ⟨hiff.mpr hhit, hfired, q, hq, hq', hq''⟩
    · refine Or.inr ⟨fun h => hhit (hiff.mp h), hfired, fun q' h => ?_⟩
      obtain rfl := Option.some.inj (hq.symm.trans h)
      exact ⟨hq', hq''⟩

theorem detector_fired (us : List (Update ν)) (hus : ∀ u ∈ us, u.baseline.Eligible) :
    (detector num us).fired = true ↔ ∃ j, Hit num us j := by
  induction us using List.reverseRecOn with
  | nil =>
    refine ⟨fun h => absurd h Bool.false_ne_true, ?_⟩
    rintro ⟨j, h⟩
    exact absurd h (not_hit_of_le (Nat.zero_le j))
  | append_singleton us u ih =>
    have hrest : ∀ u ∈ us, u.baseline.Eligible := fun v hv => hus v (List.mem_append_left [u] hv)
    have hold : (∃ j, Hit num us j) → ∃ j, Hit num (us ++ [u]) j := by
      rintro ⟨j, h⟩
      have hj : j < us.length := by
        by_contra hle
        exact not_hit_of_le (Nat.not_lt.mp hle) h
      refine ⟨j, (hit_take hj).mp ?_⟩
      rwa [List.take_left]
    rw [detector_append]
    rcases last_report (hus u (by simp)) hrest with ⟨hhit, hfired, -⟩ | ⟨hhit, hfired, -⟩
    · exact ⟨fun _ => ⟨_, hhit⟩, fun _ => hfired⟩
    · rw [hfired, ih hrest]
      refine ⟨hold, ?_⟩
      rintro ⟨j, h⟩
      have hj : j < us.length := by
        by_contra hle
        rcases Nat.lt_or_eq_of_le (Nat.not_lt.mp hle) with hlt | rfl
        · exact not_hit_of_le (by rw [List.length_append]; exact hlt) h
        · exact hhit h
      exact ⟨j, by rw [← hit_take hj, List.take_left] at h; exact h⟩

/-- Over any updates of a run on an eligible bin the detector fires at the first hit and at no
other place, and is suppressed at each later one. -/
theorem fires_at_first_hit (num : Num ν) (us : List (Update ν))
    (hus : ∀ u ∈ us, u.baseline.Eligible) (i : Nat) :
    ((∃ r, reported num us i = some r ∧ r.fired = true) ↔
        Hit num us i ∧ ∀ j < i, ¬ Hit num us j) ∧
      ((∃ r, reported num us i = some r ∧ r.suppressed = true) ↔
        Hit num us i ∧ ∃ j < i, Hit num us j) ∧
      ∀ j, (∃ r, reported num us i = some r ∧ r.fired = true) →
        (∃ r, reported num us j = some r ∧ r.fired = true) → i = j := by
  have hlaw : ∀ i, ((∃ r, reported num us i = some r ∧ r.fired = true) ↔
      Hit num us i ∧ ∀ j < i, ¬ Hit num us j) ∧
      ((∃ r, reported num us i = some r ∧ r.suppressed = true) ↔
        Hit num us i ∧ ∃ j < i, Hit num us j) := by
    intro i
    rcases Nat.lt_or_ge i us.length with hi | hi
    · obtain ⟨u, hu⟩ : ∃ u, us[i]? = some u := ⟨_, List.getElem?_eq_getElem hi⟩
      have hpre : ∀ v ∈ us.take i, v.baseline.Eligible := fun v hv => hus v (List.mem_of_mem_take hv)
      have hsnoc : us.take i ++ [u] = us.take (i + 1) := by
        rw [List.take_add_one, hu]
        rfl
      have hlen : (us.take i).length = i := List.length_take_of_le (Nat.le_of_lt hi)
      have hreport : reported num us i = (u.apply num (detector num (us.take i))).2 := by
        rw [reported, hu, Option.bind_some]
      have hhit : Hit num (us.take i ++ [u]) (us.take i).length ↔ Hit num us i := by
        rw [hsnoc, hlen]
        exact hit_take (Nat.lt_succ_self i)
      have hbefore : (detector num (us.take i)).fired = true ↔ ∃ j < i, Hit num us j := by
        rw [detector_fired _ hpre]
        constructor
        · rintro ⟨j, h⟩
          have hj : j < i := by
            by_contra hle
            exact not_hit_of_le (by omega) h
          exact ⟨j, hj, (hit_take hj).mp h⟩
        · rintro ⟨j, hj, h⟩
          exact ⟨j, (hit_take hj).mpr h⟩
      have hnone : (∀ j < i, ¬ Hit num us j) ↔ (detector num (us.take i)).fired = false := by
        rw [← Bool.not_eq_true, hbefore]
        simp
      rw [hreport, hnone, ← hbefore]
      rcases last_report (hus u (List.mem_of_getElem? hu)) hpre with
        ⟨h, -, q, hq, hfired, hsuppressed⟩ | ⟨h, -, hq⟩
      · rw [hhit] at h
        simp [h, hq, hfired, hsuppressed]
      · rw [hhit] at h
        refine ⟨⟨?_, fun h' => absurd h'.1 h⟩, ⟨?_, fun h' => absurd h'.1 h⟩⟩
        · rintro ⟨r, hr, hfired⟩
          rw [(hq r hr).1] at hfired
          cases hfired
        · rintro ⟨r, hr, hsuppressed⟩
          rw [(hq r hr).2] at hsuppressed
          cases hsuppressed
    · have hreport : reported num us i = none := by
        rw [reported, List.getElem?_eq_none hi]
        rfl
      have hnot : ¬ Hit num us i := not_hit_of_le hi
      simp [hreport, hnot]
  refine ⟨(hlaw i).1, (hlaw i).2, fun j hfi hfj => ?_⟩
  obtain ⟨hi, hbefore⟩ := (hlaw i).1.mp hfi
  obtain ⟨hj, hbefore'⟩ := (hlaw j).1.mp hfj
  rcases Nat.lt_trichotomy i j with hlt | heq | hgt
  · exact absurd hi (hbefore' i hlt)
  · exact heq
  · exact absurd hj (hbefore j hgt)

/-- Ten gallons at a threshold of two, seen from step five to step ten. -/
def burst : List (Update Int) :=
  [5, 6, 7, 8, 9, 10].map fun n => ⟨⟨some .long, true, some 200, some 1000⟩, 1500, n * 100⟩

/-- The detector fires at step nine and is suppressed at step ten. -/
theorem burst_fires_once : (∃ r, reported hundredths burst 4 = some r ∧ r.fired = true) ∧
    ∃ r, reported hundredths burst 5 = some r ∧ r.suppressed = true := by
  have hlaw := fires_at_first_hit hundredths burst (by
    intro u hu
    obtain ⟨n, -, rfl⟩ := List.mem_map.mp hu
    exact ⟨rfl, rfl, rfl, rfl⟩)
  have hfired : ∃ r, reported hundredths burst 4 = some r ∧ r.fired = true := ⟨_, rfl, rfl⟩
  have hlater : ∃ r, reported hundredths burst 5 = some r ∧ r.suppressed = true := ⟨_, rfl, rfl⟩
  exact ⟨(hlaw 4).1.mpr ((hlaw 4).1.mp hfired), (hlaw 5).2.1.mpr ((hlaw 5).2.1.mp hlater)⟩

end motioncore.irrigation
