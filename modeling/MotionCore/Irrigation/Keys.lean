-- The keys of bins (`baselines.lua`, `thresholds.lua`, `main.lua`): the names of the valves,
-- sorted and joined. The keys of the baselines are brought into this order on load; those of the
-- curves are taken as the file spells them.
import MotionCore.Irrigation.Poll

namespace motioncore.irrigation

open motioncore.bussup (Value orElse)

variable {ν β : Type}

/-! ## Loading -/

/-- `Baselines.load`: the table under canonical keys. Of two keys of one bin the later one
stays. -/
def load_baselines (bins : List (String × β)) : List (String × β) :=
  (bins.map fun entry => (canonicalize_key entry.1, entry.2)).reverse

structure CurveEntry (ν : Type) where
  mu_i_asym : Option ν
  sd_i_asym : Option ν
  i_low_open : Option ν

/-- The curve of an entry. One without a deviation is in the table, but no lookup gives it. -/
def CurveEntry.curve (e : CurveEntry ν) : Option (Curve ν) := do
  let mu ← e.mu_i_asym
  let i_low_open ← e.i_low_open
  let sd ← e.sd_i_asym
  some ⟨mu, sd, i_low_open⟩

/-- The loading of the curves in `main.lua`. -/
def load_curves (per_bin : List (String × CurveEntry ν)) : List (String × Curve ν) :=
  per_bin.filterMap fun entry => entry.2.curve.map fun c => (entry.1, c)

/-! ## Valves -/

/-- The name of a valve, `remote:bit`. It has no slash, as the key of a bin sets one between
two names. -/
structure Valve where
  name : String
  ne : name ≠ ""
  plain : '/' ∉ name.toList

def names (vs : List Valve) : List String := vs.map Valve.name

def sorted (ps : List String) : List String := ps.insertionSort (· ≤ ·)

/-- The parts of a key between its slashes. -/
def parts (key : String) : List String :=
  ((key.toList.splitOn '/').filter fun part => part ≠ []).map String.ofList

/-- The key names these valves, in some order. -/
def Spells (key : String) (vs : List Valve) : Prop := (parts key).Perm (names vs)

/-- The setup of an event lists these valves, its groups and their bits in some order. -/
def Lists (num : Num ν) (io_setup : Option (Value ν)) (vs : List Valve) : Prop :=
  ∃ groups all, items (orElse io_setup (.array [])) = some groups ∧
    groups.mapM (pins num) = some all ∧ all.flatten.Perm (names vs)

/-- What a run is given of a table: an entry stored for its valves, and nothing only if there is
none. -/
def GivenFor (table : List (String × β)) (vs : List Valve) (given : Option β) : Prop :=
  (∀ b, given = some b → ∃ key, Spells key vs ∧ (key, b) ∈ table) ∧
    (given = none → ∀ key b, Spells key vs → (key, b) ∉ table)

variable {ps qs : List String} {vs : List Valve}

theorem sorted_perm (ps : List String) : (sorted ps).Perm ps := List.perm_insertionSort _ ps

theorem sorted_eq_iff : sorted ps = sorted qs ↔ ps.Perm qs := by
  constructor
  · intro h
    exact (sorted_perm ps).symm.trans (h ▸ sorted_perm qs)
  · intro h
    have hperm := (sorted_perm ps).trans (h.trans (sorted_perm qs).symm)
    exact hperm.eq_of_pairwise' (List.pairwise_insertionSort _ ps) (List.pairwise_insertionSort _ qs)

/-! ## Parts -/

theorem toList_join (hne : ps ≠ []) :
    (join ps).toList = ['/'].intercalate (ps.map String.toList) := by
  induction ps with
  | nil => exact absurd rfl hne
  | cons p rest ih =>
    cases rest with
    | nil => simp [join]
    | cons q rest =>
      rw [join, String.toList_append, String.toList_append, ih (List.cons_ne_nil q rest)]
      · simp [List.intercalate]
      · exact List.cons_ne_nil q rest

theorem not_mem_splitOn (a : Char) (xs : List Char) : ∀ l ∈ xs.splitOn a, a ∉ l := by
  induction xs with
  | nil => simp
  | cons x xs ih =>
    rw [List.splitOn_cons_eq_if_modifyHead]
    by_cases hx : x = a
    · intro l hl
      rw [if_pos (by simpa using hx)] at hl
      rcases List.mem_cons.mp hl with rfl | hl
      · exact List.not_mem_nil
      · exact ih l hl
    · rw [if_neg (by simpa using hx)]
      cases hsplit : xs.splitOn a with
      | nil => simp
      | cons first rest =>
        rw [hsplit] at ih
        intro l hl
        rcases List.mem_cons.mp hl with rfl | hl
        · intro hmem
          rcases List.mem_cons.mp hmem with rfl | hmem
          · exact hx rfl
          · exact ih first List.mem_cons_self hmem
        · exact ih l (List.mem_cons_of_mem first hl)

theorem parts_plain (key : String) : ∀ p ∈ parts key, p ≠ "" ∧ '/' ∉ p.toList := by
  intro p hp
  obtain ⟨l, hl, rfl⟩ := List.mem_map.mp hp
  obtain ⟨hsplit, hne⟩ := List.mem_filter.mp hl
  refine ⟨fun h => ?_, ?_⟩
  · have : l = [] := by simpa using congrArg String.toList h
    simp [this] at hne
  · rw [String.toList_ofList]
    exact not_mem_splitOn '/' _ l hsplit

theorem parts_join (hps : ∀ p ∈ ps, p ≠ "" ∧ '/' ∉ p.toList) : parts (join ps) = ps := by
  unfold parts
  cases hnil : ps with
  | nil => decide
  | cons p rest =>
    rw [← hnil, toList_join (by rw [hnil]; exact List.cons_ne_nil p rest),
      List.splitOn_intercalate]
    · have hkeep : (ps.map String.toList).filter (fun part => part ≠ []) = ps.map String.toList := by
        rw [List.filter_eq_self]
        intro l hl
        obtain ⟨q, hq, rfl⟩ := List.mem_map.mp hl
        simpa using (hps q hq).1
      rw [hkeep, List.map_map]
      simp
    · intro l hl
      obtain ⟨q, hq, rfl⟩ := List.mem_map.mp hl
      exact (hps q hq).2
    · simp [hnil]

theorem canonicalize_key_eq (key : String) : canonicalize_key key = join (sorted (parts key)) := by
  unfold canonicalize_key
  by_cases h : '/' ∈ key.toList
  · rw [if_pos (by simpa using h)]
    rfl
  · rw [if_neg (by simpa using h)]
    unfold parts
    rw [List.splitOn_eq_singleton h]
    by_cases hkey : key = ""
    · subst hkey
      decide
    · have hne : key.toList ≠ [] := by simpa using hkey
      simp [hne, sorted, join]

theorem names_plain (vs : List Valve) : ∀ p ∈ names vs, p ≠ "" ∧ '/' ∉ p.toList := by
  intro p hp
  obtain ⟨v, -, rfl⟩ := List.mem_map.mp hp
  exact ⟨v.ne, v.plain⟩

/-- The key that the robot makes of the valves of a run. -/
def binKey (vs : List Valve) : String := join (sorted (names vs))

theorem parts_binKey (vs : List Valve) : parts (binKey vs) = sorted (names vs) :=
  parts_join fun p hp => names_plain vs p ((sorted_perm _).mem_iff.mp hp)

theorem canonicalize_key_iff (key : String) (vs : List Valve) :
    canonicalize_key key = binKey vs ↔ Spells key vs := by
  have hparts : parts (canonicalize_key key) = sorted (parts key) := by
    rw [canonicalize_key_eq]
    exact parts_join fun p hp => parts_plain key p ((sorted_perm _).mem_iff.mp hp)
  constructor
  · intro h
    rw [h, parts_binKey] at hparts
    exact (sorted_eq_iff.mp hparts).symm
  · intro h
    rw [canonicalize_key_eq, sorted_eq_iff.mpr h]
    rfl

theorem binKey_spells (vs : List Valve) : Spells (binKey vs) vs := by
  unfold Spells
  rw [parts_binKey]
  exact sorted_perm _

theorem Lists.key {num : Num ν} {io_setup : Option (Value ν)} (h : Lists num io_setup vs) :
    canonicalize_io_setup num io_setup = some (binKey vs) := by
  obtain ⟨groups, all, hgroups, hall, hperm⟩ := h
  have hsort : all.flatten.insertionSort (· ≤ ·) = sorted (names vs) := sorted_eq_iff.mpr hperm
  simp [canonicalize_io_setup, hgroups, hall, hsort]
  rfl

theorem binKey_eq_empty : binKey vs = "" ↔ vs = [] := by
  constructor
  · intro h
    have hparts := parts_binKey vs
    rw [h] at hparts
    have hnil : names vs = [] := by
      have hlen := congrArg List.length hparts
      have hempty : parts "" = [] := by decide
      rw [hempty, (sorted_perm (names vs)).length_eq] at hlen
      exact List.length_eq_zero_iff.mp hlen.symm
    simpa [names] using hnil
  · rintro rfl
    rfl

/-! ## Lookups -/

theorem lookup_some_mem {table : List (String × β)} {key : String} {b : β}
    (h : table.lookup key = some b) : (key, b) ∈ table := by
  induction table with
  | nil => cases h
  | cons entry table ih =>
    obtain ⟨k, c⟩ := entry
    rw [List.lookup_cons] at h
    by_cases hk : key = k
    · obtain rfl : c = b := by simpa [hk] using h
      simp [hk]
    · have hk' : (key == k) = false := by simpa using hk
      rw [hk'] at h
      exact List.mem_cons_of_mem _ (ih h)

theorem lookup_none_not_mem {table : List (String × β)} {key : String}
    (h : table.lookup key = none) (b : β) : (key, b) ∉ table := by
  intro hmem
  have hlookup := List.lookup_eq_none_iff.mp h (key, b) hmem
  simp at hlookup

/-- The baselines are found whatever the order of the names in the file. -/
theorem baseline_given (bins : List (String × β)) (vs : List Valve) :
    GivenFor bins vs ((load_baselines bins).lookup (binKey vs)) := by
  refine ⟨fun b h => ?_, fun h key b hspells hmem => ?_⟩
  · have hmem := lookup_some_mem h
    obtain ⟨⟨key, b'⟩, hin, heq⟩ := List.mem_map.mp (List.mem_reverse.mp hmem)
    obtain ⟨hkey, rfl⟩ := Prod.mk.inj heq
    exact ⟨key, (canonicalize_key_iff key vs).mp hkey, hin⟩
  · refine lookup_none_not_mem h b (List.mem_reverse.mpr (List.mem_map.mpr ⟨_, hmem, ?_⟩))
    rw [(canonicalize_key_iff key vs).mpr hspells]

/-- The curve is found when the file spells the key in the order of the robot. -/
theorem curve_given_iff (curves : List (String × Curve ν)) (vs : List Valve) :
    GivenFor curves vs (lookup_curve curves (binKey vs)) ↔
      ((∃ key c, Spells key vs ∧ (key, c) ∈ curves) →
        vs ≠ [] ∧ ∃ c, (binKey vs, c) ∈ curves) := by
  unfold lookup_curve
  constructor
  · rintro ⟨-, hnone⟩ ⟨key, c, hspells, hmem⟩
    by_cases hvs : binKey vs = ""
    · exact absurd hmem (hnone (if_pos hvs) key c hspells)
    · refine ⟨fun h => hvs (binKey_eq_empty.mpr h), ?_⟩
      rw [if_neg hvs] at hnone
      cases hlookup : curves.lookup (binKey vs) with
      | none => exact absurd hmem (hnone hlookup key c hspells)
      | some c => exact ⟨c, lookup_some_mem hlookup⟩
  · intro h
    refine ⟨fun c hc => ?_, fun hnone key c hspells hmem => ?_⟩
    · split at hc
      · cases hc
      · exact ⟨binKey vs, binKey_spells vs, lookup_some_mem hc⟩
    · obtain ⟨hvs, c', hmem'⟩ := h ⟨key, c, hspells, hmem⟩
      rw [if_neg fun h => hvs (binKey_eq_empty.mp h)] at hnone
      exact lookup_none_not_mem hnone c' hmem'

/-- The run that a STATION_START begins is given the baseline of its valves, in whatever order
the event and the file list them. It is given their curve in any order exactly when a file that
has the curve spells its key in the sorted order, and the set of valves is not empty. -/
theorem started_run_is_given (num : Num ν) (setup : Setup ν) (now : Int) (ent : Delta ν)
    (s : Robot ν) (bins : List (String × Baseline ν)) (per_bin : List (String × CurveEntry ν))
    (vs : List Valve) (hdoes : ent.does "IRRIGATION_STATION_START") (htable : ent.table.isSome)
    (hlists : Lists num (ent.table.bind (Value.get? "io_setup")) vs)
    (hbins : s.baselines = some (load_baselines bins))
    (hcurves : setup.curves = load_curves per_bin) :
    ∃ s' a, entry_effect num setup now ent s = some (s', []) ∧ s'.arming = some a ∧
      GivenFor bins vs (baseline_of s'.baselines a.bin_key) ∧
      (GivenFor (load_curves per_bin) vs a.curve ↔
        ((∃ key c, Spells key vs ∧ (key, c) ∈ load_curves per_bin) →
          vs ≠ [] ∧ ∃ c, (binKey vs, c) ∈ load_curves per_bin)) := by
  have hcanonical : canonicalize_key (binKey vs) = binKey vs :=
    (canonicalize_key_iff _ _).mpr (binKey_spells vs)
  refine ⟨arm setup now ent (binKey vs) s, _, ?_, rfl, ?_, ?_⟩
  · rw [entry_effect, if_pos ⟨hdoes, htable⟩, hlists.key]
    rfl
  · have hbaseline : baseline_of s.baselines (binKey vs) =
        (load_baselines bins).lookup (binKey vs) := by
      rw [baseline_of, hbins, hcanonical]
      rfl
    change GivenFor bins vs (baseline_of s.baselines (binKey vs))
    rw [hbaseline]
    exact baseline_given bins vs
  · change GivenFor (load_curves per_bin) vs (lookup_curve setup.curves (binKey vs)) ↔ _
    rw [hcurves]
    exact curve_given_iff (load_curves per_bin) vs

/-! ## Two valves -/

def valve39 : Valve := ⟨"satellite_1:39", by decide, by decide⟩

def valve6 : Valve := ⟨"satellite_4:6", by decide, by decide⟩

/-- A run on both valves, listed in the order of the controller. -/
def startBoth : Delta Int := ⟨7, some (.str "IRRIGATION_STATION_START"),
  some (.object [("io_setup", .array [
    .object [("remote", .str "satellite_4"), ("bits", .array [.num 600])],
    .object [("remote", .str "satellite_1"), ("bits", .array [.num 3900])]])])⟩

def curveFile (key : String) : List (String × CurveEntry Int) :=
  [(key, ⟨some 50, some 5, some 30⟩)]

theorem startBoth_lists :
    Lists hundredths (startBoth.table.bind (Value.get? "io_setup")) [valve39, valve6] :=
  ⟨_, [["satellite_4:6"], ["satellite_1:39"]], rfl, by decide +kernel, List.Perm.swap _ _ _⟩

/-- With the sorted key in the file the run has its curve. -/
theorem sorted_curve_is_given :
    ∃ s' a, entry_effect hundredths
        ⟨load_curves (curveFile "satellite_1:39/satellite_4:6"), false⟩ 0 startBoth
        (Robot.init none (some (load_baselines []))) = some (s', []) ∧ s'.arming = some a ∧
      GivenFor (load_curves (curveFile "satellite_1:39/satellite_4:6")) [valve39, valve6]
        a.curve := by
  have hkey : binKey [valve39, valve6] = "satellite_1:39/satellite_4:6" := by decide +kernel
  obtain ⟨s', a, heffect, harming, -, hcurve⟩ := started_run_is_given hundredths
    ⟨load_curves (curveFile "satellite_1:39/satellite_4:6"), false⟩ 0 startBoth
    (Robot.init none (some (load_baselines []))) []
    (curveFile "satellite_1:39/satellite_4:6") [valve39, valve6] (by decide +kernel) rfl
    startBoth_lists rfl rfl
  refine ⟨s', a, heffect, harming, hcurve.mpr fun _ => ⟨List.cons_ne_nil _ _, ⟨50, 5, 30⟩, ?_⟩⟩
  rw [hkey]
  exact List.mem_cons_self

/-- A file that spells the key in the order of the controller has the curve of these valves,
and the run is not given it. -/
theorem unsorted_curve_is_missed :
    Spells "satellite_4:6/satellite_1:39" [valve39, valve6] ∧
      ("satellite_4:6/satellite_1:39", (⟨50, 5, 30⟩ : Curve Int)) ∈
        load_curves (curveFile "satellite_4:6/satellite_1:39") ∧
      ∃ s' a, entry_effect hundredths
          ⟨load_curves (curveFile "satellite_4:6/satellite_1:39"), false⟩ 0 startBoth
          (Robot.init none (some [])) = some (s', []) ∧ s'.arming = some a ∧
        a.curve = none := by
  have hkey : canonicalize_io_setup hundredths (startBoth.table.bind (Value.get? "io_setup")) =
      some (binKey [valve39, valve6]) := startBoth_lists.key
  have hparts : parts "satellite_4:6/satellite_1:39" = ["satellite_4:6", "satellite_1:39"] := by
    decide +kernel
  refine ⟨?_, List.mem_cons_self,
    arm ⟨load_curves (curveFile "satellite_4:6/satellite_1:39"), false⟩ 0 startBoth
      (binKey [valve39, valve6]) (Robot.init none (some [])), _, ?_, rfl, ?_⟩
  · unfold Spells
    rw [hparts]
    exact List.Perm.swap _ _ _
  · have hstart : startBoth.does "IRRIGATION_STATION_START" ∧ startBoth.table.isSome :=
      ⟨by decide +kernel, rfl⟩
    rw [entry_effect, if_pos hstart, hkey]
    rfl
  · change lookup_curve (load_curves (curveFile "satellite_4:6/satellite_1:39"))
      (binKey [valve39, valve6]) = none
    have hbin : binKey [valve39, valve6] = "satellite_1:39/satellite_4:6" := by decide +kernel
    rw [hbin]
    decide +kernel

end motioncore.irrigation
