-- The dead band of a watch. A watch that has passed is given a relaxed threshold, and
-- over any samples it does what a trigger with two thresholds does, unless the relaxed
-- threshold of a strict comparison leaves the range of a sample.
import MotionCore.Interlock.Filters

open motioncore.machine

namespace motioncore.interlock

/-! ## The trigger -/

def IlCompareOp.directed : IlCompareOp → Bool
  | .eq => false
  | .ne => false
  | _ => true

/-- A trigger over the integers: it trips at the threshold, and releases when the value
has gone back past the threshold by the dead band. -/
def trigger (op : IlCompareOp) (t hyst : Int) (last : Bool) (v : Int) : Bool :=
  match op with
  | .gt => decide ((if last then t - hyst else t) < v)
  | .ge => decide ((if last then t - hyst else t) ≤ v)
  | .lt => decide (v < if last then t + hyst else t)
  | .le => decide (v ≤ if last then t + hyst else t)
  | .eq => decide (v = t)
  | .ne => decide (v ≠ t)

/-- The outputs over a sequence of values. Each one is the memory of the next. -/
def outputs (f : Bool → UInt16 → Bool) : Bool → List UInt16 → List Bool
  | _, [] => []
  | last, v :: vs => f last v :: outputs f (f last v) vs

/-- The values of an input of a slot, over the ticks of a run. -/
def valuesOf (k : SlotIx) (idx : Nat) : Interlocks → List Samples → List UInt16
  | _, [] => []
  | s, smp :: smps =>
    (inputValues smp s k).getD idx 0 :: valuesOf k idx (interlockTickAll smp s) smps

/-- The results of a watch of a slot, over the ticks of a run. -/
def passesOf (k : SlotIx) (j : Nat) : Interlocks → List Samples → List Bool
  | _, [] => []
  | s, smp :: smps =>
    ((interlockTickAll smp s).runtime k).last_pass j :: passesOf k j (interlockTickAll smp s) smps

/-- A watch of a slot that was just armed, on an input with a dead band. -/
structure Watches (s : Interlocks) (k : SlotIx) (j : Nat) (w : IlWatch) (hyst : UInt16) : Prop where
  slot : TextSlot s k
  clear : s.runtime k = .clear
  watch : (s.persist.inst k).watches[j]? = some w
  band : ((s.persist.inst k).inputs.map (·.hyst)).getD w.input_idx 0 = hyst

/-- Each watch with this comparison, threshold and dead band is a trigger over the values of
its input, in every run. -/
def RunsAsTrigger (op : IlCompareOp) (t hyst : UInt16) : Prop :=
  ∀ s k j w, Watches s k j w hyst → w.op = op → w.threshold = t → ∀ smps,
    passesOf k j s smps =
      outputs (fun last v => trigger op t.toNat hyst.toNat last v.toNat) false
        (valuesOf k w.input_idx s smps)

/-- The relaxed threshold of a strict comparison is the value of a sample. -/
structure BandFits (op : IlCompareOp) (t hyst : UInt16) : Prop where
  above : op = .gt → hyst.toNat ≤ t.toNat
  below : op = .lt → t.toNat + hyst.toNat ≤ 65535

/-! ## The watches of a slot -/

def watchStep (op : IlCompareOp) (t hyst : UInt16) (last : Bool) (v : UInt16) : Bool :=
  watchPass op v t (effectiveThreshold op t hyst last)

theorem evalWatches_below (inputs : List IlInput) (vals : List UInt16) (rt : SlotRuntime)
    {i n : Nat} (hn : n < i) (ws : List IlWatch) :
    (evalWatches inputs vals rt i ws).1.last_pass n = rt.last_pass n := by
  induction ws generalizing rt i with
  | nil => rfl
  | cons w rest ih =>
    exact (ih _ (Nat.lt_succ_of_lt hn)).trans (Function.update_of_ne (by omega) _ _)

theorem evalWatches_at (inputs : List IlInput) (vals : List UInt16) {ws : List IlWatch} {j : Nat}
    {w : IlWatch} (hw : ws[j]? = some w) (rt : SlotRuntime) (i : Nat) :
    (evalWatches inputs vals rt i ws).1.last_pass (i + j) =
      watchStep w.op w.threshold ((inputs.map (·.hyst)).getD w.input_idx 0) (rt.last_pass (i + j))
        (vals.getD w.input_idx 0) := by
  induction ws generalizing rt i j with
  | nil => exact nomatch hw
  | cons w' rest ih =>
    cases j with
    | zero =>
      obtain rfl := Option.some.inj hw
      exact (evalWatches_below inputs vals _ (Nat.lt_succ_self i) rest).trans
        (Function.update_self i _ _)
    | succ j =>
      have hidx : i + (j + 1) = i + 1 + j := by omega
      rw [hidx]
      refine (ih hw _ (i + 1)).trans ?_
      dsimp only
      rw [Function.update_of_ne (by omega)]

variable {hyst : UInt16}

/-- Over a run the results of a watch follow from the values of its input alone. -/
theorem passesOf_eq {k : SlotIx} {j : Nat} {w : IlWatch} {s : Interlocks} (hslot : TextSlot s k)
    (hw : (s.persist.inst k).watches[j]? = some w)
    (hband : ((s.persist.inst k).inputs.map (·.hyst)).getD w.input_idx 0 = hyst)
    (smps : List Samples) : passesOf k j s smps =
      outputs (watchStep w.op w.threshold hyst) ((s.runtime k).last_pass j)
        (valuesOf k w.input_idx s smps) := by
  induction smps generalizing s with
  | nil => rfl
  | cons smp smps ih =>
    have hstep : ((interlockTickAll smp s).runtime k).last_pass j =
        watchStep w.op w.threshold hyst ((s.runtime k).last_pass j)
          ((inputValues smp s k).getD w.input_idx 0) := by
      have hat := evalWatches_at (s.persist.inst k).inputs (inputValues smp s k) hw
        (readInputs smp s.pins (s.runtime k) 0 (s.persist.inst k).inputs).1 0
      rw [Nat.zero_add, readInputs_last_pass, hband] at hat
      rw [tick_runtime hslot]
      exact hat
    have hrest := ih (hslot.tick smp) (by rw [tick_watches]; exact hw)
      (by rw [tick_inputs]; exact hband)
    unfold passesOf valuesOf outputs
    rw [hrest, hstep]

/-! ## Inside the range -/

variable {op : IlCompareOp}

/-- The relaxed threshold of `gt` and `ge` stops at zero. -/
theorem relaxed_above (hop : op = .gt ∨ op = .ge) (t hyst : UInt16) (last : Bool) :
    (effectiveThreshold op t hyst last).toNat = if last then t.toNat - hyst.toNat else t.toNat := by
  have hsub : (if hyst < t then t - hyst else 0).toNat = t.toNat - hyst.toNat := by
    split
    · rename_i hlt
      exact UInt16.toNat_sub_of_le _ _ (UInt16.le_of_lt hlt)
    · rename_i hle
      rw [UInt16.lt_iff_toNat_lt] at hle
      change 0 = t.toNat - hyst.toNat
      omega
  have hzero : hyst = 0 → t.toNat - hyst.toNat = t.toNat := by
    rintro rfl
    rfl
  unfold effectiveThreshold
  cases last with
  | false => rw [if_neg (fun h => nomatch h.2), if_neg Bool.false_ne_true]
  | true =>
    rw [if_pos rfl]
    by_cases hh : hyst = 0
    · rw [if_neg (fun h => h.1 hh), hzero hh]
    · rw [if_pos ⟨hh, rfl⟩]
      rcases hop with rfl | rfl <;> exact hsub

theorem relaxed_below (hop : op = .lt ∨ op = .le) (t hyst : UInt16) (last : Bool) :
    (effectiveThreshold op t hyst last).toNat =
      if last then min 65535 (t.toNat + hyst.toNat) else t.toNat := by
  have ht := t.toNat_lt
  have hadd : (if 65535 < t.toNat + hyst.toNat then 65535 else t + hyst).toNat =
      min 65535 (t.toNat + hyst.toNat) := by
    split
    · change 65535 = _
      omega
    · rw [UInt16.toNat_add]
      omega
  unfold effectiveThreshold
  cases last with
  | false => rw [if_neg (fun h => nomatch h.2), if_neg Bool.false_ne_true]
  | true =>
    rw [if_pos rfl]
    by_cases hh : hyst = 0
    · subst hh
      rw [if_neg (fun h => h.1 rfl)]
      change t.toNat = min 65535 (t.toNat + 0)
      omega
    · rw [if_pos ⟨hh, rfl⟩]
      rcases hop with rfl | rfl <;> exact hadd

theorem watchStep_eq (hdir : op.directed = true) {t : UInt16} (hfits : BandFits op t hyst)
    (last : Bool) (v : UInt16) :
    watchStep op t hyst last v = trigger op t.toNat hyst.toNat last v.toNat := by
  have hv := v.toNat_lt
  unfold watchStep
  cases op with
  | eq => exact nomatch hdir
  | ne => exact nomatch hdir
  | gt =>
    have hle := hfits.above rfl
    unfold watchPass trigger
    rw [decide_eq_decide, UInt16.lt_iff_toNat_lt, relaxed_above (Or.inl rfl)]
    split <;> omega
  | ge =>
    unfold watchPass trigger
    rw [decide_eq_decide, UInt16.le_iff_toNat_le, relaxed_above (Or.inr rfl)]
    split <;> omega
  | lt =>
    have hle := hfits.below rfl
    unfold watchPass trigger
    rw [decide_eq_decide, UInt16.lt_iff_toNat_lt, relaxed_below (Or.inl rfl)]
    split <;> omega
  | le =>
    unfold watchPass trigger
    rw [decide_eq_decide, UInt16.le_iff_toNat_le, relaxed_below (Or.inr rfl)]
    split <;> omega

theorem outputs_congr {f g : Bool → UInt16 → Bool} (h : ∀ last v, f last v = g last v)
    (last : Bool) (vs : List UInt16) : outputs f last vs = outputs g last vs := by
  rw [show f = g from funext fun last => funext (h last)]

/-! ## At the ends of the range -/

/-- An interlock with one watch, on an analog input. -/
def probe (op : IlCompareOp) (t hyst : UInt16) : IlInst :=
  { IlInst.zero with
    inputs := [⟨4, .adc, 0, 4, 0, hyst⟩]
    inputs_le := Nat.le_of_ble_eq_true rfl
    watches := [⟨0, op, t⟩]
    watches_le := Nat.le_of_ble_eq_true rfl }

/-- Slot 0 was just armed with it. -/
def probed (op : IlCompareOp) (t hyst : UInt16) : Interlocks where
  persist := (persistColdInit.setInst ⟨0, Nat.zero_lt_two⟩ (probe op t hyst)).setSlot ⟨0, Nat.zero_lt_two⟩
    ⟨INTERLOCK_SLOT_ARMED, INTERLOCK_ID_DSL, 0⟩
  runtime := fun _ => .clear
  pins := (halPinClaimAdc .boot 4 ⟨0, Nat.zero_lt_two⟩ 0 4).1
  status := fun _ => .zero

theorem probed_watches (op : IlCompareOp) (t hyst : UInt16) :
    Watches (probed op t hyst) 0 0 ⟨0, op, t⟩ hyst := by
  exact ⟨⟨rfl, rfl⟩, rfl, rfl, rfl⟩

theorem probed_values (op : IlCompareOp) (t hyst v₁ v₂ : UInt16) :
    valuesOf 0 0 (probed op t hyst) [levels false v₁, levels false v₂] = [v₁, v₂] := rfl

/-- What the first two samples say of a watch that runs as a trigger. -/
theorem RunsAsTrigger.two {t : UInt16} (h : RunsAsTrigger op t hyst) (v₁ v₂ : UInt16) :
    watchStep op t hyst false v₁ = trigger op t.toNat hyst.toNat false v₁.toNat ∧
      watchStep op t hyst (watchStep op t hyst false v₁) v₂ =
        trigger op t.toNat hyst.toNat (trigger op t.toNat hyst.toNat false v₁.toNat) v₂.toNat := by
  have hw := probed_watches op t hyst
  have hrun := h _ 0 0 ⟨0, op, t⟩ hw rfl rfl [levels false v₁, levels false v₂]
  rw [passesOf_eq hw.slot hw.watch hw.band, probed_values] at hrun
  obtain ⟨h₁, hrest⟩ := List.cons.inj hrun
  exact ⟨h₁, (List.cons.inj hrest).1⟩

/-- Past zero the watch releases at zero, and the trigger never. -/
theorem RunsAsTrigger.above {t : UInt16} (h : RunsAsTrigger .gt t hyst) : hyst.toNat ≤ t.toNat := by
  by_contra hlt
  have hh := hyst.toNat_lt
  have hmax : (65535 : UInt16).toNat = 65535 := by decide
  have hzero : (0 : UInt16).toNat = 0 := rfl
  obtain ⟨h₁, h₂⟩ := h.two 65535 0
  have htrip : trigger .gt t.toNat hyst.toNat false (65535 : UInt16).toNat = true := by
    unfold trigger
    rw [decide_eq_true_eq, if_neg Bool.false_ne_true, hmax]
    omega
  have hhold : trigger .gt t.toNat hyst.toNat true (0 : UInt16).toNat = true := by
    unfold trigger
    rw [decide_eq_true_eq, if_pos rfl, hzero]
    omega
  rw [htrip] at h₁ h₂
  rw [h₁, hhold] at h₂
  -- the relaxed threshold is zero, and zero is not above it
  unfold watchStep watchPass at h₂
  rw [decide_eq_true_eq, UInt16.lt_iff_toNat_lt] at h₂
  exact Nat.not_lt_zero _ h₂

/-- Past the largest sample the watch releases there, and the trigger never. -/
theorem RunsAsTrigger.below {t : UInt16} (h : RunsAsTrigger .lt t hyst) :
    t.toNat + hyst.toNat ≤ 65535 := by
  by_contra hlt
  have hh := hyst.toNat_lt
  have hmax : (65535 : UInt16).toNat = 65535 := by decide
  have hzero : (0 : UInt16).toNat = 0 := rfl
  obtain ⟨h₁, h₂⟩ := h.two 0 65535
  have htrip : trigger .lt t.toNat hyst.toNat false (0 : UInt16).toNat = true := by
    unfold trigger
    rw [decide_eq_true_eq, if_neg Bool.false_ne_true, hzero]
    omega
  have hhold : trigger .lt t.toNat hyst.toNat true (65535 : UInt16).toNat = true := by
    unfold trigger
    rw [decide_eq_true_eq, if_pos rfl, hmax]
    omega
  rw [htrip] at h₁ h₂
  rw [h₁, hhold] at h₂
  -- the relaxed threshold is the largest sample, which is not below it
  have hteff := (effectiveThreshold .lt t hyst true).toNat_lt
  unfold watchStep watchPass at h₂
  rw [decide_eq_true_eq, UInt16.lt_iff_toNat_lt, hmax] at h₂
  omega

/-- A watch with a side does what the trigger does, in every run from the arm of its slot
on, exactly when a strict comparison keeps its relaxed threshold among the samples. -/
theorem watch_is_a_trigger_iff (op : IlCompareOp) (hdir : op.directed = true) (t hyst : UInt16) :
    RunsAsTrigger op t hyst ↔ BandFits op t hyst := by
  constructor
  · intro h
    refine ⟨?_, ?_⟩
    · rintro rfl
      exact h.above
    · rintro rfl
      exact h.below
  · rintro hfits s k j w hw rfl rfl smps
    rw [passesOf_eq hw.slot hw.watch hw.band, hw.clear]
    exact outputs_congr (watchStep_eq hdir hfits) _ _

/-- A band of 20 below a threshold of 512. -/
theorem band_below_the_threshold : RunsAsTrigger .gt 512 20 :=
  (watch_is_a_trigger_iff .gt rfl 512 20).mpr ⟨fun _ => by decide, fun h => nomatch h⟩

/-- A threshold of 10 with a dead band of 20. -/
def bandText : List UInt8 :=
  ascii ['x', ';', 'c', 'f', 'g', '[', 'A', '1', ':', 'a', 'd', 'c', ',', 'h', 'y', 's', 't', '_',
    '2', '0', ']', ';', 'w', 'a', 't', 'c', 'h', '[', 'A', '1', ':', 'g', 't', ':', '1', '0', ']']

set_option maxRecDepth 16000 in
/-- The sample 0 releases the watch, though it has not gone back by 20. -/
theorem band_past_zero_releases :
    ¬ ∀ op t hyst, IlCompareOp.directed op = true → RunsAsTrigger op t hyst := by
  intro h
  have hparse : ilParse bandText =
      .ok { probe .gt 10 20 with name := ascii ['x'], name_lt := by decide } := by decide
  have hok : (interlockSetSlotDsl (startUp persistColdInit) 0 bandText).2.1 = .ok := by decide
  obtain ⟨q, _, hinst, hclear, _⟩ := setSlotDsl_arms (k := 0) rfl hparse hok
  have hw : Watches (armedWith bandText) 0 0 ⟨0, .gt, 10⟩ 20 := by
    refine ⟨⟨by decide, by decide⟩, hclear, ?_, ?_⟩
    · unfold armedWith
      rw [hinst]
      rfl
    · unfold armedWith
      rw [hinst]
      rfl
  have hrun := h .gt 10 20 rfl _ 0 0 _ hw rfl rfl [levels false 100, levels false 0]
  exact absurd hrun (by decide)

end motioncore.interlock
