-- The filters of the inputs, over any number of ticks. A digital input follows runs of
-- equal samples, and a watch with a dead band is a trigger with two thresholds, up to
-- the ends of the range of a sample.
import MotionCore.Interlock.BootRuns
import MotionCore.Lib.Latch

open motioncore.latch motioncore.machine

namespace motioncore.interlock

/-! ## What a tick does to one slot -/

/-- The slot is armed with a text, so each tick evaluates it. -/
structure TextSlot (s : Interlocks) (k : SlotIx) : Prop where
  armed : (s.persist.slots k).state = INTERLOCK_SLOT_ARMED
  dsl : (s.persist.slots k).id = INTERLOCK_ID_DSL

def ticks (smps : List Samples) (s : Interlocks) : Interlocks :=
  smps.foldl (fun s smp => interlockTickAll smp s) s

/-- The values of the inputs of a slot that a tick with these samples reads. -/
def inputValues (smp : Samples) (s : Interlocks) (k : SlotIx) : List UInt16 :=
  (readInputs smp s.pins (s.runtime k) 0 (s.persist.inst k).inputs).2

/-- The runtime state of a slot after its evaluation. -/
def runtimeAfter (smp : Samples) (p : Pins) (inst : IlInst) (rt : SlotRuntime) : SlotRuntime :=
  let r := readInputs smp p rt 0 inst.inputs
  (evalWatches inst.inputs r.2 r.1 0 inst.watches).1

variable (smp : Samples) (s : Interlocks)

@[simp] theorem ticks_nil : ticks [] s = s := rfl

@[simp] theorem ticks_cons (smps : List Samples) (s : Interlocks) :
    ticks (smp :: smps) s = ticks smps (interlockTickAll smp s) := rfl

variable {k : SlotIx}

theorem TextSlot.of_same {s s' : Interlocks} (h : TextSlot s k)
    (hs : SameSlot s.persist s'.persist k) : TextSlot s' k := by
  refine ⟨?_, ?_⟩
  · rw [hs.slot]
    exact h.armed
  · rw [hs.slot]
    exact h.dsl

theorem TextSlot.tick {s : Interlocks} (h : TextSlot s k) (smp : Samples) :
    TextSlot (interlockTickAll smp s) k := h.of_same ((tick_evaluated smp s).2.2.1 k)

theorem tick_inputs (k : SlotIx) :
    ((interlockTickAll smp s).persist.inst k).inputs = (s.persist.inst k).inputs := by
  rw [((tick_evaluated smp s).2.2.1 k).inst]

theorem tick_watches (k : SlotIx) :
    ((interlockTickAll smp s).persist.inst k).watches = (s.persist.inst k).watches := by
  rw [((tick_evaluated smp s).2.2.1 k).inst]

theorem ticks_textSlot {s : Interlocks} (h : TextSlot s k) (smps : List Samples) :
    TextSlot (ticks smps s) k := by
  induction smps generalizing s with
  | nil => exact h
  | cons smp smps ih => exact ih (h.tick smp)

theorem ticks_inputs (smps : List Samples) (s : Interlocks) (k : SlotIx) :
    ((ticks smps s).persist.inst k).inputs = (s.persist.inst k).inputs := by
  induction smps generalizing s with
  | nil => rfl
  | cons smp smps ih => exact (ih _).trans (tick_inputs smp s k)

theorem tickSlot_own {smp : Samples} {s : Interlocks} (h : TextSlot s k) :
    (tickSlot smp s k).runtime k = runtimeAfter smp s.pins (s.persist.inst k) (s.runtime k) := by
  unfold tickSlot
  dsimp only
  rw [if_neg (not_not.mpr h.armed), if_pos h.dsl]
  exact Function.update_self k _ _

theorem tickSlot_other {k' : SlotIx} (hk : k' ≠ k) : (tickSlot smp s k).runtime k' = s.runtime k' ∧
      (tickSlot smp s k).persist.inst k' = s.persist.inst k' := by
  unfold tickSlot
  dsimp only
  split
  · exact ⟨rfl, rfl⟩
  split
  · exact ⟨Function.update_of_ne hk _ _, Function.update_of_ne hk _ _⟩
  split
  · exact ⟨rfl, Function.update_of_ne hk _ _⟩
  · exact ⟨rfl, rfl⟩

/-- A tick evaluates each slot by itself. -/
theorem tick_runtime {smp : Samples} {s : Interlocks} (h : TextSlot s k) :
    (interlockTickAll smp s).runtime k =
      runtimeAfter smp s.pins (s.persist.inst k) (s.runtime k) := by
  have hall : (interlockTickAll smp s).runtime k = (tickSlot smp (tickSlot smp s 0) 1).runtime k :=
    rfl
  have hfirst := tickSlot_evaluated smp s 0
  have hcases : ∀ k : SlotIx, k = 0 ∨ k = 1 := by decide
  rw [hall]
  rcases hcases k with rfl | rfl
  · rw [(tickSlot_other smp _ (by decide)).1, tickSlot_own h]
  · have hother := tickSlot_other smp s (show (1 : SlotIx) ≠ 0 by decide)
    rw [tickSlot_own (h.of_same (hfirst.same 1)), hfirst.pins, hother.1, hother.2]

/-! ## The inputs -/

/-- The memory of the debounce filter of one input. -/
def SlotRuntime.filter (rt : SlotRuntime) (n : Nat) : UInt16 × Bool :=
  (rt.shift_reg n, rt.debounced n)

def debounceMask (depth : UInt8) : UInt16 := ((1 : UInt16) <<< depth.toUInt16) - 1

/-- One sample goes through the filter. -/
def filterStep (depth : UInt8) (f : UInt16 × Bool) (raw : Bool) : UInt16 × Bool :=
  let sr := ((f.1 <<< 1) ||| (if raw then 1 else 0)) &&& debounceMask depth
  (sr, if sr = debounceMask depth then true else if sr = 0 then false else f.2)

def IlInput.digital (inp : IlInput) : Bool := inp.mode != .adc && inp.mode != .virtual

theorem debounce_eq (rt : SlotRuntime) (n : Nat) (depth : UInt8) (raw : Bool) :
    (debounce rt n depth raw).1.filter n = filterStep depth (rt.filter n) raw ∧
      (debounce rt n depth raw).2 = (filterStep depth (rt.filter n) raw).2 := by
  refine ⟨?_, rfl⟩
  unfold debounce SlotRuntime.filter
  dsimp only
  rw [Function.update_self, Function.update_self]
  rfl

section

variable (smp : Samples) (p : Pins)
variable (rt : SlotRuntime)

theorem readInput_other {i n : Nat} (hn : n ≠ i) (inp : IlInput) :
    (readInput smp p rt i inp).1.filter n = rt.filter n := by
  unfold readInput
  split
  · rfl
  · rfl
  · dsimp only
    split
    · unfold SlotRuntime.filter debounce
      dsimp only
      rw [Function.update_of_ne hn, Function.update_of_ne hn]
    · rfl

theorem readInput_last_pass (i : Nat) (inp : IlInput) :
    (readInput smp p rt i inp).1.last_pass = rt.last_pass := by
  unfold readInput
  split
  · rfl
  · rfl
  · dsimp only
    split <;> rfl

theorem readInputs_last_pass (i : Nat) (inputs : List IlInput) :
    (readInputs smp p rt i inputs).1.last_pass = rt.last_pass := by
  induction inputs generalizing rt i with
  | nil => rfl
  | cons inp rest ih => exact (ih _ _).trans (readInput_last_pass smp p rt i inp)

theorem readInputs_below {i n : Nat} (hn : n < i) (inputs : List IlInput) :
    (readInputs smp p rt i inputs).1.filter n = rt.filter n := by
  induction inputs generalizing rt i with
  | nil => rfl
  | cons inp rest ih =>
    exact (ih _ (Nat.lt_succ_of_lt hn)).trans (readInput_other smp p rt (Nat.ne_of_lt hn) inp)

/-- A digital input with a filter gives the output of its filter. -/
theorem readInput_digital {inp : IlInput} (hdig : inp.digital = true)
    (hdepth : 2 ≤ inp.debounce_depth) (rt : SlotRuntime) (n : Nat) :
    let f := filterStep inp.debounce_depth (rt.filter n) (smp.gpio inp.phys_id)
    (readInput smp p rt n inp).1.filter n = f ∧
      (readInput smp p rt n inp).2 = if f.2 then 1 else 0 := by
  unfold IlInput.digital at hdig
  rw [Bool.and_eq_true, bne_iff_ne, bne_iff_ne] at hdig
  obtain ⟨hadc, hvirtual⟩ := hdig
  have hdeb := debounce_eq rt n inp.debounce_depth (smp.gpio inp.phys_id)
  unfold readInput
  split
  · rename_i h
    exact absurd h hadc
  · rename_i h
    exact absurd h hvirtual
  · dsimp only
    rw [if_pos hdepth]
    refine ⟨hdeb.1, ?_⟩
    dsimp only
    rw [hdeb.2]

theorem readInputs_digital {inputs : List IlInput} {j : Nat} {inp : IlInput}
    (hin : inputs[j]? = some inp) (hdig : inp.digital = true) (hdepth : 2 ≤ inp.debounce_depth)
    (rt : SlotRuntime) (i : Nat) :
    let f := filterStep inp.debounce_depth (rt.filter (i + j)) (smp.gpio inp.phys_id)
    (readInputs smp p rt i inputs).1.filter (i + j) = f ∧
      (readInputs smp p rt i inputs).2[j]? = some (if f.2 then 1 else 0) := by
  induction inputs generalizing rt i j with
  | nil => exact nomatch hin
  | cons inp' rest ih =>
    cases j with
    | zero =>
      obtain rfl := Option.some.inj hin
      have hread := readInput_digital smp p hdig hdepth rt i
      refine ⟨?_, congrArg some hread.2⟩
      exact (readInputs_below smp p _ (Nat.lt_succ_self i) rest).trans hread.1
    | succ j =>
      have hrest := ih (j := j) hin (readInput smp p rt i inp').1 (i + 1)
      rw [show i + 1 + j = i + (j + 1) by omega,
        readInput_other smp p rt (by omega : i + (j + 1) ≠ i)] at hrest
      exact hrest

theorem evalWatches_filter (inputs : List IlInput) (vals : List UInt16) (rt : SlotRuntime) (i : Nat)
    (ws : List IlWatch) (n : Nat) : (evalWatches inputs vals rt i ws).1.filter n = rt.filter n := by
  induction ws generalizing rt i with
  | nil => rfl
  | cons w rest ih => exact ih _ _

end

/-! ## A run of equal samples -/

variable {depth : UInt8}

theorem debounceMask_bit (h2 : 2 ≤ depth) (h15 : depth ≤ 15) {b : Nat} (hb : b < 16) :
    (debounceMask depth).toBitVec.getLsbD b = decide (b < depth.toNat) := by
  have hall : ∀ d < 16, ∀ b < 16, 2 ≤ d →
      (debounceMask (UInt8.ofNat d)).toBitVec.getLsbD b = decide (b < d) := by decide
  have hlt : depth.toNat < 16 := Nat.lt_succ_of_le (UInt8.le_iff_toNat_le.mp h15)
  have h := hall depth.toNat hlt b hb (UInt8.le_iff_toNat_le.mp h2)
  rwa [UInt8.ofNat_toNat] at h

/-- A sample is shifted in, and the oldest bit falls out. -/
theorem shifted_bit (sr mask : UInt16) (raw : Bool) {b : Nat} (hb : b < 16) :
    (((sr <<< 1) ||| (if raw then 1 else 0)) &&& mask).toBitVec.getLsbD b =
      ((if b = 0 then raw else sr.toBitVec.getLsbD (b - 1)) && mask.toBitVec.getLsbD b) := by
  have hone : (1 : UInt16).toBitVec % 16 = 1 := by decide
  have hraw : (if raw then (1 : UInt16) else 0).toBitVec.getLsbD b = (decide (b = 0) && raw) := by
    have hall : ∀ b < 16, ∀ raw : Bool,
        (if raw then (1 : UInt16) else 0).toBitVec.getLsbD b = (decide (b = 0) && raw) := by decide
    exact hall b hb raw
  have hshift : (sr.toBitVec <<< (1 : BitVec 16)).getLsbD b =
      (decide (b ≠ 0) && sr.toBitVec.getLsbD (b - 1)) := by
    have hlt : (1 : BitVec 16).toNat = 1 := by decide
    rw [BitVec.shiftLeft_eq', BitVec.getLsbD_shiftLeft, hlt, decide_eq_true hb, Bool.true_and]
    cases b <;> simp
  rw [UInt16.toBitVec_and, UInt16.toBitVec_or, UInt16.toBitVec_shiftLeft, BitVec.getLsbD_and,
    BitVec.getLsbD_or, hone, hshift, hraw]
  cases b <;> simp

/-- The register holds the last samples, as many as the filter is deep. -/
def Holds (depth : UInt8) (xs : List Bool) (sr : UInt16) : Prop :=
  ∀ b < 16, sr.toBitVec.getLsbD b = (ago xs b && decide (b < depth.toNat))

/-- The filter has seen the samples: its output is the latch over all of them. -/
structure Seen (depth : UInt8) (xs : List Bool) (f : UInt16 × Bool) : Prop where
  register : Holds depth xs f.1
  out : f.2 = true ↔ Latched depth.toNat xs

theorem ext_bits {a b : UInt16} (h : ∀ i < 16, a.toBitVec.getLsbD i = b.toBitVec.getLsbD i) :
    a = b := UInt16.toBitVec_inj.mp (BitVec.eq_of_getLsbD_eq h)

theorem depth_pos (h2 : 2 ≤ depth) : 0 < depth.toNat :=
  Nat.lt_of_lt_of_le Nat.two_pos (UInt8.le_iff_toNat_le.mp h2)

section

variable {depth : UInt8} {xs : List Bool} {sr : UInt16}

theorem Holds.full_iff (h : Holds depth xs sr) (h2 : 2 ≤ depth) (h15 : depth ≤ 15) :
    sr = debounceMask depth ↔ ∀ k < depth.toNat, ago xs k = true := by
  have hlt : depth.toNat < 16 := Nat.lt_succ_of_le (UInt8.le_iff_toNat_le.mp h15)
  constructor
  · intro heq k hk
    have hbit := h k (Nat.lt_trans hk hlt)
    rw [heq, debounceMask_bit h2 h15 (Nat.lt_trans hk hlt), decide_eq_true hk,
      Bool.and_true] at hbit
    exact hbit.symm
  · intro hall
    refine ext_bits fun b hb => ?_
    rw [h b hb, debounceMask_bit h2 h15 hb]
    by_cases hk : b < depth.toNat
    · rw [hall b hk, Bool.true_and]
    · rw [decide_eq_false hk, Bool.and_false]

theorem Holds.empty_iff (h : Holds depth xs sr) (h15 : depth ≤ 15) :
    sr = 0 ↔ ∀ k < depth.toNat, ago xs k = false := by
  have hlt : depth.toNat < 16 := Nat.lt_succ_of_le (UInt8.le_iff_toNat_le.mp h15)
  constructor
  · intro heq k hk
    have hbit := h k (Nat.lt_trans hk hlt)
    rw [heq, decide_eq_true hk, Bool.and_true] at hbit
    exact hbit.symm.trans BitVec.getLsbD_zero
  · intro hall
    refine ext_bits fun b hb => ?_
    rw [h b hb]
    by_cases hk : b < depth.toNat
    · rw [hall b hk]
      exact BitVec.getLsbD_zero.symm
    · rw [decide_eq_false hk, Bool.and_false]
      exact BitVec.getLsbD_zero.symm

theorem Holds.step (h : Holds depth xs sr) (h2 : 2 ≤ depth) (h15 : depth ≤ 15) (raw : Bool) :
    Holds depth (xs ++ [raw]) (((sr <<< 1) ||| (if raw then 1 else 0)) &&& debounceMask depth) := by
  intro b hb
  rw [shifted_bit _ _ _ hb, debounceMask_bit h2 h15 hb]
  cases b with
  | zero => rw [if_pos rfl, ago_snoc_zero]
  | succ b =>
    rw [if_neg (Nat.succ_ne_zero b), Nat.succ_sub_one, ago_snoc_succ, h b (by omega)]
    by_cases hk : b + 1 < depth.toNat
    · rw [decide_eq_true hk, decide_eq_true (Nat.lt_of_succ_lt hk), Bool.and_true]
    · rw [decide_eq_false hk, Bool.and_false, Bool.and_false]

end

theorem Seen.start (h2 : 2 ≤ depth) : Seen depth [] (0, false) := by
  refine ⟨fun b _ => ?_, (fun h => nomatch h), fun h => ?_⟩
  · rw [ago_nil, Bool.false_and]
    exact BitVec.getLsbD_zero
  · exact absurd h (not_latched_of_zeros (depth_pos h2) fun _ _ => rfl)

theorem Seen.step {xs : List Bool} {f : UInt16 × Bool} (h : Seen depth xs f) (h2 : 2 ≤ depth)
    (h15 : depth ≤ 15) (raw : Bool) : Seen depth (xs ++ [raw]) (filterStep depth f raw) := by
  have hreg := h.register.step h2 h15 raw
  refine ⟨hreg, ?_⟩
  unfold filterStep
  dsimp only
  generalize ((f.1 <<< 1) ||| (if raw then 1 else 0)) &&& debounceMask depth = sr at hreg ⊢
  split
  · rename_i hfull
    exact ⟨fun _ => latched_of_ones ((hreg.full_iff h2 h15).mp hfull), fun _ => rfl⟩
  rename_i hfull
  split
  · rename_i hempty
    have hnot := not_latched_of_zeros (depth_pos h2) ((hreg.empty_iff h15).mp hempty)
    exact ⟨(fun h => nomatch h), fun h => absurd h hnot⟩
  · rename_i hempty
    rw [h.out, latched_snoc]
    · exact fun hall => hfull ((hreg.full_iff h2 h15).mpr hall)
    · exact fun hall => hempty ((hreg.empty_iff h15).mpr hall)

def samplesOf (inp : IlInput) (smps : List Samples) : List Bool :=
  smps.map fun smp => smp.gpio inp.phys_id

/-- Over a run the filter of a digital input sees its samples. -/
theorem ticks_seen {i : Nat} {inp : IlInput} (hdig : inp.digital = true)
    (h2 : 2 ≤ inp.debounce_depth) (h15 : inp.debounce_depth ≤ 15) {s : Interlocks} {xs : List Bool}
    (hslot : TextSlot s k) (hin : (s.persist.inst k).inputs[i]? = some inp)
    (hseen : Seen inp.debounce_depth xs ((s.runtime k).filter i)) (smps : List Samples) :
    Seen inp.debounce_depth (xs ++ samplesOf inp smps) (((ticks smps s).runtime k).filter i) := by
  induction smps generalizing s xs with
  | nil =>
    unfold samplesOf
    rw [List.map_nil, List.append_nil]
    exact hseen
  | cons smp smps ih =>
    have hread := (readInputs_digital smp s.pins hin hdig h2 (s.runtime k) 0).1
    rw [Nat.zero_add] at hread
    have hnext : ((interlockTickAll smp s).runtime k).filter i =
        filterStep inp.debounce_depth ((s.runtime k).filter i) (smp.gpio inp.phys_id) := by
      rw [tick_runtime hslot]
      exact (evalWatches_filter _ _ _ _ _ _).trans hread
    have hseen' := hseen.step h2 h15 (smp.gpio inp.phys_id)
    rw [← hnext] at hseen'
    have hrest := ih (hslot.tick smp) (by rw [tick_inputs]; exact hin) hseen'
    rw [List.append_assoc] at hrest
    exact hrest

/-- A digital input with a filter of depth 2 to 15, from the arm of its slot on. Its
output is one exactly when as many ones in a row have come, and since then no as many
zeros in a row, and the watches are given this output. -/
theorem debounced_by_runs {s : Interlocks} {k : SlotIx} {i : Nat} {inp : IlInput}
    (hslot : TextSlot s k) (hclear : s.runtime k = .clear)
    (hin : (s.persist.inst k).inputs[i]? = some inp) (hdig : inp.digital = true)
    (h2 : 2 ≤ inp.debounce_depth) (h15 : inp.debounce_depth ≤ 15) (smps : List Samples) :
    (((ticks smps s).runtime k).debounced i = true ↔
      Latched inp.debounce_depth.toNat (samplesOf inp smps)) ∧
    ∀ smp, (inputValues smp (ticks smps s) k)[i]? =
      some (if ((ticks (smps ++ [smp]) s).runtime k).debounced i then 1 else 0) := by
  have hstart : Seen inp.debounce_depth [] ((s.runtime k).filter i) := by
    rw [hclear]
    exact .start h2
  have hseen := ticks_seen hdig h2 h15 hslot hin hstart
  refine ⟨(hseen smps).out, fun smp => ?_⟩
  have hslot' := ticks_textSlot hslot smps
  have hin' : ((ticks smps s).persist.inst k).inputs[i]? = some inp := by
    rw [ticks_inputs]
    exact hin
  have hread := readInputs_digital smp (ticks smps s).pins hin' hdig h2 ((ticks smps s).runtime k) 0
  rw [Nat.zero_add] at hread
  have hout : ((interlockTickAll smp (ticks smps s)).runtime k).filter i =
      filterStep inp.debounce_depth (((ticks smps s).runtime k).filter i)
        (smp.gpio inp.phys_id) := by
    rw [tick_runtime hslot']
    exact (evalWatches_filter _ _ _ _ _ _).trans hread.1
  have hsnoc : ticks (smps ++ [smp]) s = interlockTickAll smp (ticks smps s) := by
    unfold ticks
    rw [List.foldl_append]
    rfl
  unfold inputValues
  rw [hread.2, hsnoc, ← hout]
  rfl

/-- A switch with a filter of depth 3. -/
def switchText : List UInt8 :=
  ascii ['x', ';', 'c', 'f', 'g', '[', 'D', '1', ':', 'i', 'n', ',', 'd', 'e', 'b', 'o', 'u', 'n',
    'c', 'e', '_', '3', ']', ';', 'w', 'a', 't', 'c', 'h', '[', 'D', '1', ':', '1', ']']

/-- All digital inputs show the same level, and all others read the same value. -/
def levels (on : Bool) (v : UInt16) : Samples where
  gpio := fun _ => on
  adc := fun _ _ _ => v
  virt := fun _ => v

/-- Slot 0 is armed with the text on a chip that was just started. -/
def armedWith (text : List UInt8) : Interlocks :=
  (interlockSetSlotDsl (startUp persistColdInit) 0 text).1

set_option maxRecDepth 16000 in
/-- Three ones set the switch, and two zeros do not clear it. -/
theorem switch_holds : ∃ smps,
    samplesOf ⟨4, .input, 0, 0, 3, 0⟩ smps = [true, true, true, false, false] ∧
      ((ticks smps (armedWith switchText)).runtime 0).debounced 0 = true ∧
        Latched 3 (samplesOf ⟨4, .input, 0, 0, 3, 0⟩ smps) := by
  have hparse : ilParse switchText =
      .ok { IlInst.zero with
        name := ascii ['x']
        name_lt := by decide
        inputs := [⟨4, .input, 0, 0, 3, 0⟩]
        inputs_le := by decide
        watches := [⟨0, .eq, 1⟩]
        watches_le := by decide } := by decide
  have hok : (interlockSetSlotDsl (startUp persistColdInit) 0 switchText).2.1 = .ok := by decide
  obtain ⟨q, _, hinst, hclear, _⟩ := setSlotDsl_arms (k := 0) rfl hparse hok
  have hslot : TextSlot (armedWith switchText) 0 := ⟨by decide, by decide⟩
  have hin : ((armedWith switchText).persist.inst 0).inputs[0]? = some ⟨4, .input, 0, 0, 3, 0⟩ := by
    unfold armedWith
    rw [hinst]
    rfl
  refine ⟨[levels true 0, levels true 0, levels true 0, levels false 0, levels false 0], rfl, ?_⟩
  have hout : ((ticks [levels true 0, levels true 0, levels true 0, levels false 0, levels false 0]
      (armedWith switchText)).runtime 0).debounced 0 = true := by decide
  exact ⟨hout, (debounced_by_runs hslot hclear hin rfl (by decide) (by decide) _).1.mp hout⟩

end motioncore.interlock
