-- The DAC probe (`control.c`): a signal, scaled and shifted, on the analogue output. The product
-- of the signal and the scale is taken in 32 bits, which the encoder and the speed outgrow.
import Mathlib.Tactic.Linarith

namespace motioncore.ra4m1

inductive ProbeSource where
  | PROBE_A1_20K | PROBE_A2_20K | PROBE_A3_20K
  | PROBE_A1_1K | PROBE_A2_1K | PROBE_A3_1K
  | PROBE_A1_100 | PROBE_A2_100 | PROBE_A3_100
  | PROBE_SPEED | PROBE_POSITION | PROBE_CURRENT | PROBE_DUTY
deriving DecidableEq, Repr

open ProbeSource

/-- The sources in the order of their codes; their number is `PROBE_SOURCE_COUNT`. -/
def probeSources : List ProbeSource :=
  [PROBE_A1_20K, PROBE_A2_20K, PROBE_A3_20K, PROBE_A1_1K, PROBE_A2_1K, PROBE_A3_1K,
    PROBE_A1_100, PROBE_A2_100, PROBE_A3_100, PROBE_SPEED, PROBE_POSITION, PROBE_CURRENT,
    PROBE_DUTY]

/-- The signals that a probe can show: the raw scan, the decimated streams, and the variables
of the motor control. -/
structure Signals where
  scan : Fin 3 → BitVec 16
  out1k : Fin 3 → BitVec 16
  out100 : Fin 3 → BitVec 16
  velocity : BitVec 32
  enc_pos : BitVec 32
  duty : BitVec 16

/-- `g_probe` -/
structure Probe where
  active : Bool
  source : ProbeSource
  scale : BitVec 16
  offset : BitVec 16

/-- A probe is set up for the code of a source only. -/
def control_dac_probe (source : UInt8) (scale offset : BitVec 16) : Option Probe :=
  probeSources[source.toNat]?.map fun source => ⟨true, source, scale, offset⟩

/-- The words are `int32_t`; the product wraps. -/
def probe_write (p : Probe) (value : BitVec 32) : BitVec 16 :=
  let v := (value * p.scale.signExtend 32).sshiftRight 8 + p.offset.signExtend 32
  let v := if v.slt 0 then 0 else v
  let v := if (4095 : BitVec 32).slt v then 4095 else v
  v.setWidth 16

def probe_emit_20k (p : Probe) (g : Signals) : Option (BitVec 16) :=
  if p.active then
    match p.source with
    | PROBE_A1_20K => some (probe_write p ((g.scan 0).setWidth 32))
    | PROBE_A2_20K => some (probe_write p ((g.scan 1).setWidth 32))
    | PROBE_A3_20K => some (probe_write p ((g.scan 2).setWidth 32))
    | PROBE_CURRENT => some (probe_write p ((g.scan 0).setWidth 32))
    | _ => none
  else none

def probe_emit_ctrl (p : Probe) (g : Signals) : Option (BitVec 16) :=
  if p.active then
    match p.source with
    | PROBE_A1_1K => some (probe_write p ((g.out1k 0).setWidth 32))
    | PROBE_A2_1K => some (probe_write p ((g.out1k 1).setWidth 32))
    | PROBE_A3_1K => some (probe_write p ((g.out1k 2).setWidth 32))
    | PROBE_A1_100 => some (probe_write p ((g.out100 0).setWidth 32))
    | PROBE_A2_100 => some (probe_write p ((g.out100 1).setWidth 32))
    | PROBE_A3_100 => some (probe_write p ((g.out100 2).setWidth 32))
    | PROBE_SPEED => some (probe_write p g.velocity)
    | PROBE_POSITION => some (probe_write p g.enc_pos)
    | PROBE_DUTY => some (probe_write p (g.duty.signExtend 32))
    | _ => none
  else none

/-- What the two ticks write. -/
def emissions (p : Probe) (g : Signals) : List (BitVec 16) :=
  (probe_emit_20k p g).toList ++ (probe_emit_ctrl p g).toList

/-! ## What the probe is for -/

def ProbeSource.value (g : Signals) : ProbeSource → Int
  | PROBE_A1_20K | PROBE_CURRENT => (g.scan 0).toNat
  | PROBE_A2_20K => (g.scan 1).toNat
  | PROBE_A3_20K => (g.scan 2).toNat
  | PROBE_A1_1K => (g.out1k 0).toNat
  | PROBE_A2_1K => (g.out1k 1).toNat
  | PROBE_A3_1K => (g.out1k 2).toNat
  | PROBE_A1_100 => (g.out100 0).toNat
  | PROBE_A2_100 => (g.out100 1).toNat
  | PROBE_A3_100 => (g.out100 2).toNat
  | PROBE_SPEED => g.velocity.toInt
  | PROBE_POSITION => g.enc_pos.toInt
  | PROBE_DUTY => g.duty.toInt

/-- `clamp((value * scale >> 8) + offset, 0, 4095)` over all integers. -/
def probed (value scale offset : Int) : Int := max 0 (min 4095 (value * scale / 256 + offset))

/-- The number is an `int32_t`. -/
def IsWord (n : Int) : Prop := -2 ^ 31 ≤ n ∧ n < 2 ^ 31

instance (n : Int) : Decidable (IsWord n) := inferInstanceAs (Decidable (_ ∧ _))

/-! ## One write -/

variable {p : Probe} {value : BitVec 32}

theorem toInt_bmod {n : Int} (h : IsWord n) : n.bmod (2 ^ 32) = n := by
  obtain ⟨hlo, hhi⟩ := h
  apply Int.bmod_eq_of_le_mul_two <;> omega

theorem toInt_signExtend_half (x : BitVec 16) : (x.signExtend 32).toInt = x.toInt :=
  BitVec.toInt_signExtend_of_le (by decide)

theorem half_bounds (x : BitVec 16) : -2 ^ 15 ≤ x.toInt ∧ x.toInt < 2 ^ 15 :=
  ⟨BitVec.le_toInt x, BitVec.toInt_lt⟩

/-- A write whose product is a word puts out what the probe is for. -/
theorem probe_write_eq (h : IsWord (value.toInt * p.scale.toInt)) :
    ((probe_write p value).toNat : Int) = probed value.toInt p.scale.toInt p.offset.toInt := by
  have hproduct : (value * p.scale.signExtend 32).toInt = value.toInt * p.scale.toInt := by
    rw [BitVec.toInt_mul, toInt_signExtend_half, toInt_bmod h]
  have hoffset := half_bounds p.offset
  have hquotient : ((value * p.scale.signExtend 32).sshiftRight 8).toInt =
      value.toInt * p.scale.toInt / 256 := by
    rw [BitVec.toInt_sshiftRight, hproduct, Int.shiftRight_eq_div_pow]
    rfl
  generalize hv : (value * p.scale.signExtend 32).sshiftRight 8 + p.offset.signExtend 32 = v
  obtain ⟨hlo, hhi⟩ := h
  have hsum : v.toInt = value.toInt * p.scale.toInt / 256 + p.offset.toInt := by
    rw [← hv, BitVec.toInt_add, hquotient, toInt_signExtend_half]
    apply toInt_bmod
    unfold IsWord
    omega
  have hzero : v.slt 0 = decide (v.toInt < 0) := by simp [BitVec.slt]
  unfold probe_write probed
  rw [hv, ← hsum]
  simp only [hzero]
  by_cases hneg : v.toInt < 0
  · simp only [hneg, decide_true, if_true]
    have : ((if (4095 : BitVec 32).slt 0 = true then (4095 : BitVec 32) else 0).setWidth 16).toNat
        = 0 := by decide
    rw [this]
    omega
  · simp only [hneg, decide_false, Bool.false_eq_true, if_false]
    have htop : (4095 : BitVec 32).slt v = decide (4095 < v.toInt) := by
      simp [BitVec.slt]
    rw [htop]
    by_cases hbig : 4095 < v.toInt
    · simp only [hbig, decide_true, if_true]
      have : ((4095 : BitVec 32).setWidth 16).toNat = 4095 := by decide
      rw [this]
      omega
    · simp only [hbig, decide_false, Bool.false_eq_true, if_false]
      have hnat : v.toInt = v.toNat := by
        rw [BitVec.toInt_eq_toNat_cond] at *
        have := v.isLt
        split at hneg <;> split <;> omega
      rw [BitVec.toNat_setWidth]
      omega

/-! ## The sources -/

/-- The word that a source hands to `probe_write`. -/
def ProbeSource.word (g : Signals) : ProbeSource → BitVec 32
  | PROBE_A1_20K | PROBE_CURRENT => (g.scan 0).setWidth 32
  | PROBE_A2_20K => (g.scan 1).setWidth 32
  | PROBE_A3_20K => (g.scan 2).setWidth 32
  | PROBE_A1_1K => (g.out1k 0).setWidth 32
  | PROBE_A2_1K => (g.out1k 1).setWidth 32
  | PROBE_A3_1K => (g.out1k 2).setWidth 32
  | PROBE_A1_100 => (g.out100 0).setWidth 32
  | PROBE_A2_100 => (g.out100 1).setWidth 32
  | PROBE_A3_100 => (g.out100 2).setWidth 32
  | PROBE_SPEED => g.velocity
  | PROBE_POSITION => g.enc_pos
  | PROBE_DUTY => g.duty.signExtend 32

/-- Every source is written by one of the two ticks. -/
theorem emissions_eq (source : ProbeSource) (scale offset : BitVec 16) (g : Signals) :
    emissions ⟨true, source, scale, offset⟩ g =
      [probe_write ⟨true, source, scale, offset⟩ (source.word g)] := by
  cases source <;> rfl

theorem toInt_setWidth_half (x : BitVec 16) : (x.setWidth 32).toInt = x.toNat := by
  have hx : (x.setWidth 32).toNat = x.toNat := by
    rw [BitVec.toNat_setWidth]
    have := x.isLt
    omega
  rw [BitVec.toInt_eq_toNat_of_lt, hx]
  rw [hx]
  have := x.isLt
  omega

theorem word_toInt (source : ProbeSource) (g : Signals) :
    (source.word g).toInt = source.value g := by
  cases source with
  | PROBE_SPEED | PROBE_POSITION => rfl
  | PROBE_DUTY => exact toInt_signExtend_half g.duty
  | _ => exact toInt_setWidth_half _

/-- The sources of 32 bits. -/
def ProbeSource.isWide : ProbeSource → Bool
  | PROBE_SPEED | PROBE_POSITION => true
  | _ => false

/-- A product of two numbers of 16 bits is a word. -/
theorem narrow_product {value scale : Int} (hv : -2 ^ 15 ≤ value ∧ value < 2 ^ 16)
    (hs : -2 ^ 15 ≤ scale ∧ scale < 2 ^ 15) : IsWord (value * scale) := by
  unfold IsWord
  constructor <;> nlinarith

theorem narrow_isWord {source : ProbeSource} (h : source.isWide = false) (g : Signals)
    (scale : BitVec 16) : IsWord (source.value g * scale.toInt) := by
  apply narrow_product _ (half_bounds scale)
  have hunsigned : ∀ x : BitVec 16, -2 ^ 15 ≤ (x.toNat : Int) ∧ (x.toNat : Int) < 2 ^ 16 := by
    intro x
    have := x.isLt
    omega
  cases source with
  | PROBE_SPEED | PROBE_POSITION => cases h
  | PROBE_DUTY =>
    obtain ⟨hlo, hhi⟩ := half_bounds g.duty
    exact ⟨hlo, by simp only [ProbeSource.value]; omega⟩
  | _ => exact hunsigned _

/-- The probe of a source puts out the scaled signal, with a product of 32 bits, exactly when
the source is a narrow one or the product is a word. -/
theorem probe_exact_iff (code : UInt8) (source : ProbeSource) (scale offset : BitVec 16)
    (g : Signals) (hcode : probeSources[code.toNat]? = some source) :
    ∃ p w, control_dac_probe code scale offset = some p ∧ emissions p g = [w] ∧
      (((w.toNat : Int) = probed (source.value g) scale.toInt offset.toInt ∧
          IsWord (source.value g * scale.toInt)) ↔
        (source.isWide = true → IsWord (source.value g * scale.toInt))) := by
  refine ⟨⟨true, source, scale, offset⟩, _, by rw [control_dac_probe, hcode]; rfl,
    emissions_eq source scale offset g, fun h _ => h.2, fun h => ?_⟩
  have hword : IsWord (source.value g * scale.toInt) := by
    cases hwide : source.isWide with
    | true => exact h hwide
    | false => exact narrow_isWord hwide g scale
  refine ⟨?_, hword⟩
  rw [← word_toInt] at hword ⊢
  exact probe_write_eq hword

/-- The encoder stands at 262144 counts. -/
def farOut : Signals := ⟨fun _ => 0, fun _ => 0, fun _ => 0, 0, 262144, 0⟩

/-- A position is shown at a scale of one. -/
theorem position_is_shown : ∃ p w, control_dac_probe 10 256 0 = some p ∧
    emissions p { farOut with enc_pos := 100 } = [w] ∧ (w.toNat : Int) = probed 100 256 0 := by
  obtain ⟨p, w, hp, hw, hiff⟩ :=
    probe_exact_iff 10 PROBE_POSITION 256 0 { farOut with enc_pos := 100 } rfl
  exact ⟨p, w, hp, hw, (hiff.mpr fun _ => by decide).1⟩

/-- Far out, at a scale of 64, the output drops to zero instead of saturating. -/
theorem far_position_is_lost : ∃ p, control_dac_probe 10 16384 0 = some p ∧
    emissions p farOut = [0] ∧ probed 262144 16384 0 = 4095 ∧ ¬ IsWord (262144 * 16384) :=
  ⟨_, rfl, by decide, by decide, by decide⟩

end motioncore.ra4m1
