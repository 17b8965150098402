-- The integer quads against the documented operations on numbers, and the operands at which C
-- gives them no meaning.
import MotionCore.Quads.Machine

namespace motioncore.quads

/-! ## The documented operations -/

def Opcode.onIntegers : Opcode → Bool
  | .IADD | .ISUB | .IMUL | .IDIV | .IMOD | .INEG => true
  | .BIT_AND | .BIT_OR | .BIT_XOR | .BIT_NOT | .BIT_SHL | .BIT_SHR => true
  | .ICMP_EQ | .ICMP_NE | .ICMP_LT | .ICMP_LE | .ICMP_GT | .ICMP_GE => true
  | .LOG_AND | .LOG_OR | .LOG_NOT | .LOG_NAND | .LOG_NOR | .LOG_XOR => true
  | .MOVE | .MOV | .IABS | .IMIN | .IMAX => true
  | _ => false

/-- What the quad computes from the values of its operands. -/
def intResult (F : FloatUnit 32) (op : Opcode) (i1 i2 : BitVec 32) : Option (BitVec 32) :=
  match action F op with
  | .int1 f => f i1
  | .int2 f => f i1 i2
  | _ => none

/-- The result is the number, reduced modulo 2^32. -/
def Holds (r : BitVec 32) (n : Int) : Prop := r = BitVec.ofInt 32 n

/-- The result is 1 where the condition is met and 0 elsewhere. -/
def Tells (r : BitVec 32) (p : Prop) : Prop := (r = 1 ∧ p) ∨ (r = 0 ∧ ¬ p)

def Documented (op : Opcode) (i1 i2 r : BitVec 32) : Prop :=
  match op with
  | .IADD => Holds r (i1.toInt + i2.toInt)
  | .ISUB => Holds r (i1.toInt - i2.toInt)
  | .IMUL => Holds r (i1.toInt * i2.toInt)
  | .IDIV => Holds r (if i2.toInt = 0 then 0 else i1.toInt.tdiv i2.toInt)
  | .IMOD => Holds r (if i2.toInt = 0 then 0 else i1.toInt.tmod i2.toInt)
  | .INEG => Holds r (-i1.toInt)
  | .BIT_AND => ∀ i < 32, r.getLsbD i = (i1.getLsbD i && i2.getLsbD i)
  | .BIT_OR => ∀ i < 32, r.getLsbD i = (i1.getLsbD i || i2.getLsbD i)
  | .BIT_XOR => ∀ i < 32, r.getLsbD i = (i1.getLsbD i ^^ i2.getLsbD i)
  | .BIT_NOT => ∀ i < 32, r.getLsbD i = !i1.getLsbD i
  | .BIT_SHL => Holds r (i1.toInt * 2 ^ i2.toInt.toNat)
  | .BIT_SHR => Holds r (i1.toInt / 2 ^ i2.toInt.toNat)
  | .ICMP_EQ => Tells r (i1.toInt = i2.toInt)
  | .ICMP_NE => Tells r (i1.toInt ≠ i2.toInt)
  | .ICMP_LT => Tells r (i1.toInt < i2.toInt)
  | .ICMP_LE => Tells r (i1.toInt ≤ i2.toInt)
  | .ICMP_GT => Tells r (i1.toInt > i2.toInt)
  | .ICMP_GE => Tells r (i1.toInt ≥ i2.toInt)
  | .LOG_AND => Tells r (i1.toInt ≠ 0 ∧ i2.toInt ≠ 0)
  | .LOG_OR => Tells r (i1.toInt ≠ 0 ∨ i2.toInt ≠ 0)
  | .LOG_NOT => Tells r (i1.toInt = 0)
  | .LOG_NAND => Tells r (¬ (i1.toInt ≠ 0 ∧ i2.toInt ≠ 0))
  | .LOG_NOR => Tells r (¬ (i1.toInt ≠ 0 ∨ i2.toInt ≠ 0))
  | .LOG_XOR => Tells r (¬ (i1.toInt ≠ 0 ↔ i2.toInt ≠ 0))
  | .MOVE | .MOV => Holds r i1.toInt
  | .IABS => Holds r i1.toInt.natAbs
  | .IMIN => Holds r (min i1.toInt i2.toInt)
  | .IMAX => Holds r (max i1.toInt i2.toInt)
  | _ => False

/-- The operation runs to its end and gives the documented result. -/
def Computes (F : FloatUnit 32) (op : Opcode) (i1 i2 : BitVec 32) : Prop :=
  ∃ r, intResult F op i1 i2 = some r ∧ Documented op i1 i2 r

/-- No quotient of the least number by -1, and no shift by an amount that is not below the
width. -/
def InRange (op : Opcode) (i1 i2 : BitVec 32) : Prop :=
  match op with
  | .IDIV | .IMOD => ¬ (i1.toInt = -2 ^ 31 ∧ i2.toInt = -1)
  | .BIT_SHL | .BIT_SHR => 0 ≤ i2.toInt ∧ i2.toInt < 32
  | _ => True

/-! ## Words and numbers -/

variable {F : FloatUnit 32} {i1 i2 : BitVec 32}
variable {r : BitVec 32}

theorem holds_iff {n : Int} (h : r.toInt = n) : Holds r n := by
  rw [Holds, ← h, BitVec.ofInt_toInt]

theorem tells_cbool {b : Bool} {p : Prop} (h : b = true ↔ p) : Tells (cbool b) p := by
  cases b with
  | true => exact Or.inl ⟨rfl, h.mp rfl⟩
  | false => exact Or.inr ⟨rfl, fun hp => Bool.false_ne_true (h.mpr hp)⟩

variable (i : BitVec 32)

theorem toInt_ne_zero_iff : i.toInt ≠ 0 ↔ (i != 0) = true := by
  rw [bne_iff_ne, ne_eq, ne_eq, ← BitVec.toInt_inj]
  simp

theorem intMin_iff : i = BitVec.intMin 32 ↔ i.toInt = -2 ^ 31 := by
  rw [← BitVec.toInt_inj]
  have hmin : (BitVec.intMin 32).toInt = -2 ^ 31 := by decide
  rw [hmin]

theorem minus_one_iff : i = -1 ↔ i.toInt = -1 := by
  rw [← BitVec.toInt_inj]
  have hone : (-1 : BitVec 32).toInt = -1 := by decide
  rw [hone]

/-- An amount is below the width as a word when it is a number of that range. -/
theorem amount_iff : i.toNat < 32 ↔ 0 ≤ i.toInt ∧ i.toInt < 32 := by
  have hlt := i.isLt
  rw [BitVec.toInt_eq_toNat_cond]
  split <;> omega

theorem amount_eq {i : BitVec 32} (h : i.toNat < 32) : i.toInt.toNat = i.toNat := by
  have hnum := (amount_iff i).mp h
  rw [BitVec.toInt_eq_toNat_cond] at hnum ⊢
  split at hnum <;> omega

/-! ## Each opcode -/

theorem divide_eq {f : BitVec 32 → BitVec 32 → BitVec 32} :
    (∃ r, divide f i1 i2 = some r) ↔ ¬ (i1.toInt = -2 ^ 31 ∧ i2.toInt = -1) := by
  rw [← intMin_iff, ← minus_one_iff]
  unfold divide
  split
  · next hzero =>
    subst hzero
    simp
  · split
    · next htrap => exact iff_of_false (fun ⟨_, hr⟩ => by cases hr) (not_not.mpr htrap)
    · next hdefined => exact iff_of_true ⟨_, rfl⟩ hdefined

theorem idiv_documented (h : divide BitVec.sdiv i1 i2 = some r) : Documented .IDIV i1 i2 r := by
  unfold divide at h
  unfold Documented
  dsimp only
  split at h
  · next hzero =>
    subst hzero
    cases h
    exact holds_iff rfl
  · next hzero =>
    split at h
    · cases h
    · next htrap =>
      cases h
      have hne : i2.toInt ≠ 0 := by
        rw [toInt_ne_zero_iff, bne_iff_ne]
        exact hzero
      rw [if_neg hne]
      apply holds_iff
      apply BitVec.toInt_sdiv_of_ne_or_ne
      by_cases hmin : i1 = BitVec.intMin 32
      · exact Or.inr fun hone => htrap ⟨hmin, hone⟩
      · exact Or.inl hmin

theorem imod_documented (h : divide BitVec.srem i1 i2 = some r) : Documented .IMOD i1 i2 r := by
  unfold divide at h
  unfold Documented
  dsimp only
  split at h
  · next hzero =>
    subst hzero
    cases h
    exact holds_iff rfl
  · next hzero =>
    split at h
    · cases h
    · cases h
      have hne : i2.toInt ≠ 0 := by
        rw [toInt_ne_zero_iff, bne_iff_ne]
        exact hzero
      rw [if_neg hne]
      exact holds_iff (BitVec.toInt_srem i1 i2)

theorem shift_iff {f : Nat → BitVec 32} :
    (∃ r, shift f i2 = some r) ↔ 0 ≤ i2.toInt ∧ i2.toInt < 32 := by
  rw [← amount_iff]
  unfold shift
  split <;> simp_all

theorem shl_documented (h : shift (fun n => i1 <<< n) i2 = some r) :
    Documented .BIT_SHL i1 i2 r := by
  unfold shift at h
  split at h
  · next hamount =>
    cases h
    unfold Documented
    dsimp only [Holds]
    rw [amount_eq hamount, BitVec.ofInt_mul, BitVec.ofInt_toInt]
    rw [BitVec.shiftLeft_eq_mul_twoPow]
    congr 1
    apply BitVec.eq_of_toNat_eq
    have hcast : (2 : Int) ^ i2.toNat = ((2 ^ i2.toNat : Nat) : Int) := by simp
    rw [BitVec.toNat_twoPow, BitVec.toNat_ofInt, hcast]
    omega
  · cases h

theorem shr_documented (h : shift (fun n => i1.sshiftRight n) i2 = some r) :
    Documented .BIT_SHR i1 i2 r := by
  unfold shift at h
  split at h
  · next hamount =>
    cases h
    unfold Documented
    dsimp only
    rw [amount_eq hamount]
    apply holds_iff
    rw [BitVec.toInt_sshiftRight, Int.shiftRight_eq_div_pow]
    simp
  · cases h

theorem abs_documented : Documented .IABS i1 i2 (if i1.slt 0 then -i1 else i1) := by
  unfold Documented Holds
  dsimp only
  split
  · next hneg =>
    have hlt : i1.toInt < 0 := by simpa using BitVec.slt_iff_toInt_lt.mp hneg
    rw [Int.ofNat_natAbs_of_nonpos (Int.le_of_lt hlt), BitVec.ofInt_neg, BitVec.ofInt_toInt]
  · next hpos =>
    have hle : 0 ≤ i1.toInt := by
      have hnot := mt BitVec.slt_iff_toInt_lt.mpr hpos
      simpa using hnot
    rw [Int.natAbs_of_nonneg hle, BitVec.ofInt_toInt]

theorem min_documented : Documented .IMIN i1 i2 (if i1.slt i2 then i1 else i2) := by
  unfold Documented
  dsimp only
  apply holds_iff
  split
  · next hlt =>
    have hlt := BitVec.slt_iff_toInt_lt.mp hlt
    omega
  · next hle =>
    have hle := mt BitVec.slt_iff_toInt_lt.mpr hle
    omega

theorem max_documented : Documented .IMAX i1 i2 (if i2.slt i1 then i1 else i2) := by
  unfold Documented
  dsimp only
  apply holds_iff
  split
  · next hlt =>
    have hlt := BitVec.slt_iff_toInt_lt.mp hlt
    omega
  · next hle =>
    have hle := mt BitVec.slt_iff_toInt_lt.mpr hle
    omega

theorem onIntegers_of_documented {op : Opcode} (h : Documented op i1 i2 r) : op.onIntegers := by
  cases op <;> first | rfl | exact h.elim

/-- The other operations always run, and give what is documented. -/
theorem computes_elsewhere {op : Opcode} (hop : op.onIntegers) (hdiv : op ≠ .IDIV) (hmod : op ≠ .IMOD)
    (hshl : op ≠ .BIT_SHL) (hshr : op ≠ .BIT_SHR) : Computes F op i1 i2 := by
  have hzero := fun i : BitVec 32 => (toInt_ne_zero_iff i).symm
  cases op with
  | IDIV => exact absurd rfl hdiv
  | IMOD => exact absurd rfl hmod
  | BIT_SHL => exact absurd rfl hshl
  | BIT_SHR => exact absurd rfl hshr
  | IADD => exact ⟨_, rfl, by simp [Documented, Holds, BitVec.ofInt_add]⟩
  | ISUB => exact ⟨_, rfl, by simp [Documented, Holds, Int.sub_eq_add_neg, BitVec.ofInt_add, BitVec.ofInt_neg, BitVec.sub_eq_add_neg]⟩
  | IMUL => exact ⟨_, rfl, by simp [Documented, Holds, BitVec.ofInt_mul]⟩
  | INEG => exact ⟨_, rfl, by simp [Documented, Holds, BitVec.ofInt_neg]⟩
  | BIT_AND | BIT_OR | BIT_XOR => exact ⟨_, rfl, fun i hi => by simp⟩
  | BIT_NOT => exact ⟨_, rfl, fun i hi => by simp [hi]⟩
  | ICMP_EQ => exact ⟨_, rfl, tells_cbool (by rw [beq_iff_eq, BitVec.toInt_inj])⟩
  | ICMP_NE => exact ⟨_, rfl, tells_cbool (by rw [bne_iff_ne, ne_eq, ne_eq, BitVec.toInt_inj])⟩
  | ICMP_LT => exact ⟨_, rfl, tells_cbool BitVec.slt_iff_toInt_lt⟩
  | ICMP_LE => exact ⟨_, rfl, tells_cbool BitVec.sle_iff_toInt_le⟩
  | ICMP_GT => exact ⟨_, rfl, tells_cbool BitVec.slt_iff_toInt_lt⟩
  | ICMP_GE => exact ⟨_, rfl, tells_cbool BitVec.sle_iff_toInt_le⟩
  | LOG_AND => exact ⟨_, rfl, tells_cbool (by rw [Bool.and_eq_true, hzero, hzero])⟩
  | LOG_OR => exact ⟨_, rfl, tells_cbool (by rw [Bool.or_eq_true, hzero, hzero])⟩
  | LOG_NOT => exact ⟨_, rfl, tells_cbool (by rw [beq_iff_eq, ← BitVec.toInt_inj]; simp)⟩
  | LOG_NAND =>
    exact ⟨_, rfl, tells_cbool (by
      rw [Bool.not_eq_true', ← Bool.not_eq_true, Bool.and_eq_true, hzero, hzero])⟩
  | LOG_NOR =>
    exact ⟨_, rfl, tells_cbool (by
      rw [Bool.not_eq_true', ← Bool.not_eq_true, Bool.or_eq_true, hzero, hzero])⟩
  | LOG_XOR =>
    refine ⟨_, rfl, tells_cbool ?_⟩
    rw [toInt_ne_zero_iff, toInt_ne_zero_iff]
    simp only [bne]
    cases i1 == 0 <;> cases i2 == 0 <;> decide
  | MOVE | MOV => exact ⟨_, rfl, holds_iff rfl⟩
  | IABS => exact ⟨_, rfl, abs_documented⟩
  | IMIN => exact ⟨_, rfl, min_documented⟩
  | IMAX => exact ⟨_, rfl, max_documented⟩
  | _ => cases hop

/-- A quad gives the documented integer result if and only if its opcode is one of integers and
its operands are in range. -/
theorem computes_iff (F : FloatUnit 32) (op : Opcode) (i1 i2 : BitVec 32) :
    Computes F op i1 i2 ↔ op.onIntegers ∧ InRange op i1 i2 := by
  by_cases hdiv : op = .IDIV
  · subst hdiv
    rw [InRange, ← divide_eq (f := BitVec.sdiv)]
    exact ⟨fun ⟨r, hr, _⟩ => ⟨rfl, r, hr⟩, fun ⟨_, r, hr⟩ => ⟨r, hr, idiv_documented hr⟩⟩
  by_cases hmod : op = .IMOD
  · subst hmod
    rw [InRange, ← divide_eq (f := BitVec.srem)]
    exact ⟨fun ⟨r, hr, _⟩ => ⟨rfl, r, hr⟩, fun ⟨_, r, hr⟩ => ⟨r, hr, imod_documented hr⟩⟩
  by_cases hshl : op = .BIT_SHL
  · subst hshl
    rw [InRange, ← shift_iff (f := fun n => i1 <<< n)]
    exact ⟨fun ⟨r, hr, _⟩ => ⟨rfl, r, hr⟩, fun ⟨_, r, hr⟩ => ⟨r, hr, shl_documented hr⟩⟩
  by_cases hshr : op = .BIT_SHR
  · subst hshr
    rw [InRange, ← shift_iff (f := fun n => i1.sshiftRight n)]
    exact ⟨fun ⟨r, hr, _⟩ => ⟨rfl, r, hr⟩, fun ⟨_, r, hr⟩ => ⟨r, hr, shr_documented hr⟩⟩
  have hrange : InRange op i1 i2 := by
    cases op <;> trivial
  constructor
  · rintro ⟨r, -, hdoc⟩
    exact ⟨onIntegers_of_documented hdoc, hrange⟩
  · rintro ⟨hop, -⟩
    exact computes_elsewhere hop hdiv hmod hshl hshr

/-- The least integer by -1 traps, and a shift by 32 has no meaning. -/
theorem least_by_minus_one_traps :
    ¬ Computes simple32 .IDIV (BitVec.intMin 32) (-1) ∧ ¬ Computes simple32 .BIT_SHL 1 32 := by
  have hnone : intResult simple32 .IDIV (BitVec.intMin 32) (-1) = none := by decide
  have hshift : intResult simple32 .BIT_SHL 1 32 = none := by decide
  constructor
  · rintro ⟨r, hr, -⟩
    rw [hnone] at hr
    cases hr
  · rintro ⟨r, hr, -⟩
    rw [hshift] at hr
    cases hr

end motioncore.quads
