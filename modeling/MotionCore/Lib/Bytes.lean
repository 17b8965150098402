-- Little-endian numbers of two bytes, as the wire carries them, and the
-- distance between two readings of a clock that wraps at 32 bits.
import Mathlib.Algebra.Group.Nat.Defs
import Mathlib.Tactic.Common

namespace motioncore.bytes

/-- The number that two bytes hold, low byte first. -/
def le16 (lo hi : UInt8) : UInt16 := UInt16.ofNat (lo.toNat + 256 * hi.toNat)

def lo16 (n : UInt16) : UInt8 := UInt8.ofNat n.toNat

def hi16 (n : UInt16) : UInt8 := UInt8.ofNat (n.toNat / 256)

/-- A number written as two bytes reads back as itself. -/
@[simp] theorem le16_lo_hi (n : UInt16) : le16 (lo16 n) (hi16 n) = n := by
  apply UInt16.toNat_inj.mp
  have hn := n.toNat_lt
  simp only [le16, lo16, hi16, UInt16.toNat_ofNat', UInt8.toNat_ofNat']
  omega

/-- The number that the first four bytes hold, low byte first. -/
def le32 (p : List UInt8) : UInt32 :=
  UInt32.ofNat ((p.getD 0 0).toNat + 2 ^ 8 * (p.getD 1 0).toNat + 2 ^ 16 * (p.getD 2 0).toNat +
    2 ^ 24 * (p.getD 3 0).toNat)

def bytes32 (n : UInt32) : List UInt8 :=
  [UInt8.ofNat n.toNat, UInt8.ofNat (n.toNat / 2 ^ 8), UInt8.ofNat (n.toNat / 2 ^ 16),
    UInt8.ofNat (n.toNat / 2 ^ 24)]

/-- Four bytes read as a number are written back as themselves. -/
theorem bytes32_le32 (a b c d : UInt8) (l : List UInt8) :
    bytes32 (le32 (a :: b :: c :: d :: l)) = [a, b, c, d] := by
  have ha := a.toNat_lt
  have hb := b.toNat_lt
  have hc := c.toNat_lt
  have hd := d.toNat_lt
  simp only [bytes32, le32, List.getD_cons_zero, List.getD_cons_succ, UInt32.toNat_ofNat',
    List.cons.injEq, and_true]
  refine ⟨?_, ?_, ?_, ?_⟩
  all_goals
    apply UInt8.toNat_inj.mp
    simp only [UInt8.toNat_ofNat']
    omega

theorem le32_bytes32 (n : UInt32) (l : List UInt8) : le32 (bytes32 n ++ l) = n := by
  apply UInt32.toNat_inj.mp
  have hn := n.toNat_lt
  simp only [bytes32, le32, List.cons_append, List.nil_append, List.getD_cons_zero,
    List.getD_cons_succ, UInt32.toNat_ofNat', UInt8.toNat_ofNat']
  omega

/-! ## A clock of 32 bits -/

/-- What a 32-bit millisecond counter shows at the time `t`. -/
def millis (t : Nat) : Nat := t % 2 ^ 32

/-- The unsigned 32-bit difference of two readings. -/
def since (now earlier : Nat) : Nat := (now + 2 ^ 32 - earlier) % 2 ^ 32

/-- The counter never shows more time than has really passed. -/
theorem since_millis_le {t u : Nat} (h : t ≤ u) : since (millis u) (millis t) ≤ u - t := by
  unfold since millis
  omega

end motioncore.bytes
