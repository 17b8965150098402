-- CRC-8/AUTOSAR (`libcomm/frame.c`), which closes the frames of the USB link
-- and of the RS-485 bus.
import Mathlib.Tactic.Common

namespace motioncore.wire

/-- One bit of the register: shift, and apply the polynomial 0x2F on a carry. -/
def crc8Shift (crc : UInt8) : UInt8 :=
  if crc &&& 0x80 ≠ 0 then (crc <<< 1) ^^^ 0x2F else crc <<< 1

def crc8AutosarUpdate (crc byte : UInt8) : UInt8 :=
  (List.range 8).foldl (fun crc _ => crc8Shift crc) (crc ^^^ byte)

/-- `crc8_autosar`: the register starts at 0xFF, and the result is inverted. -/
def crc8Autosar (data : List UInt8) : UInt8 := data.foldl crc8AutosarUpdate 0xFF ^^^ 0xFF

set_option maxRecDepth 4000 in
-- The check value of the catalogue, over the digits 1 to 9.
example : crc8Autosar [0x31, 0x32, 0x33, 0x34, 0x35, 0x36, 0x37, 0x38, 0x39] = 0xDF := by decide

/-! ## One other byte -/

theorem crc8Shift_inj {c d : UInt8} (h : crc8Shift c = crc8Shift d) : c = d := by
  -- the low bit tells whether the polynomial was applied
  have hback : ∀ n < 256, (fun crc : UInt8 =>
      if crc &&& 1 = 0 then crc >>> 1 else (crc ^^^ 0x2F) >>> 1 ||| 0x80)
        (crc8Shift (UInt8.ofNat n)) = UInt8.ofNat n := by decide +kernel
  have hc := hback _ c.toNat_lt
  have hd := hback _ d.toNat_lt
  rw [UInt8.ofNat_toNat] at hc hd
  rw [← hc, h, hd]

theorem crc8AutosarUpdate_inj {c d a b : UInt8}
    (h : crc8AutosarUpdate c a = crc8AutosarUpdate d b) : c ^^^ a = d ^^^ b := by
  unfold crc8AutosarUpdate at h
  iterate 8 replace h := crc8Shift_inj h
  exact h

theorem register_inj {c d : UInt8} {bs : List UInt8}
    (h : bs.foldl crc8AutosarUpdate c = bs.foldl crc8AutosarUpdate d) : c = d := by
  induction bs generalizing c d with
  | nil => exact h
  | cons b bs ih => exact (UInt8.xor_left_inj _).mp (crc8AutosarUpdate_inj (ih h))

theorem register_set {c : UInt8} {bs : List UInt8} {i : Nat} {hi : i < bs.length} {b : UInt8}
    (h : (bs.set i b).foldl crc8AutosarUpdate c = bs.foldl crc8AutosarUpdate c) : bs[i] = b := by
  induction bs generalizing c i with
  | nil => cases hi
  | cons a bs ih =>
    cases i with
    | zero => exact ((UInt8.xor_right_inj _).mp (crc8AutosarUpdate_inj (register_inj h))).symm
    | succ i => exact ih h

end motioncore.wire
