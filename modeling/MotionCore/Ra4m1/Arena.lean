-- The arena that the modes of the RA4M1 share (mode.c), and what is kept in it: the DAC waveform
-- (ra4m1_commands.c), the spectral capture (spectral.c) and the Goertzel bank (goertzel.c). The
-- three structs overlay the same bytes, each from the first one on. An enumeration has one byte.
-- What the code computes with floats is a parameter that gives the bytes.
import MotionCore.Lib.Bytes

open motioncore.bytes

namespace motioncore.ra4m1

/-! ## Bytes -/

/-- `g_mode_arena`. -/
abbrev Arena := Nat → UInt8

namespace Arena

def zero : Arena := fun _ => 0

def fill (off len : Nat) (bytes : Nat → UInt8) (m : Arena) : Arena :=
  fun i => if off ≤ i ∧ i < off + len then bytes i else m i

def set8 (off : Nat) (v : UInt8) (m : Arena) : Arena := Function.update m off v

def get16 (m : Arena) (off : Nat) : UInt16 := le16 (m off) (m (off + 1))

def set16 (off : Nat) (v : UInt16) (m : Arena) : Arena :=
  (m.set8 off (lo16 v)).set8 (off + 1) (hi16 v)

def get32 (m : Arena) (off : Nat) : UInt32 :=
  le32 [m off, m (off + 1), m (off + 2), m (off + 3)]

def set32 (off : Nat) (v : UInt32) (m : Arena) : Arena :=
  m.fill off 4 fun i => (bytes32 v).getD (i - off) 0

end Arena

/-- What the float computations leave, byte by byte. -/
structure Dsp where
  /-- The Hamming window and the FFT instance. -/
  window : Nat → UInt8
  /-- `work` and `power_sum` after a frame. -/
  spectrum : Arena → Nat → UInt8
  /-- `s1` and `s2` after a sample. -/
  bins : Arena → UInt16 → Nat → UInt8
  /-- The speed, the coefficients and the sums after a block. -/
  block : Arena → UInt32 → Nat → UInt8
  /-- The speed and its change pass the gate. -/
  opens : Arena → UInt32 → Bool

variable (dsp : Dsp)

/-! ## The DAC waveform (`wf_state_t`) -/

namespace WF

def active (m : Arena) : Bool := m 0 ≠ 0

def isrs_remaining (m : Arena) : UInt32 := m.get32 8

def phase (m : Arena) : UInt8 := m 12

/-- `WF.active = false`. -/
def stop (m : Arena) : Arena := m.set8 0 0

def install (waveform : UInt8) (amplitude offset : UInt16) (isrs : UInt32) (m : Arena) : Arena :=
  (((((m.set8 1 waveform).set16 2 amplitude).set16 4 offset).set32 8 isrs).set8 12 0).set8 0 1

/-- `workbench_periodic_isr`, and whether it stops the timer. -/
def isr (m : Arena) : Arena × Bool :=
  if active m then
    let m := m.set8 12 ((phase m + 1) % 64)
    if isrs_remaining m ≠ 0 then
      let left := isrs_remaining m - 1
      let m := m.set32 8 left
      if left = 0 then (stop m, true) else (m, false)
    else (m, false)
  else (m, false)

end WF

/-! ## The spectral capture (`spec_arena_t`) -/

namespace SP

def IDLE : UInt8 := 0
def RUNNING : UInt8 := 1
def DONE : UInt8 := 2
def ERROR : UInt8 := 3

/-- `SPECTRAL_N`. -/
def N : Nat := 1024

def state (m : Arena) : UInt8 := m 0

def channel (m : Arena) : UInt8 := m 2

def target_frames (m : Arena) : UInt16 := m.get16 4

def frames_done (m : Arena) : UInt32 := m.get32 8

def cap_idx (m : Arena) : UInt16 := m.get16 12

def cap_writer (m : Arena) : UInt8 := m 14

def frame_ready (m : Arena) : UInt8 := m 15

/-- Where `cap_buf[w][i]` is. -/
def cap_buf (w : UInt8) (i : UInt16) : Nat := 18 + 2 * N * w.toNat + 2 * i.toNat

def setState (st : UInt8) (m : Arena) : Arena := m.set8 0 st

/-- `spectral_start`, up to the converter. The window and the FFT instance are behind the
buffers, with `work` and `power_sum` between them. -/
def init (fs_code channel : UInt8) (target_frames : UInt16) (_ : Arena) : Arena :=
  ((((Arena.zero.set8 1 fs_code).set8 2 channel).set16 4 target_frames).fill 4116 4096
    dsp.window).fill 14360 24 dsp.window

/-- `spectral_periodic_isr` with the sample, and whether it stops the timer. -/
def isr (m : Arena) (sample : UInt16) : Arena × Bool :=
  if state m = RUNNING then
    let m := m.set16 (cap_buf (cap_writer m) (cap_idx m)) sample
    let m := m.set16 12 (cap_idx m + 1)
    if N ≤ (cap_idx m).toNat then
      if frame_ready m ≠ 0 then (setState ERROR m, true)
      else (((m.set16 12 0).set8 14 (cap_writer m ^^^ 1)).set8 15 1, false)
    else (m, false)
  else (m, false)

/-- The pump has a frame to work on. -/
def due (m : Arena) : Bool := state m = RUNNING ∧ frame_ready m ≠ 0

/-- `spectral_pump` behind its guards, and whether it stops the timer. -/
def pump (m : Arena) : Arena × Bool :=
  let m := (m.fill 8212 4096 (dsp.spectrum m)).fill 12308 2052 (dsp.spectrum m)
  let m := m.set8 15 0
  let m := m.set32 8 (frames_done m + 1)
  if (target_frames m).toNat ≤ (frames_done m).toNat then (setState DONE m, true) else (m, false)

end SP

/-! ## The Goertzel bank (`gz_arena_t`) -/

/-- A finite float that is not below zero, from its bits. -/
def isFiniteNonneg (bits : UInt32) : Bool :=
  (bits >>> 23) &&& 0xFF ≠ 0xFF ∧ (bits < 0x80000000 ∨ bits = 0x80000000)

/-- The arguments of `goertzel_config`. -/
structure GzConfig where
  sub_mode : UInt8
  fs_code : UInt8
  block_n : UInt16
  channel : UInt8
  gate_enabled : UInt8
  accel_thresh : UInt32
  min_rpm : UInt32
  order_count : UInt8
deriving DecidableEq

namespace GZ

def IDLE : UInt8 := 0
def RUNNING : UInt8 := 1
def MAX_BINS : Nat := 32

def state (m : Arena) : UInt8 := m 0

def fs_code (m : Arena) : UInt8 := m 2

def block_n (m : Arena) : UInt16 := m.get16 4

def channel (m : Arena) : UInt8 := m 6

def gate_enabled (m : Arena) : UInt8 := m 7

def order_count (m : Arena) : UInt8 := m 8

def sample_count (m : Arena) : UInt32 := m.get32 680

def block_ready (m : Arena) : UInt8 := m 684

def n_blocks_accumulated (m : Arena) : UInt32 := m.get32 688

def n_blocks_total (m : Arena) : UInt32 := m.get32 692

/-- The bytes of the bins in use. -/
def used (m : Arena) : Nat := 4 * (order_count m).toNat

def setState (st : UInt8) (m : Arena) : Arena := m.set8 0 st

def clear (off len : Nat) (m : Arena) : Arena := m.fill off len fun _ => 0

def enter (_ : Arena) : Arena := Arena.zero.set32 32 0x7FC00000

def validConfig (c : GzConfig) : Bool :=
  c.sub_mode = 0 ∧ 1 ≤ c.fs_code ∧ c.fs_code ≤ 10 ∧ 256 ≤ c.block_n ∧ c.block_n ≤ 16384 ∧
    c.channel ≤ 3 ∧ c.order_count ≠ 0 ∧ c.order_count ≤ 32 ∧ isFiniteNonneg c.accel_thresh ∧
    isFiniteNonneg c.min_rpm

/-- `goertzel_config`. The arrays from `order` to `mag2_sum` are cleared whole. -/
def config (c : GzConfig) (m : Arena) : Arena :=
  if state m = RUNNING ∨ ¬ validConfig c then m
  else
    let m := ((m.set8 1 c.sub_mode).set8 2 c.fs_code).set16 4 c.block_n
    let m := (m.set8 6 c.channel).set8 7 (if c.gate_enabled = 0 then 0 else 1)
    let m := ((m.set8 8 c.order_count).set32 12 c.accel_thresh).set32 16 c.min_rpm
    clear 688 8 (clear 40 (5 * 4 * MAX_BINS) m)

/-- The loop of `goertzel_set_orders`. What comes before a bad order stays written. -/
def orders (i : Nat) : List UInt32 → Arena → Arena
  | [], m => m
  | o :: rest, m =>
    if isFiniteNonneg o then orders (i + 1) rest (m.set32 (40 + 4 * i) o) else m

def set_orders (offset : UInt8) (os : List UInt32) (m : Arena) : Arena :=
  if os = [] ∨ MAX_BINS < offset.toNat + os.length then m else orders offset.toNat os m

/-- `goertzel_start` behind its guards, up to the converter. A coefficient is 2 at speed 0. -/
def start (m : Arena) : Arena :=
  let m := clear 552 (used m) (clear 424 (used m) (clear 296 (used m) m))
  let m := clear 688 8 ((m.set32 680 0).set8 684 0)
  let m := ((clear 24 8 m).set8 36 0).set32 20 0
  m.fill 168 (used m) fun i => if i % 4 = 3 then 0x40 else 0

/-- `goertzel_periodic_isr` with the sample. -/
def isr (m : Arena) (sample : UInt16) : Arena :=
  if state m = RUNNING then
    let bytes := dsp.bins m sample
    let m := (m.fill 296 (used m) bytes).fill 424 (used m) bytes
    let m := m.set32 680 (sample_count m + 1)
    if (block_n m).toNat ≤ (sample_count m).toNat then m.set8 684 1 else m
  else m

def due (m : Arena) : Bool := state m = RUNNING ∧ block_ready m ≠ 0

/-- `goertzel_pump` behind its guards, with the count of the encoder. The first block after a
start is not added up. -/
def pump (encoder : UInt32) (m : Arena) : Arena :=
  let bytes := dsp.block m encoder
  let gate_open := gate_enabled m = 0 || dsp.opens m encoder
  let m := ((m.set32 20 encoder).fill 24 8 bytes).set8 36 (if gate_open then 1 else 0)
  let m :=
    if gate_open && n_blocks_total m ≠ 0 then
      (m.fill 552 (used m) bytes).set32 688 (n_blocks_accumulated m + 1)
    else m
  let m := (m.set32 692 (n_blocks_total m + 1)).fill 168 (used m) bytes
  ((clear 424 (used m) (clear 296 (used m) m)).set32 680 0).set8 684 0

def inject_rpm (rpm : UInt32) (m : Arena) : Arena := m.set32 32 rpm

/-- `goertzel_read` with its reset. -/
def readReset (m : Arena) : Arena := clear 688 8 (clear 552 (used m) m)

end GZ

end motioncore.ra4m1
