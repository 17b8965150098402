-- The SLIP framing of the USB link (`libcomm/frame.c`): a frame travels as its
-- escaped bytes between two END bytes, and the decoder reads one byte at a time.
import MotionCore.Lib.Bytes
import MotionCore.Lib.Runs
import MotionCore.Wire.Crc8

open motioncore.bytes motioncore.machine

namespace motioncore.wire

def FRAME_END : UInt8 := 0xC0
def FRAME_ESC : UInt8 := 0xDB
def FRAME_ESC_END : UInt8 := 0xDC
def FRAME_ESC_ESC : UInt8 := 0xDD
def COMM_PAYLOAD_MAX : Nat := 128

/-- The longest body: the header of the dongle, the payload and the checksum. -/
def FRAME_BUFFER_MAX : Nat := 7 + COMM_PAYLOAD_MAX + 1

/-! ## Frames -/

/-- Who sends: the host (`m2s`) or the dongle (`s2m`). -/
inductive FrameDir where
  | m2s
  | s2m
deriving DecidableEq

/-- A frame, `frame_meta_t` with its payload. -/
structure Frame where
  addr : UInt8
  cmd : UInt16
  seq : UInt8
  ack_seq : UInt8
  ack_status : UInt8
  payload : List UInt8
  len_le : payload.length ≤ COMM_PAYLOAD_MAX
deriving DecidableEq

def hdrLen : FrameDir → Nat
  | .m2s => 5
  | .s2m => 7

/-- The header. Only the dongle acknowledges, and the length comes last. -/
def header (dir : FrameDir) (f : Frame) : List UInt8 :=
  let len := UInt8.ofNat f.payload.length
  match dir with
  | .m2s => [f.addr, lo16 f.cmd, hi16 f.cmd, f.seq, len]
  | .s2m => [f.addr, lo16 f.cmd, hi16 f.cmd, f.seq, f.ack_seq, f.ack_status, len]

/-- The header and the payload, which the checksum covers. -/
def covered (dir : FrameDir) (f : Frame) : List UInt8 := header dir f ++ f.payload

def body (dir : FrameDir) (f : Frame) : List UInt8 :=
  covered dir f ++ [crc8Autosar (covered dir f)]

/-- What the receiver gets of a frame: the host has no acknowledgement to send. -/
def Frame.carried (dir : FrameDir) (f : Frame) : Frame :=
  match dir with
  | .m2s => { f with ack_seq := 0, ack_status := 0 }
  | .s2m => f

/-! ## The encoder -/

/-- `slip_emit_byte`. -/
def slipByte (b : UInt8) : List UInt8 :=
  if b = FRAME_END then [FRAME_ESC, FRAME_ESC_END]
  else if b = FRAME_ESC then [FRAME_ESC, FRAME_ESC_ESC]
  else [b]

def slip (bs : List UInt8) : List UInt8 := bs.flatMap slipByte

def frameBytes (dir : FrameDir) (f : Frame) : List UInt8 :=
  FRAME_END :: (slip (body dir f) ++ [FRAME_END])

/-! ## The decoder -/

/-- `frame_decoder_t`: `body` is what the buffer holds. -/
structure Decoder where
  in_frame : Bool
  in_escape : Bool
  body : List UInt8
  body_le : body.length ≤ FRAME_BUFFER_MAX
deriving DecidableEq

inductive DecodeResult where
  | needMore
  | frameReady (f : Frame)
  | badCrc
  | overflow
  | badLen
deriving DecidableEq

/-- `frame_decoder_init`. It is also the state after every frame, good or bad. -/
def Decoder.init : Decoder where
  in_frame := false
  in_escape := false
  body := []
  body_le := Nat.zero_le _

def Decoder.began : Decoder := { Decoder.init with in_frame := true }

def Decoder.escaped (d : Decoder) : Decoder := { d with in_escape := true }

/-- The frame of a body with a good checksum. -/
def readFrame (dir : FrameDir) (bs : List UInt8) (payload : List UInt8)
    (le : payload.length ≤ COMM_PAYLOAD_MAX) : Frame where
  addr := bs.getD 0 0
  cmd := le16 (bs.getD 1 0) (bs.getD 2 0)
  seq := bs.getD 3 0
  ack_seq := if dir = .m2s then 0 else bs.getD 4 0
  ack_status := if dir = .m2s then 0 else bs.getD 5 0
  payload := payload
  len_le := le

variable {bs : List UInt8}

theorem payload_le {hdr declared : Nat} (h : declared ≤ COMM_PAYLOAD_MAX) :
    ((bs.drop hdr).take declared).length ≤ COMM_PAYLOAD_MAX :=
  Nat.le_trans (List.length_take_le _ _) h

/-- The trailing END: the body is checked, and is a frame when all of it fits. -/
def validate (dir : FrameDir) (bs : List UInt8) : DecodeResult :=
  if bs.length < hdrLen dir + 1 then .badLen
  else if crc8Autosar bs.dropLast ≠ bs.getLastD 0 then .badCrc
  else
    let declared := (bs.getD (hdrLen dir - 1) 0).toNat
    if h : declared ≤ COMM_PAYLOAD_MAX ∧ hdrLen dir + declared + 1 = bs.length then
      .frameReady (readFrame dir bs ((bs.drop (hdrLen dir)).take declared) (payload_le h.1))
    else .badLen

/-- A byte of the body, without its escape. -/
def store (d : Decoder) (b : UInt8) : Decoder × DecodeResult :=
  if h : d.body.length < FRAME_BUFFER_MAX then
    ({ in_frame := true, in_escape := false, body := d.body ++ [b],
       body_le := by rw [List.length_append]; exact h }, .needMore)
  else (.init, .overflow)

def frameDecoderFeed (dir : FrameDir) (d : Decoder) (byte : UInt8) : Decoder × DecodeResult :=
  if byte = FRAME_END then
    if !d.in_frame || d.body.isEmpty then (.began, .needMore)
    else (.init, validate dir d.body)
  else if !d.in_frame then (d, .needMore)
  else if d.in_escape then
    if byte = FRAME_ESC_END then store d FRAME_END
    else if byte = FRAME_ESC_ESC then store d FRAME_ESC
    else (.init, .badLen)
  else if byte = FRAME_ESC then (d.escaped, .needMore)
  else store d byte

/-- One byte of a stream: a frame is an event. -/
def decodeStep (dir : FrameDir) (d : Decoder) (byte : UInt8) : Decoder × List Frame :=
  match frameDecoderFeed dir d byte with
  | (d', .frameReady f) => (d', [f])
  | (d', _) => (d', [])

/-! ## The bytes of a frame come in -/

theorem decodeStep_of_needMore {dir : FrameDir} {d d' : Decoder} {b : UInt8}
    (h : frameDecoderFeed dir d b = (d', .needMore)) : decodeStep dir d b = (d', []) := by
  unfold decodeStep
  rw [h]

/-- A decoder that has collected `bs`. -/
def Decoder.holding (bs : List UInt8) (le : bs.length ≤ FRAME_BUFFER_MAX) : Decoder :=
  { in_frame := true, in_escape := false, body := bs, body_le := le }

theorem store_holding {b : UInt8} {e : Bool} (le : bs.length ≤ FRAME_BUFFER_MAX)
    (le' : (bs ++ [b]).length ≤ FRAME_BUFFER_MAX) :
    store { in_frame := true, in_escape := e, body := bs, body_le := le } b =
      (.holding (bs ++ [b]) le', .needMore) := by
  have hlt : bs.length < FRAME_BUFFER_MAX := by
    rw [List.length_append] at le'
    exact le'
  unfold store
  rw [dif_pos hlt]
  rfl

variable (dir : FrameDir)

/-- One byte of a body, with its escape, goes into the buffer. -/
theorem slipByte_arrives (b : UInt8) (le : bs.length ≤ FRAME_BUFFER_MAX)
    (le' : (bs ++ [b]).length ≤ FRAME_BUFFER_MAX) :
    emits (decodeStep dir) (.holding bs le) (slipByte b) = (.holding (bs ++ [b]) le', []) := by
  have hesc : ∀ c e : UInt8, (c = FRAME_ESC_END ∧ e = FRAME_END) ∨
      (c = FRAME_ESC_ESC ∧ e = FRAME_ESC) → b = e →
      emits (decodeStep dir) (.holding bs le) [FRAME_ESC, c] = (.holding (bs ++ [b]) le', []) := by
    intro c e hc hb
    have h1 : decodeStep dir (.holding bs le) FRAME_ESC = ((Decoder.holding bs le).escaped, []) :=
      decodeStep_of_needMore rfl
    have h2 : decodeStep dir (Decoder.holding bs le).escaped c =
        (.holding (bs ++ [b]) le', []) := by
      apply decodeStep_of_needMore
      rw [← store_holding (e := true) le le', hb]
      rcases hc with ⟨rfl, rfl⟩ | ⟨rfl, rfl⟩
      · rfl
      · rfl
    simp only [emits, h1, h2, List.append_nil]
  unfold slipByte
  by_cases hend : b = FRAME_END
  · rw [if_pos hend]
    exact hesc _ _ (Or.inl ⟨rfl, rfl⟩) hend
  · rw [if_neg hend]
    by_cases hx : b = FRAME_ESC
    · rw [if_pos hx]
      exact hesc _ _ (Or.inr ⟨rfl, rfl⟩) hx
    · rw [if_neg hx]
      have h1 : decodeStep dir (.holding bs le) b = (.holding (bs ++ [b]) le', []) := by
        apply decodeStep_of_needMore
        have hin : ¬ (!(Decoder.holding bs le).in_frame) = true := Bool.false_ne_true
        have hnot : ¬ (Decoder.holding bs le).in_escape = true := Bool.false_ne_true
        unfold frameDecoderFeed
        rw [if_neg hend, if_neg hin, if_neg hnot, if_neg hx]
        exact store_holding le le'
      simp only [emits, h1, List.append_nil]

theorem slip_arrives (rest : List UInt8) : ∀ {bs : List UInt8} (le : bs.length ≤ FRAME_BUFFER_MAX)
      (le' : (bs ++ rest).length ≤ FRAME_BUFFER_MAX),
      emits (decodeStep dir) (.holding bs le) (slip rest) = (.holding (bs ++ rest) le', []) := by
  induction rest with
  | nil =>
    intro bs le le'
    simp only [slip, List.flatMap_nil, emits, List.append_nil]
  | cons b rest ih =>
    intro bs le le'
    have hassoc : bs ++ b :: rest = (bs ++ [b]) ++ rest := by simp
    have hle : (bs ++ [b]).length ≤ FRAME_BUFFER_MAX := by
      rw [hassoc, List.length_append] at le'
      omega
    have hrest := ih hle (by rw [← hassoc]; exact le')
    unfold slip at hrest ⊢
    rw [List.flatMap_cons, emits_append, slipByte_arrives dir b le hle, hrest]
    simp only [hassoc, List.append_nil]

variable (f : Frame)

theorem length_header : (header dir f).length = hdrLen dir := by
  cases dir <;> rfl

theorem length_body : (body dir f).length = hdrLen dir + f.payload.length + 1 := by
  unfold body covered
  rw [List.length_append, List.length_append, length_header, List.length_singleton]

theorem length_body_le : (body dir f).length ≤ FRAME_BUFFER_MAX := by
  have hp := f.len_le
  rw [length_body]
  unfold FRAME_BUFFER_MAX
  cases dir <;> simp only [hdrLen] <;> omega

theorem body_ne_nil : body dir f ≠ [] := by
  unfold body
  exact List.append_ne_nil_of_right_ne_nil _ (List.cons_ne_nil _ _)

/-- The payload is read back where the header ends. -/
theorem payload_of_body : ((body dir f).drop (hdrLen dir)).take f.payload.length = f.payload := by
  unfold body covered
  rw [List.append_assoc, ← length_header dir f, List.drop_left, List.take_left]

theorem declared_of_body : ((body dir f).getD (hdrLen dir - 1) 0).toNat = f.payload.length := by
  have hp : f.payload.length < 256 := Nat.lt_of_le_of_lt f.len_le (by decide)
  have hd : (body dir f).getD (hdrLen dir - 1) 0 = UInt8.ofNat f.payload.length := by
    cases dir <;> rfl
  rw [hd, UInt8.toNat_ofNat']
  omega

theorem readFrame_body (le : f.payload.length ≤ COMM_PAYLOAD_MAX) :
    readFrame dir (body dir f) f.payload le = f.carried dir := by
  have hcmd : le16 ((body dir f).getD 1 0) ((body dir f).getD 2 0) = f.cmd := by
    rw [← le16_lo_hi f.cmd]
    cases dir <;> rfl
  unfold readFrame
  rw [hcmd]
  cases dir <;> rfl

/-- What the encoder closes, the decoder accepts. -/
theorem validate_body : validate dir (body dir f) = .frameReady (f.carried dir) := by
  have hlen : ¬ (body dir f).length < hdrLen dir + 1 := by
    rw [length_body]
    omega
  have hcrc : crc8Autosar (body dir f).dropLast = (body dir f).getLastD 0 := by
    unfold body
    rw [List.dropLast_concat]
    simp only [List.getLastD_eq_getLast?, List.getLast?_append, List.getLast?_singleton,
      Option.some_or, Option.getD_some]
  unfold validate
  rw [if_neg hlen, if_neg (not_not_intro hcrc)]
  have hfits : ((body dir f).getD (hdrLen dir - 1) 0).toNat ≤ COMM_PAYLOAD_MAX ∧
      hdrLen dir + ((body dir f).getD (hdrLen dir - 1) 0).toNat + 1 = (body dir f).length := by
    rw [declared_of_body, length_body]
    exact ⟨f.len_le, rfl⟩
  dsimp only
  rw [dif_pos hfits]
  congr 1
  rw [← readFrame_body dir f f.len_le]
  congr 1
  rw [declared_of_body, payload_of_body]

/-- A decoder between two frames reads the bytes of a frame as that frame, and
is between two frames again. -/
theorem frameBytes_arrive {d : Decoder} (h : d.in_frame = false) (f : Frame) :
    emits (decodeStep dir) d (frameBytes dir f) = (.init, [f.carried dir]) := by
  have hopen : decodeStep dir d FRAME_END = (.began, []) := by
    apply decodeStep_of_needMore
    unfold frameDecoderFeed
    rw [if_pos rfl, h]
    rfl
  have hbody : emits (decodeStep dir) .began (slip (body dir f)) =
      (.holding (body dir f) (length_body_le dir f), []) :=
    slip_arrives dir (body dir f) (Nat.zero_le _) (length_body_le dir f)
  have hclose : decodeStep dir (.holding (body dir f) (length_body_le dir f)) FRAME_END =
      (.init, [f.carried dir]) := by
    have hne : (!(true : Bool) || (body dir f).isEmpty) = false := by
      rw [Bool.not_true, Bool.false_or, List.isEmpty_eq_false_iff]
      exact body_ne_nil dir f
    have hfeed : frameDecoderFeed dir (.holding (body dir f) (length_body_le dir f)) FRAME_END =
        (.init, .frameReady (f.carried dir)) := by
      unfold frameDecoderFeed
      rw [if_pos rfl, ← validate_body dir f]
      exact if_neg (Bool.eq_false_iff.mp hne)
    unfold decodeStep
    rw [hfeed]
  unfold frameBytes
  rw [emits, hopen, emits_append, hbody, emits, hclose]
  rfl

/-! ## From any state -/

/-- An END begins a frame here. -/
def Decoder.idle (d : Decoder) : Bool := !d.in_frame || d.body.isEmpty

theorem end_begins {d : Decoder} (h : d.idle) : decodeStep dir d FRAME_END = (.began, []) := by
  apply decodeStep_of_needMore
  unfold frameDecoderFeed
  rw [if_pos rfl]
  exact if_pos h

theorem end_closes {d : Decoder} (h : d.idle = false) : (decodeStep dir d FRAME_END).1 = .init := by
  have hfeed : frameDecoderFeed dir d FRAME_END = (.init, validate dir d.body) := by
    unfold frameDecoderFeed
    rw [if_pos rfl]
    exact if_neg (Bool.eq_false_iff.mp h)
  unfold decodeStep
  rw [hfeed]
  cases validate dir d.body <;> rfl

theorem idle_reads_frame {d : Decoder} (h : d.idle) (f : Frame) :
    emits (decodeStep dir) d (frameBytes dir f) = (.init, [f.carried dir]) := by
  rw [← frameBytes_arrive dir (d := .init) rfl f]
  simp only [frameBytes, emits, end_begins dir h, end_begins dir (d := .init) rfl]

theorem idle_reads_frames {d : Decoder} (h : d.idle) (fs : List Frame) :
    (emits (decodeStep dir) d (fs.flatMap (frameBytes dir))).2 = fs.map (Frame.carried dir) := by
  induction fs generalizing d with
  | nil => rfl
  | cons f fs ih =>
    rw [List.flatMap_cons, emits_append, idle_reads_frame dir h, ih rfl]
    rfl

/-- An escaped body has no END, which a decoder between two frames waits for. -/
theorem slip_skipped (bs : List UInt8) : emits (decodeStep dir) .init (slip bs) = (.init, []) := by
  induction bs with
  | nil => rfl
  | cons b bs ih =>
    have hbyte : emits (decodeStep dir) .init (slipByte b) = (.init, []) := by
      unfold slipByte
      split_ifs with hend
      · rfl
      · rfl
      · have hskip : decodeStep dir .init b = (.init, []) := by
          apply decodeStep_of_needMore
          unfold frameDecoderFeed
          rw [if_neg hend]
          rfl
        rw [emits, hskip]
        rfl
    unfold slip at ih ⊢
    rw [List.flatMap_cons, emits_append, hbyte, ih]
    rfl

/-- The frames of a stream arrive whatever state the decoder is in. In the middle of a body the
first END closes that body, and only the frame that it should open is lost. -/
theorem frames_arrive_from_any_state (d : Decoder) (f : Frame) (fs : List Frame) :
    (emits (decodeStep dir) d ((f :: fs).flatMap (frameBytes dir))).2 =
      (if d.idle then [f.carried dir] else (decodeStep dir d FRAME_END).2) ++
        fs.map (Frame.carried dir) := by
  cases h : d.idle with
  | true => exact idle_reads_frames dir h (f :: fs)
  | false =>
    have hlost : emits (decodeStep dir) d (frameBytes dir f) =
        (.began, (decodeStep dir d FRAME_END).2) := by
      simp [frameBytes, emits, end_closes dir h, emits_append, slip_skipped,
        end_begins dir (d := .init) rfl]
    rw [List.flatMap_cons, emits_append, hlost, idle_reads_frames dir rfl]
    rfl

/-! ## A damaged byte -/

/-- What the register holds after a frame does not depend on the frame. -/
theorem register_of_ready (h : validate dir bs = .frameReady f) :
    bs.foldl crc8AutosarUpdate 0xFF = crc8AutosarUpdate 0 0xFF := by
  unfold validate at h
  split_ifs at h with hlen hcrc
  rcases List.eq_nil_or_concat bs with rfl | ⟨cs, c, rfl⟩
  · exact absurd (Nat.succ_pos _) hlen
  · have hlast := Decidable.not_not.mp hcrc
    rw [List.concat_eq_append] at hlast ⊢
    rw [List.dropLast_concat, List.getLastD_concat] at hlast
    rw [← hlast, crc8Autosar, List.foldl_append, List.foldl_cons, List.foldl_nil, crc8AutosarUpdate,
      ← UInt8.xor_assoc, UInt8.xor_self]
    rfl

variable {f}

/-- No body that differs from that of a frame in one byte is read as a frame. -/
theorem damaged_body_refused (h : validate dir bs = .frameReady f) {i : Nat} (hi : i < bs.length)
    {b : UInt8} (hb : bs[i] ≠ b) (g : Frame) : validate dir (bs.set i b) ≠ .frameReady g := by
  intro hg
  exact hb (register_set ((register_of_ready dir g hg).trans (register_of_ready dir f h).symm))

def nullFrame : Frame := ⟨0, 0, 0, 0, 0, [], Nat.zero_le _⟩

theorem damaged_null_frame_refused :
    validate .m2s ((body .m2s nullFrame).set 0 1) ≠ .frameReady nullFrame :=
  damaged_body_refused .m2s (validate_body .m2s nullFrame) (by decide) (by decide) _

end motioncore.wire
