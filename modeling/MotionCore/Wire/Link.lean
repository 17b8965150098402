-- The way of the frames over the USB link: the encoder puts them into a byte ring
-- (`libcomm/frame.c`), the main loop drains the ring, and the decoder of the other side gets
-- the bytes. The free-running counters of the ring are its oldest place and its count here.
import MotionCore.Lib.Ring
import MotionCore.Wire.Slip

open motioncore.machine
open motioncore.ring (Ring)

namespace motioncore.wire

variable {cap : Nat}

/-- The groups go in whole, up to the first without room. -/
def emitGroups (r : Ring UInt8 cap) : List (List UInt8) → Ring UInt8 cap × Bool
  | [] => (r, true)
  | g :: gs => if cap - r.count < g.length then (r, false) else emitGroups (g.foldl Ring.push r) gs

def groups (dir : FrameDir) (f : Frame) : List (List UInt8) :=
  [FRAME_END] :: ((body dir f).map slipByte ++ [[FRAME_END]])

/-- `frame_encode_common`. What did not fit is behind the head again, and stays in the buffer. -/
def frameEncode (dir : FrameDir) (r : Ring UInt8 cap) (f : Frame) : Ring UInt8 cap × Bool :=
  let p := emitGroups r (groups dir f)
  (if p.2 then p.1 else { r with buf := p.1.buf }, p.2)

/-- `frame_ring_read_drain`: the bytes that leave the ring, and what is left. -/
def frameRingReadDrain (r : Ring UInt8 cap) : Nat → List UInt8 × Ring UInt8 cap
  | 0 => ([], r)
  | max + 1 =>
    if r.count = 0 then ([], r)
    else
      let p := frameRingReadDrain r.pop max
      (r.front :: p.1, p.2)

theorem drain_contents (r : Ring UInt8 cap) (max : Nat) :
    (frameRingReadDrain r max).1 ++ (frameRingReadDrain r max).2.contents = r.contents := by
  induction max generalizing r with
  | zero => rfl
  | succ max ih =>
    unfold frameRingReadDrain
    split_ifs with h
    · rfl
    · rw [Ring.contents_eq_cons h, ← ih r.pop]
      rfl

theorem pushes_contents {g : List UInt8} {r : Ring UInt8 cap} (h : g.length ≤ cap - r.count) :
    (g.foldl Ring.push r).contents = r.contents ++ g ∧ (g.foldl Ring.push r).head = r.head := by
  induction g generalizing r with
  | nil => simp
  | cons b g ih =>
    rw [List.length_cons] at h
    have hroom : r.count < cap := by omega
    obtain ⟨hcontents, hhead⟩ := ih (r := r.push b) (by rw [Ring.count_push b hroom]; omega)
    rw [List.foldl_cons, hcontents, hhead, Ring.contents_push b hroom, Ring.push, dif_pos hroom]
    simp

theorem emitGroups_contents (r : Ring UInt8 cap) (gs : List (List UInt8)) : ∃ bs,
    (emitGroups r gs).1.contents = r.contents ++ bs ∧ (emitGroups r gs).1.head = r.head ∧
      ((emitGroups r gs).2 → bs = gs.flatten) := by
  induction gs generalizing r with
  | nil => exact ⟨[], by simp [emitGroups]⟩
  | cons g gs ih =>
    unfold emitGroups
    split_ifs with h
    · exact ⟨[], by simp⟩
    · obtain ⟨bs, hcontents, hhead, hall⟩ := ih (g.foldl Ring.push r)
      obtain ⟨hpushed, hstays⟩ := pushes_contents (Nat.le_of_not_lt h)
      refine ⟨g ++ bs, ?_, hhead.trans hstays, fun hok => by rw [hall hok, List.flatten_cons]⟩
      rw [hcontents, hpushed, List.append_assoc]

theorem frameEncode_contents (dir : FrameDir) (r : Ring UInt8 cap) (f : Frame) :
    (frameEncode dir r f).1.contents =
      r.contents ++ if (frameEncode dir r f).2 then frameBytes dir f else [] := by
  obtain ⟨bs, hcontents, hhead, hall⟩ := emitGroups_contents r (groups dir f)
  unfold frameEncode
  generalize emitGroups r (groups dir f) = p at hcontents hhead hall ⊢
  obtain ⟨r', ok⟩ := p
  dsimp only at hcontents hhead hall ⊢
  cases ok with
  | true =>
    have hbytes : bs = frameBytes dir f := by
      rw [hall rfl, groups, frameBytes, slip, List.flatMap_def]
      simp
    rw [← hbytes]
    exact hcontents
  | false =>
    -- the bytes of the ring are the first of those that the encoder had in it
    have hcount : r.count ≤ r'.count := by
      rw [← Ring.length_contents r, ← Ring.length_contents r', hcontents, List.length_append]
      exact Nat.le_add_right _ _
    have hold : r'.contents.take r.count = r.contents := by
      rw [hcontents, ← Ring.length_contents r, List.take_left]
    rw [Ring.contents, ← List.map_take, List.take_range, Nat.min_eq_left hcount, hhead] at hold
    simpa [Ring.contents] using hold

/-! ## The link -/

/-- A ring with its encoder and the decoder behind it, and the frames that went in and came out. -/
structure Link (cap : Nat) where
  ring : Ring UInt8 cap
  decoder : Decoder
  accepted : List Frame
  received : List Frame

/-- The oldest place of the empty ring may be any. -/
def Link.start (buf : Fin cap → UInt8) (head : Fin cap) : Link cap where
  ring := { buf := buf, head := head, count := 0, count_le := Nat.zero_le _ }
  decoder := .init
  accepted := []
  received := []

inductive LinkOp where
  | encode (f : Frame)
  | drain (max : Nat)

def linkStep (dir : FrameDir) (s : Link cap) : LinkOp → Link cap
  | .encode f =>
    let e := frameEncode dir s.ring f
    { s with ring := e.1, accepted := s.accepted ++ if e.2 then [f] else [] }
  | .drain max =>
    let p := frameRingReadDrain s.ring max
    let d := emits (decodeStep dir) s.decoder p.1
    { s with ring := p.2, decoder := d.1, received := s.received ++ d.2 }

/-- What was received, and what the ring still brings, is what the encoder accepted. -/
def InOrder (dir : FrameDir) (s : Link cap) : Prop :=
  (emits (decodeStep dir) s.decoder s.ring.contents).1.idle ∧
    s.received ++ (emits (decodeStep dir) s.decoder s.ring.contents).2 =
      s.accepted.map (Frame.carried dir)

theorem linkStep_in_order {dir : FrameDir} {s : Link cap} (h : InOrder dir s) (op : LinkOp) :
    InOrder dir (linkStep dir s op) := by
  obtain ⟨hidle, hall⟩ := h
  cases op with
  | encode f =>
    simp only [InOrder, linkStep, frameEncode_contents]
    cases (frameEncode dir s.ring f).2 with
    | true =>
      rw [if_pos rfl, if_pos rfl, emits_append, idle_reads_frame dir hidle]
      simp [← hall, Decoder.idle, Decoder.init]
    | false => simpa using ⟨hidle, hall⟩
  | drain max =>
    rw [← drain_contents s.ring max, emits_append] at hidle hall
    exact ⟨hidle, by simpa [linkStep] using hall⟩

/-- However frames are encoded and the ring is drained, the frames that the encoder accepts come
out in their order, once each. A frame that it refuses leaves no trace. -/
theorem link_delivers_in_order (dir : FrameDir) (buf : Fin cap → UInt8) (head : Fin cap)
    (ops : List LinkOp) : InOrder dir (ops.foldl (linkStep dir) (.start buf head)) := by
  have hstart : InOrder dir (.start buf head) := ⟨rfl, rfl⟩
  generalize Link.start buf head = s at hstart
  induction ops generalizing s with
  | nil => exact hstart
  | cons op ops ih => exact ih _ (linkStep_in_order hstart op)

end motioncore.wire
