-- The frames of the RS-485 bus as 9-bit words, and the assembler that reads
-- them back (`samd21_rs485.c`). The ninth bit marks the destination byte, and
-- starts a frame from any state.
import Mathlib.Tactic.IntervalCases
import MotionCore.Bus.Frame
import MotionCore.Lib.Runs
import MotionCore.Wire.Crc8

open motioncore.machine motioncore.wire

namespace motioncore.bus

/-- The listen address of a receiver that accepts every frame. -/
def RS485_ADDR_SNIFFER : UInt8 := 0xFF

/-! ## Words -/

/-- `frame_crc`, over the header, the length and the payload. -/
def frameCrc (f : Rs485Frame) : UInt8 :=
  crc8Autosar ([f.dest, f.src, f.type, f.seq, UInt8.ofNat f.payload.length] ++ f.payload)

def dataWord (b : UInt8) : UInt16 := b.toUInt16

/-- A byte with the address marker. -/
def addrWord (b : UInt8) : UInt16 := 0x100 ||| b.toUInt16

def preamble : UInt16 := 0x0FF

/-- The words between the preamble and the checksum. -/
def leadWords (f : Rs485Frame) : List UInt16 :=
  addrWord f.dest ::
    ([f.src, f.type, f.seq, UInt8.ofNat f.payload.length] ++ f.payload).map dataWord

def rs485FrameWords (f : Rs485Frame) : List UInt16 :=
  preamble :: (leadWords f ++ [dataWord (frameCrc f)])

def isAddr (word9 : UInt16) : Bool := word9 &&& 0x100 != 0

def byteOf (word9 : UInt16) : UInt8 := (word9 &&& 0xFF).toUInt8

/-! ## The assembler -/

/-- The state of the assembler, with what it has collected. A length that no
frame may have never gets past `ASM_LEN`. -/
inductive Asm where
  | idle
  | src (dest : UInt8)
  | type (dest src : UInt8)
  | seq (dest src type : UInt8)
  | len (dest src type seq : UInt8)
  /-- The payload so far, of `len` bytes. -/
  | payload (dest src type seq : UInt8) (len : Nat) (p : List UInt8) (lt : p.length < len)
      (le : len ≤ RS485_PAYLOAD_MAX)
  | crc (f : Rs485Frame)
deriving DecidableEq

theorem snoc_le {p : List UInt8} {b : UInt8} {len n : Nat} (lt : p.length < len) (le : len ≤ n) :
    (p ++ [b]).length ≤ n := by
  rw [List.length_append, List.length_singleton]
  omega

def listensTo (me dest : UInt8) : Bool := me == RS485_ADDR_SNIFFER || dest == me

/-- `asm_feed` of a byte without the address marker. -/
def asmByte (s : Asm) (b : UInt8) : Asm × Option Rs485Frame :=
  match s with
  | .src dest => (.type dest b, none)
  | .type dest src => (.seq dest src b, none)
  | .seq dest src type => (.len dest src type b, none)
  | .len dest src type seq =>
    if le : b.toNat ≤ RS485_PAYLOAD_MAX then
      if lt : 0 < b.toNat then (.payload dest src type seq b.toNat [] lt le, none)
      else (.crc ⟨dest, src, type, seq, [], Nat.zero_le _⟩, none)
    else (.idle, none)
  | .payload dest src type seq len p lt le =>
    if more : (p ++ [b]).length < len then (.payload dest src type seq len (p ++ [b]) more le, none)
    else (.crc ⟨dest, src, type, seq, p ++ [b], snoc_le lt le⟩, none)
  | .crc f => (.idle, if frameCrc f = b then some f else none)
  | .idle => (.idle, none)

def asmFeed (me : UInt8) (s : Asm) (word9 : UInt16) : Asm × Option Rs485Frame :=
  if isAddr word9 then (if listensTo me (byteOf word9) then .src (byteOf word9) else .idle, none)
  else asmByte s (byteOf word9)

/-- One word of a stream: a frame is an event. -/
def asmStep (me : UInt8) (s : Asm) (word9 : UInt16) : Asm × List Rs485Frame :=
  ((asmFeed me s word9).1, (asmFeed me s word9).2.toList)

/-! ## One word -/

variable (me b : UInt8)

theorem isAddr_addrWord : isAddr (addrWord b) = true := by
  unfold isAddr addrWord
  rw [bne_iff_ne]
  intro h
  have hbit := congrArg (fun w => w.toBitVec.getLsbD 8) h
  simp at hbit

theorem isAddr_dataWord : isAddr (dataWord b) = false := by
  unfold isAddr dataWord
  rw [bne_eq_false_iff_eq]
  apply UInt16.toBitVec_inj.mp
  ext i hi
  simp only [UInt16.toBitVec_and, UInt8.toBitVec_toUInt16, BitVec.getElem_and,
    BitVec.getElem_setWidth]
  by_cases hlt : i < 8
  · interval_cases i <;> simp
  · rw [BitVec.getLsbD_of_ge _ _ (by omega)]
    interval_cases i <;> simp

theorem byteOf_addrWord : byteOf (addrWord b) = b := by
  unfold byteOf addrWord
  apply UInt8.toBitVec_inj.mp
  ext i hi
  interval_cases i <;> simp

theorem byteOf_dataWord : byteOf (dataWord b) = b := by
  unfold byteOf dataWord
  apply UInt8.toBitVec_inj.mp
  ext i hi
  interval_cases i <;> simp

variable (s : Asm)

theorem asmStep_addr (b : UInt8) :
    asmStep me s (addrWord b) = (if listensTo me b then .src b else .idle, []) := by
  unfold asmStep asmFeed
  rw [if_pos (isAddr_addrWord b), byteOf_addrWord]
  rfl

theorem asmStep_data (b : UInt8) :
    asmStep me s (dataWord b) = ((asmByte s b).1, (asmByte s b).2.toList) := by
  unfold asmStep asmFeed
  rw [if_neg (Bool.eq_false_iff.mp (isAddr_dataWord b)), byteOf_dataWord]

/-! ## One frame -/

/-- A receiver that does not listen hears nothing until the next address. -/
theorem idle_ignores (bs : List UInt8) :
    emits (asmStep me) .idle (bs.map dataWord) = (.idle, []) := by
  induction bs with
  | nil => rfl
  | cons b bs ih =>
    rw [List.map_cons, emits, asmStep_data]
    exact Prod.ext (congrArg Prod.fst ih) (congrArg Prod.snd ih)

theorem payload_arrives (dest src type seq : UInt8) (rest : List UInt8) :
    ∀ (p : List UInt8) (len : Nat) (lt : p.length < len) (le : len ≤ RS485_PAYLOAD_MAX)
      (_ : p.length + rest.length = len) (h : (p ++ rest).length ≤ RS485_PAYLOAD_MAX),
      emits (asmStep me) (.payload dest src type seq len p lt le) (rest.map dataWord) =
        (.crc ⟨dest, src, type, seq, p ++ rest, h⟩, []) := by
  induction rest with
  | nil =>
    intro p len lt le hlen h
    rw [List.length_nil] at hlen
    omega
  | cons b rest ih =>
    intro p len lt le hlen h
    rw [List.map_cons, emits, asmStep_data]
    unfold asmByte
    dsimp only
    rw [List.length_cons] at hlen
    by_cases more : (p ++ [b]).length < len
    · rw [dif_pos more]
      have hrest := ih (p ++ [b]) len more le (by rw [List.length_append, List.length_singleton]; omega)
        (by simpa using h)
      dsimp only
      rw [hrest]
      simp
    · have hnil : rest = [] := by
        apply List.eq_nil_of_length_eq_zero
        rw [List.length_append, List.length_singleton] at more
        omega
      subst hnil
      rw [dif_neg more]
      rfl

variable {f : Rs485Frame}

/-- All words of a frame but its checksum, to a receiver that listens. -/
theorem lead_arrives {me : UInt8} (hme : listensTo me f.dest = true) (s : Asm) :
    emits (asmStep me) s (leadWords f) = (.crc f, []) := by
  obtain ⟨dest, src, type, seq, p, hp⟩ := f
  have hlen : (UInt8.ofNat p.length).toNat = p.length := by
    rw [UInt8.toNat_ofNat']
    unfold RS485_PAYLOAD_MAX at hp
    omega
  unfold leadWords
  simp only [List.cons_append, List.nil_append, List.map_cons, emits, asmStep_addr, if_pos hme,
    asmStep_data, asmByte, Option.toList_none]
  rw [dif_pos (by rw [hlen]; exact hp)]
  by_cases hpos : 0 < (UInt8.ofNat p.length).toNat
  · rw [dif_pos hpos]
    have hrest := payload_arrives me dest src type seq p [] _ hpos (by rw [hlen]; exact hp)
      (by rw [hlen, List.length_nil, Nat.zero_add]) hp
    dsimp only
    rw [hrest]
    rfl
  · have hnil : p = [] := by
      apply List.eq_nil_of_length_eq_zero
      omega
    subst hnil
    rw [dif_neg hpos]
    rfl

theorem lead_ignored {me : UInt8} (hme : listensTo me f.dest = false) (s : Asm) :
    emits (asmStep me) s (leadWords f) = (.idle, []) := by
  unfold leadWords
  rw [emits, asmStep_addr, hme, if_neg Bool.false_ne_true, idle_ignores]
  rfl

/-- The frame that a preamble completes: one whose checksum was still to come,
and is the byte of the preamble. -/
def stale (s : Asm) : List Rs485Frame :=
  match s with
  | .crc f => if frameCrc f = 0xFF then [f] else []
  | _ => []

theorem preamble_eq : preamble = dataWord 0xFF := rfl

theorem preamble_stale : (asmStep me s preamble).2 = stale s := by
  rw [preamble_eq, asmStep_data]
  cases s with
  | len dest src type seq =>
    unfold asmByte
    rfl
  | payload dest src type seq len p lt le =>
    unfold asmByte stale
    dsimp only
    split
    · rfl
    · rfl
  | crc f =>
    unfold asmByte stale
    dsimp only
    split
    · rfl
    · rfl
  | _ => rfl

/-! ## Every stream -/

theorem asmByte_some {s : Asm} {b : UInt8} (h : (asmByte s b).2 = some f) :
    s = .crc f ∧ frameCrc f = b := by
  cases s with
  | crc g =>
    unfold asmByte at h
    dsimp only at h
    split at h
    · rename_i hcrc
      obtain rfl := Option.some.inj h
      exact ⟨rfl, hcrc⟩
    · exact nomatch h
  | len dest src type seq =>
    unfold asmByte at h
    dsimp only at h
    split at h
    · split at h
      · exact nomatch h
      · exact nomatch h
    · exact nomatch h
  | payload dest src type seq len p lt le =>
    unfold asmByte at h
    dsimp only at h
    split at h
    · exact nomatch h
    · exact nomatch h
  | idle => exact nomatch h
  | src dest => exact nomatch h
  | type dest src => exact nomatch h
  | seq dest src type => exact nomatch h

/-- The word that completes a frame is its checksum. -/
theorem asmFeed_some {me : UInt8} {s : Asm} {word9 : UInt16} (h : (asmFeed me s word9).2 = some f) :
    s = .crc f ∧ isAddr word9 = false ∧ byteOf word9 = frameCrc f := by
  unfold asmFeed at h
  split at h
  · exact nomatch h
  · rename_i haddr
    obtain ⟨hs, hcrc⟩ := asmByte_some h
    exact ⟨hs, Bool.eq_false_iff.mpr haddr, hcrc.symm⟩

/-- The nine bits of a word that the assembler reads. -/
def nineBits (word9 : UInt16) : UInt16 :=
  if isAddr word9 then addrWord (byteOf word9) else dataWord (byteOf word9)

/-- The words that led to the state, from the last address on. -/
def heardWords : Asm → List UInt16
  | .idle => []
  | .src dest => [addrWord dest]
  | .type dest src => [addrWord dest, dataWord src]
  | .seq dest src type => [addrWord dest, dataWord src, dataWord type]
  | .len dest src type seq => [addrWord dest, dataWord src, dataWord type, dataWord seq]
  | .payload dest src type seq len p _ _ =>
    addrWord dest :: ([src, type, seq, UInt8.ofNat len] ++ p).map dataWord
  | .crc f => leadWords f

theorem asmByte_heard (b : UInt8) :
    heardWords (asmByte s b).1 <:+ heardWords s ++ [dataWord b] := by
  cases s with
  | idle => exact List.nil_suffix
  | src dest => exact List.suffix_refl _
  | type dest src => exact List.suffix_refl _
  | seq dest src type => exact List.suffix_refl _
  | len dest src type seq =>
    unfold asmByte
    dsimp only
    split
    · split
      · rename_i hle hlt
        have hlen : UInt8.ofNat b.toNat = b := UInt8.ofNat_toNat
        simp [heardWords, hlen]
      · rename_i hle hlt
        have hzero : b = 0 := by
          apply UInt8.toNat_inj.mp
          have h0 : (0 : UInt8).toNat = 0 := rfl
          omega
        subst hzero
        exact List.suffix_refl _
    · exact List.nil_suffix
  | payload dest src type seq len p lt le =>
    unfold asmByte
    dsimp only
    split
    · simp [heardWords]
    · rename_i hmore
      have hlen : (p ++ [b]).length = len := by
        rw [List.length_append, List.length_singleton] at hmore ⊢
        omega
      unfold heardWords leadWords
      dsimp only
      rw [hlen]
      simp
  | crc f => exact List.nil_suffix

theorem asmFeed_heard (word9 : UInt16) :
    heardWords (asmFeed me s word9).1 <:+ heardWords s ++ [nineBits word9] := by
  unfold asmFeed nineBits
  split
  · dsimp only
    split
    · exact List.suffix_append _ _
    · exact List.nil_suffix
  · exact asmByte_heard s (byteOf word9)

/-- The state stems from the last words of the stream. -/
theorem stream_heard (ws : List UInt16) (s : Asm) (past : List UInt16)
    (hpast : heardWords s <:+ past) :
    heardWords (emits (asmStep me) s ws).1 <:+ past ++ ws.map nineBits := by
  induction ws generalizing s past with
  | nil => simpa [emits] using hpast
  | cons w ws ih =>
    have hnext : heardWords (asmStep me s w).1 <:+ past ++ [nineBits w] := by
      obtain ⟨front, hfront⟩ := hpast
      refine (asmFeed_heard me s w).trans ⟨front, ?_⟩
      rw [← hfront, List.append_assoc]
    have hrest := ih _ _ hnext
    rw [List.append_assoc] at hrest
    exact hrest

/-- What a receiver owes to the frames of the bus, from any state `s` of the assembler. -/
structure ReceivesFrames (me : UInt8) (s : Asm) : Prop where
  /-- A frame for this receiver is returned once, on its last word. -/
  arrives : ∀ f, listensTo me f.dest = true →
    emits (asmStep me) s (preamble :: leadWords f) = (.crc f, stale s) ∧
      emits (asmStep me) s (rs485FrameWords f) = (.idle, stale s ++ [f])
  /-- A frame for another receiver is not returned. -/
  ignores : ∀ f, listensTo me f.dest = false →
    emits (asmStep me) s (rs485FrameWords f) = (.idle, stale s)
  /-- A frame that any stream returns ends in its own checksum. -/
  checks : ∀ ws w f, (asmFeed me (emits (asmStep me) s ws).1 w).2 = some f →
    byteOf w = frameCrc f ∧ f.payload.length ≤ RS485_PAYLOAD_MAX
  /-- After a reset of the assembler, a frame is only returned when its words have just come in. -/
  wired : s = .idle → ∀ ws w f, (asmFeed me (emits (asmStep me) s ws).1 w).2 = some f →
    leadWords f ++ [dataWord (frameCrc f)] <:+ (ws ++ [w]).map nineBits

/-- From every state, and so after every noise, a receiver gets each frame that
is for it, once. The preamble may complete a frame whose checksum was missing. -/
theorem receives_frames (me : UInt8) (s : Asm) : ReceivesFrames me s := by
  refine ⟨?_, ?_, ?_, ?_⟩
  · intro f hme
    have hlead : emits (asmStep me) s (preamble :: leadWords f) = (.crc f, stale s) := by
      rw [emits, lead_arrives hme, preamble_stale]
      exact Prod.ext rfl (List.append_nil _)
    refine ⟨hlead, ?_⟩
    unfold rs485FrameWords
    rw [← List.cons_append, emits_append, hlead]
    simp [emits, asmStep_data, asmByte]
  · intro f hme
    unfold rs485FrameWords
    have hlead : emits (asmStep me) s (preamble :: leadWords f) = (.idle, stale s) := by
      rw [emits, lead_ignored hme, preamble_stale]
      exact Prod.ext rfl (List.append_nil _)
    rw [← List.cons_append, emits_append, hlead]
    simp [emits, asmStep_data, asmByte]
  · intro ws w f h
    exact ⟨(asmFeed_some h).2.2, f.len_le⟩
  · rintro rfl ws w f h
    obtain ⟨hstate, haddr, hbyte⟩ := asmFeed_some h
    have hheard := stream_heard me ws .idle [] List.nil_suffix
    rw [hstate, List.nil_append] at hheard
    have hword : nineBits w = dataWord (frameCrc f) := by
      unfold nineBits
      rw [haddr, hbyte]
      rfl
    obtain ⟨front, hfront⟩ := hheard
    refine ⟨front, ?_⟩
    rw [List.map_append, ← hfront, ← hword, List.append_assoc]
    rfl

/-- A POLL of the slave at address 5 whose checksum is 0xFF. -/
def cutPoll : Rs485Frame := txFrame 5 RS485_ADDR_MASTER RS485_FT_POLL 112 []

set_option maxRecDepth 8000 in
/-- The POLL is cut before its checksum. The preamble of the next frame is the
missing byte, so the words of one frame give two. -/
theorem preamble_completes_a_cut_frame :
    ¬ ∀ (me : UInt8) (s : Asm) (noise : List UInt16) (f : Rs485Frame),
      (∀ w ∈ noise, isAddr w = false) → listensTo me f.dest = true →
      (emits (asmStep me) (emits (asmStep me) s noise).1 (rs485FrameWords f)).2 = [f] := by
  intro hall
  have hone := hall 5 (emits (asmStep 5) .idle (leadWords cutPoll)).1 [] cutPoll (by simp) rfl
  have htwo : (emits (asmStep 5) (emits (asmStep 5) .idle (leadWords cutPoll)).1
      (rs485FrameWords cutPoll)).2.length = 2 := by
    decide
  rw [emits] at hone
  rw [hone] at htwo
  exact absurd htwo (by decide)

end motioncore.bus
