-- The commissioning record in flash (`flash_storage.c`): two rows at the top
-- of the memory, each with a magic word and a sequence number. A write erases
-- the row that does not count and then programs its first page. The rows are
-- a pair of numbered slots, and at worst a power loss costs the record that
-- was being written.
import Mathlib.Data.List.Basic
import Mathlib.Data.List.Induction
import Mathlib.Tactic.IntervalCases
import MotionCore.Lib.Bytes
import MotionCore.Lib.TwoSlots

open motioncore.bytes motioncore.twoslots

namespace motioncore.flash

def MAGIC : UInt32 := 0xC0FFEE00

def ROW_SIZE : Nat := 256

def PAGE_SIZE : Nat := 64

def FLASH_SIZE : Nat := 0x40000

def SLOT_A_ADDR : Nat := FLASH_SIZE - 2 * ROW_SIZE

def SLOT_B_ADDR : Nat := FLASH_SIZE - 1 * ROW_SIZE

/-! ## The controller of the flash -/

/-- The flash memory with the page buffer of its controller (NVMCTRL). -/
structure Nvm where
  mem : Nat → UInt8
  buffer : Nat → UInt8
  manw : Bool

/-- What the program does to the controller: its three commands, the choice of
manual writes, and a word stored to an address of the flash. -/
inductive NvmOp where
  | er (addr : Nat)
  | pbc
  | manw
  | store (addr : Nat) (w : UInt32)
  | wp (addr : Nat)

namespace Nvm

/-- Programming a page only clears bits, and empties the buffer. -/
def program (n : Nvm) (addr : Nat) : Nvm :=
  { n with
    mem := fun x =>
      if x / PAGE_SIZE = addr / PAGE_SIZE then n.mem x &&& n.buffer (x % PAGE_SIZE) else n.mem x
    buffer := fun _ => 0xFF }

def exec (n : Nvm) : NvmOp → Nvm
  | .er addr => { n with mem := fun x => if x / ROW_SIZE = addr / ROW_SIZE then 0xFF else n.mem x }
  | .pbc => { n with buffer := fun _ => 0xFF }
  | .manw => { n with manw := true }
  | .store addr w =>
    let n' := { n with
      buffer := fun x =>
        if addr % PAGE_SIZE ≤ x ∧ x < addr % PAGE_SIZE + 4 then
          (bytes32 w).getD (x - addr % PAGE_SIZE) 0
        else n.buffer x }
    -- Without manual writes the last word of a page starts the programming.
    if !n.manw && addr % PAGE_SIZE == PAGE_SIZE - 4 then n'.program addr else n'
  | .wp addr => n.program addr

def execAll (n : Nvm) (ops : List NvmOp) : Nvm := ops.foldl exec n

end Nvm

/-! ## Records -/

structure SlotT where
  magic : UInt32
  sequence : UInt32
  instance_id : UInt32
  commissioning_state : UInt8
  reserved : List UInt8
deriving DecidableEq

/-- The bytes of a `slot_t` in memory. -/
def SlotT.bytes (s : SlotT) : List UInt8 :=
  bytes32 s.magic ++ bytes32 s.sequence ++ bytes32 s.instance_id ++
    s.commissioning_state :: s.reserved

/-- `slot_at`: the bytes of the flash at an address, as a `slot_t`. -/
def slotAt (n : Nvm) (addr : Nat) : SlotT :=
  let p := (List.range 16).map fun i => n.mem (addr + i)
  { magic := le32 p
    sequence := le32 (p.drop 4)
    instance_id := le32 (p.drop 8)
    commissioning_state := p.getD 12 0
    reserved := p.drop 13 }

def slotValid (s : SlotT) : Bool := s.magic == MAGIC

structure CommissionBlob where
  instance_id : UInt32
  commissioning_state : UInt8
deriving DecidableEq, Repr

def SlotT.blob (s : SlotT) : CommissionBlob := ⟨s.instance_id, s.commissioning_state⟩

/-! ## The functions of the store -/

def flashStorageRead (n : Nvm) : Option CommissionBlob :=
  let a := slotAt n SLOT_A_ADDR
  let b := slotAt n SLOT_B_ADDR
  if slotValid a && slotValid b then
    some (if b.sequence ≤ a.sequence then a.blob else b.blob)
  else if slotValid a then some a.blob
  else if slotValid b then some b.blob
  else none

/-- The slot that a write takes, and the sequence number it gives. -/
def targetAndSeq (n : Nvm) : Nat × UInt32 :=
  let a := slotAt n SLOT_A_ADDR
  let b := slotAt n SLOT_B_ADDR
  if slotValid a && slotValid b then
    if b.sequence ≤ a.sequence then (SLOT_B_ADDR, a.sequence + 1)
    else (SLOT_A_ADDR, b.sequence + 1)
  else if slotValid a then (SLOT_B_ADDR, a.sequence + 1)
  else if slotValid b then (SLOT_A_ADDR, b.sequence + 1)
  else (SLOT_A_ADDR, 1)

def newSlot (seq : UInt32) (blob : CommissionBlob) : SlotT :=
  { magic := MAGIC
    sequence := seq
    instance_id := blob.instance_id
    commissioning_state := blob.commissioning_state
    reserved := [0xFF, 0xFF, 0xFF] }

/-- `nvm_write_page`: the words of the data go to the page buffer, and the
page is programmed from it. -/
def nvmWritePage (addr : Nat) (data : List UInt8) : List NvmOp :=
  let words := min ((data.length + 3) / 4) (PAGE_SIZE / 4)
  .pbc :: .manw ::
    (List.range words).map (fun i => .store (addr + 4 * i) (le32 (data.drop (4 * i)))) ++ [.wp addr]

/-- What `flash_storage_write` does to the controller. -/
def writeOps (n : Nvm) (blob : CommissionBlob) : List NvmOp :=
  let t := targetAndSeq n
  .er t.1 :: nvmWritePage t.1 (newSlot t.2 blob).bytes

/-- `flash_storage_write`, which reads its record back at the end. -/
def flashStorageWrite (n : Nvm) (blob : CommissionBlob) : Nvm × Bool :=
  let t := targetAndSeq n
  let n' := n.execAll (writeOps n blob)
  let check := slotAt n' t.1
  (n', check.magic == MAGIC && check.sequence == t.2 && check.instance_id == blob.instance_id &&
    check.commissioning_state == blob.commissioning_state)

/-! ## Power loss -/

/-- A write that runs to its end, or one that the power cuts after `k`
operations. The restarted controller comes up with any buffer and mode. -/
inductive StoreOp where
  | write (blob : CommissionBlob)
  | cut (blob : CommissionBlob) (k : Nat) (buffer : Nat → UInt8) (manw : Bool)

def storeStep (n : Nvm) : StoreOp → Nvm
  | .write blob => (flashStorageWrite n blob).1
  | .cut blob k buffer manw =>
    { n.execAll ((writeOps n blob).take k) with buffer, manw }

def storeRun (n : Nvm) (ops : List StoreOp) : Nvm := ops.foldl storeStep n

/-- A write has eight operations: the erase, the choice of the mode, four words
and the two commands of the page. -/
def WRITE_OPS : Nat := 8

/-- The record of a write that came to its last NVM command. -/
def StoreOp.completed : StoreOp → Option CommissionBlob
  | .write blob => some blob
  | .cut blob k _ _ => if WRITE_OPS ≤ k then some blob else none

/-! ## The rows of the flash -/

def addrOf : Side → Nat
  | .a => SLOT_A_ADDR
  | .b => SLOT_B_ADDR

def other : Side → Side
  | .a => .b
  | .b => .a

/-- The bytes that `slot_at` reads. -/
def slotBytes (n : Nvm) (side : Side) : List UInt8 :=
  (List.range 16).map fun i => n.mem (addrOf side + i)

theorem slotAt_congr {n m : Nvm} {side : Side}
    (h : ∀ i < 16, n.mem (addrOf side + i) = m.mem (addrOf side + i)) :
    slotAt n (addrOf side) = slotAt m (addrOf side) := by
  have hb : slotBytes n side = slotBytes m side := by
    apply List.map_congr_left
    intro i hi
    exact h i (List.mem_range.mp hi)
  unfold slotBytes at hb
  simp only [slotAt, hb]

section

variable {side : Side} {i : Nat} (hi : i < 16)

include hi

theorem own_row : (addrOf side + i) / ROW_SIZE = addrOf side / ROW_SIZE := by
  cases side with
  | a => simp only [addrOf, SLOT_A_ADDR, FLASH_SIZE, ROW_SIZE]; omega
  | b => simp only [addrOf, SLOT_B_ADDR, FLASH_SIZE, ROW_SIZE]; omega

theorem own_page : (addrOf side + i) / PAGE_SIZE = addrOf side / PAGE_SIZE := by
  cases side with
  | a => simp only [addrOf, SLOT_A_ADDR, FLASH_SIZE, ROW_SIZE, PAGE_SIZE]; omega
  | b => simp only [addrOf, SLOT_B_ADDR, FLASH_SIZE, ROW_SIZE, PAGE_SIZE]; omega

theorem page_offset : (addrOf side + i) % PAGE_SIZE = i := by
  cases side with
  | a => simp only [addrOf, SLOT_A_ADDR, FLASH_SIZE, ROW_SIZE, PAGE_SIZE]; omega
  | b => simp only [addrOf, SLOT_B_ADDR, FLASH_SIZE, ROW_SIZE, PAGE_SIZE]; omega

theorem other_row : (addrOf (other side) + i) / ROW_SIZE ≠ addrOf side / ROW_SIZE := by
  cases side with
  | a => simp only [other, addrOf, SLOT_A_ADDR, SLOT_B_ADDR, FLASH_SIZE, ROW_SIZE]; omega
  | b => simp only [other, addrOf, SLOT_A_ADDR, SLOT_B_ADDR, FLASH_SIZE, ROW_SIZE]; omega

theorem other_page : (addrOf (other side) + i) / PAGE_SIZE ≠ addrOf side / PAGE_SIZE := by
  cases side with
  | a => simp only [other, addrOf, SLOT_A_ADDR, SLOT_B_ADDR, FLASH_SIZE, ROW_SIZE, PAGE_SIZE]; omega
  | b => simp only [other, addrOf, SLOT_A_ADDR, SLOT_B_ADDR, FLASH_SIZE, ROW_SIZE, PAGE_SIZE]; omega

end

/-! ## The operations of one write -/

/-- The operations of a write of four words to a slot. -/
def slotOps (side : Side) (w0 w1 w2 w3 : UInt32) : List NvmOp :=
  [.er (addrOf side), .pbc, .manw, .store (addrOf side) w0, .store (addrOf side + 4) w1,
    .store (addrOf side + 8) w2, .store (addrOf side + 12) w3, .wp (addrOf side)]

section

variable (n : Nvm) (side : Side) (w0 w1 w2 w3 : UInt32)

/-- Until the page is programmed, only the erase has changed the memory. -/
theorem mem_cut {k : Nat} (h0 : 0 < k) (h8 : k < WRITE_OPS) :
    (n.execAll ((slotOps side w0 w1 w2 w3).take k)).mem = (n.exec (.er (addrOf side))).mem := by
  unfold WRITE_OPS at h8
  interval_cases k <;> rfl

theorem mem_filled (x : Nat) : (n.execAll (slotOps side w0 w1 w2 w3)).mem x =
      if x / PAGE_SIZE = addrOf side / PAGE_SIZE then
        (n.exec (.er (addrOf side))).mem x &&&
          (n.execAll ((slotOps side w0 w1 w2 w3).take 7)).buffer (x % PAGE_SIZE)
      else (n.exec (.er (addrOf side))).mem x := rfl

/-- A write leaves the other slot as it is, however far it comes. -/
theorem slotAt_other (k : Nat) :
    slotAt (n.execAll ((slotOps side w0 w1 w2 w3).take k)) (addrOf (other side)) =
      slotAt n (addrOf (other side)) := by
  apply slotAt_congr
  intro i hi
  have her : (n.exec (.er (addrOf side))).mem (addrOf (other side) + i) =
      n.mem (addrOf (other side) + i) := if_neg (other_row hi)
  rcases Nat.eq_zero_or_pos k with rfl | hpos
  · rfl
  · by_cases hk : k < WRITE_OPS
    · rw [mem_cut n side w0 w1 w2 w3 hpos hk, her]
    · rw [List.take_of_length_le (by simpa [slotOps, WRITE_OPS] using hk), mem_filled,
        if_neg (other_page hi), her]

theorem slotBytes_erased {k : Nat} (h0 : 0 < k) (h8 : k < WRITE_OPS) :
    slotBytes (n.execAll ((slotOps side w0 w1 w2 w3).take k)) side = List.replicate 16 0xFF := by
  have h : ∀ i ∈ List.range 16,
      (n.execAll ((slotOps side w0 w1 w2 w3).take k)).mem (addrOf side + i) = 0xFF := by
    intro i hi
    rw [mem_cut n side w0 w1 w2 w3 h0 h8]
    exact if_pos (own_row (List.mem_range.mp hi))
  rw [slotBytes, List.map_congr_left h]
  rfl

theorem and_ff (b : UInt8) : 0xFF &&& b = b := by
  apply UInt8.toBitVec_inj.mp
  exact BitVec.allOnes_and

theorem buffer_filled {i : Nat} (hi : i < 16) :
    (n.execAll ((slotOps side w0 w1 w2 w3).take 7)).buffer i =
      (bytes32 w0 ++ bytes32 w1 ++ bytes32 w2 ++ bytes32 w3).getD i 0 := by
  have h0 : addrOf side % PAGE_SIZE = 0 := page_offset (i := 0) (by omega)
  have h4 : (addrOf side + 4) % PAGE_SIZE = 4 := page_offset (by omega)
  have h8 : (addrOf side + 8) % PAGE_SIZE = 8 := page_offset (by omega)
  have h12 : (addrOf side + 12) % PAGE_SIZE = 12 := page_offset (by omega)
  simp only [slotOps, List.take_succ_cons, List.take_zero, Nvm.execAll, List.foldl_cons,
    List.foldl_nil, Nvm.exec, Bool.not_true, Bool.false_and, Bool.false_eq_true, if_false,
    h0, h4, h8, h12]
  interval_cases i <;> rfl

theorem slotBytes_filled : slotBytes (n.execAll (slotOps side w0 w1 w2 w3)) side =
      bytes32 w0 ++ bytes32 w1 ++ bytes32 w2 ++ bytes32 w3 := by
  have h : ∀ i ∈ List.range 16,
      (n.execAll (slotOps side w0 w1 w2 w3)).mem (addrOf side + i) =
        (bytes32 w0 ++ bytes32 w1 ++ bytes32 w2 ++ bytes32 w3).getD i 0 := by
    intro i hi
    have hi16 := List.mem_range.mp hi
    have her : (n.exec (.er (addrOf side))).mem (addrOf side + i) = 0xFF := if_pos (own_row hi16)
    rw [mem_filled, if_pos (own_page hi16), her, and_ff, page_offset hi16, buffer_filled]
    exact hi16
  rw [slotBytes, List.map_congr_left h]
  rfl

end

/-! ## The rows as numbered slots -/

/-- What a slot holds for the store. -/
def held (s : SlotT) : Option (ℕ × CommissionBlob) :=
  if slotValid s then some (s.sequence.toNat, s.blob) else none

/-- The two rows as a pair of numbered slots. -/
def slotsOf (n : Nvm) : Slots CommissionBlob :=
  ⟨held (slotAt n SLOT_A_ADDR), held (slotAt n SLOT_B_ADDR)⟩

theorem read_newest (n : Nvm) : flashStorageRead n = (slotsOf n).newest.map Prod.snd := by
  unfold flashStorageRead slotsOf held Slots.newest
  dsimp only
  cases slotValid (slotAt n SLOT_A_ADDR) with
  | false => cases slotValid (slotAt n SLOT_B_ADDR) <;> rfl
  | true =>
    cases slotValid (slotAt n SLOT_B_ADDR) with
    | false => rfl
    | true =>
      simp only [Bool.and_self, if_true, UInt32.le_iff_toNat_le]
      split <;> rfl

theorem target_eq (n : Nvm) : (targetAndSeq n).1 = addrOf (slotsOf n).target := by
  unfold targetAndSeq slotsOf held Slots.target
  dsimp only
  cases slotValid (slotAt n SLOT_A_ADDR) with
  | false => cases slotValid (slotAt n SLOT_B_ADDR) <;> rfl
  | true =>
    cases slotValid (slotAt n SLOT_B_ADDR) with
    | false => rfl
    | true =>
      simp only [Bool.and_self, if_true, UInt32.le_iff_toNat_le]
      split <;> rfl

theorem toNat_succ {s : UInt32} (h : s.toNat + 1 < 2 ^ 32) : (s + 1).toNat = s.toNat + 1 := by
  rw [UInt32.toNat_add]
  exact Nat.mod_eq_of_lt h

/-- Until the sequence number wraps, a write gives the next number. -/
theorem seq_eq {n : Nvm} (h : (slotsOf n).next < 2 ^ 32) :
    (targetAndSeq n).2.toNat = (slotsOf n).next := by
  revert h
  unfold targetAndSeq slotsOf held Slots.next Slots.newest
  dsimp only
  cases slotValid (slotAt n SLOT_A_ADDR) with
  | false =>
    cases slotValid (slotAt n SLOT_B_ADDR) with
    | false => exact fun _ => rfl
    | true => exact toNat_succ
  | true =>
    cases slotValid (slotAt n SLOT_B_ADDR) with
    | false => exact toNat_succ
    | true =>
      simp only [Bool.and_self, if_true, UInt32.le_iff_toNat_le]
      by_cases hle : (slotAt n SLOT_B_ADDR).sequence.toNat ≤ (slotAt n SLOT_A_ADDR).sequence.toNat
      · simp only [hle, if_true]
        exact toNat_succ
      · simp only [hle, if_false]
        exact toNat_succ

theorem writeOps_eq (n : Nvm) (blob : CommissionBlob) :
    writeOps n blob = slotOps (slotsOf n).target MAGIC (targetAndSeq n).2 blob.instance_id
      (le32 [blob.commissioning_state, 0xFF, 0xFF, 0xFF]) := by
  have hlen : (newSlot (targetAndSeq n).2 blob).bytes.length = 16 := rfl
  have hw : min ((16 + 3) / 4) (PAGE_SIZE / 4) = 4 := rfl
  have hr : List.range 4 = [0, 1, 2, 3] := rfl
  have h0 : le32 ((newSlot (targetAndSeq n).2 blob).bytes.drop 0) = MAGIC := le32_bytes32 MAGIC _
  have h4 : le32 ((newSlot (targetAndSeq n).2 blob).bytes.drop 4) = (targetAndSeq n).2 :=
    le32_bytes32 (targetAndSeq n).2 _
  have h8 : le32 ((newSlot (targetAndSeq n).2 blob).bytes.drop 8) = blob.instance_id :=
    le32_bytes32 blob.instance_id _
  have h12 : (newSlot (targetAndSeq n).2 blob).bytes.drop 12 =
      [blob.commissioning_state, 0xFF, 0xFF, 0xFF] := rfl
  simp only [writeOps, nvmWritePage, hlen, hw, hr, List.map_cons, List.map_nil, Nat.mul_zero,
    Nat.mul_one, Nat.reduceMul, h0, h4, h8, h12, Nat.add_zero, List.cons_append, List.nil_append]
  rw [slotOps, ← target_eq]

theorem writeOps_length (n : Nvm) (blob : CommissionBlob) :
    (writeOps n blob).length = WRITE_OPS := by
  rw [writeOps_eq]
  rfl

theorem slotAt_erased (n : Nvm) (blob : CommissionBlob) {k : Nat} (h0 : 0 < k)
    (h8 : k < WRITE_OPS) :
    held (slotAt (n.execAll ((writeOps n blob).take k)) (addrOf (slotsOf n).target)) = none := by
  have h := slotBytes_erased n (slotsOf n).target MAGIC (targetAndSeq n).2 blob.instance_id
    (le32 [blob.commissioning_state, 0xFF, 0xFF, 0xFF]) h0 h8
  rw [← writeOps_eq, slotBytes] at h
  simp only [slotAt, h]
  rfl

theorem slotAt_filled (n : Nvm) (blob : CommissionBlob) :
    slotAt (n.execAll (writeOps n blob)) (addrOf (slotsOf n).target) =
      newSlot (targetAndSeq n).2 blob := by
  have h := slotBytes_filled n (slotsOf n).target MAGIC (targetAndSeq n).2 blob.instance_id
    (le32 [blob.commissioning_state, 0xFF, 0xFF, 0xFF])
  rw [← writeOps_eq, slotBytes, bytes32_le32] at h
  simp only [slotAt, h]
  have h0 : le32 (bytes32 MAGIC ++ bytes32 (targetAndSeq n).2 ++ bytes32 blob.instance_id ++
      [blob.commissioning_state, 0xFF, 0xFF, 0xFF]) = MAGIC := le32_bytes32 MAGIC _
  have h4 : le32 ((bytes32 MAGIC ++ bytes32 (targetAndSeq n).2 ++ bytes32 blob.instance_id ++
      [blob.commissioning_state, 0xFF, 0xFF, 0xFF]).drop 4) = (targetAndSeq n).2 :=
    le32_bytes32 (targetAndSeq n).2 _
  have h8 : le32 ((bytes32 MAGIC ++ bytes32 (targetAndSeq n).2 ++ bytes32 blob.instance_id ++
      [blob.commissioning_state, 0xFF, 0xFF, 0xFF]).drop 8) = blob.instance_id :=
    le32_bytes32 blob.instance_id _
  rw [h0, h4, h8]
  rfl

/-- How far a write comes with `k` of its operations. -/
def stageOf (k : Nat) : Stage :=
  if k = 0 then .untouched else if k < WRITE_OPS then .erased else .filled

theorem stageOf_filled {k : Nat} : stageOf k = .filled ↔ WRITE_OPS ≤ k := by
  unfold stageOf
  by_cases h0 : k = 0
  · simp [h0, WRITE_OPS]
  · by_cases hk : k < WRITE_OPS
    · simp [h0, hk, Nat.not_le.mpr hk]
    · simp [h0, hk, Nat.not_lt.mp hk]

theorem slotsOf_set {n n' : Nvm} {side : Side} {v : Option (ℕ × CommissionBlob)}
    (hown : held (slotAt n' (addrOf side)) = v)
    (hother : slotAt n' (addrOf (other side)) = slotAt n (addrOf (other side))) :
    slotsOf n' = (slotsOf n).set side v := by
  subst hown
  cases side with
  | a => exact congrArg (Slots.mk _) (congrArg held hother)
  | b => exact congrArg (Slots.mk · _) (congrArg held hother)

/-- The rows follow the pair of slots, whichever operation is the last. -/
theorem cut_refines (n : Nvm) (blob : CommissionBlob) (k : Nat) (h : (slotsOf n).next < 2 ^ 32) :
    slotsOf (n.execAll ((writeOps n blob).take k)) = (slotsOf n).write blob (stageOf k) := by
  have hother : slotAt (n.execAll ((writeOps n blob).take k)) (addrOf (other (slotsOf n).target)) =
      slotAt n (addrOf (other (slotsOf n).target)) := by
    rw [writeOps_eq]
    exact slotAt_other ..
  rcases Nat.eq_zero_or_pos k with rfl | hpos
  · rfl
  · by_cases hk : k < WRITE_OPS
    · rw [stageOf, if_neg hpos.ne', if_pos hk]
      exact slotsOf_set (slotAt_erased n blob hpos hk) hother
    · rw [stageOf, if_neg hpos.ne', if_neg hk]
      refine slotsOf_set ?_ hother
      rw [List.take_of_length_le (by rw [writeOps_length]; omega), slotAt_filled, ← seq_eq h]
      rfl

/-! ## Every run -/

namespace StoreOp

def blob : StoreOp → CommissionBlob
  | .write blob => blob
  | .cut blob .. => blob

def stage : StoreOp → Stage
  | .write _ => .filled
  | .cut _ k .. => stageOf k

/-- The power stayed on. -/
def whole : StoreOp → Bool
  | .write _ => true
  | .cut .. => false

theorem completed_eq (op : StoreOp) :
    op.completed = if op.stage = .filled then some op.blob else none := by
  cases op with
  | write blob => rfl
  | cut blob k buffer manw =>
    simp only [completed, stage, stageOf_filled]
    rfl

theorem completed_whole {op : StoreOp} (h : op.whole = true) : op.completed = some op.blob := by
  cases op with
  | write blob => rfl
  | cut blob k buffer manw => cases h

end StoreOp

theorem step_refines (n : Nvm) (op : StoreOp) (h : (slotsOf n).next < 2 ^ 32) :
    slotsOf (storeStep n op) = (slotsOf n).write op.blob op.stage := by
  cases op with
  | write blob =>
    have := cut_refines n blob WRITE_OPS h
    rwa [List.take_of_length_le (writeOps_length n blob).le] at this
  | cut blob k buffer manw => exact cut_refines n blob k h

theorem storeRun_snoc (n : Nvm) (ops : List StoreOp) (op : StoreOp) :
    storeRun n (ops ++ [op]) = storeStep (storeRun n ops) op := by
  simp [storeRun, List.foldl_append]

/-- The record that counts after a run, and the numbers that the run has used. -/
theorem run_newest {n : Nvm} (hfresh : flashStorageRead n = none) (ops : List StoreOp)
    (hlen : ops.length < 2 ^ 32 - 1) : (slotsOf (storeRun n ops)).Within ops.length ∧
      (slotsOf (storeRun n ops)).newest.map Prod.snd = (ops.filterMap StoreOp.completed).getLast? := by
  induction ops using List.reverseRecOn with
  | nil =>
    rw [read_newest] at hfresh
    exact ⟨Slots.within_of_empty (Option.map_eq_none_iff.mp hfresh) 0, hfresh⟩
  | append_singleton ops op ih =>
    rw [List.length_append, List.length_singleton] at hlen
    obtain ⟨hw, hn⟩ := ih (by omega)
    have hnext : (slotsOf (storeRun n ops)).next < 2 ^ 32 := by
      have := hw.next
      omega
    rw [storeRun_snoc, step_refines _ _ hnext, List.length_append, List.length_singleton]
    refine ⟨hw.write _ _, ?_⟩
    rw [List.filterMap_append, List.filterMap_cons, List.filterMap_nil, StoreOp.completed_eq]
    cases op.stage with
    | untouched => simpa [Slots.write] using hn
    | erased => simpa [Slots.newest_erased] using hn
    | filled => simp [Slots.newest_filled]

/-- After any run of writes and power losses the store reads the last record
that was completed. While the power stays on, it is the newest one. -/
theorem a_power_loss_costs_one_record (n : Nvm) (hfresh : flashStorageRead n = none)
    (ops : List StoreOp) (hlen : ops.length < 2 ^ 32 - 1) :
    flashStorageRead (storeRun n ops) = (ops.filterMap StoreOp.completed).getLast? ∧
      ((∀ op ∈ ops, op.whole) →
        flashStorageRead (storeRun n ops) = (ops.map StoreOp.blob).getLast?) := by
  have hread : flashStorageRead (storeRun n ops) = (ops.filterMap StoreOp.completed).getLast? := by
    rw [read_newest]
    exact (run_newest hfresh ops hlen).2
  refine ⟨hread, fun hwhole => ?_⟩
  rw [hread, ← List.filterMap_eq_map]
  congr 1
  apply List.filterMap_congr
  intro op hop
  exact StoreOp.completed_whole (hwhole op hop)

set_option maxRecDepth 4000 in
/-- Two writes on an erased flash, and a third that the power cuts in the middle. -/
theorem a_power_loss_costs_one_record_twice :
    let n : Nvm := ⟨fun _ => 0xFF, fun _ => 0, false⟩
    let ops : List StoreOp :=
      [.write ⟨7, 1⟩, .write ⟨8, 1⟩, .cut ⟨9, 0⟩ 5 (fun _ => 0) true]
    flashStorageRead (storeRun n ops) = some ⟨8, 1⟩ := by
  intro n ops
  exact (a_power_loss_costs_one_record n (by decide) ops (by decide)).1

end motioncore.flash
