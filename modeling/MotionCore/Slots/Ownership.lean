-- Who owns what a slot points to. A slot is a union of a pointer and numbers, and an array beside
-- the slots says which of them hold a block of the allocator. The setters of numbers do not look
-- at this array.
import MotionCore.Lib.Ledger

open motioncore.ledger

namespace motioncore.ownership

/-! ## Slots -/

/-- What stands in a slot, with where it comes from. A block of the allocator is known by its
number; blocks are not null. -/
inductive Word where
  | null
  | block (b : Nat)
  | outside (ptr : UInt64)
  | number (bits : UInt64)
deriving DecidableEq

/-- Whether the slot is a pointer other than NULL. -/
def Word.isPtr : Word → Bool
  | .null => false
  | .block _ => true
  | .outside ptr => ptr ≠ 0
  | .number bits => bits ≠ 0

inductive SlotFlag where
  | NONE
  | ALLOCATED
  | EXTERNAL
deriving DecidableEq

structure Slot where
  word : Word
  flag : SlotFlag
deriving DecidableEq

/-- `foreign` has what the allocator is given to free that is no block of its own. -/
structure Inst where
  slots : List Slot
  in_pointer_call : Bool
  pointer_base : UInt8
  next_block : Nat
  calls : List Call
  foreign : List Word

namespace Inst

def pointer_count (s : Inst) : Nat := s.slots.length

def slot (s : Inst) (i : Nat) : Slot := s.slots.getD i ⟨.null, .NONE⟩

def setSlot (s : Inst) (i : Nat) (word : Word) (flag : SlotFlag) : Inst :=
  { s with slots := s.slots.set i ⟨word, flag⟩ }

def free (s : Inst) : Word → Inst
  | .block b => { s with calls := s.calls ++ [.free b] }
  | word => { s with foreign := s.foreign ++ [word] }

/-- A slot that is marked as allocated is freed, unless it is null. -/
def freeSlot (s : Inst) (slot : Slot) : Inst :=
  if slot.flag = .ALLOCATED ∧ slot.word.isPtr then s.free slot.word else s

def malloc (s : Inst) : Inst :=
  { s with next_block := s.next_block + 1, calls := s.calls ++ [.malloc s.next_block] }

/-! ## The functions -/

/-- The place of `s_expr_get_pointer_slot`, in 16 bits. -/
def s_expr_get_pointer_slot (s : Inst) (param_index : UInt16) : Option Nat :=
  if !s.in_pointer_call then none
  else
    let ptr_idx := (s.pointer_base.toUInt16 + param_index).toNat
    if s.pointer_count ≤ ptr_idx then none else some ptr_idx

def tree_slot (s : Inst) (index : UInt16) : Option Nat :=
  if s.pointer_count ≤ index.toNat then none else some index.toNat

/-- What both functions that allocate do at a slot. `ok` is whether the allocator has a block. -/
def allocAt (s : Inst) (ok : Bool) (i : Nat) : Inst :=
  let s := s.freeSlot (s.slot i)
  if ok then s.malloc.setSlot i (.block s.next_block) .ALLOCATED else s.setSlot i .null .NONE

def setPtrAt (s : Inst) (ptr : UInt64) (i : Nat) : Inst :=
  (s.freeSlot (s.slot i)).setSlot i (.outside ptr) .EXTERNAL

def s_expr_pointer_alloc (s : Inst) (param_index : UInt16) (ok : Bool) : Inst :=
  ((s.s_expr_get_pointer_slot param_index).map (s.allocAt ok)).getD s

def s_expr_pointer_free (s : Inst) (param_index : UInt16) : Inst :=
  match s.s_expr_get_pointer_slot param_index with
  | none => s
  | some i =>
    if !(s.slot i).word.isPtr then s
    else if (s.slot i).flag ≠ .ALLOCATED then s
    else (s.free (s.slot i).word).setSlot i .null .NONE

def s_expr_set_ptr (s : Inst) (param_index : UInt16) (ptr : UInt64) : Inst :=
  ((s.s_expr_get_pointer_slot param_index).map (s.setPtrAt ptr)).getD s

def s_expr_tree_slot_alloc (s : Inst) (index : UInt16) (ok : Bool) : Inst :=
  ((s.tree_slot index).map (s.allocAt ok)).getD s

def s_expr_tree_slot_free (s : Inst) (index : UInt16) : Inst :=
  match s.tree_slot index with
  | none => s
  | some i =>
    if (s.slot i).flag ≠ .ALLOCATED then s
    else if (s.slot i).word.isPtr then (s.free (s.slot i).word).setSlot i .null .NONE
    else s.setSlot i (s.slot i).word .NONE

def s_expr_tree_slot_set_ptr (s : Inst) (index : UInt16) (ptr : UInt64) : Inst :=
  ((s.tree_slot index).map (s.setPtrAt ptr)).getD s

def number_slot (s : Inst) : Option Nat :=
  if !s.in_pointer_call then none
  else if s.pointer_count ≤ s.pointer_base.toNat then none
  else some s.pointer_base.toNat

/-- A number goes into the slot, whatever its flag is. -/
def setNumber (s : Inst) (bits : UInt64) : Inst :=
  (s.number_slot.map fun i => s.setSlot i (.number bits) (s.slot i).flag).getD s

def s_expr_set_u64 (s : Inst) (val : UInt64) : Inst := s.setNumber val

def s_expr_set_i64 (s : Inst) (val : Int64) : Inst := s.setNumber val.toUInt64

/-- A double is known by its bits. -/
def s_expr_set_f64 (s : Inst) (bits : UInt64) : Inst := s.setNumber bits

/-- The slots that are freed by `s_expr_tree_free`. -/
def s_expr_tree_free (s : Inst) : Inst := s.slots.foldl freeSlot s

end Inst

/-! ## Runs -/

/-- A call with what the allocator answers. `context` is what the engine does around the function
of a `pt_m_call`. -/
inductive Op where
  | context (in_pointer_call : Bool) (pointer_base : UInt8)
  | pointer_alloc (param_index : UInt16) (ok : Bool)
  | pointer_free (param_index : UInt16)
  | set_ptr (param_index : UInt16) (ptr : UInt64)
  | tree_slot_alloc (index : UInt16) (ok : Bool)
  | tree_slot_free (index : UInt16)
  | tree_slot_set_ptr (index : UInt16) (ptr : UInt64)
  | set_u64 (val : UInt64)
  | set_i64 (val : Int64)
  | set_f64 (bits : UInt64)

def Op.isNumber : Op → Bool
  | .set_u64 _ | .set_i64 _ | .set_f64 _ => true
  | _ => false

def step (s : Inst) : Op → Inst
  | .context in_pointer_call pointer_base =>
    { s with in_pointer_call := in_pointer_call, pointer_base := pointer_base }
  | .pointer_alloc param_index ok => s.s_expr_pointer_alloc param_index ok
  | .pointer_free param_index => s.s_expr_pointer_free param_index
  | .set_ptr param_index ptr => s.s_expr_set_ptr param_index ptr
  | .tree_slot_alloc index ok => s.s_expr_tree_slot_alloc index ok
  | .tree_slot_free index => s.s_expr_tree_slot_free index
  | .tree_slot_set_ptr index ptr => s.s_expr_tree_slot_set_ptr index ptr
  | .set_u64 val => s.s_expr_set_u64 val
  | .set_i64 val => s.s_expr_set_i64 val
  | .set_f64 bits => s.s_expr_set_f64 bits

def run (s : Inst) (ops : List Op) : Inst := ops.foldl step s

/-- The instance as `s_expr_tree_create` makes it. -/
def created (pointer_count : Nat) : Inst where
  slots := List.replicate pointer_count ⟨.null, .NONE⟩
  in_pointer_call := false
  pointer_base := 0
  next_block := 0
  calls := []
  foreign := []

def Op.failedAt (s : Inst) : Op → Option Nat
  | .pointer_alloc param_index false => s.s_expr_get_pointer_slot param_index
  | .tree_slot_alloc index false => s.tree_slot index
  | _ => none

/-- After the calls and `s_expr_tree_free` every block has been freed once, and nothing else has
been freed. An allocation that fails leaves its slot null and unmarked. -/
structure Sound (pointer_count : Nat) (ops : List Op) : Prop where
  released : ReleasedOnce (run (created pointer_count) ops).s_expr_tree_free.calls
  own : (run (created pointer_count) ops).s_expr_tree_free.foreign = []
  unmarked : ∀ before op rest, ops = before ++ op :: rest →
    ∀ i, op.failedAt (run (created pointer_count) before) = some i →
      (step (run (created pointer_count) before) op).slot i = ⟨.null, .NONE⟩

/-- A number is stored over a block. -/
def overwrites (s : Inst) (op : Op) : Bool :=
  op.isNumber && s.number_slot.any fun i => (s.slot i).flag = .ALLOCATED

/-- No number is ever stored in a slot that is marked as allocated. -/
def Careful : Inst → List Op → Prop
  | _, [] => True
  | s, op :: ops => overwrites s op = false ∧ Careful (step s op) ops

/-! ## Ownership -/

def Slot.owned (slot : Slot) : Option Nat :=
  match slot.flag, slot.word with
  | .ALLOCATED, .block b => some b
  | _, _ => none

def Inst.owned (s : Inst) : List Nat := s.slots.filterMap Slot.owned

/-- The slots that are marked have the blocks that are out, each one of them. -/
structure Owns (s : Inst) : Prop where
  holding : Holding s.calls s.owned
  below : ∀ b, .malloc b ∈ s.calls → b < s.next_block
  foreign : s.foreign = []
  marked : ∀ slot ∈ s.slots, slot.flag = .ALLOCATED ↔ ∃ b, slot.word = .block b

theorem created_owns (n : Nat) : Owns (created n) where
  holding := by
    have hnone : (created n).owned = [] := by
      simp [Inst.owned, created, List.filterMap_replicate, Slot.owned]
    rw [hnone]
    exact holding_nil
  below b h := by simp [created] at h
  foreign := rfl
  marked slot h := by
    obtain rfl := List.eq_of_mem_replicate h
    simp

section

variable {s : Inst} {i : Nat}

theorem slot_mem (hi : i < s.pointer_count) : s.slot i ∈ s.slots := by
  have hlt : i < s.slots.length := hi
  rw [Inst.slot, List.getD_eq_getElem?_getD, List.getElem?_eq_getElem hlt]
  exact List.getElem_mem hlt

theorem others_owned (hi : i < s.pointer_count) : ∃ rest, s.owned.Perm ((s.slot i).owned.toList ++ rest) ∧
    ∀ word flag, (s.setSlot i word flag).owned.Perm ((⟨word, flag⟩ : Slot).owned.toList ++ rest) := by
  have hlt : i < s.slots.length := hi
  have hsplit : ∀ slot, ((s.slots.set i slot).filterMap Slot.owned).Perm
      (slot.owned.toList ++ ((s.slots.take i).filterMap Slot.owned ++ (s.slots.drop (i + 1)).filterMap Slot.owned)) := by
    intro slot
    rw [List.set_eq_take_append_cons_drop, if_pos hlt, List.filterMap_append, List.filterMap_cons]
    cases slot.owned with
    | none => exact List.Perm.refl _
    | some b => exact List.perm_middle
  refine ⟨_, ?_, fun word flag => hsplit _⟩
  have hself : s.slots.set i (s.slot i) = s.slots := by
    rw [Inst.slot, List.getD_eq_getElem?_getD, List.getElem?_eq_getElem hlt]
    exact List.set_getElem_self hlt
  have hold := hsplit (s.slot i)
  rwa [hself] at hold

theorem setSlot_marked (h : Owns s) (i : Nat) {word : Word} {flag : SlotFlag}
    (hnew : flag = .ALLOCATED ↔ ∃ b, word = .block b) :
    ∀ slot ∈ (s.setSlot i word flag).slots, slot.flag = .ALLOCATED ↔ ∃ b, slot.word = .block b := by
  intro slot hslot
  rcases List.mem_or_eq_of_mem_set hslot with hold | rfl
  · exact h.marked slot hold
  · exact hnew

/-- The slot is freed if it owns a block, and then nothing of what is out is in it. -/
theorem freeSlot_holding (h : Owns s) (hi : i < s.pointer_count) : ∃ rest,
    Holding (s.freeSlot (s.slot i)).calls rest ∧ (s.freeSlot (s.slot i)).foreign = [] ∧
    (∀ b, .malloc b ∈ (s.freeSlot (s.slot i)).calls → b < s.next_block) ∧
    (s.freeSlot (s.slot i)).slots = s.slots ∧ (s.freeSlot (s.slot i)).next_block = s.next_block ∧
    ∀ word flag, (s.setSlot i word flag).owned.Perm ((⟨word, flag⟩ : Slot).owned.toList ++ rest) := by
  obtain ⟨rest, hold, hnew⟩ := others_owned hi
  have hholding := h.holding.perm hold
  unfold Inst.freeSlot
  split
  · next hmarked =>
    obtain ⟨b, hb⟩ := (h.marked _ (slot_mem hi)).mp hmarked.1
    have howned : (s.slot i).owned = some b := by simp [Slot.owned, hmarked.1, hb]
    rw [howned] at hholding
    rw [hb]
    refine ⟨rest, hholding.free, h.foreign, fun a ha => h.below a ?_, rfl, rfl, hnew⟩
    simpa [Inst.free] using ha
  · next hnot =>
    have hnone : (s.slot i).owned = none := by
      unfold Slot.owned
      split
      · next hflag hword => exact absurd ⟨hflag, by simp [hword, Word.isPtr]⟩ hnot
      · rfl
    rw [hnone] at hholding
    exact ⟨rest, hholding, h.foreign, h.below, rfl, rfl, hnew⟩

/-- A slot gets something that is not owned, after what it had was freed. -/
theorem release_owns (h : Owns s) (hi : i < s.pointer_count) {word : Word} {flag : SlotFlag}
    (hflag : flag ≠ .ALLOCATED) (hword : ∀ b, word ≠ .block b) :
    Owns ((s.freeSlot (s.slot i)).setSlot i word flag) := by
  obtain ⟨rest, hholding, hforeign, hbelow, hslots, hnext, hnew⟩ := freeSlot_holding h hi
  have hnone : (⟨word, flag⟩ : Slot).owned = none := by
    unfold Slot.owned
    split
    · next heq _ => exact absurd heq hflag
    · rfl
  refine ⟨hholding.perm ?_, fun b hb => hnext ▸ hbelow b hb, hforeign, ?_⟩
  · have hperm := hnew word flag
    rw [hnone] at hperm
    simp only [Inst.owned, Inst.setSlot, hslots]
    exact hperm.symm
  · simp only [Inst.setSlot, hslots]
    exact setSlot_marked h i (by simp [hflag, hword])

theorem allocAt_owns (h : Owns s) (hi : i < s.pointer_count) (ok : Bool) : Owns (s.allocAt ok i) := by
  unfold Inst.allocAt
  cases ok with
  | false => exact release_owns h hi (by decide) fun b => by simp
  | true =>
    obtain ⟨rest, hholding, hforeign, hbelow, hslots, hnext, hnew⟩ := freeSlot_holding h hi
    have hfresh : Call.malloc (s.freeSlot (s.slot i)).next_block ∉ (s.freeSlot (s.slot i)).calls := by
      intro hmem
      have := hbelow _ hmem
      omega
    refine ⟨(hholding.malloc hfresh).perm ?_, fun b hb => ?_, hforeign, ?_⟩
    · have hperm := hnew (.block (s.freeSlot (s.slot i)).next_block) .ALLOCATED
      simp only [Inst.owned, Inst.setSlot, Inst.malloc, hslots]
      exact hperm.symm
    · rcases List.mem_append.mp hb with hb | hb
      · have := hbelow b hb
        exact Nat.lt_succ_of_lt (hnext ▸ this)
      · obtain rfl : b = (s.freeSlot (s.slot i)).next_block := by simpa using hb
        exact Nat.lt_succ_self _
    · simp only [Inst.setSlot, Inst.malloc, hslots]
      exact setSlot_marked h i (by simp)

theorem setPtrAt_owns (h : Owns s) (hi : i < s.pointer_count) (ptr : UInt64) : Owns (s.setPtrAt ptr i) :=
  release_owns h hi (by decide) fun b => by simp

theorem free_owns (h : Owns s) (hi : i < s.pointer_count) (hflag : (s.slot i).flag = .ALLOCATED)
    (hptr : (s.slot i).word.isPtr = true) : Owns ((s.free (s.slot i).word).setSlot i .null .NONE) := by
  have hfree : s.freeSlot (s.slot i) = s.free (s.slot i).word := if_pos ⟨hflag, hptr⟩
  rw [← hfree]
  exact release_owns h hi (by decide) fun b => by simp

theorem pointer_slot_range {param_index : UInt16} (h : s.s_expr_get_pointer_slot param_index = some i) :
    i < s.pointer_count := by
  unfold Inst.s_expr_get_pointer_slot at h
  split at h
  · cases h
  · dsimp only at h
    split at h
    · cases h
    · obtain rfl := Option.some.inj h
      omega

theorem tree_slot_range {index : UInt16} (h : s.tree_slot index = some i) : i < s.pointer_count := by
  unfold Inst.tree_slot at h
  split at h
  · cases h
  · obtain rfl := Option.some.inj h
    omega

theorem number_slot_range (h : s.number_slot = some i) : i < s.pointer_count := by
  unfold Inst.number_slot at h
  split at h
  · cases h
  · split at h
    · cases h
    · obtain rfl := Option.some.inj h
      omega

theorem setNumber_owns (h : Owns s) (hfree : ∀ i, s.number_slot = some i → (s.slot i).flag ≠ .ALLOCATED)
    (bits : UInt64) : Owns (s.setNumber bits) := by
  unfold Inst.setNumber
  cases hslot : s.number_slot with
  | none => exact h
  | some i =>
    have hflag := hfree i hslot
    have hsame : s.freeSlot (s.slot i) = s := if_neg fun hand => hflag hand.1
    have hword : ∀ b, Word.number bits ≠ .block b := fun b => by simp
    have howns := release_owns h (number_slot_range hslot) hflag hword
    rw [hsame] at howns
    exact howns

theorem step_owns (h : Owns s) {op : Op} (hop : overwrites s op = false) : Owns (step s op) := by
  have hnumber : op.isNumber = true → ∀ i, s.number_slot = some i → (s.slot i).flag ≠ .ALLOCATED := by
    intro hnum i hi hflag
    simp [overwrites, hnum, hi, hflag] at hop
  cases op with
  | context in_pointer_call pointer_base => exact ⟨h.holding, h.below, h.foreign, h.marked⟩
  | pointer_alloc param_index ok =>
    simp only [step, Inst.s_expr_pointer_alloc]
    cases hslot : s.s_expr_get_pointer_slot param_index with
    | none => exact h
    | some i => exact allocAt_owns h (pointer_slot_range hslot) ok
  | pointer_free param_index =>
    simp only [step, Inst.s_expr_pointer_free]
    cases hslot : s.s_expr_get_pointer_slot param_index with
    | none => exact h
    | some i =>
      dsimp only
      split
      · exact h
      · next hptr =>
        split
        · exact h
        · next hflag => exact free_owns h (pointer_slot_range hslot) (not_not.mp hflag) (by simpa using hptr)
  | set_ptr param_index ptr =>
    simp only [step, Inst.s_expr_set_ptr]
    cases hslot : s.s_expr_get_pointer_slot param_index with
    | none => exact h
    | some i => exact setPtrAt_owns h (pointer_slot_range hslot) ptr
  | tree_slot_alloc index ok =>
    simp only [step, Inst.s_expr_tree_slot_alloc]
    cases hslot : s.tree_slot index with
    | none => exact h
    | some i => exact allocAt_owns h (tree_slot_range hslot) ok
  | tree_slot_free index =>
    simp only [step, Inst.s_expr_tree_slot_free]
    cases hslot : s.tree_slot index with
    | none => exact h
    | some i =>
      dsimp only
      split
      · exact h
      · next hflag =>
        have hrange := tree_slot_range hslot
        split
        · next hptr => exact free_owns h hrange (not_not.mp hflag) hptr
        · next hptr =>
          obtain ⟨b, hb⟩ := (h.marked _ (slot_mem hrange)).mp (not_not.mp hflag)
          exact absurd (by simp [hb, Word.isPtr]) hptr
  | tree_slot_set_ptr index ptr =>
    simp only [step, Inst.s_expr_tree_slot_set_ptr]
    cases hslot : s.tree_slot index with
    | none => exact h
    | some i => exact setPtrAt_owns h (tree_slot_range hslot) ptr
  | set_u64 val => exact setNumber_owns h (hnumber rfl) _
  | set_i64 val => exact setNumber_owns h (hnumber rfl) _
  | set_f64 bits => exact setNumber_owns h (hnumber rfl) _

theorem run_owns {ops : List Op} (h : Owns s) (hops : Careful s ops) : Owns (run s ops) := by
  induction ops generalizing s with
  | nil => exact h
  | cons op ops ih => exact ih (step_owns h hops.1) hops.2

theorem free_all {l : List Slot} (hl : ∀ slot ∈ l, slot.flag = .ALLOCATED ↔ ∃ b, slot.word = .block b)
    (h : Holding s.calls (l.filterMap Slot.owned)) (hforeign : s.foreign = []) :
    ReleasedOnce (l.foldl Inst.freeSlot s).calls ∧ (l.foldl Inst.freeSlot s).foreign = [] := by
  induction l generalizing s with
  | nil => exact ⟨h.released, hforeign⟩
  | cons slot l ih =>
    have hrest : ∀ slot ∈ l, slot.flag = .ALLOCATED ↔ ∃ b, slot.word = .block b :=
      fun slot hslot => hl slot (List.mem_cons_of_mem _ hslot)
    rw [List.foldl_cons]
    by_cases hflag : slot.flag = .ALLOCATED
    · obtain ⟨b, hb⟩ := (hl slot List.mem_cons_self).mp hflag
      have howned : slot.owned = some b := by simp [Slot.owned, hflag, hb]
      have hfree : s.freeSlot slot = s.free (.block b) := by
        rw [Inst.freeSlot, if_pos ⟨hflag, by simp [hb, Word.isPtr]⟩, hb]
      rw [List.filterMap_cons_some howned] at h
      rw [hfree]
      exact ih hrest h.free hforeign
    · have howned : slot.owned = none := by
        unfold Slot.owned
        split
        · next heq _ => exact absurd heq hflag
        · rfl
      rw [List.filterMap_cons_none howned] at h
      rw [Inst.freeSlot, if_neg fun hand => hflag hand.1]
      exact ih hrest h hforeign

/-- The slots that own blocks are freed, and no other. -/
theorem tree_free_released (h : Owns s) :
    ReleasedOnce s.s_expr_tree_free.calls ∧ s.s_expr_tree_free.foreign = [] :=
  free_all h.marked h.holding h.foreign

end

/-! ## Blocks that are lost -/

structure Lost (b : Nat) (s : Inst) : Prop where
  taken : .malloc b ∈ s.calls
  kept : .free b ∉ s.calls
  gone : ∀ slot ∈ s.slots, slot.word ≠ .block b
  below : b < s.next_block

section

variable {b : Nat} {s : Inst}

theorem lost_slot (h : Lost b s) (i : Nat) : (s.slot i).word ≠ .block b := by
  unfold Inst.slot
  rw [List.getD_eq_getElem?_getD]
  cases hslot : s.slots[i]? with
  | none => simp
  | some slot => exact h.gone slot (List.mem_of_getElem? hslot)

theorem lost_set (h : Lost b s) (i : Nat) {word : Word} (hword : word ≠ .block b) (flag : SlotFlag) :
    Lost b (s.setSlot i word flag) := by
  refine ⟨h.taken, h.kept, fun slot hslot => ?_, h.below⟩
  rcases List.mem_or_eq_of_mem_set hslot with hold | rfl
  · exact h.gone slot hold
  · exact hword

theorem lost_free (h : Lost b s) {word : Word} (hword : word ≠ .block b) : Lost b (s.free word) := by
  cases word with
  | block a =>
    refine ⟨List.mem_append_left _ h.taken, fun hmem => ?_, h.gone, h.below⟩
    rcases List.mem_append.mp hmem with hmem | hmem
    · exact h.kept hmem
    · have hab : b = a := by simpa using hmem
      exact hword (by rw [hab])
  | null | outside | number => exact ⟨h.taken, h.kept, h.gone, h.below⟩

theorem lost_freeSlot (h : Lost b s) {slot : Slot} (hword : slot.word ≠ .block b) : Lost b (s.freeSlot slot) := by
  unfold Inst.freeSlot
  split
  · exact lost_free h hword
  · exact h

theorem lost_malloc (h : Lost b s) : Lost b s.malloc := by
  refine ⟨List.mem_append_left _ h.taken, fun hmem => ?_, h.gone, Nat.lt_succ_of_lt h.below⟩
  rcases List.mem_append.mp hmem with hmem | hmem
  · exact h.kept hmem
  · simp at hmem

theorem lost_allocAt (h : Lost b s) (ok : Bool) (i : Nat) : Lost b (s.allocAt ok i) := by
  have hfreed := lost_freeSlot h (lost_slot h i)
  unfold Inst.allocAt
  cases ok with
  | false => exact lost_set hfreed i (by simp) _
  | true =>
    refine lost_set (lost_malloc hfreed) i (fun heq => ?_) _
    have hlt := hfreed.below
    rw [Word.block.inj heq] at hlt
    exact Nat.lt_irrefl _ hlt

theorem lost_setPtrAt (h : Lost b s) (ptr : UInt64) (i : Nat) : Lost b (s.setPtrAt ptr i) :=
  lost_set (lost_freeSlot h (lost_slot h i)) i (by simp) _

theorem lost_getD {f : Nat → Inst} (h : Lost b s) (hf : ∀ i, Lost b (f i)) (o : Option Nat) :
    Lost b ((o.map f).getD s) := by
  cases o with
  | none => exact h
  | some i => exact hf i

theorem step_lost (h : Lost b s) (op : Op) : Lost b (step s op) := by
  cases op with
  | context => exact ⟨h.taken, h.kept, h.gone, h.below⟩
  | pointer_alloc param_index ok => exact lost_getD h (lost_allocAt h ok) _
  | tree_slot_alloc index ok => exact lost_getD h (lost_allocAt h ok) _
  | set_ptr param_index ptr => exact lost_getD h (lost_setPtrAt h ptr) _
  | tree_slot_set_ptr index ptr => exact lost_getD h (lost_setPtrAt h ptr) _
  | pointer_free param_index =>
    simp only [step, Inst.s_expr_pointer_free]
    split
    · exact h
    · next i _ =>
      split
      · exact h
      · split
        · exact h
        · exact lost_set (lost_free h (lost_slot h i)) i (by simp) _
  | tree_slot_free index =>
    simp only [step, Inst.s_expr_tree_slot_free]
    split
    · exact h
    · next i _ =>
      split
      · exact h
      · split
        · exact lost_set (lost_free h (lost_slot h i)) i (by simp) _
        · exact lost_set h i (lost_slot h i) _
  | set_u64 | set_i64 | set_f64 => exact lost_getD h (fun i => lost_set h i (by simp) _) _

theorem run_lost (h : Lost b s) (ops : List Op) : Lost b (run s ops) := by
  induction ops generalizing s with
  | nil => exact h
  | cons op ops ih => exact ih (step_lost h op)

theorem tree_free_lost (h : Lost b s) : ¬ ReleasedOnce s.s_expr_tree_free.calls := by
  have hfold : ∀ (l : List Slot) (s : Inst), (∀ slot ∈ l, slot.word ≠ .block b) → Lost b s →
      Lost b (l.foldl Inst.freeSlot s) := by
    intro l
    induction l with
    | nil => exact fun _ _ h => h
    | cons slot l ih =>
      intro s hl h
      exact ih _ (fun slot hslot => hl slot (List.mem_cons_of_mem _ hslot))
        (lost_freeSlot h (hl slot List.mem_cons_self))
  obtain ⟨htaken, hkept, -, -⟩ := hfold s.slots s h.gone h
  intro hreleased
  have hfree : s.s_expr_tree_free.calls.count (.free b) = 0 := List.count_eq_zero_of_not_mem hkept
  have hmalloc : 0 < s.s_expr_tree_free.calls.count (.malloc b) := List.count_pos_iff.mpr htaken
  have honce := hreleased.once b
  omega

theorem overwrites_lost (h : Owns s) {op : Op} (hop : overwrites s op = true) :
    ∃ b, Lost b (step s op) := by
  simp only [overwrites, Bool.and_eq_true, Option.any_eq_true] at hop
  obtain ⟨hnum, i, hslot, hflag⟩ := hop
  have hflag : (s.slot i).flag = .ALLOCATED := by simpa using hflag
  have hrange := number_slot_range hslot
  obtain ⟨b, hb⟩ := (h.marked _ (slot_mem hrange)).mp hflag
  have howned : (s.slot i).owned = some b := by simp [Slot.owned, hflag, hb]
  obtain ⟨rest, hold, hnew⟩ := others_owned hrange
  rw [howned] at hold
  have hbalance := (h.holding.perm hold).balance b
  have hfresh := h.holding.fresh b
  rw [Option.toList_some, List.singleton_append, List.count_cons_self] at hbalance
  have hrest : b ∉ rest := fun hmem => by
    have := List.count_pos_iff.mpr hmem
    omega
  have htaken : Call.malloc b ∈ s.calls := List.count_pos_iff.mp (by omega)
  have hkept : Call.free b ∉ s.calls := fun hmem => by
    have := List.count_pos_iff.mpr hmem
    omega
  obtain ⟨bits, hstep⟩ : ∃ bits, step s op = s.setSlot i (.number bits) (s.slot i).flag := by
    have hset : ∀ bits, s.setNumber bits = s.setSlot i (.number bits) (s.slot i).flag := by
      intro bits
      simp [Inst.setNumber, hslot]
    cases op with
    | set_u64 val => exact ⟨_, hset val⟩
    | set_i64 val => exact ⟨_, hset val.toUInt64⟩
    | set_f64 bits => exact ⟨_, hset bits⟩
    | _ => cases hnum
  rw [hstep]
  refine ⟨b, htaken, hkept, fun slot hmem hword => ?_, h.below b htaken⟩
  -- A slot that still had the block would own it beside this one.
  rcases List.mem_or_eq_of_mem_set hmem with hin | rfl
  · have hmarked := (h.marked slot hin).mpr ⟨b, hword⟩
    have hmem' : b ∈ (s.setSlot i (.number bits) (s.slot i).flag).owned :=
      List.mem_filterMap.mpr ⟨slot, hmem, by simp [Slot.owned, hmarked, hword]⟩
    have hnone : (⟨.number bits, (s.slot i).flag⟩ : Slot).owned = none := by
      unfold Slot.owned
      split
      · next heq => cases heq
      · rfl
    have hperm := hnew (.number bits) (s.slot i).flag
    rw [hnone] at hperm
    exact hrest (hperm.mem_iff.mp hmem')
  · cases hword

end

/-! ## Whole runs -/

variable {s : Inst} {i : Nat}

theorem slot_setSlot (hi : i < s.pointer_count) (word : Word) (flag : SlotFlag) :
    (s.setSlot i word flag).slot i = ⟨word, flag⟩ := by
  have hlt : i < s.slots.length := hi
  simp [Inst.slot, Inst.setSlot, List.getD_eq_getElem?_getD, hlt]

theorem allocAt_failed (hi : i < s.pointer_count) :
    (s.allocAt false i).slot i = ⟨.null, .NONE⟩ := by
  have hslots : (s.freeSlot (s.slot i)).slots = s.slots := by
    unfold Inst.freeSlot
    split
    · cases (s.slot i).word <;> rfl
    · rfl
  have hlt : i < (s.freeSlot (s.slot i)).pointer_count := by
    rw [Inst.pointer_count, hslots]
    exact hi
  exact slot_setSlot hlt .null .NONE

/-- An allocation that fails leaves no pointer, marked or not. -/
theorem failed_unmarked (s : Inst) (op : Op) (h : op.failedAt s = some i) :
    (step s op).slot i = ⟨.null, .NONE⟩ := by
  cases op with
  | pointer_alloc param_index ok =>
    cases ok with
    | true => cases h
    | false =>
      have hslot : s.s_expr_get_pointer_slot param_index = some i := h
      simp only [step, Inst.s_expr_pointer_alloc, hslot]
      exact allocAt_failed (pointer_slot_range hslot)
  | tree_slot_alloc index ok =>
    cases ok with
    | true => cases h
    | false =>
      have hslot : s.tree_slot index = some i := h
      simp only [step, Inst.s_expr_tree_slot_alloc, hslot]
      exact allocAt_failed (tree_slot_range hslot)
  | _ => cases h

theorem released_careful (h : Owns s) {ops : List Op}
    (hreleased : ReleasedOnce (run s ops).s_expr_tree_free.calls) : Careful s ops := by
  induction ops generalizing s with
  | nil => trivial
  | cons op ops ih =>
    have hop : overwrites s op = false := by
      rw [← Bool.not_eq_true]
      intro hover
      obtain ⟨b, hlost⟩ := overwrites_lost h hover
      exact tree_free_lost (run_lost hlost ops) hreleased
    exact ⟨hop, ih (step_owns h hop) hreleased⟩

/-- The slots are sound in a run if and only if it stores no number over a block. -/
theorem sound_iff (pointer_count : Nat) (ops : List Op) :
    Sound pointer_count ops ↔ Careful (created pointer_count) ops := by
  constructor
  · intro h
    exact released_careful (created_owns pointer_count) h.released
  · intro h
    obtain ⟨hreleased, hown⟩ := tree_free_released (run_owns (created_owns pointer_count) h)
    exact ⟨hreleased, hown, fun _ op _ _ i hi => failed_unmarked _ op hi⟩

/-- A block is allocated for the slot, and then the number 5 is stored in it. -/
def numberOverBlock : List Op := [.context true 0, .pointer_alloc 0 true, .set_u64 5]

theorem number_over_block_is_freed :
    (run (created 1) numberOverBlock).s_expr_tree_free.foreign = [.number 5] ∧ ¬ Sound 1 numberOverBlock := by
  have hfreed : (run (created 1) numberOverBlock).s_expr_tree_free.foreign = [.number 5] := by decide
  refine ⟨hfreed, fun h => ?_⟩
  have hown := h.own
  rw [hfreed] at hown
  cases hown

end motioncore.ownership
