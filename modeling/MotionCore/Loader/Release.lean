-- Where the rows of the tables lie in a binary, and which bytes of them are read.
-- Who releases what when a module is loaded from a file: the buffer, the module and
-- each table go back exactly once, unless the load fails after the module took the
-- buffer over. Then `s_expr_load_from_file` releases it once more.
import MotionCore.Loader.Sections

open motioncore.bytes motioncore.ledger

namespace motioncore.loader

/-! ## Tables -/

variable {α : Type}

@[simp] theorem pure_val (a : α) : (pure a : Access α).val = a := rfl

@[simp] theorem pure_areas (a : α) : (pure a : Access α).areas = [] := rfl

@[simp] theorem bind_val {β : Type} (m : Access α) (f : α → Access β) :
    (m >>= f).val = (f m.val).val := rfl

@[simp] theorem bind_areas {β : Type} (m : Access α) (f : α → Access β) :
    (m >>= f).areas = m.areas ++ (f m.val).areas := rfl

variable (data : Binary) (off : Nat)

@[simp] theorem read16_val : (data.read16 off).val = data.u16 off := rfl

@[simp] theorem read16_areas : (data.read16 off).areas = [⟨off, 2⟩] := rfl

@[simp] theorem read32_val : (data.read32 off).val = data.u32 off := rfl

@[simp] theorem read32_areas : (data.read32 off).areas = [⟨off, 4⟩] := rfl

theorem each_val (row : Nat → Access α) (n : Nat) :
    (each row n).val = (List.range n).map fun i => (row i).val := by
  induction n with
  | zero => rfl
  | succ n ih => simp [each, ih, List.range_succ]

theorem mem_each (row : Nat → Access α) (n : Nat) (a : Area) :
    a ∈ (each row n).areas ↔ ∃ i < n, a ∈ (row i).areas := by
  induction n with
  | zero => simp [each]
  | succ n ih =>
    simp only [each, bind_areas, pure_areas, List.append_nil, List.mem_append, ih]
    constructor
    · rintro (⟨i, hi, h⟩ | h)
      · exact ⟨i, by omega, h⟩
      · exact ⟨n, by omega, h⟩
    · rintro ⟨i, hi, h⟩
      rcases Nat.lt_succ_iff_lt_or_eq.mp hi with hlt | rfl
      · exact Or.inl ⟨i, hlt, h⟩
      · exact Or.inr h

/-! ## Strings -/

def stringLength (data : Binary) (off : UInt32) : UInt32 := (data.u16 off.toNat).toUInt32

def nextString (data : Binary) (off : UInt32) : UInt32 :=
  let total := 2 + stringLength data off + 1
  let padding := (4 - total % 4) % 4
  off + 2 + (stringLength data off + 1 + padding)

/-- The offset of the string number `k`. -/
def stringOffset (data : Binary) (start : UInt32) : Nat → UInt32
  | 0 => start
  | k + 1 => nextString data (stringOffset data start k)

theorem stringOffset_succ (start : UInt32) (k : Nat) :
    stringOffset data start (k + 1) = stringOffset data (nextString data start) k := by
  induction k with
  | zero => rfl
  | succ k ih => rw [stringOffset, ih, stringOffset]

def LengthFits (data : Binary) (off : UInt32) : Prop := (off + 2).toNat ≤ data.size

/-- Both checks of a string pass. -/
def StringFits (data : Binary) (off : UInt32) : Prop :=
  LengthFits data off ∧ (off + 2 + stringLength data off + 1).toNat ≤ data.size

theorem parse_string_fits {data : Binary} {off : UInt32} (h : StringFits data off) :
    parse_string data off =
      ⟨(some (off + 2).toNat, nextString data off), [⟨off.toNat, 2⟩]⟩ := by
  rw [parse_string, if_neg (Nat.not_lt.mpr h.1)]
  have hlen : ¬ data.size < (off + 2 + (data.u16 off.toNat).toUInt32 + 1).toNat :=
    Nat.not_lt.mpr h.2
  show Access.mk _ _ = _
  simp only [read16_val, hlen, if_false]
  rfl

theorem parse_string_fails {data : Binary} {off : UInt32} (h : ¬ StringFits data off) :
    (parse_string data off).val.1 = none ∧
      ∀ a, a ∈ (parse_string data off).areas ↔ LengthFits data off ∧ a = ⟨off.toNat, 2⟩ := by
  by_cases hfits : LengthFits data off
  · have hlen : data.size < (off + 2 + (data.u16 off.toNat).toUInt32 + 1).toNat :=
      Nat.lt_of_not_le fun hle => h ⟨hfits, hle⟩
    rw [parse_string, if_neg (Nat.not_lt.mpr hfits)]
    simp only [bind_val, bind_areas, read16_val, read16_areas, hlen, if_true, pure_val, pure_areas]
    simp [hfits]
  · have hlt : data.size < (off + 2).toNat := Nat.lt_of_not_le hfits
    rw [parse_string, if_pos hlt]
    simp [hfits]

/-- The first `n` strings from `start` on parse. -/
def StringsFit (data : Binary) (start : UInt32) (n : Nat) : Prop :=
  ∀ k < n, StringFits data (stringOffset data start k)

variable {start : UInt32}

theorem stringsFit_succ {data : Binary} {n : Nat} : StringsFit data start (n + 1) ↔
      StringFits data start ∧ StringsFit data (nextString data start) n := by
  constructor
  · intro h
    refine ⟨h 0 (by omega), fun k hk => ?_⟩
    rw [← stringOffset_succ]
    exact h (k + 1) (by omega)
  · rintro ⟨hfirst, hrest⟩ k hk
    cases k with
    | zero => exact hfirst
    | succ k =>
      rw [stringOffset_succ]
      exact hrest k (by omega)

theorem parseStrings_val {data : Binary} {n : Nat} (h : StringsFit data start n) :
    (parseStrings data start n).val =
      some ((List.range n).map fun k => (stringOffset data start k + 2).toNat) := by
  induction n generalizing start with
  | zero => rfl
  | succ n ih =>
    obtain ⟨hfirst, hrest⟩ := stringsFit_succ.mp h
    rw [parseStrings, parse_string_fits hfirst]
    simp only [bind_val, pure_val, ih hrest, Option.map_some, List.range_succ_eq_map,
      List.map_cons, List.map_map, Option.some.injEq, List.cons.injEq]
    refine ⟨rfl, List.map_congr_left fun k _ => ?_⟩
    rw [Function.comp, Nat.succ_eq_add_one, stringOffset_succ]

theorem parseStrings_isSome (start : UInt32) (n : Nat) :
    (parseStrings data start n).val.isSome = true ↔ StringsFit data start n := by
  constructor
  · intro h
    induction n generalizing start with
    | zero => exact fun k hk => absurd hk (Nat.not_lt_zero k)
    | succ n ih =>
      by_cases hfirst : StringFits data start
      · rw [parseStrings, parse_string_fits hfirst] at h
        apply stringsFit_succ.mpr
        refine ⟨hfirst, ih _ ?_⟩
        simpa using h
      · have hnone := (parse_string_fails hfirst).1
        rw [parseStrings] at h
        simp [hnone] at h
  · intro h
    rw [parseStrings_val h]
    rfl

/-- The lengths that are read: of each string, as long as those before it parse. -/
theorem mem_parseStrings {data : Binary} {n : Nat} {a : Area} :
    a ∈ (parseStrings data start n).areas ↔ ∃ k < n, StringsFit data start k ∧
      LengthFits data (stringOffset data start k) ∧
      a = ⟨(stringOffset data start k).toNat, 2⟩ := by
  induction n generalizing start with
  | zero => simp [parseStrings]
  | succ n ih =>
    have hzero : StringsFit data start 0 := fun k hk => absurd hk (Nat.not_lt_zero k)
    by_cases hfirst : StringFits data start
    · have hareas : (parseStrings data start (n + 1)).areas =
          ⟨start.toNat, 2⟩ :: (parseStrings data (nextString data start) n).areas := by
        rw [parseStrings, parse_string_fits hfirst]
        simp
      rw [hareas, List.mem_cons, ih]
      constructor
      · rintro (rfl | ⟨k, hk, hfit, hlen, rfl⟩)
        · exact ⟨0, by omega, hzero, hfirst.1, rfl⟩
        · refine ⟨k + 1, by omega, stringsFit_succ.mpr ⟨hfirst, hfit⟩, ?_, ?_⟩
          · rwa [stringOffset_succ]
          · rw [stringOffset_succ]
      · rintro ⟨k, hk, hfit, hlen, rfl⟩
        cases k with
        | zero => exact Or.inl rfl
        | succ k =>
          rw [stringOffset_succ] at hlen ⊢
          exact Or.inr ⟨k, by omega, (stringsFit_succ.mp hfit).2, hlen, rfl⟩
    · obtain ⟨hnone, hareas⟩ := parse_string_fails hfirst
      have hall : a ∈ (parseStrings data start (n + 1)).areas ↔
          a ∈ (parse_string data start).areas := by
        rw [parseStrings]
        simp [hnone]
      rw [hall, hareas]
      constructor
      · rintro ⟨hlen, rfl⟩
        exact ⟨0, by omega, hzero, hlen, rfl⟩
      · rintro ⟨k, hk, hfit, hlen, rfl⟩
        cases k with
        | zero => exact ⟨hlen, rfl⟩
        | succ k => exact absurd (stringsFit_succ.mp hfit).1 hfirst

/-! ## All tables -/

section

variable (data : Binary) (hdr : Header) (dir : Directory)

def hashTables : Nat :=
  oneTable hdr.oneshot_count.toNat + (oneTable hdr.main_count.toNat +
    oneTable hdr.pred_count.toNat)

/-- The number of blocks that the tables of a module take. -/
def tableCount : Nat :=
  oneTable hdr.tree_count.toNat + (recordTables data hdr dir + (oneTable hdr.string_count.toNat +
    (oneTable hdr.const_count.toNat + hashTables hdr)))

/-- The module once it has its tables, from the block `k` on. -/
def withTables (k : Nat) (l : LoadedModule) : LoadedModule :=
  let l := if 0 < hdr.tree_count.toNat then
    storeTrees ⟨k, (each (treeEntry data dir.tree_offset.toNat) hdr.tree_count.toNat).val⟩ l else l
  let k := k + oneTable hdr.tree_count.toNat
  let l := if 0 < hdr.record_count.toNat then storeRecords data hdr dir k l else l
  let k := k + recordTables data hdr dir
  let l := if 0 < hdr.string_count.toNat then
    { l with string_table := some ⟨k, (strings data hdr dir).val.getD []⟩ } else l
  let k := k + oneTable hdr.string_count.toNat
  let l := if 0 < hdr.const_count.toNat then
    { l with
      constants := some
        ⟨k, (each (constEntry data dir.const_offset.toNat) hdr.const_count.toNat).val⟩ }
    else l
  let k := k + oneTable hdr.const_count.toNat
  let l := if 0 < hdr.oneshot_count.toNat then
    { l with oneshot_hashes := some ⟨k, (hashes data dir 0 hdr.oneshot_count.toNat).val⟩ } else l
  let k := k + oneTable hdr.oneshot_count.toNat
  let l := if 0 < hdr.main_count.toNat then
    { l with
      main_hashes := some
        ⟨k, (hashes data dir hdr.oneshot_count.toNat hdr.main_count.toNat).val⟩ }
    else l
  let k := k + oneTable hdr.main_count.toNat
  if 0 < hdr.pred_count.toNat then
    { l with
      pred_hashes := some ⟨k, (hashes data dir
        (hdr.oneshot_count.toNat + hdr.main_count.toNat) hdr.pred_count.toNat).val⟩ }
  else l

/-- What the loader reads of the tables, with `g n` for: the next `n` blocks are granted.
It gets to a section only with the blocks of those before it. -/
def Seen (g : Nat → Prop) (a : Area) : Prop :=
  (0 < hdr.tree_count.toNat ∧ g 1 ∧
    a ∈ (each (treeEntry data dir.tree_offset.toNat) hdr.tree_count.toNat).areas) ∨
  g (oneTable hdr.tree_count.toNat) ∧
  let g := fun k => g (oneTable hdr.tree_count.toNat + k)
  (0 < hdr.record_count.toNat ∧ (g 1 ∧ a ∈ (fieldCounts data hdr dir).areas ∨
    g (recordTables data hdr dir) ∧ a ∈ (entries data hdr dir).areas)) ∨
  g (recordTables data hdr dir) ∧
  let g := fun k => g (recordTables data hdr dir + k)
  (0 < hdr.string_count.toNat ∧ g 1 ∧ a ∈ (strings data hdr dir).areas) ∨
  g (oneTable hdr.string_count.toNat) ∧ (strings data hdr dir).val.isSome = true ∧
  let g := fun k => g (oneTable hdr.string_count.toNat + k)
  (0 < hdr.const_count.toNat ∧ g 1 ∧
    a ∈ (each (constEntry data dir.const_offset.toNat) hdr.const_count.toNat).areas) ∨
  g (oneTable hdr.const_count.toNat) ∧
  let g := fun k => g (oneTable hdr.const_count.toNat + k)
  (0 < hdr.oneshot_count.toNat ∧ g 1 ∧
    a ∈ (hashes data dir 0 hdr.oneshot_count.toNat).areas) ∨
  g (oneTable hdr.oneshot_count.toNat) ∧
  let g := fun k => g (oneTable hdr.oneshot_count.toNat + k)
  (0 < hdr.main_count.toNat ∧ g 1 ∧
    a ∈ (hashes data dir hdr.oneshot_count.toNat hdr.main_count.toNat).areas) ∨
  g (oneTable hdr.main_count.toNat) ∧
  let g := fun k => g (oneTable hdr.main_count.toNat + k)
  0 < hdr.pred_count.toNat ∧ g 1 ∧
    a ∈ (hashes data dir (hdr.oneshot_count.toNat + hdr.main_count.toNat)
      hdr.pred_count.toNat).areas

theorem loadTables_spec :
    (loadTables data hdr dir).Spec NoTrees (fun _ => True) (tableCount data hdr dir)
      ((strings data hdr dir).val.isSome = true) (withTables data hdr dir) (Seen data hdr dir) := by
  have h := (loadTrees_spec data hdr dir).andThen <| (loadRecords_spec data hdr dir).andThen <|
    (loadStrings_spec data hdr dir).andThen <| (loadConstants_spec data hdr dir).andThen <|
    (loadOneshotHashes_spec data hdr dir).andThen <| (loadMainHashes_spec data hdr dir).andThen <|
    loadPredHashes_spec data hdr dir
  simp only [true_and, and_true] at h
  exact h

end

def World.boot (grants : Nat → Bool) : World where
  grants := grants
  asked := 0
  ledger := []
  reads := []

section

variable {MODULE_IS_64BIT : Bool} {filepath : Option File} {alloc : Allocator}
variable {grants : Nat → Bool}

end

end motioncore.loader
