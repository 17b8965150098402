-- When the loader stays inside the bytes it was given. It checks the size of the
-- header and of the strings only: the other tables lie where the binary says.
import MotionCore.Loader.Release

open motioncore.bytes motioncore.ledger

namespace motioncore.loader

/-! ## Where the rows lie -/

section

variable (data : Binary) (dir : Directory)

def treeAt (i : Nat) : Nat := dir.tree_offset.toNat + sizeof_tree_entry * i

def recordAt (i : Nat) : Nat := dir.record_offset.toNat + sizeof_record_entry * i

def fieldCountAt (i : Nat) : Nat := (data.u16 (recordAt dir i + 4)).toNat

def fieldAt (i j : Nat) : Nat :=
  (data.u32 (recordAt dir i + 8)).toNat + sizeof_field_entry * j

def constAt (i : Nat) : Nat := dir.const_offset.toNat + sizeof_const_entry * i

def hashAt (i : Nat) : Nat := dir.func_hash_offset.toNat + 4 * i

end

def ReadsInside (size : Nat) (w : World) : Prop := ∀ a ∈ w.reads, a.Inside size

/-- All that a module refers to lies inside the buffer: the rows of its tables, the
parameters of its trees, its strings with their zero bytes, and its constants. -/
structure RefersInside (MODULE_IS_64BIT : Bool) (data : Binary) (l : LoadedModule) : Prop where
  trees : ∀ i < l.defn.tree_count.toNat,
    Area.Inside data.size ⟨treeAt data.directory.val i, sizeof_tree_entry⟩
  params : ∀ table ∈ l.trees, ∀ t ∈ table.rows,
    Area.Inside data.size ⟨t.params, sizeof_param MODULE_IS_64BIT * t.param_count.toNat⟩
  records : ∀ i < l.defn.record_count.toNat,
    Area.Inside data.size ⟨recordAt data.directory.val i, sizeof_record_entry⟩
  fields : ∀ i < l.defn.record_count.toNat, ∀ j < fieldCountAt data data.directory.val i,
    Area.Inside data.size ⟨fieldAt data data.directory.val i j, sizeof_field_entry⟩
  strings : ∀ table ∈ l.string_table, ∀ s ∈ table.rows, ∃ n, s + n < data.size ∧
    data.byte (s + n) = 0
  const_entries : ∀ i < l.defn.const_count.toNat,
    Area.Inside data.size ⟨constAt data.directory.val i, sizeof_const_entry⟩
  constants : ∀ table ∈ l.constants, ∀ i (h : i < table.rows.length),
    Area.Inside data.size
      ⟨table.rows[i], (data.u16 (constAt data.directory.val i + 6)).toNat⟩
  hashes : ∀ i < l.defn.oneshot_count.toNat + l.defn.main_count.toNat + l.defn.pred_count.toNat,
    Area.Inside data.size ⟨hashAt data.directory.val i, 4⟩

section

variable (data : Binary) (hdr : Header) (dir : Directory)

/-! ## What is read -/

/-- The reads of all tables, each as far as the loader gets. -/
theorem seen_iff {g : Nat → Prop} (hmono : ∀ m n, m ≤ n → g n → g m) (a : Area) :
    Seen data hdr dir g a ↔
      let t := oneTable hdr.tree_count.toNat
      let r := t + recordTables data hdr dir
      let s := r + oneTable hdr.string_count.toNat
      let c := s + oneTable hdr.const_count.toNat
      let o := c + oneTable hdr.oneshot_count.toNat
      let m := o + oneTable hdr.main_count.toNat
      let parsed := StringsFit data dir.string_offset hdr.string_count.toNat
      g 1 ∧ a ∈ (each (treeEntry data dir.tree_offset.toNat) hdr.tree_count.toNat).areas ∨
      g (t + 1) ∧ a ∈ (fieldCounts data hdr dir).areas ∨
      g r ∧ a ∈ (entries data hdr dir).areas ∨
      g (r + 1) ∧ a ∈ (strings data hdr dir).areas ∨
      (parsed ∧ g (s + 1)) ∧
        a ∈ (each (constEntry data dir.const_offset.toNat) hdr.const_count.toNat).areas ∨
      (parsed ∧ g (c + 1)) ∧ a ∈ (hashes data dir 0 hdr.oneshot_count.toNat).areas ∨
      (parsed ∧ g (o + 1)) ∧
        a ∈ (hashes data dir hdr.oneshot_count.toNat hdr.main_count.toNat).areas ∨
      (parsed ∧ g (m + 1)) ∧ a ∈ (hashes data dir
        (hdr.oneshot_count.toNat + hdr.main_count.toNat) hdr.pred_count.toNat).areas := by
  have hpos : ∀ {n : Nat} {β : Type} {row : Nat → Access β}, a ∈ (each row n).areas → 0 < n := by
    intro n β row h
    obtain ⟨i, hi, -⟩ := (mem_each row n a).mp h
    omega
  have hrecords : a ∈ (entries data hdr dir).areas → 0 < hdr.record_count.toNat := by
    intro h
    by_contra hzero
    have hnil : hdr.record_count.toNat = 0 := by omega
    rw [entries, hnil] at h
    cases h
  have hstrings : a ∈ (strings data hdr dir).areas → 0 < hdr.string_count.toNat := by
    intro h
    obtain ⟨k, hk, -⟩ := mem_parseStrings.mp h
    omega
  have hparsed := parseStrings_isSome data dir.string_offset hdr.string_count.toNat
  simp only [Seen, ← hparsed, strings, Nat.add_assoc] at hstrings ⊢
  constructor
  · rintro (⟨-, h⟩ | ⟨ht, ⟨-, h | h⟩ | ⟨hr, ⟨-, h⟩ | ⟨hs, hp, ⟨-, h⟩ | ⟨hc, ⟨-, h⟩ | ⟨ho, ⟨-, h⟩ |
      ⟨hm, -, h⟩⟩⟩⟩⟩⟩)
    all_goals simp only [and_self, true_or, or_true, *]
  · rintro (h | h | h | h | ⟨⟨hp, hg⟩, h⟩ | ⟨⟨hp, hg⟩, h⟩ | ⟨⟨hp, hg⟩, h⟩ | ⟨⟨hp, hg⟩, h⟩)
    · exact Or.inl ⟨hpos h.2, h⟩
    · exact Or.inr ⟨hmono _ _ (by omega) h.1, Or.inl ⟨hpos h.2, Or.inl h⟩⟩
    · exact Or.inr ⟨hmono _ _ (by omega) h.1, Or.inl ⟨hrecords h.2, Or.inr h⟩⟩
    · exact Or.inr ⟨hmono _ _ (by omega) h.1, Or.inr ⟨hmono _ _ (by omega) h.1,
        Or.inl ⟨hstrings h.2, h⟩⟩⟩
    · exact Or.inr ⟨hmono _ _ (by omega) hg, Or.inr ⟨hmono _ _ (by omega) hg,
        Or.inr ⟨hmono _ _ (by omega) hg, hp, Or.inl ⟨hpos h, hg, h⟩⟩⟩⟩
    · exact Or.inr ⟨hmono _ _ (by omega) hg, Or.inr ⟨hmono _ _ (by omega) hg,
        Or.inr ⟨hmono _ _ (by omega) hg, hp, Or.inr ⟨hmono _ _ (by omega) hg,
        Or.inl ⟨hpos h, hg, h⟩⟩⟩⟩⟩
    · exact Or.inr ⟨hmono _ _ (by omega) hg, Or.inr ⟨hmono _ _ (by omega) hg,
        Or.inr ⟨hmono _ _ (by omega) hg, hp, Or.inr ⟨hmono _ _ (by omega) hg,
        Or.inr ⟨hmono _ _ (by omega) hg, Or.inl ⟨hpos h, hg, h⟩⟩⟩⟩⟩⟩
    · exact Or.inr ⟨hmono _ _ (by omega) hg, Or.inr ⟨hmono _ _ (by omega) hg,
        Or.inr ⟨hmono _ _ (by omega) hg, hp, Or.inr ⟨hmono _ _ (by omega) hg,
        Or.inr ⟨hmono _ _ (by omega) hg, Or.inr ⟨hmono _ _ (by omega) hg, hpos h, hg, h⟩⟩⟩⟩⟩⟩

variable (size : Nat)

theorem inside_trees (n : Nat) :
    (∀ a ∈ (each (treeEntry data dir.tree_offset.toNat) n).areas, a.Inside size) ↔
      ∀ i < n, Area.Inside size ⟨treeAt dir i, 22⟩ := by
  simp only [mem_each, treeEntry, bind_areas, pure_areas, read32_areas, read16_areas,
    List.append_nil, List.cons_append, List.nil_append, List.mem_cons, List.not_mem_nil, or_false,
    Area.Inside, treeAt]
  constructor
  · intro h i hi
    have hlast := h ⟨dir.tree_offset.toNat + sizeof_tree_entry * i + 20, 2⟩ ⟨i, hi, by simp⟩
    omega
  · rintro h a ⟨i, hi, ha⟩
    have hrow := h i hi
    rcases ha with rfl | rfl | rfl | rfl | rfl | rfl | rfl
    all_goals
      dsimp only
      omega

theorem inside_fieldCounts : (∀ a ∈ (fieldCounts data hdr dir).areas, a.Inside size) ↔
      ∀ i < hdr.record_count.toNat, Area.Inside size ⟨recordAt dir i, 6⟩ := by
  simp only [fieldCounts, mem_each, recordFieldCount, read16_areas, List.mem_singleton,
    Area.Inside, recordAt]
  constructor
  · intro h i hi
    have hrow := h ⟨_, 2⟩ ⟨i, hi, rfl⟩
    omega
  · rintro h a ⟨i, hi, rfl⟩
    have hrow := h i hi
    dsimp only
    omega

theorem mem_recordEntries (base n : Nat) (a : Area) :
    a ∈ (recordEntries data base n).areas ↔ ∃ i < n, a ∈ (recordEntry data base 0 i).areas := by
  induction n with
  | zero => simp [recordEntries]
  | succ n ih =>
    have hsame : ∀ k, (recordEntry data base k n).areas = (recordEntry data base 0 n).areas :=
      fun _ => rfl
    simp only [recordEntries, bind_areas, pure_areas, List.append_nil, List.mem_append, ih, hsame]
    constructor
    · rintro (⟨i, hi, h⟩ | h)
      · exact ⟨i, by omega, h⟩
      · exact ⟨n, by omega, h⟩
    · rintro ⟨i, hi, h⟩
      rcases Nat.lt_succ_iff_lt_or_eq.mp hi with hlt | rfl
      · exact Or.inl ⟨i, hlt, h⟩
      · exact Or.inr h

theorem inside_entries : (∀ a ∈ (entries data hdr dir).areas, a.Inside size) ↔
      ∀ i < hdr.record_count.toNat, Area.Inside size ⟨recordAt dir i, sizeof_record_entry⟩ ∧
        ∀ j < fieldCountAt data dir i, Area.Inside size ⟨fieldAt data dir i j, 10⟩ := by
  simp only [entries, mem_recordEntries, recordEntry, bind_areas, pure_areas, read32_areas,
    read16_areas, read32_val, read16_val, List.append_nil, List.cons_append, List.nil_append,
    List.mem_cons, mem_each, fieldEntry, List.not_mem_nil, or_false, Area.Inside, recordAt,
    fieldCountAt, fieldAt, sizeof_record_entry, sizeof_field_entry]
  constructor
  · intro h i hi
    have hlast := h ⟨_, 4⟩ ⟨i, hi, Or.inr (Or.inr (Or.inr (Or.inl rfl)))⟩
    refine ⟨by omega, fun j hj => ?_⟩
    have hfield := h ⟨_, 2⟩ ⟨i, hi, Or.inr (Or.inr (Or.inr (Or.inr ⟨j, hj, Or.inr (Or.inr rfl)⟩)))⟩
    omega
  · rintro h a ⟨i, hi, ha⟩
    obtain ⟨hrow, hfields⟩ := h i hi
    rcases ha with rfl | rfl | rfl | rfl | ⟨j, hj, ha⟩
    · dsimp only
      omega
    · dsimp only
      omega
    · dsimp only
      omega
    · dsimp only
      omega
    · have hfield := hfields j hj
      rcases ha with rfl | rfl | rfl
      all_goals
        dsimp only
        omega

theorem inside_strings : (∀ a ∈ (strings data hdr dir).areas, a.Inside data.size) ↔
      ∀ k < hdr.string_count.toNat, StringsFit data dir.string_offset k →
        LengthFits data (stringOffset data dir.string_offset k) →
        Area.Inside data.size ⟨(stringOffset data dir.string_offset k).toNat, 2⟩ := by
  simp only [strings, mem_parseStrings]
  constructor
  · intro h k hk hfit hlen
    exact h _ ⟨k, hk, hfit, hlen, rfl⟩
  · rintro h a ⟨k, hk, hfit, hlen, rfl⟩
    exact h k hk hfit hlen

theorem inside_constants (n : Nat) :
    (∀ a ∈ (each (constEntry data dir.const_offset.toNat) n).areas, a.Inside size) ↔
      ∀ i < n, Area.Inside size ⟨constAt dir i, sizeof_const_entry⟩ := by
  simp only [mem_each, constEntry, bind_areas, pure_areas, read32_areas, List.append_nil,
    List.mem_singleton, Area.Inside, constAt, sizeof_const_entry]
  constructor
  · intro h i hi
    have hrow := h ⟨_, 4⟩ ⟨i, hi, rfl⟩
    omega
  · rintro h a ⟨i, hi, rfl⟩
    have hrow := h i hi
    dsimp only
    omega

theorem inside_hashes (first n : Nat) : (∀ a ∈ (hashes data dir first n).areas, a.Inside size) ↔
      ∀ i < n, Area.Inside size ⟨hashAt dir (first + i), 4⟩ := by
  simp only [hashes, mem_each, funcHash, read32_areas, List.mem_singleton, Area.Inside, hashAt]
  constructor
  · intro h i hi
    exact h ⟨_, 4⟩ ⟨i, hi, rfl⟩
  · rintro h a ⟨i, hi, rfl⟩
    exact h i hi

/-! ## What the module refers to -/

/-- What a whole module refers to lies inside the buffer, told from the binary. -/
structure WholeInside (MODULE_IS_64BIT : Bool) : Prop where
  trees : ∀ i < hdr.tree_count.toNat, Area.Inside data.size ⟨treeAt dir i, sizeof_tree_entry⟩
  params : ∀ i < hdr.tree_count.toNat, Area.Inside data.size
    ⟨(data.u32 (treeAt dir i + 16)).toNat,
      sizeof_param MODULE_IS_64BIT * (data.u16 (treeAt dir i + 20)).toNat⟩
  records : ∀ i < hdr.record_count.toNat,
    Area.Inside data.size ⟨recordAt dir i, sizeof_record_entry⟩
  fields : ∀ i < hdr.record_count.toNat, ∀ j < fieldCountAt data dir i,
    Area.Inside data.size ⟨fieldAt data dir i j, sizeof_field_entry⟩
  strings : ∀ k < hdr.string_count.toNat, ∃ n,
    (stringOffset data dir.string_offset k + 2).toNat + n < data.size ∧
    data.byte ((stringOffset data dir.string_offset k + 2).toNat + n) = 0
  const_entries : ∀ i < hdr.const_count.toNat,
    Area.Inside data.size ⟨constAt dir i, sizeof_const_entry⟩
  constants : ∀ i < hdr.const_count.toNat, Area.Inside data.size
    ⟨(data.u32 (constAt dir i + 8)).toNat, (data.u16 (constAt dir i + 6)).toNat⟩
  hashes : ∀ i < hdr.oneshot_count.toNat + hdr.main_count.toNat + hdr.pred_count.toNat,
    Area.Inside data.size ⟨hashAt dir i, 4⟩

section

variable (k block : Nat) (owned : Bool)

theorem withTables_trees : (withTables data hdr dir k (newModule block data owned hdr)).trees =
    if 0 < hdr.tree_count.toNat then
      some ⟨k, (each (treeEntry data dir.tree_offset.toNat) hdr.tree_count.toNat).val⟩
    else none := by
  simp only [withTables, apply_ite LoadedModule.trees, ite_self, storeRecords, storeTrees, newModule]

theorem withTables_strings :
    (withTables data hdr dir k (newModule block data owned hdr)).string_table =
      if 0 < hdr.string_count.toNat then
        some ⟨k + oneTable hdr.tree_count.toNat + recordTables data hdr dir,
          (strings data hdr dir).val.getD []⟩
      else none := by
  simp only [withTables, apply_ite LoadedModule.string_table, ite_self, storeRecords, storeTrees,
    newModule]

theorem withTables_constants :
    (withTables data hdr dir k (newModule block data owned hdr)).constants =
      if 0 < hdr.const_count.toNat then
        some ⟨k + oneTable hdr.tree_count.toNat + recordTables data hdr dir +
            oneTable hdr.string_count.toNat,
          (each (constEntry data dir.const_offset.toNat) hdr.const_count.toNat).val⟩
      else none := by
  simp only [withTables, apply_ite LoadedModule.constants, ite_self, storeRecords, storeTrees,
    newModule]

/-- The counts of a module are those of its header. -/
theorem withTables_counts :
    let defn := (withTables data hdr dir k (newModule block data owned hdr)).defn
    defn.tree_count = hdr.tree_count ∧ defn.record_count = hdr.record_count ∧
      defn.const_count = hdr.const_count ∧ defn.oneshot_count = hdr.oneshot_count ∧
      defn.main_count = hdr.main_count ∧ defn.pred_count = hdr.pred_count := by
  simp only [withTables, apply_ite LoadedModule.defn, apply_ite ModuleDef.tree_count,
    apply_ite ModuleDef.record_count, apply_ite ModuleDef.const_count,
    apply_ite ModuleDef.oneshot_count, apply_ite ModuleDef.main_count,
    apply_ite ModuleDef.pred_count, ite_self, storeRecords, storeTrees, newModule, and_self]

theorem refersInside_iff (MODULE_IS_64BIT : Bool)
    (hfit : StringsFit data data.directory.val.string_offset hdr.string_count.toNat) :
    RefersInside MODULE_IS_64BIT data
        (withTables data hdr data.directory.val k (newModule block data owned hdr)) ↔
      WholeInside data hdr data.directory.val MODULE_IS_64BIT := by
  obtain ⟨htree, hrecord, hconst, honeshot, hmain, hpred⟩ :=
    withTables_counts data hdr data.directory.val k block owned
  have hstrings : (strings data hdr data.directory.val).val = some ((List.range
      hdr.string_count.toNat).map fun k =>
        (stringOffset data data.directory.val.string_offset k + 2).toNat) := parseStrings_val hfit
  constructor
  · rintro ⟨htrees, hparams, hrecords, hfields, hstr, hentries, hconstants, hhashes⟩
    simp only [withTables_trees, withTables_strings, withTables_constants, hstrings] at *
    rw [htree] at htrees
    rw [hrecord] at hrecords hfields
    rw [hconst] at hentries
    rw [honeshot, hmain, hpred] at hhashes
    refine ⟨htrees, ?_, hrecords, hfields, ?_, hentries, ?_, hhashes⟩
    · intro i hi
      rw [if_pos (by omega)] at hparams
      apply hparams _ rfl ⟨_, _, _, _, _, _, _⟩
      rw [each_val]
      exact List.mem_map.mpr ⟨i, List.mem_range.mpr hi, rfl⟩
    · intro j hj
      rw [if_pos (by omega)] at hstr
      exact hstr _ rfl _ (List.mem_map.mpr ⟨j, List.mem_range.mpr hj, rfl⟩)
    · intro i hi
      rw [if_pos (by omega)] at hconstants
      have hrow := hconstants _ rfl i
      simp only [each_val, List.length_map, List.length_range, List.getElem_map,
        List.getElem_range] at hrow
      exact hrow hi
  · rintro ⟨htrees, hparams, hrecords, hfields, hstr, hentries, hconstants, hhashes⟩
    refine ⟨?_, ?_, ?_, ?_, ?_, ?_, ?_, ?_⟩
    · rw [htree]
      exact htrees
    · rw [withTables_trees]
      intro table htable t ht
      by_cases hpos : 0 < hdr.tree_count.toNat
      · rw [if_pos hpos] at htable
        cases htable
        simp only [each_val, List.mem_map, List.mem_range] at ht
        obtain ⟨i, hi, rfl⟩ := ht
        exact hparams i hi
      · rw [if_neg hpos] at htable
        cases htable
    · rw [hrecord]
      exact hrecords
    · rw [hrecord]
      exact hfields
    · rw [withTables_strings, hstrings]
      intro table htable t ht
      by_cases hpos : 0 < hdr.string_count.toNat
      · rw [if_pos hpos] at htable
        cases htable
        simp only [Option.getD_some, List.mem_map, List.mem_range] at ht
        obtain ⟨j, hj, rfl⟩ := ht
        exact hstr j hj
      · rw [if_neg hpos] at htable
        cases htable
    · rw [hconst]
      exact hentries
    · rw [withTables_constants]
      intro table htable i hi
      by_cases hpos : 0 < hdr.const_count.toNat
      · rw [if_pos hpos] at htable
        cases htable
        simp only [each_val, List.length_map, List.length_range, List.getElem_map,
          List.getElem_range] at hi ⊢
        exact hconstants i hi
      · rw [if_neg hpos] at htable
        cases htable
    · rw [honeshot, hmain, hpred]
      exact hhashes

end

/-! ## The bounds -/

/-- The bounds that the loader does not check itself, for one that gets `g n`: the blocks
of its first `n` tables. A table that it gets to lies inside the buffer, the length of a
string is not read past the end where the offset wraps, and what a module that comes out
refers to lies inside. -/
structure InBounds (MODULE_IS_64BIT : Bool) (g : Nat → Prop) : Prop where
  trees : g 1 → ∀ i < hdr.tree_count.toNat, Area.Inside data.size ⟨treeAt dir i, 22⟩
  field_counts : g (oneTable hdr.tree_count.toNat + 1) → ∀ i < hdr.record_count.toNat,
    Area.Inside data.size ⟨recordAt dir i, 6⟩
  records : g (oneTable hdr.tree_count.toNat + recordTables data hdr dir) →
    ∀ i < hdr.record_count.toNat, Area.Inside data.size ⟨recordAt dir i, sizeof_record_entry⟩ ∧
      ∀ j < fieldCountAt data dir i, Area.Inside data.size ⟨fieldAt data dir i j, 10⟩
  lengths : g (oneTable hdr.tree_count.toNat + recordTables data hdr dir + 1) →
    ∀ k < hdr.string_count.toNat, StringsFit data dir.string_offset k →
      LengthFits data (stringOffset data dir.string_offset k) →
      Area.Inside data.size ⟨(stringOffset data dir.string_offset k).toNat, 2⟩
  constants : StringsFit data dir.string_offset hdr.string_count.toNat ∧
      g (oneTable hdr.tree_count.toNat + recordTables data hdr dir +
        oneTable hdr.string_count.toNat + 1) →
    ∀ i < hdr.const_count.toNat, Area.Inside data.size ⟨constAt dir i, sizeof_const_entry⟩
  oneshots : StringsFit data dir.string_offset hdr.string_count.toNat ∧
      g (oneTable hdr.tree_count.toNat + recordTables data hdr dir +
        oneTable hdr.string_count.toNat + oneTable hdr.const_count.toNat + 1) →
    ∀ i < hdr.oneshot_count.toNat, Area.Inside data.size ⟨hashAt dir (0 + i), 4⟩
  mains : StringsFit data dir.string_offset hdr.string_count.toNat ∧
      g (oneTable hdr.tree_count.toNat + recordTables data hdr dir +
        oneTable hdr.string_count.toNat + oneTable hdr.const_count.toNat +
        oneTable hdr.oneshot_count.toNat + 1) →
    ∀ i < hdr.main_count.toNat,
      Area.Inside data.size ⟨hashAt dir (hdr.oneshot_count.toNat + i), 4⟩
  preds : StringsFit data dir.string_offset hdr.string_count.toNat ∧
      g (oneTable hdr.tree_count.toNat + recordTables data hdr dir +
        oneTable hdr.string_count.toNat + oneTable hdr.const_count.toNat +
        oneTable hdr.oneshot_count.toNat + oneTable hdr.main_count.toNat + 1) →
    ∀ i < hdr.pred_count.toNat, Area.Inside data.size
      ⟨hashAt dir (hdr.oneshot_count.toNat + hdr.main_count.toNat + i), 4⟩
  module : StringsFit data dir.string_offset hdr.string_count.toNat →
    g (tableCount data hdr dir) → WholeInside data hdr dir MODULE_IS_64BIT

theorem seen_inside_iff {MODULE_IS_64BIT : Bool} {g : Nat → Prop}
    (hmono : ∀ m n, m ≤ n → g n → g m) : ((∀ a, Seen data hdr dir g a → a.Inside data.size) ∧
      (StringsFit data dir.string_offset hdr.string_count.toNat → g (tableCount data hdr dir) →
        WholeInside data hdr dir MODULE_IS_64BIT)) ↔
      InBounds data hdr dir MODULE_IS_64BIT g := by
  simp only [seen_iff data hdr dir hmono, or_imp, forall_and, and_imp]
  constructor
  · rintro ⟨⟨htrees, hcounts, hrecords, hlengths, hconstants, honeshots, hmains, hpreds⟩, hmodule⟩
    refine ⟨fun h => ?_, fun h => ?_, fun h => ?_, fun h => ?_, fun h => ?_, fun h => ?_,
      fun h => ?_, fun h => ?_, hmodule⟩
    · exact (inside_trees data dir _ _).mp fun a => htrees a h
    · exact (inside_fieldCounts data hdr dir _).mp fun a => hcounts a h
    · exact (inside_entries data hdr dir _).mp fun a => hrecords a h
    · exact (inside_strings data hdr dir).mp fun a => hlengths a h
    · exact (inside_constants data dir _ _).mp fun a => hconstants a h.1 h.2
    · exact (inside_hashes data dir _ _ _).mp fun a => honeshots a h.1 h.2
    · exact (inside_hashes data dir _ _ _).mp fun a => hmains a h.1 h.2
    · exact (inside_hashes data dir _ _ _).mp fun a => hpreds a h.1 h.2
  · rintro ⟨htrees, hcounts, hrecords, hlengths, hconstants, honeshots, hmains, hpreds, hmodule⟩
    refine ⟨⟨fun a h => ?_, fun a h => ?_, fun a h => ?_, fun a h => ?_, fun a h₁ h₂ => ?_,
      fun a h₁ h₂ => ?_, fun a h₁ h₂ => ?_, fun a h₁ h₂ => ?_⟩, hmodule⟩
    · exact (inside_trees data dir _ _).mpr (htrees h) a
    · exact (inside_fieldCounts data hdr dir _).mpr (hcounts h) a
    · exact (inside_entries data hdr dir _).mpr (hrecords h) a
    · exact (inside_strings data hdr dir).mpr (hlengths h) a
    · exact (inside_constants data dir _ _).mpr (hconstants ⟨h₁, h₂⟩) a
    · exact (inside_hashes data dir _ _ _).mpr (honeshots ⟨h₁, h₂⟩) a
    · exact (inside_hashes data dir _ _ _).mpr (hmains ⟨h₁, h₂⟩) a
    · exact (inside_hashes data dir _ _ _).mpr (hpreds ⟨h₁, h₂⟩) a

end

/-- The loader takes the header and has the module's block. -/
structure Accepted (MODULE_IS_64BIT : Bool) (data : Binary) (alloc : Allocator)
    (grants : Nat → Bool) : Prop where
  size : sizeof_header + sizeof_directory ≤ data.size
  header : accepts MODULE_IS_64BIT data.header.val = true
  malloc : alloc.malloc = true
  free : alloc.free = true
  module : grants 0 = true

variable {data : Binary}

theorem header_inside (h : sizeof_header + sizeof_directory ≤ data.size) :
    ∀ a ∈ data.header.areas, a.Inside data.size := by
  intro a ha
  have hend : ∀ b ∈ data.header.areas, b.off + b.len ≤ 26 := by
    simp [Binary.header]
  have hle := hend a ha
  simp only [Area.Inside, sizeof_header, sizeof_directory] at h ⊢
  omega

theorem directory_inside (h : sizeof_header + sizeof_directory ≤ data.size) :
    ∀ a ∈ data.directory.areas, a.Inside data.size := by
  intro a ha
  have hend : ∀ b ∈ data.directory.areas, b.off + b.len ≤ 64 := by
    simp [Binary.directory, sizeof_header]
  have hle := hend a ha
  simp only [Area.Inside, sizeof_header, sizeof_directory] at h ⊢
  omega

theorem turned_down {MODULE_IS_64BIT : Bool} {alloc : Allocator} (owned : Bool)
    {grants : Nat → Bool} (h : ¬ Accepted MODULE_IS_64BIT data alloc grants) :
    ∃ w, s_expr_load_binary MODULE_IS_64BIT (some data) alloc owned (.boot grants) = (none, w) ∧
      ReadsInside data.size w := by
  by_cases hsize : data.size < sizeof_header + sizeof_directory
  · refine ⟨.boot grants, by simp only [s_expr_load_binary, hsize, if_true], ?_⟩
    intro a ha
    cases ha
  · have hreads := header_inside (Nat.not_lt.mp hsize)
    cases haccepts : accepts MODULE_IS_64BIT data.header.val
    · exact ⟨World.look data.header (.boot grants),
        by simp [s_expr_load_binary, hsize, haccepts], hreads⟩
    by_cases halloc : alloc.malloc = true ∧ alloc.free = true
    · have hmodule : grants 0 = false := by
        cases hgrant : grants 0
        · rfl
        · exact absurd ⟨Nat.not_lt.mp hsize, haccepts, halloc.1, halloc.2, hgrant⟩ h
      exact ⟨{ World.look data.header (.boot grants) with asked := 1 }, by
        simp [s_expr_load_binary, hsize, haccepts, halloc.1, halloc.2, World.malloc, World.look,
          World.boot, hmodule], hreads⟩
    · have hbad : (!alloc.malloc || !alloc.free) = true := by
        cases hmalloc : alloc.malloc
        · rfl
        cases hfree : alloc.free
        · rfl
        · exact absurd ⟨hmalloc, hfree⟩ halloc
      exact ⟨World.look data.header (.boot grants),
        by simp [s_expr_load_binary, hsize, haccepts, hbad], hreads⟩

/-- The loader reads no byte outside the buffer, and a module that it returns refers to
nothing outside, if and only if the bounds that it does not check hold. -/
theorem loads_inside_iff (MODULE_IS_64BIT : Bool) (data : Binary) (alloc : Allocator)
    (binary_owned : Bool) (grants : Nat → Bool) :
    (ReadsInside data.size
        (s_expr_load_binary MODULE_IS_64BIT (some data) alloc binary_owned (.boot grants)).2 ∧
      ∀ l, (s_expr_load_binary MODULE_IS_64BIT (some data) alloc binary_owned (.boot grants)).1 =
        some l → RefersInside MODULE_IS_64BIT data l) ↔
      (Accepted MODULE_IS_64BIT data alloc grants →
        InBounds data data.header.val data.directory.val MODULE_IS_64BIT
          fun n => ∀ i < n, grants (1 + i) = true) := by
  by_cases hacc : Accepted MODULE_IS_64BIT data alloc grants
  · have hsize : ¬ data.size < sizeof_header + sizeof_directory := Nat.not_lt.mpr hacc.size
    let w : World := {
      grants, asked := 1, ledger := [.malloc 0]
      reads := data.header.areas ++ data.directory.areas }
    have hrun : s_expr_load_binary MODULE_IS_64BIT (some data) alloc binary_owned (.boot grants) =
        loadTables data data.header.val data.directory.val
          (newModule 0 data binary_owned data.header.val) w := by
      simp [s_expr_load_binary, hsize, hacc.header, hacc.malloc, hacc.free, World.malloc,
        World.look, World.boot, hacc.module, w]
    have hgranted : w.Granted = fun n => ∀ i < n, grants (1 + i) = true := rfl
    have hmono : ∀ m n, m ≤ n → w.Granted n → w.Granted m :=
      fun m n hle h i hi => h i (by omega)
    have hnone : NoTrees (newModule 0 data binary_owned data.header.val) :=
      ⟨rfl, rfl, rfl, rfl, rfl, rfl, rfl, rfl⟩
    have hspec := loadTables_spec data data.header.val data.directory.val
    have hfit := parseStrings_isSome data data.directory.val.string_offset
      data.header.val.string_count.toNat
    have hreads : ∀ w', (∀ a, a ∈ w'.reads ↔ a ∈ w.reads ∨
        Seen data data.header.val data.directory.val w.Granted a) →
        (ReadsInside data.size w' ↔ ∀ a,
          Seen data data.header.val data.directory.val w.Granted a → a.Inside data.size) := by
      intro w' hw'
      constructor
      · intro h a ha
        exact h a ((hw' a).mpr (Or.inr ha))
      · intro h a ha
        rcases (hw' a).mp ha with hmem | hseen
        · rcases List.mem_append.mp hmem with hheader | hdirectory
          · exact header_inside hacc.size a hheader
          · exact directory_inside hacc.size a hdirectory
        · exact h a hseen
    rw [hrun, forall_prop_of_true hacc, ← hgranted, ← seen_inside_iff _ _ _ hmono]
    by_cases hall : w.Granted (tableCount data data.header.val data.directory.val) ∧
        (strings data data.header.val data.directory.val).val.isSome = true
    · obtain ⟨w', htables, -, -, -, hw'⟩ := hspec.full _ w hnone hall.1 hall.2
      have hparsed := hfit.mp hall.2
      rw [htables, hreads w' hw']
      apply and_congr Iff.rfl
      constructor
      · intro h _ _
        exact (refersInside_iff data _ _ _ _ _ hparsed).mp (h _ rfl)
      · intro h l hl
        cases hl
        exact (refersInside_iff data _ _ _ _ _ hparsed).mpr (h hparsed hall.1)
    · obtain ⟨w', k, given, htables, -, -, hw'⟩ := hspec.short _ w hnone hall
      rw [htables, hreads w' hw']
      apply and_congr Iff.rfl
      refine iff_of_true (fun l hl => by cases hl) fun hparsed hgrant => ?_
      exact absurd ⟨hgrant, hfit.mpr hparsed⟩ hall
  · obtain ⟨w, hrun, hinside⟩ := turned_down binary_owned hacc
    rw [hrun]
    exact iff_of_true ⟨hinside, fun l hl => by cases hl⟩ fun h => absurd h hacc

/-- A module that was cut behind its directory, in front of its one tree. -/
def cutModule : Binary where
  block := 0
  byte := fun i => ([0x53, 0x45, 0x58, 0x42, 0x03, 0x05, 0, 0, 0, 0, 0, 0, 1, 0, 0, 0, 0, 0, 0, 0,
    0, 0, 0, 0, 0, 0, 0, 0, 0, 0, 0, 0, 64] : List UInt8).getD i 0
  size := 64

/-- It is loaded, and its tree is read from behind the end. -/
theorem cut_module_is_read_past_its_end :
    (s_expr_load_binary false (some cutModule) ⟨true, true⟩ false (.boot fun _ => true)).1.isSome =
        true ∧
      ¬ ReadsInside cutModule.size
        (s_expr_load_binary false (some cutModule) ⟨true, true⟩ false (.boot fun _ => true)).2 := by
  have hread : (⟨64, 4⟩ : Area) ∈
      (s_expr_load_binary false (some cutModule) ⟨true, true⟩ false (.boot fun _ => true)).2.reads := by
    decide +kernel
  refine ⟨by decide +kernel, fun h => ?_⟩
  have hinside := h _ hread
  exact absurd hinside (by decide)

end motioncore.loader
