-- What a section of the loader does: which blocks it takes, what it reads, and
-- that a section that gives up has released all the module owned.
import MotionCore.Loader.Binary

open motioncore.bytes motioncore.ledger

namespace motioncore.loader

/-! ## Blocks -/

def Table.block? {α : Type} (t : Option (Table α)) : List Nat := (t.map Table.block).toList

/-- The blocks of a module, in the order in which they are released. -/
def LoadedModule.owned (loaded : LoadedModule) : List Nat :=
  Table.block? loaded.trees ++ Table.block? loaded.records ++ Table.block? loaded.fields ++
    Table.block? loaded.oneshot_hashes ++ Table.block? loaded.main_hashes ++
    Table.block? loaded.pred_hashes ++ Table.block? loaded.string_table ++
    Table.block? loaded.constants ++
    (if loaded.binary_owned then [loaded.binary_data.block] else []) ++ [loaded.block]

/-- The world after the blocks `given` went back. -/
def World.release (given : List Nat) (w : World) : World :=
  { w with ledger := w.ledger ++ given.map .free }

theorem release_append (a b : List Nat) (w : World) :
    (w.release a).release b = w.release (a ++ b) := by
  simp [World.release, List.append_assoc]

theorem freeTable_eq {α : Type} (t : Option (Table α)) (w : World) :
    freeTable t w = w.release (Table.block? t) := by
  cases t <;> simp [freeTable, World.release, World.free, Table.block?]

theorem unload_releases (loaded : LoadedModule) (w : World) :
    s_expr_unload_module loaded w = w.release loaded.owned := by
  have hfree : ∀ (b : Nat) (w : World), w.free b = w.release [b] := fun _ _ => rfl
  cases h : loaded.binary_owned <;>
    simp [s_expr_unload_module, freeTable_eq, hfree, release_append, LoadedModule.owned, h]

theorem owned_error (loaded : LoadedModule) (code : UInt8) :
    ({ loaded with error_code := code } : LoadedModule).owned = loaded.owned := rfl

/-! ## The spec of a section -/

/-- The next `n` requests get their blocks. -/
def World.Granted (w : World) (n : Nat) : Prop := ∀ i < n, w.grants (w.asked + i) = true

instance (w : World) (n : Nat) : Decidable (w.Granted n) :=
  inferInstanceAs (Decidable (∀ i < n, _))

theorem granted_add {w w' : World} {n : Nat} (hgrants : w'.grants = w.grants)
    (hasked : w'.asked = w.asked + n) (m : Nat) :
    w.Granted (n + m) ↔ w.Granted n ∧ w'.Granted m := by
  constructor
  · intro h
    refine ⟨fun i hi => h i (by omega), fun i hi => ?_⟩
    rw [hgrants, hasked, Nat.add_assoc]
    exact h (n + i) (by omega)
  · rintro ⟨hn, hm⟩ i hi
    by_cases hlt : i < n
    · exact hn i hlt
    · have h := hm (i - n) (by omega)
      rw [hgrants, hasked] at h
      rwa [show w.asked + i = w.asked + n + (i - n) by omega]

/-- A section takes a block for each of its `tables`, and goes on when it got them all
and what it reads `parses`. What it `sees` depends on how many blocks it got. -/
structure Section.Spec (sec : Section) (before after : LoadedModule → Prop) (tables : Nat)
    (parses : Prop) (fill : Nat → LoadedModule → LoadedModule)
    (sees : (Nat → Prop) → Area → Prop) : Prop where
  full : ∀ l w, before l → w.Granted tables → parses →
    ∃ w', sec l w = (some (fill w.asked l), w') ∧ w'.grants = w.grants ∧
      w'.asked = w.asked + tables ∧
      w'.ledger = w.ledger ++ takenAndGiven (List.range' w.asked tables) [] ∧
      ∀ a, a ∈ w'.reads ↔ a ∈ w.reads ∨ sees w.Granted a
  short : ∀ l w, before l → ¬ (w.Granted tables ∧ parses) →
    ∃ w' k given, sec l w = (none, w') ∧
      w'.ledger = w.ledger ++ takenAndGiven (List.range' w.asked k) given ∧
      given.Perm (l.owned ++ List.range' w.asked k) ∧
      ∀ a, a ∈ w'.reads ↔ a ∈ w.reads ∨ sees w.Granted a
  filled : ∀ l k, before l →
    after (fill k l) ∧ (fill k l).owned.Perm (l.owned ++ List.range' k tables)

theorem taken_then (asked n k : Nat) (given : List Nat) :
    takenAndGiven (List.range' asked n) [] ++ takenAndGiven (List.range' (asked + n) k) given =
      takenAndGiven (List.range' asked (n + k)) given := by
  simp [takenAndGiven, ← List.range'_append_1]

theorem Section.Spec.andThen {a b : Section} {before mid after : LoadedModule → Prop}
    {n m : Nat} {pa pb : Prop} {fa fb : Nat → LoadedModule → LoadedModule}
    {sa sb : (Nat → Prop) → Area → Prop} (ha : a.Spec before mid n pa fa sa)
    (hb : b.Spec mid after m pb fb sb) :
    (a.andThen b).Spec before after (n + m) (pa ∧ pb) (fun k l => fb (k + n) (fa k l))
      fun g x => sa g x ∨ g n ∧ pa ∧ sb (fun k => g (n + k)) x := by
  refine ⟨?_, ?_, ?_⟩
  · rintro l w hl hg ⟨hpa, hpb⟩
    obtain ⟨w₁, hrun₁, hgrants₁, hasked₁, hledger₁, hreads₁⟩ :=
      ha.full l w hl (fun i hi => hg i (by omega)) hpa
    have hadd := granted_add hgrants₁ hasked₁
    obtain ⟨hgn, hgm⟩ := (hadd m).mp hg
    obtain ⟨w₂, hrun₂, hgrants₂, hasked₂, hledger₂, hreads₂⟩ :=
      hb.full (fa w.asked l) w₁ (ha.filled l w.asked hl).1 hgm hpb
    have hlater : w₁.Granted = fun k => w.Granted (n + k) := by
      funext k
      simp [hadd k, hgn]
    refine ⟨w₂, ?_, hgrants₂.trans hgrants₁, by omega, ?_, ?_⟩
    · simp only [Section.andThen, hrun₁, hrun₂, hasked₁]
    · rw [hledger₂, hledger₁, List.append_assoc, hasked₁, taken_then]
    · intro x
      rw [hreads₂, hreads₁, hlater]
      simp [hgn, hpa, or_assoc]
  · intro l w hl hg
    by_cases hfirst : w.Granted n ∧ pa
    · obtain ⟨w₁, hrun₁, hgrants₁, hasked₁, hledger₁, hreads₁⟩ :=
        ha.full l w hl hfirst.1 hfirst.2
      obtain ⟨hmid, howned⟩ := ha.filled l w.asked hl
      have hadd := granted_add hgrants₁ hasked₁
      have hshort : ¬ (w₁.Granted m ∧ pb) := fun h =>
        hg ⟨(hadd m).mpr ⟨hfirst.1, h.1⟩, hfirst.2, h.2⟩
      obtain ⟨w₂, k, given, hrun₂, hledger₂, hgiven, hreads₂⟩ :=
        hb.short (fa w.asked l) w₁ hmid hshort
      have hlater : w₁.Granted = fun k => w.Granted (n + k) := by
        funext k
        simp [hadd k, hfirst.1]
      refine ⟨w₂, n + k, given, ?_, ?_, ?_, ?_⟩
      · simp only [Section.andThen, hrun₁, hrun₂]
      · rw [hledger₂, hledger₁, List.append_assoc, hasked₁, taken_then]
      · rw [← List.range'_append_1, ← List.append_assoc, ← hasked₁]
        exact hgiven.trans (howned.append_right _)
      · intro x
        rw [hreads₂, hreads₁, hlater]
        simp [hfirst.1, hfirst.2, or_assoc]
    · obtain ⟨w₁, k, given, hrun₁, hledger₁, hgiven, hreads₁⟩ := ha.short l w hl hfirst
      refine ⟨w₁, k, given, ?_, hledger₁, hgiven, ?_⟩
      · simp only [Section.andThen, hrun₁]
      · intro x
        rw [hreads₁]
        have hnot : ¬ (w.Granted n ∧ pa ∧ sb (fun k => w.Granted (n + k)) x) :=
          fun h => hfirst ⟨h.1, h.2.1⟩
        simp [hnot]
  · intro l k hl
    obtain ⟨hmid, howned⟩ := ha.filled l k hl
    obtain ⟨hafter, howned'⟩ := hb.filled (fa k l) (k + n) hmid
    refine ⟨hafter, ?_⟩
    rw [← List.range'_append_1, ← List.append_assoc]
    exact howned'.trans (howned.append_right _)

/-! ## The sections -/

theorem malloc_granted {w : World} (h : w.Granted 1) : w.malloc = (some w.asked, { w with
      asked := w.asked + 1, ledger := w.ledger ++ [.malloc w.asked] }) :=
  if_pos (h 0 Nat.one_pos)

theorem malloc_refused {w : World} (h : ¬ w.Granted 1) :
    w.malloc = (none, { w with asked := w.asked + 1 }) := by
  refine if_neg fun hgrant => h fun i hi => ?_
  obtain rfl : i = 0 := by omega
  exact hgrant

def oneTable (count : Nat) : Nat := if 0 < count then 1 else 0

variable {count : Nat}

theorem oneTable_pos (h : 0 < count) : oneTable count = 1 := if_pos h

theorem oneTable_zero (h : ¬ 0 < count) : oneTable count = 0 := if_neg h

theorem fillTable_spec {α : Type} {before after : LoadedModule → Prop} {rows : Access (List α)}
    {store : Table α → LoadedModule → LoadedModule} (hkeep : ∀ l, before l → after l)
    (hstore : ∀ l t, before l → after (store t l) ∧ (store t l).owned.Perm (l.owned ++ [t.block])) :
    (fillTable count rows store).Spec before after (oneTable count) True
      (fun k l => if 0 < count then store ⟨k, rows.val⟩ l else l)
      fun g a => 0 < count ∧ g 1 ∧ a ∈ rows.areas := by
  by_cases hcount : 0 < count
  · simp only [hcount, oneTable_pos, if_true, true_and]
    refine ⟨?_, ?_, fun l k hl => hstore l _ hl⟩
    · intro l w hl hg _
      refine ⟨World.look rows { w with
        asked := w.asked + 1, ledger := w.ledger ++ [.malloc w.asked] }, ?_, ?_⟩
      · rw [fillTable, if_pos hcount, malloc_granted hg]
      · simp [World.look, takenAndGiven, hg]
    · intro l w hl hg
      have hg' : ¬ w.Granted 1 := fun h => hg ⟨h, trivial⟩
      refine ⟨World.release l.owned { w with asked := w.asked + 1 }, 0, l.owned, ?_, ?_⟩
      · rw [fillTable, if_pos hcount, malloc_refused hg']
        simp only [giveUp, unload_releases, owned_error]
      · simp [World.release, takenAndGiven, hg']
  · simp only [hcount, oneTable_zero, not_false_eq_true, if_false, false_and]
    refine ⟨?_, ?_, ?_⟩
    · intro l w hl _ _
      refine ⟨w, ?_, rfl, rfl, ?_⟩
      · rw [fillTable, if_neg hcount]
      · simp [takenAndGiven]
    · intro l w hl hg
      exact absurd ⟨fun i hi => absurd hi (Nat.not_lt_zero i), trivial⟩ hg
    · intro l k hl
      refine ⟨hkeep l hl, ?_⟩
      simp

/-! The sections fill the module in their order: before a section, its own table
and those of the sections behind it are not there yet. -/

def NoPredHashes (l : LoadedModule) : Prop := l.pred_hashes = none
def NoMainHashes (l : LoadedModule) : Prop := l.main_hashes = none ∧ NoPredHashes l
def NoOneshotHashes (l : LoadedModule) : Prop := l.oneshot_hashes = none ∧ NoMainHashes l
def NoConstants (l : LoadedModule) : Prop := l.constants = none ∧ NoOneshotHashes l
def NoStrings (l : LoadedModule) : Prop := l.string_table = none ∧ NoConstants l
def NoRecords (l : LoadedModule) : Prop := l.records = none ∧ l.fields = none ∧ NoStrings l
def NoTrees (l : LoadedModule) : Prop := l.trees = none ∧ NoRecords l

section

variable (data : Binary) (hdr : Header) (dir : Directory)

/-- A block that the module takes for a table it had not is one more that it owns. -/
theorem owns_one_more {l l' : LoadedModule} {b : Nat}
    (h : ∀ x, l'.owned.count x = l.owned.count x + [b].count x) : l'.owned.Perm (l.owned ++ [b]) :=
  List.perm_iff_count.mpr fun x => by rw [h x, List.count_append]

theorem count_block {α : Type} (t : Table α) (x : Nat) :
    (Table.block? (some t)).count x = [t.block].count x := rfl

theorem count_no_block {α : Type} (x : Nat) :
    (Table.block? (none : Option (Table α))).count x = 0 := rfl

theorem loadTrees_spec :
    (loadTrees data hdr dir).Spec NoTrees NoRecords (oneTable hdr.tree_count.toNat) True
      (fun k l => if 0 < hdr.tree_count.toNat then
        storeTrees ⟨k, (each (treeEntry data dir.tree_offset.toNat) hdr.tree_count.toNat).val⟩ l
        else l)
      fun g a => 0 < hdr.tree_count.toNat ∧ g 1 ∧
        a ∈ (each (treeEntry data dir.tree_offset.toNat) hdr.tree_count.toNat).areas := by
  apply fillTable_spec
  · exact fun l h => h.2
  · intro l t h
    refine ⟨h.2, owns_one_more fun x => ?_⟩
    have hstore : (storeTrees t l).owned = ({ l with trees := some t } : LoadedModule).owned := rfl
    rw [hstore]
    simp only [LoadedModule.owned, List.count_append, h.1, count_block, count_no_block]
    omega

theorem loadConstants_spec : (loadConstants data hdr dir).Spec NoConstants NoOneshotHashes
      (oneTable hdr.const_count.toNat) True
      (fun k l => if 0 < hdr.const_count.toNat then
        { l with
          constants := some
            ⟨k, (each (constEntry data dir.const_offset.toNat) hdr.const_count.toNat).val⟩ }
        else l)
      fun g a => 0 < hdr.const_count.toNat ∧ g 1 ∧
        a ∈ (each (constEntry data dir.const_offset.toNat) hdr.const_count.toNat).areas := by
  apply fillTable_spec
  · exact fun l h => h.2
  · intro l t h
    refine ⟨h.2, owns_one_more fun x => ?_⟩
    simp only [LoadedModule.owned, List.count_append, h.1, count_block, count_no_block]
    omega

/-- The hashes of one kind of function: `count` of them from the place `first` on. -/
def hashes (data : Binary) (dir : Directory) (first count : Nat) : Access (List UInt32) :=
  each (funcHash data dir first) count

theorem loadOneshotHashes_spec : (loadOneshotHashes data hdr dir).Spec NoOneshotHashes NoMainHashes
      (oneTable hdr.oneshot_count.toNat) True
      (fun k l => if 0 < hdr.oneshot_count.toNat then
        { l with oneshot_hashes := some ⟨k, (hashes data dir 0 hdr.oneshot_count.toNat).val⟩ }
        else l)
      fun g a => 0 < hdr.oneshot_count.toNat ∧ g 1 ∧
        a ∈ (hashes data dir 0 hdr.oneshot_count.toNat).areas := by
  apply fillTable_spec
  · exact fun l h => h.2
  · intro l t h
    refine ⟨h.2, owns_one_more fun x => ?_⟩
    simp only [LoadedModule.owned, List.count_append, h.1, count_block, count_no_block]
    omega

theorem loadMainHashes_spec : (loadMainHashes data hdr dir).Spec NoMainHashes NoPredHashes
      (oneTable hdr.main_count.toNat) True
      (fun k l => if 0 < hdr.main_count.toNat then
        { l with
          main_hashes := some
            ⟨k, (hashes data dir hdr.oneshot_count.toNat hdr.main_count.toNat).val⟩ }
        else l)
      fun g a => 0 < hdr.main_count.toNat ∧ g 1 ∧
        a ∈ (hashes data dir hdr.oneshot_count.toNat hdr.main_count.toNat).areas := by
  apply fillTable_spec
  · exact fun l h => h.2
  · intro l t h
    refine ⟨h.2, owns_one_more fun x => ?_⟩
    simp only [LoadedModule.owned, List.count_append, h.1, count_block, count_no_block]
    omega

theorem loadPredHashes_spec : (loadPredHashes data hdr dir).Spec NoPredHashes (fun _ => True)
      (oneTable hdr.pred_count.toNat) True
      (fun k l => if 0 < hdr.pred_count.toNat then
        { l with
          pred_hashes := some ⟨k, (hashes data dir
            (hdr.oneshot_count.toNat + hdr.main_count.toNat) hdr.pred_count.toNat).val⟩ }
        else l)
      fun g a => 0 < hdr.pred_count.toNat ∧ g 1 ∧
        a ∈ (hashes data dir (hdr.oneshot_count.toNat + hdr.main_count.toNat)
          hdr.pred_count.toNat).areas := by
  apply fillTable_spec
  · exact fun l _ => trivial
  · intro l t h
    refine ⟨trivial, owns_one_more fun x => ?_⟩
    have hnone : l.pred_hashes = none := h
    simp only [LoadedModule.owned, List.count_append, hnone, count_block, count_no_block]
    omega

/-! The strings may fail to parse, once their table has its block. -/

def strings : Access (Option (List Nat)) :=
  parseStrings data dir.string_offset hdr.string_count.toNat

theorem loadStrings_spec :
    (loadStrings data hdr dir).Spec NoStrings NoConstants (oneTable hdr.string_count.toNat)
      ((strings data hdr dir).val.isSome = true)
      (fun k l => if 0 < hdr.string_count.toNat then
        { l with string_table := some ⟨k, (strings data hdr dir).val.getD []⟩ } else l)
      fun g a => 0 < hdr.string_count.toNat ∧ g 1 ∧ a ∈ (strings data hdr dir).areas := by
  have hstore : ∀ (l : LoadedModule) (rows : List Nat) (k : Nat), NoStrings l →
      NoConstants { l with string_table := some ⟨k, rows⟩ } ∧
      ({ l with string_table := some ⟨k, rows⟩ } : LoadedModule).owned.Perm (l.owned ++ [k]) := by
    intro l rows k h
    refine ⟨h.2, owns_one_more fun x => ?_⟩
    simp only [LoadedModule.owned, List.count_append, h.1, count_block, count_no_block]
    omega
  by_cases hcount : 0 < hdr.string_count.toNat
  · simp only [hcount, oneTable_pos, if_true, true_and]
    refine ⟨?_, ?_, fun l k hl => hstore l _ k hl⟩
    · intro l w hl hg hparse
      obtain ⟨rows, hrows⟩ := Option.isSome_iff_exists.mp hparse
      refine ⟨World.look (strings data hdr dir) { w with
        asked := w.asked + 1, ledger := w.ledger ++ [.malloc w.asked] }, ?_, ?_⟩
      · have hval : (parseStrings data dir.string_offset hdr.string_count.toNat).val = some rows :=
          hrows
        rw [loadStrings, if_pos hcount, malloc_granted hg]
        simp only [hval, hrows, Option.getD_some]
        rfl
      · simp [World.look, takenAndGiven, hg]
    · intro l w hl hg
      by_cases hgrant : w.Granted 1
      · have hnone : (strings data hdr dir).val = none := by
          cases hval : (strings data hdr dir).val with
          | none => rfl
          | some rows => exact absurd ⟨hgrant, by rw [hval]; rfl⟩ hg
        have hval : (parseStrings data dir.string_offset hdr.string_count.toNat).val = none := hnone
        refine ⟨World.release ({ l with string_table := some ⟨w.asked, []⟩ } : LoadedModule).owned
          (World.look (strings data hdr dir) { w with
            asked := w.asked + 1, ledger := w.ledger ++ [.malloc w.asked] }), 1, _, ?_, ?_,
          (hstore l [] w.asked hl).2, ?_⟩
        · rw [loadStrings, if_pos hcount, malloc_granted hgrant]
          simp only [hval, giveUp, unload_releases]
          rfl
        · simp [World.release, World.look, takenAndGiven]
        · simp [World.release, World.look, hgrant]
      · refine ⟨World.release l.owned { w with asked := w.asked + 1 }, 0, l.owned, ?_, ?_⟩
        · rw [loadStrings, if_pos hcount, malloc_refused hgrant]
          simp only [giveUp, unload_releases, owned_error]
        · simp [World.release, takenAndGiven, hgrant]
  · have hnil : hdr.string_count.toNat = 0 := by omega
    have hsome : (strings data hdr dir).val.isSome = true := by
      rw [strings, hnil]
      rfl
    simp only [hcount, oneTable_zero, not_false_eq_true, if_false, false_and]
    refine ⟨?_, ?_, ?_⟩
    · intro l w hl _ _
      refine ⟨w, ?_, rfl, rfl, ?_⟩
      · rw [loadStrings, if_neg hcount]
      · simp [takenAndGiven]
    · intro l w hl hg
      exact absurd ⟨fun i hi => absurd hi (Nat.not_lt_zero i), hsome⟩ hg
    · intro l k hl
      refine ⟨hl.2, ?_⟩
      simp

/-! The records take a second block for their fields, unless there are none. -/

def fieldCounts : Access (List UInt16) :=
  each (recordFieldCount data dir.record_offset.toNat) hdr.record_count.toNat

def totalFields : Nat := ((fieldCounts data hdr dir).val.map UInt16.toNat).sum

def entries : Access (List RecordDesc × List FieldDesc) :=
  recordEntries data dir.record_offset.toNat hdr.record_count.toNat

def recordTables : Nat :=
  if 0 < hdr.record_count.toNat then 1 + oneTable (totalFields data hdr dir) else 0

def storeRecords (k : Nat) (l : LoadedModule) : LoadedModule :=
  { l with
    records := some ⟨k, (entries data hdr dir).val.1⟩
    fields := if 0 < totalFields data hdr dir then some ⟨k + 1, (entries data hdr dir).val.2⟩
      else l.fields }

theorem storeRecords_spec (l : LoadedModule) (k : Nat) (h : NoRecords l) :
    NoStrings (storeRecords data hdr dir k l) ∧
      (storeRecords data hdr dir k l).owned.Perm
        (l.owned ++ List.range' k (1 + oneTable (totalFields data hdr dir))) := by
  refine ⟨h.2.2, List.perm_iff_count.mpr fun x => ?_⟩
  by_cases hfields : 0 < totalFields data hdr dir
  · rw [storeRecords, if_pos hfields, oneTable_pos hfields]
    simp only [LoadedModule.owned, List.count_append, h.1, h.2.1, count_block, count_no_block,
      List.range', List.count_cons, List.count_nil]
    omega
  · rw [storeRecords, if_neg hfields, oneTable_zero hfields]
    simp only [LoadedModule.owned, List.count_append, h.1, h.2.1, count_block, count_no_block,
      List.range', List.count_cons, List.count_nil]
    omega

def withRecords (k : Nat) (l : LoadedModule) : LoadedModule :=
  { l with records := some ⟨k, (entries data hdr dir).val.1⟩ }

theorem withRecords_owned (l : LoadedModule) (k : Nat) (h : NoRecords l) :
    (withRecords data hdr dir k l).owned.Perm (l.owned ++ [k]) := by
  refine owns_one_more fun x => ?_
  rw [withRecords]
  simp only [LoadedModule.owned, List.count_append, h.1, count_block, count_no_block]
  omega

/-- The world once the records have their block and their fields are counted. -/
def afterRecords (w : World) : World :=
  World.look (fieldCounts data hdr dir) { w with
    asked := w.asked + 1, ledger := w.ledger ++ [.malloc w.asked] }

theorem afterRecords_granted (w : World) (m : Nat) :
    w.Granted (1 + m) ↔ w.Granted 1 ∧ (afterRecords data hdr dir w).Granted m := by
  apply granted_add
  · rfl
  · rfl

theorem loadRecords_granted {l : LoadedModule} {w : World}
    (hcount : 0 < hdr.record_count.toNat) (hg : w.Granted 1) : loadRecords data hdr dir l w =
      if 0 < totalFields data hdr dir then
        match (afterRecords data hdr dir w).malloc with
        | (none, w') => giveUp SEXB_ERR_ALLOC (withRecords data hdr dir w.asked l) w'
        | (some block, w') =>
          (some { withRecords data hdr dir w.asked l with
            fields := some ⟨block, (entries data hdr dir).val.2⟩ }, w'.look (entries data hdr dir))
      else (some (withRecords data hdr dir w.asked l),
        (afterRecords data hdr dir w).look (entries data hdr dir)) := by
  simp only [loadRecords, hcount, if_true, malloc_granted hg]
  rfl

theorem loadRecords_spec :
    (loadRecords data hdr dir).Spec NoRecords NoStrings (recordTables data hdr dir) True
      (fun k l => if 0 < hdr.record_count.toNat then storeRecords data hdr dir k l else l)
      fun g a => 0 < hdr.record_count.toNat ∧ (g 1 ∧ a ∈ (fieldCounts data hdr dir).areas ∨
        g (recordTables data hdr dir) ∧ a ∈ (entries data hdr dir).areas) := by
  by_cases hcount : 0 < hdr.record_count.toNat
  · have htables : recordTables data hdr dir = 1 + oneTable (totalFields data hdr dir) :=
      if_pos hcount
    simp only [hcount, if_true, true_and, htables]
    refine ⟨?_, ?_, fun l k hl => storeRecords_spec data hdr dir l k hl⟩
    · intro l w hl hg _
      have hone : w.Granted 1 := fun i hi => hg i (by omega)
      by_cases hfields : 0 < totalFields data hdr dir
      · rw [oneTable_pos hfields] at hg ⊢
        have htwo : (afterRecords data hdr dir w).Granted 1 :=
          ((afterRecords_granted data hdr dir w 1).mp hg).2
        refine ⟨World.look (entries data hdr dir) { afterRecords data hdr dir w with
          asked := w.asked + 2
          ledger := w.ledger ++ [.malloc w.asked] ++ [.malloc (w.asked + 1)] }, ?_, ?_⟩
        · rw [loadRecords_granted data hdr dir hcount hone, if_pos hfields, malloc_granted htwo,
            storeRecords, if_pos hfields]
          rfl
        · simp [World.look, afterRecords, takenAndGiven, List.range', hone, hg]
      · rw [oneTable_zero hfields] at hg ⊢
        refine ⟨World.look (entries data hdr dir) (afterRecords data hdr dir w), ?_, ?_⟩
        · rw [loadRecords_granted data hdr dir hcount hone, if_neg hfields, storeRecords,
            if_neg hfields]
          rfl
        · simp [World.look, afterRecords, takenAndGiven, hone]
    · intro l w hl hg
      by_cases hone : w.Granted 1
      · by_cases hfields : 0 < totalFields data hdr dir
        · rw [oneTable_pos hfields] at hg ⊢
          have hnot : ¬ w.Granted (1 + 1) := fun h => hg ⟨h, trivial⟩
          have htwo : ¬ (afterRecords data hdr dir w).Granted 1 := fun h =>
            hnot ((afterRecords_granted data hdr dir w 1).mpr ⟨hone, h⟩)
          refine ⟨World.release (withRecords data hdr dir w.asked l).owned
            { afterRecords data hdr dir w with asked := w.asked + 2 }, 1, _, ?_, ?_,
            withRecords_owned data hdr dir l w.asked hl, ?_⟩
          · rw [loadRecords_granted data hdr dir hcount hone, if_pos hfields, malloc_refused htwo]
            simp only [giveUp, unload_releases, owned_error]
            rfl
          · simp [World.release, World.look, afterRecords, takenAndGiven]
          · simp [World.release, World.look, afterRecords, hone, hnot]
        · rw [oneTable_zero hfields] at hg
          exact absurd ⟨hone, trivial⟩ hg
      · have hmore : ¬ w.Granted (1 + oneTable (totalFields data hdr dir)) := fun h =>
          hone fun i hi => h i (by omega)
        refine ⟨World.release l.owned { w with asked := w.asked + 1 }, 0, l.owned, ?_, ?_⟩
        · simp only [loadRecords, hcount, if_true, malloc_refused hone, giveUp, unload_releases,
            owned_error]
        · simp [World.release, takenAndGiven, hone, hmore]
  · have htables : recordTables data hdr dir = 0 := if_neg hcount
    simp only [hcount, htables, if_false, false_and]
    refine ⟨?_, ?_, ?_⟩
    · intro l w hl _ _
      refine ⟨w, ?_, rfl, rfl, ?_⟩
      · simp only [loadRecords, hcount, if_false]
      · simp [takenAndGiven]
    · intro l w hl hg
      exact absurd ⟨fun i hi => absurd hi (Nat.not_lt_zero i), trivial⟩ hg
    · intro l k hl
      refine ⟨hl.2.2, ?_⟩
      simp

end

end motioncore.loader
