-- The loader of binary modules (`s_engine_loader.c`). The tables of a module are
-- read in place: what the loader reads of the bytes it was given is kept beside
-- the values, and so are the calls of its allocator. EXCEPTION only reports here,
-- and the code behind it runs as it is written.
import Mathlib.Algebra.GroupWithZero.Nat
import MotionCore.Lib.Bytes
import MotionCore.Lib.Ledger

open motioncore.bytes motioncore.ledger

namespace motioncore.loader

/-! ## Bytes and reads -/

/-- A buffer. Its own bytes are the first `size`; what lies behind is other memory. -/
structure Binary where
  block : Nat
  byte : Nat → UInt8
  size : Nat

structure Area where
  off : Nat
  len : Nat
deriving DecidableEq

def Area.Inside (size : Nat) (a : Area) : Prop := a.off + a.len ≤ size

instance (size : Nat) (a : Area) : Decidable (a.Inside size) :=
  inferInstanceAs (Decidable (_ ≤ _))

/-- A value, and the reads it was made from. -/
structure Access (α : Type) where
  val : α
  areas : List Area

instance : Monad Access where
  pure a := ⟨a, []⟩
  bind m f := ⟨(f m.val).val, m.areas ++ (f m.val).areas⟩

def Binary.u16 (data : Binary) (off : Nat) : UInt16 := le16 (data.byte off) (data.byte (off + 1))

def Binary.u32 (data : Binary) (off : Nat) : UInt32 :=
  le32 [data.byte off, data.byte (off + 1), data.byte (off + 2), data.byte (off + 3)]

def Binary.read16 (data : Binary) (off : Nat) : Access UInt16 := ⟨data.u16 off, [⟨off, 2⟩]⟩

def Binary.read32 (data : Binary) (off : Nat) : Access UInt32 := ⟨data.u32 off, [⟨off, 4⟩]⟩

/-- The loop over the rows of a table. -/
def each {α : Type} (row : Nat → Access α) : Nat → Access (List α)
  | 0 => pure []
  | n + 1 => do
    let rows ← each row n
    let last ← row n
    pure (rows ++ [last])

/-! ## The formats -/

def SEXB_MAGIC : UInt32 := 0x42584553
def SEXB_VERSION : UInt16 := 0x0503
def SEXB_FLAG_64BIT : UInt16 := 0x0001

abbrev sizeof_header : Nat := 32
abbrev sizeof_directory : Nat := 32
abbrev sizeof_tree_entry : Nat := 24
abbrev sizeof_record_entry : Nat := 12
abbrev sizeof_field_entry : Nat := 12
abbrev sizeof_const_entry : Nat := 12

/-- `sizeof(s_expr_param_t)` for the two builds. -/
def sizeof_param (MODULE_IS_64BIT : Bool) : Nat := if MODULE_IS_64BIT then 16 else 8

/-- `sexb_header_t`, but for the fields that the loader does not read. -/
structure Header where
  magic : UInt32
  version : UInt16
  flags : UInt16
  name_hash : UInt32
  tree_count : UInt16
  record_count : UInt16
  string_count : UInt16
  const_count : UInt16
  oneshot_count : UInt16
  main_count : UInt16
  pred_count : UInt16

def Binary.header (data : Binary) : Access Header := do
  let magic ← data.read32 0
  let version ← data.read16 4
  let flags ← data.read16 6
  let name_hash ← data.read32 8
  let tree_count ← data.read16 12
  let record_count ← data.read16 14
  let string_count ← data.read16 16
  let const_count ← data.read16 18
  let oneshot_count ← data.read16 20
  let main_count ← data.read16 22
  let pred_count ← data.read16 24
  pure { magic, version, flags, name_hash, tree_count, record_count, string_count, const_count,
         oneshot_count, main_count, pred_count }

/-- `sexb_directory_t`, but for the offsets that the loader does not read. -/
structure Directory where
  tree_offset : UInt32
  record_offset : UInt32
  string_offset : UInt32
  const_offset : UInt32
  func_hash_offset : UInt32

def Binary.directory (data : Binary) : Access Directory := do
  let tree_offset ← data.read32 (sizeof_header + 0)
  let record_offset ← data.read32 (sizeof_header + 4)
  let string_offset ← data.read32 (sizeof_header + 12)
  let const_offset ← data.read32 (sizeof_header + 16)
  let func_hash_offset ← data.read32 (sizeof_header + 24)
  pure { tree_offset, record_offset, string_offset, const_offset, func_hash_offset }

/-! ## The loaded module -/

/-- `s_expr_tree_def_t`. `params` is the offset of the parameters in the binary. -/
structure TreeDef where
  name_hash : UInt32
  record_hash : UInt32
  params : Nat
  param_count : UInt16
  func_node_count : UInt16
  pointer_count : UInt16
  defaults_index : UInt16
deriving DecidableEq

structure FieldDesc where
  name_hash : UInt32
  offset : UInt16
  size : UInt16
deriving DecidableEq

/-- `s_expr_record_desc_t`. `fields` is the place of its first field among all. -/
structure RecordDesc where
  name_hash : UInt32
  total_size : UInt16
  field_count : UInt16
  fields : Nat
deriving DecidableEq

structure ModuleDef where
  name_hash : UInt32
  is_64bit : Bool
  tree_count : UInt16
  record_count : UInt16
  oneshot_count : UInt16
  main_count : UInt16
  pred_count : UInt16
  string_count : UInt16
  const_count : UInt16
  max_func_node_count : UInt16
  max_pointer_count : UInt16
  max_param_count : UInt16
deriving DecidableEq

/-- An array of the module, in its own block. -/
structure Table (α : Type) where
  block : Nat
  rows : List α
deriving DecidableEq

/-- `s_expr_loaded_module_t`. The strings and the constants are offsets in the binary. -/
structure LoadedModule where
  block : Nat
  defn : ModuleDef
  trees : Option (Table TreeDef)
  records : Option (Table RecordDesc)
  fields : Option (Table FieldDesc)
  oneshot_hashes : Option (Table UInt32)
  main_hashes : Option (Table UInt32)
  pred_hashes : Option (Table UInt32)
  string_table : Option (Table Nat)
  constants : Option (Table Nat)
  binary_data : Binary
  binary_owned : Bool
  error_code : UInt8

def SEXB_ERR_OK : UInt8 := 0
def SEXB_ERR_ALLOC : UInt8 := 6
def SEXB_ERR_CORRUPT : UInt8 := 7
/-- `s_expr_allocator_t`, as far as the loader looks at it: whether the two functions
are there. -/
structure Allocator where
  malloc : Bool
  free : Bool

/-- `grants n` says whether the request number `n` gets a block, which is then the
block `n`. -/
structure World where
  grants : Nat → Bool
  asked : Nat
  ledger : List Call
  reads : List Area

def World.malloc (w : World) : Option Nat × World :=
  if w.grants w.asked then
    (some w.asked, { w with asked := w.asked + 1, ledger := w.ledger ++ [.malloc w.asked] })
  else (none, { w with asked := w.asked + 1 })

def World.free (b : Nat) (w : World) : World := { w with ledger := w.ledger ++ [.free b] }

def World.look {α : Type} (m : Access α) (w : World) : World :=
  { w with reads := w.reads ++ m.areas }

def freeTable {α : Type} (t : Option (Table α)) (w : World) : World :=
  match t with
  | some t => w.free t.block
  | none => w

def s_expr_unload_module (loaded : LoadedModule) (w : World) : World :=
  let w := freeTable loaded.trees w
  let w := freeTable loaded.records w
  let w := freeTable loaded.fields w
  let w := freeTable loaded.oneshot_hashes w
  let w := freeTable loaded.main_hashes w
  let w := freeTable loaded.pred_hashes w
  let w := freeTable loaded.string_table w
  let w := freeTable loaded.constants w
  let w := if loaded.binary_owned then w.free loaded.binary_data.block else w
  w.free loaded.block

/-! ## The sections of `s_expr_load_binary` -/

/-- A section ends with the module or, once it has unloaded it, without. -/
abbrev Section := LoadedModule → World → Option LoadedModule × World

def Section.andThen (a b : Section) : Section := fun loaded w =>
  match a loaded w with
  | (some loaded, w) => b loaded w
  | (none, w) => (none, w)

def giveUp (code : UInt8) (loaded : LoadedModule) (w : World) : Option LoadedModule × World :=
  (none, s_expr_unload_module { loaded with error_code := code } w)

/-- A table with rows gets its block, and its rows are read. -/
def fillTable {α : Type} (count : Nat) (rows : Access (List α))
    (store : Table α → LoadedModule → LoadedModule) : Section := fun loaded w =>
  if 0 < count then
    match w.malloc with
    | (none, w) => giveUp SEXB_ERR_ALLOC loaded w
    | (some block, w) => (some (store ⟨block, rows.val⟩ loaded), w.look rows)
  else (some loaded, w)

def treeEntry (data : Binary) (base i : Nat) : Access TreeDef := do
  let off := base + sizeof_tree_entry * i
  let name_hash ← data.read32 off
  let record_hash ← data.read32 (off + 4)
  let func_node_count ← data.read16 (off + 8)
  let pointer_count ← data.read16 (off + 10)
  let defaults_index ← data.read16 (off + 12)
  let param_count ← data.read16 (off + 20)
  let param_offset ← data.read32 (off + 16)
  pure { name_hash, record_hash, params := param_offset.toNat, param_count, func_node_count,
         pointer_count, defaults_index }

def storeTrees (t : Table TreeDef) (loaded : LoadedModule) : LoadedModule :=
  { loaded with
    trees := some t
    defn := { loaded.defn with
      max_func_node_count := t.rows.foldl (fun m e => max m e.func_node_count) 0
      max_pointer_count := t.rows.foldl (fun m e => max m e.pointer_count) 0
      max_param_count := t.rows.foldl (fun m e => max m e.param_count) 0 } }

def loadTrees (data : Binary) (hdr : Header) (dir : Directory) : Section :=
  fillTable hdr.tree_count.toNat
    (each (treeEntry data dir.tree_offset.toNat) hdr.tree_count.toNat) storeTrees

/-- The `field_count` of an entry of the record table. -/
def recordFieldCount (data : Binary) (base i : Nat) : Access UInt16 :=
  data.read16 (base + sizeof_record_entry * i + 4)

def fieldEntry (data : Binary) (base j : Nat) : Access FieldDesc := do
  let off := base + sizeof_field_entry * j
  let name_hash ← data.read32 off
  let offset ← data.read16 (off + 6)
  let size ← data.read16 (off + 8)
  pure { name_hash, offset, size }

/-- A record, which takes its fields from the place `field_idx` on, with its fields. -/
def recordEntry (data : Binary) (base field_idx i : Nat) :
    Access (RecordDesc × List FieldDesc) := do
  let off := base + sizeof_record_entry * i
  let name_hash ← data.read32 off
  let total_size ← data.read16 (off + 6)
  let field_count ← data.read16 (off + 4)
  let field_table_offset ← data.read32 (off + 8)
  let fields ← each (fieldEntry data field_table_offset.toNat) field_count.toNat
  pure ({ name_hash, total_size, field_count, fields := field_idx }, fields)

/-- The loop over the records. `field_idx` is the number of fields so far. -/
def recordEntries (data : Binary) (base : Nat) : Nat → Access (List RecordDesc × List FieldDesc)
  | 0 => pure ([], [])
  | n + 1 => do
    let (records, fields) ← recordEntries data base n
    let (record, more) ← recordEntry data base fields.length n
    pure (records ++ [record], fields ++ more)

/-- The records, and then the fields of all of them in one block if there is any. -/
def loadRecords (data : Binary) (hdr : Header) (dir : Directory) : Section := fun loaded w =>
  let base := dir.record_offset.toNat
  let count := hdr.record_count.toNat
  if 0 < count then
    match w.malloc with
    | (none, w) => giveUp SEXB_ERR_ALLOC loaded w
    | (some block, w) =>
      let field_counts := each (recordFieldCount data base) count
      let total_fields := (field_counts.val.map UInt16.toNat).sum
      let entries := recordEntries data base count
      let loaded := { loaded with records := some ⟨block, entries.val.1⟩ }
      let w := w.look field_counts
      if 0 < total_fields then
        match w.malloc with
        | (none, w) => giveUp SEXB_ERR_ALLOC loaded w
        | (some block, w) =>
          (some { loaded with fields := some ⟨block, entries.val.2⟩ }, w.look entries)
      else (some loaded, w.look entries)
  else (some loaded, w)

/-- A string has a length before it, a zero byte behind it, and fills whole words. The
offsets are 32-bit numbers and may wrap. -/
def parse_string (data : Binary) (offset : UInt32) : Access (Option Nat × UInt32) :=
  if data.size < (offset + 2).toNat then pure (none, offset)
  else do
    let len ← data.read16 offset.toNat
    let offset := offset + 2
    if data.size < (offset + len.toUInt32 + 1).toNat then pure (none, offset)
    else
      let total := 2 + len.toUInt32 + 1
      let padding := (4 - total % 4) % 4
      pure (some offset.toNat, offset + (len.toUInt32 + 1 + padding))

/-- The loop over the strings. It stops at the first that does not parse. -/
def parseStrings (data : Binary) (offset : UInt32) : Nat → Access (Option (List Nat))
  | 0 => pure (some [])
  | n + 1 => do
    let (str, offset) ← parse_string data offset
    match str with
    | none => pure none
    | some str => do
      let rest ← parseStrings data offset n
      pure (rest.map (str :: ·))

def loadStrings (data : Binary) (hdr : Header) (dir : Directory) : Section := fun loaded w =>
  if 0 < hdr.string_count.toNat then
    match w.malloc with
    | (none, w) => giveUp SEXB_ERR_ALLOC loaded w
    | (some block, w) =>
      let strings := parseStrings data dir.string_offset hdr.string_count.toNat
      let w := w.look strings
      match strings.val with
      | none => giveUp SEXB_ERR_CORRUPT { loaded with string_table := some ⟨block, []⟩ } w
      | some rows => (some { loaded with string_table := some ⟨block, rows⟩ }, w)
  else (some loaded, w)

/-- A constant is the offset of its data in the binary. -/
def constEntry (data : Binary) (base i : Nat) : Access Nat := do
  let data_offset ← data.read32 (base + sizeof_const_entry * i + 8)
  pure data_offset.toNat

def loadConstants (data : Binary) (hdr : Header) (dir : Directory) : Section :=
  fillTable hdr.const_count.toNat
    (each (constEntry data dir.const_offset.toNat) hdr.const_count.toNat)
    fun t loaded => { loaded with constants := some t }

/-- The hash number `i` of those from `hash_idx` on. -/
def funcHash (data : Binary) (dir : Directory) (hash_idx i : Nat) : Access UInt32 :=
  data.read32 (dir.func_hash_offset.toNat + 4 * (hash_idx + i))

def loadOneshotHashes (data : Binary) (hdr : Header) (dir : Directory) : Section :=
  fillTable hdr.oneshot_count.toNat (each (funcHash data dir 0) hdr.oneshot_count.toNat)
    fun t loaded => { loaded with oneshot_hashes := some t }

def loadMainHashes (data : Binary) (hdr : Header) (dir : Directory) : Section :=
  fillTable hdr.main_count.toNat
    (each (funcHash data dir hdr.oneshot_count.toNat) hdr.main_count.toNat)
    fun t loaded => { loaded with main_hashes := some t }

def loadPredHashes (data : Binary) (hdr : Header) (dir : Directory) : Section :=
  fillTable hdr.pred_count.toNat
    (each (funcHash data dir (hdr.oneshot_count.toNat + hdr.main_count.toNat)) hdr.pred_count.toNat)
    fun t loaded => { loaded with pred_hashes := some t }

/-! ## The loader -/

def newModule (block : Nat) (data : Binary) (binary_owned : Bool) (hdr : Header) :
    LoadedModule where
  block := block
  defn := {
    name_hash := hdr.name_hash, is_64bit := hdr.flags &&& SEXB_FLAG_64BIT != 0
    tree_count := hdr.tree_count, record_count := hdr.record_count
    oneshot_count := hdr.oneshot_count, main_count := hdr.main_count, pred_count := hdr.pred_count
    string_count := hdr.string_count, const_count := hdr.const_count
    max_func_node_count := 0, max_pointer_count := 0, max_param_count := 0 }
  trees := none
  records := none
  fields := none
  oneshot_hashes := none
  main_hashes := none
  pred_hashes := none
  string_table := none
  constants := none
  binary_data := data
  binary_owned := binary_owned
  error_code := SEXB_ERR_OK

def loadTables (data : Binary) (hdr : Header) (dir : Directory) : Section :=
  (loadTrees data hdr dir).andThen <|
  (loadRecords data hdr dir).andThen <|
  (loadStrings data hdr dir).andThen <|
  (loadConstants data hdr dir).andThen <|
  (loadOneshotHashes data hdr dir).andThen <|
  (loadMainHashes data hdr dir).andThen <|
  loadPredHashes data hdr dir

/-- The checks of the header, in their order. `MODULE_IS_64BIT` is the build. -/
def accepts (MODULE_IS_64BIT : Bool) (hdr : Header) : Bool :=
  hdr.magic == SEXB_MAGIC && hdr.version == SEXB_VERSION &&
    (hdr.flags &&& SEXB_FLAG_64BIT != 0) == MODULE_IS_64BIT

def s_expr_load_binary (MODULE_IS_64BIT : Bool) (data : Option Binary) (alloc : Allocator)
    (binary_owned : Bool) (w : World) : Option LoadedModule × World :=
  match data with
  | none => (none, w)
  | some data =>
    if data.size < sizeof_header + sizeof_directory then (none, w)
    else
      let hdr := data.header.val
      let w := w.look data.header
      if !accepts MODULE_IS_64BIT hdr then (none, w)
      else if !alloc.malloc || !alloc.free then (none, w)
      else
        match w.malloc with
        | (none, w) => (none, w)
        | (some block, w) =>
          let dir := data.directory.val
          let loaded := newModule block data binary_owned hdr
          loadTables data hdr dir loaded (w.look data.directory)

end motioncore.loader
