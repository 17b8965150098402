-- The records of a module: the declarations that lay out their fields, and the C structs of the
-- header. The offsets and sizes of a record are those of its struct.
import MotionCore.Dsl.Closures
import MotionCore.Lib.Placement
import MotionCore.Lib.Runs

open motioncore.placement

namespace motioncore.records

open dsl (LuaString ascii)

/-! ## Records -/

structure TypeInfo where
  size : Nat
  align : Nat
  ctype : String
  tag : Nat
deriving DecidableEq

def type_table : List (LuaString × TypeInfo) :=
  [(ascii "int8", ⟨1, 1, "int8_t", 0x01⟩), (ascii "int16", ⟨2, 2, "int16_t", 0x02⟩),
    (ascii "int32", ⟨4, 4, "int32_t", 0x03⟩), (ascii "int64", ⟨8, 8, "int64_t", 0x04⟩),
    (ascii "uint8", ⟨1, 1, "uint8_t", 0x05⟩), (ascii "uint16", ⟨2, 2, "uint16_t", 0x06⟩),
    (ascii "uint32", ⟨4, 4, "uint32_t", 0x07⟩), (ascii "uint64", ⟨8, 8, "uint64_t", 0x08⟩),
    (ascii "float", ⟨4, 4, "float", 0x09⟩), (ascii "double", ⟨8, 8, "double", 0x0A⟩),
    (ascii "bool", ⟨1, 1, "bool", 0x0B⟩), (ascii "char", ⟨1, 1, "char", 0x0C⟩)]

def type_info (type_name : LuaString) : Option TypeInfo := type_table.lookup type_name

inductive FieldKind where
  | scalar
  | is_embedded (embedded_record : LuaString)
  | is_ptr64 (target_type : LuaString)
  | is_char_array (array_len : Nat)
  | is_int32_array (array_len : Nat)
  | is_float32_array (array_len : Nat)
deriving DecidableEq

structure Field where
  name : LuaString
  type : LuaString
  kind : FieldKind
  size : Nat
  align : Nat
  offset : Nat
  type_tag : Nat
deriving DecidableEq

structure Record where
  name : LuaString
  fields : List Field
  size : Nat
  align : Nat
deriving DecidableEq

/-- The records of a module in their order, and the one that is open. -/
structure Module where
  record_order : List Record
  current_record : Option Record
deriving DecidableEq

def find_record (records : List Record) (name : LuaString) : Option Record :=
  records.find? fun r => r.name == name

/-! ## Declarations -/

/-- A call of the DSL between `RECORD` and `END_RECORD`, and these two. -/
inductive Decl where
  | RECORD (name : LuaString)
  | FIELD (name type_name : LuaString)
  | INT32_ARRAY (name : LuaString) (length : Nat)
  | FLOAT32_ARRAY (name : LuaString) (length : Nat)
  | PTR64_FIELD (name target_type : LuaString)
  | CHAR_ARRAY (name : LuaString) (length : Nat)
  | END_RECORD

def unsafe_types : List LuaString :=
  [ascii "int8", ascii "uint8", ascii "int16", ascii "uint16", ascii "bool", ascii "char"]

/-- A field behind the others, at the next multiple of its alignment. -/
def add_field (r : Record) (name type : LuaString) (kind : FieldKind) (size align type_tag : Nat) :
    Record :=
  let offset := r.size
  let padding := (align - offset % align) % align
  let offset := offset + padding
  { r with
    size := offset + size
    align := if align > r.align then align else r.align
    fields := r.fields ++ [⟨name, type, kind, size, align, offset, type_tag⟩] }

/-- Characters need no padding, and leave the alignment of the record. -/
def add_char_array (r : Record) (name : LuaString) (length : Nat) : Record :=
  { r with
    size := r.size + length
    fields := r.fields ++ [⟨name, ascii "char_array", .is_char_array length, length, 1, r.size, 0x0D⟩] }

/-- `FIELD`: a scalar of at least 32 bits, or a record that is complete. -/
def FIELD (records : List Record) (r : Record) (name type_name : LuaString) : Except LuaString Record :=
  if unsafe_types.contains type_name then
    .error (ascii "Type '" ++ type_name ++
      ascii "' not allowed in FIELD() - use int32/uint32 minimum. For strings use CHAR_ARRAY().")
  else
    match type_info type_name with
    | some info => .ok (add_field r name type_name .scalar info.size info.align info.tag)
    | none =>
      match find_record records type_name with
      | some embedded =>
        .ok (add_field r name type_name (.is_embedded type_name) embedded.size embedded.align 0x0F)
      | none => .error (ascii "Unknown type: " ++ type_name)

def END_RECORD (r : Record) : Record :=
  { r with size := r.size + (r.align - r.size % r.align) % r.align }

/-- The open record, for the declarations that need one. -/
def Module.with_record (mod : Module) (f : Record → Except LuaString Record) : Except LuaString Module :=
  match mod.current_record with
  | none => .error (ascii "No record open")
  | some r => do
    let r ← f r
    return { mod with current_record := some r }

def declare (mod : Module) : Decl → Except LuaString Module
  | .RECORD name =>
    match mod.current_record with
    | some r => .error (ascii "Record already open: " ++ r.name)
    | none =>
      if (find_record mod.record_order name).isSome then .error (ascii "Record already defined: " ++ name)
      else .ok { mod with current_record := some ⟨name, [], 0, 1⟩ }
  | .FIELD name type_name => mod.with_record fun r => FIELD mod.record_order r name type_name
  | .INT32_ARRAY name length => mod.with_record fun r =>
    .ok (add_field r name (ascii "int32_array") (.is_int32_array length) (length * 4) 4 0x13)
  | .FLOAT32_ARRAY name length => mod.with_record fun r =>
    .ok (add_field r name (ascii "float32_array") (.is_float32_array length) (length * 4) 4 0x14)
  | .PTR64_FIELD name target_type => mod.with_record fun r =>
    .ok (add_field r name (ascii "ptr64") (.is_ptr64 target_type) 8 8 0x0E)
  | .CHAR_ARRAY name length => mod.with_record fun r =>
    if length < 4 then
      .error (ascii "CHAR_ARRAY length must be at least 4 bytes (32-bit write safety)")
    else .ok (add_char_array r name length)
  | .END_RECORD =>
    match mod.current_record with
    | none => .error (ascii "No record open")
    | some r => .ok ⟨mod.record_order ++ [END_RECORD r], none⟩

/-- The module after the declarations, when none of them raised an error. -/
def declared (ds : List Decl) : Option Module :=
  machine.runs (fun mod d => (declare mod d).toOption) ⟨[], none⟩ ds

/-! ## The header -/

/-- A type of the header: one of C, or the struct of a record. -/
inductive CType where
  | std (ctype : String)
  | record (name : LuaString)
deriving DecidableEq

/-- A member of a struct, with the length of an array. -/
structure CMember where
  ctype : CType
  array_len : Option Nat
  name : LuaString
deriving DecidableEq

structure CStruct where
  name : LuaString
  members : List CMember
deriving DecidableEq

/-- The line of a field in `to_c_records_header`. -/
def c_member (field : Field) : CMember :=
  match field.kind with
  | .is_ptr64 _ => ⟨.std "uint64_t", none, field.name⟩
  | .is_char_array array_len => ⟨.std "char", some array_len, field.name⟩
  | .is_int32_array array_len => ⟨.std "int32_t", some array_len, field.name⟩
  | .is_float32_array array_len => ⟨.std "float", some array_len, field.name⟩
  | .is_embedded embedded_record => ⟨.record embedded_record, none, field.name⟩
  | .scalar => ⟨.std (((type_info field.type).map TypeInfo.ctype).getD "uint32_t"), none, field.name⟩

def c_struct (r : Record) : CStruct := ⟨r.name, r.fields.map c_member⟩

def to_c_records_header (mod : Module) : List CStruct := mod.record_order.map c_struct

/-! ## Structs under natural alignment -/

/-- The types of C whose alignment is their size. -/
def std_size (ctype : String) : Option Nat :=
  [("int8_t", 1), ("uint8_t", 1), ("bool", 1), ("char", 1), ("int16_t", 2), ("uint16_t", 2),
    ("int32_t", 4), ("uint32_t", 4), ("float", 4), ("int64_t", 8), ("uint64_t", 8),
    ("double", 8)].lookup ctype

/-- The size and the alignment of a type, with those of the structs so far. -/
def type_member (structs : List (LuaString × Member)) : CType → Option Member
  | .std ctype => (std_size ctype).map fun size => ⟨size, size⟩
  | .record name => structs.lookup name

/-- An array is as many elements without gaps. -/
def member_layout (structs : List (LuaString × Member)) (m : CMember) : Option Member :=
  (type_member structs m.ctype).map fun t => ⟨t.size * m.array_len.getD 1, t.align⟩

/-- A struct of C: where its members are, and its size and alignment. -/
structure Layout where
  offsets : List Nat
  total : Member
deriving DecidableEq

def struct_layouts : List (LuaString × Member) → List CStruct → Option (List Layout)
  | _, [] => some []
  | structs, s :: ss => do
    let ms ← s.members.mapM (member_layout structs)
    let layouts ← struct_layouts (structs ++ [(s.name, whole ms)]) ss
    return ⟨place 0 ms, whole ms⟩ :: layouts

/-! ## The laws of a record -/

/-- Fields are at multiples of their alignment, one after the other and inside the record. The
alignment of the record is the largest of theirs, and its size a multiple of it. -/
structure WellLaid (r : Record) : Prop where
  aligned : ∀ f ∈ r.fields, f.align ∣ f.offset
  ordered : ∀ (i j : Nat) (f g : Field), i < j → r.fields[i]? = some f → r.fields[j]? = some g →
    f.offset + f.size ≤ g.offset
  align_le : ∀ f ∈ r.fields, f.align ≤ r.align
  align_of : r.align = 1 ∨ ∃ f ∈ r.fields, f.align = r.align
  size_dvd : r.align ∣ r.size
  covers : ∀ f ∈ r.fields, f.offset + f.size ≤ r.size

def Field.member (f : Field) : Member := ⟨f.size, f.align⟩

def Record.members (r : Record) : List Member := r.fields.map Field.member

def Record.layout (r : Record) : Layout := ⟨r.fields.map Field.offset, ⟨r.size, r.align⟩⟩

/-- The fields of a record are placed in a row. -/
structure Placed (r : Record) : Prop where
  pos : ∀ m ∈ r.members, 0 < m.align
  offsets : r.fields.map Field.offset = place 0 r.members

/-- The open record ends behind its last field. -/
structure OpenLaid (r : Record) : Prop extends Placed r where
  size : r.size = endOf 0 r.members
  align : r.align = maxAlign r.members

/-- The complete record is the whole of its members. -/
structure ClosedLaid (r : Record) : Prop extends Placed r where
  total : (⟨r.size, r.align⟩ : Member) = whole r.members

section

variable {r : Record} {records : List Record}

theorem add_field_members (r : Record) (name type : LuaString) (kind : FieldKind)
    (size align type_tag : Nat) :
    (add_field r name type kind size align type_tag).members = r.members ++ [⟨size, align⟩] := by
  simp [add_field, Record.members, Field.member]

theorem OpenLaid.add_field (h : OpenLaid r) {name type : LuaString} {kind : FieldKind}
    {size align type_tag : Nat} (ha : 0 < align) :
    OpenLaid (add_field r name type kind size align type_tag) := by
  have hpad := add_padding r.size ha
  refine ⟨⟨?_, ?_⟩, ?_, ?_⟩
  · rw [add_field_members]
    intro m hm
    rcases List.mem_append.mp hm with hm | hm
    · exact h.pos m hm
    · rw [List.mem_singleton.mp hm]
      exact ha
  · rw [add_field_members, place_append, ← h.offsets, ← h.size, ← hpad]
    simp [records.add_field]
  · rw [add_field_members, endOf_append, ← h.size, ← hpad]
    rfl
  · rw [add_field_members, maxAlign_append, ← h.align]
    simp only [records.add_field]
    split <;> omega

theorem OpenLaid.add_char_array (h : OpenLaid r) (name : LuaString) (length : Nat) :
    OpenLaid (add_char_array r name length) := by
  have hmembers : (records.add_char_array r name length).members = r.members ++ [⟨length, 1⟩] := by
    simp [records.add_char_array, Record.members, Field.member]
  have hone : roundUp r.size 1 = r.size := by
    rw [← add_padding r.size Nat.one_pos]
    omega
  refine ⟨⟨?_, ?_⟩, ?_, ?_⟩
  · rw [hmembers]
    intro m hm
    rcases List.mem_append.mp hm with hm | hm
    · exact h.pos m hm
    · rw [List.mem_singleton.mp hm]
      exact Nat.one_pos
  · rw [hmembers, place_append, ← h.offsets, ← h.size, hone]
    simp [records.add_char_array]
  · rw [hmembers, endOf_append, ← h.size, hone]
    rfl
  · have hpos := maxAlign_pos r.members
    rw [hmembers, maxAlign_append, ← h.align]
    rw [← h.align] at hpos
    simp only [records.add_char_array]
    omega

theorem OpenLaid.end_record (h : OpenLaid r) : ClosedLaid (END_RECORD r) := by
  have hpos : 0 < r.align := by
    rw [h.align]
    exact maxAlign_pos _
  refine ⟨⟨h.pos, h.offsets⟩, ?_⟩
  rw [whole, END_RECORD, add_padding r.size hpos, h.size, h.align]
  rfl

def sizes (records : List Record) : List (LuaString × Member) :=
  records.map fun r => (r.name, ⟨r.size, r.align⟩)

/-- Each line of the struct has the size and the alignment of its field. -/
def MembersMatch (records : List Record) (r : Record) : Prop :=
  (r.fields.map c_member).mapM (member_layout (sizes records)) = some r.members

theorem lookup_sizes (records : List Record) (name : LuaString) : (sizes records).lookup name =
      (find_record records name).map fun r => ⟨r.size, r.align⟩ := by
  induction records with
  | nil => rfl
  | cons r records ih =>
    simp only [sizes, find_record, List.map_cons, List.lookup_cons, List.find?_cons]
    rw [Bool.beq_comm (a := name)]
    cases hname : r.name == name with
    | true => simp
    | false => simpa [sizes, find_record] using ih

/-- The scalars of the DSL have the sizes and alignments of their types in C. -/
theorem type_info_std {type_name : LuaString} {info : TypeInfo}
    (h : type_info type_name = some info) :
    std_size info.ctype = some info.size ∧ info.align = info.size ∧ 0 < info.size := by
  have hall : ∀ p ∈ type_table,
      std_size p.2.ctype = some p.2.size ∧ p.2.align = p.2.size ∧ 0 < p.2.size := by
    decide
  obtain ⟨l, l', hl, -⟩ := List.lookup_eq_some_iff.mp h
  exact hall (type_name, info) (by rw [hl]; simp)

theorem MembersMatch.append (h : MembersMatch records r) {f : Field}
    (hf : member_layout (sizes records) (c_member f) = some f.member) {r' : Record}
    (hfields : r'.fields = r.fields ++ [f]) : MembersMatch records r' := by
  unfold MembersMatch Record.members at h ⊢
  rw [hfields, List.map_append, List.mapM_append, h]
  simp [hf]

theorem struct_layouts_append {structs : List (LuaString × Member)} {ss : List CStruct}
    {ls : List Layout} (h : struct_layouts structs ss = some ls) {s : CStruct} {ms : List Member}
    (hs : s.members.mapM (member_layout
      (structs ++ (ss.zip ls).map fun p => (p.1.name, p.2.total))) = some ms) :
    struct_layouts structs (ss ++ [s]) = some (ls ++ [⟨place 0 ms, whole ms⟩]) := by
  induction ss generalizing structs ls with
  | nil =>
    cases h
    simp only [List.zip_nil_left, List.map_nil, List.append_nil] at hs
    simp [struct_layouts, hs]
  | cons s' ss ih =>
    simp only [struct_layouts, Option.bind_eq_bind, Option.bind_eq_some_iff] at h
    obtain ⟨ms', hms', ls', hls', heq⟩ := h
    cases heq
    have hrest := ih hls' (by simpa using hs)
    simp [struct_layouts, hms', hrest]

/-- The records so far have the layout of their structs. -/
structure ModuleLaid (mod : Module) : Prop where
  header : struct_layouts [] (to_c_records_header mod) = some (mod.record_order.map Record.layout)
  closed : ∀ r ∈ mod.record_order, ClosedLaid r
  current : ∀ r, mod.current_record = some r → OpenLaid r ∧ MembersMatch mod.record_order r

variable {mod mod' : Module}

theorem header_sizes (records : List Record) :
    (([] : List (LuaString × Member)) ++ ((records.map c_struct).zip (records.map Record.layout)).map
      fun p => (p.1.name, p.2.total)) = sizes records := by
  rw [List.nil_append, List.zip_map', List.map_map]
  rfl

theorem ModuleLaid.end_record (h : ModuleLaid mod) (hr : mod.current_record = some r) :
    ModuleLaid ⟨mod.record_order ++ [END_RECORD r], none⟩ := by
  obtain ⟨hopen, hmatch⟩ := h.current r hr
  have hclosed := hopen.end_record
  refine ⟨?_, ?_, nofun⟩
  · have hstruct : (c_struct (END_RECORD r)).members.mapM (member_layout
        ([] ++ ((to_c_records_header mod).zip (mod.record_order.map Record.layout)).map
          fun p => (p.1.name, p.2.total))) = some (END_RECORD r).members := by
      rw [to_c_records_header, header_sizes]
      exact hmatch
    have hlayout : (END_RECORD r).layout =
        ⟨place 0 (END_RECORD r).members, whole (END_RECORD r).members⟩ := by
      rw [Record.layout, hclosed.offsets, hclosed.total]
    have happend := struct_layouts_append h.header hstruct
    rw [← hlayout] at happend
    simpa [to_c_records_header] using happend
  · intro r' hr'
    rcases List.mem_append.mp hr' with hr' | hr'
    · exact h.closed r' hr'
    · rw [List.mem_singleton.mp hr']
      exact hclosed

theorem with_record_ok {f : Record → Except LuaString Record} (h : mod.with_record f = .ok mod') :
    ∃ r r', mod.current_record = some r ∧ f r = .ok r' ∧
      mod' = { mod with current_record := some r' } := by
  unfold Module.with_record at h
  cases hr : mod.current_record with
  | none =>
    rw [hr] at h
    cases h
  | some r =>
    rw [hr] at h
    simp only at h
    cases hfr : f r with
    | error e =>
      rw [hfr] at h
      cases h
    | ok r' =>
      rw [hfr] at h
      cases h
      exact ⟨r, r', rfl, hfr, rfl⟩

theorem ModuleLaid.with_record (h : ModuleLaid mod) {f : Record → Except LuaString Record}
    (hf : ∀ r r', OpenLaid r → MembersMatch mod.record_order r → f r = .ok r' →
      OpenLaid r' ∧ MembersMatch mod.record_order r')
    (hd : mod.with_record f = .ok mod') : ModuleLaid mod' := by
  obtain ⟨r, r', hr, hfr, rfl⟩ := with_record_ok hd
  obtain ⟨hopen, hmatch⟩ := h.current r hr
  refine ⟨h.header, h.closed, fun r'' hr'' => ?_⟩
  cases hr''
  exact hf r r' hopen hmatch hfr

/-- A new field is in the struct what it is in the record. -/
theorem MembersMatch.add_field (h : MembersMatch records r) {name type : LuaString}
    {kind : FieldKind} {size align type_tag : Nat} (hf : ∀ offset, member_layout (sizes records)
      (c_member ⟨name, type, kind, size, align, offset, type_tag⟩) = some ⟨size, align⟩) :
    MembersMatch records (add_field r name type kind size align type_tag) :=
  h.append (f := ⟨name, type, kind, size, align, _, type_tag⟩) (hf _) rfl

theorem FIELD_laid (hclosed : ∀ r ∈ records, ClosedLaid r) {r' : Record} {name type_name : LuaString}
    (hopen : OpenLaid r) (hmatch : MembersMatch records r)
    (h : FIELD records r name type_name = .ok r') : OpenLaid r' ∧ MembersMatch records r' := by
  unfold FIELD at h
  split at h
  · cases h
  cases hinfo : type_info type_name with
  | some info =>
    rw [hinfo] at h
    cases h
    obtain ⟨hstd, halign, hpos⟩ := type_info_std hinfo
    refine ⟨hopen.add_field (by omega), hmatch.add_field fun offset => ?_⟩
    simp [c_member, member_layout, type_member, hinfo, hstd, halign]
  | none =>
    rw [hinfo] at h
    cases hfind : find_record records type_name with
    | none =>
      rw [hfind] at h
      cases h
    | some embedded =>
      rw [hfind] at h
      cases h
      have hmem := hclosed embedded (List.mem_of_find?_eq_some hfind)
      have hpos : 0 < embedded.align := by
        have halign : embedded.align = maxAlign embedded.members := congrArg Member.align hmem.total
        rw [halign]
        exact maxAlign_pos _
      refine ⟨hopen.add_field hpos, hmatch.add_field fun offset => ?_⟩
      simp [c_member, member_layout, type_member, lookup_sizes, hfind]

theorem ModuleLaid.declare {d : Decl} (h : ModuleLaid mod) (hd : declare mod d = .ok mod') :
    ModuleLaid mod' := by
  cases d with
  | RECORD name =>
    simp only [records.declare] at hd
    split at hd
    · cases hd
    · split at hd
      · cases hd
      · cases hd
        refine ⟨h.header, h.closed, fun r hr => ?_⟩
        cases hr
        exact ⟨⟨⟨nofun, rfl⟩, rfl, rfl⟩, rfl⟩
  | FIELD name type_name =>
    exact h.with_record (fun r r' hopen hmatch hf => FIELD_laid h.closed hopen hmatch hf) hd
  | INT32_ARRAY name length | FLOAT32_ARRAY name length =>
    refine h.with_record (fun r r' hopen hmatch hf => ?_) hd
    cases hf
    refine ⟨hopen.add_field (by omega), hmatch.add_field fun offset => ?_⟩
    simp [c_member, member_layout, type_member, std_size, List.lookup_cons, Nat.mul_comm]
  | PTR64_FIELD name target_type =>
    refine h.with_record (fun r r' hopen hmatch hf => ?_) hd
    cases hf
    exact ⟨hopen.add_field (by omega), hmatch.add_field fun offset => rfl⟩
  | CHAR_ARRAY name length =>
    refine h.with_record (fun r r' hopen hmatch hf => ?_) hd
    split at hf
    · cases hf
    · cases hf
      refine ⟨hopen.add_char_array name length, hmatch.append (f := ⟨_, _, _, _, _, _, _⟩) ?_ rfl⟩
      simp [c_member, member_layout, type_member, std_size, List.lookup_cons, Field.member]
  | END_RECORD =>
    simp only [records.declare] at hd
    split at hd
    · cases hd
    · next r hr =>
      cases hd
      exact h.end_record hr

end

/-! ## A record in a record -/

def inner_record : Record where
  name := ascii "a"
  fields :=
    [⟨ascii "s", ascii "char_array", .is_char_array 5, 5, 1, 0, 0x0D⟩,
      ⟨ascii "p", ascii "ptr64", .is_ptr64 (ascii "void"), 8, 8, 8, 0x0E⟩]
  size := 16
  align := 8

def outer_record : Record where
  name := ascii "b"
  fields :=
    [⟨ascii "x", ascii "int32", .scalar, 4, 4, 0, 0x03⟩,
      ⟨ascii "r", ascii "a", .is_embedded (ascii "a"), 16, 8, 8, 0x0F⟩,
      ⟨ascii "v", ascii "int32_array", .is_int32_array 3, 12, 4, 24, 0x13⟩]
  size := 40
  align := 8

end motioncore.records
