-- Names and paths of fields: what the three resolvers make of them, and what the runtime finds in
-- the parameter that is emitted.
import MotionCore.Records.Layout

namespace motioncore.records

open dsl (LuaString ascii fnv1a_32)
open dsl.Module (pathParts)

/-! ## The record table of the generator -/

def FieldKind.target_type : FieldKind → Option LuaString
  | .is_ptr64 target_type => some target_type
  | _ => none

def FieldKind.embedded_record : FieldKind → Option LuaString
  | .is_embedded embedded_record => some embedded_record
  | _ => none

def FieldKind.array_len : FieldKind → Nat
  | .is_char_array array_len | .is_int32_array array_len | .is_float32_array array_len => array_len
  | _ => 0

def Field.flags (f : Field) : dsl.Field where
  name := f.name
  name_hash := fnv1a_32 f.name
  type_tag := UInt8.ofNat f.type_tag
  is_pointer := f.kind.target_type.isSome
  is_char_array := match f.kind with
    | .is_char_array _ => true
    | _ => false
  is_embedded := f.kind.embedded_record.isSome
  is_ptr64 := f.kind.target_type.isSome
  offset := f.offset
  size := f.size
  array_len := f.kind.array_len
  target_type := f.kind.target_type
  embedded_record := f.kind.embedded_record

def Record.table (r : Record) : dsl.Record := ⟨fnv1a_32 r.name, r.fields.map Field.flags, r.size⟩

def Module.table (mod : Module) (name : LuaString) : Option dsl.Record :=
  (find_record mod.record_order name).map Record.table

def findField (r : Record) (name : LuaString) : Option Field :=
  r.fields.find? fun f => decide (f.name = name)

/-! ## The paths of constants -/

/-- The loop of `resolve_field_path`. A field that is no record is passed by: the next part is
looked for in the same record. -/
def walk (records : List Record) (current_rec : Record) (offset : Nat) :
    LuaString → List LuaString → Option (Nat × Field)
  | part, [] => (findField current_rec part).map fun field => (offset + field.offset, field)
  | part, part' :: rest => do
    let field ← findField current_rec part
    let current_rec ← match field.kind.embedded_record with
      | some embedded_record => find_record records embedded_record
      | none => some current_rec
    walk records current_rec (offset + field.offset) part' rest

/-- `field_offset` and `field_size` of a parameter: the low and the high half of its first four
bytes. -/
def runtime_field (p : dsl.ParamStruct) : Nat × Nat :=
  match p.payload with
  | .u16s u16_a u16_b => (u16_a.toNat, u16_b.toNat)
  | .number value => ((value % 65536).toNat, (value / 65536 % 65536).toNat)
  | .float value => (value.toNat % 65536, value.toNat / 65536 % 65536)

/-! ## Fields by their paths -/

/-- The path leads through embedded records to a field: the sum of the offsets on the way, and the
size of the field. -/
inductive Leads (records : List Record) : Record → List LuaString → Nat → Nat → Prop
  | field {r : Record} {name : LuaString} {f : Field} : findField r name = some f →
      Leads records r [name] f.offset f.size
  | embedded {r r' : Record} {name part : LuaString} {rest : List LuaString} {f : Field}
      {embedded_record : LuaString} {offset size : Nat} : findField r name = some f →
      f.kind = .is_embedded embedded_record → find_record records embedded_record = some r' →
      Leads records r' (part :: rest) offset size →
      Leads records r (name :: part :: rest) (f.offset + offset) size

def treeRecord (mod : Module) (tree_record : Option LuaString) : Option Record :=
  tree_record.bind (find_record mod.record_order)

/-- The parameter names the bytes of the field that the path leads to, inside the record. As the
compiler rejects no name, this must be so for every name. -/
def Exact (mod : Module) (tree_record : Option LuaString) (parts : List LuaString)
    (p : dsl.ParamStruct) : Prop :=
  ∃ r offset size, treeRecord mod tree_record = some r ∧
    Leads mod.record_order r parts offset size ∧ runtime_field p = (offset, size) ∧
    offset + size ≤ r.size

section

variable {mod mod' : Module} {records : List Record} {r : Record}

/-! ## What a declaration does -/

/-- The embedded records of a record are known, and as large as their fields. -/
def EmbedsKnown (records : List Record) (r : Record) : Prop :=
  ∀ f ∈ r.fields, ∀ name, f.kind = .is_embedded name →
    ∃ e, find_record records name = some e ∧ f.size = e.size

theorem EmbedsKnown.append (h : EmbedsKnown records r) (records' : List Record) :
    EmbedsKnown (records ++ records') r := by
  intro f hf name hkind
  obtain ⟨e, he, hsize⟩ := h f hf name hkind
  refine ⟨e, ?_, hsize⟩
  rw [find_record, List.find?_append]
  rw [find_record] at he
  simp [he]

theorem findField_mem {name : LuaString} {f : Field} (h : findField r name = some f) :
    f ∈ r.fields := List.mem_of_find?_eq_some h

variable {parts : List LuaString} {offset size : Nat}

/-- A field that a path leads to lies inside the record. -/
theorem Leads.inside (hlaid : ∀ r ∈ records, WellLaid r)
    (hembeds : ∀ r ∈ records, EmbedsKnown records r) (h : Leads records r parts offset size)
    (hr : r ∈ records) : offset + size ≤ r.size := by
  induction h with
  | field hfind => exact (hlaid _ hr).covers _ (findField_mem hfind)
  | @embedded r r' name part rest f embedded_record offset size hfind hkind hrecord _ ih =>
    have hmem := findField_mem hfind
    obtain ⟨e, he, hsize⟩ := hembeds _ hr f hmem _ hkind
    obtain rfl : e = r' := Option.some.inj (he.symm.trans hrecord)
    have hinner := ih (List.mem_of_find?_eq_some hrecord)
    have houter := (hlaid _ hr).covers f hmem
    omega

theorem Leads.ne_nil (h : Leads records r parts offset size) : parts ≠ [] := by
  cases h <;> simp

end

/-! ## A record in a record -/

def nested_records : Module := ⟨[inner_record, outer_record], none⟩

/-- The module with these records that the generator is given. -/
def nested_module : dsl.Module :=
  { dsl.start_module (ascii "m") 4 false with
    records := nested_records.table
    record_order := [ascii "a", ascii "b"]
    records_known := by decide }

/-- A name that no field has is compiled to the halves of its hash, and a path that goes on behind
a number to the number itself. -/
theorem unknown_field_is_emitted :
    (¬ Exact nested_records (some (ascii "b")) [ascii "q"]
        (dsl.leafParam nested_module (some (ascii "b")) (.field_ref (ascii "q"))) ∧
      runtime_field (dsl.leafParam nested_module (some (ascii "b")) (.field_ref (ascii "q"))) =
        (0x425C, 0xF40C)) ∧
    (¬ Exact nested_records (some (ascii "b")) (pathParts (ascii "x.x"))
        (dsl.leafParam nested_module (some (ascii "b")) (.nested_field_ref (ascii "x.x"))) ∧
      runtime_field
        (dsl.leafParam nested_module (some (ascii "b")) (.nested_field_ref (ascii "x.x"))) =
        (0, 4)) := by
  have hrecord : treeRecord nested_records (some (ascii "b")) = some outer_record := by decide
  have hpath : pathParts (ascii "x.x") = [ascii "x", ascii "x"] := by decide
  refine ⟨⟨?_, by decide⟩, ?_, by decide⟩
  · rintro ⟨r, offset, size, hr, hleads, -⟩
    obtain rfl : outer_record = r := Option.some.inj (hrecord.symm.trans hr)
    cases hleads with
    | field hfind => exact absurd hfind (by simp [(by decide : findField outer_record (ascii "q") = none)])
  · rw [hpath]
    rintro ⟨r, offset, size, hr, hleads, -⟩
    obtain rfl : outer_record = r := Option.some.inj (hrecord.symm.trans hr)
    cases hleads with
    | embedded hfind hkind _ _ =>
      have hx : findField outer_record (ascii "x") =
          some ⟨ascii "x", ascii "int32", .scalar, 4, 4, 0, 0x03⟩ := by decide
      cases hx.symm.trans hfind
      cases hkind

end motioncore.records
