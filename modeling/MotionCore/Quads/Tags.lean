-- The type of a cell: what the writers put there, what the readers make of it, and when a number
-- that was written is read back as that number.
import MotionCore.Dsl.Nesting
import MotionCore.Lib.Runs
import MotionCore.Quads.Reads

namespace motioncore.quads

open dsl.S_EXPR_PARAM

variable {w : Nat}

/-! ## The number in a cell -/

/-- `s_expr_stack_toint`, which asks for the type of the cell. -/
def toint (F : FloatUnit w) (p : Cell w) : BitVec w :=
  let type := p.type &&& dsl.S_EXPR_OPCODE_MASK
  if type = INT ∨ type = RESULT ∨ type = UINT then p.bits
  else if type = FLOAT then F.toInt p.bits
  else 0

/-- `s_expr_stack_tofloat`. -/
def tofloat (F : FloatUnit w) (p : Cell w) : BitVec w :=
  let type := p.type &&& dsl.S_EXPR_OPCODE_MASK
  if type = FLOAT then p.bits
  else if type = INT then F.ofInt p.bits
  else if type = UINT then F.ofUint p.bits
  else 0

/-- The number in the cell, as an integer or as a float. -/
def number (F : FloatUnit w) (is_f : Bool) (p : Cell w) : BitVec w :=
  if is_f then tofloat F p else toint F p

/-- The float is an integer that a word holds. -/
def IsInteger (F : FloatUnit w) (f : BitVec w) : Prop := F.eq (F.ofInt (F.toInt f)) f = true

/-- The type has the number of the cell: the way to it and back loses nothing. -/
def Representable (F : FloatUnit w) (is_f : Bool) (p : Cell w) : Prop :=
  if p.type = FLOAT then is_f = true ∨ IsInteger F p.bits
  else is_f = false ∨ F.toInt (F.ofInt p.bits) = p.bits

/-- What was read is the number in the cell, if the type has it. -/
def ReadsBack (F : FloatUnit w) (is_f : Bool) (p : Cell w) (r : Option (BitVec w)) : Prop :=
  Representable F is_f p → r = some (number F is_f p)

/-- The reader is that of the type of the cell, or its type does not have the number, or the bits
are the same number in both types. -/
def ReadFits (F : FloatUnit w) (is_f : Bool) (p : Cell w) : Prop :=
  (is_f = true ↔ p.type = FLOAT) ∨ ¬ Representable F is_f p ∨
    (if is_f then F.ofInt p.bits else F.toInt p.bits) = p.bits

/-! ## Places -/

/-- The cell that an operand on the stack stands for. -/
def Operand.index (stack : Stack w) : Operand w → Option Nat
  | .stack_local stack_offset => stack.localIndex stack_offset
  | .stack_tos stack_offset =>
    if stack.sp ≤ stack_offset then none else some (stack.sp - 1 - stack_offset)
  | .stack_pop => if stack.sp = 0 then none else some (stack.sp - 1)
  | _ => none

/-- The cell that the quad writes, where it writes one. -/
def Quad.index (F : FloatUnit w) (inst : Inst w) (q : Quad w) : Option Nat :=
  match q.dest with
  | .stack_local stack_offset => inst.stack.localIndex stack_offset
  | .stack_tos stack_offset =>
    inst.stack.frames.head?.bind fun frame =>
      if inst.stack.capacity ≤ Stack.scratchIndex frame stack_offset then none
      else some (Stack.scratchIndex frame stack_offset)
  | .stack_push => some (inst.stack.sp - q.pops F)
  | _ => none

/-! ## Moves -/

/-- The number that a move reads, with its type. Fields and constants have no type: they count as
the integers that the move finds there. -/
def Operand.source (F : FloatUnit w) (inst : Inst w) : Operand w → Cell w
  | .float float_val => ⟨FLOAT, float_val⟩
  | .uint uint_val => ⟨UINT, uint_val⟩
  | .stack_local stack_offset => (inst.stack.get_local stack_offset).getD ⟨INT, 0⟩
  | .stack_tos stack_offset => (inst.stack.peek_tos stack_offset).getD ⟨INT, 0⟩
  | .stack_pop => inst.stack.data (inst.stack.sp - 1)
  | p => ⟨INT, intAt F inst p⟩

/-- The integer is the number in the cell. -/
def SameNumber (F : FloatUnit w) (p : Cell w) (val : BitVec w) : Prop :=
  if p.type = FLOAT then val = F.toInt p.bits ∧ IsInteger F p.bits
  else if p.type = UINT then val = p.bits ∧ p.bits.msb = false
  else val = p.bits

/-- The source of a move is an integer of the signed range, or a float literal that is an integer,
or a cell with a float whose bits are its number. -/
def MoveFits (F : FloatUnit w) (inst : Inst w) (src : Operand w) : Prop :=
  match src with
  | .float float_val => IsInteger F float_val
  | src =>
    ((src.source F inst).type = FLOAT →
      F.toInt (src.source F inst).bits = (src.source F inst).bits ∧
        IsInteger F (src.source F inst).bits) ∧
    ((src.source F inst).type = UINT → (src.source F inst).bits.msb = false)

section

variable {F : FloatUnit w} {inst inst' : Inst w}

/-! ## Reads -/

/-- A read of a cell gives its bits, whatever its type is. -/
theorem seen_place {p : Operand w} {n : Nat} (h : p.index inst.stack = some n) (is_f : Bool) :
    seen F is_f inst p = some (inst.stack.data n).bits := by
  cases p with
  | stack_local index =>
    have hcell : inst.stack.get_local index = some (inst.stack.data n) := by
      rw [Stack.get_local, show inst.stack.localIndex index = some n from h]
      rfl
    cases is_f <;> simp [seen, quad_read_int, quad_read_float, hcell]
  | stack_tos offset =>
    simp only [Operand.index] at h
    split at h
    · cases h
    · next hlt =>
      cases h
      cases is_f <;> simp [seen, quad_read_int, quad_read_float, Stack.peek_tos, hlt]
  | stack_pop =>
    simp only [Operand.index] at h
    split at h
    · cases h
    · next hne =>
      cases h
      cases is_f <;> simp [seen, quad_read_int, quad_read_float, Stack.pop, hne]
  | _ => cases h

theorem number_int (is_f : Bool) (val : BitVec w) :
    number F is_f ⟨INT, val⟩ = if is_f then F.ofInt val else val := by
  have hmask : INT &&& dsl.S_EXPR_OPCODE_MASK = INT := by decide
  have hne : INT ≠ FLOAT := by decide
  cases is_f <;> simp [number, toint, tofloat, hmask, hne]

theorem number_float (is_f : Bool) (val : BitVec w) :
    number F is_f ⟨FLOAT, val⟩ = if is_f then val else F.toInt val := by
  have hmask : FLOAT &&& dsl.S_EXPR_OPCODE_MASK = FLOAT := by decide
  have hne : ¬ (FLOAT = INT ∨ FLOAT = RESULT ∨ FLOAT = UINT) := by decide
  cases is_f <;> simp [number, toint, tofloat, hmask, hne]

/-- The bits of a cell are its number for the readers that fit. -/
theorem reads_back_iff {p : Cell w} (htype : p.type = INT ∨ p.type = FLOAT) (is_f : Bool) :
    ReadsBack F is_f p (some p.bits) ↔ ReadFits F is_f p := by
  obtain ⟨type, bits⟩ := p
  have hne : INT ≠ FLOAT := by decide
  rcases htype with rfl | rfl
  · rw [ReadsBack, ReadFits, number_int, Option.some_inj, imp_iff_not_or, eq_comm]
    cases is_f <;> simp [hne]
  · rw [ReadsBack, ReadFits, number_float, Option.some_inj, imp_iff_not_or, eq_comm]
    cases is_f <;> simp

/-! ## Writes -/

/-- The type that a quad gives to its result. -/
def Quad.tag (F : FloatUnit w) (q : Quad w) : UInt8 := if q.writes_float F then FLOAT else INT

/-- The cells after a write to the place, if there is one. -/
def put (data : Nat → Cell w) (p : Cell w) : Option Nat → Nat → Cell w
  | none => data
  | some i => Function.update data i p

variable {q : Quad w}

theorem write_cell_data {p : Cell w}
    (h : write_cell (inst.dropped (q.pops F)) p q.dest = some inst') :
    inst'.stack.data = put inst.stack.data p (q.index F inst) := by
  unfold Quad.index
  cases hdest : q.dest with
  | stack_local offset =>
    rw [hdest] at h
    cases h
    have hplace : (inst.dropped (q.pops F)).stack.localIndex offset =
        inst.stack.localIndex offset := rfl
    unfold Stack.set_local
    rw [hplace]
    simp only
    cases inst.stack.localIndex offset <;> rfl
  | stack_tos offset =>
    rw [hdest] at h
    obtain ⟨stack, hpoke, rfl⟩ := Option.map_eq_some_iff.mp h
    unfold Stack.poke at hpoke
    have hframes : (inst.dropped (q.pops F)).stack.frames = inst.stack.frames := rfl
    rw [hframes] at hpoke
    cases hf : inst.stack.frames with
    | nil =>
      rw [hf] at hpoke
      cases hpoke
    | cons frame frames =>
      rw [hf] at hpoke
      simp only [List.head?_cons, Option.bind_some]
      by_cases hcap : inst.stack.capacity ≤ Stack.scratchIndex frame offset
      · rw [if_pos hcap, ← Option.some.inj ((if_pos hcap).symm.trans hpoke)]
        rfl
      · rw [if_neg hcap, ← Option.some.inj ((if_neg hcap).symm.trans hpoke)]
        rfl
  | stack_push =>
    rw [hdest] at h
    obtain ⟨stack, hpush, rfl⟩ := Option.map_eq_some_iff.mp h
    unfold Stack.push at hpush
    split at hpush
    · cases hpush
    · cases hpush
      rfl
  | _ =>
    rw [hdest] at h
    cases h
    rfl

theorem quad_write_cases {is_f : Bool} {dest : Operand w} {val : BitVec w}
    (h : quad_write F is_f inst dest val = some inst') :
    (∃ offset size, dest = .field offset size ∧ inst'.stack = inst.stack) ∨
      write_cell inst ⟨if is_f then FLOAT else INT, val⟩ dest = some inst' := by
  cases is_f with
  | false =>
    simp only [quad_write, Bool.false_eq_true, if_false, quad_write_int] at h
    split at h
    · refine Or.inl ⟨_, _, rfl, ?_⟩
      split at h
      · cases h
        rfl
      · split at h <;> cases h <;> rfl
    · exact Or.inr h
  | true =>
    simp only [quad_write, if_true, quad_write_float] at h
    split at h
    · refine Or.inl ⟨_, _, rfl, ?_⟩
      split at h
      · cases h
        rfl
      · split at h <;> cases h <;> rfl
    · exact Or.inr h

/-- A quad changes the cell that it writes, and there its value is with its type. -/
theorem se_quad_data (h : se_quad F q inst = some inst') :
    ∃ val, inst'.stack.data = put inst.stack.data ⟨q.tag F, val⟩ (q.index F inst) ∧
      ∀ f, action F q.opcode = .int1 f → f (intAt F inst q.src1) = some val := by
  obtain ⟨val, hwrite, hval⟩ := se_quad_writes h
  refine ⟨val, ?_, hval⟩
  rcases quad_write_cases hwrite with ⟨offset, size, hdest, hstack⟩ | hcell
  · rw [hstack, Quad.index, hdest]
    rfl
  · exact write_cell_data hcell

/-! ## From the write to the read -/

theorem cell_kept {qs : List (Quad w)} {n : Nat}
    (hkeep : machine.Meets (fun inst q => se_quad F q inst)
      (fun inst q => q.index F inst ≠ some n) inst qs)
    (hrun : machine.runs (fun inst q => se_quad F q inst) inst qs = some inst') :
    inst'.stack.data n = inst.stack.data n := by
  refine machine.inv_runs (I := fun s => s.stack.data n = inst.stack.data n)
    (fun s q s' hs hq hstep => ?_) rfl hkeep hrun
  obtain ⟨val, hdata, -⟩ := se_quad_data hstep
  rw [hdata, ← hs]
  cases hindex : q.index F s with
  | none => rfl
  | some i =>
    have hne : n ≠ i := by
      rintro rfl
      exact hq hindex
    exact Function.update_of_ne hne _ _

theorem move_action (h : q.opcode = .MOVE ∨ q.opcode = .MOV) : action F q.opcode = .int1 some := by
  rcases h with h | h <;> rw [h] <;> rfl

/-- What a move takes from its source is the number there when the source is an integer, a float
literal that is an integer, or bits that are the same in both types. -/
theorem move_same_iff (src : Operand w) :
    SameNumber F (src.source F inst) (intAt F inst src) ↔ MoveFits F inst src := by
  have hint : ∀ val : BitVec w, SameNumber F ⟨INT, val⟩ val := by
    intro val
    have hfloat : INT ≠ FLOAT := by decide
    have huint : INT ≠ UINT := by decide
    rw [SameNumber, if_neg hfloat, if_neg huint]
  -- a cell of the stack is read by its bits
  have hcell : ∀ p : Cell w, SameNumber F p p.bits ↔
      (p.type = FLOAT → F.toInt p.bits = p.bits ∧ IsInteger F p.bits) ∧
        (p.type = UINT → p.bits.msb = false) := by
    intro p
    rw [SameNumber]
    have hne : FLOAT ≠ UINT := by decide
    split
    · next hfloat =>
      rw [hfloat, eq_comm]
      simp [hne]
    · next hfloat =>
      split
      · next huint =>
        rw [huint]
        simp [hne.symm]
      · next huint => simp [hfloat, huint]
  cases src with
  | float float_val =>
    rw [SameNumber, MoveFits]
    exact (and_iff_right rfl)
  | uint uint_val => exact hcell ⟨UINT, uint_val⟩
  | stack_local offset =>
    have hbits : intAt F inst (.stack_local offset) =
        ((Operand.stack_local offset).source F inst).bits := by
      simp only [intAt, quad_read_int, Operand.source]
      cases inst.stack.get_local offset <;> rfl
    rw [hbits, hcell]
    rfl
  | stack_tos offset =>
    have hbits : intAt F inst (.stack_tos offset) =
        ((Operand.stack_tos offset).source F inst).bits := by
      simp only [intAt, quad_read_int, Operand.source]
      cases inst.stack.peek_tos offset <;> rfl
    rw [hbits, hcell]
    rfl
  | stack_pop => exact hcell _
  | _ => exact iff_of_true (hint _) ⟨fun h => (by cases h), fun h => (by cases h)⟩

/-- What a quad writes to a cell is read there, after any quads that leave the cell alone, as the
same number when the reader fits. A move writes the number of its source when the source is an
integer. -/
theorem stored_number_iff {q : Quad w} {qs : List (Quad w)} {inst₁ inst₂ : Inst w} {n : Nat}
    (hq : se_quad F q inst = some inst₁) (hn : q.index F inst = some n)
    (hkeep : machine.Meets (fun inst q => se_quad F q inst)
      (fun inst q => q.index F inst ≠ some n) inst₁ qs)
    (hrun : machine.runs (fun inst q => se_quad F q inst) inst₁ qs = some inst₂) :
    ∃ val, inst₁.stack.data n = ⟨q.tag F, val⟩ ∧
      (∀ p is_f, p.index inst₂.stack = some n →
        (ReadsBack F is_f ⟨q.tag F, val⟩ (seen F is_f inst₂ p) ↔
          ReadFits F is_f ⟨q.tag F, val⟩)) ∧
      (q.opcode = .MOVE ∨ q.opcode = .MOV →
        (SameNumber F (q.src1.source F inst) val ↔ MoveFits F inst q.src1)) := by
  obtain ⟨val, hdata, hval⟩ := se_quad_data hq
  have hcell : inst₁.stack.data n = ⟨q.tag F, val⟩ := by
    rw [hdata, hn]
    exact Function.update_self _ _ _
  refine ⟨val, hcell, fun p is_f hp => ?_, fun hmove => ?_⟩
  · have htag : q.tag F = INT ∨ q.tag F = FLOAT := by
      unfold Quad.tag
      split
      · exact Or.inr rfl
      · exact Or.inl rfl
    rw [seen_place hp, cell_kept hkeep hrun, hcell]
    exact reads_back_iff htag is_f
  · have hsource := hval some (move_action hmove)
    rw [← Option.some.inj hsource]
    exact move_same_iff q.src1

/-! ## A one that is read as a float -/

def one_local : Inst 32 := ⟨⟨fun _ => ⟨INT, 0⟩, 8, 1, [⟨0, 0, 1, 1⟩]⟩, none, fun _ => none⟩

def store_one : Quad 32 := ⟨.MOV, .int 1, .null, .stack_local 0⟩

def stored_one : Inst 32 := { one_local with stack := one_local.stack.set_local 0 ⟨INT, 1⟩ }

theorem integer_read_of_one : ∃ val, stored_one.stack.data 0 = ⟨INT, val⟩ ∧
    ReadsBack simple32 false ⟨INT, val⟩ (seen simple32 false stored_one (.stack_local 0)) := by
  have htag : store_one.tag simple32 = INT := by decide
  have hne : INT ≠ FLOAT := by decide
  obtain ⟨val, hval, hread, -⟩ :=
    @stored_number_iff 32 simple32 one_local store_one [] stored_one stored_one 0 rfl rfl trivial rfl
  rw [htag] at hval hread
  exact ⟨val, hval, (hread (.stack_local 0) false rfl).mpr (Or.inl (by simp [hne]))⟩

/-- The float reader takes the bits of the integer for those of a float. -/
theorem float_read_of_one : se_quad simple32 store_one one_local = some stored_one ∧
    ¬ ReadsBack simple32 true ⟨INT, 1⟩ (seen simple32 true stored_one (.stack_local 0)) := by
  refine ⟨rfl, fun h => ?_⟩
  have hrep : Representable simple32 true ⟨INT, 1⟩ := by
    rw [Representable, if_neg (by decide)]
    exact Or.inr (by decide)
  exact absurd (h hrep) (by decide)

end

end motioncore.quads
