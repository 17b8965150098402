-- Constant folding and the quads: the literal that Lua computes with doubles and the `bit`
-- library against the words that the unfolded operations compute at run time.
import MotionCore.Equation.Doubles
import MotionCore.Equation.Types
import MotionCore.Quads.Integers

open motioncore.quads (FloatUnit intResult cbool divide shift)

namespace motioncore.equation

/-! ## Folding of numbers -/

/-- The word of a number in the `bit` library, which is documented up to 2^51. -/
def tobit (a : Int) : Option (BitVec 32) :=
  if a.natAbs ≤ 2 ^ 51 then some (BitVec.ofInt 32 a) else none

/-- `p and 1 or 0` -/
def lua_flag (p : Bool) : Int := if p then 1 else 0

/-- The operators that `fold_constants` computes with numbers. -/
def fold_number : Op → Int → Int → Option Int
  | .add, a, b => some (double (a + b))
  | .sub, a, b => some (double (a - b))
  | .mul, a, b => some (double (a * b))
  | .div, a, b => if b = 0 then none else some (floor_div a b)
  | .mod, a, b => if b = 0 then none else some (double (a - double (floor_div a b * b)))
  | .eq, a, b => some (lua_flag (a == b))
  | .ne, a, b => some (lua_flag (a != b))
  | .lt, a, b => some (lua_flag (a < b))
  | .le, a, b => some (lua_flag (a ≤ b))
  | .gt, a, b => some (lua_flag (a > b))
  | .ge, a, b => some (lua_flag (a ≥ b))
  | .land, a, b => some (lua_flag (a != 0 && b != 0))
  | .lor, a, b => some (lua_flag (a != 0 || b != 0))
  | _, _, _ => none

/-- The operators that it computes with the `bit` library. The amount of a shift is taken modulo
32, and zeros are shifted in. -/
def fold_bits : Op → BitVec 32 → BitVec 32 → Option (BitVec 32)
  | .band, x, y => some (x &&& y)
  | .bor, x, y => some (x ||| y)
  | .bxor, x, y => some (x ^^^ y)
  | .shl, x, y => some (x <<< (y.toNat % 32))
  | .shr, x, y => some (x >>> (y.toNat % 32))
  | _, _, _ => none

/-- The functions of one argument that have an integer operation. -/
def fold_call1 : Func → Int → Option Int
  | .abs, a => some a.natAbs
  | .neg, a => some (-a)
  | _, _ => none

def fold_call2 : Func → Int → Int → Option Int
  | .min, a, b => some (min a b)
  | .max, a, b => some (max a b)
  | _, _, _ => none

/-- Whole numbers below 2^53 are doubles, and so are their quotients of whole numbers. -/
def IsDouble (a : Int) : Prop := a.natAbs < 2 ^ 53

/-- On integer literals folding computes what Lua documents. Beyond the range of the `bit` library
and on floats the numbers are left open. -/
structure LuaNumbers.Documented (lua : LuaNumbers) : Prop where
  neg : ∀ {a}, IsDouble a → lua.unop .sub (a, false) = some (-a, false)
  lnot : ∀ {a}, IsDouble a → lua.unop .lnot (a, false) = some (lua_flag (a == 0), false)
  bnot : ∀ {a x}, tobit a = some x → lua.unop .bnot (a, false) = some ((~~~x).toInt, false)
  number : ∀ {op a b}, op_kind op ≠ some .bitwise → IsDouble a → IsDouble b →
    lua.binop op (a, false) (b, false) = (fold_number op a b).map fun r => (r, false)
  bits : ∀ {op a b x y r}, tobit a = some x → tobit b = some y → fold_bits op x y = some r →
    lua.binop op (a, false) (b, false) = some (r.toInt, false)
  call1 : ∀ {f a r}, IsDouble a → fold_call1 f a = some r →
    lua.call1 f (a, false) = some (r, true)
  call2 : ∀ {f a b r}, IsDouble a → IsDouble b → fold_call2 f a b = some r →
    lua.call2 f (a, false) (b, false) = some (r, true)

/-- Numbers of Lua that behave as documented, with a result of their own where nothing is. -/
def lua_numbers (elsewhere : Int) : LuaNumbers where
  unop
    | .sub, (a, false) => some (-a, false)
    | .lnot, (a, false) => some (lua_flag (a == 0), false)
    | .bnot, (a, false) => some (((tobit a).map fun x => (~~~x).toInt).getD elsewhere, false)
    | _, _ => none
  binop
    | op, (a, false), (b, false) =>
      if op_kind op = some .bitwise then
        some (((do fold_bits op (← tobit a) (← tobit b)).map BitVec.toInt).getD elsewhere, false)
      else (fold_number op a b).map fun r => (r, false)
    | _, _, _ => none
  call1
    | f, (a, false) => (fold_call1 f a).map fun r => (r, true)
    | _, _ => none
  call2
    | f, (a, false), (b, false) => (fold_call2 f a b).map fun r => (r, true)
    | _, _, _ => none

theorem fold_bits_kind {op : Op} {x y r : BitVec 32} (h : fold_bits op x y = some r) :
    op_kind op = some .bitwise := by
  cases op <;> first | rfl | cases h

theorem lua_numbers_documented (elsewhere : Int) : (lua_numbers elsewhere).Documented where
  neg _ := rfl
  lnot _ := rfl
  bnot hx := by simp [lua_numbers, hx]
  number hop _ _ := by simp [lua_numbers, hop]
  bits hx hy hr := by simp [lua_numbers, fold_bits_kind hr, hx, hy, hr]
  call1 _ hr := by simp [lua_numbers, hr]
  call2 _ _ hr := by simp [lua_numbers, hr]

/-! ## Literals and operations at run time -/

def emit_u32 (v : Int) : Option (BitVec 32) := tobit (if v < 0 then 0x100000000 + v else v)

def emit_i32 (v : Int) : Option (BitVec 32) := emit_u32 (if v < 0 then 0x100000000 + v else v)

/-- The word that the generator writes for an integer literal: `int_val` of a negative number and
`uint_val` of another one. -/
def literal_word (v : Int) : Option (BitVec 32) := if v < 0 then emit_i32 v else emit_u32 v

/-- What the unfolded operations compute for a constant, on words of 32 bits. `none` stands for an
operation that C leaves without a meaning. -/
def quads_value (F : FloatUnit 32) (v : Vars) : Ast → Option (BitVec 32)
  | .num a _ => literal_word a
  | .var _ | .field _ => none
  | .unop op x => do
    let i ← quads_value F v x
    intResult F (fnOf v (.unop op x)).opcode i 0
  | .binop op l r => do
    let i ← quads_value F v l
    let j ← quads_value F v r
    intResult F (fnOf v (.binop op l r)).opcode i j
  | .call1 f x => do
    let i ← quads_value F v x
    intResult F (fnOf v (.call1 f x)).opcode i 0
  | .call2 f x y => do
    let i ← quads_value F v x
    let j ← quads_value F v y
    intResult F (fnOf v (.call2 f x y)).opcode i j

/-- The expressions over integer literals, the operators and the functions that have an integer
operation. -/
def IntConstant : Ast → Prop
  | .num _ is_float => is_float = false
  | .var _ | .field _ => False
  | .unop op x => isUnary op ∧ IntConstant x
  | .binop op l r => (op_info op).isSome ∧ IntConstant l ∧ IntConstant r
  | .call1 f x => f.fn_i.isSome ∧ f.arity = 1 ∧ IntConstant x
  | .call2 f x y => f.fn_i.isSome ∧ f.arity = 2 ∧ IntConstant x ∧ IntConstant y

/-- The expression and all of its operands, down to the literals. -/
def Ast.parts : Ast → List Ast
  | .num a is_float => [.num a is_float]
  | .var name => [.var name]
  | .field name => [.field name]
  | .unop op x => .unop op x :: x.parts
  | .binop op l r => .binop op l r :: (l.parts ++ r.parts)
  | .call1 f x => .call1 f x :: x.parts
  | .call2 f x y => .call2 f x y :: (x.parts ++ y.parts)

/-- The result of folding, if it is a literal, is an integer literal for the word. -/
def LiteralFor (o : Option (Int × Bool)) (value : Option (BitVec 32)) : Prop :=
  ∀ a is_float, o = some (a, is_float) →
    is_float = false ∧ ∃ i, literal_word a = some i ∧ value = some i

/-- The literal that an expression is folded to is the value of its operations. -/
def Agrees (lua : LuaNumbers) (F : FloatUnit 32) (v : Vars) (e : Ast) : Prop :=
  LiteralFor (fold_constants lua e).literal (quads_value F v e)

/-! ## Where folding agrees -/

/-- The numbers whose words the generator can write. -/
def Writable (a : Int) : Prop := -2 ^ 51 - 2 ^ 33 ≤ a ∧ a ≤ 2 ^ 51

/-- The number that the 32 bits of the runtime hold. -/
def wrapped (a : Int) : Int := a.bmod (2 ^ 32)

/-- A number that the `bit` library takes. -/
def BitNumber (a : Int) : Prop := a.natAbs ≤ 2 ^ 51

def exact_unop : Op → Int → Int
  | .sub, a => -a
  | .lnot, a => lua_flag (a == 0)
  | .bnot, a => (~~~BitVec.ofInt 32 a).toInt
  | _, a => a

/-- The operators over numbers of any size, with the floor of quotients. -/
def exact_binop : Op → Int → Int → Int
  | .add, a, b => a + b
  | .sub, a, b => a - b
  | .mul, a, b => a * b
  | .div, a, b => a.fdiv b
  | .mod, a, b => a.fmod b
  | .eq, a, b => lua_flag (a == b)
  | .ne, a, b => lua_flag (a != b)
  | .lt, a, b => lua_flag (a < b)
  | .le, a, b => lua_flag (a ≤ b)
  | .gt, a, b => lua_flag (a > b)
  | .ge, a, b => lua_flag (a ≥ b)
  | .land, a, b => lua_flag (a != 0 && b != 0)
  | .lor, a, b => lua_flag (a != 0 || b != 0)
  | op, a, b => ((fold_bits op (BitVec.ofInt 32 a) (BitVec.ofInt 32 b)).getD 0).toInt

/-- The number that a constant expression stands for. -/
def exact : Ast → Int
  | .num a _ => a
  | .var _ | .field _ => 0
  | .unop op x => exact_unop op (exact x)
  | .binop op l r => exact_binop op (exact l) (exact r)
  | .call1 f x => (fold_call1 f (exact x)).getD 0
  | .call2 f x y => (fold_call2 f (exact x) (exact y)).getD 0

/-- Divisions by zero are left to the runtime. -/
def by_zero (op : Op) (b : Int) : Bool := (op == .div || op == .mod) && b == 0

/-- No quotient and no remainder in the expression is by zero. -/
def folded : Ast → Bool
  | .num _ _ => true
  | .var _ | .field _ => false
  | .unop _ x | .call1 _ x => folded x
  | .binop op l r => folded l && folded r && !by_zero op (exact r)
  | .call2 _ x y => folded x && folded y

def UnopFits : Op → Int → Prop
  | .sub, a => Writable (-a)
  | .lnot, a => a = 0 ↔ wrapped a = 0
  | .bnot, a => BitNumber a
  | _, _ => True

/-- The division of the runtime is defined, and the floor is its quotient. -/
def DivisionFits (quotient value a b : Int) : Prop :=
  ¬ (wrapped a = -2 ^ 31 ∧ wrapped b = -1) ∧ Writable quotient ∧
    wrapped quotient = wrapped (if wrapped b = 0 then 0 else value)

/-- When an operator gives the same in both worlds, on operands that stand for these numbers. -/
def BinopFits : Op → Int → Int → Prop
  | .add, a, b => Writable (a + b)
  | .sub, a, b => Writable (a - b)
  | .mul, a, b => Writable (a * b)
  | .div, a, b => b ≠ 0 → DivisionFits (a.fdiv b) ((wrapped a).tdiv (wrapped b)) a b
  | .mod, a, b => b ≠ 0 → DivisionFits (a.fmod b) ((wrapped a).tmod (wrapped b)) a b
  | .band, a, b | .bor, a, b | .bxor, a, b => BitNumber a ∧ BitNumber b
  | .shl, a, b => BitNumber a ∧ BitNumber b ∧ 0 ≤ wrapped b ∧ wrapped b < 32
  | .shr, a, b => BitNumber a ∧ BitNumber b ∧ 0 ≤ wrapped b ∧ wrapped b < 32 ∧
      (0 ≤ wrapped a ∨ wrapped b = 0)
  | .eq, a, b | .ne, a, b => a = b ↔ wrapped a = wrapped b
  | .lt, a, b | .ge, a, b => a < b ↔ wrapped a < wrapped b
  | .le, a, b | .gt, a, b => a ≤ b ↔ wrapped a ≤ wrapped b
  | .land, a, b => a ≠ 0 ∧ b ≠ 0 ↔ wrapped a ≠ 0 ∧ wrapped b ≠ 0
  | .lor, a, b => a ≠ 0 ∨ b ≠ 0 ↔ wrapped a ≠ 0 ∨ wrapped b ≠ 0
  | _, _, _ => True

/-- The literal of a node fits the runtime, given the numbers of its operands. A function never
does: its literal is a float. -/
def FoldsWell : Ast → Prop
  | .num a _ => Writable a
  | .var _ | .field _ => True
  | .unop op x => folded x → UnopFits op (exact x)
  | .binop op l r => folded l → folded r → BinopFits op (exact l) (exact r)
  | .call1 _ x => folded x = false
  | .call2 _ x y => ¬ (folded x ∧ folded y)

instance (a : Int) : Decidable (Writable a) :=
  inferInstanceAs (Decidable (-2 ^ 51 - 2 ^ 33 ≤ a ∧ a ≤ 2 ^ 51))

instance (a : Int) : Decidable (BitNumber a) := inferInstanceAs (Decidable (a.natAbs ≤ 2 ^ 51))

instance (quotient value a b : Int) : Decidable (DivisionFits quotient value a b) :=
  inferInstanceAs (Decidable (¬ (wrapped a = -2 ^ 31 ∧ wrapped b = -1) ∧ Writable quotient ∧
    wrapped quotient = wrapped (if wrapped b = 0 then 0 else value)))

instance (op : Op) (a : Int) : Decidable (UnopFits op a) := by
  cases op <;> unfold UnopFits <;> infer_instance

instance (op : Op) (a b : Int) : Decidable (BinopFits op a b) := by
  cases op <;> unfold BinopFits <;> infer_instance

instance (e : Ast) : Decidable (FoldsWell e) := by
  cases e <;> unfold FoldsWell <;> infer_instance

/-! ## Numbers of the runtime -/

/-- A number that the 32 bits of the runtime hold. -/
def IsWord (a : Int) : Prop := -2 ^ 31 ≤ a ∧ a < 2 ^ 31

theorem IsWord.wrapped_eq {a : Int} (h : IsWord a) : wrapped a = a := by
  obtain ⟨hle, hlt⟩ := h
  rw [wrapped, Int.bmod_def]
  omega

/-- Comparisons and connectives of such numbers fit. -/
theorem word_truth_fits {op : Op} {a b : Int} (ha : IsWord a) (hb : IsWord b)
    (hop : op_kind op = some .cmp ∨ op_kind op = some .logic) : BinopFits op a b := by
  cases op <;>
    first
    | exact absurd hop (by decide)
    | simp [BinopFits, ha.wrapped_eq, hb.wrapped_eq]

/-- The floor of a quotient is below the truncated quotient where it is negative and not exact. -/
theorem fdiv_below {a b : Int} (hne : b ≠ 0) :
    a.fdiv b = a.tdiv b - if b ∣ a ∨ (0 ≤ a ↔ 0 ≤ b) then 0 else 1 := by
  rw [Int.fdiv_eq_tdiv]
  by_cases hdvd : b ∣ a
  · simp [hdvd]
  · rcases Int.lt_or_gt_of_ne hne with hneg | hpos
    · have hb : ¬ 0 ≤ b := by omega
      by_cases ha : 0 ≤ a <;> simp [hdvd, ha, hb, Int.sign_eq_neg_one_of_neg hneg]
    · have hb : 0 ≤ b := by omega
      by_cases ha : 0 ≤ a <;> simp [hdvd, ha, hb, Int.sign_eq_one_of_pos hpos]

theorem wrapped_add_ne {a c : Int} (hc : IsWord c) (hne : c ≠ 0) : wrapped (a + c) ≠ wrapped a := by
  obtain ⟨hle, hlt⟩ := hc
  unfold wrapped
  rw [Int.bmod_def, Int.bmod_def]
  omega

/-- A quotient of such numbers fits when it is exact or not negative and the runtime defines it. -/
theorem word_quotient_fits {a b : Int} (ha : IsWord a) (hb : IsWord b) (hne : b ≠ 0) :
    BinopFits .div a b ↔ ¬ (a = -2 ^ 31 ∧ b = -1) ∧ (b ∣ a ∨ (0 ≤ a ↔ 0 ≤ b)) := by
  have hbound := Int.natAbs_tdiv_le_natAbs a b
  have hbelow := fdiv_below (a := a) hne
  rw [BinopFits, forall_prop_of_true hne, DivisionFits, ha.wrapped_eq, hb.wrapped_eq, if_neg hne]
  refine and_congr_right fun _ => ?_
  obtain ⟨hle, hlt⟩ := ha
  have hwritable : Writable (a.fdiv b) := by
    unfold Writable
    split at hbelow <;> omega
  rw [and_iff_right hwritable, hbelow]
  split
  · next h => simp [h]
  · next h => exact iff_of_false (wrapped_add_ne ⟨by decide, by decide⟩ (by decide)) h

theorem word_remainder_fits {a b : Int} (ha : IsWord a) (hb : IsWord b) (hne : b ≠ 0) :
    BinopFits .mod a b ↔ ¬ (a = -2 ^ 31 ∧ b = -1) ∧ (b ∣ a ∨ (0 ≤ a ↔ 0 ≤ b)) := by
  have hsmall := fmod_small a hne
  have hbelow := fdiv_below (a := a) hne
  rw [BinopFits, forall_prop_of_true hne, DivisionFits, ha.wrapped_eq, hb.wrapped_eq, if_neg hne]
  refine and_congr_right fun _ => ?_
  have hwritable : Writable (a.fmod b) := by
    obtain ⟨hle, hlt⟩ := hb
    unfold Writable
    omega
  rw [and_iff_right hwritable, Int.fmod_def, Int.tmod_def, hbelow]
  split
  · next h => simp [h]
  · next h =>
    have hmore : a - b * (a.tdiv b - 1) = a - b * a.tdiv b + b := by ring
    rw [hmore]
    exact iff_of_false (wrapped_add_ne hb hne) h

/-! ## Words -/

theorem tobit_iff {a : Int} {x : BitVec 32} :
    tobit a = some x ↔ BitNumber a ∧ x = BitVec.ofInt 32 a := by
  unfold tobit BitNumber
  split
  · next h => exact ⟨fun heq => ⟨h, (Option.some.inj heq).symm⟩, fun heq => by rw [heq.2]⟩
  · next h => exact ⟨nofun, fun heq => absurd heq.1 h⟩

theorem word_shifted (a : Int) : BitVec.ofInt 32 (0x100000000 + a) = BitVec.ofInt 32 a := by
  have hzero : BitVec.ofInt 32 0x100000000 = 0#32 := by decide
  rw [BitVec.ofInt_add, hzero, BitVec.zero_add]

theorem literal_word_iff {a : Int} {i : BitVec 32} :
    literal_word a = some i ↔ Writable a ∧ i = BitVec.ofInt 32 a := by
  unfold literal_word emit_i32 emit_u32
  by_cases hneg : a < 0
  · by_cases hmore : 0x100000000 + a < 0
    · rw [if_pos hneg, if_pos hneg, if_pos hmore, tobit_iff, word_shifted, word_shifted]
      refine and_congr_left' ?_
      unfold BitNumber Writable
      omega
    · rw [if_pos hneg, if_pos hneg, if_neg hmore, tobit_iff, word_shifted]
      refine and_congr_left' ?_
      unfold BitNumber Writable
      omega
  · rw [if_neg hneg, if_neg hneg, tobit_iff]
    refine and_congr_left' ?_
    unfold BitNumber Writable
    omega

theorem literal_word_of_writable {a : Int} (h : Writable a) :
    literal_word a = some (BitVec.ofInt 32 a) := literal_word_iff.mpr ⟨h, rfl⟩

theorem Writable.isDouble {a : Int} (h : Writable a) : IsDouble a := by
  unfold Writable at h
  unfold IsDouble
  omega

/-- A rounded number can be written when the number itself can. -/
theorem writable_double {a : Int} : Writable (double a) ↔ Writable a := by
  by_cases hexact : a.natAbs < 2 ^ 53
  · rw [double_exact hexact]
  · have hlarge := double_large (Nat.le_of_not_lt hexact)
    unfold Writable
    omega

theorem toInt_ofInt (a : Int) : (BitVec.ofInt 32 a).toInt = wrapped a := BitVec.toInt_ofInt a

/-- The signed number of a word is written as the word. -/
theorem literal_word_toInt (x : BitVec 32) : literal_word x.toInt = some x := by
  have hlt := BitVec.toInt_lt (x := x)
  have hle := BitVec.le_toInt x
  rw [literal_word_iff, BitVec.ofInt_toInt]
  refine ⟨?_, rfl⟩
  unfold Writable
  omega

theorem literal_word_flag (p : Bool) : literal_word (lua_flag p) = some (cbool p) := by
  cases p <;> decide

theorem word_eq_iff {a b : Int} :
    BitVec.ofInt 32 a = BitVec.ofInt 32 b ↔ wrapped a = wrapped b := by
  rw [← BitVec.toInt_inj, toInt_ofInt, toInt_ofInt]

/-- A number that the library takes has its bits in the word. -/
theorem tobit_of_number {a : Int} (h : BitNumber a) : tobit a = some (BitVec.ofInt 32 a) :=
  tobit_iff.mpr ⟨h, rfl⟩

/-! ## Literals for words -/

theorem literalFor_none (value : Option (BitVec 32)) : LiteralFor none value := nofun

theorem literalFor_int {a : Int} {value : Option (BitVec 32)} :
    LiteralFor (some (a, false)) value ↔ Writable a ∧ value = some (BitVec.ofInt 32 a) := by
  unfold LiteralFor
  constructor
  · intro h
    obtain ⟨-, i, hword, hvalue⟩ := h a false rfl
    obtain ⟨hwritable, rfl⟩ := literal_word_iff.mp hword
    exact ⟨hwritable, hvalue⟩
  · rintro ⟨hwritable, hvalue⟩ b is_float heq
    cases heq
    exact ⟨rfl, _, literal_word_of_writable hwritable, hvalue⟩

theorem not_literalFor_float {a : Int} {value : Option (BitVec 32)} :
    ¬ LiteralFor (some (a, true)) value := by
  intro h
  exact absurd (h a true rfl).1 nofun

/-- A number that can be written is rounded to itself, and stands for its own word. -/
theorem arith_literal {c : Int} :
    LiteralFor (some (double c, false)) (some (BitVec.ofInt 32 c)) ↔ Writable c := by
  rw [literalFor_int, writable_double]
  refine and_iff_left_of_imp fun h => ?_
  rw [double_exact h.isDouble]

theorem flag_literal {p q : Bool} :
    LiteralFor (some (lua_flag p, false)) (some (cbool q)) ↔ (p = true ↔ q = true) := by
  obtain ⟨hwritable, hword⟩ := literal_word_iff.mp (literal_word_flag p)
  rw [literalFor_int, ← hword, Option.some_inj, and_iff_right hwritable, ← Bool.eq_iff_iff]
  cases p <;> cases q <;> decide

theorem word_literal {z : BitVec 32} {value : Option (BitVec 32)} :
    LiteralFor (some (z.toInt, false)) value ↔ value = some z := by
  obtain ⟨hwritable, -⟩ := literal_word_iff.mp (literal_word_toInt z)
  rw [literalFor_int, and_iff_right hwritable, BitVec.ofInt_toInt]

/-! ## One operator -/

section

variable {F : FloatUnit 32} {a b : Int}

/-- The operation of an operator on integers. -/
def int_unop_fn (op : Op) : QuadFn := (unop_fn false op).toOption.getD .quad_mov

def int_binop_fn (op : Op) : QuadFn := (resolve_binop op false).toOption.getD .quad_mov

theorem divide_iff {f : BitVec 32 → BitVec 32 → BitVec 32} {i j r : BitVec 32} {n : Int}
    (hdoc : ∀ r, divide f i j = some r → r = BitVec.ofInt 32 n) : divide f i j = some r ↔
      ¬ (i.toInt = -2 ^ 31 ∧ j.toInt = -1) ∧ r = BitVec.ofInt 32 n := by
  rw [← quads.divide_eq (f := f)]
  constructor
  · exact fun h => ⟨⟨r, h⟩, hdoc r h⟩
  · rintro ⟨⟨r', h⟩, rfl⟩
    rw [h, hdoc r' h]

theorem division_literal {f : BitVec 32 → BitVec 32 → BitVec 32} {quotient value : Int}
    (hdoc : ∀ r, divide f (BitVec.ofInt 32 a) (BitVec.ofInt 32 b) = some r →
      r = BitVec.ofInt 32 (if wrapped b = 0 then 0 else value)) :
    LiteralFor (some (quotient, false)) (divide f (BitVec.ofInt 32 a) (BitVec.ofInt 32 b)) ↔
      DivisionFits quotient value a b := by
  rw [literalFor_int, divide_iff hdoc, toInt_ofInt, toInt_ofInt, word_eq_iff, DivisionFits]
  exact and_left_comm

theorem Writable.quotient_bound {a : Int} (h : Writable a) : a.natAbs ≤ 2 ^ 52 := by
  unfold Writable at h
  omega

/-- Where an operator is computed with numbers, the two sides agree when it fits. -/
theorem number_literal_iff {op : Op} (hop : op_kind op ≠ some .bitwise)
    (hinfo : (op_info op).isSome) (ha : Writable a) (hb : Writable b) :
    LiteralFor ((fold_number op a b).map fun r => (r, false))
      (intResult F (int_binop_fn op).opcode (BitVec.ofInt 32 a) (BitVec.ofInt 32 b)) ↔
        BinopFits op a b := by
  have hzero : BitVec.ofInt 32 0 = 0 := by decide
  have hne : ∀ c : Int, (BitVec.ofInt 32 c != 0) = true ↔ wrapped c ≠ 0 := by
    intro c
    rw [← quads.toInt_ne_zero_iff, toInt_ofInt]
  have hlt : ∀ c d : Int, (BitVec.ofInt 32 c).slt (BitVec.ofInt 32 d) = true ↔
      wrapped c < wrapped d := by
    intro c d
    rw [BitVec.slt_iff_toInt_lt, toInt_ofInt, toInt_ofInt]
  have hle : ∀ c d : Int, (BitVec.ofInt 32 c).sle (BitVec.ofInt 32 d) = true ↔
      wrapped c ≤ wrapped d := by
    intro c d
    rw [BitVec.sle_iff_toInt_le, toInt_ofInt, toInt_ofInt]
  cases op with
  | add =>
    have hresult : intResult F (int_binop_fn .add).opcode (BitVec.ofInt 32 a) (BitVec.ofInt 32 b) =
        some (BitVec.ofInt 32 (a + b)) := congrArg some (BitVec.ofInt_add a b).symm
    rw [hresult]
    exact arith_literal
  | sub =>
    have hresult : intResult F (int_binop_fn .sub).opcode (BitVec.ofInt 32 a) (BitVec.ofInt 32 b) =
        some (BitVec.ofInt 32 (a - b)) := by
      rw [Int.sub_eq_add_neg, BitVec.ofInt_add, BitVec.ofInt_neg, ← BitVec.sub_eq_add_neg]
      rfl
    rw [hresult]
    exact arith_literal
  | mul =>
    have hresult : intResult F (int_binop_fn .mul).opcode (BitVec.ofInt 32 a) (BitVec.ofInt 32 b) =
        some (BitVec.ofInt 32 (a * b)) := congrArg some (BitVec.ofInt_mul a b).symm
    rw [hresult]
    exact arith_literal
  | div =>
    by_cases hb0 : b = 0
    · rw [fold_number, if_pos hb0]
      exact iff_of_true (literalFor_none _) fun hne => absurd hb0 hne
    · rw [fold_number, if_neg hb0, floor_div_eq ha.quotient_bound hb.quotient_bound hb0]
      rw [BinopFits, forall_prop_of_true hb0]
      refine division_literal fun r hr => ?_
      have hdoc : r = BitVec.ofInt 32 (if (BitVec.ofInt 32 b).toInt = 0 then 0
        else (BitVec.ofInt 32 a).toInt.tdiv (BitVec.ofInt 32 b).toInt) := quads.idiv_documented hr
      rwa [toInt_ofInt, toInt_ofInt] at hdoc
  | mod =>
    by_cases hb0 : b = 0
    · rw [fold_number, if_pos hb0]
      exact iff_of_true (literalFor_none _) fun hne => absurd hb0 hne
    · rw [fold_number, if_neg hb0, floor_remainder ha.quotient_bound hb.quotient_bound hb0]
      rw [BinopFits, forall_prop_of_true hb0]
      refine division_literal fun r hr => ?_
      have hdoc : r = BitVec.ofInt 32 (if (BitVec.ofInt 32 b).toInt = 0 then 0
        else (BitVec.ofInt 32 a).toInt.tmod (BitVec.ofInt 32 b).toInt) := quads.imod_documented hr
      rwa [toInt_ofInt, toInt_ofInt] at hdoc
  | eq => exact flag_literal.trans (by rw [beq_iff_eq, beq_iff_eq, word_eq_iff, BinopFits])
  | ne =>
    refine flag_literal.trans ?_
    rw [bne_iff_ne, bne_iff_ne, ne_eq, ne_eq, word_eq_iff, not_iff_not, BinopFits]
  | lt => exact flag_literal.trans (by rw [decide_eq_true_iff, hlt, BinopFits])
  | le => exact flag_literal.trans (by rw [decide_eq_true_iff, hle, BinopFits])
  | gt =>
    refine flag_literal.trans ?_
    rw [decide_eq_true_iff, hlt, gt_iff_lt, ← Int.not_le, ← Int.not_le, not_iff_not, BinopFits]
  | ge =>
    refine flag_literal.trans ?_
    rw [decide_eq_true_iff, hle, ge_iff_le, ← Int.not_lt, ← Int.not_lt, not_iff_not, BinopFits]
  | land =>
    refine flag_literal.trans ?_
    rw [Bool.and_eq_true, Bool.and_eq_true, hne, hne, bne_iff_ne, bne_iff_ne, BinopFits]
  | lor =>
    refine flag_literal.trans ?_
    rw [Bool.or_eq_true, Bool.or_eq_true, hne, hne, bne_iff_ne, bne_iff_ne, BinopFits]
  | band | bor | bxor | shl | shr => exact absurd rfl hop
  | lnot | bnot | assign => cases hinfo

/-- Where it fits, the literal is the number that the expression stands for. -/
theorem number_exact {op : Op} (hop : op_kind op ≠ some .bitwise) (hinfo : (op_info op).isSome)
    (ha : Writable a) (hb : Writable b) (hfits : BinopFits op a b) :
    fold_number op a b = if by_zero op b then none else some (exact_binop op a b) := by
  cases op with
  | add | sub | mul => exact congrArg some (double_exact (Writable.isDouble hfits))
  | div =>
    by_cases hb0 : b = 0
    · simp [fold_number, by_zero, hb0]
    · simp [fold_number, by_zero, hb0, exact_binop,
        floor_div_eq ha.quotient_bound hb.quotient_bound hb0]
  | mod =>
    by_cases hb0 : b = 0
    · simp [fold_number, by_zero, hb0]
    · simp [fold_number, by_zero, hb0, exact_binop,
        floor_remainder ha.quotient_bound hb.quotient_bound hb0]
  | eq | ne | lt | le | gt | ge | land | lor => rfl
  | band | bor | bxor | shl | shr => exact absurd rfl hop
  | lnot | bnot | assign => cases hinfo

/-! ## Words and their bits -/

/-- A shift to the right that brings in zeros is the one of a signed word where the sign is none. -/
theorem shr_agrees_iff (x : BitVec 32) {n : Nat} (hn : n < 32) :
    x.sshiftRight n = x >>> n ↔ 0 ≤ x.toInt ∨ n = 0 := by
  have hsign : 0 ≤ x.toInt ↔ x.msb = false := by
    rw [BitVec.msb_eq_toInt, decide_eq_false_iff_not, Int.not_lt]
  rw [hsign]
  constructor
  · intro heq
    by_cases hzero : n = 0
    · exact Or.inr hzero
    · have hmsb := congrArg BitVec.msb heq
      rw [BitVec.msb_sshiftRight, BitVec.msb_ushiftRight] at hmsb
      simp [hzero] at hmsb
      exact Or.inl hmsb
  · rintro (hmsb | rfl)
    · exact BitVec.sshiftRight_eq_of_msb_false hmsb
    · simp

theorem amount_word_iff {amount : BitVec 32} (h : amount.toNat < 32) :
    amount.toNat = 0 ↔ amount.toInt = 0 := by
  have hnum := (quads.amount_iff amount).mp h
  have hsame := quads.amount_eq h
  omega

theorem shift_some_iff {f : Nat → BitVec 32} {amount r : BitVec 32} :
    shift f amount = some r ↔ amount.toNat < 32 ∧ f amount.toNat = r := by
  unfold shift
  split
  · next h => simp [h]
  · next h => simp [h]

theorem bits_exact {lua : LuaNumbers} (hlua : lua.Documented) {op : Op}
    (hop : op_kind op = some .bitwise) (ha : BitNumber a) (hb : BitNumber b) :
    lua.binop op (a, false) (b, false) = some (exact_binop op a b, false) := by
  cases op with
  | band | bor | bxor | shl | shr =>
    exact hlua.bits (tobit_of_number ha) (tobit_of_number hb) rfl
  | _ => cases hop

/-- Where an operator is computed with the library, the two sides agree when it fits. -/
theorem bits_literal_iff {op : Op} (hop : op_kind op = some .bitwise) (ha : BitNumber a)
    (hb : BitNumber b) : LiteralFor (some (exact_binop op a b, false))
      (intResult F (int_binop_fn op).opcode (BitVec.ofInt 32 a) (BitVec.ofInt 32 b)) ↔
        BinopFits op a b := by
  have hamount := quads.amount_iff (BitVec.ofInt 32 b)
  rw [toInt_ofInt] at hamount
  cases op with
  | band | bor | bxor => exact iff_of_true (word_literal.mpr rfl) ⟨ha, hb⟩
  | shl =>
    have hresult : exact_binop .shl a b =
      (BitVec.ofInt 32 a <<< ((BitVec.ofInt 32 b).toNat % 32)).toInt := rfl
    rw [hresult]
    refine (word_literal.trans shift_some_iff).trans ?_
    rw [BinopFits, and_iff_right ha, and_iff_right hb, ← hamount]
    exact and_iff_left_of_imp fun hlt => by rw [Nat.mod_eq_of_lt hlt]
  | shr =>
    have hresult : exact_binop .shr a b =
      (BitVec.ofInt 32 a >>> ((BitVec.ofInt 32 b).toNat % 32)).toInt := rfl
    rw [hresult]
    refine (word_literal.trans shift_some_iff).trans ?_
    rw [BinopFits, and_iff_right ha, and_iff_right hb, ← and_assoc, ← hamount]
    refine and_congr_right fun hlt => ?_
    have hagrees := shr_agrees_iff (BitVec.ofInt 32 a) hlt
    rw [amount_word_iff hlt, toInt_ofInt, toInt_ofInt] at hagrees
    rw [Nat.mod_eq_of_lt hlt]
    exact hagrees
  | _ => cases hop

/-- Two results cannot both be the literal for one word. -/
theorem literal_unique {value : Option (BitVec 32)} (hzero : LiteralFor (some (0, false)) value)
    (hone : LiteralFor (some (1, false)) value) : False := by
  have hzero' := (literalFor_int.mp hzero).2
  rw [(literalFor_int.mp hone).2] at hzero'
  exact absurd hzero' (by decide)

theorem tobit_none {c : Int} (h : ¬ BitNumber c) : tobit c = none := if_neg h

theorem bits_open {op : Op} (hop : op_kind op = some .bitwise) (h : ¬ (BitNumber a ∧ BitNumber b))
    (elsewhere : Int) :
    (lua_numbers elsewhere).binop op (a, false) (b, false) = some (elsewhere, false) := by
  rcases not_and_or.mp h with ha | hb
  · simp [lua_numbers, hop, tobit_none ha]
  · simp [lua_numbers, hop, tobit_none hb]

/-! ## Operators on literals -/

theorem binop_agrees {lua : LuaNumbers} (hlua : lua.Documented) {op : Op}
    (hinfo : (op_info op).isSome) (ha : Writable a) (hb : Writable b) (hfits : BinopFits op a b) :
    lua.binop op (a, false) (b, false) =
        (if by_zero op b then none else some (exact_binop op a b, false)) ∧
      LiteralFor (lua.binop op (a, false) (b, false))
        (intResult F (int_binop_fn op).opcode (BitVec.ofInt 32 a) (BitVec.ofInt 32 b)) := by
  by_cases hop : op_kind op = some .bitwise
  · have hbits : BitNumber a ∧ BitNumber b := by
      cases op with
      | band | bor | bxor => exact hfits
      | shl | shr => exact ⟨hfits.1, hfits.2.1⟩
      | _ => cases hop
    have hzero : by_zero op b = false := by
      cases op <;> first | rfl | cases hop
    rw [bits_exact hlua hop hbits.1 hbits.2, hzero]
    exact ⟨rfl, (bits_literal_iff hop hbits.1 hbits.2).mpr hfits⟩
  · rw [hlua.number hop ha.isDouble hb.isDouble]
    refine ⟨?_, (number_literal_iff hop hinfo ha hb).mpr hfits⟩
    rw [number_exact hop hinfo ha hb hfits]
    cases by_zero op b <;> rfl

theorem binop_fits {op : Op} (hinfo : (op_info op).isSome) (ha : Writable a) (hb : Writable b)
    (h : ∀ lua : LuaNumbers, lua.Documented → LiteralFor (lua.binop op (a, false) (b, false))
      (intResult F (int_binop_fn op).opcode (BitVec.ofInt 32 a) (BitVec.ofInt 32 b))) :
    BinopFits op a b := by
  have hzero := h (lua_numbers 0) (lua_numbers_documented 0)
  by_cases hop : op_kind op = some .bitwise
  · by_cases hbits : BitNumber a ∧ BitNumber b
    · rw [bits_exact (lua_numbers_documented 0) hop hbits.1 hbits.2] at hzero
      exact (bits_literal_iff hop hbits.1 hbits.2).mp hzero
    · -- beyond the range of the library the result can be any number
      have hone := h (lua_numbers 1) (lua_numbers_documented 1)
      rw [bits_open hop hbits] at hzero hone
      exact (literal_unique hzero hone).elim
  · rw [(lua_numbers_documented 0).number hop ha.isDouble hb.isDouble] at hzero
    exact (number_literal_iff hop hinfo ha hb).mp hzero

theorem unop_agrees {lua : LuaNumbers} (hlua : lua.Documented) {op : Op} (hop : isUnary op)
    (ha : Writable a) (hfits : UnopFits op a) :
    lua.unop op (a, false) = some (exact_unop op a, false) ∧
      LiteralFor (lua.unop op (a, false))
        (intResult F (int_unop_fn op).opcode (BitVec.ofInt 32 a) 0) := by
  cases op with
  | sub =>
    rw [hlua.neg ha.isDouble]
    exact ⟨rfl, literalFor_int.mpr ⟨hfits, congrArg some BitVec.ofInt_neg.symm⟩⟩
  | lnot =>
    rw [hlua.lnot ha.isDouble]
    refine ⟨rfl, flag_literal.mpr ?_⟩
    rw [beq_iff_eq, beq_iff_eq, ← BitVec.toInt_inj, toInt_ofInt]
    exact hfits
  | bnot =>
    rw [hlua.bnot (tobit_of_number hfits)]
    exact ⟨rfl, word_literal.mpr rfl⟩
  | _ => cases hop

theorem unop_fits {op : Op} (hop : isUnary op)
    (h : ∀ lua : LuaNumbers, lua.Documented → LiteralFor (lua.unop op (a, false))
      (intResult F (int_unop_fn op).opcode (BitVec.ofInt 32 a) 0)) : UnopFits op a := by
  have hzero := h (lua_numbers 0) (lua_numbers_documented 0)
  cases op with
  | sub => exact (literalFor_int.mp hzero).1
  | lnot =>
    have hflags := flag_literal.mp hzero
    rw [beq_iff_eq, beq_iff_eq, ← BitVec.toInt_inj, toInt_ofInt] at hflags
    exact hflags
  | bnot =>
    by_contra hbits
    have hone := h (lua_numbers 1) (lua_numbers_documented 1)
    have hopen : ∀ r, (lua_numbers r).unop .bnot (a, false) = some (r, false) := by
      intro r
      simp [lua_numbers, tobit_none hbits]
    rw [hopen] at hzero hone
    exact literal_unique hzero hone
  | _ => cases hop

end

/-! ## Expressions -/

section

variable {F : FloatUnit 32} {v : Vars} {lua : LuaNumbers}

theorem int_constant_typed {e : Ast} (h : IntConstant e) : IntTyped v e := by
  induction e with
  | num => exact h
  | var | field => exact h.elim
  | unop op x ih => exact ih h.2
  | binop op l r ihl ihr => exact ⟨ihl h.2.1, ihr h.2.2⟩
  | call1 f x ih => exact ⟨h.1, ih h.2.2⟩
  | call2 f x y ihx ihy => exact ⟨h.1, ihx h.2.2.1, ihy h.2.2.2⟩

theorem fn_of_int_unop {op : Op} {x : Ast} (h : IntConstant x) :
    fnOf v (.unop op x) = int_unop_fn op := by
  rw [fnOf, int_infers_int (int_constant_typed h), int_unop_fn]

theorem fn_of_int_binop {op : Op} {l r : Ast} (hl : IntConstant l) (hr : IntConstant r) :
    fnOf v (.binop op l r) = int_binop_fn op := by
  rw [fnOf, int_operands_infer_int (int_infers_int (int_constant_typed hl))
    (int_infers_int (int_constant_typed hr)), int_binop_fn]

theorem foldedTo_literal {node : Ast} (hnode : node.literal = none) (o : Option (Int × Bool)) :
    (foldedTo node o).literal = o := by
  cases o with
  | none => exact hnode
  | some r => rfl

/-- Folding has computed the number of the expression, which is the value of its operations. -/
def FoldedTo (lua : LuaNumbers) (F : FloatUnit 32) (v : Vars) (e : Ast) : Prop :=
  (fold_constants lua e).literal = some (exact e, false) ∧ Writable (exact e) ∧
    quads_value F v e = some (BitVec.ofInt 32 (exact e))

/-- The literal of an expression is its value, or a division by zero keeps it from being folded. -/
def Outcome (lua : LuaNumbers) (F : FloatUnit 32) (v : Vars) (e : Ast) : Prop :=
  if folded e then FoldedTo lua F v e else (fold_constants lua e).literal = none

theorem Outcome.agrees {e : Ast} (h : Outcome lua F v e) : Agrees lua F v e := by
  unfold Outcome at h
  unfold Agrees
  split at h
  · obtain ⟨hliteral, hwritable, hvalue⟩ := h
    rw [hliteral]
    exact literalFor_int.mpr ⟨hwritable, hvalue⟩
  · rw [h]
    exact literalFor_none _

theorem Outcome.folded_to {e : Ast} (h : Outcome lua F v e) (hfolded : folded e) :
    FoldedTo lua F v e := by
  rw [Outcome, if_pos hfolded] at h
  exact h

theorem Outcome.kept {e : Ast} (h : Outcome lua F v e) (hfolded : folded e = false) :
    (fold_constants lua e).literal = none := by
  rw [Outcome, if_neg (by simp [hfolded])] at h
  exact h

theorem unop_literal {op : Op} {x : Ast} (h : FoldedTo lua F v x) :
    (fold_constants lua (.unop op x)).literal = lua.unop op (exact x, false) := by
  rw [fold_constants, foldedTo_literal rfl, h.1]
  rfl

theorem binop_literal {op : Op} {l r : Ast} (hl : FoldedTo lua F v l) (hr : FoldedTo lua F v r) :
    (fold_constants lua (.binop op l r)).literal =
      lua.binop op (exact l, false) (exact r, false) := by
  rw [fold_constants, foldedTo_literal rfl, hl.1, hr.1]
  rfl

theorem unop_quads {op : Op} {x : Ast} (hx : IntConstant x) (h : FoldedTo lua F v x) :
    quads_value F v (.unop op x) =
      intResult F (int_unop_fn op).opcode (BitVec.ofInt 32 (exact x)) 0 := by
  rw [quads_value, h.2.2, fn_of_int_unop hx]
  rfl

theorem binop_quads {op : Op} {l r : Ast} (hl : IntConstant l) (hr : IntConstant r)
    (hl' : FoldedTo lua F v l) (hr' : FoldedTo lua F v r) :
    quads_value F v (.binop op l r) = intResult F (int_binop_fn op).opcode
      (BitVec.ofInt 32 (exact l)) (BitVec.ofInt 32 (exact r)) := by
  rw [quads_value, hl'.2.2, hr'.2.2, fn_of_int_binop hl hr]
  rfl

theorem pair_kept {l r : Ast} {f : Int × Bool → Int × Bool → Option (Int × Bool)}
    (hl : Outcome lua F v l) (hr : Outcome lua F v r) (h : (folded l && folded r) = false) :
    ((fold_constants lua l).literal.bind fun a => (fold_constants lua r).literal.bind (f a)) =
      none := by
  rcases Bool.and_eq_false_iff.mp h with hkept | hkept
  · rw [hl.kept hkept]
    rfl
  · rw [hr.kept hkept]
    cases (fold_constants lua l).literal <;> rfl

/-- One operator: the literals of the operands give the literal of the node. -/
theorem unop_outcome (hlua : lua.Documented) {op : Op} {x : Ast} (hconst : IntConstant (.unop op x))
    (hx : Outcome lua F v x) (hwell : FoldsWell (.unop op x)) : Outcome lua F v (.unop op x) := by
  obtain ⟨hop, hxc⟩ := hconst
  unfold Outcome
  rw [folded]
  split
  · next hfolded =>
    have hx' := hx.folded_to hfolded
    obtain ⟨heq, hliteral⟩ := unop_agrees (F := F) hlua hop hx'.2.1 (hwell hfolded)
    rw [heq] at hliteral
    obtain ⟨hwritable, hvalue⟩ := literalFor_int.mp hliteral
    exact ⟨(unop_literal hx').trans heq, hwritable, (unop_quads hxc hx').trans hvalue⟩
  · next hkept =>
    rw [fold_constants, foldedTo_literal rfl, hx.kept (Bool.eq_false_iff.mpr hkept)]
    rfl

theorem binop_outcome (hlua : lua.Documented) {op : Op} {l r : Ast}
    (hconst : IntConstant (.binop op l r)) (hl : Outcome lua F v l) (hr : Outcome lua F v r)
    (hwell : FoldsWell (.binop op l r)) : Outcome lua F v (.binop op l r) := by
  obtain ⟨hinfo, hlc, hrc⟩ := hconst
  unfold Outcome
  cases hboth : folded l && folded r with
  | false =>
    rw [folded, hboth, if_neg (by simp), fold_constants, foldedTo_literal rfl]
    exact pair_kept hl hr hboth
  | true =>
    obtain ⟨hfl, hfr⟩ := Bool.and_eq_true_iff.mp hboth
    have hl' := hl.folded_to hfl
    have hr' := hr.folded_to hfr
    obtain ⟨heq, hliteral⟩ := binop_agrees (F := F) hlua hinfo hl'.2.1 hr'.2.1 (hwell hfl hfr)
    rw [folded, hboth]
    cases hzero : by_zero op (exact r) with
    | true =>
      rw [hzero] at heq
      exact (binop_literal hl' hr').trans heq
    | false =>
      rw [hzero] at heq
      rw [heq] at hliteral
      obtain ⟨hwritable, hvalue⟩ := literalFor_int.mp hliteral
      exact ⟨(binop_literal hl' hr').trans heq, hwritable, (binop_quads hlc hrc hl' hr').trans hvalue⟩

/-- Where every part folds well, folding gives the value of the operations. -/
theorem outcome_of_folds_well (hlua : lua.Documented) {e : Ast} (hconst : IntConstant e)
    (hwell : ∀ p ∈ e.parts, FoldsWell p) : Outcome lua F v e := by
  induction e with
  | num a is_float =>
    have hfloat : is_float = false := hconst
    have hwritable : Writable a := hwell _ List.mem_cons_self
    subst hfloat
    exact ⟨rfl, hwritable, literal_word_of_writable hwritable⟩
  | var | field => exact hconst.elim
  | unop op x ih =>
    have hx := ih hconst.2 fun p hp => hwell p (List.mem_cons_of_mem _ hp)
    exact unop_outcome hlua hconst hx (hwell _ List.mem_cons_self)
  | binop op l r ihl ihr =>
    have hl := ihl hconst.2.1 fun p hp =>
      hwell p (List.mem_cons_of_mem _ (List.mem_append_left _ hp))
    have hr := ihr hconst.2.2 fun p hp =>
      hwell p (List.mem_cons_of_mem _ (List.mem_append_right _ hp))
    exact binop_outcome hlua hconst hl hr (hwell _ List.mem_cons_self)
  | call1 f x ih =>
    have hx := ih hconst.2.2 fun p hp => hwell p (List.mem_cons_of_mem _ hp)
    have hkept : folded x = false := hwell _ List.mem_cons_self
    rw [Outcome, folded, if_neg (by simp [hkept]), fold_constants, foldedTo_literal rfl, hx.kept hkept]
    rfl
  | call2 f x y ihx ihy =>
    have hx := ihx hconst.2.2.1 fun p hp =>
      hwell p (List.mem_cons_of_mem _ (List.mem_append_left _ hp))
    have hy := ihy hconst.2.2.2 fun p hp =>
      hwell p (List.mem_cons_of_mem _ (List.mem_append_right _ hp))
    have hkept : ¬ (folded x ∧ folded y) := hwell _ List.mem_cons_self
    have hpair : (folded x && folded y) = false := by simpa using hkept
    rw [Outcome, folded, hpair, if_neg (by simp), fold_constants, foldedTo_literal rfl]
    exact pair_kept hx hy hpair

/-! ## Where a literal does not agree -/

theorem call1_float (hlua : lua.Documented) {f : Func} (hf : f.fn_i.isSome) (harity : f.arity = 1)
    {a : Int} (ha : IsDouble a) : ∃ r, lua.call1 f (a, false) = some (r, true) := by
  cases f with
  | abs | neg => exact ⟨_, hlua.call1 ha rfl⟩
  | min | max => cases harity
  | _ => cases hf

theorem call2_float (hlua : lua.Documented) {f : Func} (hf : f.fn_i.isSome) (harity : f.arity = 2)
    {a b : Int} (ha : IsDouble a) (hb : IsDouble b) :
    ∃ r, lua.call2 f (a, false) (b, false) = some (r, true) := by
  cases f with
  | min | max => exact ⟨_, hlua.call2 ha hb rfl⟩
  | abs | neg => cases harity
  | _ => cases hf

theorem call1_disagrees (hlua : lua.Documented) {f : Func} {x : Ast}
    (hconst : IntConstant (.call1 f x)) (hx : FoldedTo lua F v x) :
    ¬ Agrees lua F v (.call1 f x) := by
  obtain ⟨r, hr⟩ := call1_float hlua hconst.1 hconst.2.1 hx.2.1.isDouble
  have hliteral : (fold_constants lua (.call1 f x)).literal = some (r, true) := by
    rw [fold_constants, foldedTo_literal rfl, hx.1]
    exact hr
  rw [Agrees, hliteral]
  exact not_literalFor_float

theorem call2_disagrees (hlua : lua.Documented) {f : Func} {x y : Ast}
    (hconst : IntConstant (.call2 f x y)) (hx : FoldedTo lua F v x) (hy : FoldedTo lua F v y) :
    ¬ Agrees lua F v (.call2 f x y) := by
  obtain ⟨r, hr⟩ := call2_float hlua hconst.1 hconst.2.1 hx.2.1.isDouble hy.2.1.isDouble
  have hliteral : (fold_constants lua (.call2 f x y)).literal = some (r, true) := by
    rw [fold_constants, foldedTo_literal rfl, hx.1, hy.1]
    exact hr
  rw [Agrees, hliteral]
  exact not_literalFor_float

theorem self_mem_parts (e : Ast) : e ∈ e.parts := by
  cases e <;> exact List.mem_cons_self

/-- One operator: the literal agrees with every implementation of Lua only where it fits. -/
theorem unop_folds_well {op : Op} {x : Ast} (hconst : IntConstant (.unop op x))
    (hx : ∀ p ∈ x.parts, FoldsWell p)
    (h : ∀ lua : LuaNumbers, lua.Documented → Agrees lua F v (.unop op x)) :
    FoldsWell (.unop op x) := by
  intro hfolded
  have hto : ∀ lua : LuaNumbers, lua.Documented → FoldedTo lua F v x :=
    fun lua hlua => (outcome_of_folds_well hlua hconst.2 hx).folded_to hfolded
  apply unop_fits (F := F) hconst.1
  intro lua hlua
  have hagrees := h lua hlua
  rwa [Agrees, unop_literal (hto lua hlua), unop_quads hconst.2 (hto lua hlua)] at hagrees

theorem binop_folds_well {op : Op} {l r : Ast} (hconst : IntConstant (.binop op l r))
    (hl : ∀ p ∈ l.parts, FoldsWell p) (hr : ∀ p ∈ r.parts, FoldsWell p)
    (h : ∀ lua : LuaNumbers, lua.Documented → Agrees lua F v (.binop op l r)) :
    FoldsWell (.binop op l r) := by
  obtain ⟨hinfo, hlc, hrc⟩ := hconst
  intro hfl hfr
  have htol : ∀ lua : LuaNumbers, lua.Documented → FoldedTo lua F v l :=
    fun lua hlua => (outcome_of_folds_well hlua hlc hl).folded_to hfl
  have htor : ∀ lua : LuaNumbers, lua.Documented → FoldedTo lua F v r :=
    fun lua hlua => (outcome_of_folds_well hlua hrc hr).folded_to hfr
  have ha := (htol _ (lua_numbers_documented 0)).2.1
  have hb := (htor _ (lua_numbers_documented 0)).2.1
  apply binop_fits (F := F) hinfo ha hb
  intro lua hlua
  have hagrees := h lua hlua
  rwa [Agrees, binop_literal (htol lua hlua) (htor lua hlua),
    binop_quads hlc hrc (htol lua hlua) (htor lua hlua)] at hagrees

theorem call1_folds_well {f : Func} {x : Ast} (hconst : IntConstant (.call1 f x))
    (hx : ∀ p ∈ x.parts, FoldsWell p)
    (h : ∀ lua : LuaNumbers, lua.Documented → Agrees lua F v (.call1 f x)) :
    FoldsWell (.call1 f x) := by
  have hlua := lua_numbers_documented 0
  apply Bool.eq_false_iff.mpr
  intro hfolded
  have hto : FoldedTo (lua_numbers 0) F v x :=
    (outcome_of_folds_well hlua hconst.2.2 hx).folded_to hfolded
  exact call1_disagrees hlua hconst hto (h _ hlua)

theorem call2_folds_well {f : Func} {x y : Ast} (hconst : IntConstant (.call2 f x y))
    (hx : ∀ p ∈ x.parts, FoldsWell p) (hy : ∀ p ∈ y.parts, FoldsWell p)
    (h : ∀ lua : LuaNumbers, lua.Documented → Agrees lua F v (.call2 f x y)) :
    FoldsWell (.call2 f x y) := by
  have hlua := lua_numbers_documented 0
  rintro ⟨hfx, hfy⟩
  have htox : FoldedTo (lua_numbers 0) F v x :=
    (outcome_of_folds_well hlua hconst.2.2.1 hx).folded_to hfx
  have htoy : FoldedTo (lua_numbers 0) F v y :=
    (outcome_of_folds_well hlua hconst.2.2.2 hy).folded_to hfy
  exact call2_disagrees hlua hconst htox htoy (h _ hlua)

/-- Where folding agrees on every part, whatever the numbers of Lua are beyond what is documented,
every part folds well. -/
theorem folds_well_of_agrees {e : Ast} (hconst : IntConstant e)
    (h : ∀ lua : LuaNumbers, lua.Documented → ∀ p ∈ e.parts, Agrees lua F v p) :
    ∀ p ∈ e.parts, FoldsWell p := by
  induction e with
  | num a is_float =>
    intro p hp
    rw [List.mem_singleton.mp hp]
    have hfloat : is_float = false := hconst
    subst hfloat
    have hagrees := h _ (lua_numbers_documented 0) _ List.mem_cons_self
    exact (literalFor_int.mp hagrees).1
  | var | field => exact hconst.elim
  | unop op x ih =>
    have hx := ih hconst.2 fun lua hlua p hp => h lua hlua p (List.mem_cons_of_mem _ hp)
    have hroot := unop_folds_well hconst hx fun lua hlua => h lua hlua _ (self_mem_parts _)
    exact List.forall_mem_cons.mpr ⟨hroot, hx⟩
  | call1 f x ih =>
    have hx := ih hconst.2.2 fun lua hlua p hp => h lua hlua p (List.mem_cons_of_mem _ hp)
    have hroot := call1_folds_well hconst hx fun lua hlua => h lua hlua _ (self_mem_parts _)
    exact List.forall_mem_cons.mpr ⟨hroot, hx⟩
  | binop op l r ihl ihr =>
    have hl := ihl hconst.2.1 fun lua hlua p hp =>
      h lua hlua p (List.mem_cons_of_mem _ (List.mem_append_left _ hp))
    have hr := ihr hconst.2.2 fun lua hlua p hp =>
      h lua hlua p (List.mem_cons_of_mem _ (List.mem_append_right _ hp))
    have hroot := binop_folds_well hconst hl hr fun lua hlua => h lua hlua _ (self_mem_parts _)
    exact List.forall_mem_cons.mpr ⟨hroot, List.forall_mem_append.mpr ⟨hl, hr⟩⟩
  | call2 f x y ihx ihy =>
    have hx := ihx hconst.2.2.1 fun lua hlua p hp =>
      h lua hlua p (List.mem_cons_of_mem _ (List.mem_append_left _ hp))
    have hy := ihy hconst.2.2.2 fun lua hlua p hp =>
      h lua hlua p (List.mem_cons_of_mem _ (List.mem_append_right _ hp))
    have hroot := call2_folds_well hconst hx hy fun lua hlua => h lua hlua _ (self_mem_parts _)
    exact List.forall_mem_cons.mpr ⟨hroot, List.forall_mem_append.mpr ⟨hx, hy⟩⟩

theorem int_constant_part {e p : Ast} (h : IntConstant e) (hp : p ∈ e.parts) : IntConstant p := by
  induction e with
  | num | var | field =>
    rw [List.mem_singleton.mp hp]
    exact h
  | unop op x ih =>
    rcases List.mem_cons.mp hp with rfl | hp
    · exact h
    · exact ih h.2 hp
  | call1 f x ih =>
    rcases List.mem_cons.mp hp with rfl | hp
    · exact h
    · exact ih h.2.2 hp
  | binop op l r ihl ihr =>
    rcases List.mem_cons.mp hp with rfl | hp
    · exact h
    · exact (List.mem_append.mp hp).elim (ihl h.2.1) (ihr h.2.2)
  | call2 f x y ihx ihy =>
    rcases List.mem_cons.mp hp with rfl | hp
    · exact h
    · exact (List.mem_append.mp hp).elim (ihx h.2.2.1) (ihy h.2.2.2)

theorem parts_of_part {e p q : Ast} (hp : p ∈ e.parts) (hq : q ∈ p.parts) : q ∈ e.parts := by
  induction e with
  | num | var | field =>
    rw [List.mem_singleton.mp hp] at hq
    exact hq
  | unop op x ih | call1 f x ih =>
    rcases List.mem_cons.mp hp with rfl | hp
    · exact hq
    · exact List.mem_cons_of_mem _ (ih hp)
  | binop op l r ihl ihr | call2 f l r ihl ihr =>
    rcases List.mem_cons.mp hp with rfl | hp
    · exact hq
    · rcases List.mem_append.mp hp with hp | hp
      · exact List.mem_cons_of_mem _ (List.mem_append_left _ (ihl hp))
      · exact List.mem_cons_of_mem _ (List.mem_append_right _ (ihr hp))

/-- Whatever the numbers of Lua are beyond what is documented, folding agrees with the unfolded
operations on a constant expression and on all of its parts exactly when every part folds well. -/
theorem folding_agrees_iff (F : FloatUnit 32) (v : Vars) {e : Ast} (hconst : IntConstant e) :
    (∀ lua : LuaNumbers, lua.Documented → ∀ p ∈ e.parts, Agrees lua F v p) ↔
      ∀ p ∈ e.parts, FoldsWell p := by
  constructor
  · exact folds_well_of_agrees hconst
  · intro hwell lua hlua p hp
    have houtcome : Outcome lua F v p := outcome_of_folds_well hlua (int_constant_part hconst hp)
      fun q hq => hwell q (parts_of_part hp hq)
    exact houtcome.agrees

/-! ## The value of an expression -/

theorem unop_runs {op : Op} (hop : isUnary op) {i r : BitVec 32}
    (h : intResult F (int_unop_fn op).opcode i 0 = some r) : unopValue op i = r := by
  cases op with
  | sub | lnot | bnot => exact Option.some.inj h
  | _ => cases hop

theorem divide_runs {f : BitVec 32 → BitVec 32 → BitVec 32} {i j r : BitVec 32}
    (h : divide f i j = some r) : (if j = 0 then 0 else f i j) = r := by
  unfold divide at h
  split at h
  · next hzero =>
    rw [if_pos hzero]
    exact Option.some.inj h
  · next hzero =>
    rw [if_neg hzero]
    split at h
    · cases h
    · exact Option.some.inj h

theorem binop_runs {op : Op} (hinfo : (op_info op).isSome) {i j r : BitVec 32}
    (h : intResult F (int_binop_fn op).opcode i j = some r) : binopValue op i j = r := by
  cases op with
  | div | mod => exact divide_runs h
  | shl | shr => exact (shift_some_iff.mp h).2
  | lnot | bnot | assign => cases hinfo
  | _ => exact Option.some.inj h

theorem call_runs {f : Func} (hf : f.fn_i.isSome) {i j r : BitVec 32}
    (h : intResult F (call_fn f false).opcode i j = some r) :
    ∃ g, callValue f = some g ∧ g i j = r := by
  cases f with
  | abs | neg | min | max => exact ⟨_, rfl, Option.some.inj h⟩
  | _ => cases hf

/-- Where the operations have a meaning, they compute the value of the expression. -/
theorem quads_value_is_value {e : Ast} (hconst : IntConstant e) (m : Mem 32) {i : BitVec 32}
    (h : quads_value F v e = some i) : value v m e = some i := by
  induction e generalizing i with
  | num a is_float => rw [value, (literal_word_iff.mp h).2]
  | var | field => exact hconst.elim
  | unop op x ih =>
    rw [quads_value, fn_of_int_unop hconst.2] at h
    obtain ⟨j, hj, hrun⟩ := Option.bind_eq_some_iff.mp h
    rw [value, ih hconst.2 hj, Option.map_some, unop_runs hconst.1 hrun]
  | binop op l r ihl ihr =>
    rw [quads_value, fn_of_int_binop hconst.2.1 hconst.2.2] at h
    obtain ⟨j, hj, hrest⟩ := Option.bind_eq_some_iff.mp h
    obtain ⟨k, hk, hrun⟩ := Option.bind_eq_some_iff.mp hrest
    rw [value, ihl hconst.2.1 hj, ihr hconst.2.2 hk]
    exact congrArg some (binop_runs hconst.1 hrun)
  | call1 f x ih =>
    rw [quads_value, fnOf, int_infers_int (int_constant_typed hconst)] at h
    obtain ⟨j, hj, hrun⟩ := Option.bind_eq_some_iff.mp h
    obtain ⟨g, hg, hvalue⟩ := call_runs hconst.1 hrun
    rw [value, hg, ih hconst.2.2 hj]
    exact congrArg some hvalue
  | call2 f x y ihx ihy =>
    rw [quads_value, fnOf, int_infers_int (int_constant_typed hconst)] at h
    obtain ⟨j, hj, hrest⟩ := Option.bind_eq_some_iff.mp h
    obtain ⟨k, hk, hrun⟩ := Option.bind_eq_some_iff.mp hrest
    obtain ⟨g, hg, hvalue⟩ := call_runs hconst.1 hrun
    rw [value, hg, ihx hconst.2.2.1 hj, ihy hconst.2.2.2 hk]
    exact congrArg some hvalue

end

/-! ## A product and a quotient -/

/-- `(3 + 4) * ~2` -/
def foldedProduct : Ast :=
  .binop .mul (.binop .add (.num 3 false) (.num 4 false)) (.unop .bnot (.num 2 false))

/-- `-7 / 2` -/
def negativeQuotient : Ast := .binop .div (.num (-7) false) (.num 2 false)

def noVars : Vars where
  is_float _ := none
  field_size _ := .four

theorem negative_quotient_value :
    value noVars (fun _ => 0) negativeQuotient = some (-3 : BitVec 32) := by
  have hconst : IntConstant negativeQuotient := ⟨rfl, rfl, rfl⟩
  exact quads_value_is_value (F := quads.simple32) hconst _ (by decide)

theorem folded_product_agrees :
    fold_constants (lua_numbers 0) foldedProduct = .num (-21) false ∧
      Agrees (lua_numbers 0) quads.simple32 noVars foldedProduct := by
  have hconst : IntConstant foldedProduct := ⟨rfl, ⟨rfl, rfl, rfl⟩, rfl, rfl⟩
  have hwell : ∀ p ∈ foldedProduct.parts, FoldsWell p := by decide
  exact ⟨by decide, (folding_agrees_iff quads.simple32 noVars hconst).mpr hwell _
    (lua_numbers_documented 0) _ List.mem_cons_self⟩

/-- The floor of a negative quotient is not the quotient of C, and an absolute value is a float. -/
theorem negative_quotient_is_floored :
    (lua_numbers 0).Documented ∧
      fold_constants (lua_numbers 0) negativeQuotient = .num (-4) false ∧
      quads_value quads.simple32 noVars negativeQuotient = some (-3) ∧
      ¬ Agrees (lua_numbers 0) quads.simple32 noVars negativeQuotient ∧
      fold_constants (lua_numbers 0) (.call1 .abs (.num (-5) false)) = .num 5 true := by
  refine ⟨lua_numbers_documented 0, by decide, by decide, fun h => ?_, by decide⟩
  obtain ⟨-, i, hword, hvalue⟩ := h (-4) false (by decide)
  have hfloor : literal_word (-4) = some (-4) := by decide
  have hquotient : quads_value quads.simple32 noVars negativeQuotient = some (-3) := by decide
  rw [hfloor] at hword
  rw [hquotient, ← hword] at hvalue
  exact absurd hvalue (by decide)

end motioncore.equation
