-- The hash of names, computed twice: by the DSL in the numbers of Lua, with the product cut
-- into halves of 16 bits, and by the engine in 32-bit words. Trees, fields, keys and bindings
-- rest on the two being one function.
import MotionCore.Dsl.Builder
import Mathlib.Tactic.NormNum

namespace motioncore.dsl

/-! ## The bit operations of Lua -/

/-- `bit.tobit`: a number as a signed word. The other operations give such a word, too. -/
def tobit (n : Int) : Int := (BitVec.ofInt 32 n).toInt

def bxor (a b : Int) : Int := (BitVec.ofInt 32 a ^^^ BitVec.ofInt 32 b).toInt

def band (a b : Int) : Int := (BitVec.ofInt 32 a &&& BitVec.ofInt 32 b).toInt

def lshift (a : Int) (n : Nat) : Int := (BitVec.ofInt 32 a <<< n).toInt

def rshift (a : Int) (n : Nat) : Int := (BitVec.ofInt 32 a >>> n).toInt

/-! ## The two hashes -/

def FNV_OFFSET : UInt32 := 0x811c9dc5

def FNV_PRIME : UInt32 := 0x01000193

/-- What one pass of the loop of `hash_module.fnv1a_32` computes, before the numbers are cut
to words. -/
structure Round where
  lo_prod : Int
  hi_prod : Int
  sum : Int
  hash : Int

/-- One pass, on the byte of the string. -/
def round (hash : Int) (byte : UInt8) : Round :=
  let hash := bxor hash byte.toNat
  let lo := band hash 0xFFFF
  let hi := band (rshift hash 16) 0xFFFF
  let prime := 0x01000193
  let lo_prod := lo * prime
  let hi_prod := hi * prime
  let sum := lo_prod + lshift (band hi_prod 0xFFFF) 16
  ⟨lo_prod, hi_prod, sum, tobit sum⟩

/-- The passes over a string. -/
def rounds (hash : Int) : List UInt8 → List Round
  | [] => []
  | byte :: str => round hash byte :: rounds (round hash byte).hash str

/-- `hash_module.fnv1a_32` in the numbers that Lua has. The last word is taken without its
sign. -/
def fnv1a_32_numbers (str : LuaString) : UInt32 :=
  UInt32.ofBitVec (BitVec.ofInt 32 (((rounds 0x811c9dc5 str).map Round.hash).getLastD 0x811c9dc5))

/-- The loop of `s_expr_hash`, over the memory from `str` on. -/
def s_expr_hash_from (hash : UInt32) : List UInt8 → UInt32
  | [] => hash
  | byte :: str =>
    if byte = 0 then hash else s_expr_hash_from ((hash ^^^ byte.toUInt32) * FNV_PRIME) str

def s_expr_hash (str : List UInt8) : UInt32 := s_expr_hash_from FNV_OFFSET str

/-- A number that a double holds exactly, with all numbers of its size. -/
def Exact (n : Int) : Prop := -2 ^ 53 ≤ n ∧ n ≤ 2 ^ 53

/-! ## One round -/

variable {hash : Int} {h : UInt32}

@[simp] theorem ofInt_toInt_word (x : BitVec 32) : BitVec.ofInt 32 x.toInt = x :=
  BitVec.ofInt_toInt

theorem band_low (x : BitVec 32) : band x.toInt 0xFFFF = ((x.toNat % 65536 : Nat) : Int) := by
  have hmask : (x &&& BitVec.ofInt 32 0xFFFF).toNat = x.toNat % 65536 := by
    have hcast : (BitVec.ofInt 32 0xFFFF).toNat = 2 ^ 16 - 1 := by decide
    rw [BitVec.toNat_and, hcast, Nat.and_two_pow_sub_one_eq_mod]
  have hlt : 2 * (x &&& BitVec.ofInt 32 0xFFFF).toNat < 2 ^ 32 := by
    rw [hmask]
    omega
  rw [band, ofInt_toInt_word, BitVec.toInt_eq_toNat_of_lt hlt, hmask]

theorem band_low_ofInt (n : Int) :
    band n 0xFFFF = (((BitVec.ofInt 32 n).toNat % 65536 : Nat) : Int) := by
  rw [← band_low, band, band, ofInt_toInt_word]

/-- The two products of the halves add up to the product of the word. -/
theorem halves_product (x : BitVec 32) :
    BitVec.ofInt 32 (((x.toNat % 65536 : Nat) : Int) * 0x01000193) +
      BitVec.ofInt 32 (((x.toNat / 65536 * 0x01000193 % 65536 : Nat) : Int)) <<< 16 =
      x * 0x01000193 := by
  apply BitVec.eq_of_toNat_eq
  have hcast : ((x.toNat % 65536 : Nat) : Int) * 0x01000193 =
      ((x.toNat % 65536 * 0x01000193 : Nat) : Int) := by push_cast; rfl
  have hprime : (0x01000193 : BitVec 32).toNat = 0x01000193 := by decide
  rw [hcast, BitVec.ofInt_natCast, BitVec.ofInt_natCast, BitVec.toNat_add, BitVec.toNat_mul,
    BitVec.toNat_shiftLeft, BitVec.toNat_ofNat, BitVec.toNat_ofNat, Nat.shiftLeft_eq, hprime]
  have := x.isLt
  omega

/-- A round on a number of Lua is the round on the word, and its numbers are exact. -/
theorem round_word (hw : BitVec.ofInt 32 hash = h.toBitVec) (byte : UInt8) :
    BitVec.ofInt 32 (round hash byte).hash =
        ((h ^^^ byte.toUInt32) * FNV_PRIME).toBitVec ∧
      Exact (round hash byte).lo_prod ∧ Exact (round hash byte).hi_prod ∧
      Exact (round hash byte).sum := by
  generalize hx : h.toBitVec ^^^ byte.toUInt32.toBitVec = x
  have hbyte : BitVec.ofInt 32 (byte.toNat : Int) = byte.toUInt32.toBitVec := by
    apply BitVec.eq_of_toNat_eq
    rw [BitVec.ofInt_natCast, BitVec.toNat_ofNat, UInt32.toNat_toBitVec, UInt8.toNat_toUInt32]
    have := byte.toNat_lt
    omega
  have hxor : bxor hash byte.toNat = x.toInt := by rw [bxor, hw, hbyte, hx]
  have hlo : (round hash byte).lo_prod = ((x.toNat % 65536 : Nat) : Int) * 0x01000193 := by
    simp only [round, hxor, band_low]
  have hhi : (round hash byte).hi_prod = ((x.toNat / 65536 : Nat) : Int) * 0x01000193 := by
    simp only [round, hxor, rshift, ofInt_toInt_word, band_low, BitVec.toNat_ushiftRight,
      Nat.shiftRight_eq_div_pow]
    have := x.isLt
    congr 2
    omega
  have hhigh : band (round hash byte).hi_prod 0xFFFF =
      ((x.toNat / 65536 * 0x01000193 % 65536 : Nat) : Int) := by
    have hcast : ((x.toNat / 65536 : Nat) : Int) * 0x01000193 =
        ((x.toNat / 65536 * 0x01000193 : Nat) : Int) := by push_cast; rfl
    rw [band_low_ofInt, hhi, hcast, BitVec.ofInt_natCast, BitVec.toNat_ofNat]
    omega
  have hsum : (round hash byte).sum = (round hash byte).lo_prod +
      lshift (band (round hash byte).hi_prod 0xFFFF) 16 := rfl
  have hword : BitVec.ofInt 32 (round hash byte).sum = x * 0x01000193 := by
    rw [hsum, hhigh, lshift, BitVec.ofInt_add, ofInt_toInt_word, hlo, halves_product]
  have hshift := BitVec.toInt_lt (x := BitVec.ofInt 32
    (band (round hash byte).hi_prod 0xFFFF) <<< 16)
  have hshift' := BitVec.le_toInt (x := BitVec.ofInt 32
    (band (round hash byte).hi_prod 0xFFFF) <<< 16)
  have := x.isLt
  refine ⟨?_, ?_, ?_, ?_⟩
  · have htobit : (round hash byte).hash = tobit (round hash byte).sum := rfl
    rw [htobit, tobit, ofInt_toInt_word, hword, ← hx]
    rfl
  · rw [hlo]
    unfold Exact
    omega
  · rw [hhi]
    unfold Exact
    omega
  · rw [hsum, hlo, lshift]
    unfold Exact
    simp only [Nat.add_one_sub_one] at hshift hshift'
    omega

/-! ## Strings -/

theorem rounds_word (str : List UInt8) (hw : BitVec.ofInt 32 hash = h.toBitVec) :
    BitVec.ofInt 32 (((rounds hash str).map Round.hash).getLastD hash) =
        (str.foldl (fun h byte => (h ^^^ byte.toUInt32) * FNV_PRIME) h).toBitVec ∧
      ∀ r ∈ rounds hash str, Exact r.lo_prod ∧ Exact r.hi_prod ∧ Exact r.sum := by
  induction str generalizing hash h with
  | nil => exact ⟨hw, by simp [rounds]⟩
  | cons byte str ih =>
    obtain ⟨hnext, hexact⟩ := round_word hw byte
    obtain ⟨hlast, hrest⟩ := ih hnext
    refine ⟨?_, ?_⟩
    · rw [List.foldl_cons, ← hlast, rounds, List.map_cons, List.getLastD_cons]
    · intro r hr
      rcases List.mem_cons.mp hr with rfl | hr
      · exact hexact
      · exact hrest r hr

theorem s_expr_hash_from_eq (str rest : List UInt8) (hstr : ∀ byte ∈ str, byte ≠ 0) :
    s_expr_hash_from h (str ++ 0 :: rest) =
      str.foldl (fun h byte => (h ^^^ byte.toUInt32) * FNV_PRIME) h := by
  induction str generalizing h with
  | nil => simp [s_expr_hash_from]
  | cons byte str ih =>
    have hbyte : byte ≠ 0 := hstr byte List.mem_cons_self
    rw [List.cons_append, s_expr_hash_from, if_neg hbyte, List.foldl_cons]
    exact ih fun b hb => hstr b (List.mem_cons_of_mem byte hb)

/-- A round of the model that the trees are built with. -/
theorem fnv1a_round (h : UInt32) : (h &&& (0xFFFF : UInt32)) * (0x01000193 : UInt32) +
        ((((h >>> (16 : UInt32)) &&& (0xFFFF : UInt32)) * (0x01000193 : UInt32) &&& (0xFFFF : UInt32))
          <<< (16 : UInt32)) = h * FNV_PRIME := by
  have hmask : ∀ n : Nat, n &&& 65535 = n % 65536 := fun n =>
    Nat.and_two_pow_sub_one_eq_mod n 16
  apply UInt32.toNat_inj.mp
  simp [FNV_PRIME, UInt32.toNat_add, UInt32.toNat_mul, UInt32.toNat_and, UInt32.toNat_shiftLeft,
    UInt32.toNat_shiftRight, hmask, Nat.shiftLeft_eq, Nat.shiftRight_eq_div_pow]
  have := h.toNat_lt
  omega

theorem fnv1a_32_eq_foldl (str : LuaString) : fnv1a_32 str =
    str.foldl (fun h byte => (h ^^^ byte.toUInt32) * FNV_PRIME) FNV_OFFSET :=
  congrArg (fun step => str.foldl step 0x811c9dc5)
    (funext fun h => funext fun byte => fnv1a_round (h ^^^ byte.toUInt32))

/-- The DSL and the engine hash a string without NUL bytes alike, and the numbers that the DSL
computes on the way are exact. -/
theorem hashes_agree (str : LuaString) (hstr : ∀ byte ∈ str, byte ≠ 0) (rest : List UInt8) :
    fnv1a_32_numbers str = s_expr_hash (str ++ 0 :: rest) ∧
      fnv1a_32 str = s_expr_hash (str ++ 0 :: rest) ∧
      ∀ r ∈ rounds 0x811c9dc5 str, Exact r.lo_prod ∧ Exact r.hi_prod ∧ Exact r.sum := by
  have hstart : BitVec.ofInt 32 0x811c9dc5 = FNV_OFFSET.toBitVec := by decide
  obtain ⟨hlast, hexact⟩ := rounds_word str hstart
  have hrun := s_expr_hash_from_eq (h := FNV_OFFSET) str rest hstr
  refine ⟨?_, ?_, hexact⟩
  · rw [fnv1a_32_numbers, hlast, s_expr_hash, hrun]
  · rw [fnv1a_32_eq_foldl, s_expr_hash, hrun]

theorem hashes_of_ok_agree :
    (∀ byte ∈ ([0x6F, 0x6B] : List UInt8), byte ≠ 0) ∧
      fnv1a_32_numbers [0x6F, 0x6B] = s_expr_hash [0x6F, 0x6B, 0, 7] ∧
      fnv1a_32_numbers [0x6F, 0x6B] = 1714698159 :=
  ⟨by simp, (hashes_agree [0x6F, 0x6B] (by simp) [7]).1, by decide +kernel⟩

end motioncore.dsl
