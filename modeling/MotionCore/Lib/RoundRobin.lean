-- The round robin over a table of places: each turn takes the next wanted
-- place from a cursor on, in a circle, and leaves the cursor behind it. Over a
-- table that stays as it is, the turns go round the wanted places in order.
import Mathlib.Data.List.FinRange
import Mathlib.Data.List.Rotate
import Mathlib.Data.Nat.ModEq

namespace motioncore.roundrobin

variable {n : Nat} [NeZero n] (wanted : Fin n → Bool)

/-! ## The turns -/

/-- The first wanted place from the cursor on, in a circle. -/
def next (cursor : Nat) : Option (Fin n) :=
  ((List.finRange n).map fun k : Fin n => Fin.ofNat n (cursor + k.val)).find? wanted

/-- One turn: the place, and the cursor behind it. Without a wanted place the cursor stays. -/
def turn (cursor : Nat) : Option (Fin n) × Nat :=
  match next wanted cursor with
  | none => (none, cursor)
  | some k => (some k, (k.val + 1) % n)

def turns : Nat → Nat → List (Option (Fin n))
  | _, 0 => []
  | cursor, m + 1 => (turn wanted cursor).1 :: turns (turn wanted cursor).2 m

/-- The wanted places, in order. -/
def served : List (Fin n) := (List.finRange n).filter wanted

/-- How many wanted places stand before the cursor. -/
def passed (cursor : Nat) : Nat := ((List.finRange n).take (cursor % n)).countP wanted

/-! ## One turn -/

variable (cursor : Nat)

theorem circle_eq_rotate : ((List.finRange n).map fun k : Fin n => Fin.ofNat n (cursor + k.val)) =
      (List.finRange n).rotate cursor := by
  apply List.ext_getElem
  · simp
  · intro i hi hi'
    apply Fin.ext
    simp [List.getElem_rotate, Nat.add_comm]

theorem next_eq :
    next wanted cursor = (served wanted)[passed wanted cursor % (served wanted).length]? := by
  have hsplit : served wanted =
      ((List.finRange n).take (cursor % n)).filter wanted ++
        ((List.finRange n).drop (cursor % n)).filter wanted := by
    unfold served
    rw [← List.filter_append, List.take_append_drop]
  have hpassed : passed wanted cursor =
      (((List.finRange n).take (cursor % n)).filter wanted).length := List.countP_eq_length_filter
  have hnext : next wanted cursor =
      (((List.finRange n).drop (cursor % n)).filter wanted ++
        ((List.finRange n).take (cursor % n)).filter wanted).head? := by
    unfold next
    rw [circle_eq_rotate, List.rotate_eq_drop_append_take_mod, List.length_finRange,
      ← List.filter_append, List.head?_filter]
  rw [hnext, hpassed, hsplit]
  generalize ((List.finRange n).take (cursor % n)).filter wanted = before
  generalize ((List.finRange n).drop (cursor % n)).filter wanted = after
  cases after with
  | nil =>
    -- Nothing is wanted behind the cursor: the circle starts over.
    rw [List.append_nil, Nat.mod_self, List.nil_append, List.head?_eq_getElem?]
  | cons k rest =>
    have hlt : before.length < (before ++ k :: rest).length := by simp
    rw [Nat.mod_eq_of_lt hlt, List.getElem?_append_right (Nat.le_refl _), Nat.sub_self]
    rfl

omit [NeZero n] in
theorem served_nodup : (served wanted).Nodup := (List.nodup_finRange n).filter _

omit [NeZero n] in
/-- A wanted place stands in the list of them behind those that come before it. -/
theorem served_getElem?_countP {k : Fin n} (hk : wanted k = true) :
    (served wanted)[((List.finRange n).take k.val).countP wanted]? = some k := by
  have hlt : k.val < (List.finRange n).length := by simp
  have hsplit : served wanted =
      ((List.finRange n).take k.val).filter wanted ++
        k :: ((List.finRange n).drop (k.val + 1)).filter wanted := by
    have hcut := List.take_append_drop k.val (List.finRange n)
    rw [List.drop_eq_getElem_cons hlt, List.getElem_finRange] at hcut
    have hfilter := congrArg (List.filter wanted) hcut
    rw [List.filter_append, List.filter_cons_of_pos (by simpa using hk)] at hfilter
    exact hfilter.symm
  rw [hsplit, List.countP_eq_length_filter, List.getElem?_append_right (Nat.le_refl _), Nat.sub_self]
  rfl

theorem wanted_of_next {cursor : Nat} {k : Fin n} (h : next wanted cursor = some k) :
    wanted k = true := List.find?_some h

/-- Behind the place of a turn stands one wanted place more. -/
theorem passed_turn {cursor : Nat} {k : Fin n} (h : next wanted cursor = some k) :
    passed wanted (k.val + 1) ≡ passed wanted cursor + 1 [MOD (served wanted).length] := by
  have hk := wanted_of_next wanted h
  have hplace : passed wanted cursor % (served wanted).length =
      ((List.finRange n).take k.val).countP wanted := by
    rw [next_eq] at h
    have hcount := served_getElem?_countP wanted hk
    obtain ⟨hi, hik⟩ := List.getElem?_eq_some_iff.mp h
    obtain ⟨hj, hjk⟩ := List.getElem?_eq_some_iff.mp hcount
    exact (served_nodup wanted).getElem_inj_iff.mp (hik.trans hjk.symm)
  have hlt : k.val < (List.finRange n).length := by simp
  have hone : ((List.finRange n).take (k.val + 1)).countP wanted =
      ((List.finRange n).take k.val).countP wanted + 1 := by
    rw [List.take_succ_eq_append_getElem hlt, List.countP_append, List.getElem_finRange]
    simp [hk]
  have hbehind : passed wanted (k.val + 1) ≡
      ((List.finRange n).take (k.val + 1)).countP wanted [MOD (served wanted).length] := by
    unfold passed
    rcases Nat.lt_or_eq_of_le (Nat.succ_le_of_lt k.isLt) with hin | hend
    · rw [Nat.mod_eq_of_lt hin]
    · -- Behind the last place the circle starts over, with all of them passed.
      have hall : ((List.finRange n).take (k.val + 1)).countP wanted = (served wanted).length := by
        rw [List.take_of_length_le (by simp; omega), List.countP_eq_length_filter]
        rfl
      have hzero : (k.val + 1) % n = 0 := by
        rw [show k.val + 1 = n from hend, Nat.mod_self]
      rw [hall, hzero]
      exact (Nat.mod_self _).symm
  calc passed wanted (k.val + 1)
      ≡ ((List.finRange n).take k.val).countP wanted + 1 [MOD (served wanted).length] := by
        rw [← hone]
        exact hbehind
    _ ≡ passed wanted cursor + 1 [MOD (served wanted).length] := by
        rw [← hplace]
        exact (Nat.mod_modEq _ _).add_right 1

/-! ## Any number of turns -/

/-- The turns go round the wanted places in order, from the first one at or behind the cursor
on. Without a wanted place each turn takes none. -/
theorem turns_eq (m : Nat) : turns wanted cursor m = (List.range m).map fun i =>
      (served wanted)[(passed wanted cursor + i) % (served wanted).length]? := by
  induction m generalizing cursor with
  | zero => rfl
  | succ m ih =>
    rw [List.range_succ_eq_map, List.map_cons, List.map_map]
    unfold turns
    rw [ih]
    congr 1
    · rw [Nat.add_zero, ← next_eq]
      unfold turn
      cases next wanted cursor <;> rfl
    · apply List.map_congr_left
      intro i _
      dsimp only [Function.comp_apply]
      unfold turn
      cases h : next wanted cursor with
      | none =>
        -- Nothing is wanted.
        have hnone : served wanted = [] := by
          rw [next_eq, List.getElem?_eq_none_iff] at h
          by_contra hne
          have hpos := List.length_pos_iff.mpr hne
          have := Nat.mod_lt (passed wanted cursor) hpos
          omega
        rw [hnone]
        rfl
      | some k =>
        have hmod : passed wanted ((k.val + 1) % n) = passed wanted (k.val + 1) := by
          unfold passed
          rw [Nat.mod_mod]
        have hstep := (passed_turn wanted h).add_right i
        dsimp only
        rw [hmod, hstep, Nat.add_assoc, Nat.add_comm 1 i]

/-- A full circle takes each wanted place once. -/
theorem circle_perm : turns wanted cursor (served wanted).length =
      ((served wanted).rotate (passed wanted cursor)).map some := by
  rw [turns_eq]
  apply List.ext_getElem
  · simp
  · intro i hi hi'
    have hlt : i < (served wanted).length := by simpa using hi
    have hpos : 0 < (served wanted).length := by omega
    simp only [List.getElem_map, List.getElem_range, List.getElem_rotate]
    rw [Nat.add_comm, List.getElem?_eq_getElem (Nat.mod_lt _ hpos)]

theorem turn_none_iff : (turn wanted cursor).1 = none ↔ ∀ k, wanted k = false := by
  have hfst : (turn wanted cursor).1 = next wanted cursor := by
    unfold turn
    cases next wanted cursor <;> rfl
  rw [hfst]
  unfold next
  rw [circle_eq_rotate, List.find?_eq_none]
  simp

end motioncore.roundrobin
