-- A bounded ring buffer: an array with the index of its oldest element and a
-- count. Read through `contents` it is a queue.
import Mathlib.Tactic.Common

namespace motioncore.ring

/-- A ring of capacity `cap`. -/
structure Ring (α : Type*) (cap : Nat) where
  buf : Fin cap → α
  head : Fin cap
  count : Nat
  count_le : count ≤ cap

variable {α : Type*} {cap : Nat}

namespace Ring

/-- The position that is `k` places after `i`, round the end of the array. -/
def after (i : Fin cap) (k : Nat) : Fin cap := ⟨(i.val + k) % cap, Nat.mod_lt _ i.pos⟩

/-- The elements of the ring, oldest first. -/
def contents (r : Ring α cap) : List α := (List.range r.count).map fun k => r.buf (after r.head k)

def front (r : Ring α cap) : α := r.buf r.head

def isFull (r : Ring α cap) : Bool := decide (cap ≤ r.count)

/-- The element goes behind the newest one. A full ring stays as it is. -/
def push (r : Ring α cap) (a : α) : Ring α cap :=
  if h : r.count < cap then
    { buf := fun j => if j = after r.head r.count then a else r.buf j
      head := r.head
      count := r.count + 1
      count_le := h }
  else r

/-- The oldest element leaves the ring. -/
def pop (r : Ring α cap) : Ring α cap where
  buf := r.buf
  head := after r.head 1
  count := r.count - 1
  count_le := Nat.le_trans (Nat.sub_le _ _) r.count_le

@[simp] theorem length_contents (r : Ring α cap) : r.contents.length = r.count := by
  simp [contents]

variable {r : Ring α cap}

theorem contents_eq_nil : r.contents = [] ↔ r.count = 0 := by
  rw [← List.length_eq_zero_iff, length_contents]

variable (i : Fin cap)

theorem after_val (k : Nat) : (after i k).val = (i.val + k) % cap := rfl

@[simp] theorem after_zero : after i 0 = i := by
  apply Fin.ext
  rw [after_val, Nat.add_zero, Nat.mod_eq_of_lt i.isLt]

theorem after_after (k m : Nat) : after (after i k) m = after i (k + m) := by
  apply Fin.ext
  simp only [after_val, Nat.mod_add_mod, Nat.add_assoc]

/-- Two places less than one turn apart are different. -/
theorem after_ne {i : Fin cap} {k m : Nat} (hkm : k < m) (hm : m < cap) :
    after i k ≠ after i m := by
  intro h
  have hv : (i.val + k) % cap = (i.val + m) % cap := congrArg Fin.val h
  have hk : (i.val + k + (m - k)) % cap = (i.val + k) % cap := by
    rw [hv]
    congr 1
    omega
  have hd := Nat.sub_mod_eq_zero_of_mod_eq hk
  rw [Nat.add_sub_cancel_left, Nat.mod_eq_of_lt (by omega)] at hd
  omega

variable (a : α)

theorem contents_push (h : r.count < cap) : (r.push a).contents = r.contents ++ [a] := by
  unfold push contents
  simp only [h, dite_true, List.range_succ, List.map_append, List.map_cons, List.map_nil, if_true]
  congr 1
  apply List.map_congr_left
  intro k hk
  rw [if_neg (after_ne (List.mem_range.mp hk) h)]

theorem contents_pop (r : Ring α cap) : r.pop.contents = r.contents.tail := by
  simp only [pop, contents]
  rcases hc : r.count with _ | n
  · rfl
  · rw [List.range_succ_eq_map]
    simp only [Nat.add_sub_cancel, List.map_cons, List.map_map, List.tail_cons]
    apply List.map_congr_left
    intro k _
    rw [after_after, Nat.add_comm]
    rfl

theorem contents_eq_cons (h : r.count ≠ 0) : r.contents = r.front :: r.pop.contents := by
  rw [contents_pop]
  obtain ⟨n, hn⟩ := Nat.exists_eq_succ_of_ne_zero h
  unfold contents front
  rw [hn, List.range_succ_eq_map]
  simp

@[simp] theorem count_pop (r : Ring α cap) : r.pop.count = r.count - 1 := rfl

@[simp] theorem pop_head (r : Ring α cap) : r.pop.head = after r.head 1 := rfl

theorem count_push (h : r.count < cap) : (r.push a).count = r.count + 1 := by
  unfold push
  rw [dif_pos h]

/-- What is pushed behind an element that is still there does not move the front. -/
theorem front_push (h : r.count ≠ 0) : (r.push a).front = r.front := by
  unfold push front
  split
  · rename_i hlt
    have hne : r.head ≠ after r.head r.count := by
      rw [← after_zero r.head]
      simp only [after_after, Nat.zero_add]
      exact after_ne (Nat.pos_of_ne_zero h) hlt
    simp only [hne, if_false]
  · rfl

end Ring

end motioncore.ring
