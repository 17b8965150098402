-- A record kept in two numbered slots, the higher number of which counts. A
-- write erases the slot that does not count and then fills it, so a stop
-- between the two steps leaves the record that counted in place.
import Mathlib.Tactic.Common

namespace motioncore.twoslots

variable {α : Type*}

inductive Side where
  | a
  | b
deriving DecidableEq, Repr

/-- What the two slots hold: a number and a record, or nothing. -/
structure Slots (α : Type*) where
  a : Option (ℕ × α)
  b : Option (ℕ × α)

/-- How far a write came. -/
inductive Stage where
  | untouched
  | erased
  | filled
deriving DecidableEq, Repr

namespace Slots

/-- The slot that counts. Slot `a` counts when the numbers are equal. -/
def newest (s : Slots α) : Option (ℕ × α) :=
  match s.a, s.b with
  | some x, some y => if y.1 ≤ x.1 then some x else some y
  | some x, none => some x
  | none, y => y

/-- The slot that the next write takes. -/
def target (s : Slots α) : Side :=
  match s.a, s.b with
  | some x, some y => if y.1 ≤ x.1 then .b else .a
  | some _, none => .b
  | none, _ => .a

def next (s : Slots α) : ℕ :=
  match s.newest with
  | none => 1
  | some x => x.1 + 1

def set (s : Slots α) (side : Side) (v : Option (ℕ × α)) : Slots α :=
  match side with
  | .a => { s with a := v }
  | .b => { s with b := v }

def write (s : Slots α) (x : α) : Stage → Slots α
  | .untouched => s
  | .erased => s.set s.target none
  | .filled => s.set s.target (some (s.next, x))

/-- A write that stops before it fills its slot leaves the record that counts. -/
theorem newest_erased (s : Slots α) (x : α) : (s.write x .erased).newest = s.newest := by
  obtain ⟨_ | x, _ | y⟩ := s
  · rfl
  · rfl
  · rfl
  · by_cases h : y.1 ≤ x.1
    · simp [write, set, target, newest, h]
    · simp [write, set, target, newest, h]

theorem newest_filled (s : Slots α) (x : α) : (s.write x .filled).newest = some (s.next, x) := by
  obtain ⟨_ | y, _ | z⟩ := s
  · rfl
  · simp [write, set, target, newest, next]
  · have hy : ¬ y.1 + 1 ≤ y.1 := Nat.not_succ_le_self _
    simp [write, set, target, newest, next, hy]
  · by_cases h : z.1 ≤ y.1
    · have hy : ¬ y.1 + 1 ≤ y.1 := Nat.not_succ_le_self _
      simp [write, set, target, newest, next, h, hy]
    · simp [write, set, target, newest, next, h]

/-! ## Numbers -/

/-- No slot holds a number above `n`. -/
structure Within (n : ℕ) (s : Slots α) : Prop where
  a : ∀ x, s.a = some x → x.1 ≤ n
  b : ∀ x, s.b = some x → x.1 ≤ n

variable {s : Slots α} {n : ℕ}

theorem Within.mono {m : ℕ} (h : Within n s) (hnm : n ≤ m) : Within m s where
  a x hx := Nat.le_trans (h.a x hx) hnm
  b x hx := Nat.le_trans (h.b x hx) hnm

theorem within_of_empty (h : s.newest = none) (n : ℕ) : Within n s := by
  obtain ⟨_ | y, _ | z⟩ := s
  · exact ⟨fun x hx => (nomatch hx), fun x hx => (nomatch hx)⟩
  · cases h
  · cases h
  · simp only [Slots.newest] at h
    split at h
    · cases h
    · cases h

theorem Within.newest (h : Within n s) {x : ℕ × α} (hx : s.newest = some x) : x.1 ≤ n := by
  have hmem : s.a = some x ∨ s.b = some x := by
    obtain ⟨_ | y, _ | z⟩ := s
    · exact Or.inr hx
    · exact Or.inr hx
    · exact Or.inl hx
    · simp only [Slots.newest] at hx
      split at hx
      · exact Or.inl hx
      · exact Or.inr hx
  rcases hmem with ha | hb
  · exact h.a x ha
  · exact h.b x hb

theorem Within.next (h : Within n s) : s.next ≤ n + 1 := by
  unfold Slots.next
  cases hn : s.newest with
  | none => simp
  | some x => exact Nat.succ_le_succ (h.newest hn)

theorem Within.set {m : ℕ} (h : Within n s) (hnm : n ≤ m) (side : Side) {v : Option (ℕ × α)}
    (hv : ∀ x, v = some x → x.1 ≤ m) : Within m (s.set side v) := by
  cases side with
  | a => exact ⟨hv, (h.mono hnm).b⟩
  | b => exact ⟨(h.mono hnm).a, hv⟩

/-- A write raises the numbers by at most one. -/
theorem Within.write (h : Within n s) (x : α) (stage : Stage) :
    Within (n + 1) (s.write x stage) := by
  cases stage with
  | untouched => exact h.mono n.le_succ
  | erased => exact h.set n.le_succ _ fun y hy => nomatch hy
  | filled =>
    apply h.set n.le_succ
    intro y hy
    cases hy
    exact h.next

end Slots

end motioncore.twoslots
