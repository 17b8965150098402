-- A latch over a stream of bits: it is set by a run of equal ones, cleared by a run of
-- zeros of the same length, and holds in between. The last bits of the stream, with
-- zeros in front of its start, decide each change.
import Mathlib.Tactic.Common

namespace motioncore.latch

/-- After `e` bits, the last `n` of them were `b`. -/
def RunEnds (b : Bool) (n : Nat) (xs : List Bool) (e : Nat) : Prop :=
  n ≤ e ∧ e ≤ xs.length ∧ ∀ j, e - n ≤ j → j < e → xs[j]? = some b

/-- A run of `n` ones has come, and since the last one no run of `n` zeros. -/
def Latched (n : Nat) (xs : List Bool) : Prop :=
  ∃ e, RunEnds true n xs e ∧ (∀ e', e < e' → ¬ RunEnds true n xs e') ∧
    ∀ e', e < e' → ¬ RunEnds false n xs e'

/-- The bit that came `k` bits ago. In front of the stream there are zeros. -/
def ago (xs : List Bool) (k : Nat) : Bool := xs.reverse.getD k false

@[simp] theorem ago_nil (k : Nat) : ago [] k = false := rfl

@[simp] theorem ago_snoc_zero (xs : List Bool) (x : Bool) : ago (xs ++ [x]) 0 = x := by
  simp [ago]

@[simp] theorem ago_snoc_succ (xs : List Bool) (x : Bool) (k : Nat) :
    ago (xs ++ [x]) (k + 1) = ago xs k := by
  simp [ago]

variable {xs : List Bool}

theorem ago_of_lt {k : Nat} (h : k < xs.length) : xs[xs.length - 1 - k]? = some (ago xs k) := by
  have hlt : k < xs.reverse.length := by simpa using h
  unfold ago
  rw [List.getD_eq_getElem?_getD, List.getElem?_eq_getElem hlt, List.getElem_reverse]
  exact List.getElem?_eq_getElem _

/-! ## The last bits -/

variable {n : Nat}

theorem ones_end_iff : RunEnds true n xs xs.length ↔ ∀ k < n, ago xs k = true := by
  constructor
  · rintro ⟨hn, -, hall⟩ k hk
    have hlt : k < xs.length := Nat.lt_of_lt_of_le hk hn
    have hat := hall (xs.length - 1 - k) (by omega) (by omega)
    rw [ago_of_lt hlt] at hat
    exact Option.some.inj hat
  · intro h
    have hn : n ≤ xs.length := by
      -- in front of the stream there are only zeros
      by_contra hlt
      have hold := h xs.length (by omega)
      unfold ago at hold
      rw [List.getD_eq_getElem?_getD, List.getElem?_eq_none (by simp)] at hold
      exact nomatch hold
    refine ⟨hn, Nat.le_refl _, fun j hj hlt => ?_⟩
    have hlt : xs.length - 1 - j < xs.length := by omega
    have hat := ago_of_lt hlt
    rw [show xs.length - 1 - (xs.length - 1 - j) = j by omega] at hat
    rw [hat, h _ (by omega)]

theorem zeros_end_iff (hn : n ≤ xs.length) :
    RunEnds false n xs xs.length ↔ ∀ k < n, ago xs k = false := by
  constructor
  · rintro ⟨-, -, hall⟩ k hk
    have hlt : k < xs.length := Nat.lt_of_lt_of_le hk hn
    have hat := hall (xs.length - 1 - k) (by omega) (by omega)
    rw [ago_of_lt hlt] at hat
    exact Option.some.inj hat
  · intro h
    refine ⟨hn, Nat.le_refl _, fun j hj hlt => ?_⟩
    have hlt : xs.length - 1 - j < xs.length := by omega
    have hat := ago_of_lt hlt
    rw [show xs.length - 1 - (xs.length - 1 - j) = j by omega] at hat
    rw [hat, h _ (by omega)]

/-! ## One more bit -/

theorem runEnds_snoc {b : Bool} {e : Nat} (he : e ≤ xs.length) (x : Bool) :
    RunEnds b n (xs ++ [x]) e ↔ RunEnds b n xs e := by
  have hat : ∀ j, j < e → (xs ++ [x])[j]? = xs[j]? := fun j hj =>
    List.getElem?_append_left (Nat.lt_of_lt_of_le hj he)
  constructor
  · rintro ⟨hn, -, hall⟩
    exact ⟨hn, he, fun j hj hlt => (hat j hlt).symm.trans (hall j hj hlt)⟩
  · rintro ⟨hn, -, hall⟩
    refine ⟨hn, ?_, fun j hj hlt => (hat j hlt).trans (hall j hj hlt)⟩
    rw [List.length_append]
    exact Nat.le_add_right_of_le he

theorem latched_of_ones (h : ∀ k < n, ago xs k = true) : Latched n xs := by
  refine ⟨xs.length, ones_end_iff.mpr h, fun e he hrun => ?_, fun e he hrun => ?_⟩
  · exact absurd hrun.2.1 (Nat.not_le.mpr he)
  · exact absurd hrun.2.1 (Nat.not_le.mpr he)

theorem not_latched_of_zeros (hpos : 0 < n) (h : ∀ k < n, ago xs k = false) : ¬ Latched n xs := by
  rintro ⟨e, hones, -, hzeros⟩
  have hn : n ≤ xs.length := Nat.le_trans hones.1 hones.2.1
  rcases Nat.lt_or_eq_of_le hones.2.1 with hlt | rfl
  · exact hzeros _ hlt ((zeros_end_iff hn).mpr h)
  · exact absurd ((ones_end_iff.mp hones 0 hpos).symm.trans (h 0 hpos)) (by decide)

/-- Without a run at its end the latch holds. -/
theorem latched_snoc {x : Bool} (hones : ¬ ∀ k < n, ago (xs ++ [x]) k = true)
    (hzeros : ¬ ∀ k < n, ago (xs ++ [x]) k = false) : Latched n (xs ++ [x]) ↔ Latched n xs := by
  have hlen : (xs ++ [x]).length = xs.length + 1 := by simp
  have hend : ∀ b e, RunEnds b n (xs ++ [x]) e → e ≤ xs.length := by
    intro b e h
    by_contra hlt
    obtain rfl : e = (xs ++ [x]).length := by
      have := h.2.1
      omega
    cases b with
    | true => exact hones (ones_end_iff.mp h)
    | false => exact hzeros ((zeros_end_iff h.1).mp h)
  have hiff : ∀ b e, RunEnds b n (xs ++ [x]) e ↔ RunEnds b n xs e := by
    intro b e
    constructor
    · exact fun h => (runEnds_snoc (hend b e h) x).mp h
    · exact fun h => (runEnds_snoc h.2.1 x).mpr h
  unfold Latched
  simp only [hiff]

end motioncore.latch
