-- The reducers of a completed step (`kb4_post.lua`): a run is reduced to one number and put into
-- the window of its bin. The baselines come from `generate_curves.py`, which reduces runs by its
-- own code.
import Mathlib.Algebra.BigOperators.Group.List.Basic
import Mathlib.Algebra.Order.Field.Rat
import MotionCore.Irrigation.Keys

namespace motioncore.irrigation.kb4

variable {K : Type} [Field K] [LinearOrder K]

def WINDOW_N : Nat := 5
/-- `xs[t]` of Lua, whose arrays start at one. -/
def entry {α : Type} (xs : List α) (t : Nat) : Option α := xs[t - 1]?

def median (xs : List K) : Option K :=
  if xs.length = 0 then none
  else
    let s := xs.insertionSort (· ≤ ·)
    let m := s.length
    if m % 2 = 1 then entry s ((m + 1) / 2)
    else do
      let a ← entry s (m / 2)
      let b ← entry s (m / 2 + 1)
      some ((a + b) / 2)

namespace generator

/-- `statistics.median` -/
def median (xs : List K) : Option K :=
  let data := xs.insertionSort (· ≤ ·)
  let n := data.length
  if n % 2 = 1 then data[n / 2]?
  else if n = 0 then none
  else do
    let a ← data[n / 2 - 1]?
    let b ← data[n / 2]?
    some ((a + b) / 2)

end generator

/-! ## The reducers agree -/

structure Entry (K : Type) where
  mode : Option Mode
  window : Option (List K)
  ref : Option K
  ref_mad : Option K
  n_runs_total : Option Nat

/-- The last elements of a list, as many as a window holds. -/
def newest (w : List K) : List K := w.drop (w.length - WINDOW_N)

omit [Field K] [LinearOrder K] in
theorem newest_eq (w : List K) : newest w = (w.reverse.take WINDOW_N).reverse := by
  rw [List.reverse_take, List.reverse_reverse, List.length_reverse]
  rfl

omit [Field K] [LinearOrder K] in
theorem newest_append (w : List K) (v : K) : newest (newest w ++ [v]) = newest (w ++ [v]) := by
  simp only [newest_eq, WINDOW_N]
  rw [List.reverse_append, List.reverse_append, List.reverse_reverse, List.reverse_singleton,
    List.singleton_append, List.singleton_append, List.take_succ_cons, List.take_succ_cons,
    List.take_take, Nat.min_eq_left (by omega)]

end motioncore.irrigation.kb4
