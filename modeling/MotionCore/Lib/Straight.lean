-- Straight-line code: instructions that read some cells and write one, run in
-- order. A run leaves the cells that nothing writes, and a result is lost when
-- a second write to its cell comes before the first read of it.
import Mathlib.Tactic.Common

namespace motioncore.straight

/-! ## Runs -/

section Runs

variable {I Cell Val : Type*} {dest : I → Cell} {exec : I → (Cell → Val) → Option (Cell → Val)}

/-- The instructions run in order. One that cannot run stops the code. -/
def runAll (exec : I → (Cell → Val) → Option (Cell → Val)) :
    List I → (Cell → Val) → Option (Cell → Val)
  | [], m => some m
  | i :: code, m => (exec i m).bind (runAll exec code)

@[simp] theorem runAll_nil (m : Cell → Val) : runAll exec [] m = some m := rfl

theorem runAll_cons (i : I) (code : List I) (m : Cell → Val) :
    runAll exec (i :: code) m = (exec i m).bind (runAll exec code) := rfl

theorem runAll_append (a b : List I) (m : Cell → Val) :
    runAll exec (a ++ b) m = (runAll exec a m).bind (runAll exec b) := by
  induction a generalizing m with
  | nil => rfl
  | cons i a ih =>
    rw [List.cons_append, runAll_cons, runAll_cons, Option.bind_assoc]
    congr 1
    funext m'
    exact ih m'

theorem runAll_trans {a b : List I} {m m₁ m₂ : Cell → Val} (ha : runAll exec a m = some m₁)
    (hb : runAll exec b m₁ = some m₂) : runAll exec (a ++ b) m = some m₂ := by
  rw [runAll_append, ha]
  exact hb

/-- The instruction changes no cell but its own. -/
def OnlyDest (dest : I → Cell) (exec : I → (Cell → Val) → Option (Cell → Val)) : Prop :=
  ∀ i m m', exec i m = some m' → ∀ c, dest i ≠ c → m' c = m c

/-- A cell that no instruction writes keeps its value. -/
theorem unwritten_cell_keeps (honly : OnlyDest dest exec) {code : List I} {m m' : Cell → Val}
    (hrun : runAll exec code m = some m') {c : Cell} (hc : ∀ i ∈ code, dest i ≠ c) :
    m' c = m c := by
  induction code generalizing m with
  | nil =>
    rw [runAll_nil, Option.some.injEq] at hrun
    rw [hrun]
  | cons i code ih =>
    rw [runAll_cons, Option.bind_eq_some_iff] at hrun
    obtain ⟨m₁, h₁, hrest⟩ := hrun
    rw [ih hrest fun j hj => hc j (List.mem_cons_of_mem i hj)]
    exact honly i m m₁ h₁ c (hc i List.mem_cons_self)

end Runs

/-! ## Lost results -/

section Results

variable {I Cell : Type*} {srcs : I → List Cell} {dest : I → Cell}

/-- Among the instructions that mention the cell, the first one reads it. -/
def Consumed (srcs : I → List Cell) (dest : I → Cell) (c : Cell) : List I → Prop
  | [] => True
  | i :: code => c ∈ srcs i ∨ (dest i ≠ c ∧ Consumed srcs dest c code)

/-- No result is overwritten before it is consumed. -/
def KeepsResults (srcs : I → List Cell) (dest : I → Cell) : List I → Prop
  | [] => True
  | i :: code => Consumed srcs dest (dest i) code ∧ KeepsResults srcs dest code

instance [DecidableEq Cell] (c : Cell) : (code : List I) → Decidable (Consumed srcs dest c code)
  | [] => isTrue trivial
  | i :: code =>
    have := instDecidableConsumedOfDecidableEq c code
    inferInstanceAs (Decidable (c ∈ srcs i ∨ (dest i ≠ c ∧ Consumed srcs dest c code)))

instance [DecidableEq Cell] : (code : List I) → Decidable (KeepsResults srcs dest code)
  | [] => isTrue trivial
  | i :: code =>
    have := instDecidableKeepsResultsOfDecidableEq code
    inferInstanceAs (Decidable (Consumed srcs dest (dest i) code ∧ KeepsResults srcs dest code))

variable {a : List I}

/-- Code that does not write the cell, then an instruction that reads it. -/
theorem consumed_of_read {c : Cell} {i : I} (b : List I) (ha : ∀ j ∈ a, dest j ≠ c)
    (hi : c ∈ srcs i) : Consumed srcs dest c (a ++ i :: b) := by
  induction a with
  | nil => exact Or.inl hi
  | cons j a ih =>
    refine Or.inr ⟨ha j List.mem_cons_self, ?_⟩
    exact ih fun k hk => ha k (List.mem_cons_of_mem j hk)

variable {b : List I}

theorem consumed_of_append {c : Cell} (h : Consumed srcs dest c (a ++ b)) :
    Consumed srcs dest c a := by
  induction a with
  | nil => trivial
  | cons i a ih =>
    rcases h with hread | ⟨hdest, hrest⟩
    · exact Or.inl hread
    · exact Or.inr ⟨hdest, ih hrest⟩

theorem keepsResults_of_append (h : KeepsResults srcs dest (a ++ b)) :
    KeepsResults srcs dest a := by
  induction a with
  | nil => trivial
  | cons i a ih =>
    obtain ⟨hi, hrest⟩ := h
    exact ⟨consumed_of_append hi, ih hrest⟩

theorem keepsResults_suffix (h : KeepsResults srcs dest (a ++ b)) : KeepsResults srcs dest b := by
  induction a with
  | nil => exact h
  | cons i a ih => exact ih h.2

theorem KeepsResults.consumed {i : I} (h : KeepsResults srcs dest (a ++ i :: b)) :
    Consumed srcs dest (dest i) b :=
  (keepsResults_suffix h).1

end Results

end motioncore.straight
