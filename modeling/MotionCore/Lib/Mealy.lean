-- Machines that answer each input, until an answer ends them.
import Mathlib.Data.List.Induction

namespace motioncore.mealy

variable {σ ε ρ : Type} (step : σ → ε → σ × ρ) (ends : ρ → Bool)

/-- The state after the inputs, whatever the answers are. -/
def after (s : σ) (es : List ε) : σ := es.foldl (fun s e => (step s e).1) s

/-- No answer to the inputs ends the machine. -/
def Ongoing : σ → List ε → Prop
  | _, [] => True
  | s, e :: es => ends (step s e).2 = false ∧ Ongoing (step s e).1 es

def answers : σ → List ε → List ρ
  | _, [] => []
  | s, e :: es =>
    if ends (step s e).2 then [(step s e).2] else (step s e).2 :: answers (step s e).1 es

theorem answers_get (s : σ) (es : List ε) (i : Nat) (r : ρ) :
    (answers step ends s es)[i]? = some r ↔
      ∃ e, es[i]? = some e ∧ Ongoing step ends s (es.take i) ∧ r = (step (after step s (es.take i)) e).2 := by
  induction es generalizing s i with
  | nil => simp [answers]
  | cons e es ih =>
    rw [answers]
    cases i with
    | zero =>
      by_cases hend : ends (step s e).2
      · simp [hend, Ongoing, after, eq_comm]
      · simp [hend, Ongoing, after, eq_comm]
    | succ i =>
      by_cases hend : ends (step s e).2
      · simp [hend, Ongoing]
      · rw [if_neg hend, List.getElem?_cons_succ, ih]
        simp [hend, Ongoing, after]

/-- A machine whose answers end exactly when a measure of the inputs is reached. -/
theorem ongoing_iff {s : σ} {P : List ε → Prop}
    (h : ∀ es e, P es → (ends (step (after step s es) e).2 = false ↔ P (es ++ [e])))
    (hnil : P []) (hmono : ∀ es e, P (es ++ [e]) → P es) (es : List ε) :
    Ongoing step ends s es ↔ P es := by
  have happend : ∀ (s : σ) (es : List ε) (e : ε), Ongoing step ends s (es ++ [e]) ↔
      Ongoing step ends s es ∧ ends (step (after step s es) e).2 = false := by
    intro s es e
    induction es generalizing s with
    | nil => simp [Ongoing, after]
    | cons e' es ih => simp [Ongoing, after, ih, and_assoc]
  induction es using List.reverseRecOn with
  | nil => simp [Ongoing, hnil]
  | append_singleton es e ih =>
    rw [happend]
    constructor
    · rintro ⟨hes, hend⟩
      exact (h es e (ih.mp hes)).mp hend
    · intro hp
      have hes := hmono es e hp
      exact ⟨ih.mpr hes, (h es e hes).mpr hp⟩

/-! ## Inputs that are counted -/

section

variable [DecidableEq ε]

theorem count_take_succ {es : List ε} {e : ε} {i : Nat} (h : es[i]? = some e) :
    (es.take (i + 1)).count e = (es.take i).count e + 1 := by
  rw [List.take_add_one, h, List.count_append]
  simp

theorem count_take_mono (es : List ε) (e : ε) {i j : Nat} (h : i ≤ j) :
    (es.take i).count e ≤ (es.take j).count e :=
  (List.take_sublist_take_left h).count_le e

theorem count_take_le (es : List ε) (e : ε) (i : Nat) : (es.take i).count e ≤ es.count e :=
  (List.take_sublist i es).count_le e

/-- Each place among the inputs `e` is taken. -/
theorem exists_counted {es : List ε} {e : ε} {k : Nat} (h : k < es.count e) :
    ∃ i, es[i]? = some e ∧ (es.take i).count e = k := by
  induction es generalizing k with
  | nil => simp at h
  | cons a es ih =>
    by_cases ha : a = e
    · subst ha
      cases k with
      | zero => exact ⟨0, rfl, rfl⟩
      | succ k =>
        rw [List.count_cons_self] at h
        obtain ⟨i, hget, hcount⟩ := ih (Nat.lt_of_succ_lt_succ h)
        exact ⟨i + 1, hget, by rw [List.take_succ_cons, List.count_cons_self, hcount]⟩
    · rw [List.count_cons_of_ne ha] at h
      obtain ⟨i, hget, hcount⟩ := ih h
      exact ⟨i + 1, hget, by rw [List.take_succ_cons, List.count_cons_of_ne ha, hcount]⟩

end

end motioncore.mealy
