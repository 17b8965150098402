-- Logs in which each event answers to the events before it. A law of this
-- form is checked once, when the event is written, and then holds for good.
import Mathlib.Tactic.Common

namespace motioncore.trace

variable {ε : Type*}

/-- Each event of the log meets `P` with the events before it. -/
def Past (P : List ε → ε → Prop) (log : List ε) : Prop :=
  ∀ l e l', log = l ++ e :: l' → P l e

theorem past_nil (P : List ε → ε → Prop) : Past P [] := by
  intro l e l' h
  exact absurd h (by simp)

variable {a b : List ε}

/-- A list split at an element, when the list ends in another list: the
element is in one of the two. -/
theorem split_append {l l' : List ε} {e : ε} (h : a ++ b = l ++ e :: l') :
    (∃ m, a = l ++ e :: m) ∨ ∃ m, l = a ++ m ∧ b = m ++ e :: l' := by
  rcases List.append_eq_append_iff.mp h with ⟨m, hl, hb⟩ | ⟨m, ha, hm⟩
  · exact Or.inr ⟨m, hl, hb⟩
  · rcases m with _ | ⟨x, m⟩
    · refine Or.inr ⟨[], ?_, ?_⟩
      · simpa using ha.symm
      · simpa using hm.symm
    · obtain ⟨rfl, -⟩ := List.cons.inj hm
      exact Or.inl ⟨m, ha⟩

variable {P : List ε → ε → Prop}

theorem Past.append (ha : Past P a) (hb : ∀ l e l', b = l ++ e :: l' → P (a ++ l) e) :
    Past P (a ++ b) := by
  intro l e l' h
  rcases split_append h with ⟨m, hm⟩ | ⟨m, rfl, hm⟩
  · exact ha l e m hm
  · exact hb m e l' hm

theorem Past.snoc {log : List ε} {e : ε} (h : Past P log) (he : P log e) : Past P (log ++ [e]) := by
  apply h.append
  intro l e' l' hl
  rcases l with _ | ⟨x, l⟩
  · obtain ⟨rfl, -⟩ := List.cons.inj hl
    simpa using he
  · simp at hl

/-- What holds of a log holds of its beginning. -/
theorem Past.of_prefix (h : Past P b) (hab : a <+: b) : Past P a := by
  obtain ⟨m, rfl⟩ := hab
  intro l e l' hl
  apply h l e (l' ++ m)
  rw [hl]
  simp

/-! ## Logs that grow -/

/-- Only such events are added to the log. -/
def Adds (P : ε → Prop) (log log' : List ε) : Prop :=
  ∃ new, log' = log ++ new ∧ ∀ e ∈ new, P e

section

variable {P : ε → Prop} {log log' log'' : List ε}

theorem Adds.refl (log : List ε) : Adds P log log := ⟨[], by simp, by simp⟩

theorem Adds.trans (h : Adds P log log') (h' : Adds P log' log'') : Adds P log log'' := by
  obtain ⟨new, rfl, hnew⟩ := h
  obtain ⟨more, rfl, hmore⟩ := h'
  refine ⟨new ++ more, by simp, fun e he => ?_⟩
  rcases List.mem_append.mp he with he | he
  · exact hnew e he
  · exact hmore e he

variable {e : ε}

theorem Adds.snoc (h : Adds P log log') (he : P e) : Adds P log (log' ++ [e]) :=
  h.trans ⟨[e], rfl, by simpa using he⟩

theorem Adds.mono {Q : ε → Prop} (h : Adds P log log') (hPQ : ∀ e, P e → Q e) :
    Adds Q log log' := by
  obtain ⟨new, hlog, hnew⟩ := h
  exact ⟨new, hlog, fun e he => hPQ e (hnew e he)⟩

theorem Adds.mem (h : Adds P log log') (he : e ∈ log) : e ∈ log' := by
  obtain ⟨new, rfl, -⟩ := h
  exact List.mem_append_left _ he

theorem Adds.mem_of_mem (h : Adds P log log') (he : e ∈ log') (hnot : ¬ P e) : e ∈ log := by
  obtain ⟨new, rfl, hnew⟩ := h
  rcases List.mem_append.mp he with he | he
  · exact he
  · exact absurd (hnew e he) hnot

/-- The added events keep a law that they meet after any others. -/
theorem Adds.past {Q : List ε → ε → Prop} (h : Adds P log log')
    (hlog : Past Q log) (hQ : ∀ l e, P e → Q l e) : Past Q log' := by
  obtain ⟨new, rfl, hnew⟩ := h
  refine hlog.append fun l e l' heq => hQ _ _ (hnew e ?_)
  rw [heq]
  exact List.mem_append_right _ List.mem_cons_self

theorem Adds.countP_eq (h : Adds P log log') {q : ε → Bool} (hq : ∀ e, P e → q e = false) :
    log'.countP q = log.countP q := by
  obtain ⟨new, rfl, hnew⟩ := h
  have hzero : new.countP q = 0 := List.countP_eq_zero.mpr fun e he => by simp [hq e (hnew e he)]
  rw [List.countP_append, hzero, Nat.add_zero]

/-- Events that a fold passes over leave it as it was. -/
theorem Adds.foldl_eq {α : Type*} (h : Adds P log log') {f : α → ε → α} (a : α)
    (hf : ∀ e, P e → ∀ a, f a e = a) : log'.foldl f a = log.foldl f a := by
  obtain ⟨new, rfl, hnew⟩ := h
  rw [List.foldl_append]
  generalize log.foldl f a = b
  induction new with
  | nil => rfl
  | cons e new ih =>
    rw [List.foldl_cons, hf e (hnew e List.mem_cons_self)]
    exact ih fun e' he' => hnew e' (List.mem_cons_of_mem _ he')

end

end motioncore.trace
