-- A parser that stops at its first error, seen through a view of its state. Only its results
-- and what it leaves of the view are kept: two parsers with the same view accept the same.
import Mathlib.Tactic.Common

namespace motioncore.views

variable {ε σ τ α β : Type}

/-! ## The view of a parser -/

/-- The result of a parser with the view of what it leaves, or `none` for an error. -/
def outcome (view : σ → τ) (p : ExceptT ε (StateM σ) α) (s : σ) : Option (α × τ) :=
  match p.run.run s with
  | (.ok a, s') => some (a, view s')
  | (.error _, _) => none

/-- The parser `p` does on its state what `q` does on the view of it. -/
def Views (view : σ → τ) (p : ExceptT ε (StateM σ) α) (q : StateT τ Option α) : Prop :=
  ∀ s, outcome view p s = q (view s)

/-- A result that does not depend on the state. -/
def given (r : Option α) : StateT τ Option α := fun t => r.map fun a => (a, t)

variable (a : α) (t : τ)

@[simp] theorem given_some : given (some a) t = some (a, t) := rfl

@[simp] theorem given_none : given (none : Option α) t = none := rfl

theorem bind_apply (q : StateT τ Option α) (g : α → StateT τ Option β) (t : τ) :
    (q >>= g) t = (q t).bind fun out => g out.1 out.2 := by
  show (StateT.bind q g) t = _
  unfold StateT.bind
  cases q t <;> rfl

@[simp] theorem pure_apply : (pure a : StateT τ Option α) t = some (a, t) := rfl

variable {q : StateT τ Option α} {g : α → StateT τ Option β}

theorem bind_some_iff {t : τ} {out : β × τ} :
    (q >>= g) t = some out ↔ ∃ a t', q t = some (a, t') ∧ g a t' = some out := by
  rw [bind_apply, Option.bind_eq_some_iff]
  constructor
  · rintro ⟨⟨a, t'⟩, hq, hg⟩
    exact ⟨a, t', hq, hg⟩
  · rintro ⟨a, t', hq, hg⟩
    exact ⟨(a, t'), hq, hg⟩

variable {view : σ → τ}

theorem outcome_bind (p : ExceptT ε (StateM σ) α) (f : α → ExceptT ε (StateM σ) β) (s : σ) :
    outcome view (p >>= f) s =
      match p.run.run s with
      | (.ok a, s') => outcome view (f a) s'
      | (.error _, _) => none := by
  have hrun : (p >>= f).run.run s =
      match p.run.run s with
      | (.ok a, s') => (f a).run.run s'
      | (.error e, s') => (.error e, s') := by
    show (ExceptT.bindCont f (p.run.run s).1 (p.run.run s).2) = _
    rcases p.run.run s with ⟨r, s'⟩
    cases r <;> rfl
  unfold outcome
  rw [hrun]
  rcases p.run.run s with ⟨r, s'⟩
  cases r <;> rfl

theorem outcome_lift (r : Except ε α) (f : α → ExceptT ε (StateM σ) β) (s : σ) :
    outcome view (ExceptT.mk (Pure.pure r) >>= f) s =
      match r with
      | .ok a => outcome view (f a) s
      | .error _ => none := by
  rw [outcome_bind]
  cases r <;> rfl

/-! ## The rules -/

theorem Views.pure : Views view (pure a : ExceptT ε (StateM σ) α) (pure a) := fun _ => rfl

theorem Views.throw (e : ε) : Views view (throw e : ExceptT ε (StateM σ) α) (given none) :=
  fun _ => rfl

/-- A result that is there already, or an error. -/
theorem Views.lift (r : Except ε α) : Views view (ExceptT.mk (Pure.pure r)) (given r.toOption) := by
  intro s
  cases r <;> rfl

variable {p : ExceptT ε (StateM σ) α}

theorem Views.bind {f : α → ExceptT ε (StateM σ) β} (hp : Views view p q)
    (hf : ∀ a, Views view (f a) (g a)) : Views view (p >>= f) (q >>= g) := by
  intro s
  rw [outcome_bind, bind_apply, ← hp s]
  unfold outcome
  rcases p.run.run s with ⟨r, s'⟩
  cases r with
  | error e => rfl
  | ok a => exact hf a s'

theorem Views.ite {c : Prop} [Decidable c] {p' : ExceptT ε (StateM σ) α} {q' : StateT τ Option α}
    (h : c → Views view p q) (h' : ¬ c → Views view p' q') :
    Views view (if c then p else p') (if c then q else q') := by
  by_cases hc : c
  · rw [if_pos hc, if_pos hc]
    exact h hc
  · rw [if_neg hc, if_neg hc]
    exact h' hc

theorem Views.congr {q' : StateT τ Option α} (h : Views view p q) (hq : ∀ t, q t = q' t) :
    Views view p q' := fun s => (h s).trans (hq _)

/-- A parser that looks ahead, and then goes on from where it was. -/
theorem Views.ahead {f : α → ExceptT ε (StateM σ) β} (hp : Views view p q)
    (hf : ∀ a, Views view (f a) (g a)) : Views view
      (do
        let save ← get
        let a ← p
        set save
        f a)
      (fun t => (q t).bind fun out => g out.1 t) := by
  intro s
  have hrun : outcome view
      (do
        let save ← get
        let a ← p
        set save
        f a) s =
      match p.run.run s with
      | (.ok a, _) => outcome view (f a) s
      | (.error _, _) => none := by
    show outcome view (p >>= fun a => set s >>= fun _ => f a) s = _
    rw [outcome_bind]
    rcases p.run.run s with ⟨r, s'⟩
    cases r <;> rfl
  show _ = (q (view s)).bind fun out => g out.1 (view s)
  rw [hrun, ← hp s]
  unfold outcome
  rcases p.run.run s with ⟨r, s'⟩
  cases r with
  | error e => rfl
  | ok a => exact hf a s

/-! ## Parsers on the view -/

/-- A result that is there already may wait until another parser is done. -/
theorem given_swap {γ : Type} (r : Option α) (q : StateT τ Option β)
    (g : α → β → StateT τ Option γ) (t : τ) : (given r >>= fun a => q >>= fun b => g a b) t =
      (q >>= fun b => given r >>= fun a => g a b) t := by
  simp only [bind_apply]
  cases r with
  | none => cases q t <;> rfl
  | some a => rfl

theorem given_bind (r : Option α) (f : α → Option β) (t : τ) :
    (given r >>= fun a => given (f a)) t = given (r.bind f) t := by
  rw [bind_apply]
  cases r <;> rfl

/-- What comes next matters only for what was read. -/
theorem bind_congr_read {g' : α → StateT τ Option β} {t : τ}
    (h : ∀ a t', q t = some (a, t') → g a t' = g' a t') : (q >>= g) t = (q >>= g') t := by
  rw [bind_apply, bind_apply]
  cases hq : q t with
  | none => rfl
  | some out => exact h out.1 out.2 hq

theorem bind_congr {g' : α → StateT τ Option β} {t : τ} (h : ∀ a t', g a t' = g' a t') :
    (q >>= g) t = (q >>= g') t :=
  bind_congr_read fun a t' _ => h a t'

end motioncore.views
