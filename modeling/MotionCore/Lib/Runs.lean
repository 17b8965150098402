-- Machines that take one step for each input, and their runs. A step may
-- refuse its input, and it may emit events. The rules here carry a fact of
-- one step to every run: an invariant, and a simulation by an abstract machine.
import Mathlib.Tactic.Common

namespace motioncore.machine

variable {σ α ι ε : Type*}

/-! ## Runs with steps that may refuse -/

/-- The state after all the inputs, or `none` when some step refused. -/
def runs (step : σ → ι → Option σ) (s : σ) (is : List ι) : Option σ :=
  is.foldlM step s

@[simp] theorem runs_nil (step : σ → ι → Option σ) (s : σ) : runs step s [] = some s := rfl

@[simp] theorem runs_cons (step : σ → ι → Option σ) (s : σ) (i : ι) (is : List ι) :
    runs step s (i :: is) = (step s i).bind fun s' => runs step s' is := by
  unfold runs
  rw [List.foldlM_cons]
  rfl

theorem runs_append (step : σ → ι → Option σ) (s : σ) (is js : List ι) :
    runs step s (is ++ js) = (runs step s is).bind fun s' => runs step s' js := by
  induction is generalizing s with
  | nil => rfl
  | cons i is ih =>
    simp only [List.cons_append, runs_cons]
    cases step s i with
    | none => rfl
    | some s' => exact ih s'

variable {step : σ → ι → Option σ} {s s' : σ} {is : List ι}

theorem runs_taken (h : runs step s is = some s') : ∀ i ∈ is, ∃ t t', step t i = some t' := by
  induction is generalizing s with
  | nil => exact nofun
  | cons i is ih =>
    simp only [runs_cons, Option.bind_eq_some_iff] at h
    obtain ⟨t, ht, hrun⟩ := h
    exact List.forall_mem_cons.mpr ⟨⟨s, t, ht⟩, ih hrun⟩

theorem toOption_eq_some {r : Except ε α} {a : α} : r.toOption = some a ↔ r = .ok a := by
  cases r with
  | error e => exact iff_of_false nofun nofun
  | ok b => exact ⟨fun h => congrArg Except.ok (Option.some.inj h), fun h => congrArg _ h⟩

/-- A fold that stops at an error is a run when the error does not matter. -/
theorem foldlM_toOption (f : σ → ι → Except ε σ) (s : σ) (is : List ι) :
    (is.foldlM f s).toOption = runs (fun s i => (f s i).toOption) s is := by
  induction is generalizing s with
  | nil => rfl
  | cons i is ih =>
    rw [runs_cons, List.foldlM_cons]
    cases f s i with
    | error e => rfl
    | ok s' => exact ih s'

/-- Each step of the run meets `ok` in the state it is taken from. -/
def Meets (step : σ → ι → Option σ) (ok : σ → ι → Prop) : σ → List ι → Prop
  | _, [] => True
  | s, i :: is => ok s i ∧ ∀ s', step s i = some s' → Meets step ok s' is

variable {P : σ → ι → Prop}

theorem Meets.of_mem {f : σ → ι → Option σ} (h : ∀ i ∈ is, ∀ s, P s i) (s : σ) :
    Meets f P s is := by
  induction is generalizing s with
  | nil => trivial
  | cons i is ih =>
    refine ⟨h i List.mem_cons_self s, fun s' _ => ?_⟩
    exact ih (fun j hj => h j (List.mem_cons_of_mem _ hj)) s'

variable {ok : σ → ι → Prop}

theorem Meets.of_forall (h : ∀ s i, ok s i) (s : σ) (is : List ι) :
    Meets step ok s is := Meets.of_mem (fun i _ s => h s i) s

theorem Meets.mono {ok' : σ → ι → Prop} (h : ∀ s i, ok s i → ok' s i) (hm : Meets step ok s is) :
    Meets step ok' s is := by
  induction is generalizing s with
  | nil => trivial
  | cons i is ih => exact ⟨h s i hm.1, fun t ht => ih (hm.2 t ht)⟩

instance Meets.decidable (step : σ → ι → Option σ) (ok : σ → ι → Prop) [∀ s i, Decidable (ok s i)] :
    ∀ s is, Decidable (Meets step ok s is)
  | _, [] => isTrue trivial
  | s, i :: is =>
    have : Decidable (∀ s', step s i = some s' → Meets step ok s' is) :=
      match hs : step s i with
      | none => isTrue fun _ h => by simp at h
      | some s' =>
        match Meets.decidable step ok s' is with
        | isTrue h => isTrue fun _ h' => Option.some.inj h' ▸ h
        | isFalse h => isFalse fun h' => h (h' s' rfl)
    inferInstanceAs (Decidable (ok s i ∧ ∀ s', step s i = some s' → Meets step ok s' is))

/-- A fact that each step keeps holds after every run. -/
theorem inv_runs {I : σ → Prop} (hstep : ∀ s i s', I s → P s i → step s i = some s' → I s')
    (h0 : I s) (hok : Meets step P s is) (hrun : runs step s is = some s') : I s' := by
  induction is generalizing s with
  | nil =>
    cases hrun
    exact h0
  | cons i is ih =>
    simp only [runs_cons, Option.bind_eq_some_iff] at hrun
    obtain ⟨t, ht, hrun⟩ := hrun
    exact ih (hstep s i t h0 hok.1 ht) (hok.2 t ht) hrun

/-- What an invariant gives for each step holds of every step of every run. -/
theorem meets_of_inv {law : σ → ι → Prop} {I : σ → Prop}
    (hstep : ∀ s i s', I s → ok s i → step s i = some s' → I s')
    (hlaw : ∀ s i, I s → ok s i → law s i) (h0 : I s) (hok : Meets step ok s is) :
    Meets step law s is := by
  induction is generalizing s with
  | nil => trivial
  | cons i is ih =>
    exact ⟨hlaw s i h0 hok.1, fun t ht => ih (hstep s i t h0 hok.1 ht) (hok.2 t ht)⟩

/-- A fact about the inputs so far and the state that each step keeps holds after every run. -/
theorem inv_history {I : List ι → σ → Prop}
    (hstep : ∀ h s i s', I h s → P s i → step s i = some s' → I (h ++ [i]) s') {h : List ι}
    (h0 : I h s) (hok : Meets step P s is) (hrun : runs step s is = some s') : I (h ++ is) s' := by
  induction is generalizing h s with
  | nil =>
    cases hrun
    rwa [List.append_nil]
  | cons i is ih =>
    simp only [runs_cons, Option.bind_eq_some_iff] at hrun
    obtain ⟨t, ht, hrun⟩ := hrun
    have hI := ih (hstep h s i t h0 hok.1 ht) (hok.2 t ht) hrun
    rwa [List.append_assoc] at hI

/-- A fact about the inputs so far and the state: where each step is taken and keeps it, the
whole run is taken and keeps it. -/
theorem history_runs {I : List ι → σ → Prop}
    (hstep : ∀ h s i, I h s → ok s i → ∃ s', step s i = some s' ∧ I (h ++ [i]) s') {h : List ι}
    (h0 : I h s) (hok : Meets step ok s is) : ∃ s', runs step s is = some s' ∧ I (h ++ is) s' := by
  induction is generalizing h s with
  | nil => exact ⟨s, rfl, by rwa [List.append_nil]⟩
  | cons i is ih =>
    obtain ⟨t, ht, hI⟩ := hstep h s i h0 hok.1
    obtain ⟨s', hrun, hI'⟩ := ih hI (hok.2 t ht)
    refine ⟨s', ?_, ?_⟩
    · rw [runs_cons, ht]
      exact hrun
    · rwa [List.append_assoc] at hI'

/-- The later part of a run meets what the whole run meets. -/
theorem Meets.append_right {t : σ} {js : List ι} (h : Meets step ok s (is ++ js))
    (hrun : runs step s is = some t) : Meets step ok t js := by
  induction is generalizing s with
  | nil =>
    cases hrun
    exact h
  | cons i is ih =>
    simp only [runs_cons, Option.bind_eq_some_iff] at hrun
    obtain ⟨t, ht, hrun⟩ := hrun
    exact ih (h.2 t ht) hrun

/-- A relation of one step that is reflexive and transitive holds between the
ends of every run. -/
theorem rel_runs {R : σ → σ → Prop} (hrefl : ∀ s, R s s) (htrans : ∀ a b c, R a b → R b c → R a c)
    (hstep : ∀ s i s', step s i = some s' → R s s') (hrun : runs step s is = some s') : R s s' := by
  induction is generalizing s with
  | nil =>
    cases hrun
    exact hrefl _
  | cons i is ih =>
    simp only [runs_cons, Option.bind_eq_some_iff] at hrun
    obtain ⟨t, ht, hrun⟩ := hrun
    exact htrans _ _ _ (hstep s i t ht) (ih hrun)

/-! ## Runs that emit events -/

/-- The state after all the inputs, and the events of all the steps, oldest first. -/
def emits (step : σ → ι → σ × List ε) (s : σ) : List ι → σ × List ε
  | [] => (s, [])
  | i :: is =>
    let r := emits step (step s i).1 is
    (r.1, (step s i).2 ++ r.2)

theorem emits_append (step : σ → ι → σ × List ε) (s : σ) (is js : List ι) :
    emits step s (is ++ js) =
      ((emits step (emits step s is).1 js).1,
        (emits step s is).2 ++ (emits step (emits step s is).1 js).2) := by
  induction is generalizing s with
  | nil => rfl
  | cons i is ih => simp only [List.cons_append, emits, ih, List.append_assoc]

/-- Each step of an emitting run meets `ok` in the state it is taken from. -/
def EmitMeets (step : σ → ι → σ × List ε) (ok : σ → ι → Prop) : σ → List ι → Prop
  | _, [] => True
  | s, i :: is => ok s i ∧ EmitMeets step ok (step s i).1 is

instance EmitMeets.decidable (step : σ → ι → σ × List ε) (ok : σ → ι → Prop)
    [∀ s i, Decidable (ok s i)] : ∀ s is, Decidable (EmitMeets step ok s is)
  | _, [] => isTrue trivial
  | s, i :: is =>
    have := EmitMeets.decidable step ok (step s i).1 is
    inferInstanceAs (Decidable (ok s i ∧ EmitMeets step ok (step s i).1 is))

theorem EmitMeets.append {step : σ → ι → σ × List ε} {js : List ι}
    (h : EmitMeets step ok s (is ++ js)) :
    EmitMeets step ok s is ∧ EmitMeets step ok (emits step s is).1 js := by
  induction is generalizing s with
  | nil => exact ⟨trivial, h⟩
  | cons i is ih => exact ⟨⟨h.1, (ih h.2).1⟩, (ih h.2).2⟩

/-- The simulation rule. When the events of each step drive the abstract
machine along the relation, the events of every run do. -/
theorem simulates {step : σ → ι → σ × List ε} {spec : α → ε → Option α} {R : σ → α → Prop}
    (hstep : ∀ s i a, R s a → ok s i → ∃ a', runs spec a (step s i).2 = some a' ∧ R (step s i).1 a')
    {a : α} (h0 : R s a) (hok : EmitMeets step ok s is) :
    ∃ a', runs spec a (emits step s is).2 = some a' ∧ R (emits step s is).1 a' := by
  induction is generalizing s a with
  | nil => exact ⟨a, rfl, h0⟩
  | cons i is ih =>
    obtain ⟨b, hb, hR⟩ := hstep s i a h0 hok.1
    obtain ⟨c, hc, hR'⟩ := ih hR hok.2
    refine ⟨c, ?_, hR'⟩
    simp only [emits, runs_append, hb, Option.bind_some]
    exact hc

end motioncore.machine
