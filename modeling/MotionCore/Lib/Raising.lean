-- Programs that work on a state and may raise. What they did before they raise stays done, so
-- the rules follow both ways out.
import Mathlib.Tactic.Common

namespace motioncore.raising

variable {σ α β γ : Type}

/-! ## Programs -/

/-- A program that may raise. -/
abbrev Prog (σ α : Type) := EStateM Unit σ α

/-- The state that a program leaves, whether it returns or raises. -/
def Prog.after (m : Prog σ α) (s : σ) : σ :=
  match m s with
  | .ok _ s' | .error _ s' => s'

/-- What the steps for the elements of a list return, one after the other. -/
def collect (f : γ → Prog σ (List β)) : List γ → Prog σ (List β)
  | [] => pure []
  | c :: cs => do
    let bs ← f c
    let more ← collect f cs
    return bs ++ more

/-! ## Triples -/

/-- From a state with `P` the program returns with `Q`, or raises with `R`. -/
def Triple (P : σ → Prop) (m : Prog σ α) (Q : α → σ → Prop) (R : σ → Prop) : Prop :=
  ∀ s, P s → match m s with
    | .ok a s' => Q a s'
    | .error _ s' => R s'

variable {P P' : σ → Prop} {Q Q' : α → σ → Prop} {R R' : σ → Prop}
variable {m : Prog σ α}

theorem Triple.conseq (h : Triple P m Q R) (hP : ∀ s, P' s → P s) (hQ : ∀ a s, Q a s → Q' a s)
    (hR : ∀ s, R s → R' s) : Triple P' m Q' R' := by
  intro s hs
  have hm := h s (hP s hs)
  cases hrun : m s with
  | ok a s' =>
    rw [hrun] at hm
    exact hQ a s' hm
  | error e s' =>
    rw [hrun] at hm
    exact hR s' hm

theorem triple_pure {a : α} (h : ∀ s, P s → Q a s) : Triple P (pure a) Q R := h

theorem triple_throw (h : ∀ s, P s → R s) : Triple P (throw ()) Q R := h

theorem triple_get {Q : σ → σ → Prop} (h : ∀ s, P s → Q s s) : Triple P get Q R := h

theorem triple_set {Q : PUnit → σ → Prop} {s' : σ} (h : ∀ s, P s → Q ⟨⟩ s') :
    Triple P (set s') Q R := h

theorem triple_modify {Q : PUnit → σ → Prop} {f : σ → σ} (h : ∀ s, P s → Q ⟨⟩ (f s)) :
    Triple P (modify f) Q R := h

theorem triple_bind {f : α → Prog σ β} {Q' : β → σ → Prop} (hm : Triple P m Q R)
    (hf : ∀ a, Triple (Q a) (f a) Q' R) : Triple P (m >>= f) Q' R := by
  intro s hs
  have h := hm s hs
  change match EStateM.bind m f s with
    | .ok a s' => Q' a s'
    | .error _ s' => R s'
  unfold EStateM.bind
  cases hrun : m s with
  | ok a s' =>
    rw [hrun] at h
    exact hf a s' h
  | error e s' =>
    rw [hrun] at h
    exact h

/-- The first program returns a value that is known. -/
theorem triple_bind_eq {f : α → Prog σ β} {a : α} {I : σ → Prop} {Q : β → σ → Prop}
    (hm : Triple P m (fun a' s => a' = a ∧ I s) R) (hf : Triple I (f a) Q R) :
    Triple P (m >>= f) Q R :=
  triple_bind hm fun _ s hs => hs.1 ▸ hf s hs.2

theorem triple_bind_get {f : σ → Prog σ β} {s₀ : σ} {Q : β → σ → Prop}
    (h : Triple (fun s => s = s₀) (f s₀) Q R) : Triple (fun s => s = s₀) (get >>= f) Q R :=
  triple_bind_eq (triple_get fun _ hs => ⟨hs, hs⟩) h

/-- A fact about no state is at hand throughout. -/
theorem triple_fact {φ : Prop} (h : φ → Triple P m Q R) :
    Triple (fun s => P s ∧ φ) m Q R := fun s hs => h hs.2 s hs.1

theorem triple_start (h : ∀ s₀, P s₀ → Triple (fun s => s = s₀) m Q R) :
    Triple P m Q R := fun s hs => h s hs s rfl

theorem triple_collect {f : γ → Prog σ (List β)} {I : List γ → List β → σ → Prop} {cs : List γ}
    (h : ∀ done c rest bs, cs = done ++ c :: rest →
      Triple (I done bs) (f c) (fun more => I (done ++ [c]) (bs ++ more)) R) :
    Triple (I [] []) (collect f cs) (fun bs => I cs bs) R := by
  have hloop : ∀ rest done bs, cs = done ++ rest →
      Triple (I done bs) (collect f rest) (fun more => I cs (bs ++ more)) R := by
    intro rest
    induction rest with
    | nil =>
      intro done bs hcs
      rw [List.append_nil] at hcs
      subst hcs
      exact triple_pure fun s hs => by rwa [List.append_nil]
    | cons c rest ih =>
      intro done bs hcs
      refine triple_bind (h done c rest bs hcs) fun here => ?_
      have hrest := ih (done ++ [c]) (bs ++ here) (by rw [hcs, List.append_assoc]; rfl)
      refine triple_bind hrest fun more => triple_pure fun s hs => ?_
      rwa [List.append_assoc] at hs
  have hall := hloop cs [] [] rfl
  exact hall.conseq (fun _ hs => hs) (fun bs s hs => by rwa [List.nil_append] at hs)
    fun _ hs => hs

theorem Triple.after {I : σ → Prop} (h : Triple P m (fun _ => I) I) {s : σ} (hs : P s) :
    I (m.after s) := by
  have hm := h s hs
  unfold Prog.after
  cases hrun : m s with
  | ok a s' =>
    rw [hrun] at hm
    exact hm
  | error e s' =>
    rw [hrun] at hm
    exact hm

/-! ## Invariants -/

/-- The program keeps the invariant, also when it raises. -/
def Keeps (I : σ → Prop) (m : Prog σ α) : Prop := Triple I m (fun _ => I) I

section

variable {I : σ → Prop}

theorem keeps_pure (a : α) : Keeps I (pure a : Prog σ α) := fun _ hs => hs

theorem keeps_throw : Keeps I (throw () : Prog σ α) := fun _ hs => hs

theorem keeps_get : Keeps I (get : Prog σ σ) := fun _ hs => hs

theorem keeps_modify {f : σ → σ} (h : ∀ s, I s → I (f s)) : Keeps I (modify f : Prog σ PUnit) := h

theorem keeps_bind {m : Prog σ α} {f : α → Prog σ β} (hm : Keeps I m) (hf : ∀ a, Keeps I (f a)) :
    Keeps I (m >>= f) := triple_bind hm hf

theorem keeps_collect {f : γ → Prog σ (List β)} {cs : List γ} (h : ∀ c, Keeps I (f c)) :
    Keeps I (collect f cs) :=
  triple_collect (I := fun _ _ => I) fun _ c _ _ _ => h c

theorem Keeps.after {m : Prog σ α} (h : Keeps I m) {s : σ} (hs : I s) : I (m.after s) :=
  Triple.after h hs

end

end motioncore.raising
