-- A list of actions that is still to run, one after the other, while other steps come in between
-- and leave a view of the state alone. Each action is allowed in the view that it will find.
import Mathlib.Tactic.Common

namespace motioncore.pending

variable {Act View : Type}

/-- Each action of the list is allowed in the view that the ones before it leave. -/
def Allowed (effect : Act → View → View) (ok : View → Act → Prop) : View → List Act → Prop
  | _, [] => True
  | v, a :: rest => ok v a ∧ Allowed effect ok (effect a v) rest

variable {effect : Act → View → View} {ok : View → Act → Prop}

theorem allowed_append {v : View} {l l' : List Act} : Allowed effect ok v (l ++ l') ↔
      Allowed effect ok v l ∧ Allowed effect ok (l.foldl (fun v a => effect a v) v) l' := by
  induction l generalizing v with
  | nil => simp [Allowed]
  | cons a l ih =>
    rw [List.cons_append, Allowed, Allowed, ih, and_assoc]
    rfl

/-- Actions that are allowed whenever something holds that they all keep. -/
theorem allowed_of_forall {I : View → Prop} {l : List Act}
    (h : ∀ a ∈ l, ∀ v, I v → ok v a ∧ I (effect a v)) {v : View} (hv : I v) :
    Allowed effect ok v l := by
  induction l generalizing v with
  | nil => trivial
  | cons a l ih =>
    obtain ⟨hok, hnext⟩ := h a List.mem_cons_self v hv
    exact ⟨hok, ih (fun a' ha' => h a' (List.mem_cons_of_mem _ ha')) hnext⟩

end motioncore.pending
