-- The pump of the chain-flow engine keeps the law of delivery: each event is taken once,
-- in the order they were posted, and is offered to every chain that is enabled when its
-- turn comes. The nodes of a chain see it in their order up to the first that stops it.
import MotionCore.Cfl.Delivery
import MotionCore.Cfl.Inits

namespace motioncore.cfl

open motioncore.callbacks motioncore.machine

variable {m : Module} {α : Type} {d c n : Nat} {v₀ v v' : View setting}

variable (m) in
/-- The pump of a level is at a place of the law; the levels below stand still. -/
structure At (d : Nat) (v₀ : View setting) (p : Pos) (v : View setting) : Prop where
  here : pos m d v.log = some p
  below : ∀ j < d, pos m j v.log = pos m j v₀.log
  above : (delivery m).Inv (d + 1) v
  grows : v₀.log <+: v.log

variable {p : Pos}

theorem At.refl (h : At m d v₀ p v) : Calm m d v v :=
  .refl h.above (by rw [h.here]; rfl)

theorem At.noted {q : Pos} {e : Note} (h : At m d v₀ p v) (hnext : p.next m e = some q) :
    At m d v₀ q (v.noted d e) where
  here := pos_next h.here hnext
  below j hj := by
    rw [View.noted, pos_other (by omega)]
    exact h.below j hj
  above := by
    refine ⟨fun j hj => ?_, fun n hn => (h.above.2 n hn).mono (List.prefix_append _ _)⟩
    rw [View.noted, pos_other (by omega)]
    exact h.above.1 j hj
  grows := h.grows.trans (List.prefix_append _ _)

theorem At.note {q : Pos} {e : Note} {Q : Unit → View setting → Prop} (h : At m d v₀ p v)
    (hnext : p.next m e = some q) (htrue : Truthful v e) (hpops : ∀ ev, e ≠ .pops ev)
    (hQ : At m d v₀ q (v.noted d e) → Q () (v.noted d e)) : Keeps (delivery m) d (note e) Q v := by
  intro _
  refine ⟨⟨htrue, ?_⟩, fun w hw => ?_, hQ (h.noted hnext)⟩
  · rw [h.here, Option.bind_some, hnext]
    rfl
  · exact hw.trans (congrArg (· ++ _) (popped_other hpops d v.log).symm)

variable {ev : QueuedEvent}

theorem At.rest (h : At m d v₀ p v) (hp : AtRest m (some p)) :
    (delivery m).Inv d v ∧ (delivery m).Rely d v₀ v := by
  refine ⟨⟨fun j hj => ?_, h.above.2⟩, h.below, h.grows⟩
  by_cases hjd : j = d
  · subst hjd
    rw [h.here]
    exact hp
  · exact h.above.1 j (by omega)

open motioncore.callbacks motioncore.machine

end motioncore.cfl
