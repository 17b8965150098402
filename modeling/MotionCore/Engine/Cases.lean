-- The law of the case dispatchers over whole runs. It holds as long as no event dispatch is
-- terminated while one of its actions is live, since the event dispatch does nothing then.
import MotionCore.Engine.Branches

namespace motioncore.engine

open EventType

variable {E : Type}

theorem kid_kind (w : World E) (t : Node) : (t.kid w).kind = t.kind := by
  cases t <;> rfl

theorem kids_kinds (w : World E) (args : List Node) :
    (Node.kids w args).map Kid.kind = args.map Node.kind := by
  rw [kids_eq_map, List.map_map]
  exact List.map_congr_left fun t _ => kid_kind w t

section

variable {w : World E} {C : List Callback → Prop} {fn : MainFn} {idx : Nat} {args : List Node}
variable {s s₁ : Eng E}

end

end motioncore.engine
