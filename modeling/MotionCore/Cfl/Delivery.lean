-- What becomes of an event that is posted to the chain-flow engine: it leaves the
-- queue in its order, and each chain has its turn with it, whatever the others
-- answer. The law is a small automaton that reads what the pump notes.
import MotionCore.Cfl.Rules

namespace motioncore.cfl

open motioncore.callbacks motioncore.machine

/-! ## The law of delivery -/

/-- How far an event is. -/
inductive Pos where
  /-- No event was taken yet. -/
  | fresh
  /-- The chain has the next turn with the event. -/
  | turns (ev : QueuedEvent) (c : Nat)
  /-- The chain has its turn, and these nodes of it are still to be visited. -/
  | nodes (ev : QueuedEvent) (c : Nat) (ns : List Nat)
  /-- The node is enabled, and is to get the event; INIT was seen to or not. -/
  | serves (ev : QueuedEvent) (c n : Nat) (ns : List Nat) (inited : Bool)
  /-- The node has the event. -/
  | judges (ev : QueuedEvent) (c n : Nat) (ns : List Nat)
  /-- A node answered with no return code. -/
  | stopped
deriving DecidableEq

/-- The nodes that are left, or the next chain when there is none. -/
def Pos.onward (ev : QueuedEvent) (c : Nat) : List Nat → Pos
  | [] => .turns ev (c + 1)
  | n :: ns => .nodes ev c (n :: ns)

/-- The event goes on to the next node, or to the next chain. -/
def Pos.after (ev : QueuedEvent) (c : Nat) (ns : List Nat) : Status → Pos
  | .CFL_CONTINUE | .CFL_DISABLE => .onward ev c ns
  | .CFL_HALT | .CFL_RESET | .CFL_TERMINATE => .turns ev (c + 1)
  | .other _ => .stopped

/-- One note of a pump, or `none` where it has no place. -/
def Pos.next (m : Module) : Pos → Note → Option Pos
  | .fresh, .pops ev => some (.turns ev 0)
  | .turns _ c, .pops ev => if c = m.chain_count then some (.turns ev 0) else none
  | .turns ev c, .turn chain on =>
    if chain = c ∧ c < m.chain_count then
      some (if on then .onward ev c (m.nodesOf c) else .turns ev (c + 1))
    else none
  | .nodes ev c (n :: ns), .visit node on =>
    if node = n then some (if on then .serves ev c n ns false else .onward ev c ns) else none
  | .serves ev c n ns false, .inits node =>
    if node = n then some (.serves ev c n ns true) else none
  | .serves ev c n ns _, .offers node ev' =>
    if node = n ∧ ev' = ev then some (.judges ev c n ns) else none
  | .judges ev c n ns, .verdict node r => if node = n then some (.after ev c ns r) else none
  | p, .callback _ _ => some p
  | p, .arms _ => some p
  | p, .sweep _ => some p
  | p, .swept _ => some p
  | _, _ => none

variable (m : Module)

/-- Where the pump that was started at a level is, or `none` when it left the law. -/
def pos (d : Nat) (log : List (Nat × Note)) : Option Pos :=
  log.foldlM (fun p e => if e.1 = d then p.next m e.2 else some p) .fresh

/-- No event is half delivered. -/
def AtRest (p : Option Pos) : Prop := p = some .fresh ∨ ∃ ev, p = some (.turns ev m.chain_count)

/-- The events that the pump took, in its order. -/
def popped (log : List (Nat × Note)) : List QueuedEvent :=
  log.filterMap fun e => match e.2 with
    | .pops ev => some ev
    | _ => none

def Inited (n : Nat) (log : List (Nat × Note)) : Prop := ∃ d, (d, Note.inits n) ∈ log

/-- What a note tells is so: a turn goes by the enable bit of the chain, a visit by that of
the node, and an event is offered to an initialized node. -/
def Truthful (v : View setting) : Note → Prop
  | .turn c on => on = v.state.chain_enable c
  | .visit n on => on = v.state.node_enable n
  | .inits n => v.state.node_initialized n = false
  | .offers n _ => v.state.node_initialized n = true ∧ Inited n v.log
  | _ => True

variable {m}

theorem pos_append (d : Nat) (log : List (Nat × Note)) (e : Nat × Note) :
    pos m d (log ++ [e]) = (pos m d log).bind fun p =>
      if e.1 = d then p.next m e.2 else some p := by
  simp [pos, List.foldlM_append]

theorem pos_other {d j : Nat} (h : j ≠ d) (log : List (Nat × Note)) (e : Note) :
    pos m d (log ++ [(j, e)]) = pos m d log := by
  rw [pos_append]
  cases pos m d log <;> simp [h]

variable {e : Note}

theorem pos_next {d : Nat} {log : List (Nat × Note)} {p q : Pos} (h : pos m d log = some p)
    (hnext : p.next m e = some q) : pos m d (log ++ [(d, e)]) = some q := by
  rw [pos_append, h]
  simpa using hnext

theorem AtRest.isSome {p : Option Pos} (h : AtRest m p) : p.isSome = true := by
  rcases h with rfl | ⟨ev, rfl⟩ <;> rfl

/-- The notes that are none of the pump's. -/
def Note.IsPlain : Note → Prop
  | .callback _ _ | .arms _ | .sweep _ | .swept _ => True
  | _ => False

theorem Note.IsPlain.next (h : e.IsPlain) (p : Pos) : p.next m e = some p := by
  cases e <;> first | exact absurd h id | skip
  all_goals cases p <;> try rfl
  all_goals
    rename_i ns
    cases ns <;> rfl

theorem popped_append (log : List (Nat × Note)) (e : Nat × Note) :
    popped (log ++ [e]) = popped log ++ popped [e] := by
  simp [popped, List.filterMap_append]

theorem popped_other (h : ∀ ev, e ≠ .pops ev) (d : Nat) (log : List (Nat × Note)) :
    popped (log ++ [(d, e)]) = popped log := by
  rw [popped_append]
  cases e <;> first | exact absurd rfl (h _) | simp [popped]

/-! ## The contract -/

variable (m) in
/-- Nothing is asked of the code outside. It may even pump while it is called by the pump:
the pumps of each level deliver by themselves. -/
def delivery : Contract setting where
  Inv d v := (∀ j, d ≤ j → AtRest m (pos m j v.log)) ∧
    ∀ n, v.state.node_initialized n = true → Inited n v.log
  Rely d v v' := (∀ j < d, pos m j v'.log = pos m j v.log) ∧ v.log <+: v'.log
  Link w log := w.posted = popped log ++ w.queue.pending
  Safe log := ∀ d, (pos m d log).isSome = true
  Law d v e := Truthful v e ∧ ((pos m d v.log).bind (Pos.next m · e)).isSome = true
  Allowed _ _ := True
  MayEnter _ _ := True
  MayAct _ := True

variable {α β : Type} {d c n : Nat} {v v' : View setting}

/-- What a program of a level leaves that is no pump: its own pump is where it was. -/
structure Calm (m : Module) (d : Nat) (v v' : View setting) : Prop where
  inv : (delivery m).Inv (d + 1) v'
  rely : (delivery m).Rely (d + 1) v v'
  lawful : (pos m d v'.log).isSome = true

theorem Calm.pos (h : Calm m d v v') : pos m d v'.log = pos m d v.log :=
  h.rely.1 d (Nat.lt_succ_self d)

theorem Calm.refl (h : (delivery m).Inv (d + 1) v) (hpos : (motioncore.cfl.pos m d v.log).isSome = true) :
    Calm m d v v := ⟨h, ⟨fun _ _ => rfl, List.prefix_refl _⟩, hpos⟩

theorem Inited.mono {log log' : List (Nat × Note)} (h : Inited n log) (hle : log <+: log') :
    Inited n log' := by
  obtain ⟨j, hj⟩ := h
  exact ⟨j, hle.mem hj⟩

/-! ## Programs that are no pump -/

end motioncore.cfl
