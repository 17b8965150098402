-- The upkeep of a whole tree. Every composite knows which of its children are running, and
-- the history keeps to the laws of the case dispatchers.
import MotionCore.Engine.Lifecycle
import MotionCore.Lib.Trace

namespace motioncore.engine

open EventType motioncore.trace

variable {E : Type}

/-! ## What happens elsewhere -/

/-- Only the given nodes are touched. -/
structure Within (ns : List Nat) (s s' : Eng E) : Prop where
  nodes : ∀ n, n ∉ ns → s'.nodes n = s.nodes n
  log : ∃ seg, s'.log = s.log ++ seg ∧ ∀ c ∈ seg, c.node ∈ ns

/-- The given nodes are not touched. -/
structure Apart (ns : List Nat) (s s' : Eng E) : Prop where
  nodes : ∀ n ∈ ns, s'.nodes n = s.nodes n
  log : ∃ seg, s'.log = s.log ++ seg ∧ ∀ c ∈ seg, c.node ∉ ns

variable {ns : List Nat} {s s' : Eng E}

theorem Within.apart {ms : List Nat} (h : Within ns s s') (hdisjoint : ∀ n ∈ ns, n ∉ ms) :
    Apart ms s s' where
  nodes n hn := h.nodes n fun hn' => hdisjoint n hn' hn
  log := Adds.mono h.log fun _ hc => hdisjoint _ hc

theorem Apart.mono {ms : List Nat} (h : Apart ns s s') (hsub : ∀ n ∈ ms, n ∈ ns) :
    Apart ms s s' where
  nodes n hn := h.nodes n (hsub n hn)
  log := Adds.mono h.log fun _ hc hm => hc (hsub _ hm)

theorem Apart.trans {s'' : Eng E} (h : Apart ns s s') (h' : Apart ns s' s'') : Apart ns s s'' where
  nodes n hn := (h'.nodes n hn).trans (h.nodes n hn)
  log := Adds.trans h.log h'.log

theorem within_follows (ns : List Nat) : Follows (Within (E := E) ns) where
  refl _ := ⟨fun _ _ => rfl, Adds.refl _⟩
  trans _ _ _ h h' :=
    ⟨fun n hn => (h'.nodes n hn).trans (h.nodes n hn), Adds.trans h.log h'.log⟩
  env _ _ := ⟨fun _ _ => rfl, Adds.refl _⟩

theorem within_at {idx : Nat} (h : idx ∈ ns) : RespectsAt (Within (E := E) ns) idx where
  setNode s st := by
    refine ⟨fun n hn => ?_, Adds.refl _⟩
    have hne : n ≠ idx := fun heq => hn (heq ▸ h)
    simp [Eng.setNode, hne]
  record s c hc := ⟨fun _ _ => rfl, [c], rfl, by simp [hc, h]⟩
  drop _ := ⟨fun _ _ => rfl, Adds.refl _⟩

theorem kid_within (w : World E) (t : Node) : (t.kid w).Respects (Within t.indices) :=
  kid_respects ((within_follows t.indices).into w) t fun _ hi => within_at hi

variable {t : Node} {args : List Node}

theorem mem_indicesAll (ht : t ∈ args) {n : Nat} (hn : n ∈ t.indices) :
    n ∈ Node.indicesAll args := by
  induction args with
  | nil => cases ht
  | cons u us ih =>
    rw [Node.indicesAll, List.mem_append]
    rcases List.mem_cons.mp ht with rfl | ht
    · exact Or.inl hn
    · exact Or.inr (ih ht)

/-! ## What a node does for its parent -/

theorem indices_nodup (hnodup : (Node.indicesAll args).Nodup) {j : Nat} (ht : args[j]? = some t) :
    t.indices.Nodup := by
  induction args generalizing j with
  | nil => simp at ht
  | cons u us ih =>
    rw [Node.indicesAll, List.nodup_append] at hnodup
    cases j with
    | zero =>
      simp only [List.getElem?_cons_zero, Option.some.injEq] at ht
      subst ht
      exact hnodup.1
    | succ j =>
      simp only [List.getElem?_cons_succ] at ht
      exact ih hnodup.2.1 ht

theorem indices_disjoint (hnodup : (Node.indicesAll args).Nodup) {i j : Nat} {u : Node}
    (ht : args[i]? = some t) (hu : args[j]? = some u) (hne : i ≠ j) :
    ∀ n ∈ t.indices, n ∉ u.indices := by
  induction args generalizing i j with
  | nil => simp at ht
  | cons v vs ih =>
    rw [Node.indicesAll, List.nodup_append] at hnodup
    obtain ⟨-, hvs, hdisjoint⟩ := hnodup
    intro n hn hm
    cases i with
    | zero =>
      cases j with
      | zero => exact hne rfl
      | succ j =>
        simp only [List.getElem?_cons_zero, Option.some.injEq] at ht
        simp only [List.getElem?_cons_succ] at hu
        exact hdisjoint n (ht ▸ hn) n (mem_indicesAll (List.mem_of_getElem? hu) hm) rfl
    | succ i =>
      simp only [List.getElem?_cons_succ] at ht
      cases j with
      | zero =>
        simp only [List.getElem?_cons_zero, Option.some.injEq] at hu
        exact hdisjoint n (hu ▸ hm) n (mem_indicesAll (List.mem_of_getElem? ht) hn) rfl
      | succ j =>
        simp only [List.getElem?_cons_succ] at hu
        exact ih hvs ht hu (fun heq => hne (by rw [heq])) n hn hm

/-! ## Programs of a node -/

section

variable {w : World E} {idx : Nat} {args : List Node} {field : Bool} {s s₁ : Eng E} {j : Nat}
variable {t : Node}

theorem kids_eq_map (ts : List Node) : Node.kids w ts = ts.map (Node.kid w) := by
  induction ts with
  | nil => rfl
  | cons t ts ih => simp [Node.kids, ih]

theorem kidAt_some (hj : args[j]? = some t) : kidAt (Node.kids w args) j = t.kid w := by
  simp [kidAt, kids_eq_map, hj]

theorem kidAt_none (hj : args[j]? = none) : kidAt (Node.kids w args) j = .param .other := by
  simp [kidAt, kids_eq_map, hj]

theorem isMain_iff : isMain (args.map Node.kind) j = true ↔ ∃ fn n as, args[j]? = some (.main fn n as) := by
  simp only [isMain, List.getElem?_map, beq_iff_eq]
  cases hj : args[j]? with
  | none => simp
  | some t => cases t <;> simp [Node.kind]

end

end motioncore.engine
