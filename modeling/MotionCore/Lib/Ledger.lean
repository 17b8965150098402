-- The ledger of an allocator: what it hands out and what it gets back, in order.
import Mathlib.Data.List.Count
import Mathlib.Data.List.Nodup
import Mathlib.Data.List.Perm.Basic

namespace motioncore.ledger

inductive Call where
  | malloc (block : Nat)
  | free (block : Nat)
deriving DecidableEq

/-- Every block handed out is given back exactly once, after it was handed out, and
nothing else is given back. -/
structure ReleasedOnce (calls : List Call) : Prop where
  fresh : ∀ b, calls.count (.malloc b) ≤ 1
  once : ∀ b, calls.count (.free b) = calls.count (.malloc b)
  after : ∀ past rest b, calls = past ++ .free b :: rest → .malloc b ∈ past

/-- A ledger that hands out first and takes back last. -/
def takenAndGiven (taken given : List Nat) : List Call :=
  taken.map .malloc ++ given.map .free

variable {taken given : List Nat}

/-- The blocks that are out, each once. The others have been given back as often as they were
handed out. -/
structure Holding (calls : List Call) (live : List Nat) : Prop where
  fresh : ∀ b, calls.count (.malloc b) ≤ 1
  balance : ∀ b, calls.count (.free b) + live.count b = calls.count (.malloc b)
  after : ∀ past rest b, calls = past ++ .free b :: rest → .malloc b ∈ past

section

variable {calls : List Call} {live : List Nat}

theorem holding_nil : Holding [] [] :=
  ⟨fun _ => by simp, fun _ => by simp, fun past rest b h => by simp at h⟩

theorem Holding.perm {live' : List Nat} (h : Holding calls live) (hp : live.Perm live') :
    Holding calls live' :=
  ⟨h.fresh, fun b => hp.count_eq b ▸ h.balance b, h.after⟩

variable {b : Nat}

/-- A release in a longer ledger is in the ledger, or it is the last call. -/
theorem split_append {c : Call} {past rest : List Call}
    (h : calls ++ [c] = past ++ .free b :: rest) :
    (∃ rest', calls = past ++ .free b :: rest') ∨ (past = calls ∧ c = .free b) := by
  rcases List.eq_nil_or_concat rest with rfl | ⟨rest', a, rfl⟩
  · obtain ⟨rfl, hlast⟩ := List.append_inj' h rfl
    exact Or.inr ⟨rfl, List.singleton_inj.mp hlast⟩
  · have hassoc : calls ++ [c] = (past ++ .free b :: rest') ++ [a] := by
      rw [h]
      simp
    exact Or.inl ⟨rest', (List.append_inj' hassoc rfl).1⟩

theorem Holding.malloc (h : Holding calls live) (hb : .malloc b ∉ calls) :
    Holding (calls ++ [.malloc b]) (b :: live) := by
  have hzero : calls.count (.malloc b) = 0 := List.count_eq_zero_of_not_mem hb
  refine ⟨fun a => ?_, fun a => ?_, fun past rest a hsplit => ?_⟩
  · have hfresh := h.fresh a
    rw [List.count_append, List.count_singleton]
    split
    · next heq =>
      obtain rfl : b = a := by simpa using heq
      omega
    · omega
  · have hbalance := h.balance a
    rw [List.count_append, List.count_append, List.count_singleton, List.count_singleton, List.count_cons]
    by_cases hab : b = a
    · subst hab
      simp
      omega
    · simpa [hab] using hbalance
  · rcases split_append hsplit with ⟨rest', hcalls⟩ | ⟨-, hlast⟩
    · exact h.after past rest' a hcalls
    · cases hlast

theorem Holding.free (h : Holding calls (b :: live)) : Holding (calls ++ [.free b]) live := by
  have hmem : Call.malloc b ∈ calls := by
    have hbalance := h.balance b
    rw [List.count_cons_self] at hbalance
    exact List.count_pos_iff.mp (by omega)
  refine ⟨fun a => ?_, fun a => ?_, fun past rest a hsplit => ?_⟩
  · have hfresh := h.fresh a
    rw [List.count_append, List.count_singleton]
    simpa using hfresh
  · have hbalance := h.balance a
    rw [List.count_cons] at hbalance
    rw [List.count_append, List.count_append, List.count_singleton, List.count_singleton]
    by_cases hab : b = a
    · subst hab
      simp at hbalance ⊢
      omega
    · simpa [hab] using hbalance
  · rcases split_append hsplit with ⟨rest', hcalls⟩ | ⟨rfl, hlast⟩
    · exact h.after past rest' a hcalls
    · cases hlast
      exact hmem

/-- When nothing is out any more, everything has been given back once. -/
theorem Holding.released (h : Holding calls []) : ReleasedOnce calls :=
  ⟨h.fresh, fun b => by simpa using h.balance b, h.after⟩

end

end motioncore.ledger
