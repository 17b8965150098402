-- Logs of reads and writes. A log is coherent when every read gives what its register was last
-- given.
import Mathlib.Data.List.Basic

namespace motioncore.registers

variable {ι α : Type} [DecidableEq ι]

inductive Access (ι α : Type) where
  | read (i : ι) (v : α)
  | write (i : ι) (v : α)

/-- What the registers hold after one more access. -/
def after (f : ι → α) : Access ι α → ι → α
  | .read _ _ => f
  | .write i v => Function.update f i v

/-- What the registers hold after the log. -/
def contents (init : ι → α) (log : List (Access ι α)) : ι → α := log.foldl after init

variable (init : ι → α)

@[simp] theorem contents_read (log : List (Access ι α)) (i : ι) (v : α) :
    contents init (log ++ [.read i v]) = contents init log := by
  simp [contents, after]

@[simp] theorem contents_write (log : List (Access ι α)) (i : ι) (v : α) :
    contents init (log ++ [.write i v]) = Function.update (contents init log) i v := by
  simp [contents, after]

/-- Every read gives what its register holds. -/
def Coherent (init : ι → α) (log : List (Access ι α)) : Prop :=
  ∀ (before rest : List (Access ι α)) (i : ι) (v : α), log = before ++ .read i v :: rest →
    v = contents init before i

theorem coherent_nil : Coherent init ([] : List (Access ι α)) := by
  intro before rest i v h
  simp at h

theorem Coherent.append {init : ι → α} {log : List (Access ι α)} (h : Coherent init log)
    {a : Access ι α} (ha : ∀ i v, a = .read i v → v = contents init log i) :
    Coherent init (log ++ [a]) := by
  intro before rest i v heq
  rcases List.eq_nil_or_concat rest with rfl | ⟨rest', b, rfl⟩
  · obtain ⟨rfl, hlast⟩ := List.append_inj' heq rfl
    exact ha i v (List.singleton_inj.mp hlast)
  · have hassoc : log ++ [a] = (before ++ .read i v :: rest') ++ [b] := by
      rw [heq]
      simp
    obtain ⟨rfl, -⟩ := List.append_inj' hassoc rfl
    exact h before rest' i v rfl

end motioncore.registers
