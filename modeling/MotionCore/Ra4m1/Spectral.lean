-- The capture of the spectral mode (`spectral.c`). The interrupt fills two buffers in turn and
-- the pump works on the full one; an interrupt may come between any two steps of the pump.
import Mathlib.Algebra.BigOperators.Group.List.Basic
import Mathlib.Algebra.Field.Basic
import Mathlib.Algebra.Field.Rat
import Mathlib.Data.List.Induction
import MotionCore.Lib.Runs

namespace motioncore.ra4m1.spectral

open motioncore.machine

def SPECTRAL_N : Nat := 1024

theorem SPECTRAL_N_pos : 0 < SPECTRAL_N := by decide

attribute [irreducible] SPECTRAL_N

def SPECTRAL_MIN_FS_CODE : Nat := 1
def SPECTRAL_MAX_FS_CODE : Nat := 10
def SPECTRAL_CHANNEL_MAX : Nat := 3
def SPECTRAL_MAX_FRAMES : Nat := 100

inductive SpectralState where
  | IDLE | RUNNING | DONE | ERROR
deriving DecidableEq, Repr

/-- Where the pump stands. The interrupt touches neither `work` nor `power_sum`, so the
transform and its accumulation are one step. -/
inductive Pump (K : Type) where
  | idle
  | ready
  | select
  | summing (reader : Bool) (i sum : Nat)
  | windowing (reader : Bool) (i : Nat) (mean : K)
  | transform
  | clear
  | count
  | finish

/-- The arena of the mode, and the pump. -/
structure Spectral (K : Type) where
  state : SpectralState
  fs_code : Nat
  channel : Nat
  target_frames : Nat
  frames_done : Nat
  cap_idx : Nat
  cap_writer : Bool
  frame_ready : Bool
  cap_buf : Bool → Nat → Nat
  work : Nat → K
  power_sum : Fin (SPECTRAL_N / 2 + 1) → K
  pump : Pump K

variable {K : Type} [Field K]

def spectral_start (fs_code channel target_frames : Nat) : Option (Spectral K) :=
  if fs_code < SPECTRAL_MIN_FS_CODE ∨ SPECTRAL_MAX_FS_CODE < fs_code then none
  else if SPECTRAL_CHANNEL_MAX < channel then none
  else if target_frames = 0 ∨ SPECTRAL_MAX_FRAMES < target_frames then none
  else some ⟨.RUNNING, fs_code, channel, target_frames, 0, 0, false, false, fun _ _ => 0,
    fun _ => 0, fun _ => 0, .idle⟩

/-- The interrupt with a reading of the converter, and the sample it stores. -/
def spectral_periodic_isr (reading : Nat) (g : Spectral K) : Spectral K × List Nat :=
  if g.state ≠ .RUNNING then (g, [])
  else
    let s := reading &&& 0x3FFF
    let g := { g with
      cap_buf := Function.update g.cap_buf g.cap_writer
        (Function.update (g.cap_buf g.cap_writer) g.cap_idx s)
      cap_idx := g.cap_idx + 1 }
    if g.cap_idx ≥ SPECTRAL_N then
      if g.frame_ready then ({ g with state := .ERROR }, [s])
      else ({ g with cap_idx := 0, cap_writer := !g.cap_writer, frame_ready := true }, [s])
    else (g, [s])

/-- The squared magnitude in a bin of the packed output of the transform. -/
def magnitude (x : List K) (k : Nat) : K :=
  if k = 0 then x.getD 0 0 * x.getD 0 0
  else if k = SPECTRAL_N / 2 then x.getD 1 0 * x.getD 1 0
  else x.getD (2 * k) 0 * x.getD (2 * k) 0 + x.getD (2 * k + 1) 0 * x.getD (2 * k + 1) 0

section pump

variable (window : Nat → K) (rfft : List K → List K)

/-- One step of `spectral_pump`; from `idle` it is called anew. -/
def spectral_pump (g : Spectral K) : Spectral K :=
  match g.pump with
  | .idle => if g.state ≠ .RUNNING then g else { g with pump := .ready }
  | .ready => if g.frame_ready then { g with pump := .select } else { g with pump := .idle }
  | .select => { g with pump := .summing (!g.cap_writer) 0 0 }
  | .summing reader i sum =>
    if i < SPECTRAL_N then { g with pump := .summing reader (i + 1) (sum + g.cap_buf reader i) }
    else { g with pump := .windowing reader 0 (sum * (1 / SPECTRAL_N)) }
  | .windowing reader i mean =>
    if i < SPECTRAL_N then
      { g with
        work := Function.update g.work i ((g.cap_buf reader i - mean) * window i)
        pump := .windowing reader (i + 1) mean }
    else { g with pump := .transform }
  | .transform =>
    let x := rfft ((List.range SPECTRAL_N).map g.work)
    { g with
      work := fun i => x.getD i 0
      power_sum := fun k => g.power_sum k + magnitude x k
      pump := .clear }
  | .clear => { g with frame_ready := false, pump := .count }
  | .count => { g with frames_done := g.frames_done + 1, pump := .finish }
  | .finish =>
    if g.frames_done ≥ g.target_frames then { g with state := .DONE, pump := .idle }
    else { g with pump := .idle }

inductive Event where
  | isr (reading : Nat)
  | pump

def step (g : Spectral K) : Event → Spectral K × List Nat
  | .isr reading => spectral_periodic_isr reading g
  | .pump => (spectral_pump window rfft g, [])

/-! ## Frames -/

/-- The frame of this number in a stream of samples. -/
def frame (stream : List Nat) (j : Nat) : List Nat := (stream.drop (SPECTRAL_N * j)).take SPECTRAL_N

def mean (samples : List Nat) : K := (samples.sum : Nat) * (1 / SPECTRAL_N)

/-- The power of a frame that is left alone. -/
def power (samples : List Nat) (k : Nat) : K :=
  magnitude (rfft (samples.mapIdx fun i (s : Nat) => ((s : K) - mean samples) * window i)) k

def buffer (g : Spectral K) (b : Bool) : List Nat := (List.range SPECTRAL_N).map (g.cap_buf b)

/-- The frames that are in `power_sum`. The pump counts a frame two steps later. -/
def accumulated (g : Spectral K) : Nat :=
  match g.pump with
  | .clear | .count => g.frames_done + 1
  | _ => g.frames_done

/-- A full buffer that is not in `power_sum` yet. -/
def pending (g : Spectral K) : Bool :=
  match g.pump with
  | .clear => false
  | _ => g.frame_ready

/-- The pump is at work on a frame. -/
def Busy (g : Spectral K) : Prop :=
  match g.pump with
  | .select | .summing _ _ _ | .windowing _ _ _ | .transform => True
  | _ => False

/-- The hand-over of the frames, for the samples taken so far. -/
structure Captured (g : Spectral K) (stream : List Nat) : Prop where
  /-- The sum has the power of each frame of the stream up to a number, once. -/
  power_sum : ∀ k, g.power_sum k =
    ((List.range (accumulated g)).map fun j => power window rfft (frame stream j) k).sum
  whole : SPECTRAL_N * (accumulated g + (pending g).toNat) ≤ stream.length
  /-- While the pump works its buffer is the next frame. -/
  untouched : Busy g → pending g = true ∧ buffer g (!g.cap_writer) = frame stream (accumulated g)
  done : g.state = .DONE ↔ g.frames_done = g.target_frames ∧ g.pump ≠ .finish
  bound : accumulated g ≤ g.target_frames
  /-- A capture that runs has room for the next sample. One that was stopped by the interrupt had
  a whole buffer waiting when it filled the other one. -/
  room : g.state = .RUNNING → g.cap_idx < SPECTRAL_N
  behind : g.state = .ERROR → g.cap_idx = SPECTRAL_N
  /-- A stopped capture takes no samples. -/
  stopped : g.state ≠ .RUNNING → ∀ e, (step window rfft g e).2 = []

/-! ## The invariant -/

/-- What the pump holds of the buffer it reads. -/
def Holds (g : Spectral K) : Prop :=
  match g.pump with
  | .select | .clear => g.frame_ready = true
  | .summing reader i sum =>
    g.frame_ready = true ∧ reader = !g.cap_writer ∧ i ≤ SPECTRAL_N ∧
      sum = ((List.range i).map (g.cap_buf reader)).sum
  | .windowing reader i m =>
    g.frame_ready = true ∧ reader = !g.cap_writer ∧ i ≤ SPECTRAL_N ∧
      m = mean (buffer g reader) ∧ ∀ j < i, g.work j = (g.cap_buf reader j - m) * window j
  | .transform =>
    g.frame_ready = true ∧ ∀ j < SPECTRAL_N, g.work j =
      (g.cap_buf (!g.cap_writer) j - mean (buffer g (!g.cap_writer))) * window j
  | _ => True

structure Inv (g : Spectral K) (stream : List Nat) : Prop where
  holds : Holds window g
  length : stream.length = SPECTRAL_N * (accumulated g + (pending g).toNat) + g.cap_idx
  writing : (List.range g.cap_idx).map (g.cap_buf g.cap_writer) =
    stream.drop (SPECTRAL_N * (accumulated g + (pending g).toNat))
  waiting : pending g = true → buffer g (!g.cap_writer) = frame stream (accumulated g)
  power_sum : ∀ k, g.power_sum k =
    ((List.range (accumulated g)).map fun j => power window rfft (frame stream j) k).sum
  done : g.state = .DONE → g.frames_done = g.target_frames ∧ g.pump = .idle
  target : g.state ≠ .DONE → g.frames_done < g.target_frames ∨
    g.frames_done = g.target_frames ∧ g.pump = .finish
  room : g.state = .RUNNING → g.cap_idx < SPECTRAL_N
  behind : g.state = .ERROR → g.cap_idx = SPECTRAL_N

end pump

variable {window : Nat → K} {rfft : List K → List K} {g : Spectral K} {stream : List Nat}

theorem frame_snoc {j : Nat} (s : Nat) (h : SPECTRAL_N * (j + 1) ≤ stream.length) :
    frame (stream ++ [s]) j = frame stream j := by
  have hlen : SPECTRAL_N * j + SPECTRAL_N ≤ stream.length := by rwa [Nat.mul_succ] at h
  unfold frame
  rw [List.drop_append_of_le_length (by omega), List.take_append_of_le_length]
  rw [List.length_drop]
  omega

theorem powers_snoc {m : Nat} (s : Nat) (k : Nat) (h : SPECTRAL_N * m ≤ stream.length) :
    (List.range m).map (fun j => power window rfft (frame (stream ++ [s]) j) k) =
      (List.range m).map fun j => power window rfft (frame stream j) k := by
  apply List.map_congr_left
  intro j hj
  have hjm : j + 1 ≤ m := List.mem_range.mp hj
  have hle : SPECTRAL_N * (j + 1) ≤ SPECTRAL_N * m := Nat.mul_le_mul_left _ hjm
  rw [frame_snoc s (by omega)]

theorem map_store (buf : Nat → Nat) (idx s : Nat) :
    (List.range (idx + 1)).map (Function.update buf idx s) = (List.range idx).map buf ++ [s] := by
  rw [List.range_succ, List.map_append, List.map_singleton, Function.update_self]
  congr 1
  apply List.map_congr_left
  intro i hi
  rw [Function.update_of_ne (Nat.ne_of_lt (List.mem_range.mp hi))]

/-! ## The interrupt -/

/-- The interrupt stores into the buffer of the writer only, so the pump keeps what it holds. -/
theorem Holds.of_same {g' : Spectral K} (h : Holds window g) (hpump : g'.pump = g.pump)
    (hready : g'.frame_ready = g.frame_ready) (hwriter : g'.cap_writer = g.cap_writer)
    (hwork : g'.work = g.work) (hbuf : g'.cap_buf (!g.cap_writer) = g.cap_buf (!g.cap_writer)) :
    Holds window g' := by
  unfold Holds at h ⊢
  unfold buffer at h ⊢
  rw [hpump, hready, hwriter, hwork]
  cases hp : g.pump with
  | summing reader i sum =>
    rw [hp] at h
    obtain ⟨h1, rfl, h3, h4⟩ := h
    exact ⟨h1, rfl, h3, hbuf ▸ h4⟩
  | windowing reader i m =>
    rw [hp] at h
    obtain ⟨h1, rfl, h3, h4, h5⟩ := h
    exact ⟨h1, rfl, h3, hbuf ▸ h4, hbuf ▸ h5⟩
  | transform =>
    rw [hp] at h
    exact ⟨h.1, hbuf ▸ h.2⟩
  | select | clear =>
    rw [hp] at h
    exact h
  | idle | ready | count | finish => trivial

/-- A stored sample, before the interrupt looks whether the buffer is full. -/
theorem inv_store (s : Nat) (h : Inv window rfft g stream) {state : SpectralState}
    (hstate : state = .RUNNING ∧ g.cap_idx + 1 < SPECTRAL_N ∨
      state = .ERROR ∧ g.cap_idx + 1 = SPECTRAL_N) (hrun : g.state = .RUNNING) :
    Inv window rfft { g with
      state := state
      cap_buf := Function.update g.cap_buf g.cap_writer
        (Function.update (g.cap_buf g.cap_writer) g.cap_idx s)
      cap_idx := g.cap_idx + 1 } (stream ++ [s]) := by
  have hlen := h.length
  have hother : (!g.cap_writer) ≠ g.cap_writer := by cases g.cap_writer <;> decide
  have hmul := Nat.mul_add SPECTRAL_N (accumulated g) (pending g).toNat
  refine ⟨?_, ?_, ?_, fun hpending => ?_, fun k => ?_, ?_, fun _ => ?_, ?_, ?_⟩
  · exact h.holds.of_same rfl rfl rfl rfl (Function.update_of_ne hother _ _)
  · change (stream ++ [s]).length =
      SPECTRAL_N * (accumulated g + (pending g).toNat) + (g.cap_idx + 1)
    rw [List.length_append, hlen]
    rfl
  · change (List.range (g.cap_idx + 1)).map (Function.update g.cap_buf g.cap_writer _ _) =
      (stream ++ [s]).drop (SPECTRAL_N * (accumulated g + (pending g).toNat))
    rw [Function.update_self, map_store, h.writing, List.drop_append_of_le_length (by omega)]
  · change pending g = true at hpending
    change (List.range SPECTRAL_N).map (Function.update g.cap_buf g.cap_writer _ _) =
      frame (stream ++ [s]) (accumulated g)
    rw [Function.update_of_ne hother, frame_snoc s]
    · exact h.waiting hpending
    · rw [hpending] at hlen
      change SPECTRAL_N * (accumulated g + Bool.toNat true) ≤ _
      omega
  · change g.power_sum k = ((List.range (accumulated g)).map _).sum
    rw [powers_snoc s k (by omega)]
    exact h.power_sum k
  · rcases hstate with ⟨rfl, -⟩ | ⟨rfl, -⟩ <;> simp
  · exact h.target (by simp [hrun])
  · rcases hstate with ⟨rfl, hidx⟩ | ⟨rfl, -⟩
    · exact fun _ => hidx
    · simp
  · rcases hstate with ⟨rfl, -⟩ | ⟨rfl, hidx⟩
    · simp
    · exact fun _ => hidx

/-- The buffers change their parts. No frame waits then, so the pump holds nothing. -/
theorem inv_flip (s : Nat) (h : Inv window rfft g stream) (hrun : g.state = .RUNNING)
    (hfull : g.cap_idx + 1 = SPECTRAL_N) (hready : g.frame_ready = false) : Inv window rfft { g with
      cap_buf := Function.update g.cap_buf g.cap_writer
        (Function.update (g.cap_buf g.cap_writer) g.cap_idx s)
      cap_idx := 0
      cap_writer := !g.cap_writer
      frame_ready := true } (stream ++ [s]) := by
  have hholds := h.holds
  unfold Holds at hholds
  rw [hready] at hholds
  have hpending : pending g = false := by
    unfold pending
    cases g.pump <;> simp [hready]
  have hlen := h.length
  have hwriting := h.writing
  rw [hpending] at hlen hwriting
  simp only [Bool.toNat_false, Nat.add_zero] at hlen hwriting
  set g' : Spectral K := { g with
    cap_buf := Function.update g.cap_buf g.cap_writer
      (Function.update (g.cap_buf g.cap_writer) g.cap_idx s)
    cap_idx := 0
    cap_writer := !g.cap_writer
    frame_ready := true } with hg'
  have hpending' : pending g' = true := by
    unfold pending
    cases hp : g.pump with
    | clear =>
      rw [hp] at hholds
      cases hholds
    | _ => simp [hg', hp]
  have hacc : accumulated g' = accumulated g := rfl
  have hgrown : (stream ++ [s]).length = SPECTRAL_N * (accumulated g + 1) := by
    rw [List.length_append, hlen, List.length_singleton, Nat.mul_succ]
    omega
  have hfilled : (List.range SPECTRAL_N).map
      (Function.update (g.cap_buf g.cap_writer) g.cap_idx s) =
      stream.drop (SPECTRAL_N * accumulated g) ++ [s] := by
    rw [← hwriting, ← map_store, hfull]
  refine ⟨?_, ?_, ?_, fun _ => ?_, fun k => ?_, ?_, fun _ => ?_, ?_, ?_⟩
  · unfold Holds
    cases hp : g.pump with
    | summing | windowing | transform | select | clear => simp [hp] at hholds
    | idle | ready | count | finish => trivial
  · rw [hgrown, hacc, hpending']
    rfl
  · rw [hacc, hpending', Bool.toNat_true, ← hgrown, List.drop_length]
    rfl
  · change (List.range SPECTRAL_N).map (Function.update g.cap_buf g.cap_writer _ (!!g.cap_writer)) =
      frame (stream ++ [s]) (accumulated g)
    rw [Bool.not_not, Function.update_self, hfilled, frame,
      List.drop_append_of_le_length (by omega), List.take_of_length_le]
    rw [List.length_append, List.length_drop, List.length_singleton]
    omega
  · change g.power_sum k = ((List.range (accumulated g)).map _).sum
    rw [powers_snoc s k (by omega)]
    exact h.power_sum k
  · intro hdone
    change g.state = _ at hdone
    simp [hrun] at hdone
  · exact h.target (by simp [hrun])
  · exact fun _ => SPECTRAL_N_pos
  · intro herror
    change g.state = _ at herror
    simp [hrun] at herror

theorem inv_isr (reading : Nat) (h : Inv window rfft g stream) :
    Inv window rfft (spectral_periodic_isr reading g).1
      (stream ++ (spectral_periodic_isr reading g).2) := by
  unfold spectral_periodic_isr
  by_cases hrun : g.state ≠ .RUNNING
  · rw [if_pos hrun, List.append_nil]
    exact h
  · have hroom := h.room (not_not.mp hrun)
    rw [if_neg hrun]
    simp only
    by_cases hfull : g.cap_idx + 1 ≥ SPECTRAL_N
    · rw [if_pos hfull]
      cases hready : g.frame_ready with
      | true =>
        rw [if_pos rfl]
        have hinv := inv_store (reading &&& 0x3FFF) h (Or.inr ⟨rfl, by omega⟩) (not_not.mp hrun)
        rw [hready] at hinv
        exact hinv
      | false =>
        rw [if_neg (by simp)]
        exact inv_flip _ h (not_not.mp hrun) (by omega) hready
    · rw [if_neg hfull]
      have hinv := inv_store (reading &&& 0x3FFF) h (Or.inl ⟨not_not.mp hrun, by omega⟩)
        (not_not.mp hrun)
      exact hinv

/-! ## The pump -/

theorem Inv.carry {g' : Spectral K} (h : Inv window rfft g stream)
    (hacc : accumulated g' = accumulated g) (hpending : pending g' = pending g)
    (hcap : (g'.cap_idx, g'.cap_writer, g'.cap_buf, g'.power_sum) =
      (g.cap_idx, g.cap_writer, g.cap_buf, g.power_sum)) (hholds : Holds window g')
    (hdone : g'.state = .DONE → g'.frames_done = g'.target_frames ∧ g'.pump = .idle)
    (htarget : g'.state ≠ .DONE → g'.frames_done < g'.target_frames ∨
      g'.frames_done = g'.target_frames ∧ g'.pump = .finish)
    (hroom : g'.state = .RUNNING → g.cap_idx < SPECTRAL_N)
    (hbehind : g'.state = .ERROR → g.cap_idx = SPECTRAL_N) : Inv window rfft g' stream := by
  simp only [Prod.mk.injEq] at hcap
  obtain ⟨hidx, hwriter, hbuf, hpower⟩ := hcap
  refine ⟨hholds, ?_, ?_, ?_, ?_, hdone, htarget, hidx ▸ hroom, hidx ▸ hbehind⟩
  · rw [hacc, hpending, hidx]
    exact h.length
  · rw [hacc, hpending, hidx, hwriter, hbuf]
    exact h.writing
  · rw [hacc, hpending, buffer, hwriter, hbuf]
    exact h.waiting
  · rw [hacc, hpower]
    exact h.power_sum

/-- The pump neither has just taken a frame nor looks whether it was the last one. -/
def Plain : Pump K → Prop
  | .clear | .count | .finish => False
  | _ => True

theorem Inv.move (h : Inv window rfft g stream) (p : Pump K) (work : Nat → K)
    (hholds : Holds window { g with pump := p, work := work }) (hplain : Plain g.pump)
    (hp : Plain p) (hlive : g.state ≠ .DONE) :
    Inv window rfft { g with pump := p, work := work } stream := by
  refine h.carry ?_ ?_ rfl hholds (fun hdone => absurd hdone hlive) (fun _ => ?_) h.room h.behind
  · unfold accumulated
    cases p <;> cases hpump : g.pump <;> simp_all [Plain]
  · unfold pending
    cases p <;> cases hpump : g.pump <;> simp_all [Plain]
  · rcases h.target hlive with hlt | ⟨-, hfinish⟩
    · exact Or.inl hlt
    · rw [hfinish] at hplain
      cases hplain

theorem Inv.live (h : Inv window rfft g stream) (hpump : g.pump ≠ .idle) : g.state ≠ .DONE :=
  fun hdone => hpump (h.done hdone).2

theorem mapIdx_map_range {α β : Type} (n : Nat) (f : Nat → α) (op : Nat → α → β) :
    ((List.range n).map f).mapIdx op = (List.range n).map fun i => op i (f i) := by
  apply List.ext_getElem
  · simp
  · intro i h1 h2
    simp

theorem inv_transform (h : Inv window rfft g stream) (hpump : g.pump = .transform) :
    Inv window rfft (spectral_pump window rfft g) stream := by
  have hholds := h.holds
  unfold Holds at hholds
  rw [hpump] at hholds
  obtain ⟨hready, hwork⟩ := hholds
  have hpending : pending g = true := by simp [pending, hpump, hready]
  have hacc : accumulated g = g.frames_done := by simp [accumulated, hpump]
  have hlen := h.length
  have hwriting := h.writing
  have hpower := h.power_sum
  rw [hacc, hpending] at hlen hwriting
  rw [hacc] at hpower
  have hinput : (List.range SPECTRAL_N).map g.work =
      (frame stream g.frames_done).mapIdx fun i (s : Nat) =>
        ((s : K) - mean (frame stream g.frames_done)) * window i := by
    rw [← hacc, ← h.waiting hpending]
    conv_rhs => rw [buffer, mapIdx_map_range]
    exact List.map_congr_left fun i hi => hwork i (List.mem_range.mp hi)
  have hnext := h.live (by simp [hpump])
  unfold spectral_pump
  rw [hpump]
  refine ⟨hready, hlen, hwriting, fun hfalse => by simp [pending] at hfalse, fun k => ?_,
    fun hdone => absurd hdone hnext, fun _ => ?_, h.room, h.behind⟩
  · change g.power_sum k + magnitude (rfft ((List.range SPECTRAL_N).map g.work)) k =
      ((List.range (g.frames_done + 1)).map _).sum
    rw [List.range_succ, List.map_append, List.sum_append, hpower k, hinput]
    simp [power]
  · rcases h.target hnext with hlt | ⟨-, hfinish⟩
    · exact Or.inl hlt
    · rw [hpump] at hfinish
      cases hfinish

theorem inv_pump (h : Inv window rfft g stream) :
    Inv window rfft (spectral_pump window rfft g) stream := by
  have hholds := h.holds
  unfold Holds at hholds
  have hlive := h.live
  cases hpump : g.pump with
  | idle =>
    unfold spectral_pump
    rw [hpump]
    simp only
    by_cases hrun : g.state ≠ .RUNNING
    · rw [if_pos hrun]
      exact h
    · rw [if_neg hrun]
      exact h.move .ready g.work trivial (hpump ▸ trivial) trivial (by simp [not_not.mp hrun])
  | ready =>
    unfold spectral_pump
    rw [hpump] at hlive ⊢
    simp only
    by_cases hready : g.frame_ready = true
    · rw [if_pos hready]
      exact h.move .select g.work hready (hpump ▸ trivial) trivial (hlive nofun)
    · rw [if_neg hready]
      exact h.move .idle g.work trivial (hpump ▸ trivial) trivial (hlive nofun)
  | select =>
    unfold spectral_pump
    rw [hpump] at hholds hlive ⊢
    exact h.move (.summing (!g.cap_writer) 0 0) g.work ⟨hholds, rfl, Nat.zero_le _, rfl⟩
      (hpump ▸ trivial) trivial (hlive nofun)
  | summing reader i sum =>
    unfold spectral_pump
    rw [hpump] at hholds hlive ⊢
    obtain ⟨hready, hreader, hi, hsum⟩ := hholds
    simp only
    by_cases hlt : i < SPECTRAL_N
    · rw [if_pos hlt]
      refine h.move (.summing reader (i + 1) (sum + g.cap_buf reader i)) g.work ?_
        (hpump ▸ trivial) trivial (hlive nofun)
      exact ⟨hready, hreader, hlt, by simp [List.range_succ, hsum]⟩
    · rw [if_neg hlt]
      refine h.move (.windowing reader 0 (sum * (1 / SPECTRAL_N))) g.work ?_
        (hpump ▸ trivial) trivial (hlive nofun)
      refine ⟨hready, hreader, Nat.zero_le _, ?_, fun j hj => absurd hj (Nat.not_lt_zero j)⟩
      obtain rfl : i = SPECTRAL_N := by omega
      rw [hsum]
      rfl
  | windowing reader i m =>
    unfold spectral_pump
    rw [hpump] at hholds hlive ⊢
    obtain ⟨hready, hreader, hi, hm, hwork⟩ := hholds
    simp only
    by_cases hlt : i < SPECTRAL_N
    · rw [if_pos hlt]
      refine h.move (.windowing reader (i + 1) m) _ ?_ (hpump ▸ trivial) trivial (hlive nofun)
      refine ⟨hready, hreader, hlt, hm, fun j hj => ?_⟩
      rcases Nat.lt_succ_iff_lt_or_eq.mp hj with hj | rfl
      · simpa [Function.update_of_ne (Nat.ne_of_lt hj)] using hwork j hj
      · simp
    · rw [if_neg hlt]
      refine h.move .transform g.work ?_ (hpump ▸ trivial) trivial (hlive nofun)
      refine ⟨hready, fun j hj => ?_⟩
      rw [hwork j (by omega), hm, hreader]
      rfl
  | transform => exact inv_transform h hpump
  | clear =>
    unfold spectral_pump
    rw [hpump]
    have hlive := hlive (by simp [hpump])
    refine h.carry ?_ ?_ rfl trivial (fun hdone => absurd hdone hlive) (fun _ => ?_) h.room h.behind
    · simp [accumulated, hpump]
    · simp [pending, hpump]
    · simpa [hpump] using h.target hlive
  | count =>
    unfold spectral_pump
    rw [hpump]
    have hlive := hlive (by simp [hpump])
    have htarget := h.target hlive
    refine h.carry ?_ ?_ rfl trivial (fun hdone => absurd hdone hlive) (fun _ => ?_) h.room h.behind
    · simp [accumulated, hpump]
    · simp [pending, hpump]
    · simp [hpump] at htarget
      rcases Nat.lt_or_eq_of_le (Nat.succ_le_of_lt htarget) with hlt | heq
      · exact Or.inl hlt
      · exact Or.inr ⟨heq, rfl⟩
  | finish =>
    unfold spectral_pump
    rw [hpump]
    have hlive := hlive (by simp [hpump])
    have htarget := h.target hlive
    have hacc : g.frames_done = accumulated g := by simp [accumulated, hpump]
    have hpending : g.frame_ready = pending g := by simp [pending, hpump]
    simp only
    by_cases hdone : g.frames_done ≥ g.target_frames
    · rw [if_pos hdone]
      have heq : g.frames_done = g.target_frames := by
        rcases htarget with hlt | ⟨heq, -⟩
        · omega
        · exact heq
      exact h.carry hacc hpending rfl trivial (fun _ => ⟨heq, rfl⟩) (fun hne => absurd rfl hne)
        (by simp) (by simp)
    · rw [if_neg hdone]
      exact h.carry hacc hpending rfl trivial (fun h => absurd h hlive)
        (fun _ => Or.inl (Nat.lt_of_not_le hdone)) h.room h.behind

/-! ## Runs -/

theorem Inv.captured (h : Inv window rfft g stream) : Captured window rfft g stream := by
  refine ⟨h.power_sum, ?_, fun hbusy => ?_, ⟨fun hdone => ?_, fun hdone => ?_⟩, ?_, h.room,
    h.behind, fun hstop e => ?_⟩
  · rw [h.length]
    exact Nat.le_add_right _ _
  · have hpending : pending g = true := by
      have hholds := h.holds
      unfold Holds at hholds
      unfold Busy at hbusy
      unfold pending
      cases hp : g.pump with
      | idle | ready | clear | count | finish =>
        rw [hp] at hbusy
        exact absurd hbusy id
      | select =>
        rw [hp] at hholds
        exact hholds
      | summing | windowing | transform =>
        rw [hp] at hholds
        exact hholds.1
    exact ⟨hpending, h.waiting hpending⟩
  · obtain ⟨heq, hidle⟩ := h.done hdone
    exact ⟨heq, by simp [hidle]⟩
  · by_contra hlive
    rcases h.target hlive with hlt | ⟨-, hfinish⟩
    · omega
    · exact hdone.2 hfinish
  · by_cases hlive : g.state = .DONE
    · obtain ⟨heq, hidle⟩ := h.done hlive
      simp [accumulated, hidle, heq]
    · unfold accumulated
      rcases h.target hlive with hlt | ⟨heq, hfinish⟩
      · split <;> omega
      · simp [hfinish, heq]
  · cases e with
    | isr reading => simp [step, spectral_periodic_isr, hstop]
    | pump => rfl

theorem inv_step (h : Inv window rfft g stream) (e : Event) :
    Inv window rfft (step window rfft g e).1 (stream ++ (step window rfft g e).2) := by
  cases e with
  | isr reading => exact inv_isr reading h
  | pump =>
    simp only [step, List.append_nil]
    exact inv_pump h

theorem inv_start {fs_code channel target_frames : Nat}
    (hstart : spectral_start fs_code channel target_frames = some g) : Inv window rfft g [] := by
  unfold spectral_start at hstart
  split at hstart
  · cases hstart
  · split at hstart
    · cases hstart
    · split at hstart
      · cases hstart
      · rename_i htarget
        obtain rfl := Option.some.inj hstart
        have hpos : 0 < target_frames := by omega
        exact ⟨trivial, rfl, rfl, by simp [pending], by simp [accumulated], by simp,
          fun _ => Or.inl hpos, fun _ => SPECTRAL_N_pos, by simp⟩

/-- After a start, for every order of interrupts and steps of the pump: the sum has the power of
the first frames of the stream, whole and each once, the frame under work is not overwritten, and
the capture is done exactly after its frames. -/
theorem capture_hands_over {fs_code channel target_frames : Nat} {g : Spectral K}
    (window : Nat → K) (rfft : List K → List K)
    (hstart : spectral_start fs_code channel target_frames = some g) (es : List Event) :
    Captured window rfft (emits (step window rfft) g es).1 (emits (step window rfft) g es).2 := by
  apply Inv.captured
  induction es using List.reverseRecOn with
  | nil => exact inv_start hstart
  | append_singleton es e ih =>
    rw [emits_append]
    simpa [emits] using inv_step ih e

/-- The first reading of a capture of one frame. -/
theorem one_reading_is_captured :
    ∃ g : Spectral ℚ, spectral_start 1 0 1 = some g ∧
      Captured (fun _ => 1) id (emits (step (fun _ => 1) id) g [.isr 8192]).1
        (emits (step (fun _ => 1) id) g [.isr 8192]).2 :=
  ⟨_, rfl, @capture_hands_over ℚ _ 1 0 1 _ (fun _ => 1) id rfl [.isr 8192]⟩

end motioncore.ra4m1.spectral
