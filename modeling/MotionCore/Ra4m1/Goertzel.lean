-- The accounting of the Goertzel bank (`goertzel.c`). The recursion runs over any commutative
-- ring; the speed and the gate are computed in an ordered field. The pump is one step: an
-- interrupt inside it comes while its block is ready.
import Mathlib.Algebra.BigOperators.Group.List.Basic
import Mathlib.Algebra.Order.Field.Rat
import MotionCore.Lib.Runs

namespace motioncore.ra4m1.goertzel

open motioncore.machine

def GOERTZEL_MIN_BLOCK_N : Nat := 256
def GOERTZEL_BASE_FS_HZ : Nat := 20000
def GOERTZEL_ENC_TICKS_PER_REV : Nat := 4

inductive GoertzelState where
  | IDLE | RUNNING | ERROR
deriving DecidableEq, Repr

/-- What stays as it is while the bank runs. An `inject_rpm` that is not finite is none. -/
structure Config (F : Type) where
  fs_code : Nat
  block_n : Nat
  gate_enabled : Bool
  order_count : Nat
  accel_thresh_rpm_per_sec : F
  min_rpm : F
  inject_rpm : Option F
  order : Nat → F

structure Goertzel (F R : Type) where
  state : GoertzelState
  last_encoder_count : Int
  last_rpm : F
  rpm_change_rate : F
  gate_open : Bool
  coef : Nat → R
  s1 : Nat → R
  s2 : Nat → R
  mag2_sum : Nat → R
  sample_count : Nat
  block_ready : Bool
  n_blocks_accumulated : Nat
  n_blocks_total : Nat

inductive Event where
  | isr (reading : Nat)
  | pump (count_now : Int)
  | read (offset count : Nat) (reset : Bool)

/-- What a step does: it takes a sample, ends a block, or hands the sums out. -/
inductive Note (R : Type) where
  | sample (x : R)
  | block (coef : Nat → R) (gate_open : Bool)
  | read (reset : Bool) (out_f32 : List R) (out_n_blocks : Nat)

variable {F R : Type} [Field F] [LinearOrder F] [CommRing R] (two_cos : F → R) (cfg : Config F)

/-- A loop over the bins in use. -/
def bins {α : Type} (new old : Nat → α) : Nat → α :=
  fun k => if k < cfg.order_count then new k else old k

def fs_hz : F := ((GOERTZEL_BASE_FS_HZ / cfg.fs_code : Nat) : F)

/-- `two_cos` is twice the cosine of a share of the full turn. -/
def goertzel_refresh_coefs (rpm : F) (coef : Nat → R) : Nat → R :=
  bins cfg (fun k =>
    let nyq := fs_hz cfg / (2 : Nat)
    let f_k := cfg.order k * (rpm / 60)
    let f_k := if f_k ≤ 0 then 0 else f_k
    let f_k := if nyq ≤ f_k then nyq else f_k
    two_cos (f_k / fs_hz cfg)) coef

def goertzel_start (g : Goertzel F R) : Option (Goertzel F R) :=
  if g.state = .RUNNING then none
  else if cfg.order_count = 0 then none
  else if cfg.block_n < GOERTZEL_MIN_BLOCK_N then none
  else some {
    state := .RUNNING
    last_encoder_count := 0
    last_rpm := 0
    rpm_change_rate := 0
    gate_open := false
    coef := goertzel_refresh_coefs two_cos cfg 0 g.coef
    s1 := bins cfg (fun _ => 0) g.s1
    s2 := bins cfg (fun _ => 0) g.s2
    mag2_sum := bins cfg (fun _ => 0) g.mag2_sum
    sample_count := 0
    block_ready := false
    n_blocks_accumulated := 0
    n_blocks_total := 0 }

def goertzel_periodic_isr (reading : Nat) (g : Goertzel F R) : Goertzel F R × List (Note R) :=
  if g.state ≠ .RUNNING then (g, [])
  else
    let x : R := (reading &&& 0x3FFF : Nat)
    let sample_count := (g.sample_count + 1) % 2 ^ 32
    ({ g with
        s1 := bins cfg (fun k => x + g.coef k * g.s1 k - g.s2 k) g.s1
        s2 := bins cfg g.s1 g.s2
        sample_count := sample_count
        block_ready := if sample_count ≥ cfg.block_n then true else g.block_ready }, [.sample x])

/-- The speed of the block that ends, and whether the gate is open. -/
def rpm_gate (count_now : Int) (g : Goertzel F R) : F × F × Bool :=
  let delta_ticks := count_now - g.last_encoder_count
  let block_t_sec := cfg.block_n / fs_hz cfg
  let rpm_enc := (delta_ticks : F) / GOERTZEL_ENC_TICKS_PER_REV / block_t_sec * 60
  let rpm_now := cfg.inject_rpm.getD rpm_enc
  let rpm_change_rate := (rpm_now - g.last_rpm) / block_t_sec
  (rpm_now, rpm_change_rate,
    !(cfg.gate_enabled && (decide (rpm_now < cfg.min_rpm) ||
      decide (cfg.accel_thresh_rpm_per_sec < |rpm_change_rate|))))

def magnitude (c s1 s2 : R) : R := s1 * s1 + s2 * s2 - c * s1 * s2

def goertzel_pump (count_now : Int) (g : Goertzel F R) : Goertzel F R × List (Note R) :=
  if g.state ≠ .RUNNING ∨ g.block_ready = false then (g, [])
  else
    let (rpm_now, rpm_change_rate, gate) := rpm_gate cfg count_now g
    -- The first block is a warm-up.
    let will_accumulate := gate && decide (g.n_blocks_total ≠ 0)
    ({ g with
        last_encoder_count := count_now
        last_rpm := rpm_now
        rpm_change_rate := rpm_change_rate
        gate_open := gate
        mag2_sum := bins cfg (fun k =>
          if will_accumulate then g.mag2_sum k + magnitude (g.coef k) (g.s1 k) (g.s2 k)
          else g.mag2_sum k) g.mag2_sum
        n_blocks_accumulated :=
          if will_accumulate then (g.n_blocks_accumulated + 1) % 2 ^ 32
          else g.n_blocks_accumulated
        n_blocks_total := (g.n_blocks_total + 1) % 2 ^ 32
        coef := goertzel_refresh_coefs two_cos cfg rpm_now g.coef
        s1 := bins cfg (fun _ => 0) g.s1
        s2 := bins cfg (fun _ => 0) g.s2
        sample_count := 0
        block_ready := false }, [.block g.coef gate])

def goertzel_read (offset count : Nat) (reset : Bool) (g : Goertzel F R) :
    Goertzel F R × List (Note R) :=
  if cfg.order_count ≤ offset then (g, [.read false [] 0])
  else
    let n := min count (cfg.order_count - offset)
    let out_f32 := (List.range n).map fun i => g.mag2_sum (offset + i)
    (if reset then
        { g with
          mag2_sum := bins cfg (fun _ => 0) g.mag2_sum
          n_blocks_accumulated := 0
          n_blocks_total := 0 }
      else g, [.read reset out_f32 g.n_blocks_accumulated])

def step (g : Goertzel F R) : Event → Goertzel F R × List (Note R)
  | .isr reading => goertzel_periodic_isr cfg reading g
  | .pump count_now => goertzel_pump two_cos cfg count_now g
  | .read offset count reset => goertzel_read cfg offset count reset g

/-! ## Blocks -/

structure Block (R : Type) where
  samples : List R
  coef : Nat → R
  gate_open : Bool

/-- The blocks that ended, and the samples since the last one. -/
def blocks (log : List (Note R)) : List (Block R) × List R :=
  log.foldl (fun acc e =>
    match e with
    | .sample x => (acc.1, acc.2 ++ [x])
    | .block coef gate_open => (acc.1 ++ [⟨acc.2, coef, gate_open⟩], [])
    | .read _ _ _ => acc) ([], [])

/-- The recursion over the samples of a block. -/
def recursion (c : R) (samples : List R) : R × R :=
  samples.foldl (fun s x => (x + c * s.1 - s.2, s.1)) (0, 0)

def Block.magnitude (b : Block R) (k : Nat) : R :=
  let s := recursion (b.coef k) b.samples
  goertzel.magnitude (b.coef k) s.1 s.2

/-- The blocks after the first one whose gate was open. -/
def counted (log : List (Note R)) : List (Block R) :=
  (blocks log).1.tail.filter Block.gate_open

/-- What the resetting reads handed out of a bin. -/
def delivered (log : List (Note R)) (k : Nat) : R :=
  (log.map fun e => match e with
    | .read true out_f32 _ => out_f32.getD k 0
    | _ => 0).sum

def deliveredBlocks (log : List (Note R)) : Nat :=
  (log.map fun e => match e with
    | .read true _ n => n
    | _ => 0).sum

/-- Blocks are whole, and the resetting reads with what is left for the next one have each block
that counts once. -/
structure Accounted (g : Goertzel F R) (log : List (Note R)) : Prop where
  whole : ∀ b ∈ (blocks log).1, b.samples.length = cfg.block_n
  sums : ∀ k < cfg.order_count, delivered log k + g.mag2_sum k =
    ((counted log).map fun b => b.magnitude k).sum
  counts : deliveredBlocks log + g.n_blocks_accumulated = (counted log).length

/-- No sample comes while a block waits for the pump; only the first block ends, with its gate
open, while the counter that marks it is zero; no counter overflows; and a read that resets
takes all bins. -/
def InTime (g : Goertzel F R) (log : List (Note R)) : Event → Prop
  | .isr _ => g.block_ready = false
  | .pump count_now => g.block_ready = true → (rpm_gate cfg count_now g).2.2 = true →
    (g.n_blocks_total = 0 → (blocks log).1 = []) ∧ g.n_blocks_accumulated + 1 < 2 ^ 32
  | .read offset count reset => reset = true → cfg.order_count ≤ offset ∨
    offset = 0 ∧ cfg.order_count ≤ count

/-- The runs from a start whose steps all are in time. -/
inductive Run : Goertzel F R → List (Note R) → Prop where
  | start {g₀ g : Goertzel F R} (hblock : cfg.block_n ≤ 16384)
      (hstart : goertzel_start two_cos cfg g₀ = some g) : Run g []
  | step {g : Goertzel F R} {log : List (Note R)} (e : Event) (h : Run g log)
      (htime : InTime cfg g log e) :
      Run (step two_cos cfg g e).1 (log ++ (step two_cos cfg g e).2)

/-! ## The invariant -/

variable {two_cos cfg} {g : Goertzel F R} {log : List (Note R)}

structure Inv (cfg : Config F) (g : Goertzel F R) (log : List (Note R)) : Prop where
  running : g.state = .RUNNING
  length : (blocks log).2.length = g.sample_count
  ready : g.block_ready = true ∧ g.sample_count = cfg.block_n ∨
    g.block_ready = false ∧ g.sample_count < cfg.block_n
  bound : cfg.block_n < 2 ^ 32 ∧ 0 < cfg.block_n
  recursive : ∀ k < cfg.order_count, recursion (g.coef k) (blocks log).2 = (g.s1 k, g.s2 k)
  first : (blocks log).1 = [] → g.n_blocks_total = 0
  accounted : Accounted cfg g log

omit [CommRing R] in
theorem blocks_snoc (log : List (Note R)) (e : Note R) : blocks (log ++ [e]) = match e with
      | .sample x => ((blocks log).1, (blocks log).2 ++ [x])
      | .block coef gate_open => ((blocks log).1 ++ [⟨(blocks log).2, coef, gate_open⟩], [])
      | .read _ _ _ => blocks log := by
  rw [blocks, List.foldl_append]
  rfl

omit [Field F] [LinearOrder F] in
theorem inv_isr (reading : Nat) (h : Inv cfg g log) (hready : g.block_ready = false) :
    Inv cfg (goertzel_periodic_isr cfg reading g).1
      (log ++ (goertzel_periodic_isr cfg reading g).2) := by
  obtain ⟨hfull, -⟩ | ⟨-, hroom⟩ := h.ready
  · rw [hready] at hfull
    cases hfull
  have hbound := h.bound.1
  have hmod : (g.sample_count + 1) % 2 ^ 32 = g.sample_count + 1 := Nat.mod_eq_of_lt (by omega)
  unfold goertzel_periodic_isr
  rw [if_neg (by simp [h.running])]
  simp only [hmod, hready]
  refine ⟨h.running, ?_, ?_, h.bound, fun k hk => ?_, ?_, ?_, fun k hk => ?_, ?_⟩
  · simp [blocks_snoc, h.length]
  · by_cases hfull : g.sample_count + 1 ≥ cfg.block_n
    · exact Or.inl ⟨if_pos hfull, Nat.le_antisymm hroom hfull⟩
    · exact Or.inr ⟨if_neg hfull, Nat.lt_of_not_le hfull⟩
  · have hrec := h.recursive k hk
    simp only [blocks_snoc, bins, if_pos hk]
    rw [recursion, List.foldl_append, ← recursion, hrec]
    rfl
  · simpa [blocks_snoc] using h.first
  · simpa [blocks_snoc] using h.accounted.whole
  · simpa [blocks_snoc, counted, delivered] using h.accounted.sums k hk
  · simpa [blocks_snoc, counted, deliveredBlocks] using h.accounted.counts

theorem inv_pump (count_now : Int) (h : Inv cfg g log)
    (htime : InTime cfg g log (.pump count_now)) : Inv cfg (goertzel_pump two_cos cfg count_now g).1
      (log ++ (goertzel_pump two_cos cfg count_now g).2) := by
  unfold goertzel_pump
  by_cases hwait : g.state ≠ .RUNNING ∨ g.block_ready = false
  · rw [if_pos hwait]
    simpa using h
  rw [if_neg hwait]
  have hready : g.block_ready = true := by simpa [h.running] using hwait
  have hlength : (blocks log).2.length = cfg.block_n := by
    rcases h.ready with ⟨-, hcount⟩ | ⟨hnot, -⟩
    · rw [h.length, hcount]
    · rw [hready] at hnot
      cases hnot
  have hlive := htime hready
  generalize rpm_gate cfg count_now g = r at hlive
  obtain ⟨rpm_now, rpm_change_rate, gate⟩ := r
  simp only at hlive ⊢
  -- A block counts exactly when the code accumulates it.
  have hwill : (gate && decide (g.n_blocks_total ≠ 0)) = true ↔
      gate = true ∧ (blocks log).1 ≠ [] := by
    rw [Bool.and_eq_true, decide_eq_true_iff]
    refine and_congr_right fun hgate => ⟨fun hne hnil => hne (h.first hnil), ?_⟩
    exact fun hne hzero => hne ((hlive hgate).1 hzero)
  have hcounted : counted (log ++ [.block g.coef gate]) = counted log ++
      if (gate && decide (g.n_blocks_total ≠ 0)) = true then
        [⟨(blocks log).2, g.coef, gate⟩] else [] := by
    unfold counted
    simp only [blocks_snoc, hwill]
    cases hnil : (blocks log).1 with
    | nil => simp
    | cons b bs => cases gate <;> simp [List.filter_append]
  refine ⟨h.running, ?_, Or.inr ⟨rfl, h.bound.2⟩, h.bound, fun k hk => ?_, fun hnil => ?_, ?_,
    fun k hk => ?_, ?_⟩
  · simp [blocks_snoc]
  · simp [blocks_snoc, bins, hk, recursion]
  · simp [blocks_snoc] at hnil
  · intro b hb
    simp only [blocks_snoc, List.mem_append, List.mem_singleton] at hb
    rcases hb with hb | rfl
    · exact h.accounted.whole b hb
    · exact hlength
  · have hsum := h.accounted.sums k hk
    have hdelivered : delivered (log ++ [.block g.coef gate]) k = delivered log k := by
      simp [delivered]
    simp only [hcounted, hdelivered, bins, if_pos hk]
    split
    · rw [List.map_append, List.sum_append, ← hsum, ← add_assoc]
      simp [Block.magnitude, h.recursive k hk]
    · simpa using hsum
  · have hcount := h.accounted.counts
    have hdelivered : deliveredBlocks (log ++ [.block g.coef gate]) = deliveredBlocks log := by
      simp [deliveredBlocks]
    simp only [hcounted, hdelivered]
    split
    · rename_i hacc
      have hroom := (hlive (hwill.mp hacc).1).2
      rw [Nat.mod_eq_of_lt hroom, List.length_append, ← hcount]
      rfl
    · simpa using hcount

omit [Field F] [LinearOrder F] in
theorem Inv.handed (h : Inv cfg g log) (out_f32 : List R) (n : Nat) :
    Inv cfg g (log ++ [.read false out_f32 n]) := by
  refine ⟨h.running, ?_, h.ready, h.bound, ?_, ?_, ?_, fun k hk => ?_, ?_⟩
  · simpa [blocks_snoc] using h.length
  · simpa [blocks_snoc] using h.recursive
  · simpa [blocks_snoc] using h.first
  · simpa [blocks_snoc] using h.accounted.whole
  · simpa [blocks_snoc, counted, delivered] using h.accounted.sums k hk
  · simpa [blocks_snoc, counted, deliveredBlocks] using h.accounted.counts

def oneBin : Config ℚ := ⟨1, 256, false, 1, 0, 0, none, fun _ => 1⟩

end motioncore.ra4m1.goertzel
