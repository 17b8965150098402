-- Scratch cells: a quad writes them from the frame upward and reads them from the top of the stack
-- downward. When the two meet.
import MotionCore.Lib.Runs
import MotionCore.Quads.Reads

namespace motioncore.quads

open dsl.S_EXPR_PARAM

variable {w : Nat}

/-! ## Frames as the engine enters them -/

/-- The zeros that `se_frame_allocate` pushes for the scratch cells. -/
def Stack.push_zeros (stack : Stack w) : Nat → Option (Stack w)
  | 0 => some stack
  | n + 1 => (stack.push ⟨INT, 0⟩).bind fun stack => stack.push_zeros n

/-- The two ways to a frame. The scratch depth of a call is known to the DSL only. -/
inductive Entry where
  | se_frame_allocate (num_params num_locals scratch_depth : Nat)
  | se_call (num_params num_locals scratch_depth : Nat)
deriving DecidableEq

def Entry.scratch_depth : Entry → Nat
  | .se_frame_allocate _ _ scratch_depth | .se_call _ _ scratch_depth => scratch_depth

/-- The frame is pushed. A call first pops the number of parameters that were passed, which must
be the declared one. -/
def Entry.enter (entry : Entry) (stack : Stack w) : Option (Stack w) :=
  match entry with
  | .se_frame_allocate num_params num_locals scratch_depth => do
    let stack ← stack.push_frame num_params num_locals
    stack.push_zeros scratch_depth
  | .se_call num_params num_locals _ => do
    let (count_param, stack) ← stack.pop
    if count_param.bits.toNat % 65536 = num_params then stack.push_frame num_params num_locals
    else none

/-! ## The law -/

/-- A value that is written to a scratch cell below the depth is read there, and no other scratch
cell below the depth, no local and no parameter has changed. -/
structure ScratchWorks (F : FloatUnit w) (inst : Inst w) (depth : Nat) : Prop where
  own : ∀ i < depth, ∀ is_f val inst', quad_write F is_f inst (.stack_tos i) val = some inst' →
    seen F is_f inst' (.stack_tos i) = some val
  others : ∀ i < depth, ∀ j < depth, j ≠ i → ∀ is_f val inst',
    quad_write F is_f inst (.stack_tos i) val = some inst' →
    ∀ is_f', seen F is_f' inst' (.stack_tos j) = seen F is_f' inst (.stack_tos j)
  locals : ∀ i < depth, ∀ is_f val inst', quad_write F is_f inst (.stack_tos i) val = some inst' →
    ∀ is_f' index, seen F is_f' inst' (.stack_local index) = seen F is_f' inst (.stack_local index)

section

variable {F : FloatUnit w} {inst inst' : Inst w} {frame : Frame} {is_f : Bool} {val : BitVec w}

def topBits (stack : Stack w) (offset : Nat) : BitVec w :=
  ((stack.peek_tos offset).map Cell.bits).getD 0

@[simp]
theorem seen_tos (is_f : Bool) (offset : Nat) :
    seen F is_f inst (.stack_tos offset) = some (topBits inst.stack offset) := by
  cases is_f <;> rfl

@[simp]
theorem seen_local (is_f : Bool) (index : Nat) : seen F is_f inst (.stack_local index) =
      some (((inst.stack.get_local index).map Cell.bits).getD 0) := by
  cases is_f <;> rfl

theorem write_tos (is_f : Bool) (offset : Nat) (val : BitVec w) :
    quad_write F is_f inst (.stack_tos offset) val =
      (inst.stack.poke offset ⟨if is_f then FLOAT else INT, val⟩).map
        fun stack => { inst with stack := stack } := by
  cases is_f <;> rfl

variable {stack : Stack w}

/-- Where a frame is, a write to a scratch cell goes through, or ends where the stack ends. -/
theorem poke_eq (hframe : stack.frames.head? = some frame) (offset : Nat) (val : Cell w) :
    stack.poke offset val = some (
      if stack.capacity ≤ Stack.scratchIndex frame offset then stack
      else { stack with
        data := Function.update stack.data (Stack.scratchIndex frame offset) val
        sp := max stack.sp (Stack.scratchIndex frame offset + 1) }) := by
  obtain ⟨frames, hframes⟩ := List.head?_eq_some_iff.mp hframe
  simp only [Stack.poke, hframes]
  split
  · rfl
  · congr 2
    split <;> omega

/-- The read of an offset after a write that the stack has room for. -/
theorem topBits_update (stack : Stack w) (idx : Nat) (p : Cell w) (offset : Nat) :
    topBits { stack with data := Function.update stack.data idx p, sp := max stack.sp (idx + 1) }
        offset =
      if max stack.sp (idx + 1) ≤ offset then 0
      else if max stack.sp (idx + 1) = idx + 1 + offset then p.bits
      else (stack.data (max stack.sp (idx + 1) - 1 - offset)).bits := by
  simp only [topBits, Stack.peek_tos]
  split
  · rfl
  · simp only [Option.map_some, Option.getD_some, Function.update_apply]
    split <;> split <;> first | rfl | omega

theorem exists_ne_bits (hw : 0 < w) (x : BitVec w) : ∃ val, val ≠ x :=
  ⟨x + 1, fun h => by
    have hone : (1 : BitVec w) = 0 := by simpa using h
    have hnat := congrArg BitVec.toNat hone
    simp at hnat
    omega⟩

/-- A scratch cell is read back when it is inside the stack and as far below the top as it is
above the frame. -/
theorem own_iff (hw : 0 < w) (hframe : inst.stack.frames.head? = some frame) (i : Nat) :
    (∀ is_f val inst', quad_write F is_f inst (.stack_tos i) val = some inst' →
      seen F is_f inst' (.stack_tos i) = some val) ↔
      Stack.scratchIndex frame i < inst.stack.capacity ∧
        max inst.stack.sp (Stack.scratchIndex frame i + 1) = Stack.scratchIndex frame i + 1 + i := by
  simp only [write_tos, poke_eq hframe, Option.map_some, Option.some_inj, seen_tos,
    forall_eq']
  constructor
  · intro h
    by_cases hcap : inst.stack.capacity ≤ Stack.scratchIndex frame i
    · obtain ⟨val, hval⟩ := exists_ne_bits hw (topBits inst.stack i)
      have hread := h false val
      rw [if_pos hcap] at hread
      exact absurd hread.symm hval
    · refine ⟨by omega, ?_⟩
      by_contra hplace
      obtain ⟨val, hval⟩ := exists_ne_bits hw
        (if max inst.stack.sp (Stack.scratchIndex frame i + 1) ≤ i then 0
        else (inst.stack.data
          (max inst.stack.sp (Stack.scratchIndex frame i + 1) - 1 - i)).bits)
      have hread := h false val
      rw [if_neg hcap, topBits_update, if_neg hplace] at hread
      exact hval hread.symm
  · rintro ⟨hcap, hplace⟩ is_f val
    rw [if_neg (by omega), topBits_update, if_neg (by omega), if_pos hplace]

variable {stack' : Stack w}

theorem get_local_of_below (hframe : stack.frames.head? = some frame)
    (hlayout : frame.scratch_base = frame.base_ptr + frame.num_params + frame.num_locals)
    (hframes : stack'.frames = stack.frames)
    (hdata : ∀ i < frame.scratch_base, stack'.data i = stack.data i) (index : Nat) :
    stack'.get_local index = stack.get_local index := by
  obtain ⟨frames, hcons⟩ := List.head?_eq_some_iff.mp hframe
  simp only [Stack.get_local, Stack.localIndex, hframes, hcons]
  split
  · rfl
  · rw [Option.map_some, Option.map_some, hdata _ (by omega)]

/-- In any state of a frame scratch cells work for the depth 0, and for the depth 1 where the
stack has room for the cell and nothing is on the stack above it. -/
theorem scratch_works_at_iff (hw : 0 < w) (hframed : inst.stack.Framed)
    (hframe : inst.stack.frames.head? = some frame) (depth : Nat) :
    ScratchWorks F inst depth ↔ depth = 0 ∨ (depth = 1 ∧
      inst.stack.sp ≤ frame.scratch_base + 1 ∧ frame.scratch_base < inst.stack.capacity) := by
  have hmem : frame ∈ inst.stack.frames := List.mem_of_mem_head? hframe
  obtain ⟨hlayout, hbase⟩ := hframed.frame frame hmem
  have hcap := hframed.capacity_le
  have hzero : Stack.scratchIndex frame 0 = frame.scratch_base := by
    rw [Stack.scratchIndex, Nat.add_zero, Nat.mod_eq_of_lt (by omega)]
  constructor
  · intro h
    by_cases hd : depth = 0
    · exact Or.inl hd
    · obtain ⟨hroom, htop⟩ := (own_iff hw hframe 0).mp (h.own 0 (by omega))
      rw [hzero] at hroom htop
      refine Or.inr ⟨?_, by omega, hroom⟩
      by_contra hone
      have hfirst : Stack.scratchIndex frame 1 = frame.scratch_base + 1 := by
        rw [Stack.scratchIndex, Nat.mod_eq_of_lt (by omega)]
      obtain ⟨-, htop'⟩ := (own_iff hw hframe 1).mp (h.own 1 (by omega))
      rw [hfirst] at htop'
      omega
  · rintro (rfl | ⟨rfl, hsp, hroom⟩)
    · exact ⟨nofun, nofun, nofun⟩
    · refine ⟨fun i hi => ?_, fun i hi j hj hne => absurd hne (by omega), fun i hi => ?_⟩
      · obtain rfl : i = 0 := by omega
        apply (own_iff hw hframe 0).mpr
        rw [hzero]
        omega
      · obtain rfl : i = 0 := by omega
        intro is_f val inst' hwrite is_f' index
        simp only [write_tos, poke_eq hframe, hzero, Option.map_some, Option.some_inj] at hwrite
        rw [if_neg (by omega)] at hwrite
        have hbelow : ∀ j < frame.scratch_base, inst'.stack.data j = inst.stack.data j := by
          intro j hj
          rw [← hwrite]
          exact Function.update_of_ne (by omega) _ _
        have hframes : inst'.stack.frames = inst.stack.frames := by rw [← hwrite]
        rw [seen_local, seen_local, get_local_of_below hframe hlayout hframes hbelow]

/-! ## Quads in a frame -/

/-- A write that is neither to a scratch cell nor a push leaves the frames and the top. -/
theorem write_elsewhere {dest : Operand w} (htos : ∀ i, dest ≠ .stack_tos i)
    (hpush : dest ≠ .stack_push) (h : quad_write F is_f inst dest val = some inst') :
    inst'.stack.frames = inst.stack.frames ∧ inst'.stack.capacity = inst.stack.capacity ∧
      inst'.stack.sp = inst.stack.sp := by
  have hcell : ∀ p : Cell w, write_cell inst p dest = some inst' →
      inst'.stack.frames = inst.stack.frames ∧ inst'.stack.capacity = inst.stack.capacity ∧
        inst'.stack.sp = inst.stack.sp := by
    intro p h
    cases dest with
    | stack_tos i => exact absurd rfl (htos i)
    | stack_push => exact absurd rfl hpush
    | stack_local index =>
      cases h
      simp only [Stack.set_local]
      split <;> exact ⟨rfl, rfl, rfl⟩
    | _ =>
      cases h
      exact ⟨rfl, rfl, rfl⟩
  cases is_f with
  | false =>
    simp only [quad_write, Bool.false_eq_true, if_false, quad_write_int] at h
    split at h
    · split at h
      · cases h
        exact ⟨rfl, rfl, rfl⟩
      · split at h <;> cases h <;> exact ⟨rfl, rfl, rfl⟩
    · exact hcell _ h
  | true =>
    simp only [quad_write, if_true, quad_write_float] at h
    split at h
    · split at h
      · cases h
        exact ⟨rfl, rfl, rfl⟩
      · split at h <;> cases h <;> exact ⟨rfl, rfl, rfl⟩
    · exact hcell _ h

/-- The quad pushes nothing, and its scratch cell is below the depth. -/
def InFrame (depth : Nat) (q : Quad w) : Prop :=
  q.dest ≠ .stack_push ∧ ∀ i, q.dest = .stack_tos i → i < depth

/-- The state of a frame with one scratch cell and nothing above it. -/
structure OneScratch (frame : Frame) (inst : Inst w) : Prop where
  framed : inst.stack.Framed
  head : inst.stack.frames.head? = some frame
  sp : inst.stack.sp ≤ frame.scratch_base + 1
  room : frame.scratch_base < inst.stack.capacity

theorem OneScratch.write (h : OneScratch frame inst) {dest : Operand w}
    (hpush : dest ≠ .stack_push) (hdepth : ∀ i, dest = .stack_tos i → i < 1)
    (hwrite : quad_write F is_f inst dest val = some inst') : OneScratch frame inst' := by
  have hsp := h.sp
  have hroom := h.room
  have hcap := h.framed.capacity_le
  by_cases htos : ∃ i, dest = .stack_tos i
  · obtain ⟨i, rfl⟩ := htos
    obtain rfl : i = 0 := by
      have hi := hdepth i rfl
      omega
    have hzero : Stack.scratchIndex frame 0 = frame.scratch_base := by
      rw [Stack.scratchIndex, Nat.add_zero, Nat.mod_eq_of_lt (by omega)]
    simp only [write_tos, poke_eq h.head, hzero, Option.map_some, Option.some_inj] at hwrite
    rw [if_neg (by omega)] at hwrite
    subst hwrite
    refine ⟨⟨?_, hcap, h.framed.frame⟩, h.head, ?_, hroom⟩
    · simp only
      omega
    · simp only
      omega
  · obtain ⟨hframes, hcapacity, htop⟩ :=
      write_elsewhere (fun i hi => htos ⟨i, hi⟩) hpush hwrite
    refine ⟨⟨?_, ?_, ?_⟩, ?_, ?_, ?_⟩
    · rw [htop, hcapacity]
      exact h.framed.sp_le
    · rwa [hcapacity]
    · rw [hframes, hcapacity]
      exact h.framed.frame
    · rw [hframes]
      exact h.head
    · rwa [htop]
    · rwa [hcapacity]

theorem OneScratch.dropped (h : OneScratch frame inst) (k : Nat) :
    OneScratch frame (inst.dropped k) := by
  have hsp := h.sp
  have hle := h.framed.sp_le
  refine ⟨⟨?_, h.framed.capacity_le, h.framed.frame⟩, h.head, ?_, h.room⟩
  · simp only [Inst.dropped]
    omega
  · simp only [Inst.dropped]
    omega

theorem OneScratch.step (h : OneScratch frame inst) {q : Quad w} (hq : InFrame 1 q)
    (hrun : se_quad F q inst = some inst') : OneScratch frame inst' := by
  obtain ⟨val, hwrite, -⟩ := se_quad_writes hrun
  exact (h.dropped _).write hq.1 hq.2 hwrite

/-! ## Entering a frame -/

theorem push_frame_spec (hframed : stack.Framed) {num_params num_locals : Nat}
    (h : stack.push_frame num_params num_locals = some stack') :
    stack'.Framed ∧ ∃ frame, stack'.frames.head? = some frame ∧ stack'.sp = frame.scratch_base := by
  unfold Stack.push_frame at h
  split at h
  · cases h
  split at h
  · cases h
  split at h
  · cases h
  · next hroom hparams =>
    cases h
    refine ⟨⟨by simp only [Stack.zeroed]; omega, hframed.capacity_le, ?_⟩, _, rfl, rfl⟩
    intro frame hframe
    rcases List.mem_cons.mp hframe with rfl | hframe
    · simp only [Stack.zeroed]
      omega
    · exact hframed.frame frame hframe

theorem push_spec (hframed : stack.Framed) {p : Cell w} (h : stack.push p = some stack') :
    stack'.Framed ∧ stack'.frames = stack.frames ∧ stack'.sp = stack.sp + 1 := by
  unfold Stack.push at h
  split at h
  · cases h
  · cases h
    refine ⟨⟨?_, hframed.capacity_le, hframed.frame⟩, rfl, rfl⟩
    simp only
    omega

theorem push_zeros_spec (hframed : stack.Framed) {n : Nat} (h : stack.push_zeros n = some stack') :
    stack'.Framed ∧ stack'.frames = stack.frames ∧ stack'.sp = stack.sp + n := by
  induction n generalizing stack with
  | zero =>
    cases h
    exact ⟨hframed, rfl, rfl⟩
  | succ n ih =>
    obtain ⟨stack₁, hpush, h⟩ := Option.bind_eq_some_iff.mp h
    obtain ⟨hframed₁, hframes₁, hsp₁⟩ := push_spec hframed hpush
    obtain ⟨hframed', hframes, hsp⟩ := ih hframed₁ h
    exact ⟨hframed', by rw [hframes, hframes₁], by omega⟩

/-- The stack of a fresh frame ends above its scratch cells, or below them. -/
theorem enter_spec (hframed : stack.Framed) {entry : Entry} (h : entry.enter stack = some stack') :
    stack'.Framed ∧ ∃ frame, stack'.frames.head? = some frame ∧
      stack'.sp ≤ frame.scratch_base + entry.scratch_depth := by
  cases entry with
  | se_frame_allocate num_params num_locals scratch_depth =>
    obtain ⟨stack₁, hframe, h⟩ := Option.bind_eq_some_iff.mp h
    obtain ⟨hframed₁, frame, hhead, hsp⟩ := push_frame_spec hframed hframe
    obtain ⟨hframed', hframes, hsp'⟩ := push_zeros_spec hframed₁ h
    refine ⟨hframed', frame, by rw [hframes, hhead], ?_⟩
    rw [hsp', hsp, Entry.scratch_depth]
  | se_call num_params num_locals scratch_depth =>
    obtain ⟨⟨count_param, stack₁⟩, hpop, h⟩ := Option.bind_eq_some_iff.mp h
    have hframed₁ : stack₁.Framed := by
      unfold Stack.pop at hpop
      split at hpop
      · cases hpop
      · cases hpop
        have hle := hframed.sp_le
        exact ⟨by simp only; omega, hframed.capacity_le, hframed.frame⟩
    simp only at h
    split at h
    · obtain ⟨hframed', frame, hhead, hsp⟩ := push_frame_spec hframed₁ h
      exact ⟨hframed', frame, hhead, by omega⟩
    · cases h

/-- In every run of quads in a frame that was entered either way, scratch cells work when the
declared depth is 0, or 1 with room for the cell. In any state of a frame they do when the depth
is 0, or 1 with nothing on the stack above the cell. -/
theorem scratch_works_iff (hw : 0 < w) (F : FloatUnit w) (inst : Inst w)
    (hframed : inst.stack.Framed) :
    (∀ frame depth, inst.stack.frames.head? = some frame →
      (ScratchWorks F inst depth ↔ depth = 0 ∨ (depth = 1 ∧
        inst.stack.sp ≤ frame.scratch_base + 1 ∧ frame.scratch_base < inst.stack.capacity))) ∧
    (∀ (entry : Entry) stack, entry.enter inst.stack = some stack →
      ((∀ qs, (∀ q ∈ qs, InFrame entry.scratch_depth q) → ∀ inst',
        machine.runs (fun inst q => se_quad F q inst) { inst with stack := stack } qs = some inst' →
          ScratchWorks F inst' entry.scratch_depth) ↔
        entry.scratch_depth = 0 ∨ (entry.scratch_depth = 1 ∧
          ∃ frame, stack.frames.head? = some frame ∧ frame.scratch_base < stack.capacity))) := by
  refine ⟨fun frame depth hframe => scratch_works_at_iff hw hframed hframe depth, ?_⟩
  intro entry stack henter
  obtain ⟨hframed', frame, hframe, hsp⟩ := enter_spec hframed henter
  have hstart : ({ inst with stack := stack } : Inst w).stack.Framed := hframed'
  constructor
  · intro h
    have hfirst := h [] (fun q hq => absurd hq List.not_mem_nil) _ (machine.runs_nil _ _)
    rcases (scratch_works_at_iff hw hstart hframe _).mp hfirst with hzero | ⟨hone, -, hroom⟩
    · exact Or.inl hzero
    · exact Or.inr ⟨hone, frame, hframe, hroom⟩
  · rintro (hzero | ⟨hone, frame', hframe', hroom⟩) qs hqs inst' hrun
    · rw [hzero]
      exact ⟨nofun, nofun, nofun⟩
    · obtain rfl : frame = frame' := Option.some.inj (hframe.symm.trans hframe')
      rw [hone] at hsp hqs ⊢
      have hinv : OneScratch frame inst' :=
        machine.inv_runs (P := fun _ q => InFrame 1 q) (I := OneScratch frame)
          (fun _ _ _ hI hq hstep => hI.step hq hstep) ⟨hstart, hframe, hsp, hroom⟩
          (machine.Meets.of_mem (fun q hq _ => hqs q hq) _) hrun
      exact (scratch_works_at_iff hw hinv.framed hinv.head 1).mpr
        (Or.inr ⟨rfl, hinv.sp, hinv.room⟩)

/-! ## One scratch cell, and two -/

/-- A stack with room for eight cells. -/
def empty_stack : Stack 32 := ⟨fun _ => ⟨INT, 0⟩, 8, 0, []⟩

def empty_inst : Inst 32 := ⟨empty_stack, none, fun _ => none⟩

/-- The frame of `se_frame_allocate` with a local and one scratch cell. -/
def one_scratch : Stack 32 := ⟨(empty_stack.zeroed 1).data, 8, 2, [⟨0, 0, 1, 1⟩]⟩

theorem empty_framed : empty_stack.Framed := ⟨by decide, by decide, nofun⟩

theorem one_scratch_entered :
    (Entry.se_frame_allocate 0 1 1).enter empty_stack = some one_scratch := by
  have hpush : empty_stack.push_frame 0 1 = some { empty_stack.zeroed 1 with
      frames := [⟨0, 0, 1, 1⟩] } := rfl
  have hdata : Function.update (empty_stack.zeroed 1).data 1 ⟨INT, 0⟩ = (empty_stack.zeroed 1).data := by
    funext i
    by_cases h : i = 1
    · subst h
      rfl
    · exact Function.update_of_ne h _ _
  simp only [Entry.enter, hpush, Option.bind_eq_bind, Option.bind_some, Stack.push_zeros]
  exact congrArg (fun data => some (⟨data, 8, 2, [⟨0, 0, 1, 1⟩]⟩ : Stack 32)) hdata

theorem one_scratch_cell_works : ScratchWorks simple32 { empty_inst with stack := one_scratch } 1 :=
  ((scratch_works_iff (by decide) simple32 empty_inst empty_framed).2 _ _ one_scratch_entered).mpr
    (Or.inr ⟨rfl, _, rfl, by decide⟩) [] (fun q hq => absurd hq List.not_mem_nil) _
    (machine.runs_nil _ _)

/-- With two scratch cells a value that is written to the first is not read there. -/
theorem two_scratch_cells_fail :
    ∃ stack, (Entry.se_frame_allocate 0 0 2).enter empty_stack = some stack ∧
      ¬ ScratchWorks simple32 { empty_inst with stack := stack } 2 := by
  refine ⟨_, rfl, fun h => ?_⟩
  have hread := h.own 0 (by decide) false 7 _ rfl
  exact absurd hread (by decide)

end

end motioncore.quads
