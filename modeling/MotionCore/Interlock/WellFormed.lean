-- The instances that the parser makes are well formed, whatever the text. Only the values of the
-- outputs may be missing: the parser asks that the two of them differ, and takes zero for a value
-- that the text does not give.
import Mathlib.Data.List.Nodup
import MotionCore.Interlock.Grammar
import MotionCore.Interlock.Items

open motioncore.views motioncore.machine

namespace motioncore.interlock

/-! ## Well-formed instances -/

/-- Only an analog input has a dead band, only a digital one a filter, of 2 to 15 samples. -/
structure IlInput.WellFormed (i : IlInput) : Prop where
  hyst : i.hyst ≠ 0 → i.mode = .adc
  debounce : i.debounce_depth = 0 ∨
    (2 ≤ i.debounce_depth ∧ i.debounce_depth ≤ 15 ∧ i.mode.Digital)

structure IlInst.WellFormed (inst : IlInst) : Prop where
  /-- The name ends with a zero byte inside its array, and not before. -/
  terminated : inst.name.length + 1 ≤ IL_NAME_MAX ∧ 0 ∉ inst.name
  inputs_le : inst.inputs.length ≤ IL_MAX_INPUTS
  watches_le : inst.watches.length ≤ IL_MAX_WATCHES
  outputs_le : inst.outputs.length ≤ IL_MAX_OUTPUTS
  watched : ∀ w ∈ inst.watches, w.input_idx < inst.inputs.length
  apart : (inst.inputs.map (·.phys_id) ++ inst.outputs.map (·.phys_id)).Nodup
  inputs : ∀ i ∈ inst.inputs, i.WellFormed
  /-- A watch of an input with a dead band has a side. -/
  directed : ∀ w ∈ inst.watches, ∀ i, inst.inputs[w.input_idx]? = some i → i.hyst ≠ 0 →
    w.op ≠ .eq ∧ w.op ≠ .ne

structure IlInst.Kept (inst : IlInst) : Prop where
  watched : ∀ w ∈ inst.watches, w.input_idx < inst.inputs.length
  apart : (inst.inputs.map (·.phys_id) ++ inst.outputs.map (·.phys_id)).Nodup
  inputs : ∀ i ∈ inst.inputs, i.WellFormed
  directed : ∀ w ∈ inst.watches, ∀ i, inst.inputs[w.input_idx]? = some i → i.hyst ≠ 0 →
    w.op ≠ .eq ∧ w.op ≠ .ne
  boards : ∀ o ∈ inst.outputs, o.phys_id < 0xF0

variable {inst inst' : IlInst}

theorem IlInst.Kept.input (h : inst.Kept) (i : IlInput) (hi : i.WellFormed)
    (hfresh : inst.Fresh i.phys_id) (hinputs : inst'.inputs = inst.inputs ++ [i])
    (hwatches : inst'.watches = inst.watches) (houtputs : inst'.outputs = inst.outputs) :
    inst'.Kept := by
  refine ⟨?_, ?_, ?_, ?_, houtputs ▸ h.boards⟩
  · rw [hinputs, hwatches, List.length_append]
    exact fun w hw => Nat.lt_add_right _ (h.watched w hw)
  · rw [hinputs, houtputs, List.map_append, List.append_assoc, List.map_singleton,
      List.singleton_append, List.nodup_middle, List.nodup_cons]
    refine ⟨fun hmem => ?_, h.apart⟩
    rcases List.mem_append.mp hmem with hmem | hmem
    · obtain ⟨j, hj, heq⟩ := List.mem_map.mp hmem
      exact hfresh.1 j hj heq
    · obtain ⟨o, ho, heq⟩ := List.mem_map.mp hmem
      exact hfresh.2 o ho heq
  · rw [hinputs]
    exact List.forall_mem_append.mpr ⟨h.inputs, List.forall_mem_singleton.mpr hi⟩
  · rw [hinputs, hwatches]
    intro w hw j hj
    rw [List.getElem?_append_left (h.watched w hw)] at hj
    exact h.directed w hw j hj

theorem IlInst.Kept.output (h : inst.Kept) (o : IlOutput) (ho : o.phys_id < 0xF0)
    (hfresh : inst.Fresh o.phys_id) (hinputs : inst'.inputs = inst.inputs)
    (hwatches : inst'.watches = inst.watches) (houtputs : inst'.outputs = inst.outputs ++ [o]) :
    inst'.Kept := by
  refine ⟨?_, ?_, hinputs ▸ h.inputs, ?_, ?_⟩
  · rw [hinputs, hwatches]
    exact h.watched
  · rw [hinputs, houtputs, List.map_append, ← List.append_assoc, List.map_singleton,
      List.nodup_append]
    refine ⟨h.apart, List.nodup_singleton _, ?_⟩
    intro x hx y hy heq
    rw [List.mem_singleton.mp hy] at heq
    rcases List.mem_append.mp hx with hx | hx
    · obtain ⟨j, hj, rfl⟩ := List.mem_map.mp hx
      exact hfresh.1 j hj heq
    · obtain ⟨p, hp, rfl⟩ := List.mem_map.mp hx
      exact hfresh.2 p hp heq
  · rw [hinputs, hwatches]
    exact h.directed
  · rw [houtputs]
    exact List.forall_mem_append.mpr ⟨h.boards, List.forall_mem_singleton.mpr ho⟩

theorem IlInst.Kept.watch (h : inst.Kept) (w : IlWatch) (hlt : w.input_idx < inst.inputs.length)
    (hside : (inst.inputs.map (·.hyst)).getD w.input_idx 0 = 0 ∨ (w.op ≠ .eq ∧ w.op ≠ .ne))
    (hinputs : inst'.inputs = inst.inputs) (hwatches : inst'.watches = inst.watches ++ [w])
    (houtputs : inst'.outputs = inst.outputs) : inst'.Kept := by
  refine ⟨?_, ?_, hinputs ▸ h.inputs, ?_, houtputs ▸ h.boards⟩
  · rw [hinputs, hwatches]
    exact List.forall_mem_append.mpr ⟨h.watched, List.forall_mem_singleton.mpr hlt⟩
  · rw [hinputs, houtputs]
    exact h.apart
  · rw [hinputs, hwatches]
    refine List.forall_mem_append.mpr ⟨h.directed, List.forall_mem_singleton.mpr ?_⟩
    intro i hi hne
    rcases hside with hzero | hside
    · rw [List.getD_eq_getElem?_getD, List.getElem?_map, hi] at hzero
      exact absurd hzero hne
    · exact hside

theorem setOutput_phys (is_ok : Bool) (v : UInt8) (o : IlOutput) :
    (setOutput is_ok v o).phys_id = o.phys_id := by
  cases is_ok <;> rfl

variable {phys_id : UInt8}

/-- The value of the one output with this pin is set. -/
theorem modify_eq_map {outputs : List IlOutput} {idx : Nat}
    (hnodup : (outputs.map (·.phys_id)).Nodup)
    (hidx : outputs.findIdx? (fun o => o.phys_id == phys_id) = some idx) (f : IlOutput → IlOutput) :
    outputs.modify idx f = outputs.map fun o => if o.phys_id = phys_id then f o else o := by
  induction outputs generalizing idx with
  | nil => exact nomatch hidx
  | cons o outputs ih =>
    obtain ⟨hnot, hnodup⟩ := List.nodup_cons.mp hnodup
    rw [List.findIdx?_cons] at hidx
    by_cases ho : o.phys_id = phys_id
    · rw [if_pos (beq_iff_eq.mpr ho)] at hidx
      obtain rfl := Option.some.inj hidx
      have hrest : outputs.map (fun o => if o.phys_id = phys_id then f o else o) = outputs := by
        refine (List.map_congr_left fun p hp => if_neg fun heq => ?_).trans (List.map_id _)
        exact hnot (List.mem_map.mpr ⟨p, hp, heq.trans ho.symm⟩)
      rw [List.map_cons, if_pos ho, hrest]
      rfl
    · rw [if_neg (by simpa using ho)] at hidx
      obtain ⟨j, hj, rfl⟩ := Option.map_eq_some_iff.mp hidx
      rw [List.map_cons, if_neg ho, List.modify_succ_cons, ih hnodup hj]

theorem IlInst.Kept.outputs_nodup (h : inst.Kept) :
    (inst.outputs.map (·.phys_id)).Nodup := (List.nodup_append.mp h.apart).2.1

/-- What an item of an output list does to the outputs of a well-formed instance. -/
theorem Setting.outputs {is_ok : Bool} {o : OutItem} (hkept : inst.Kept)
    (h : Setting is_ok o inst inst') :
    ∃ phys_id, Names o.label phys_id ∧ (∃ p ∈ inst.outputs, p.phys_id = phys_id) ∧
      inst'.outputs = inst.outputs.map fun p =>
        if p.phys_id = phys_id then setOutput is_ok o.value.stored.toUInt8 p else p := by
  obtain ⟨phys_id, idx, hnames, hidx, hset⟩ := h.set
  refine ⟨phys_id, hnames, ?_, hset.trans (modify_eq_map hkept.outputs_nodup hidx _)⟩
  obtain ⟨hlt, hp, -⟩ := List.findIdx?_eq_some_iff_getElem.mp hidx
  exact ⟨_, List.getElem_mem hlt, beq_iff_eq.mp hp⟩

theorem IlInst.Kept.set {is_ok : Bool} {o : OutItem} (h : inst.Kept)
    (hset : Setting is_ok o inst inst') : inst'.Kept := by
  obtain ⟨phys_id, -, -, houtputs⟩ := hset.outputs h
  have hphys : ∀ p : IlOutput, (if p.phys_id = phys_id then
      setOutput is_ok o.value.stored.toUInt8 p else p).phys_id = p.phys_id := by
    intro p
    split
    · exact setOutput_phys _ _ p
    · rfl
  refine ⟨?_, ?_, hset.inputs ▸ h.inputs, ?_, ?_⟩
  · rw [hset.inputs, hset.watches]
    exact h.watched
  · have hmap : inst'.outputs.map (·.phys_id) = inst.outputs.map (·.phys_id) := by
      rw [houtputs, List.map_map]
      exact List.map_congr_left fun p _ => hphys p
    rw [hset.inputs, hmap]
    exact h.apart
  · rw [hset.inputs, hset.watches]
    exact h.directed
  · rw [houtputs, List.forall_mem_map]
    intro q hq
    rw [hphys]
    exact h.boards q hq

/-! ## What every item keeps -/

variable {label : Word}

theorem names_lt (h : Names label phys_id) : phys_id < 0xF0 := by
  obtain ⟨bp, hbp, rfl⟩ := Option.map_eq_some_iff.mp h
  have hall : ∀ p ∈ boardPins, p.physId < 0xF0 := by decide
  unfold boardPinLookup at hbp
  split at hbp
  · exact nomatch hbp
  · exact hall bp (List.mem_of_find?_eq_some hbp)

theorem virt_ge {virt_id : UInt8}
    (h : virt_id ∈ [IL_VIRT_T_SINCE_M2S, IL_VIRT_UPTIME, IL_VIRT_STACK_HWM]) :
    ¬ virt_id < 0xF0 := by
  rcases List.mem_cons.mp h with rfl | h
  · decide
  rcases List.mem_cons.mp h with rfl | h
  · decide
  · rw [List.mem_singleton.mp h]
    decide

theorem Records.kept {cfg : GroupCfg} (hcfg : cfg.Sound) (h : inst.Kept)
    (hrec : Records cfg label inst inst') : inst'.Kept := by
  cases hrec with
  | output phys_id names fresh mode name inputs watches outputs =>
    exact h.output ⟨phys_id, 0, 0⟩ (names_lt names) fresh inputs watches outputs
  | input phys_id names fresh mode name inputs watches outputs =>
    exact h.input _ ⟨hcfg.hyst, hcfg.debounce⟩ fresh inputs watches outputs

theorem Watched.kept {idx : Nat} (h : inst.Kept) (hw : Watched inst inst' idx) :
    inst'.Kept ∧ idx < inst'.inputs.length := by
  cases hw with
  | there same lt =>
    subst same
    exact ⟨h, lt⟩
  | first virt_id virt fresh last name inputs watches outputs =>
    refine ⟨h.input (virtualInput virt_id) ⟨fun hne => absurd rfl hne, .inl rfl⟩ ⟨fresh, ?_⟩
      inputs watches outputs, ?_⟩
    · intro o ho heq
      have hphys : o.phys_id = virt_id := heq
      exact virt_ge virt (hphys ▸ h.boards o ho)
    · rw [inputs, last, List.length_append]
      exact Nat.lt_succ_self _

variable {it : Item}

theorem IlInst.Kept.step (h : inst.Kept) (hbuild : it.build inst = some inst') : inst'.Kept := by
  cases it with
  | group g => exact CfgGroup.build_inv (fun _ _ _ _ hcfg _ _ hs hrec => hrec.kept hcfg hs) h hbuild
  | watch w =>
    obtain ⟨found, idx, op, hfound, -, hside, -, hinputs, houtputs, hwatches⟩ :=
      WatchItem.build_cases hbuild
    obtain ⟨hkept, hlt⟩ := hfound.kept h
    exact hkept.watch ⟨idx, op, w.threshold.stored⟩ hlt hside hinputs hwatches houtputs
  | out is_ok o => exact h.set (OutItem.build_cases hbuild)

/-! ## The values of the outputs -/

/-- The value of an output for the good or for the bad case. -/
def IlOutput.value (is_ok : Bool) (o : IlOutput) : UInt8 :=
  if is_ok then o.ok_value else o.err_value

instance (label : Word) (phys_id : UInt8) : Decidable (Names label phys_id) :=
  inferInstanceAs (Decidable (_ = _))

/-- What an item writes for a pin, in the one list of outputs or in the other. -/
def Item.sets (is_ok : Bool) (phys_id : UInt8) : Item → Option Numeral
  | .group _ => none
  | .watch _ => none
  | .out b o => if b = is_ok ∧ Names o.label phys_id then some o.value else none

theorem sets_out (b is_ok : Bool) (phys_id : UInt8) (o : OutItem) :
    (Item.out b o).sets is_ok phys_id =
      if b = is_ok ∧ Names o.label phys_id then some o.value else none := rfl

def lastSet (is_ok : Bool) (phys_id : UInt8) (items : List Item) : Option Numeral :=
  (items.filterMap (Item.sets is_ok phys_id)).getLast?

/-- The outputs have the values that were written last, and zero where nothing was. -/
structure OutputsSoFar (items : List Item) (inst : IlInst) : Prop where
  kept : inst.Kept
  values : ∀ o ∈ inst.outputs, ∀ is_ok,
    (o.value is_ok).toNat = ((lastSet is_ok o.phys_id items).map (·.stored.toNat)).getD 0
  known : ∀ is_ok it, .out is_ok it ∈ items → ∃ o ∈ inst.outputs, Names it.label o.phys_id
  bits : ∀ is_ok it, .out is_ok it ∈ items → it.value.stored ≤ 1

theorem names_inj {a b : UInt8} (ha : Names label a) (hb : Names label b) : a = b :=
  Option.some.inj (ha.symm.trans hb)

theorem lastSet_append (is_ok : Bool) (phys_id : UInt8) (items : List Item) (it : Item) :
    lastSet is_ok phys_id (items ++ [it]) =
      match it.sets is_ok phys_id with
      | some n => some n
      | none => lastSet is_ok phys_id items := by
  unfold lastSet
  rw [List.filterMap_append]
  cases hit : it.sets is_ok phys_id with
  | some n =>
    have hone : [it].filterMap (Item.sets is_ok phys_id) = [n] := List.filterMap_cons_some hit
    rw [hone, List.getLast?_concat]
  | none =>
    have hnone : [it].filterMap (Item.sets is_ok phys_id) = [] := List.filterMap_cons_none hit
    rw [hnone, List.append_nil]

variable {items : List Item}

theorem lastSet_some {is_ok : Bool} {n : Numeral} (h : lastSet is_ok phys_id items = some n) :
    ∃ o, .out is_ok o ∈ items ∧ Names o.label phys_id ∧ o.value = n := by
  obtain ⟨it, hit, hsets⟩ := List.mem_filterMap.mp (List.mem_of_getLast? h)
  cases it with
  | group g => exact nomatch hsets
  | watch w => exact nomatch hsets
  | out b o =>
    rw [sets_out] at hsets
    split at hsets
    · rename_i hnames
      obtain ⟨rfl, hnames⟩ := hnames
      exact ⟨o, hit, hnames, Option.some.inj hsets⟩
    · exact nomatch hsets

/-- No item has set a pin that is not declared. -/
theorem OutputsSoFar.unset (h : OutputsSoFar items inst) (hfresh : inst.Fresh phys_id)
    (is_ok : Bool) : lastSet is_ok phys_id items = none := by
  cases hset : lastSet is_ok phys_id items with
  | none => rfl
  | some n =>
    obtain ⟨o, ho, hnames, -⟩ := lastSet_some hset
    obtain ⟨p, hp, hp'⟩ := h.known is_ok o ho
    exact absurd (names_inj hp' hnames) (hfresh.2 p hp)

theorem OutputsSoFar.other (h : OutputsSoFar items inst) (hit : ∀ is_ok o, it ≠ .out is_ok o) :
    OutputsSoFar (items ++ [it]) inst := by
  have hsets : ∀ is_ok phys_id, it.sets is_ok phys_id = none := by
    intro is_ok phys_id
    cases it with
    | group g => rfl
    | watch w => rfl
    | out b o => exact absurd rfl (hit b o)
  have hold : ∀ is_ok o, .out is_ok o ∈ items ++ [it] → .out is_ok o ∈ items := by
    intro is_ok o hmem
    rcases List.mem_append.mp hmem with hmem | hmem
    · exact hmem
    · exact absurd (List.mem_singleton.mp hmem).symm (hit is_ok o)
  refine ⟨h.kept, fun o ho is_ok => ?_, fun b o hmem => h.known b o (hold b o hmem),
    fun b o hmem => h.bits b o (hold b o hmem)⟩
  rw [lastSet_append, hsets]
  exact h.values o ho is_ok

theorem Records.outputsSoFar {cfg : GroupCfg} (hcfg : cfg.Sound) (h : OutputsSoFar items inst)
    (hrec : Records cfg label inst inst') : OutputsSoFar items inst' := by
  have hkept := hrec.kept hcfg h.kept
  cases hrec with
  | output phys_id names fresh mode name inputs watches outputs =>
    refine ⟨hkept, ?_, fun b it hit => ?_, h.bits⟩
    · rw [outputs]
      intro o ho is_ok
      rcases List.mem_append.mp ho with ho | ho
      · exact h.values o ho is_ok
      · rw [List.mem_singleton.mp ho, h.unset fresh]
        cases is_ok <;> rfl
    · obtain ⟨o, ho, hnames⟩ := h.known b it hit
      rw [outputs]
      exact ⟨o, List.mem_append_left _ ho, hnames⟩
  | input phys_id names fresh mode name inputs watches outputs =>
    refine ⟨hkept, ?_, ?_, h.bits⟩
    · rw [outputs]
      exact h.values
    · rw [outputs]
      exact h.known

theorem value_setOutput (b is_ok : Bool) (v : UInt8) (o : IlOutput) :
    (setOutput is_ok v o).value b = if is_ok = b then v else o.value b := by
  cases b <;> cases is_ok <;> rfl

theorem toUInt8_toNat {n : UInt16} (h : n ≤ 1) : n.toUInt8.toNat = n.toNat := by
  rw [UInt16.le_iff_toNat_le] at h
  have hone : (1 : UInt16).toNat = 1 := rfl
  rw [UInt16.toNat_toUInt8]
  omega

theorem OutputsSoFar.set {is_ok : Bool} {o : OutItem} (h : OutputsSoFar items inst)
    (hset : Setting is_ok o inst inst') : OutputsSoFar (items ++ [.out is_ok o]) inst' := by
  obtain ⟨phys_id, hnames, ⟨p₀, hp₀, hphys₀⟩, houtputs⟩ := hset.outputs h.kept
  refine ⟨h.kept.set hset, ?_, ?_, ?_⟩
  · rw [houtputs]
    intro q hq b
    obtain ⟨p, hp, rfl⟩ := List.mem_map.mp hq
    have hval := h.values p hp b
    by_cases hphys : p.phys_id = phys_id
    · rw [if_pos hphys, value_setOutput, setOutput_phys, lastSet_append, sets_out]
      by_cases hb : is_ok = b
      · rw [if_pos hb, if_pos ⟨hb, hphys ▸ hnames⟩]
        exact toUInt8_toNat hset.bit
      · rw [if_neg hb, if_neg fun hc => hb hc.1]
        exact hval
    · have hother : (Item.out is_ok o).sets b p.phys_id = none :=
        if_neg fun hc => hphys (names_inj hc.2 hnames)
      rw [if_neg hphys, lastSet_append, hother]
      exact hval
  · rw [houtputs]
    intro b it hit
    have hold : ∀ p ∈ inst.outputs, Names it.label p.phys_id → ∃ q ∈ inst.outputs.map fun p =>
        if p.phys_id = phys_id then setOutput is_ok o.value.stored.toUInt8 p else p,
        Names it.label q.phys_id := by
      intro p hp hp'
      refine ⟨_, List.mem_map.mpr ⟨p, hp, rfl⟩, ?_⟩
      split
      · rw [setOutput_phys]
        exact hp'
      · exact hp'
    rcases List.mem_append.mp hit with hit | hit
    · obtain ⟨p, hp, hp'⟩ := h.known b it hit
      exact hold p hp hp'
    · cases List.mem_singleton.mp hit
      exact hold p₀ hp₀ (hphys₀ ▸ hnames)
  · intro b it hit
    rcases List.mem_append.mp hit with hit | hit
    · exact h.bits b it hit
    · cases List.mem_singleton.mp hit
      exact hset.bit

theorem OutputsSoFar.step (h : OutputsSoFar items inst) (hbuild : it.build inst = some inst') :
    OutputsSoFar (items ++ [it]) inst' := by
  cases it with
  | group g =>
    refine OutputsSoFar.other ?_ nofun
    exact CfgGroup.build_inv (fun _ _ _ _ hcfg _ _ hs hrec => hrec.outputsSoFar hcfg hs) h hbuild
  | watch w =>
    refine OutputsSoFar.other ?_ nofun
    have hkept : inst'.Kept := h.kept.step hbuild
    obtain ⟨found, idx, op, hfound, -, -, -, -, houtputs, -⟩ := WatchItem.build_cases hbuild
    have hsame : inst'.outputs = inst.outputs := by
      cases hfound with
      | there same lt => rw [houtputs, same]
      | first virt_id virt fresh last name inputs watches outputs => rw [houtputs, outputs]
    exact ⟨hkept, hsame ▸ h.values, hsame ▸ h.known, h.bits⟩
  | out is_ok o => exact h.set (OutItem.build_cases hbuild)

/-! ## The instances of the parser -/

theorem Item.build_name (h : it.build inst = some inst') : inst'.name = inst.name := by
  cases it with
  | group g =>
    refine CfgGroup.build_inv (I := fun s => s.name = inst.name) ?_ rfl h
    intro cfg label s s' _ _ _ hs hrec
    cases hrec with
    | output phys_id names fresh mode name inputs watches outputs => exact name.trans hs
    | input phys_id names fresh mode name inputs watches outputs => exact name.trans hs
  | watch w =>
    obtain ⟨found, idx, op, hfound, -, -, hname, -, -, -⟩ := WatchItem.build_cases h
    cases hfound with
    | there same lt => rw [hname, same]
    | first virt_id virt fresh last name inputs watches outputs => rw [hname, name]
  | out is_ok o => exact (OutItem.build_cases h).name

/-- The message has a value for the pin in the list for the good case, or for the bad one. -/
def Message.Gives (m : Message) (is_ok : Bool) (phys_id : UInt8) : Prop :=
  ∃ o, .out is_ok o ∈ m.items ∧ Names o.label phys_id

theorem outputsSoFar_named (name : Word) (h : name.length < IL_NAME_MAX) :
    OutputsSoFar [] (.named name h) :=
  ⟨⟨nofun, List.nodup_nil, nofun, nofun, nofun⟩, nofun, nofun, nofun⟩

/-- The letters of the first word of a text are the letters of words. -/
theorem head_word {text : List UInt8} {id : Word} {ts : List Token}
    (h : tokens text = .ident id :: ts) : ∀ c ∈ id, isIdentCont c = true := by
  rw [tokens_eq] at h
  cases hs : text.dropWhile isWs with
  | nil =>
    rw [hs] at h
    exact nomatch h
  | cons c rest =>
    rw [hs] at h
    have hlex : (lexAt c rest).1 = .ident id := (List.cons.inj h).1
    cases hi : isIdentStart c with
    | true =>
      rw [lexAt_ident hi] at hlex
      rw [← Token.ident.inj hlex]
      exact fun d hd => List.all_eq_true.mp List.all_takeWhile d hd
    | false =>
      cases hd : isDigit c with
      | true =>
        rw [lexAt_digit hi hd] at hlex
        rcases lexNumber_cases (c :: rest) with ⟨n, hn⟩ | hn
        · exact nomatch hlex.symm.trans hn
        · exact nomatch hlex.symm.trans hn
      | false =>
        rw [lexAt_char hi hd] at hlex
        exact nomatch hlex

/-- What a text makes: a well-formed instance, whose outputs have the values that were written
last. The two values of an output are never the same. -/
theorem Reads.made {text : List UInt8} {m : Message} (h : Reads text m inst) :
    inst.WellFormed ∧ OutputsSoFar m.items inst ∧ ∀ o ∈ inst.outputs, o.ok_value ≠ o.err_value := by
  obtain ⟨hlen, made, hrun, rfl, hdiffer⟩ := Message.build_runs h.makes
  have hsofar : OutputsSoFar m.items made :=
    inv_history (P := fun _ _ => True) (I := OutputsSoFar) (fun _ _ _ _ hI _ ht => hI.step ht)
      (outputsSoFar_named m.name hlen) (Meets.of_forall (fun _ _ => trivial) _ _) hrun
  have hname : made.name = m.name :=
    inv_runs (P := fun _ _ => True) (I := fun s => s.name = m.name)
      (fun _ _ _ hI _ ht => (Item.build_name ht).trans hI) rfl
      (Meets.of_forall (fun _ _ => trivial) _ _) hrun
  have hletters := head_word h.spells
  obtain ⟨hkept, hvalues, hknown, hbits⟩ := hsofar
  refine ⟨⟨⟨made.name_lt, ?_⟩, made.inputs_le, made.watches_le, made.outputs_le, hkept.watched,
    hkept.apart, hkept.inputs, hkept.directed⟩, ⟨⟨hkept.watched, hkept.apart, hkept.inputs,
    hkept.directed, hkept.boards⟩, hvalues, hknown, hbits⟩, hdiffer⟩
  show 0 ∉ made.name
  rw [hname]
  intro hzero
  exact absurd (hletters 0 hzero) (by decide)

/-- A text that is accepted makes a well-formed instance, and it gives both values of each of
its outputs. -/
def MakesWellFormed (text : DslText) : Prop :=
  ∀ inst, ilParse text = .ok inst →
    inst.WellFormed ∧ ∃ m, Reads text m inst ∧
      ∀ o ∈ inst.outputs, ∀ is_ok, m.Gives is_ok o.phys_id

/-- A pin that one of the two lists sets to 1 is in the other list too. -/
def SetsBoth (text : DslText) : Prop :=
  ∀ m inst, Reads text m inst → ∀ is_ok o phys_id, .out is_ok o ∈ m.items →
    o.value.stored = 1 → Names o.label phys_id → m.Gives (!is_ok) phys_id

/-- An output with two different values has one of them from the text. -/
theorem exists_set (h : OutputsSoFar items inst) {o : IlOutput} (ho : o ∈ inst.outputs)
    (hdiffer : o.ok_value ≠ o.err_value) :
    ∃ is_ok it, .out is_ok it ∈ items ∧ it.value.stored = 1 ∧ Names it.label o.phys_id := by
  have hset : ∀ is_ok, o.value is_ok ≠ 0 →
      ∃ it, .out is_ok it ∈ items ∧ it.value.stored = 1 ∧ Names it.label o.phys_id := by
    intro is_ok hne
    have hval := h.values o ho is_ok
    cases hlast : lastSet is_ok o.phys_id items with
    | none =>
      rw [hlast] at hval
      exact absurd (UInt8.toNat_inj.mp hval) hne
    | some n =>
      rw [hlast] at hval
      obtain ⟨it, hit, hnames, rfl⟩ := lastSet_some hlast
      refine ⟨it, hit, UInt16.toNat_inj.mp ?_, hnames⟩
      have hbit := UInt16.le_iff_toNat_le.mp (h.bits is_ok it hit)
      have hne' : (o.value is_ok).toNat ≠ 0 := fun hz => hne (UInt8.toNat_inj.mp hz)
      have hval' : (o.value is_ok).toNat = it.value.stored.toNat := hval
      have hone : (1 : UInt16).toNat = 1 := rfl
      omega
  by_cases hok : o.ok_value = 0
  · obtain ⟨it, hit⟩ := hset false fun herr => hdiffer (hok.trans herr.symm)
    exact ⟨false, it, hit⟩
  · obtain ⟨it, hit⟩ := hset true hok
    exact ⟨true, it, hit⟩

/-- The instance of a text is as it has to be exactly when each pin that one list sets to 1 is in
the other list too. -/
theorem makes_well_formed_iff (text : DslText) : MakesWellFormed text ↔ SetsBoth text := by
  constructor
  · intro h m inst hreads is_ok o phys_id ho _ hnames
    obtain ⟨-, m', hreads', hgives⟩ := h inst (ilParse_iff.mpr ⟨m, hreads⟩)
    obtain ⟨rfl, -⟩ := hreads.unique hreads'
    obtain ⟨p, hp, hp'⟩ := hreads.made.2.1.known is_ok o ho
    rw [names_inj hnames hp']
    exact hgives p hp !is_ok
  · intro h inst hok
    obtain ⟨m, hreads⟩ := ilParse_iff.mp hok
    obtain ⟨hwf, hsofar, hdiffer⟩ := hreads.made
    refine ⟨hwf, m, hreads, fun o ho => ?_⟩
    obtain ⟨b, it, hit, hone, hnames⟩ := exists_set hsofar ho (hdiffer o ho)
    have hthis : m.Gives b o.phys_id := ⟨it, hit, hnames⟩
    have hother : m.Gives (!b) o.phys_id := h m inst hreads b it _ hit hone hnames
    intro is_ok
    cases b <;> cases is_ok <;> assumption

/-- Two outputs, each of them in one list only. -/
def lopsidedText : List UInt8 :=
  ascii ['x', ';', 'c', 'f', 'g', '[', '(', 'D', '1', ',', 'D', '2', ')', ':', 'o', 'u', 't', ']',
    ';', 'o', 'u', 't', '_', 'o', 'k', '[', 'D', '1', ':', '1', ']', ';', 'o', 'u', 't', '_', 'e',
    'r', 'r', '[', 'D', '2', ':', '1', ']']

def lopsidedMessage : Message where
  name := ascii ['x']
  sections :=
    [.cfg ⟨.tuple (ascii ['D', '1']) [ascii ['D', '2']], KW_OUT, []⟩ [] false,
      .out true ⟨ascii ['D', '1'], .dec [0x31]⟩ [],
      .out false ⟨ascii ['D', '2'], .dec [0x31]⟩ []]

set_option maxRecDepth 16000 in
/-- The parser makes up the value that the text does not give. -/
theorem lopsided_text_is_accepted : ¬ ∀ text, MakesWellFormed text := by
  intro h
  have hspells : tokens lopsidedText = lopsidedMessage.print TWO_COMMAS := by decide
  have hbuild : lopsidedMessage.build.isSome = true := by decide
  have hD1 : lopsidedMessage.build.all (fun i => i.outputs.any (·.phys_id == 4)) = true := by decide
  obtain ⟨inst, hinst⟩ := Option.isSome_iff_exists.mp hbuild
  have hreads : Reads lopsidedText lopsidedMessage inst := ⟨hspells, hinst⟩
  rw [hinst] at hD1
  obtain ⟨o, ho, hphys⟩ := List.any_eq_true.mp hD1
  obtain ⟨-, m, hreads', hgives⟩ :=
    h ⟨lopsidedText, by decide⟩ inst (ilParse_iff.mpr ⟨_, hreads⟩)
  obtain ⟨rfl, -⟩ := hreads.unique hreads'
  obtain ⟨it, hit, hnames⟩ := hgives o ho false
  rw [beq_iff_eq.mp hphys] at hnames
  have hD2 : it = ⟨ascii ['D', '2'], .dec [0x31]⟩ := by
    simpa [Message.items, lopsidedMessage, Section.items] using hit
  rw [hD2] at hnames
  exact absurd hnames (by decide)

end motioncore.interlock
