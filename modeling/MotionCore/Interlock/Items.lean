-- The items of a message, one after the other, and what each of them does to the instance. What
-- holds of every instance that a text makes is derived from these steps.
import MotionCore.Interlock.Parses

open motioncore.views motioncore.machine

namespace motioncore.interlock

/-! ## The items of a message -/

inductive Item where
  | group (g : CfgGroup)
  | watch (w : WatchItem)
  | out (is_ok : Bool) (o : OutItem)
deriving DecidableEq

def Section.items : Section → List Item
  | .cfg g gs _ => (g :: gs).map .group
  | .watch w ws => (w :: ws).map .watch
  | .out is_ok o os => (o :: os).map (.out is_ok)

def Message.items (m : Message) : List Item := m.sections.flatMap Section.items

def Item.build (inst : IlInst) : Item → Option IlInst
  | .group g => g.build inst
  | .watch w => w.build inst
  | .out is_ok o => o.build is_ok inst

theorem runs_map {ι : Type} (f : ι → Item) (step : IlInst → ι → Option IlInst)
    (h : ∀ inst i, (f i).build inst = step inst i) (inst : IlInst) (is : List ι) :
    runs Item.build inst (is.map f) = runs step inst is := by
  unfold runs
  rw [List.foldlM_map]
  simp only [h]

theorem Section.build_runs {s s' : Sections} {sec : Section} (h : sec.build s = some s') :
    runs Item.build s.inst sec.items = some s'.inst := by
  cases sec with
  | cfg g gs comma =>
    obtain ⟨inst, hinst, rfl⟩ := Option.map_eq_some_iff.mp h
    exact (runs_map .group CfgGroup.build (fun _ _ => rfl) _ _).trans hinst
  | watch w ws =>
    obtain ⟨inst, hinst, rfl⟩ := Option.map_eq_some_iff.mp h
    exact (runs_map .watch WatchItem.build (fun _ _ => rfl) _ _).trans hinst
  | out is_ok o os =>
    cases is_ok <;>
    · obtain ⟨inst, hinst, rfl⟩ := Option.map_eq_some_iff.mp h
      exact (runs_map (.out _) (OutItem.build _) (fun _ _ => rfl) _ _).trans hinst

def IlInst.named (name : Word) (h : name.length < IL_NAME_MAX) : IlInst :=
  { IlInst.zero with name := name, name_lt := h }

variable {inst : IlInst}

/-- Outputs that pass the check tell good from bad. -/
theorem checkOutputs_cases {s : Sections} (h : checkOutputs s = .ok inst) :
    inst = s.inst ∧ ∀ o ∈ s.inst.outputs, o.ok_value ≠ o.err_value := by
  unfold checkOutputs at h
  split at h
  · split at h
    · exact nomatch h
    split at h
    · exact nomatch h
    split at h
    · exact nomatch h
    · rename_i hany
      cases h
      refine ⟨rfl, fun o ho hsame => hany (List.any_eq_true.mpr ⟨o, ho, ?_⟩)⟩
      rw [hsame]
      exact beq_self_eq_true _
  · rename_i hnil
    cases h
    refine ⟨rfl, ?_⟩
    rw [not_not.mp hnil]
    exact nofun

/-- An instance is made by the items of its message, and its outputs tell good from bad. -/
theorem Message.build_runs {m : Message} (h : m.build = some inst) :
    ∃ (hname : m.name.length < IL_NAME_MAX) (made : IlInst),
      runs Item.build (.named m.name hname) m.items = some made ∧
        inst = { made with tf_state := IL_TF_UNEVALUATED } ∧
        ∀ o ∈ made.outputs, o.ok_value ≠ o.err_value := by
  obtain ⟨s, hmade, hinst⟩ := Option.bind_eq_some_iff.mp h
  have hsecs : ∀ (secs : List Section) (s₀ : Sections), secs.foldlM Section.build s₀ = some s →
      runs Item.build s₀.inst (secs.flatMap Section.items) = some s.inst := by
    intro secs
    induction secs with
    | nil =>
      intro s₀ hrun
      rw [Option.some.inj hrun]
      rfl
    | cons sec secs ih =>
      intro s₀ hrun
      obtain ⟨s₁, hsec, hrun⟩ := Option.bind_eq_some_iff.mp hrun
      rw [List.flatMap_cons, runs_append, Section.build_runs hsec]
      exact ih s₁ hrun
  unfold Message.made at hmade
  split at hmade
  · rename_i hname
    refine ⟨hname, s.inst, hsecs m.sections _ hmade, ?_⟩
    obtain ⟨inst', hcheck, rfl⟩ := Option.map_eq_some_iff.mp hinst
    obtain ⟨rfl, hdiffer⟩ := checkOutputs_cases (toOption_eq_some.mp hcheck)
    exact ⟨rfl, hdiffer⟩
  · cases hmade

/-! ## What an item does -/

/-- The pin has no declaration yet. -/
def IlInst.Fresh (inst : IlInst) (phys_id : UInt8) : Prop :=
  (∀ i ∈ inst.inputs, i.phys_id ≠ phys_id) ∧ ∀ o ∈ inst.outputs, o.phys_id ≠ phys_id

def Names (label : Word) (phys_id : UInt8) : Prop :=
  (boardPinLookup label).map BoardPin.physId = some phys_id

/-- One pin of a group is declared. -/
inductive Records (cfg : GroupCfg) (label : Word) (inst inst' : IlInst) : Prop where
  | output (phys_id : UInt8) (names : Names label phys_id) (fresh : inst.Fresh phys_id)
      (mode : cfg.mode = .output) (name : inst'.name = inst.name)
      (inputs : inst'.inputs = inst.inputs)
      (watches : inst'.watches = inst.watches)
      (outputs : inst'.outputs = inst.outputs ++ [⟨phys_id, 0, 0⟩])
  | input (phys_id : UInt8) (names : Names label phys_id) (fresh : inst.Fresh phys_id)
      (mode : cfg.mode ≠ .output) (name : inst'.name = inst.name)
      (inputs : inst'.inputs = inst.inputs ++
        [⟨phys_id, cfg.mode, cfg.oversample_exp, cfg.sh_cyc, cfg.debounce_depth, cfg.hyst⟩])
      (watches : inst'.watches = inst.watches) (outputs : inst'.outputs = inst.outputs)

variable {phys_id : UInt8}

theorem findInputIdx_none (h : findInputIdx inst phys_id = none) :
    ∀ i ∈ inst.inputs, i.phys_id ≠ phys_id := by
  intro i hi heq
  have hno := List.findIdx?_eq_none_iff.mp h i hi
  rw [heq] at hno
  simp at hno

theorem findOutputIdx_none (h : findOutputIdx inst phys_id = none) :
    ∀ o ∈ inst.outputs, o.phys_id ≠ phys_id := by
  intro o ho heq
  have hno := List.findIdx?_eq_none_iff.mp h o ho
  rw [heq] at hno
  simp at hno

variable {cfg : GroupCfg} {label : Word} {inst' : IlInst}

theorem recordPin_cases (h : recordPin cfg inst label = .ok inst') :
    Records cfg label inst inst' := by
  unfold recordPin at h
  split at h
  · cases h
  · rename_i bp hbp
    have hnames : Names label bp.physId := congrArg (Option.map BoardPin.physId) hbp
    split at h
    · cases h
    · rename_i hnew
      simp only [not_or, Option.not_isSome_iff_eq_none] at hnew
      have hfresh : inst.Fresh bp.physId :=
        ⟨findInputIdx_none hnew.1, findOutputIdx_none hnew.2⟩
      split at h
      · rename_i hmode
        unfold addOutput at h
        split at h
        · cases h
          exact .output bp.physId hnames hfresh hmode rfl rfl rfl rfl
        · cases h
      · rename_i hmode
        unfold addInput at h
        split at h
        · cases h
          exact .input bp.physId hnames hfresh hmode rfl rfl rfl rfl
        · cases h

/-- The pins of a group are declared one after the other, all with the configuration that its
mode and modifiers make. -/
theorem CfgGroup.build_cases {g : CfgGroup} (h : g.build inst = some inst') :
    ∃ cfg, resolveMods (g.mode :: g.mods) = .ok cfg ∧
      runs (fun inst label => (recordPin cfg inst label).toOption) inst g.pins.labels =
        some inst' := by
  unfold CfgGroup.build at h
  split at h
  · exact nomatch h
  · obtain ⟨cfg, hcfg, hpins⟩ := Option.bind_eq_some_iff.mp h
    exact ⟨cfg, toOption_eq_some.mp hcfg, (foldlM_toOption _ _ _).symm.trans hpins⟩

/-- The input of a pin without hardware, as its first watch declares it. -/
def virtualInput (virt_id : UInt8) : IlInput := ⟨virt_id, .virtual, 0, 0, 0, 0⟩

/-- The input that a watch names is there, or the watch declares it. -/
inductive Watched (inst inst' : IlInst) (idx : Nat) : Prop where
  | there (same : inst' = inst) (lt : idx < inst.inputs.length)
  | first (virt_id : UInt8)
      (virt : virt_id ∈ [IL_VIRT_T_SINCE_M2S, IL_VIRT_UPTIME, IL_VIRT_STACK_HWM])
      (fresh : ∀ i ∈ inst.inputs, i.phys_id ≠ virt_id) (last : idx = inst.inputs.length)
      (name : inst'.name = inst.name)
      (inputs : inst'.inputs = inst.inputs ++ [virtualInput virt_id])
      (watches : inst'.watches = inst.watches) (outputs : inst'.outputs = inst.outputs)

theorem virtLookup_mem {virt_id : UInt8} (h : virtLookup label = some virt_id) :
    virt_id ∈ [IL_VIRT_T_SINCE_M2S, IL_VIRT_UPTIME, IL_VIRT_STACK_HWM] := by
  unfold virtLookup at h
  split at h
  · rw [← Option.some.inj h]
    decide
  split at h
  · rw [← Option.some.inj h]
    decide
  split at h
  · rw [← Option.some.inj h]
    decide
  · exact nomatch h

theorem findInputIdx_lt {idx : Nat} (h : findInputIdx inst phys_id = some idx) :
    idx < inst.inputs.length :=
  (List.findIdx?_eq_some_iff_findIdx_eq.mp h).1

theorem watchedInput_cases {idx : Nat} (h : watchedInput inst label = .ok (inst', idx)) :
    Watched inst inst' idx := by
  unfold watchedInput at h
  split at h
  · split at h
    · cases h
    · rename_i virt_id hvirt
      split at h
      · rename_i i hi
        cases h
        exact .there rfl (findInputIdx_lt hi)
      · rename_i hnone
        unfold addInput at h
        split at h
        · cases h
          exact .first virt_id (virtLookup_mem hvirt) (findInputIdx_none hnone) rfl rfl rfl rfl rfl
        · cases h
  · split at h
    · cases h
    · split at h
      · rename_i i hi
        cases h
        exact .there rfl (findInputIdx_lt hi)
      · cases h

/-- What a watch item does: its input is found or declared, and the watch is added. -/
def Watching (w : WatchItem) (inst inst' : IlInst) : Prop :=
  ∃ (found : IlInst) (idx : Nat) (op : IlCompareOp), Watched inst found idx ∧
    w.compare = some op ∧
    ((found.inputs.map (·.hyst)).getD idx 0 = 0 ∨ (op ≠ .eq ∧ op ≠ .ne)) ∧
    inst'.name = found.name ∧ inst'.inputs = found.inputs ∧ inst'.outputs = found.outputs ∧
    inst'.watches = found.watches ++ [⟨idx, op, w.threshold.stored⟩]

theorem WatchItem.build_cases {w : WatchItem} (h : w.build inst = some inst') :
    Watching w inst inst' := by
  obtain ⟨op, hop, hdecl⟩ := Option.bind_eq_some_iff.mp h
  unfold declareWatch at hdecl
  split at hdecl
  · cases hdecl
  · rename_i found idx hfound
    split at hdecl
    · cases hdecl
    · rename_i hside
      unfold addWatch at hdecl
      split at hdecl
      · rw [← Option.some.inj hdecl]
        refine ⟨found, idx, op, watchedInput_cases hfound, hop, ?_, rfl, rfl, rfl, rfl⟩
        rw [not_and_or, not_not, not_or] at hside
        exact hside
      · cases hdecl

/-- What an item of an output list does: the declared pin takes the value, which is 0 or 1. -/
structure Setting (is_ok : Bool) (o : OutItem) (inst inst' : IlInst) : Prop where
  set : ∃ (phys_id : UInt8) (idx : Nat), Names o.label phys_id ∧
    findOutputIdx inst phys_id = some idx ∧
    inst'.outputs = inst.outputs.modify idx (setOutput is_ok o.value.stored.toUInt8)
  bit : o.value.stored ≤ 1
  name : inst'.name = inst.name
  inputs : inst'.inputs = inst.inputs
  watches : inst'.watches = inst.watches

theorem OutItem.build_cases {is_ok : Bool} {o : OutItem} (h : o.build is_ok inst = some inst') :
    Setting is_ok o inst inst' := by
  unfold OutItem.build declareOut at h
  split at h
  · cases h
  · rename_i hbit
    split at h
    · cases h
    · rename_i bp hbp
      split at h
      · cases h
      · rename_i idx hidx
        rw [← Option.some.inj h]
        exact ⟨⟨bp.physId, idx, congrArg (Option.map BoardPin.physId) hbp, hidx, rfl⟩,
          UInt16.not_lt.mp hbit, rfl, rfl, rfl⟩

/-! ## The modifiers of a group -/

/-- The number of the last modifier with the prefix, as it is written, or zero without one. -/
def modValue (pre : Word) (mods : List Word) : Nat :=
  ((mods.filter fun m => isParamMod m pre).getLast?.map fun m =>
    (Numeral.dec (m.drop pre.length)).value).getD 0

theorem modValue_append (pre : Word) (mods : List Word) (m : Word) : modValue pre (mods ++ [m]) =
      if isParamMod m pre then (Numeral.dec (m.drop pre.length)).value else modValue pre mods := by
  unfold modValue
  rw [List.filter_append]
  split
  · rename_i hm
    rw [List.filter_cons_of_pos (p := fun m => isParamMod m pre) hm, List.filter_nil,
      List.getLast?_concat]
    rfl
  · rename_i hm
    rw [List.filter_cons_of_neg (p := fun m => isParamMod m pre) hm, List.filter_nil,
      List.append_nil]

variable {m : Word}

/-- A parameter that is taken is the number that is written, and it fits in 16 bits. -/
theorem paramModValue_eq {pre : Word} {n : Nat} (h : paramModValue m pre = some n) :
    n = (Numeral.dec (m.drop pre.length)).value ∧ n ≤ 65535 := by
  have hfold : ∀ (ds : List UInt8) (v : Nat), v ≤ 65535 → ds.foldlM (fun v c =>
      if 65535 < v * 10 + (c - 0x30).toNat then none else some (v * 10 + (c - 0x30).toNat)) v =
        some n → n = ds.foldl (fun v c => v * 10 + (c - 0x30).toNat) v ∧ n ≤ 65535 := by
    intro ds
    induction ds with
    | nil =>
      intro v hv hrun
      obtain rfl := Option.some.inj hrun
      exact ⟨rfl, hv⟩
    | cons c ds ih =>
      intro v _ hrun
      obtain ⟨v', hv', hrun⟩ := Option.bind_eq_some_iff.mp hrun
      dsimp only at hv'
      split at hv'
      · exact nomatch hv'
      · rename_i hle
        obtain rfl := Option.some.inj hv'
        exact ih _ (Nat.le_of_not_lt hle) hrun
  exact hfold _ 0 (by decide) h

theorem isParamMod_head {pre : Word} (hpre : pre ≠ []) (h : isParamMod m pre = true) :
    m.head? = pre.head? := by
  unfold isParamMod at h
  simp only [Bool.and_eq_true, beq_iff_eq] at h
  obtain ⟨⟨-, htake⟩, -⟩ := h
  cases pre with
  | nil => exact absurd rfl hpre
  | cons c pre =>
    cases m with
    | nil => exact nomatch htake
    | cons d m =>
      obtain ⟨rfl, -⟩ := List.cons.inj htake
      rfl

theorem isParamMod_other (pre pre' : Word) (hne : pre ≠ [] ∧ pre' ≠ [] ∧ pre.head? ≠ pre'.head?)
    (h : isParamMod m pre = true) : isParamMod m pre' = false := by
  cases h' : isParamMod m pre' with
  | false => rfl
  | true =>
    exact absurd ((isParamMod_head hne.1 h).symm.trans (isParamMod_head hne.2.1 h')) hne.2.2

/-- The configuration of a group says what its modifiers say. -/
structure GroupCfg.Tells (cfg : GroupCfg) (mods : List Word) : Prop where
  hyst : cfg.hyst.toNat = modValue PRE_HYST mods
  debounce : cfg.debounce_depth.toNat = modValue PRE_DEBOUNCE mods

def IlPinMode.Digital (mode : IlPinMode) : Prop :=
  mode = .input ∨ mode = .inputPullUp ∨ mode = .inputPullDown

/-- Only analog inputs have a dead band, only digital ones a filter, of 2 to 15 samples. -/
structure GroupCfg.Sound (cfg : GroupCfg) : Prop where
  hyst : cfg.hyst ≠ 0 → cfg.mode = .adc
  debounce : cfg.debounce_depth = 0 ∨
    (2 ≤ cfg.debounce_depth ∧ cfg.debounce_depth ≤ 15 ∧ cfg.mode.Digital)

structure InputSoFar (mods : List Word) (cfg : GroupCfg) : Prop where
  tells : cfg.Tells mods
  digital : cfg.mode.Digital
  hyst : cfg.hyst = 0
  debounce : cfg.debounce_depth = 0 ∨ (2 ≤ cfg.debounce_depth ∧ cfg.debounce_depth ≤ 15)

variable {mods : List Word} {cfg' : GroupCfg}

theorem inputModifier_step (hcfg : InputSoFar mods cfg) (h : inputModifier cfg m = .ok cfg') :
    InputSoFar (mods ++ [m]) cfg' := by
  obtain ⟨⟨hhyst, hdeb⟩, hdig, hzero, hrange⟩ := hcfg
  -- a word without a prefix leaves the numbers as they are
  have hplain : isParamMod m PRE_HYST = false → isParamMod m PRE_DEBOUNCE = false →
      ∀ mode : IlPinMode, mode.Digital → InputSoFar (mods ++ [m]) { cfg with mode := mode } := by
    intro h₁ h₂ mode hmode
    refine ⟨⟨?_, ?_⟩, hmode, hzero, hrange⟩
    · rw [modValue_append, h₁, if_neg Bool.false_ne_true]
      exact hhyst
    · rw [modValue_append, h₂, if_neg Bool.false_ne_true]
      exact hdeb
  unfold inputModifier at h
  split at h
  · rename_i hm
    cases h
    exact hplain (by rw [hm]; decide) (by rw [hm]; decide) .inputPullUp (.inr (.inl rfl))
  split at h
  · rename_i hm
    cases h
    exact hplain (by rw [hm]; decide) (by rw [hm]; decide) .inputPullDown (.inr (.inr rfl))
  split at h
  · rename_i hm
    split at h
    · rename_i n hn
      split at h
      · exact nomatch h
      · rename_i hin
        cases h
        obtain ⟨hval, -⟩ := paramModValue_eq hn
        have hother : isParamMod m PRE_HYST = false :=
          isParamMod_other PRE_DEBOUNCE PRE_HYST (by decide) hm
        refine ⟨⟨?_, ?_⟩, hdig, hzero, .inr ⟨?_, ?_⟩⟩
        · rw [modValue_append, hother, if_neg Bool.false_ne_true]
          exact hhyst
        · rw [modValue_append, if_pos hm, ← hval]
          exact UInt8.toNat_ofNat_of_lt' (by show n < 256; omega)
        · show 2 ≤ UInt8.ofNat n
          rw [UInt8.le_iff_toNat_le, UInt8.toNat_ofNat_of_lt' (by show n < 256; omega)]
          show 2 ≤ n
          omega
        · show UInt8.ofNat n ≤ 15
          rw [UInt8.le_iff_toNat_le, UInt8.toNat_ofNat_of_lt' (by show n < 256; omega)]
          show n ≤ 15
          omega
    · exact nomatch h
  split at h
  · exact nomatch h
  split at h <;> exact nomatch h

/-- The configuration of an analog input so far. -/
structure AdcSoFar (mods : List Word) (cfg : GroupCfg) : Prop where
  tells : cfg.Tells mods
  adc : cfg.mode = .adc
  debounce : cfg.debounce_depth = 0

theorem adcModifier_step (hcfg : AdcSoFar mods cfg) (h : adcModifier cfg m = .ok cfg') :
    AdcSoFar (mods ++ [m]) cfg' := by
  obtain ⟨⟨hhyst, hdeb⟩, hadc, hzero⟩ := hcfg
  have hother : isParamMod m PRE_HYST = false → isParamMod m PRE_DEBOUNCE = false →
      ∀ oversample_exp sh_cyc : UInt8, AdcSoFar (mods ++ [m])
        { cfg with oversample_exp := oversample_exp, sh_cyc := sh_cyc } := by
    intro h₁ h₂ oversample_exp sh_cyc
    refine ⟨⟨?_, ?_⟩, hadc, hzero⟩
    · rw [modValue_append, h₁, if_neg Bool.false_ne_true]
      exact hhyst
    · rw [modValue_append, h₂, if_neg Bool.false_ne_true]
      exact hdeb
  unfold adcModifier at h
  split at h
  · rename_i hm
    split at h
    · cases h
      exact hother (isParamMod_other PRE_OVERSAMPLE PRE_HYST (by decide) hm)
        (isParamMod_other PRE_OVERSAMPLE PRE_DEBOUNCE (by decide) hm) _ _
    · exact nomatch h
  split at h
  · rename_i hm
    split at h
    · split at h
      · exact nomatch h
      · cases h
        exact hother (isParamMod_other PRE_SH PRE_HYST (by decide) hm)
          (isParamMod_other PRE_SH PRE_DEBOUNCE (by decide) hm) _ _
    · exact nomatch h
  split at h
  · rename_i hm
    split at h
    · rename_i n hn
      cases h
      obtain ⟨hval, hle⟩ := paramModValue_eq hn
      have hdebounce : isParamMod m PRE_DEBOUNCE = false :=
        isParamMod_other PRE_HYST PRE_DEBOUNCE (by decide) hm
      refine ⟨⟨?_, ?_⟩, hadc, hzero⟩
      · rw [modValue_append, if_pos hm, ← hval]
        exact UInt16.toNat_ofNat_of_lt' (by show n < 65536; omega)
      · rw [modValue_append, hdebounce, if_neg Bool.false_ne_true]
        exact hdeb
    · exact nomatch h
  split at h <;> exact nomatch h

theorem runs_of_ok {f : GroupCfg → Word → Except ParseStatus GroupCfg}
    {P : List Word → GroupCfg → Prop}
    (hstep : ∀ mods cfg cfg' m, P mods cfg → f cfg m = .ok cfg' → P (mods ++ [m]) cfg')
    (h0 : P [] cfg) (h : mods.foldlM f cfg = .ok cfg') : P mods cfg' := by
  have hrun : runs (fun g m => (f g m).toOption) cfg mods = some cfg' :=
    (foldlM_toOption f cfg mods).symm.trans (toOption_eq_some.mpr h)
  exact inv_history (P := fun _ _ => True) (I := P)
    (fun mods cfg m cfg' hP _ ht => hstep mods cfg cfg' m hP (toOption_eq_some.mp ht)) h0
    (Meets.of_forall (fun _ _ => trivial) _ _) hrun

/-- A configuration is sound, and it says what the modifiers of the group say. -/
theorem resolveMods_spec {mode : Word} (h : resolveMods (mode :: mods) = .ok cfg) :
    cfg.Sound ∧ cfg.Tells mods := by
  dsimp only [resolveMods] at h
  split at h
  · have hcfg : InputSoFar mods cfg :=
      runs_of_ok (fun _ _ _ _ => inputModifier_step) ⟨⟨rfl, rfl⟩, .inl rfl, rfl, .inl rfl⟩ h
    refine ⟨⟨fun hne => absurd hcfg.hyst hne, ?_⟩, hcfg.tells⟩
    rcases hcfg.debounce with hzero | ⟨hlo, hhi⟩
    · exact .inl hzero
    · exact .inr ⟨hlo, hhi, hcfg.digital⟩
  split at h
  · cases mods with
    | nil =>
      cases h
      exact ⟨⟨fun hne => absurd rfl hne, .inl rfl⟩, rfl, rfl⟩
    | cons m mods => exact nomatch h
  split at h
  · have hcfg : AdcSoFar mods cfg :=
      runs_of_ok (fun _ _ _ _ => adcModifier_step) ⟨⟨rfl, rfl⟩, rfl, rfl⟩ h
    exact ⟨⟨fun _ => hcfg.adc, .inl hcfg.debounce⟩, hcfg.tells⟩
  · exact nomatch h

/-- What each pin of a group keeps, the whole group keeps. -/
theorem CfgGroup.build_inv {I : IlInst → Prop} {g : CfgGroup}
    (hstep : ∀ cfg label inst inst', cfg.Sound → cfg.Tells g.mods → label ∈ g.pins.labels →
      I inst → Records cfg label inst inst' → I inst')
    (h : I inst) (hbuild : g.build inst = some inst') : I inst' := by
  obtain ⟨cfg, hcfg, hrun⟩ := CfgGroup.build_cases hbuild
  obtain ⟨hsound, htells⟩ := resolveMods_spec hcfg
  refine inv_runs (P := fun _ label => label ∈ g.pins.labels) (fun s label s' hs hlabel ht => ?_) h
    (Meets.of_mem (fun _ hlabel _ => hlabel) _) hrun
  exact hstep cfg label s s' hsound htells hlabel hs (recordPin_cases (toOption_eq_some.mp ht))

end motioncore.interlock
