-- The parser of the interlock texts takes a text for a message and makes its instance. What it
-- reads depends on the tokens alone, and what the message means never decides how it is read.
import MotionCore.Interlock.Reader
import MotionCore.Lib.Runs

open motioncore.views motioncore.machine

namespace motioncore.interlock

/-! ## The parser reads, and then declares -/

theorem onTokens_pinTuple (room : Nat) :
    OnTokens (pinTuple room) (tPinTuple room >>= fun x => pure (x.1 :: x.2)) := by
  induction room with
  | zero => exact (Views.throw _).congr fun ts => rfl
  | succ room ih =>
    have hviews : OnTokens (pinTuple (room + 1))
        (tIdent >>= fun label => tChar CH_COMMA >>= fun b =>
          if b then
            (tPinTuple room >>= fun x => pure (x.1 :: x.2)) >>= fun ls => pure (label :: ls)
          else tNeed CH_CLOSE >>= fun _ => pure [label]) :=
      onTokens_needIdent.bind fun label => (onTokens_consumeChar rfl).bind fun b =>
        Views.ite (fun _ => ih.bind fun _ => Views.pure _)
          fun _ => (onTokens_needChar rfl).bind fun _ => Views.pure _
    refine hviews.congr fun ts => ?_
    simp only [tPinTuple, bind_assoc]
    refine bind_congr fun label ts' => bind_congr fun b ts'' => ?_
    cases b <;> simp

theorem onTokens_pinList : OnTokens pinList (tPins >>= fun p => pure p.labels) := by
  have hviews : OnTokens pinList
      (tChar CH_OPEN >>= fun b =>
        if b then tPinTuple (IL_MAX_INPUTS + IL_MAX_OUTPUTS) >>= fun x => pure (x.1 :: x.2)
        else tIdent >>= fun label => pure [label]) :=
    onTokens_skipWs ((onTokens_consumeChar rfl).bind fun b =>
      Views.ite (fun _ => onTokens_pinTuple _)
        fun _ => onTokens_needIdent.bind fun _ => Views.pure _)
  refine hviews.congr fun ts => ?_
  simp only [tPins, bind_assoc]
  refine bind_congr fun b ts' => ?_
  cases b <;> simp [PinGroup.labels]

theorem onTokens_modList (room : Nat) :
    OnTokens (modList room) (tMods room >>= fun x => pure (x.1 :: x.2.1)) := by
  induction room with
  | zero => exact (Views.throw _).congr fun ts => rfl
  | succ room ih =>
    have hmore : ∀ m : Word, OnTokens
        (do
          skipWs
          if !isIdentStart (← peek) then return [m]
          else
            let save ← get
            let next ← needIdent
            set save
            if isKnownModifier next then return m :: (← modList room)
            else return [m])
        (fun ts =>
          if modifierNext ts then
            (tMods room >>= fun rest => pure (m :: rest.1 :: rest.2.1)) ts
          else some ([m], ts)) := by
      intro m
      have hone : OnTokens (pure [m]) (pure [m]) := Views.pure [m]
      have hahead := Views.ahead onTokens_needIdent fun next =>
        Views.ite (c := isKnownModifier next = true)
          (fun _ => ih.bind fun ms => Views.pure (m :: ms)) fun _ => hone
      refine (onTokens_peek (g := fun b => if !b then pure [m] else _) fun b =>
        Views.ite (fun _ => hone) fun _ => hahead).congr fun ts => ?_
      cases ts with
      | nil => rfl
      | cons t ts =>
        cases t with
        | char c => rfl
        | num n => rfl
        | ident next =>
          show (if isKnownModifier next = true then _ else _ : TokenParser (List Word)) _ = _
          unfold modifierNext
          split
          · simp
          · rfl
    have hviews : OnTokens (modList (room + 1))
        (tIdent >>= fun m => tChar CH_COMMA >>= fun b =>
          if !b then pure [m]
          else fun ts =>
            if modifierNext ts then
              (tMods room >>= fun rest => pure (m :: rest.1 :: rest.2.1)) ts
            else some ([m], ts)) :=
      onTokens_needIdent.bind fun m => (onTokens_consumeChar rfl).bind fun b =>
        Views.ite (fun _ => Views.pure _) fun _ => hmore m
    refine hviews.congr fun ts => ?_
    simp only [tMods, bind_assoc]
    refine bind_congr fun m ts' => bind_congr fun b ts'' => ?_
    cases b with
    | false => simp
    | true =>
      simp only [if_true, bind_apply, Bool.not_true, Bool.false_eq_true, if_false]
      by_cases hm : modifierNext ts'' = true
      · simp only [if_pos hm]
        cases tMods room ts'' <;> rfl
      · simp only [if_neg hm]
        rfl

variable (inst : IlInst)

/-- A group that was read has no more labels and modifiers than there is room for. -/
theorem onTokens_group :
    OnTokens (parseGroup inst) (tGroup >>= fun g => given (g.1.build inst)) := by
  have hviews : OnTokens (parseGroup inst)
      ((tPins >>= fun p => pure p.labels) >>= fun labels => tNeed CH_COLON >>= fun _ =>
        (tMods 4 >>= fun x => pure (x.1 :: x.2.1)) >>= fun mods =>
          given (resolveMods mods).toOption >>= fun cfg =>
            given (labels.foldlM (recordPin cfg) inst).toOption) :=
    onTokens_pinList.bind fun labels => (onTokens_needChar rfl).bind fun _ =>
      (onTokens_modList 4).bind fun mods => (Views.lift _).bind fun cfg => Views.lift _
  refine hviews.congr fun ts => ?_
  simp only [tGroup, bind_assoc, pure_bind]
  refine bind_congr_read fun pins ts' hpins => bind_congr fun _ ts'' =>
    bind_congr_read fun mods ts₃ hmods => ?_
  have hlabels := (tPins_iff.mp hpins).2
  have hcount := (tMods_iff.mp hmods).2.1
  unfold CfgGroup.build
  rw [bind_apply, if_neg (by dsimp only; omega)]
  dsimp only
  cases resolveMods (mods.1 :: mods.2.1) <;> rfl

theorem onTokens_op {jp : IlCompareOp → Parser IlInst} {next : IlCompareOp → TokenParser IlInst}
    (h : ∀ op, OnTokens (jp op) (next op)) : OnTokens
      (needIdent >>= fun id =>
        match readOp id with
        | none => throw .unknownOp >>= jp
        | some op => needChar CH_COLON >>= fun _ => pure op >>= jp)
      (tIdent >>= fun id => tNeed CH_COLON >>= fun _ => given (readOp id) >>= next) := by
  refine onTokens_needIdent.bind fun id => ?_
  cases readOp id with
  | none =>
    refine ((Views.throw _).bind h).congr fun ts => ?_
    rw [bind_apply, bind_apply (tNeed CH_COLON)]
    cases tNeed CH_COLON ts <;> rfl
  | some op => exact (onTokens_needChar rfl).bind fun _ => (Views.pure op).bind h

theorem onTokens_declareWatch (label : Word) (op : IlCompareOp) (threshold : UInt16) : OnTokens
      (do
        let (inst, idx) ← ExceptT.mk (pure (watchedInput inst label))
        if (inst.inputs.map (·.hyst)).getD idx 0 ≠ 0 ∧ (op = .eq ∨ op = .ne) then
          throw .hystOnEqNe
        ExceptT.mk (pure (addWatch inst ⟨idx, op, threshold⟩)))
      (given (declareWatch inst label op threshold).toOption) := by
  intro s
  rw [outcome_lift]
  unfold declareWatch
  cases watchedInput inst label with
  | error e => rfl
  | ok found =>
    obtain ⟨inst', idx⟩ := found
    dsimp only
    by_cases hbad : (inst'.inputs.map (·.hyst)).getD idx 0 ≠ 0 ∧ (op = .eq ∨ op = .ne)
    · simp only [if_pos hbad]
      rfl
    · simp only [if_neg hbad]
      exact Views.lift (addWatch inst' ⟨idx, op, threshold⟩) s

theorem onTokens_watch : OnTokens (parseWatch inst) (tWatch >>= fun w => given (w.build inst)) := by
  have hjp : ∀ (label : Word) (op : IlCompareOp), OnTokens
      (needNumber >>= fun threshold => _)
      ((tNum >>= fun n => pure n.stored) >>= fun threshold =>
        given (declareWatch inst label op threshold).toOption) := fun label op =>
    onTokens_needNumber.bind fun threshold => onTokens_declareWatch inst label op threshold
  have hviews : OnTokens (parseWatch inst)
      (tIdent >>= fun label => tNeed CH_COLON >>= fun _ => fun ts =>
        (if startsIdent ts then tIdent >>= fun id => tNeed CH_COLON >>= fun _ =>
          given (readOp id) >>= fun op => (tNum >>= fun n => pure n.stored) >>= fun threshold =>
            given (declareWatch inst label op threshold).toOption
          else pure .eq >>= fun op => (tNum >>= fun n => pure n.stored) >>= fun threshold =>
            given (declareWatch inst label op threshold).toOption) ts) :=
    onTokens_needIdent.bind fun label => (onTokens_needChar rfl).bind fun _ =>
      onTokens_peek (g := fun b => if b then _ else _) fun b =>
        Views.ite (fun _ => onTokens_op (hjp label)) fun _ => (Views.pure _).bind (hjp label)
  refine hviews.congr fun ts => ?_
  unfold tWatch
  simp only [bind_assoc, pure_bind]
  refine bind_congr fun label ts' => bind_congr fun _ ts'' => ?_
  rw [bind_apply (fun ts => _) _ ts'']
  cases hstarts : startsIdent ts'' with
  | true =>
    have hmerge := bind_apply (tIdent >>= fun op => tNeed CH_COLON >>= fun _ => pure (some op))
      (fun op => tNum >>= fun x => given (WatchItem.build inst ⟨label, op, x⟩)) ts''
    simp only [if_true]
    rw [← hmerge]
    simp only [bind_assoc, pure_bind]
    refine bind_congr fun id ts₃ => bind_congr fun _ ts₄ => ?_
    rw [given_swap]
    exact bind_congr fun threshold ts₅ => given_bind _ _ _
  | false =>
    simp only [Bool.false_eq_true, if_false, Option.bind_some]
    exact bind_congr fun threshold ts₃ => rfl

theorem onTokens_out (is_ok : Bool) (inst : IlInst) :
    OnTokens (parseOut is_ok inst) (tOut >>= fun o => given (o.build is_ok inst)) := by
  have hviews : OnTokens (parseOut is_ok inst)
      (tIdent >>= fun label => tNeed CH_COLON >>= fun _ => (tNum >>= fun n => pure n.stored) >>=
        fun v => given (declareOut is_ok inst label v).toOption) := by
    refine onTokens_needIdent.bind fun label => (onTokens_needChar rfl).bind fun _ =>
      onTokens_needNumber.bind fun v => ?_
    intro s
    unfold declareOut
    by_cases hbig : 1 < v
    · simp only [if_pos hbig]
      rfl
    · simp only [if_neg hbig]
      cases boardPinLookup label with
      | none => rfl
      | some bp =>
        dsimp only
        cases findOutputIdx inst bp.physId <;> rfl
  refine hviews.congr fun ts => ?_
  unfold tOut
  simp only [bind_assoc, pure_bind]
  rfl

/-! ## Items, sections, and the whole text -/

theorem onTokens_sep {α : Type} {item : IlInst → Parser IlInst} {read : TokenParser α}
    {build : IlInst → α → Option IlInst}
    (h : ∀ inst, OnTokens (item inst) (read >>= fun a => given (build inst a))) (fuel : Nat)
    (inst : IlInst) : OnTokens (sepByComma item fuel inst)
      (tSep read fuel >>= fun as => given ((as.1 :: as.2).foldlM build inst)) := by
  induction fuel generalizing inst with
  | zero => exact (Views.throw _).congr fun ts => rfl
  | succ fuel ih =>
    have hviews : OnTokens (sepByComma item (fuel + 1) inst)
        ((read >>= fun a => given (build inst a)) >>= fun inst => tChar CH_COMMA >>= fun b =>
          if b then tSep read fuel >>= fun as => given ((as.1 :: as.2).foldlM build inst)
          else pure inst) :=
      (h inst).bind fun inst => (onTokens_consumeChar rfl).bind fun b =>
        Views.ite (fun _ => ih inst) fun _ => Views.pure _
    refine hviews.congr fun ts => ?_
    simp only [tSep, bind_assoc]
    refine bind_congr fun a ts' => ?_
    rw [given_swap]
    refine bind_congr fun b ts'' => ?_
    cases b with
    | false =>
      simp only [Bool.false_eq_true, if_false, pure_bind]
      rw [bind_apply]
      cases hb : build inst a <;> simp [hb]
    | true =>
      simp only [if_true, bind_assoc, pure_bind]
      rw [given_swap]
      refine bind_congr fun as ts₃ => ?_
      rw [given_bind]
      rfl

theorem onTokens_cfg (fuel : Nat) (inst : IlInst) : OnTokens (sepByComma parseGroup fuel inst)
      (tSep tGroup fuel >>= fun gs =>
        given (((gs.1 :: gs.2).map (·.1)).foldlM CfgGroup.build inst)) := by
  refine (onTokens_sep onTokens_group fuel inst).congr fun ts => bind_congr fun gs ts' => ?_
  rw [List.foldlM_map]

theorem OnTokens.into {α : Type} {p : Parser IlInst} {q : TokenParser α} {f : α → Option IlInst}
    (h : OnTokens p (q >>= fun a => given (f a))) (g : IlInst → Sections) :
    OnTokens (p >>= fun inst => pure (g inst)) (q >>= fun a => given ((f a).map g)) := by
  refine (h.bind fun inst => Views.pure (g inst)).congr fun ts => ?_
  rw [bind_assoc]
  refine bind_congr fun a ts' => ?_
  rw [bind_apply]
  cases f a <;> rfl

theorem onTokens_section (fuel : Nat) (s : Sections) (kw : Word) : OnTokens (parseSection fuel s kw)
      (tContent fuel kw >>= fun sec => given (sec.build s)) := by
  unfold parseSection tContent
  split
  · refine (OnTokens.into (onTokens_cfg fuel s.inst) _).congr fun ts => ?_
    simp only [bind_assoc, pure_bind]
    rfl
  split
  · refine (OnTokens.into (onTokens_sep onTokens_watch fuel s.inst) _).congr fun ts => ?_
    simp only [bind_assoc, pure_bind]
    rfl
  split
  · refine (OnTokens.into (onTokens_sep (onTokens_out true) fuel s.inst) _).congr fun ts => ?_
    simp only [bind_assoc, pure_bind]
    rfl
  split
  · refine (OnTokens.into (onTokens_sep (onTokens_out false) fuel s.inst) _).congr fun ts => ?_
    simp only [bind_assoc, pure_bind]
    rfl
  · exact (Views.throw _).congr fun ts => rfl

theorem onTokens_sections (total fuel : Nat) (s : Sections) : OnTokens (sections total fuel s)
      (tSections total fuel >>= fun secs => given (secs.foldlM Section.build s)) := by
  induction fuel generalizing s with
  | zero => exact (Views.throw _).congr fun ts => rfl
  | succ fuel ih =>
    have hviews : OnTokens (sections total (fuel + 1) s)
        (tChar CH_SEMI >>= fun b =>
          if b then tIdent >>= fun kw => tNeed CH_OPEN_SECTION >>= fun _ =>
            (tContent total kw >>= fun sec => given (sec.build s)) >>= fun s =>
              tNeed CH_CLOSE_SECTION >>= fun _ =>
                tSections total fuel >>= fun secs => given (secs.foldlM Section.build s)
          else pure s) :=
      (onTokens_consumeChar rfl).bind fun b => Views.ite
        (fun _ => onTokens_needIdent.bind fun kw => (onTokens_needChar rfl).bind fun _ =>
          (onTokens_section total s kw).bind fun s => (onTokens_needChar rfl).bind fun _ => ih s)
        fun _ => Views.pure _
    refine hviews.congr fun ts => ?_
    simp only [tSections, bind_assoc]
    refine bind_congr fun b ts' => ?_
    cases b with
    | false => rfl
    | true =>
      simp only [if_true, tSection, bind_assoc, pure_bind]
      refine bind_congr fun kw ts₂ => bind_congr fun _ ts₃ => bind_congr fun sec ts₄ => ?_
      rw [given_swap]
      refine bind_congr fun _ ts₅ => ?_
      rw [given_swap]
      exact bind_congr fun secs ts₆ => given_bind _ _ _

theorem onTokens_text (total : Nat) :
    OnTokens (parseText total) (tMessage total >>= fun m => given m.made) := by
  have hsecs : ∀ (name : Word) (h : name.length < IL_NAME_MAX), OnTokens
      (do
        let s ← sections total total ⟨{ IlInst.zero with name := name, name_lt := h }, false, false⟩
        skipWs
        if (← get) ≠ [] then throw .unexpectedChar
        return s)
      ((tSections total total >>= fun secs => given (secs.foldlM Section.build
          ⟨{ IlInst.zero with name := name, name_lt := h }, false, false⟩)) >>=
        fun s => fun ts => if ts = [] then (pure s : TokenParser Sections) [] else none) :=
    fun name h => (onTokens_sections total total _).bind fun s => onTokens_end (Views.pure s)
  have hviews : OnTokens (parseText total)
      (tIdent >>= fun name => if h : name.length < IL_NAME_MAX then
        (tSections total total >>= fun secs => given (secs.foldlM Section.build
            ⟨{ IlInst.zero with name := name, name_lt := h }, false, false⟩)) >>=
          fun s => fun ts => if ts = [] then (pure s : TokenParser Sections) [] else none
        else given none) := by
    refine onTokens_needIdent.bind fun name => ?_
    by_cases h : name.length < IL_NAME_MAX
    · simp only [dif_pos h]
      exact hsecs name h
    · simp only [dif_neg h]
      exact Views.throw _
  refine hviews.congr fun ts => ?_
  simp only [tMessage, bind_assoc]
  refine bind_congr fun name ts' => ?_
  by_cases h : name.length < IL_NAME_MAX
  · rw [dif_pos h]
    refine bind_congr fun secs ts'' => ?_
    have hmade : (Message.mk name secs).made = secs.foldlM Section.build
        ⟨{ IlInst.zero with name := name, name_lt := h }, false, false⟩ := dif_pos h
    rw [bind_apply, bind_apply]
    by_cases hnil : ts'' = []
    · subst hnil
      show _ = given (Message.mk name secs).made []
      rw [hmade]
      cases secs.foldlM Section.build _ <;> rfl
    · rw [if_neg hnil]
      cases secs.foldlM Section.build _ with
      | none => rfl
      | some s => exact if_neg hnil
  · rw [dif_neg h]
    have hnone : ∀ secs : List Section, (Message.mk name secs).made = none :=
      fun secs => dif_neg h
    rw [bind_apply]
    cases tSections total total ts' with
    | none => rfl
    | some out =>
      rw [Option.bind_some, bind_apply]
      split
      · rw [Option.bind_some, hnone]
        rfl
      · rfl

/-! ## What the parser accepts -/

variable {m : Word}

theorem isKnownModifier_of_mem (h : m ∈ [KW_IN, KW_OUT, KW_ADC, KW_UP, KW_DOWN]) :
    isKnownModifier m = true := by
  unfold isKnownModifier
  rw [List.contains_iff_mem.mpr h, Bool.true_or]

theorem isKnownModifier_of_param {pre : Word} (h : isParamMod m pre = true)
    (hpre : pre ∈ [PRE_OVERSAMPLE, PRE_SH, PRE_HYST, PRE_DEBOUNCE]) : isKnownModifier m = true := by
  unfold isKnownModifier
  rw [List.any_eq_true.mpr ⟨pre, hpre, h⟩, Bool.or_true]

variable {g g' : GroupCfg}

theorem inputModifier_known (h : inputModifier g m = .ok g') : isKnownModifier m = true := by
  unfold inputModifier at h
  split at h
  · rename_i hm
    exact isKnownModifier_of_mem (by rw [hm]; decide)
  split at h
  · rename_i hm
    exact isKnownModifier_of_mem (by rw [hm]; decide)
  split at h
  · rename_i hm
    exact isKnownModifier_of_param hm (by decide)
  split at h
  · exact nomatch h
  split at h <;> exact nomatch h

theorem adcModifier_known (h : adcModifier g m = .ok g') : isKnownModifier m = true := by
  unfold adcModifier at h
  split at h
  · rename_i hm
    exact isKnownModifier_of_param hm (by decide)
  split at h
  · rename_i hm
    exact isKnownModifier_of_param hm (by decide)
  split at h
  · rename_i hm
    exact isKnownModifier_of_param hm (by decide)
  split at h <;> exact nomatch h

theorem foldlM_known {f : GroupCfg → Word → Except ParseStatus GroupCfg} {ms : List Word}
    (hknown : ∀ g g' m, f g m = .ok g' → isKnownModifier m = true) (h : ms.foldlM f g = .ok g') :
    ∀ m ∈ ms, isKnownModifier m = true := by
  intro m hm
  have hrun : runs (fun g m => (f g m).toOption) g ms = some g' :=
    (foldlM_toOption f g ms).symm.trans (toOption_eq_some.mpr h)
  obtain ⟨t, t', ht⟩ := runs_taken hrun m hm
  exact hknown t t' m (toOption_eq_some.mp ht)

theorem resolveMods_known {mode : Word} {mods : List Word} {cfg : GroupCfg}
    (h : resolveMods (mode :: mods) = .ok cfg) : ∀ m ∈ mods, isKnownModifier m = true := by
  dsimp only [resolveMods] at h
  split at h
  · exact foldlM_known (fun _ _ _ => inputModifier_known) h
  split at h
  · cases mods with
    | nil => exact nofun
    | cons m mods => exact nomatch h
  split at h
  · exact foldlM_known (fun _ _ _ => adcModifier_known) h
  · exact nomatch h

theorem CfgGroup.build_fits {inst inst' : IlInst} {g : CfgGroup} (h : g.build inst = some inst') :
    g.Fits := by
  unfold CfgGroup.build at h
  split at h
  · exact nomatch h
  · rename_i hroom
    obtain ⟨cfg, hcfg, -⟩ := Option.bind_eq_some_iff.mp h
    exact ⟨by omega, by omega, resolveMods_known (toOption_eq_some.mp hcfg)⟩

theorem Message.build_fits {m : Message} {inst : IlInst} (h : m.build = some inst) : m.Fits := by
  obtain ⟨s, hmade, -⟩ := Option.bind_eq_some_iff.mp h
  unfold Message.made at hmade
  split at hmade
  · intro sec hsec g hg
    obtain ⟨t, t', ht⟩ := runs_taken hmade sec hsec
    cases sec with
    | cfg g' gs comma =>
      obtain ⟨inst', hinst, -⟩ := Option.map_eq_some_iff.mp ht
      obtain ⟨u, u', hu⟩ := runs_taken hinst g hg
      exact CfgGroup.build_fits hu
    | watch w ws => exact nomatch hg
    | out is_ok o os => exact nomatch hg
  · exact nomatch hmade

/-- The message is what the text says, as the parser reads it, and it makes the instance. -/
structure Reads (text : List UInt8) (m : Message) (inst : IlInst) : Prop where
  spells : tokens text = m.print TWO_COMMAS
  makes : m.build = some inst

variable {text : List UInt8}

theorem outcome_parseText {s : Sections} {ts : List Token} :
    outcome tokens (parseText (text.length + 1)) text = some (s, ts) ↔
      ∃ m : Message, tokens text = m.print TWO_COMMAS ∧ m.Fits ∧ m.made = some s ∧ ts = [] := by
  have hlen : (tokens text).length < text.length + 1 :=
    Nat.lt_succ_of_le (tokens_length_le text)
  rw [onTokens_text _ text, bind_some_iff]
  constructor
  · rintro ⟨m, ts', hread, hmade⟩
    obtain ⟨rfl, hspells, hfits⟩ := (tMessage_iff hlen).mp hread
    obtain ⟨s', hs, heq⟩ := Option.map_eq_some_iff.mp hmade
    obtain ⟨rfl, rfl⟩ := Prod.mk.inj heq
    exact ⟨m, hspells, hfits, hs, rfl⟩
  · rintro ⟨m, hspells, hfits, hmade, rfl⟩
    refine ⟨m, [], (tMessage_iff hlen).mpr ⟨rfl, hspells, hfits⟩, ?_⟩
    rw [hmade]
    rfl

/-- The parser accepts a text when it spells a message that makes an instance. -/
theorem ilParse_iff {inst : IlInst} : ilParse text = .ok inst ↔ ∃ m, Reads text m inst := by
  have hreads : (∃ m, Reads text m inst) ↔ ∃ s ts,
      outcome tokens (parseText (text.length + 1)) text = some (s, ts) ∧
        (checkOutputs s).toOption.map (fun i => { i with tf_state := IL_TF_UNEVALUATED }) =
          some inst := by
    simp only [outcome_parseText]
    constructor
    · rintro ⟨m, hreads⟩
      obtain ⟨s, hmade, hinst⟩ := Option.bind_eq_some_iff.mp hreads.makes
      exact ⟨s, [], ⟨m, hreads.spells, Message.build_fits hreads.makes, hmade, rfl⟩, hinst⟩
    · rintro ⟨s, ts, ⟨m, hspells, -, hmade, -⟩, hinst⟩
      exact ⟨m, hspells, Option.bind_eq_some_iff.mpr ⟨s, hmade, hinst⟩⟩
  unfold ilParse
  split
  · rename_i hnil
    subst hnil
    constructor
    · exact nofun
    · rintro ⟨m, hreads⟩
      exact nomatch hreads.spells
  · rw [hreads]
    unfold outcome
    rcases (parseText (text.length + 1)).run.run text with ⟨r, rest⟩
    cases r with
    | error e => simp
    | ok s =>
      simp only [Option.some.injEq, Prod.mk.injEq]
      constructor
      · intro h
        refine ⟨s, _, ⟨rfl, rfl⟩, ?_⟩
        cases hcheck : checkOutputs s with
        | error e =>
          rw [hcheck] at h
          exact nomatch h
        | ok i =>
          rw [hcheck] at h
          exact congrArg some (Except.ok.inj h)
      · rintro ⟨s', ts, ⟨rfl, -⟩, h⟩
        cases hcheck : checkOutputs s with
        | error e =>
          rw [hcheck] at h
          exact nomatch h
        | ok i =>
          rw [hcheck] at h
          exact congrArg Except.ok (Option.some.inj h)

theorem Reads.unique {m m' : Message} {inst inst' : IlInst} (h : Reads text m inst)
    (h' : Reads text m' inst') : m = m' ∧ inst = inst' := by
  obtain rfl := print_inj (Message.build_fits h.makes) (Message.build_fits h'.makes)
    (h.spells.symm.trans h'.spells)
  exact ⟨rfl, Option.some.inj (h.makes.symm.trans h'.makes)⟩

end motioncore.interlock
