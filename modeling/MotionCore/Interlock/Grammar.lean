-- The documented grammar of an interlock text, and the texts that the parser accepts. The
-- documents put one comma between the groups of a cfg section; a group of the parser takes one
-- comma for itself, and the parser then wants another.
import Mathlib.Data.List.Chain
import MotionCore.Interlock.Parses

open motioncore.views motioncore.machine

namespace motioncore.interlock

/-! ## The documented texts -/

/-- A text as the callers of the parser give it: it fits in the record. -/
abbrev DslText := { text : List UInt8 // text.length < IL_DSL_MAX }

def ONE_COMMA : List Token := [.char CH_COMMA]

/-- No group has a comma behind it but the one in front of the next group. -/
def Section.Tidy : Section → Prop
  | .cfg _ _ comma => comma = false
  | .watch _ _ => True
  | .out _ _ _ => True

def Message.Tidy (m : Message) : Prop := ∀ sec ∈ m.sections, sec.Tidy

/-- The text belongs to the documented grammar, and this is its instance. -/
def Documented (text : List UInt8) (inst : IlInst) : Prop :=
  ∃ m : Message, m.Tidy ∧ tokens text = m.print ONE_COMMA ∧ m.build = some inst

/-- The same groups, each of them in a cfg section of its own. -/
def Section.apart : Section → List Section
  | .cfg g gs _ => (g :: gs).map fun g => .cfg g [] false
  | sec => [sec]

def Message.apart (m : Message) : Message := { m with sections := m.sections.flatMap Section.apart }

/-- Something must follow this token. -/
def opens (t : Token) : Bool :=
  t = .char CH_OPEN || t = .char CH_OPEN_SECTION || t = .char CH_COMMA

/-- Something must stand in front of this token. -/
def closes (t : Token) : Bool :=
  t = .char CH_CLOSE || t = .char CH_CLOSE_SECTION || t = .char CH_COMMA

/-- Somewhere nothing stands where something must: a doubled comma, an empty group or list. -/
def Hollow (ts : List Token) : Prop :=
  ∃ a b, opens a = true ∧ closes b = true ∧ [a, b] <:+: ts

/-- The parser accepts the text when the grammar has it, whether its groups share their sections
or not, and never when something is missing. -/
structure FollowsGrammar (text : DslText) : Prop where
  accepts : ∀ inst, ilParse text = .ok inst ↔ Documented text inst
  shared : ∀ (m : Message) (inst : IlInst), m.Tidy → tokens text = m.print ONE_COMMA →
    m.build = some inst → ∀ text' : DslText, tokens text' = m.apart.print ONE_COMMA →
      ilParse text = .ok inst ∧ ilParse text' = .ok inst
  hollow : Hollow (tokens text) → ∀ inst, ilParse text ≠ .ok inst

/-! ## The condition -/

/-- The text is this message, with the documented commas or with those that the parser reads. -/
def Spells (text : List UInt8) (m : Message) : Prop :=
  (m.Tidy ∧ tokens text = m.print ONE_COMMA) ∨ tokens text = m.print TWO_COMMAS

/-- A cfg section has one group, and no comma behind it. -/
def Section.Plain : Section → Prop
  | .cfg _ gs comma => gs = [] ∧ comma = false
  | .watch _ _ => True
  | .out _ _ _ => True

def Message.Plain (m : Message) : Prop := ∀ sec ∈ m.sections, sec.Plain

/-- Each cfg section of the text has one group only. -/
def OneGroupEach (text : DslText) : Prop :=
  ∀ (m : Message) (inst : IlInst), Spells text m → m.build = some inst → m.Plain

/-! ## Plain messages -/

variable {m : Message}

theorem Message.Plain.tidy (h : m.Plain) : m.Tidy := by
  intro sec hsec
  have hplain := h sec hsec
  cases sec with
  | cfg g gs comma => exact hplain.2
  | watch w ws => trivial
  | out is_ok o os => trivial

theorem Message.Plain.print_eq (h : m.Plain) (sep sep' : List Token) :
    m.print sep = m.print sep' := by
  unfold Message.print
  congr 1
  refine List.flatMap_congr fun sec hsec => ?_
  have hplain := h sec hsec
  cases sec with
  | cfg g gs comma =>
    obtain ⟨rfl, rfl⟩ := hplain
    rfl
  | watch w ws => rfl
  | out is_ok o os => rfl

theorem Message.apart_plain (m : Message) : m.apart.Plain := by
  intro sec hsec
  obtain ⟨sec', hsec', hmem⟩ := List.mem_flatMap.mp hsec
  cases sec' with
  | cfg g gs comma =>
    obtain ⟨g', -, rfl⟩ := List.mem_map.mp hmem
    exact ⟨rfl, rfl⟩
  | watch w ws =>
    obtain rfl := List.mem_singleton.mp hmem
    trivial
  | out is_ok o os =>
    obtain rfl := List.mem_singleton.mp hmem
    trivial

theorem Section.apart_build (sec : Section) (s : Sections) :
    sec.apart.foldlM Section.build s = sec.build s := by
  have hone : ∀ sec : Section, [sec].foldlM Section.build s = sec.build s := by
    intro sec
    rw [List.foldlM_cons]
    cases sec.build s <;> rfl
  cases sec with
  | cfg g gs comma =>
    have hgroups : ∀ (gs : List CfgGroup) (s : Sections),
        (gs.map fun g => Section.cfg g [] false).foldlM Section.build s =
          (gs.foldlM CfgGroup.build s.inst).map fun inst => { s with inst := inst } := by
      intro gs
      induction gs with
      | nil => exact fun _ => rfl
      | cons g gs ih =>
        intro s
        rw [List.map_cons, List.foldlM_cons, List.foldlM_cons]
        have hsec : (Section.cfg g [] false).build s =
            (g.build s.inst).map fun inst => { s with inst := inst } := by
          show ([g].foldlM CfgGroup.build s.inst).map _ = _
          rw [List.foldlM_cons]
          cases g.build s.inst <;> rfl
        rw [hsec]
        cases g.build s.inst with
        | none => rfl
        | some inst => exact ih { s with inst := inst }
    exact hgroups (g :: gs) s
  | watch w ws => exact hone _
  | out is_ok o os => exact hone _

/-- The groups make the same instance in sections of their own. -/
theorem Message.apart_build (m : Message) : m.apart.build = m.build := by
  have hsecs : ∀ (secs : List Section) (s : Sections),
      (secs.flatMap Section.apart).foldlM Section.build s = secs.foldlM Section.build s := by
    intro secs
    induction secs with
    | nil => exact fun _ => rfl
    | cons sec secs ih =>
      intro s
      rw [List.flatMap_cons, List.foldlM_append, List.foldlM_cons, Section.apart_build]
      cases sec.build s with
      | none => rfl
      | some s' => exact ih s'
  unfold Message.build Message.made Message.apart
  dsimp only
  split
  · rw [hsecs]
  · rfl

/-! ## Nothing is missing in a documented text -/

/-- The tokens begin and end with something, and nothing is missing between them. -/
structure Firm (ts : List Token) : Prop where
  chain : ts.IsChain fun a b => ¬ (opens a = true ∧ closes b = true)
  head : ∃ a ∈ ts.head?, closes a = false
  last : ∃ b ∈ ts.getLast?, opens b = false

variable {ts : List Token}

theorem Firm.not_hollow (h : Firm ts) : ¬ Hollow ts := by
  rintro ⟨a, b, ha, hb, hin⟩
  have hpair := h.chain.infix hin
  exact (List.isChain_cons_cons.mp hpair).1 ⟨ha, hb⟩

theorem Firm.one {t : Token} (hc : closes t = false) (ho : opens t = false) : Firm [t] :=
  ⟨.singleton t, ⟨t, rfl, hc⟩, t, rfl, ho⟩

variable {us : List Token}

theorem Firm.append (h : Firm ts) (h' : Firm us) : Firm (ts ++ us) := by
  obtain ⟨a, ha, hca⟩ := h.head
  obtain ⟨b, hb, hob⟩ := h.last
  obtain ⟨c, hc, hcc⟩ := h'.head
  obtain ⟨d, hd, hod⟩ := h'.last
  refine ⟨h.chain.append h'.chain ?_, ⟨a, ?_, hca⟩, d, ?_, hod⟩
  · rintro x hx - - ⟨hox, -⟩
    rw [Option.mem_unique hx hb, hob] at hox
    exact nomatch hox
  · rw [List.head?_append, Option.mem_def.mp ha]
    rfl
  · rw [List.getLast?_append, Option.mem_def.mp hd]
    rfl

theorem Firm.comma (h : Firm ts) (h' : Firm us) : Firm (ts ++ .char CH_COMMA :: us) := by
  obtain ⟨a, ha, hca⟩ := h.head
  obtain ⟨b, hb, hob⟩ := h.last
  obtain ⟨c, hc, hcc⟩ := h'.head
  obtain ⟨d, hd, hod⟩ := h'.last
  obtain ⟨us', rfl⟩ := List.head?_eq_some_iff.mp hc
  refine ⟨h.chain.append (List.isChain_cons_cons.mpr ⟨?_, h'.chain⟩) ?_, ⟨a, ?_, hca⟩, d, ?_, hod⟩
  · rintro ⟨-, hbad⟩
    rw [hcc] at hbad
    exact nomatch hbad
  · rintro x hx - - ⟨hox, -⟩
    rw [Option.mem_unique hx hb, hob] at hox
    exact nomatch hox
  · rw [List.head?_append, Option.mem_def.mp ha]
    rfl
  · rw [List.getLast?_append, List.getLast?_cons_cons, Option.mem_def.mp hd]
    rfl

/-- What stands between an opening and a closing. -/
theorem Firm.within {a b : Token} (h : Firm ts) (ha : closes a = false) (hb : opens b = false) :
    Firm (a :: (ts ++ [b])) := by
  obtain ⟨c, hc, hcc⟩ := h.head
  obtain ⟨d, hd, hod⟩ := h.last
  obtain ⟨ts', rfl⟩ := List.head?_eq_some_iff.mp hc
  refine ⟨List.isChain_cons_cons.mpr ⟨?_, ?_⟩, ⟨a, rfl, ha⟩, b, ?_, hb⟩
  · rintro ⟨-, hbad⟩
    rw [hcc] at hbad
    exact nomatch hbad
  · refine h.chain.append (.singleton b) ?_
    rintro x hx - - ⟨hox, -⟩
    rw [Option.mem_unique hx hd, hod] at hox
    exact nomatch hox
  · rw [← List.cons_append, List.getLast?_concat]
    rfl

variable (w : Word) (g : CfgGroup) (ws : List Word)

theorem firm_words : Firm (printWords w ws) := by
  induction ws generalizing w with
  | nil => exact .one rfl rfl
  | cons w' ws ih =>
    have hone : Firm [.ident w] := .one rfl rfl
    exact hone.comma (ih w')

theorem firm_pins (p : PinGroup) : Firm p.print := by
  cases p with
  | one label => exact .one rfl rfl
  | tuple label labels => exact (firm_words label labels).within rfl rfl

theorem firm_group : Firm g.print := by
  have hcolon : Firm [.char CH_COLON] := .one rfl rfl
  exact (firm_pins g.pins).append (hcolon.append (firm_words g.mode g.mods))

theorem firm_watch (w : WatchItem) : Firm w.print := by
  have hlabel : Firm [.ident w.label, .char CH_COLON] :=
    Firm.append (.one (t := .ident w.label) rfl rfl) (.one rfl rfl)
  have hnum : Firm [.num w.threshold] := .one rfl rfl
  unfold WatchItem.print
  cases w.op with
  | none => exact hlabel.append hnum
  | some op =>
    have hop : Firm [.ident op, .char CH_COLON] :=
      Firm.append (.one (t := .ident op) rfl rfl) (.one rfl rfl)
    exact hlabel.append (hop.append hnum)

theorem firm_out (o : OutItem) : Firm o.print := by
  have hlabel : Firm [.ident o.label, .char CH_COLON] :=
    Firm.append (.one (t := .ident o.label) rfl rfl) (.one rfl rfl)
  exact hlabel.append (.one rfl rfl)

theorem firm_items {α : Type} {print : α → List Token} (h : ∀ a, Firm (print a)) (a : α)
    (as : List α) : Firm (printItems print ONE_COMMA a as) := by
  induction as generalizing a with
  | nil => exact h a
  | cons b bs ih =>
    have hcomma := (h a).comma (ih b)
    rw [printItems, List.append_assoc]
    exact hcomma

variable {sec : Section}

theorem firm_content (h : sec.Tidy) : Firm (sec.content ONE_COMMA) := by
  cases sec with
  | cfg g gs comma =>
    obtain rfl : comma = false := h
    show Firm (printItems CfgGroup.print ONE_COMMA g gs ++ [])
    rw [List.append_nil]
    exact firm_items firm_group g gs
  | watch w ws => exact firm_items firm_watch w ws
  | out is_ok o os => exact firm_items firm_out o os

theorem firm_section (h : sec.Tidy) : Firm (sec.print ONE_COMMA) := by
  have hhead : Firm [.char CH_SEMI, .ident sec.keyword] :=
    Firm.append (.one (t := .char CH_SEMI) rfl rfl) (.one rfl rfl)
  exact hhead.append ((firm_content h).within rfl rfl)

theorem firm_message (h : m.Tidy) : Firm (m.print ONE_COMMA) := by
  have hsecs : ∀ secs : List Section, (∀ sec ∈ secs, sec.Tidy) → ∀ {ts : List Token}, Firm ts →
      Firm (ts ++ secs.flatMap (Section.print ONE_COMMA)) := by
    intro secs
    induction secs with
    | nil =>
      intro _ ts hts
      rw [List.flatMap_nil, List.append_nil]
      exact hts
    | cons sec secs ih =>
      intro htidy ts hts
      obtain ⟨hsec, htidy⟩ := List.forall_mem_cons.mp htidy
      rw [List.flatMap_cons, ← List.append_assoc]
      exact ih htidy (hts.append (firm_section hsec))
  exact hsecs m.sections h (.one (t := .ident m.name) rfl rfl)

/-! ## The commas that the parser reads -/

/-- Where a section has more than its one group, something is missing in the text that the
parser reads. -/
theorem hollow_of_not_plain (h : ¬ m.Plain) : Hollow (m.print TWO_COMMAS) := by
  unfold Message.Plain at h
  simp only [not_forall] at h
  obtain ⟨sec, hsec, hplain⟩ := h
  have hin : sec.content TWO_COMMAS ++ [Token.char CH_CLOSE_SECTION] <:+: m.print TWO_COMMAS := by
    have hprint : sec.content TWO_COMMAS ++ [Token.char CH_CLOSE_SECTION] <:+ sec.print TWO_COMMAS :=
      ⟨[.char CH_SEMI, .ident sec.keyword, .char CH_OPEN_SECTION], rfl⟩
    obtain ⟨before, after, hsecs⟩ := List.append_of_mem hsec
    refine hprint.isInfix.trans ⟨.ident m.name :: before.flatMap (Section.print TWO_COMMAS),
      after.flatMap (Section.print TWO_COMMAS), ?_⟩
    simp [Message.print, hsecs]
  cases sec with
  | watch w ws => exact absurd trivial hplain
  | out is_ok o os => exact absurd trivial hplain
  | cfg g gs comma =>
    cases gs with
    | cons g' gs =>
      refine ⟨.char CH_COMMA, .char CH_COMMA, rfl, rfl, List.IsInfix.trans ?_ hin⟩
      refine ⟨g.print, printItems CfgGroup.print TWO_COMMAS g' gs ++ commaIf comma ++
        [.char CH_CLOSE_SECTION], ?_⟩
      simp [Section.content, printItems, TWO_COMMAS, commaIf]
    | nil =>
      cases comma with
      | false => exact absurd ⟨rfl, rfl⟩ hplain
      | true =>
        refine ⟨.char CH_COMMA, .char CH_CLOSE_SECTION, rfl, rfl, List.IsInfix.trans ?_ hin⟩
        exact ⟨g.print, [], by simp [Section.content, printItems]⟩

/-! ## The groups of a text -/

theorem count_words : (printWords w ws).count (.char CH_COLON) = 0 := by
  induction ws generalizing w with
  | nil => rfl
  | cons w' ws ih =>
    simp only [printWords, List.count_cons, ih]
    rfl

theorem count_group : g.print.count (.char CH_COLON) = 1 := by
  have hpins : g.pins.print.count (.char CH_COLON) = 0 := by
    cases g.pins with
    | one label => rfl
    | tuple label labels =>
      rw [PinGroup.print, List.count_cons, List.count_append, count_words]
      rfl
  rw [CfgGroup.print, List.count_append, hpins, List.count_cons, count_words]
  rfl

theorem count_groups (gs : List CfgGroup) :
    (printItems CfgGroup.print ONE_COMMA g gs).count (.char CH_COLON) = gs.length + 1 := by
  induction gs generalizing g with
  | nil => exact count_group g
  | cons g' gs ih =>
    rw [printItems, List.count_append, List.count_append, count_group, ih]
    show 1 + 0 + _ = _
    rw [List.length_cons]
    omega

theorem close_not_mem_words : Token.char CH_CLOSE_SECTION ∉ printWords w ws := by
  induction ws generalizing w with
  | nil => simp [printWords]
  | cons w' ws ih => simpa [printWords, CH_COMMA, CH_CLOSE_SECTION] using ih w'

theorem close_not_mem_items {α : Type} {print : α → List Token}
    (h : ∀ a, Token.char CH_CLOSE_SECTION ∉ print a) (a : α) (as : List α) :
    Token.char CH_CLOSE_SECTION ∉ printItems print ONE_COMMA a as := by
  induction as generalizing a with
  | nil => exact h a
  | cons b bs ih =>
    have hcomma : Token.char CH_CLOSE_SECTION ∉ ONE_COMMA := by decide
    rw [printItems, List.mem_append, List.mem_append]
    rintro ((hin | hin) | hin)
    · exact h a hin
    · exact hcomma hin
    · exact ih b hin

/-- A section ends at its first closing bracket. -/
theorem close_not_mem_content (sec : Section) :
    Token.char CH_CLOSE_SECTION ∉ sec.content ONE_COMMA := by
  cases sec with
  | cfg g gs comma =>
    have hgroup : ∀ g : CfgGroup, Token.char CH_CLOSE_SECTION ∉ g.print := by
      rintro ⟨pins, mode, mods⟩
      have hmods := close_not_mem_words mode mods
      cases pins with
      | one label => simpa [CfgGroup.print, PinGroup.print, CH_COLON, CH_CLOSE_SECTION] using hmods
      | tuple label labels =>
        have hlabels := close_not_mem_words label labels
        simp only [CfgGroup.print, PinGroup.print, List.mem_append, List.mem_cons]
        rintro ((h | h | h | h) | h | h)
        · exact absurd h (by decide)
        · exact hlabels h
        · exact absurd h (by decide)
        · cases h
        · exact absurd h (by decide)
        · exact hmods h
    rw [Section.content, List.mem_append]
    rintro (hin | hin)
    · exact close_not_mem_items hgroup g gs hin
    · cases comma with
      | true => exact absurd hin (by decide)
      | false => cases hin
  | watch w ws =>
    refine close_not_mem_items (fun w => ?_) w ws
    obtain ⟨label, op, threshold⟩ := w
    cases op <;> simp [WatchItem.print, CH_COLON, CH_CLOSE_SECTION]
  | out is_ok o os =>
    refine close_not_mem_items (fun o => ?_) o os
    simp [OutItem.print, CH_COLON, CH_CLOSE_SECTION]

theorem keyword_cfg (h : sec.keyword = KW_CFG) : ∃ g gs comma, sec = .cfg g gs comma := by
  cases sec with
  | cfg g gs comma => exact ⟨g, gs, comma, rfl⟩
  | watch w ws => exact absurd (show KW_WATCH = KW_CFG from h) (by decide)
  | out is_ok o os =>
    cases is_ok with
    | true => exact absurd (show KW_OUT_OK = KW_CFG from h) (by decide)
    | false => exact absurd (show KW_OUT_ERR = KW_CFG from h) (by decide)

theorem eq_before {a : Token} {ts' us' : List Token} (h : ts ++ a :: us = ts' ++ a :: us')
    (hts : a ∉ ts) (hts' : a ∉ ts') : ts = ts' ∧ us = us' := by
  have hsame : ∀ {ts us ts' us' c : List Token}, a ∉ ts' → ts' = ts ++ c → a :: us = c ++ a :: us' →
      ts = ts' ∧ us = us' := by
    intro ts us ts' us' c hts' hc hus
    cases c with
    | nil => exact ⟨by rw [hc, List.append_nil], (List.cons.inj hus).2⟩
    | cons b c =>
      obtain ⟨rfl, -⟩ := List.cons.inj hus
      exact absurd (hc ▸ List.mem_append_right ts List.mem_cons_self) hts'
  rcases List.append_eq_append_iff.mp h with ⟨c, hc, hus⟩ | ⟨c, hc, hus⟩
  · exact hsame hts' hc hus
  · obtain ⟨h₁, h₂⟩ := hsame hts hc hus
    exact ⟨h₁.symm, h₂.symm⟩

/-- Two documented readings of a text have the same number of groups in each section. -/
theorem plain_of_plain {m' : Message} (h : m.print ONE_COMMA = m'.print ONE_COMMA) (hm : m.Tidy)
    (hm' : m'.Plain) : m.Plain := by
  have hsecs : ∀ secs secs' : List Section, secs.flatMap (Section.print ONE_COMMA) =
      secs'.flatMap (Section.print ONE_COMMA) → (∀ sec ∈ secs, sec.Tidy) →
      (∀ sec ∈ secs', sec.Plain) → ∀ sec ∈ secs, sec.Plain := by
    intro secs
    induction secs with
    | nil => exact fun _ _ _ _ => nofun
    | cons sec secs ih =>
      intro secs' heq htidy hplain
      cases secs' with
      | nil => exact nomatch heq
      | cons sec' secs' =>
        obtain ⟨hsec, htidy⟩ := List.forall_mem_cons.mp htidy
        obtain ⟨hsec', hplain⟩ := List.forall_mem_cons.mp hplain
        rw [List.flatMap_cons, List.flatMap_cons] at heq
        simp only [Section.print, List.cons_append, List.cons.injEq, Token.ident.injEq, true_and,
          List.append_assoc] at heq
        obtain ⟨hkw, heq⟩ := heq
        obtain ⟨hcontent, hrest⟩ :=
          eq_before heq (close_not_mem_content sec) (close_not_mem_content sec')
        refine List.forall_mem_cons.mpr ⟨?_, ih secs' hrest htidy hplain⟩
        cases sec with
        | watch w ws => trivial
        | out is_ok o os => trivial
        | cfg g gs comma =>
          obtain rfl : comma = false := hsec
          obtain ⟨g', gs', comma', rfl⟩ := keyword_cfg hkw.symm
          obtain ⟨rfl, rfl⟩ := hsec'
          have hcount := congrArg (List.count (.char CH_COLON)) hcontent
          simp only [Section.content, Bool.false_eq_true, if_false, List.append_nil, count_groups,
            List.length_nil] at hcount
          exact ⟨List.eq_nil_of_length_eq_zero (by omega), rfl⟩
  exact hsecs m.sections m'.sections (List.cons.inj h).2 hm hm'

/-! ## The grammar of the parser -/

/-- What is written plainly is read as it is documented. -/
theorem reads_of_plain {text : List UInt8} {inst : IlInst} (hm : m.Plain)
    (hspells : tokens text = m.print ONE_COMMA) (hbuild : m.build = some inst) :
    ilParse text = .ok inst :=
  ilParse_iff.mpr ⟨m, hspells.trans (hm.print_eq _ _), hbuild⟩

/-- The parser follows the documented grammar on just the texts with one group in each of their
cfg sections. -/
theorem follows_grammar_iff (text : DslText) : FollowsGrammar text ↔ OneGroupEach text := by
  constructor
  · intro h
    -- a reading of the parser is a text that it accepts, in which nothing may be missing
    have hread : ∀ (m : Message) (inst : IlInst), Reads text m inst → m.Plain := by
      intro m inst hreads
      by_contra hplain
      refine h.hollow ?_ inst (ilParse_iff.mpr ⟨m, hreads⟩)
      rw [hreads.spells]
      exact hollow_of_not_plain hplain
    intro m inst hspells hbuild
    rcases hspells with ⟨htidy, hspells⟩ | hspells
    · obtain ⟨m', hreads⟩ := ilParse_iff.mp ((h.accepts inst).mpr ⟨m, htidy, hspells, hbuild⟩)
      have hplain := hread m' inst hreads
      refine plain_of_plain ?_ htidy hplain
      rw [← hspells, hreads.spells]
      exact hplain.print_eq _ _
    · exact hread m inst ⟨hspells, hbuild⟩
  · intro h
    have hread : ∀ (m : Message) (inst : IlInst), Reads text m inst → m.Plain :=
      fun m inst hreads => h m inst (.inr hreads.spells) hreads.makes
    refine ⟨fun inst => ⟨fun hok => ?_, ?_⟩, ?_, ?_⟩
    · obtain ⟨m, hreads⟩ := ilParse_iff.mp hok
      have hplain := hread m inst hreads
      exact ⟨m, hplain.tidy, hreads.spells.trans (hplain.print_eq _ _), hreads.makes⟩
    · rintro ⟨m, htidy, hspells, hbuild⟩
      exact reads_of_plain (h m inst (.inl ⟨htidy, hspells⟩) hbuild) hspells hbuild
    · intro m inst htidy hspells hbuild text' hspells'
      refine ⟨reads_of_plain (h m inst (.inl ⟨htidy, hspells⟩) hbuild) hspells hbuild, ?_⟩
      exact reads_of_plain m.apart_plain hspells' (m.apart_build.trans hbuild)
    · intro hhollow inst hok
      obtain ⟨m, hreads⟩ := ilParse_iff.mp hok
      have hplain := hread m inst hreads
      rw [hreads.spells, ← hplain.print_eq ONE_COMMA TWO_COMMAS] at hhollow
      exact (firm_message hplain.tidy).not_hollow hhollow

/-- The groups of the documented example, in a whole text. -/
def exampleText : List UInt8 :=
  ascii ['x', ';', 'c', 'f', 'g', '[', '(', 'D', '1', ',', 'D', '2', ')', ':', 'i', 'n', ',', 'u',
    'p', ',', '(', 'D', '3', ')', ':', 'o', 'u', 't', ']', ';', 'o', 'u', 't', '_', 'o', 'k', '[',
    'D', '3', ':', '1', ']', ';', 'o', 'u', 't', '_', 'e', 'r', 'r', '[', 'D', '3', ':', '0', ']']

def exampleMessage : Message where
  name := ascii ['x']
  sections :=
    [.cfg ⟨.tuple (ascii ['D', '1']) [ascii ['D', '2']], KW_IN, [KW_UP]⟩
        [⟨.tuple (ascii ['D', '3']) [], KW_OUT, []⟩] false,
      .out true ⟨ascii ['D', '3'], .dec [0x31]⟩ [],
      .out false ⟨ascii ['D', '3'], .dec [0x30]⟩ []]

set_option maxRecDepth 16000 in
/-- The documented example is rejected. -/
theorem documented_example_is_rejected : ¬ ∀ text, FollowsGrammar text := by
  intro h
  have hspells : tokens exampleText = exampleMessage.print ONE_COMMA := by decide
  have hbuild : exampleMessage.build.isSome = true := by decide
  have hrejects : (ilParse exampleText).toOption = none := by decide
  obtain ⟨inst, hinst⟩ := Option.isSome_iff_exists.mp hbuild
  have htidy : exampleMessage.Tidy := by
    simp [Message.Tidy, exampleMessage, Section.Tidy]
  have hok := ((h ⟨exampleText, by decide⟩).accepts inst).mpr ⟨_, htidy, hspells, hinst⟩
  rw [hok] at hrejects
  exact nomatch hrejects

end motioncore.interlock
