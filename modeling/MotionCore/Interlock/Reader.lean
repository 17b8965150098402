-- Readers that take tokens for the parts of a message. Each reads just what is written there,
-- and stops where the next part begins.
import MotionCore.Interlock.Syntax

open motioncore.views

namespace motioncore.interlock

/-! ## Reading the parts -/

def tPinTuple : (room : Nat) → TokenParser (Word × List Word)
  | 0 => given none
  | room + 1 => do
    let label ← tIdent
    if ← tChar CH_COMMA then
      let rest ← tPinTuple room
      return (label, rest.1 :: rest.2)
    else
      tNeed CH_CLOSE
      return (label, [])

def tPins : TokenParser PinGroup := do
  if ← tChar CH_OPEN then
    let labels ← tPinTuple (IL_MAX_INPUTS + IL_MAX_OUTPUTS)
    return .tuple labels.1 labels.2
  else
    let label ← tIdent
    return .one label

def modifierNext : List Token → Bool
  | .ident next :: _ => isKnownModifier next
  | _ => false

/-- A mode and its modifiers, and whether a comma was read behind them. -/
def tMods : (room : Nat) → TokenParser (Word × List Word × Bool)
  | 0 => given none
  | room + 1 => do
    let m ← tIdent
    if ← tChar CH_COMMA then
      fun ts =>
        if modifierNext ts then
          (tMods room >>= fun rest => pure (m, rest.1 :: rest.2.1, rest.2.2)) ts
        else some ((m, [], true), ts)
    else return (m, [], false)

/-- A group, and whether a comma was read behind it. -/
def tGroup : TokenParser (CfgGroup × Bool) := do
  let pins ← tPins
  tNeed CH_COLON
  let mods ← tMods 4
  return (⟨pins, mods.1, mods.2.1⟩, mods.2.2)

def tWatch : TokenParser WatchItem := do
  let label ← tIdent
  tNeed CH_COLON
  let op ← fun ts =>
    if startsIdent ts then
      (tIdent >>= fun op => tNeed CH_COLON >>= fun _ => pure (some op)) ts
    else some (none, ts)
  let threshold ← tNum
  return ⟨label, op, threshold⟩

def tOut : TokenParser OutItem := do
  let label ← tIdent
  tNeed CH_COLON
  let value ← tNum
  return ⟨label, value⟩

/-- Items with commas between them. -/
def tSep {α : Type} (item : TokenParser α) : (fuel : Nat) → TokenParser (α × List α)
  | 0 => given none
  | fuel + 1 => do
    let a ← item
    if ← tChar CH_COMMA then
      let rest ← tSep item fuel
      return (a, rest.1 :: rest.2)
    else return (a, [])

/-- The groups that were read, with the comma behind the last of them. -/
def cfgSection (gs : (CfgGroup × Bool) × List (CfgGroup × Bool)) : Section :=
  .cfg gs.1.1 (gs.2.map (·.1)) (gs.2.getLastD gs.1).2

/-- The items of a section, by its keyword. -/
def tContent (total : Nat) (kw : Word) : TokenParser Section :=
  if kw = KW_CFG then tSep tGroup total >>= fun gs => pure (cfgSection gs)
  else if kw = KW_WATCH then tSep tWatch total >>= fun ws => pure (.watch ws.1 ws.2)
  else if kw = KW_OUT_OK then tSep tOut total >>= fun os => pure (.out true os.1 os.2)
  else if kw = KW_OUT_ERR then tSep tOut total >>= fun os => pure (.out false os.1 os.2)
  else given none

def tSection (total : Nat) : TokenParser Section := do
  let kw ← tIdent
  tNeed CH_OPEN_SECTION
  let sec ← tContent total kw
  tNeed CH_CLOSE_SECTION
  return sec

def tSections (total : Nat) : (fuel : Nat) → TokenParser (List Section)
  | 0 => given none
  | fuel + 1 => do
    if ← tChar CH_SEMI then
      let sec ← tSection total
      let secs ← tSections total fuel
      return sec :: secs
    else return []

def tMessage (total : Nat) : TokenParser Message := do
  let name ← tIdent
  let secs ← tSections total total
  fun ts => if ts = [] then some (⟨name, secs⟩, []) else none

/-! ## What they read -/

def NotNext (c : UInt8) (ts : List Token) : Prop := ts.head? ≠ some (.char c)

variable {c : UInt8}

theorem notNext_char {d : UInt8} (h : d ≠ c) (ts : List Token) : NotNext c (.char d :: ts) := by
  intro he
  exact h (Token.char.inj (Option.some.inj he))

theorem notNext_ident (c : UInt8) (id : Word) (ts : List Token) : NotNext c (.ident id :: ts) :=
  nofun

variable {ts rest : List Token}

theorem tIdent_iff {id : Word} : tIdent ts = some (id, rest) ↔ ts = .ident id :: rest := by
  unfold tIdent
  split
  · simp
  · rename_i hne
    simp only [reduceCtorEq, false_iff]
    exact fun h => hne _ _ h

theorem tNum_iff {n : Numeral} : tNum ts = some (n, rest) ↔ ts = .num n :: rest := by
  unfold tNum
  split
  · simp
  · rename_i hne
    simp only [reduceCtorEq, false_iff]
    exact fun h => hne _ _ h

theorem tNeed_iff {u : Unit} : tNeed c ts = some (u, rest) ↔ ts = .char c :: rest := by
  unfold tNeed
  split
  · split
    · rename_i h
      subst h
      simp
    · rename_i h
      simp [h]
  · rename_i hne
    simp only [reduceCtorEq, false_iff]
    exact fun h => hne _ _ h

theorem tChar_true_iff : tChar c ts = some (true, rest) ↔ ts = .char c :: rest := by
  unfold tChar
  split
  · split
    · rename_i h
      subst h
      simp
    · rename_i h
      simp [h]
  · rename_i hne
    simp only [Option.some.injEq, Prod.mk.injEq, Bool.false_eq_true, false_and, false_iff]
    exact fun h => hne _ _ h

theorem tChar_false_iff : tChar c ts = some (false, rest) ↔ ts = rest ∧ NotNext c rest := by
  unfold tChar NotNext
  split
  · split
    · rename_i h
      subst h
      simp only [Option.some.injEq, Prod.mk.injEq, Bool.true_eq_false, false_and, false_iff,
        not_and, ne_eq, not_not]
      rintro rfl
      rfl
    · rename_i d ts' h
      simp only [Option.some.injEq, Prod.mk.injEq, true_and, iff_self_and]
      rintro rfl
      simpa using h
  · rename_i hne
    simp only [Option.some.injEq, Prod.mk.injEq, true_and, iff_self_and]
    rintro rfl hhead
    obtain ⟨ts', hts⟩ := List.head?_eq_some_iff.mp hhead
    exact hne _ _ hts

theorem tPinTuple_iff {room : Nat} {x : Word × List Word} : tPinTuple room ts = some (x, rest) ↔
      ts = printWords x.1 x.2 ++ .char CH_CLOSE :: rest ∧ x.2.length < room := by
  induction room generalizing ts x rest with
  | zero => simp [tPinTuple]
  | succ room ih =>
    obtain ⟨label, labels⟩ := x
    simp only [tPinTuple, bind_some_iff, tIdent_iff]
    constructor
    · rintro ⟨label', ts₁, rfl, b, ts₂, hb, h⟩
      cases b with
      | true =>
        rw [tChar_true_iff] at hb
        subst hb
        simp only [if_true, bind_some_iff, ih] at h
        obtain ⟨x, ts₃, ⟨rfl, hlen⟩, h⟩ := h
        obtain ⟨hx, rfl⟩ := Prod.mk.inj (Option.some.inj h)
        obtain ⟨rfl, rfl⟩ := Prod.mk.inj hx
        exact ⟨rfl, Nat.succ_lt_succ hlen⟩
      | false =>
        rw [tChar_false_iff] at hb
        simp only [Bool.false_eq_true, if_false, bind_some_iff, tNeed_iff] at h
        obtain ⟨-, ts₃, hts, h⟩ := h
        obtain ⟨hx, rfl⟩ := Prod.mk.inj (Option.some.inj h)
        obtain ⟨rfl, rfl⟩ := Prod.mk.inj hx
        rw [hb.1, hts]
        exact ⟨rfl, Nat.zero_lt_succ room⟩
    · rintro ⟨rfl, hlen⟩
      cases labels with
      | nil =>
        refine ⟨label, _, rfl, false, _, tChar_false_iff.mpr ⟨rfl, notNext_char (by decide) _⟩, ?_⟩
        rfl
      | cons label' labels =>
        refine ⟨label, _, rfl, true, _, tChar_true_iff.mpr rfl, ?_⟩
        simp only [if_true, bind_some_iff, ih]
        exact ⟨(label', labels), rest, ⟨rfl, Nat.lt_of_succ_lt_succ hlen⟩, rfl⟩

/-- The words of a group of labels: between parentheses there is room for so many. -/
theorem tPins_iff {pins : PinGroup} : tPins ts = some (pins, rest) ↔
      ts = pins.print ++ rest ∧ pins.labels.length ≤ IL_MAX_INPUTS + IL_MAX_OUTPUTS := by
  unfold tPins
  rw [bind_some_iff]
  constructor
  · rintro ⟨b, ts₁, hb, h⟩
    cases b with
    | true =>
      rw [tChar_true_iff] at hb
      simp only [if_true, bind_some_iff, tPinTuple_iff] at h
      obtain ⟨labels, ts₂, ⟨rfl, hlen⟩, h⟩ := h
      obtain ⟨rfl, rfl⟩ := Prod.mk.inj (Option.some.inj h)
      refine ⟨?_, hlen⟩
      rw [hb]
      simp [PinGroup.print]
    | false =>
      rw [tChar_false_iff] at hb
      simp only [Bool.false_eq_true, if_false, bind_some_iff, tIdent_iff] at h
      obtain ⟨label, ts₂, hts, h⟩ := h
      obtain ⟨rfl, rfl⟩ := Prod.mk.inj (Option.some.inj h)
      refine ⟨?_, Nat.le_add_left 1 _⟩
      rw [hb.1, hts]
      rfl
  · rintro ⟨rfl, hlen⟩
    cases pins with
    | one label =>
      refine ⟨false, _, tChar_false_iff.mpr ⟨rfl, notNext_ident _ _ _⟩, ?_⟩
      rfl
    | tuple label labels =>
      refine ⟨true, printWords label labels ++ .char CH_CLOSE :: rest, ?_, ?_⟩
      · rw [tChar_true_iff]
        simp [PinGroup.print]
      · simp only [if_true, bind_some_iff, tPinTuple_iff]
        exact ⟨(label, labels), rest, ⟨rfl, hlen⟩, rfl⟩

/-- What may follow a mode and its modifiers: behind the comma that was read there is no other
modifier, and without one there is no comma. -/
def EndsMods (comma : Bool) (rest : List Token) : Prop :=
  if comma then modifierNext rest = false else NotNext CH_COMMA rest

def commaIf (comma : Bool) : List Token := if comma then [.char CH_COMMA] else []

theorem tMods_iff {room : Nat} {x : Word × List Word × Bool} : tMods room ts = some (x, rest) ↔
      ts = printWords x.1 x.2.1 ++ commaIf x.2.2 ++ rest ∧ x.2.1.length < room ∧
        (∀ m ∈ x.2.1, isKnownModifier m = true) ∧ EndsMods x.2.2 rest := by
  induction room generalizing ts x rest with
  | zero => simp [tMods]
  | succ room ih =>
    obtain ⟨mode, mods, comma⟩ := x
    simp only [tMods, bind_some_iff, tIdent_iff]
    constructor
    · rintro ⟨m, ts₁, rfl, b, ts₂, hb, h⟩
      cases b with
      | true =>
        rw [tChar_true_iff] at hb
        subst hb
        simp only [if_true] at h
        cases hnext : modifierNext ts₂ with
        | true =>
          rw [hnext, if_pos rfl, bind_some_iff] at h
          obtain ⟨y, ts₃, hy, h⟩ := h
          obtain ⟨hx, rfl⟩ := Prod.mk.inj (Option.some.inj h)
          cases hx
          obtain ⟨rfl, hlen, hknown, hends⟩ := ih.mp hy
          refine ⟨rfl, Nat.succ_lt_succ hlen, ?_, hends⟩
          refine List.forall_mem_cons.mpr ⟨?_, hknown⟩
          obtain ⟨y₁, y₂, y₃⟩ := y
          cases y₂ <;> exact hnext
        | false =>
          rw [hnext, if_neg Bool.false_ne_true] at h
          obtain ⟨hx, rfl⟩ := Prod.mk.inj (Option.some.inj h)
          cases hx
          exact ⟨rfl, Nat.zero_lt_succ room, by simp, hnext⟩
      | false =>
        rw [tChar_false_iff] at hb
        obtain ⟨rfl, hnot⟩ := hb
        obtain ⟨hx, rfl⟩ := Prod.mk.inj (Option.some.inj h)
        cases hx
        exact ⟨rfl, Nat.zero_lt_succ room, by simp, hnot⟩
    · rintro ⟨rfl, hlen, hknown, hends⟩
      cases mods with
      | nil =>
        cases comma with
        | true =>
          refine ⟨mode, _, rfl, true, rest, tChar_true_iff.mpr rfl, ?_⟩
          have hends : modifierNext rest = false := hends
          simp only [if_true]
          rw [hends, if_neg Bool.false_ne_true]
        | false => exact ⟨mode, _, rfl, false, rest, tChar_false_iff.mpr ⟨rfl, hends⟩, rfl⟩
      | cons m mods =>
        obtain ⟨hm, hknown⟩ := List.forall_mem_cons.mp hknown
        refine ⟨mode, _, rfl, true, _, tChar_true_iff.mpr rfl, ?_⟩
        have hnext : modifierNext (printWords m mods ++ commaIf comma ++ rest) = true := by
          cases mods <;> exact hm
        have hrest : tMods room (printWords m mods ++ commaIf comma ++ rest) =
            some ((m, mods, comma), rest) :=
          ih.mpr ⟨rfl, Nat.lt_of_succ_lt_succ hlen, hknown, hends⟩
        simp only [if_true]
        show (if modifierNext (printWords m mods ++ commaIf comma ++ rest) = true then _ else _) = _
        rw [hnext, if_pos rfl, bind_some_iff]
        exact ⟨_, rest, hrest, rfl⟩

/-- The group has no more labels and modifiers than the parser has room for, and its modifiers
are known. -/
structure CfgGroup.Fits (g : CfgGroup) : Prop where
  labels : g.pins.labels.length ≤ IL_MAX_INPUTS + IL_MAX_OUTPUTS
  mods : g.mods.length < 4
  known : ∀ m ∈ g.mods, isKnownModifier m = true

theorem tGroup_iff {g : CfgGroup × Bool} : tGroup ts = some (g, rest) ↔
      ts = g.1.print ++ commaIf g.2 ++ rest ∧ g.1.Fits ∧ EndsMods g.2 rest := by
  obtain ⟨⟨pins, mode, mods⟩, comma⟩ := g
  unfold tGroup CfgGroup.print
  simp only [bind_some_iff, tPins_iff, tNeed_iff, tMods_iff]
  constructor
  · rintro ⟨pins', ts₁, ⟨rfl, hpins⟩, -, ts₂, rfl, x, ts₃, ⟨rfl, hmods, hknown, hends⟩, h⟩
    obtain ⟨hx, rfl⟩ := Prod.mk.inj (Option.some.inj h)
    cases hx
    exact ⟨by simp, ⟨hpins, hmods, hknown⟩, hends⟩
  · rintro ⟨rfl, ⟨hpins, hmods, hknown⟩, hends⟩
    exact ⟨pins, _, ⟨by simp only [List.append_assoc, List.cons_append]; rfl, hpins⟩, (), _, rfl,
      (mode, mods, comma), rest, ⟨by simp, hmods, hknown, hends⟩, rfl⟩

theorem tWatch_iff {w : WatchItem} : tWatch ts = some (w, rest) ↔ ts = w.print ++ rest := by
  obtain ⟨label, op, threshold⟩ := w
  unfold tWatch WatchItem.print
  simp only [bind_some_iff, tIdent_iff, tNeed_iff, tNum_iff]
  constructor
  · rintro ⟨label', ts₁, rfl, -, ts₂, rfl, op', ts₃, hop, n, ts₄, rfl, h⟩
    obtain ⟨hx, rfl⟩ := Prod.mk.inj (Option.some.inj h)
    cases hx
    cases hstarts : startsIdent ts₂ with
    | true =>
      rw [hstarts, if_pos rfl] at hop
      simp only [bind_some_iff, tIdent_iff, tNeed_iff] at hop
      obtain ⟨id, ts₅, rfl, -, ts₆, rfl, hop⟩ := hop
      obtain ⟨rfl, rfl⟩ := Prod.mk.inj (Option.some.inj hop)
      rfl
    | false =>
      rw [hstarts, if_neg Bool.false_ne_true] at hop
      obtain ⟨rfl, rfl⟩ := Prod.mk.inj (Option.some.inj hop)
      rfl
  · rintro rfl
    cases op with
    | none => exact ⟨label, _, rfl, (), _, rfl, none, _, rfl, threshold, rest, rfl, rfl⟩
    | some op => exact ⟨label, _, rfl, (), _, rfl, some op, _, rfl, threshold, rest, rfl, rfl⟩

theorem tOut_iff {o : OutItem} : tOut ts = some (o, rest) ↔ ts = o.print ++ rest := by
  obtain ⟨label, value⟩ := o
  unfold tOut OutItem.print
  simp only [bind_some_iff, tIdent_iff, tNeed_iff, tNum_iff]
  constructor
  · rintro ⟨label', ts₁, rfl, -, ts₂, rfl, n, ts₄, rfl, h⟩
    obtain ⟨hx, rfl⟩ := Prod.mk.inj (Option.some.inj h)
    cases hx
    rfl
  · rintro rfl
    exact ⟨label, _, rfl, (), _, rfl, value, rest, rfl, rfl⟩

/-! ## Items with commas between them -/

section

variable {α : Type} {item : TokenParser α} {print : α → List Token} {ok : α → List Token → Prop}

/-- Each item may be followed by what follows it. -/
def Chained (print : α → List Token) (ok : α → List Token → Prop) (rest : List Token) :
    α → List α → Prop
  | a, [] => ok a rest
  | a, b :: bs =>
    ok a (.char CH_COMMA :: (printItems print [.char CH_COMMA] b bs ++ rest)) ∧
      Chained print ok rest b bs

theorem tSep_iff (h : ∀ ts a rest, item ts = some (a, rest) ↔ ts = print a ++ rest ∧ ok a rest)
    {fuel : Nat} {ts rest : List Token} {x : α × List α} : tSep item fuel ts = some (x, rest) ↔
      ts = printItems print [.char CH_COMMA] x.1 x.2 ++ rest ∧ x.2.length < fuel ∧
        Chained print ok rest x.1 x.2 ∧ NotNext CH_COMMA rest := by
  induction fuel generalizing ts x rest with
  | zero => simp [tSep]
  | succ fuel ih =>
    obtain ⟨a, as⟩ := x
    simp only [tSep, bind_some_iff, h]
    constructor
    · rintro ⟨a', ts₁, ⟨rfl, hok⟩, b, ts₂, hb, hgo⟩
      cases b with
      | true =>
        rw [tChar_true_iff] at hb
        subst hb
        simp only [if_true, bind_some_iff, ih] at hgo
        obtain ⟨y, ts₃, ⟨rfl, hlen, hchain, hnot⟩, hgo⟩ := hgo
        obtain ⟨hx, rfl⟩ := Prod.mk.inj (Option.some.inj hgo)
        cases hx
        exact ⟨by simp [printItems], Nat.succ_lt_succ hlen, ⟨hok, hchain⟩, hnot⟩
      | false =>
        rw [tChar_false_iff] at hb
        obtain ⟨rfl, hnot⟩ := hb
        obtain ⟨hx, rfl⟩ := Prod.mk.inj (Option.some.inj hgo)
        cases hx
        exact ⟨rfl, Nat.zero_lt_succ fuel, hok, hnot⟩
    · rintro ⟨rfl, hlen, hchain, hnot⟩
      cases as with
      | nil => exact ⟨a, _, ⟨rfl, hchain⟩, false, _, tChar_false_iff.mpr ⟨rfl, hnot⟩, rfl⟩
      | cons b bs =>
        refine ⟨a, _, ⟨?_, hchain.1⟩, true, _, tChar_true_iff.mpr rfl, ?_⟩
        · simp [printItems]
        · simp only [if_true, bind_some_iff, ih]
          exact ⟨(b, bs), rest, ⟨rfl, Nat.lt_of_succ_lt_succ hlen, hchain.2, hnot⟩, rfl⟩

theorem chained_true (print : α → List Token) (rest : List Token) (a : α) (as : List α) :
    Chained print (fun _ _ => True) rest a as := by
  induction as generalizing a with
  | nil => trivial
  | cons b bs ih => exact ⟨trivial, ih b⟩

end

/-! ## Groups, and the comma that each of them takes -/

/-- Two commas: the one that a group takes, and the one in front of the next group. -/
def TWO_COMMAS : List Token := [.char CH_COMMA, .char CH_COMMA]

/-- Groups as they are read: each but the last takes a comma. -/
def withCommas : CfgGroup → List CfgGroup → Bool → (CfgGroup × Bool) × List (CfgGroup × Bool)
  | g, [], comma => ((g, comma), [])
  | g, g' :: gs, comma => ((g, true), (withCommas g' gs comma).1 :: (withCommas g' gs comma).2)

variable (g : CfgGroup) (gs : List CfgGroup) (comma : Bool)

theorem cfgSection_withCommas : cfgSection (withCommas g gs comma) = .cfg g gs comma := by
  induction gs generalizing g with
  | nil => rfl
  | cons g' gs ih =>
    have hih := ih g'
    unfold cfgSection at hih ⊢
    simp only [Section.cfg.injEq] at hih
    simp only [withCommas, List.map_cons, List.getLastD_cons, hih.1, hih.2.1, hih.2.2]

theorem withCommas_length : (withCommas g gs comma).2.length = gs.length := by
  induction gs generalizing g with
  | nil => rfl
  | cons g' gs ih => exact congrArg Nat.succ (ih g')

def printTaken (g : CfgGroup × Bool) : List Token := g.1.print ++ commaIf g.2

theorem printItems_withCommas :
    printItems printTaken [.char CH_COMMA] (withCommas g gs comma).1 (withCommas g gs comma).2 =
      (Section.cfg g gs comma).content TWO_COMMAS := by
  induction gs generalizing g with
  | nil => rfl
  | cons g' gs ih =>
    simp only [withCommas, printItems, ih g']
    simp [printTaken, commaIf, Section.content, printItems, TWO_COMMAS]

theorem endsMods_char (c : UInt8) (ts : List Token) : EndsMods true (.char c :: ts) := rfl

/-- What may follow a group that was read. -/
def GroupEnds (g : CfgGroup × Bool) (rest : List Token) : Prop := g.1.Fits ∧ EndsMods g.2 rest

/-- The groups of a section are followed by what may follow them when each of them fits, and each
but the last has taken a comma. -/
theorem chained_groups {a : CfgGroup × Bool} {as : List (CfgGroup × Bool)} :
    Chained printTaken GroupEnds (.char CH_CLOSE_SECTION :: rest) a as ↔
      ∃ g gs comma, (a, as) = withCommas g gs comma ∧ ∀ g' ∈ g :: gs, g'.Fits := by
  induction as generalizing a with
  | nil =>
    constructor
    · intro h
      exact ⟨a.1, [], a.2, rfl, List.forall_mem_singleton.mpr h.1⟩
    · rintro ⟨g, gs, comma, heq, hfits⟩
      cases gs with
      | nil =>
        obtain rfl := (Prod.mk.inj heq).1
        refine ⟨hfits g List.mem_cons_self, ?_⟩
        cases comma with
        | true => exact endsMods_char _ _
        | false => exact notNext_char (by decide) _
      | cons g' gs => exact nomatch (Prod.mk.inj heq).2
  | cons b bs ih =>
    constructor
    · rintro ⟨hok, hchain⟩
      obtain ⟨g, gs, comma, heq, hfits⟩ := ih.mp hchain
      have htrue : a.2 = true := by
        cases ha : a.2 with
        | true => rfl
        | false =>
          have hends := hok.2
          rw [ha] at hends
          exact absurd rfl hends
      refine ⟨a.1, g :: gs, comma, ?_, List.forall_mem_cons.mpr ⟨hok.1, hfits⟩⟩
      rw [withCommas, ← heq, ← htrue]
    · rintro ⟨g, gs, comma, heq, hfits⟩
      cases gs with
      | nil => exact nomatch (Prod.mk.inj heq).2
      | cons g' gs =>
        obtain ⟨rfl, hbs⟩ := Prod.mk.inj heq
        obtain ⟨hg, hgs⟩ := List.forall_mem_cons.mp hfits
        obtain ⟨rfl, rfl⟩ := List.cons.inj hbs
        exact ⟨⟨hg, endsMods_char _ _⟩, ih.mpr ⟨g', gs, comma, rfl, hgs⟩⟩

variable {fuel : Nat}

theorem tSep_group_iff {x : (CfgGroup × Bool) × List (CfgGroup × Bool)} :
    tSep tGroup fuel ts = some (x, .char CH_CLOSE_SECTION :: rest) ↔
      ∃ g gs comma, x = withCommas g gs comma ∧
        ts = (Section.cfg g gs comma).content TWO_COMMAS ++ .char CH_CLOSE_SECTION :: rest ∧
        gs.length < fuel ∧ ∀ g' ∈ g :: gs, g'.Fits := by
  have hitem : ∀ ts (a : CfgGroup × Bool) rest,
      tGroup ts = some (a, rest) ↔ ts = printTaken a ++ rest ∧ GroupEnds a rest :=
    fun ts a rest => tGroup_iff
  rw [tSep_iff hitem, chained_groups]
  constructor
  · rintro ⟨rfl, hlen, ⟨g, gs, comma, heq, hfits⟩, -⟩
    obtain rfl : x = withCommas g gs comma := heq
    rw [withCommas_length] at hlen
    exact ⟨g, gs, comma, rfl, by rw [printItems_withCommas], hlen, hfits⟩
  · rintro ⟨g, gs, comma, rfl, rfl, hlen, hfits⟩
    refine ⟨by rw [printItems_withCommas], ?_, ⟨g, gs, comma, rfl, hfits⟩,
      notNext_char (by decide) _⟩
    rw [withCommas_length]
    exact hlen

/-! ## Sections -/

def Section.groups : Section → List CfgGroup
  | .cfg g gs _ => g :: gs
  | .watch _ _ => []
  | .out _ _ _ => []

def Section.more : Section → Nat
  | .cfg _ gs _ => gs.length
  | .watch _ ws => ws.length
  | .out _ _ os => os.length

/-- A section that the reader takes, with so much fuel. -/
structure Section.Fits (total : Nat) (sec : Section) : Prop where
  more : sec.more < total
  groups : ∀ g ∈ sec.groups, g.Fits

theorem tSep_list_iff {α : Type} {item : TokenParser α} {print : α → List Token}
    (h : ∀ ts a rest, item ts = some (a, rest) ↔ ts = print a ++ rest) {x : α × List α} :
    tSep item fuel ts = some (x, .char CH_CLOSE_SECTION :: rest) ↔
      ts = printItems print [.char CH_COMMA] x.1 x.2 ++ .char CH_CLOSE_SECTION :: rest ∧
        x.2.length < fuel := by
  have hitem : ∀ ts a rest, item ts = some (a, rest) ↔ ts = print a ++ rest ∧ True :=
    fun ts a rest => by rw [h, and_true]
  rw [tSep_iff hitem]
  constructor
  · rintro ⟨hts, hlen, -, -⟩
    exact ⟨hts, hlen⟩
  · rintro ⟨hts, hlen⟩
    exact ⟨hts, hlen, chained_true _ _ _ _, notNext_char (by decide) _⟩

variable {total : Nat}

theorem tContent_iff {kw : Word} {sec : Section} :
    tContent total kw ts = some (sec, .char CH_CLOSE_SECTION :: rest) ↔
      kw = sec.keyword ∧ ts = sec.content TWO_COMMAS ++ .char CH_CLOSE_SECTION :: rest ∧
        sec.Fits total := by
  constructor
  · intro h
    unfold tContent at h
    split at h
    · rename_i hkw
      obtain ⟨x, ts', hx, h⟩ := bind_some_iff.mp h
      obtain ⟨rfl, rfl⟩ := Prod.mk.inj (Option.some.inj h)
      obtain ⟨g, gs, comma, rfl, rfl, hlen, hfits⟩ := tSep_group_iff.mp hx
      rw [cfgSection_withCommas]
      exact ⟨hkw, rfl, hlen, hfits⟩
    split at h
    · rename_i hkw
      obtain ⟨x, ts', hx, h⟩ := bind_some_iff.mp h
      obtain ⟨rfl, rfl⟩ := Prod.mk.inj (Option.some.inj h)
      obtain ⟨rfl, hlen⟩ := (tSep_list_iff fun _ _ _ => tWatch_iff).mp hx
      exact ⟨hkw, rfl, hlen, nofun⟩
    split at h
    · rename_i hkw
      obtain ⟨x, ts', hx, h⟩ := bind_some_iff.mp h
      obtain ⟨rfl, rfl⟩ := Prod.mk.inj (Option.some.inj h)
      obtain ⟨rfl, hlen⟩ := (tSep_list_iff fun _ _ _ => tOut_iff).mp hx
      exact ⟨hkw, rfl, hlen, nofun⟩
    split at h
    · rename_i hkw
      obtain ⟨x, ts', hx, h⟩ := bind_some_iff.mp h
      obtain ⟨rfl, rfl⟩ := Prod.mk.inj (Option.some.inj h)
      obtain ⟨rfl, hlen⟩ := (tSep_list_iff fun _ _ _ => tOut_iff).mp hx
      exact ⟨hkw, rfl, hlen, nofun⟩
    · exact nomatch h
  · rintro ⟨rfl, rfl, hmore, hfits⟩
    cases sec with
    | cfg g gs comma =>
      refine bind_some_iff.mpr ⟨withCommas g gs comma, .char CH_CLOSE_SECTION :: rest, ?_, ?_⟩
      · exact tSep_group_iff.mpr ⟨g, gs, comma, rfl, rfl, hmore, hfits⟩
      · rw [pure_apply, cfgSection_withCommas]
    | watch w ws =>
      refine bind_some_iff.mpr ⟨(w, ws), _, ?_, rfl⟩
      exact (tSep_list_iff fun _ _ _ => tWatch_iff).mpr ⟨rfl, hmore⟩
    | out is_ok o os =>
      cases is_ok <;>
      · refine bind_some_iff.mpr ⟨(o, os), _, ?_, rfl⟩
        exact (tSep_list_iff fun _ _ _ => tOut_iff).mpr ⟨rfl, hmore⟩

theorem tSection_iff {sec : Section} : tSection total ts = some (sec, rest) ↔
      .char CH_SEMI :: ts = sec.print TWO_COMMAS ++ rest ∧ sec.Fits total := by
  unfold tSection
  simp only [bind_some_iff, tIdent_iff, tNeed_iff]
  constructor
  · rintro ⟨kw, ts₁, rfl, -, ts₂, rfl, sec', ts₃, hsec, -, ts₄, rfl, h⟩
    obtain ⟨rfl, rfl⟩ := Prod.mk.inj (Option.some.inj h)
    obtain ⟨rfl, rfl, hfits⟩ := tContent_iff.mp hsec
    exact ⟨by simp [Section.print], hfits⟩
  · rintro ⟨hts, hfits⟩
    obtain rfl := (List.cons.inj hts).2
    exact ⟨sec.keyword, _, rfl, (), _, rfl, sec, .char CH_CLOSE_SECTION :: rest,
      tContent_iff.mpr ⟨rfl, by simp, hfits⟩, (), rest, rfl, rfl⟩

theorem tSections_iff {secs : List Section} : tSections total fuel ts = some (secs, rest) ↔
      ts = secs.flatMap (Section.print TWO_COMMAS) ++ rest ∧ secs.length < fuel ∧
        (∀ sec ∈ secs, sec.Fits total) ∧ NotNext CH_SEMI rest := by
  induction fuel generalizing ts rest secs with
  | zero => simp [tSections]
  | succ fuel ih =>
    simp only [tSections, bind_some_iff]
    constructor
    · rintro ⟨b, ts₁, hb, h⟩
      cases b with
      | true =>
        rw [tChar_true_iff] at hb
        subst hb
        simp only [if_true, bind_some_iff, tSection_iff, ih] at h
        obtain ⟨sec, ts₂, ⟨hsec, hfits⟩, secs', ts₃, ⟨rfl, hlen, hall, hnot⟩, h⟩ := h
        obtain ⟨rfl, rfl⟩ := Prod.mk.inj (Option.some.inj h)
        refine ⟨?_, Nat.succ_lt_succ hlen, List.forall_mem_cons.mpr ⟨hfits, hall⟩, hnot⟩
        rw [hsec, List.flatMap_cons, List.append_assoc]
      | false =>
        rw [tChar_false_iff] at hb
        obtain ⟨rfl, hnot⟩ := hb
        obtain ⟨rfl, rfl⟩ := Prod.mk.inj (Option.some.inj h)
        exact ⟨rfl, Nat.zero_lt_succ fuel, nofun, hnot⟩
    · rintro ⟨rfl, hlen, hall, hnot⟩
      cases secs with
      | nil => exact ⟨false, _, tChar_false_iff.mpr ⟨rfl, hnot⟩, rfl⟩
      | cons sec secs =>
        obtain ⟨hfits, hall⟩ := List.forall_mem_cons.mp hall
        rw [List.flatMap_cons, List.append_assoc]
        refine ⟨true, _, tChar_true_iff.mpr rfl, ?_⟩
        simp only [if_true, bind_some_iff, tSection_iff, ih]
        exact ⟨sec, _, ⟨rfl, hfits⟩, secs, rest,
          ⟨rfl, Nat.lt_of_succ_lt_succ hlen, hall, hnot⟩, rfl⟩

/-! ## Messages -/

/-- A message that the reader takes: the groups of its cfg sections fit. -/
def Message.Fits (m : Message) : Prop := ∀ sec ∈ m.sections, ∀ g ∈ sec.groups, g.Fits

theorem printItems_length_le {α : Type} (print : α → List Token) (c : Token) (sep : List Token)
    (a : α) (as : List α) : as.length ≤ (printItems print (c :: sep) a as).length := by
  induction as generalizing a with
  | nil => exact Nat.zero_le _
  | cons b bs ih =>
    have hle := ih b
    simp only [printItems, List.length_append, List.length_cons]
    omega

theorem more_le (sec : Section) : sec.more ≤ (sec.content TWO_COMMAS).length := by
  cases sec with
  | cfg g gs comma =>
    have hle := printItems_length_le CfgGroup.print (.char CH_COMMA) [.char CH_COMMA] g gs
    rw [Section.content, List.length_append]
    exact Nat.le_add_right_of_le hle
  | watch w ws => exact printItems_length_le _ _ _ _ _
  | out is_ok o os => exact printItems_length_le _ _ _ _ _

theorem print_length (sep : List Token) (sec : Section) :
    (sec.print sep).length = (sec.content sep).length + 4 := by
  simp [Section.print]

/-- The tokens of a text are more than its sections, and more than the items of any of them. -/
theorem sections_length_le (secs : List Section) :
    secs.length ≤ (secs.flatMap (Section.print TWO_COMMAS)).length ∧
      ∀ sec ∈ secs, sec.more ≤ (secs.flatMap (Section.print TWO_COMMAS)).length := by
  induction secs with
  | nil => exact ⟨Nat.le_refl 0, nofun⟩
  | cons sec secs ih =>
    obtain ⟨hlen, hmore⟩ := ih
    have hprint := print_length TWO_COMMAS sec
    have hsec := more_le sec
    rw [List.flatMap_cons, List.length_append, List.length_cons]
    refine ⟨by omega, List.forall_mem_cons.mpr ⟨by omega, fun sec' hmem => ?_⟩⟩
    have hle := hmore sec' hmem
    omega

/-- The reader finds the messages that are written with two commas between their groups. -/
theorem tMessage_iff {m : Message} (h : ts.length < total) :
    tMessage total ts = some (m, rest) ↔ rest = [] ∧ ts = m.print TWO_COMMAS ∧ m.Fits := by
  unfold tMessage
  simp only [bind_some_iff, tIdent_iff, tSections_iff]
  constructor
  · rintro ⟨name, ts₁, rfl, secs, ts₂, ⟨rfl, -, hfits, -⟩, hend⟩
    split at hend
    · rename_i hnil
      obtain ⟨rfl, rfl⟩ := Prod.mk.inj (Option.some.inj hend)
      subst hnil
      exact ⟨rfl, by rw [List.append_nil]; rfl, fun sec hsec => (hfits sec hsec).groups⟩
    · exact nomatch hend
  · rintro ⟨rfl, rfl, hfits⟩
    obtain ⟨hlen, hmore⟩ := sections_length_le m.sections
    have htotal : (m.sections.flatMap (Section.print TWO_COMMAS)).length < total :=
      Nat.lt_of_succ_lt h
    refine ⟨m.name, _, rfl, m.sections, [], ⟨(List.append_nil _).symm, by omega, ?_, nofun⟩, rfl⟩
    exact fun sec hsec => ⟨Nat.lt_of_le_of_lt (hmore sec hsec) htotal, hfits sec hsec⟩

/-- A text has one reading only. -/
theorem print_inj {m m' : Message} (hm : m.Fits) (hm' : m'.Fits)
    (h : m.print TWO_COMMAS = m'.print TWO_COMMAS) : m = m' := by
  have hread := (tMessage_iff (Nat.lt_succ_self _)).mpr ⟨rfl, rfl, hm⟩
  have hread' := (tMessage_iff (Nat.lt_succ_self _)).mpr ⟨rfl, h, hm'⟩
  exact (Prod.mk.inj (Option.some.inj (hread.symm.trans hread'))).1

end motioncore.interlock
