-- The syntax of an interlock text: its sections and their items, how they are written down,
-- and the instance that they make.
import MotionCore.Interlock.Tokens

namespace motioncore.interlock

/-! ## The parts of a text -/

abbrev Word := List UInt8

/-- The labels of a group, alone or between parentheses. -/
inductive PinGroup where
  | one (label : Word)
  | tuple (label : Word) (labels : List Word)
deriving DecidableEq

def PinGroup.labels : PinGroup → List Word
  | .one label => [label]
  | .tuple label labels => label :: labels

/-- A group of a cfg section: pins, their mode and its modifiers. -/
structure CfgGroup where
  pins : PinGroup
  mode : Word
  mods : List Word
deriving DecidableEq

/-- An item of a watch section. The operator may be left out. -/
structure WatchItem where
  label : Word
  op : Option Word
  threshold : Numeral
deriving DecidableEq

/-- An item of an out_ok or out_err section. -/
structure OutItem where
  label : Word
  value : Numeral
deriving DecidableEq

/-- A section with its items, of which there is one at least. A cfg section may have a comma
behind its last group. -/
inductive Section where
  | cfg (g : CfgGroup) (gs : List CfgGroup) (comma : Bool)
  | watch (w : WatchItem) (ws : List WatchItem)
  | out (is_ok : Bool) (o : OutItem) (os : List OutItem)
deriving DecidableEq

structure Message where
  name : Word
  sections : List Section
deriving DecidableEq

/-! ## How it is written -/

def printWords : Word → List Word → List Token
  | w, [] => [.ident w]
  | w, w' :: ws => .ident w :: .char CH_COMMA :: printWords w' ws

def PinGroup.print : PinGroup → List Token
  | .one label => [.ident label]
  | .tuple label labels => .char CH_OPEN :: (printWords label labels ++ [.char CH_CLOSE])

def CfgGroup.print (g : CfgGroup) : List Token :=
  g.pins.print ++ .char CH_COLON :: printWords g.mode g.mods

def WatchItem.print (w : WatchItem) : List Token :=
  .ident w.label :: .char CH_COLON ::
    match w.op with
    | none => [.num w.threshold]
    | some op => [.ident op, .char CH_COLON, .num w.threshold]

def OutItem.print (o : OutItem) : List Token :=
  [.ident o.label, .char CH_COLON, .num o.value]

def printItems {α : Type} (print : α → List Token) (sep : List Token) : α → List α → List Token
  | a, [] => print a
  | a, a' :: as => print a ++ sep ++ printItems print sep a' as

def Section.keyword : Section → Word
  | .cfg _ _ _ => KW_CFG
  | .watch _ _ => KW_WATCH
  | .out is_ok _ _ => if is_ok then KW_OUT_OK else KW_OUT_ERR

/-- The items of a section. `sep` stands between the groups of a cfg section. -/
def Section.content (sep : List Token) : Section → List Token
  | .cfg g gs comma =>
    printItems CfgGroup.print sep g gs ++ if comma then [.char CH_COMMA] else []
  | .watch w ws => printItems WatchItem.print [.char CH_COMMA] w ws
  | .out _ o os => printItems OutItem.print [.char CH_COMMA] o os

def Section.print (sep : List Token) (sec : Section) : List Token :=
  .char CH_SEMI :: .ident sec.keyword :: .char CH_OPEN_SECTION ::
    (sec.content sep ++ [.char CH_CLOSE_SECTION])

def Message.print (sep : List Token) (m : Message) : List Token :=
  .ident m.name :: m.sections.flatMap (Section.print sep)

/-! ## What it means -/

/-- The pins of a group are declared. A group has room for so many labels, and a mode for three
modifiers. -/
def CfgGroup.build (inst : IlInst) (g : CfgGroup) : Option IlInst :=
  if IL_MAX_INPUTS + IL_MAX_OUTPUTS < g.pins.labels.length ∨ 4 < g.mods.length + 1 then none
  else (resolveMods (g.mode :: g.mods)).toOption.bind fun cfg =>
    (g.pins.labels.foldlM (recordPin cfg) inst).toOption

def declareWatch (inst : IlInst) (label : Word) (op : IlCompareOp) (threshold : UInt16) :
    Except ParseStatus IlInst :=
  match watchedInput inst label with
  | .error e => .error e
  | .ok (inst, idx) =>
    if (inst.inputs.map (·.hyst)).getD idx 0 ≠ 0 ∧ (op = .eq ∨ op = .ne) then .error .hystOnEqNe
    else addWatch inst ⟨idx, op, threshold⟩

/-- The operator of an item: `eq` when it is left out. -/
def WatchItem.compare (w : WatchItem) : Option IlCompareOp :=
  match w.op with
  | none => some .eq
  | some op => readOp op

def WatchItem.build (inst : IlInst) (w : WatchItem) : Option IlInst :=
  w.compare.bind fun op => (declareWatch inst w.label op w.threshold.stored).toOption

def IlInst.modifyOutput (inst : IlInst) (idx : Nat) (f : IlOutput → IlOutput) : IlInst :=
  { inst with
    outputs := inst.outputs.modify idx f
    outputs_le := by rw [List.length_modify]; exact inst.outputs_le }

/-- The value of an output is set, for the good or for the bad case. -/
def declareOut (is_ok : Bool) (inst : IlInst) (label : Word) (v : UInt16) :
    Except ParseStatus IlInst :=
  if 1 < v then .error .badNumber
  else
    match boardPinLookup label with
    | none => .error .unknownPin
    | some bp =>
      match findOutputIdx inst bp.physId with
      | none => .error .outputUndecl
      | some idx =>
        .ok (inst.modifyOutput idx (setOutput is_ok v.toUInt8))

def OutItem.build (is_ok : Bool) (inst : IlInst) (o : OutItem) : Option IlInst :=
  (declareOut is_ok inst o.label o.value.stored).toOption

/-- What the sections so far have made, and the next one. -/
def Section.build (s : Sections) : Section → Option Sections
  | .cfg g gs _ => ((g :: gs).foldlM CfgGroup.build s.inst).map fun inst => { s with inst := inst }
  | .watch w ws => ((w :: ws).foldlM WatchItem.build s.inst).map fun inst => { s with inst := inst }
  | .out true o os =>
    ((o :: os).foldlM (OutItem.build true) s.inst).map fun inst => ⟨inst, true, s.seen_out_err⟩
  | .out false o os =>
    ((o :: os).foldlM (OutItem.build false) s.inst).map fun inst => ⟨inst, s.seen_out_ok, true⟩

/-- What the sections of a text make. -/
def Message.made (m : Message) : Option Sections :=
  if h : m.name.length < IL_NAME_MAX then
    m.sections.foldlM Section.build
      ⟨{ IlInst.zero with name := m.name, name_lt := h }, false, false⟩
  else none

/-- The instance of a text, when everything in it is in order. -/
def Message.build (m : Message) : Option IlInst :=
  m.made.bind fun s =>
    (checkOutputs s).toOption.map fun inst => { inst with tf_state := IL_TF_UNEVALUATED }

end motioncore.interlock
