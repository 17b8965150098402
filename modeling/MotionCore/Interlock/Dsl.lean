-- The parser of the interlock texts (`samd21_interlock_dsl.c`), and the table of
-- the pins of the board (`samd21_pin_table.c`).
import MotionCore.Interlock.State

namespace motioncore.interlock

/-- The bytes of a text of the source. -/
def ascii (cs : List Char) : List UInt8 := cs.map Char.toUInt8

/-! ## The pins of the board -/

structure BoardPin where
  label : List Char
  port : UInt8
  pin : UInt8
  adc_channel : UInt8
  gpio : Bool
  adc : Bool
  reserved : Bool
deriving DecidableEq

/-- A pin with GPIO and ADC that anyone may claim. -/
def freeGpio (label : List Char) (port pin adc_channel : UInt8) : BoardPin where
  label := label
  port := port
  pin := pin
  adc_channel := adc_channel
  gpio := true
  adc := true
  reserved := false

/-- A pin that a peripheral of the board owns. -/
def reservedPin (label : List Char) (port pin adc_channel : UInt8) : BoardPin :=
  { freeGpio label port pin adc_channel with reserved := true }

/-- `g_board_pins`. An A-label is the same pin as its D-label. -/
def boardPins : List BoardPin :=
  [reservedPin ['D', '0'] 0 2 0, freeGpio ['D', '1'] 0 4 4, freeGpio ['D', '2'] 0 10 18,
    freeGpio ['D', '3'] 0 11 19, reservedPin ['D', '4'] 0 8 16, reservedPin ['D', '5'] 0 9 17,
    reservedPin ['D', '6'] 1 8 2, reservedPin ['D', '7'] 1 9 3, freeGpio ['D', '8'] 0 7 7,
    freeGpio ['D', '9'] 0 5 5, freeGpio ['D', '1', '0'] 0 6 6,
    reservedPin ['A', '0'] 0 2 0, freeGpio ['A', '1'] 0 4 4, freeGpio ['A', '2'] 0 10 18,
    freeGpio ['A', '3'] 0 11 19, reservedPin ['A', '4'] 0 8 16, reservedPin ['A', '5'] 0 9 17,
    reservedPin ['A', '6'] 1 8 2, reservedPin ['A', '7'] 1 9 3, freeGpio ['A', '8'] 0 7 7,
    freeGpio ['A', '9'] 0 5 5, freeGpio ['A', '1', '0'] 0 6 6]

def BoardPin.physId (p : BoardPin) : UInt8 := (p.port <<< 5) ||| (p.pin &&& 0x1F)

/-- `board_pin_lookup`. A label has at most three letters. -/
def boardPinLookup (label : List UInt8) : Option BoardPin :=
  if label.length = 0 ∨ 4 ≤ label.length then none
  else boardPins.find? fun p => ascii p.label == label

/-! ## Characters -/

def isWs (c : UInt8) : Bool := c == 0x20 || c == 0x09 || c == 0x0D || c == 0x0A

def isDigit (c : UInt8) : Bool := decide (0x30 ≤ c) && decide (c ≤ 0x39)

def isIdentStart (c : UInt8) : Bool :=
  decide (0x61 ≤ c) && decide (c ≤ 0x7A) || decide (0x41 ≤ c) && decide (c ≤ 0x5A) || c == 0x5F

def isIdentCont (c : UInt8) : Bool := isIdentStart c || isDigit c

def hexDigit (c : UInt8) : Option UInt32 :=
  if isDigit c then some (c - 0x30).toUInt32
  else if 0x61 ≤ c ∧ c ≤ 0x66 then some (c - 0x61 + 10).toUInt32
  else if 0x41 ≤ c ∧ c ≤ 0x46 then some (c - 0x41 + 10).toUInt32
  else none

/-! ## Tokens -/

/-- `il_parse_status_t`, without its zero. -/
inductive ParseStatus where
  | unexpectedChar
  | unexpectedEnd
  | badNumber
  | unknownKeyword
  | unknownPin
  | unknownMode
  | tooManyInputs
  | tooManyWatches
  | tooManyOutputs
  | nameTooLong
  | duplicatePin
  | watchInputUndecl
  | outputUndecl
  | outputValueMismatch
  | missingOutOk
  | missingOutErr
  | empty
  | unknownOp
  | oversampleOutOfRange
  | shOutOfRange
  | modifierOnGpio
  | thresholdOutOfRange
  | hystNotOnAdc
  | debounceNotOnGpio
  | debounceOutOfRange
  | unknownVirtual
  | hystOnEqNe
deriving DecidableEq

def ParseStatus.code : ParseStatus → UInt8
  | .unexpectedChar => 1
  | .unexpectedEnd => 2
  | .badNumber => 3
  | .unknownKeyword => 4
  | .unknownPin => 5
  | .unknownMode => 6
  | .tooManyInputs => 7
  | .tooManyWatches => 8
  | .tooManyOutputs => 9
  | .nameTooLong => 10
  | .duplicatePin => 11
  | .watchInputUndecl => 12
  | .outputUndecl => 13
  | .outputValueMismatch => 14
  | .missingOutOk => 15
  | .missingOutErr => 16
  | .empty => 17
  | .unknownOp => 18
  | .oversampleOutOfRange => 19
  | .shOutOfRange => 20
  | .modifierOnGpio => 21
  | .thresholdOutOfRange => 22
  | .hystNotOnAdc => 23
  | .debounceNotOnGpio => 24
  | .debounceOutOfRange => 25
  | .unknownVirtual => 26
  | .hystOnEqNe => 27

/-- A parser reads on in the rest of the text. An error keeps its position. -/
abbrev Parser := ExceptT ParseStatus (StateM (List UInt8))

def skipWs : Parser Unit := modify fun rest => rest.dropWhile isWs

/-- The next character, or zero at the end. -/
def peek : Parser UInt8 := return (← get).headD 0

/-- `read_ident`. The callers give fewer than 128 bytes, so no length wraps. -/
def readIdent : Parser (Option (List UInt8)) := do
  skipWs
  let rest ← get
  if isIdentStart (rest.headD 0) then
    set (rest.dropWhile isIdentCont)
    return some (rest.takeWhile isIdentCont)
  else return none

def needIdent : Parser (List UInt8) := do
  match ← readIdent with
  | some id => return id
  | none => throw .unexpectedChar

def consumeChar (want : UInt8) : Parser Bool := do
  skipWs
  match ← get with
  | [] => return false
  | c :: rest =>
    if c = want then
      set rest
      return true
    else return false

def needChar (want : UInt8) : Parser Unit := do
  if !(← consumeChar want) then throw .unexpectedChar

/-- The value of hexadecimal digits, in 32 bits. -/
def hexValue (ds : List UInt8) : UInt32 :=
  ds.foldl (fun v c => (v <<< 4) ||| (hexDigit c).getD 0) 0

def decValue (ds : List UInt8) : UInt32 :=
  ds.foldl (fun v c => v * 10 + (c - 0x30).toUInt32) 0

/-- The digits at the head of the text, and their value cut to 16 bits. -/
def readDigits (digit : UInt8 → Bool) (value : List UInt8 → UInt32) : Parser (Option UInt16) := do
  let rest ← get
  set (rest.dropWhile digit)
  let ds := rest.takeWhile digit
  return if ds.isEmpty then none else some (value ds).toUInt16

def readNumber : Parser (Option UInt16) := do
  skipWs
  match ← get with
  | 0x30 :: x :: rest =>
    if x = 0x78 ∨ x = 0x58 then
      set rest
      readDigits (fun c => (hexDigit c).isSome) hexValue
    else readDigits isDigit decValue
  | _ => readDigits isDigit decValue

def needNumber : Parser UInt16 := do
  match ← readNumber with
  | some n => return n
  | none => throw .badNumber

/-! ## Modifiers -/

/-- `is_param_mod`: the prefix, and one digit or more. -/
def isParamMod (id pre : List UInt8) : Bool :=
  decide (pre.length < id.length) && id.take pre.length == pre && (id.drop pre.length).all isDigit

/-- `parse_param_mod_value`. `none` past 16 bits. -/
def paramModValue (id pre : List UInt8) : Option Nat :=
  (id.drop pre.length).foldlM
    (fun v c => if 65535 < v * 10 + (c - 0x30).toNat then none else some (v * 10 + (c - 0x30).toNat)) 0

def KW_IN : List UInt8 := ascii ['i', 'n']
def KW_OUT : List UInt8 := ascii ['o', 'u', 't']
def KW_ADC : List UInt8 := ascii ['a', 'd', 'c']
def KW_UP : List UInt8 := ascii ['u', 'p']
def KW_DOWN : List UInt8 := ascii ['d', 'o', 'w', 'n']
def PRE_OVERSAMPLE : List UInt8 := ascii ['o', 'v', 'e', 'r', 's', 'a', 'm', 'p', 'l', 'e', '_']
def PRE_SH : List UInt8 := ascii ['s', 'h', '_']
def PRE_HYST : List UInt8 := ascii ['h', 'y', 's', 't', '_']
def PRE_DEBOUNCE : List UInt8 := ascii ['d', 'e', 'b', 'o', 'u', 'n', 'c', 'e', '_']

def isKnownModifier (id : List UInt8) : Bool :=
  [KW_IN, KW_OUT, KW_ADC, KW_UP, KW_DOWN].contains id ||
    [PRE_OVERSAMPLE, PRE_SH, PRE_HYST, PRE_DEBOUNCE].any (isParamMod id)

def samplenumToExp : Nat → Option UInt8
  | 1 => some 0
  | 2 => some 1
  | 4 => some 2
  | 8 => some 3
  | 16 => some 4
  | _ => none

/-- What the modifiers of a group say of its pins. -/
structure GroupCfg where
  mode : IlPinMode
  oversample_exp : UInt8
  sh_cyc : UInt8
  hyst : UInt16
  debounce_depth : UInt8
deriving DecidableEq

def GroupCfg.of (mode : IlPinMode) : GroupCfg where
  mode := mode
  oversample_exp := 0
  sh_cyc := if mode = .adc then 4 else 0
  hyst := 0
  debounce_depth := 0

def adcModifier (g : GroupCfg) (m : List UInt8) : Except ParseStatus GroupCfg :=
  if isParamMod m PRE_OVERSAMPLE then
    match (paramModValue m PRE_OVERSAMPLE).bind samplenumToExp with
    | some oversample_exp => .ok { g with oversample_exp }
    | none => .error .oversampleOutOfRange
  else if isParamMod m PRE_SH then
    match paramModValue m PRE_SH with
    | some n => if 63 < n then .error .shOutOfRange else .ok { g with sh_cyc := UInt8.ofNat n }
    | none => .error .shOutOfRange
  else if isParamMod m PRE_HYST then
    match paramModValue m PRE_HYST with
    | some n => .ok { g with hyst := UInt16.ofNat n }
    | none => .error .thresholdOutOfRange
  else if isParamMod m PRE_DEBOUNCE then .error .debounceNotOnGpio
  else .error .unknownMode

def inputModifier (g : GroupCfg) (m : List UInt8) : Except ParseStatus GroupCfg :=
  if m = KW_UP then .ok { g with mode := .inputPullUp }
  else if m = KW_DOWN then .ok { g with mode := .inputPullDown }
  else if isParamMod m PRE_DEBOUNCE then
    match paramModValue m PRE_DEBOUNCE with
    | some n =>
      if n < 2 ∨ 15 < n then .error .debounceOutOfRange
      else .ok { g with debounce_depth := UInt8.ofNat n }
    | none => .error .debounceOutOfRange
  else if isParamMod m PRE_HYST then .error .hystNotOnAdc
  else if isParamMod m PRE_OVERSAMPLE || isParamMod m PRE_SH then .error .modifierOnGpio
  else .error .unknownMode

/-- An output takes no modifier. -/
def outputModifier (m : List UInt8) : ParseStatus :=
  if isParamMod m PRE_HYST then .hystNotOnAdc
  else if isParamMod m PRE_DEBOUNCE then .debounceNotOnGpio
  else if isParamMod m PRE_OVERSAMPLE || isParamMod m PRE_SH then .modifierOnGpio
  else .unknownMode

/-- The modifiers of a group: the first one is the mode. -/
def resolveMods : List (List UInt8) → Except ParseStatus GroupCfg
  | [] => .error .unknownMode
  | m :: ms =>
    if m = KW_IN then ms.foldlM inputModifier (.of .input)
    else if m = KW_OUT then
      match ms with
      | [] => .ok (.of .output)
      | m' :: _ => .error (outputModifier m')
    else if m = KW_ADC then ms.foldlM adcModifier (.of .adc)
    else .error .unknownMode

/-! ## The declarations -/

def findInputIdx (inst : IlInst) (phys_id : UInt8) : Option Nat :=
  inst.inputs.findIdx? fun i => i.phys_id == phys_id

def findOutputIdx (inst : IlInst) (phys_id : UInt8) : Option Nat :=
  inst.outputs.findIdx? fun o => o.phys_id == phys_id

theorem snoc_le {α : Type} {l : List α} {a : α} {n : Nat} (h : l.length < n) :
    (l ++ [a]).length ≤ n := by
  rw [List.length_append]
  exact h

def addInput (inst : IlInst) (i : IlInput) : Except ParseStatus IlInst :=
  if h : inst.inputs.length < IL_MAX_INPUTS then
    .ok { inst with inputs := inst.inputs ++ [i], inputs_le := snoc_le h }
  else .error .tooManyInputs

def addOutput (inst : IlInst) (o : IlOutput) : Except ParseStatus IlInst :=
  if h : inst.outputs.length < IL_MAX_OUTPUTS then
    .ok { inst with outputs := inst.outputs ++ [o], outputs_le := snoc_le h }
  else .error .tooManyOutputs

def addWatch (inst : IlInst) (w : IlWatch) : Except ParseStatus IlInst :=
  if h : inst.watches.length < IL_MAX_WATCHES then
    .ok { inst with watches := inst.watches ++ [w], watches_le := snoc_le h }
  else .error .tooManyWatches

/-- A pin of a group is recorded, with the values that fit its mode. -/
def recordPin (g : GroupCfg) (inst : IlInst) (label : List UInt8) : Except ParseStatus IlInst :=
  match boardPinLookup label with
  | none => .error .unknownPin
  | some bp =>
    if (findInputIdx inst bp.physId).isSome ∨ (findOutputIdx inst bp.physId).isSome then
      .error .duplicatePin
    else if g.mode = .output then addOutput inst ⟨bp.physId, 0, 0⟩
    else
      addInput inst
        { phys_id := bp.physId
          mode := g.mode
          oversample_exp := g.oversample_exp
          sh_cyc := g.sh_cyc
          debounce_depth := g.debounce_depth
          hyst := g.hyst }

/-! ## The sections -/

def CH_OPEN : UInt8 := 0x28
def CH_CLOSE : UInt8 := 0x29
def CH_COMMA : UInt8 := 0x2C
def CH_COLON : UInt8 := 0x3A
def CH_SEMI : UInt8 := 0x3B
def CH_OPEN_SECTION : UInt8 := 0x5B
def CH_CLOSE_SECTION : UInt8 := 0x5D

/-- The labels between parentheses. `room` is what is left of the array. -/
def pinTuple : (room : Nat) → Parser (List (List UInt8))
  | 0 => throw .tooManyInputs
  | room + 1 => do
    let label ← needIdent
    if ← consumeChar CH_COMMA then return label :: (← pinTuple room)
    else
      needChar CH_CLOSE
      return [label]

def pinList : Parser (List (List UInt8)) := do
  skipWs
  if ← consumeChar CH_OPEN then pinTuple (IL_MAX_INPUTS + IL_MAX_OUTPUTS)
  else return [← needIdent]

/-- The mode and its modifiers. The comma in front of something else is read too. -/
def modList : (room : Nat) → Parser (List (List UInt8))
  | 0 => throw .unknownMode
  | room + 1 => do
    let m ← needIdent
    if !(← consumeChar CH_COMMA) then return [m]
    else
      skipWs
      if !isIdentStart (← peek) then return [m]
      else
        let save ← get
        let next ← needIdent
        set save
        if isKnownModifier next then return m :: (← modList room)
        else return [m]

/-- One group of `parse_cfg`. -/
def parseGroup (inst : IlInst) : Parser IlInst := do
  let labels ← pinList
  needChar CH_COLON
  let mods ← modList 4
  let g ← ExceptT.mk (pure (resolveMods mods))
  ExceptT.mk (pure (labels.foldlM (recordPin g) inst))

/-- A list of items with commas between them. Each round reads one byte at least, so
the length of the text is fuel enough. -/
def sepByComma (item : IlInst → Parser IlInst) : (fuel : Nat) → IlInst → Parser IlInst
  | 0, _ => throw .unexpectedEnd
  | fuel + 1, inst => do
    let inst ← item inst
    if ← consumeChar CH_COMMA then sepByComma item fuel inst
    else return inst

/-- The pins without hardware behind them. -/
def IL_VIRT_T_SINCE_M2S : UInt8 := 0xF0
def IL_VIRT_UPTIME : UInt8 := 0xF1
def IL_VIRT_STACK_HWM : UInt8 := 0xF2

def virtLookup (id : List UInt8) : Option UInt8 :=
  if id = ascii ['_', 't', '_', 's', 'i', 'n', 'c', 'e', '_', 'm', '2', 's'] then
    some IL_VIRT_T_SINCE_M2S
  else if id = ascii ['_', 'u', 'p', 't', 'i', 'm', 'e'] then some IL_VIRT_UPTIME
  else if id = ascii ['_', 's', 't', 'a', 'c', 'k', '_', 'h', 'w', 'm'] then
    some IL_VIRT_STACK_HWM
  else none

def readOp (id : List UInt8) : Option IlCompareOp :=
  if id = ascii ['e', 'q'] then some .eq
  else if id = ascii ['n', 'e'] then some .ne
  else if id = ascii ['l', 't'] then some .lt
  else if id = ascii ['g', 't'] then some .gt
  else if id = ascii ['l', 'e'] then some .le
  else if id = ascii ['g', 'e'] then some .ge
  else none

/-- The input that a watch names. A virtual input is declared by its first watch. -/
def watchedInput (inst : IlInst) (label : List UInt8) : Except ParseStatus (IlInst × Nat) :=
  if label.headD 0 = 0x5F then
    match virtLookup label with
    | none => .error .unknownVirtual
    | some virt_id =>
      match findInputIdx inst virt_id with
      | some idx => .ok (inst, idx)
      | none =>
        (addInput inst
          { phys_id := virt_id
            mode := .virtual
            oversample_exp := 0
            sh_cyc := 0
            debounce_depth := 0
            hyst := 0 }).map fun i => (i, inst.inputs.length)
  else
    match boardPinLookup label with
    | none => .error .unknownPin
    | some bp =>
      match findInputIdx inst bp.physId with
      | some idx => .ok (inst, idx)
      | none => .error .watchInputUndecl

/-- One item of `parse_watch`. -/
def parseWatch (inst : IlInst) : Parser IlInst := do
  let label ← needIdent
  needChar CH_COLON
  skipWs
  let op ←
    if isIdentStart (← peek) then do
      match readOp (← needIdent) with
      | none => throw .unknownOp
      | some op =>
        needChar CH_COLON
        pure op
    else pure .eq
  let threshold ← needNumber
  let (inst, idx) ← ExceptT.mk (pure (watchedInput inst label))
  if (inst.inputs.map (·.hyst)).getD idx 0 ≠ 0 ∧ (op = .eq ∨ op = .ne) then throw .hystOnEqNe
  ExceptT.mk (pure (addWatch inst ⟨idx, op, threshold⟩))

/-- The value of an output, for the good or for the bad case. -/
def setOutput (is_ok : Bool) (v : UInt8) (o : IlOutput) : IlOutput :=
  if is_ok then { o with ok_value := v } else { o with err_value := v }

/-- One item of `parse_out_block`. -/
def parseOut (is_ok : Bool) (inst : IlInst) : Parser IlInst := do
  let label ← needIdent
  needChar CH_COLON
  let v ← needNumber
  if 1 < v then throw .badNumber
  match boardPinLookup label with
  | none => throw .unknownPin
  | some bp =>
    match findOutputIdx inst bp.physId with
    | none => throw .outputUndecl
    | some idx =>
      return { inst with
        outputs := inst.outputs.modify idx (setOutput is_ok v.toUInt8)
        outputs_le := by rw [List.length_modify]; exact inst.outputs_le }

/-! ## The whole text -/

structure Sections where
  inst : IlInst
  seen_out_ok : Bool
  seen_out_err : Bool

def KW_CFG : List UInt8 := ascii ['c', 'f', 'g']
def KW_WATCH : List UInt8 := ascii ['w', 'a', 't', 'c', 'h']
def KW_OUT_OK : List UInt8 := ascii ['o', 'u', 't', '_', 'o', 'k']
def KW_OUT_ERR : List UInt8 := ascii ['o', 'u', 't', '_', 'e', 'r', 'r']

def parseSection (fuel : Nat) (s : Sections) (kw : List UInt8) : Parser Sections := do
  if kw = KW_CFG then
    return { s with inst := ← sepByComma parseGroup fuel s.inst }
  else if kw = KW_WATCH then
    return { s with inst := ← sepByComma parseWatch fuel s.inst }
  else if kw = KW_OUT_OK then
    return { s with inst := ← sepByComma (parseOut true) fuel s.inst, seen_out_ok := true }
  else if kw = KW_OUT_ERR then
    return { s with inst := ← sepByComma (parseOut false) fuel s.inst, seen_out_err := true }
  else throw .unknownKeyword

def sections (total : Nat) : (fuel : Nat) → Sections → Parser Sections
  | 0, _ => throw .unexpectedEnd
  | fuel + 1, s => do
    if ← consumeChar CH_SEMI then
      let kw ← needIdent
      needChar CH_OPEN_SECTION
      let s ← parseSection total s kw
      needChar CH_CLOSE_SECTION
      sections total fuel s
    else return s

def parseText (total : Nat) : Parser Sections := do
  let name ← needIdent
  if h : name.length < IL_NAME_MAX then
    let s ← sections total total ⟨{ IlInst.zero with name := name, name_lt := h }, false, false⟩
    skipWs
    if (← get) ≠ [] then throw .unexpectedChar
    return s
  else throw .nameTooLong

/-- The last checks. They report no position. -/
def checkOutputs (s : Sections) : Except ParseStatus IlInst :=
  if s.inst.outputs ≠ [] then
    if !s.seen_out_ok then .error .missingOutOk
    else if !s.seen_out_err then .error .missingOutErr
    else if s.inst.outputs.any fun o => o.ok_value == o.err_value then .error .outputValueMismatch
    else .ok s.inst
  else .ok s.inst

/-- `il_parse`. An error comes with the offset of the byte it was found at. -/
def ilParse (text : List UInt8) : Except (ParseStatus × Nat) IlInst :=
  if text = [] then .error (.empty, 0)
  else
    match (parseText (text.length + 1)).run.run text with
    | (.error e, rest) => .error (e, text.length - rest.length)
    | (.ok s, _) =>
      match checkOutputs s with
      | .error e => .error (e, 0)
      | .ok inst => .ok { inst with tf_state := IL_TF_UNEVALUATED }

end motioncore.interlock
