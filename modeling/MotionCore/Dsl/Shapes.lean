-- What a stream says of its tree, whatever its braces do. The types of the tokens
-- and the counts of the calls follow the tree; later braces only touch the tokens
-- of other braces. So a stream that is properly nested tells where the braces of
-- the tree close.
import MotionCore.Dsl.Nesting

open motioncore.brackets

namespace motioncore.dsl

/-! ## Shapes -/

/-- A token without the values that a later brace may set. -/
structure Shape where
  param_type : UInt8
  call_idx : Option Nat
deriving DecidableEq

def ParamStruct.shape (p : ParamStruct) : Shape where
  param_type := p.param_type
  call_idx := if p.param_type = S_EXPR_PARAM.OPEN_CALL then p.brace_idx else none

def shapeRole (s : Shape) : Role UInt8 := codeRole (s.param_type &&& S_EXPR_OPCODE_MASK)

@[simp] theorem shapeRole_shape (p : ParamStruct) : shapeRole p.shape = role p := rfl

def DslParam.code : DslParam → UInt8
  | .leaf value => leafCode value
  | .start brace => openCode brace.brace_type
  | .finish brace_type => closeCode brace_type

mutual

def Item.shapes : Item → List Shape
  | .param p => [⟨p.code, none⟩]
  | .call _ call_type _ items =>
    ⟨S_EXPR_PARAM.OPEN_CALL, some ((2 + Item.counts items) % 65536)⟩ ::
      ⟨funcCode call_type, none⟩ :: (Item.allShapes items ++ [⟨S_EXPR_PARAM.CLOSE, none⟩])

def Item.allShapes : List Item → List Shape
  | [] => []
  | item :: items => Item.shapes item ++ Item.allShapes items

end

theorem code_ne_call (p : DslParam) : p.code ≠ S_EXPR_PARAM.OPEN_CALL := by
  rcases p with value | brace | brace_type
  · rw [DslParam.code]
    cases value <;> simp only [leafCode] <;> decide
  · rw [DslParam.code]
    cases brace.brace_type <;> decide
  · cases brace_type <;> decide

theorem shape_of_code {t : ParamStruct} {p : DslParam} (h : t.param_type = p.code) :
    t.shape = ⟨p.code, none⟩ := by
  rw [ParamStruct.shape, h, if_neg (code_ne_call p)]

theorem length_allShapes (items : List Item) : (Item.allShapes items).length = Item.counts items := by
  match items with
  | [] => rfl
  | .param p :: items =>
    rw [Item.allShapes, List.length_append, length_allShapes items]
    simp [Item.shapes, Item.counts]
  | .call f t ptr inner :: items =>
    rw [Item.allShapes, List.length_append, length_allShapes items]
    simp only [Item.shapes, List.length_cons, List.length_append, List.length_nil,
      length_allShapes inner, Item.counts, Item.count]
    omega
termination_by sizeOf items

/-! ## The shapes of a stream -/

/-- The braces that are open are not calls. -/
def Safe (e : Emitter) : Prop :=
  ∀ info ∈ e.brace_stack, ∃ p, e.params[info.param_idx]? = some p ∧
    p.param_type ≠ S_EXPR_PARAM.OPEN_CALL

/-- What an emission adds, with braces before it that it may close. -/
structure Grows (e e' : Emitter) (s : List Shape) : Prop where
  shapes : e'.params.map ParamStruct.shape = e.params.map ParamStruct.shape ++ s
  safe : Safe e'
  parent_call_stack : e'.parent_call_stack = e.parent_call_stack

variable {e e' : Emitter} {s : List Shape}

theorem Grows.trans {e'' : Emitter} {t : List Shape} (h : Grows e e' s) (h' : Grows e' e'' t) :
    Grows e e'' (s ++ t) where
  shapes := by rw [h'.shapes, h.shapes, List.append_assoc]
  safe := h'.safe
  parent_call_stack := h'.parent_call_stack.trans h.parent_call_stack

theorem Safe.emit (h : Safe e) (p : ParamStruct) : Safe (e.emit p) := by
  intro info hinfo
  obtain ⟨q, hq, hcall⟩ := h info hinfo
  have hlt : info.param_idx < e.params.length := (List.getElem?_eq_some_iff.mp hq).1
  exact ⟨q, by rw [Emitter.emit, List.getElem?_append_left hlt]; exact hq, hcall⟩

theorem Safe.withFirst (h : Safe e) (i v : Nat) : Safe (e.patch i v) := by
  intro info hinfo
  obtain ⟨q, hq, hcall⟩ := h info hinfo
  rw [Emitter.patch, List.getElem?_modify, hq]
  by_cases hi : i = info.param_idx
  · exact ⟨q.withFirst v, by simp [hi], by simpa using hcall⟩
  · exact ⟨q, by simp [hi], hcall⟩

theorem grows_emit (h : Safe e) (p : ParamStruct) : Grows e (e.emit p) [p.shape] :=
  ⟨by simp [Emitter.emit], h.emit p, rfl⟩

theorem grows_code (h : Safe e) {t : ParamStruct} {p : DslParam} (ht : t.param_type = p.code) :
    Grows e (e.emit t) [⟨p.code, none⟩] := by
  rw [← shape_of_code ht]
  exact grows_emit h t

theorem shape_withFirst {p : ParamStruct} (h : p.param_type ≠ S_EXPR_PARAM.OPEN_CALL) (v : Nat) :
    (p.withFirst v).shape = p.shape := by
  simp [ParamStruct.shape, h]

theorem map_modify_same {α β : Type} {g : α → β} {f : α → α} {i : Nat} {l : List α}
    (h : ∀ a, l[i]? = some a → g (f a) = g a) : (l.modify i f).map g = l.map g := by
  apply List.ext_getElem?
  intro j
  rw [List.getElem?_map, List.getElem?_map, List.getElem?_modify]
  by_cases hij : i = j
  · subst hij
    cases hl : l[i]? with
    | none => rfl
    | some a => simp [h a hl]
  · simp [hij]

theorem grows_emitStart (h : Safe e) (brace : BraceStart) :
    Grows e (emitStart e brace) (Item.shapes (.param (.start brace))) := by
  have htype := startParam_type e.current_parent_offset brace
  have hgrows := grows_code h (p := .start brace) htype
  refine ⟨hgrows.shapes, ?_, rfl⟩
  intro info hinfo
  rcases List.mem_cons.mp hinfo with rfl | hinfo
  · refine ⟨startParam e.current_parent_offset brace, ?_, ?_⟩
    · simp [emitStart, Emitter.emit, Emitter.param_count]
    · rw [htype]
      exact code_ne_call (.start brace)
  · exact h.emit _ info hinfo

theorem grows_emitFinish (h : Safe e) (brace_type : BraceType) :
    Grows e (emitFinish e brace_type) (Item.shapes (.param (.finish brace_type))) := by
  rw [emitFinish]
  cases hstack : e.brace_stack with
  | nil => exact grows_code h (p := .finish brace_type) rfl
  | cons top rest =>
    obtain ⟨p, hp, hcall⟩ := h top (by rw [hstack]; exact List.mem_cons_self)
    have hrest : Safe { e with brace_stack := rest } := by
      intro info hinfo
      exact h info (by rw [hstack]; exact List.mem_cons_of_mem _ hinfo)
    have hpop : Grows e { e with brace_stack := rest } [] := ⟨by simp, hrest, rfl⟩
    have hpatch : ∀ v, Grows e (Emitter.patch { e with brace_stack := rest } top.param_idx v) [] := by
      intro v
      refine ⟨?_, hrest.withFirst _ _, rfl⟩
      rw [List.append_nil]
      refine map_modify_same fun a ha => ?_
      obtain rfl : p = a := by
        rw [hp] at ha
        exact Option.some.inj ha
      exact shape_withFirst hcall _
    dsimp only
    split
    · split
      · exact hpop.trans (grows_code hrest (p := .finish brace_type) rfl)
      · exact (hpatch _).trans (grows_code (hpatch _).safe (p := .finish brace_type) rfl)
    · exact hpop.trans (grows_code hrest (p := .finish brace_type) rfl)

theorem grows_emitParam (m : Module) (tree_record : Option LuaString) (h : Safe e) (p : DslParam) :
    Grows e (emitParam m tree_record e p) (Item.shapes (.param p)) := by
  cases p with
  | leaf value => exact grows_code h (p := .leaf value) (leafParam_type m tree_record value)
  | start brace => exact grows_emitStart h brace
  | finish brace_type => exact grows_emitFinish h brace_type

theorem Safe.next (h : Safe e) (n : Nat) : Safe { e with current_node_idx := n } := h

theorem Safe.parents (h : Safe e) (l : List Nat) : Safe { e with parent_call_stack := l } := h

/-- The tokens of a call around what its items add. -/
theorem grows_call (m : Module) (h : Safe e) (func_name : LuaString) (call_type : CallType)
    (idx_to_ptr content_count : Nat)
    (hs : Safe (openCall m e func_name call_type idx_to_ptr content_count) →
      Grows (openCall m e func_name call_type idx_to_ptr content_count) e' s) :
    Grows e (closeCall e') (⟨S_EXPR_PARAM.OPEN_CALL, some (content_count % 65536)⟩ ::
      ⟨funcCode call_type, none⟩ :: (s ++ [⟨S_EXPR_PARAM.CLOSE, none⟩])) := by
  have hopen : Safe (openCall m e func_name call_type idx_to_ptr content_count) :=
    Safe.emit (Safe.parents (Safe.emit (h.next _) _) _) _
  have hinner := hs hopen
  have hstack : e'.parent_call_stack = e.params.length :: e.parent_call_stack :=
    hinner.parent_call_stack
  have hclose := grows_code (Safe.parents hinner.safe e.parent_call_stack)
    (p := .finish .list) (t := u16Param S_EXPR_PARAM.CLOSE 0 (e'.param_count - e.params.length)
      ({ e' with parent_call_stack := e.parent_call_stack } : Emitter).current_parent_offset) rfl
  rw [closeCall, hstack]
  refine ⟨?_, hclose.safe, rfl⟩
  refine hclose.shapes.trans ?_
  rw [hinner.shapes]
  have hfunc : funcCode call_type ≠ S_EXPR_PARAM.OPEN_CALL := by cases call_type <;> decide
  simp [openCall, Emitter.emit, ParamStruct.shape, u16Param, ParamStruct.brace_idx, hfunc,
    DslParam.code, closeCode]

theorem grows_emitItems (m : Module) (tree_record : Option LuaString) (items : List Item)
    {e : Emitter} (h : Safe e) :
    Grows e (emitItems m tree_record items e) (Item.allShapes items) := by
  match items with
  | [] => exact ⟨by simp [emitItems, Item.allShapes], h, rfl⟩
  | .param p :: items =>
    have hp := grows_emitParam m tree_record h p
    exact hp.trans (grows_emitItems m tree_record items hp.safe)
  | .call func_name call_type pointer_index inner :: items =>
    have hcall := grows_call m h func_name call_type (pointer_index.getD 0)
      (2 + Item.counts inner) fun hopen => grows_emitItems m tree_record inner hopen
    exact hcall.trans (grows_emitItems m tree_record items hcall.safe)
termination_by sizeOf items

/-! ## Counting the braces of a tree -/

/-- The open braces after one more parameter, unless it closes one too many. -/
def DslParam.scan : DslParam → Nat → Option Nat
  | .leaf _, h => some h
  | .start _, h => some (h + 1)
  | .finish _, 0 => none
  | .finish _, h + 1 => some h

mutual

/-- Each call counts its own braces, and has none open when it ends. -/
def Item.scan : Item → Nat → Option Nat
  | .param p, h => p.scan h
  | .call _ _ _ items, h => if Item.scanAll items 0 = some 0 then some h else none

def Item.scanAll : List Item → Nat → Option Nat
  | [], h => some h
  | item :: items, h => (Item.scan item h).bind (Item.scanAll items)

end

mutual

/-- The braces are counted across the calls. -/
def Item.flat : Item → Nat → Option Nat
  | .param p, h => p.scan h
  | .call _ _ _ items, h => Item.flatAll items h

def Item.flatAll : List Item → Nat → Option Nat
  | [], h => some h
  | item :: items, h => (Item.flat item h).bind (Item.flatAll items)

end

/-- The count of a parameter follows the role of its token. -/
theorem scan_iff {p : DslParam} {h h' : Nat} :
    p.scan h = some h' ↔ (h' : Int) = h + (shapeRole ⟨p.code, none⟩).weight := by
  rcases p with value | brace | brace_type
  · have hrole : shapeRole ⟨leafCode value, none⟩ = .plain := by
      cases value <;> simp only [leafCode] <;> rfl
    simp only [DslParam.scan, DslParam.code, hrole, Role.weight, Option.some.injEq]
    omega
  · have hrole : shapeRole ⟨openCode brace.brace_type, none⟩ =
        .opens (closeCode brace.brace_type) := by
      cases brace.brace_type <;> rfl
    simp only [DslParam.scan, DslParam.code, hrole, Role.weight, Option.some.injEq]
    omega
  · have hrole : shapeRole ⟨closeCode brace_type, none⟩ = .closes (closeCode brace_type) := by
      cases brace_type <;> rfl
    simp only [DslParam.code, hrole, Role.weight]
    cases h with
    | zero => simp [DslParam.scan]
    | succ h => simp only [DslParam.scan, Option.some.injEq]; omega

theorem weight_func (call_type : CallType) : (shapeRole ⟨funcCode call_type, none⟩).weight = 0 := by
  cases call_type <;> rfl

theorem weight_open_call (n : Option Nat) : (shapeRole ⟨S_EXPR_PARAM.OPEN_CALL, n⟩).weight = 1 := by
  show (codeRole (S_EXPR_PARAM.OPEN_CALL &&& S_EXPR_OPCODE_MASK)).weight = 1
  rfl

theorem weight_close_call : (shapeRole ⟨S_EXPR_PARAM.CLOSE, none⟩).weight = -1 := rfl

theorem allShapes_param (p : DslParam) (items : List Item) :
    Item.allShapes (.param p :: items) = ⟨p.code, none⟩ :: Item.allShapes items := by
  simp [Item.allShapes, Item.shapes]

theorem allShapes_call (func_name : LuaString) (call_type : CallType)
    (pointer_index : Option Nat) (inner items : List Item) :
    Item.allShapes (.call func_name call_type pointer_index inner :: items) =
      ⟨S_EXPR_PARAM.OPEN_CALL, some ((2 + Item.counts inner) % 65536)⟩ ::
        ⟨funcCode call_type, none⟩ ::
          (Item.allShapes inner ++ ⟨S_EXPR_PARAM.CLOSE, none⟩ :: Item.allShapes items) := by
  simp [Item.allShapes, Item.shapes]

/-- The counts across the calls are the depths of the stream. -/
theorem above_of_flat (items : List Item) {h h' : Nat} (hf : Item.flatAll items h = some h') :
    Above shapeRole h (Item.allShapes items) ∧
      (h' : Int) = h + depth shapeRole (Item.allShapes items) := by
  match items with
  | [] =>
    obtain rfl : h = h' := Option.some.inj hf
    simp [Item.allShapes]
  | .param p :: items =>
    rw [Item.flatAll, Item.flat] at hf
    obtain ⟨k, hk, hrest⟩ := Option.bind_eq_some_iff.mp hf
    obtain ⟨habove, hdepth⟩ := above_of_flat items hrest
    rw [scan_iff.mp hk] at habove hdepth
    rw [allShapes_param, above_cons, depth_cons]
    exact ⟨⟨by omega, habove⟩, by omega⟩
  | .call func_name call_type pointer_index inner :: items =>
    rw [Item.flatAll, Item.flat] at hf
    obtain ⟨k, hk, hrest⟩ := Option.bind_eq_some_iff.mp hf
    obtain ⟨hinner, hinner'⟩ := above_of_flat inner hk
    obtain ⟨habove, hdepth⟩ := above_of_flat items hrest
    rw [allShapes_call]
    simp only [above_cons, above_append, depth_cons, depth_append, weight_open_call, weight_func,
      weight_close_call]
    have hend : (h : Int) + 1 + 0 + depth shapeRole (Item.allShapes inner) + -1 = k := by omega
    rw [hend]
    exact ⟨⟨by omega, by omega, hinner.mono (by omega), by omega, habove⟩, by omega⟩
termination_by sizeOf items

/-- Each call of a stream of shapes ends where its count says. -/
def CallsMatch (w : List Shape) : Prop :=
  ∀ ⦃pre : List Shape⦄ ⦃n : Nat⦄ ⦃tail : List Shape⦄,
    w = pre ++ ⟨S_EXPR_PARAM.OPEN_CALL, some n⟩ :: tail →
    ∃ body c rest, tail = body ++ c :: rest ∧ shapeRole c = .closes S_EXPR_PARAM.CLOSE ∧
      Balanced shapeRole body ∧ body.length + 1 = n

theorem callsMatch_of_spaced {stream : List ParamStruct} (hbal : Balanced role stream)
    (hspaced : Spaced role Carries stream) : CallsMatch (stream.map ParamStruct.shape) := by
  intro pre n tail heq
  obtain ⟨pre', tail', rfl, rfl, htail⟩ := List.map_eq_append_iff.mp heq
  obtain ⟨o, tail', rfl, ho, rfl⟩ := List.map_eq_cons_iff.mp htail
  have htype : o.param_type = S_EXPR_PARAM.OPEN_CALL := congrArg Shape.param_type ho
  have hidx : o.brace_idx = some n := by
    have := congrArg Shape.call_idx ho
    simpa [ParamStruct.shape, htype] using this
  have hopens := role_open_call htype
  obtain ⟨body, c, rest, rfl, hc, hbody⟩ := hbal.match_of_mem rfl hopens
  have hcarries := hspaced rfl hopens hc hbody
  have hkey : o.opcode ≠ S_EXPR_PARAM.OPEN_KEY := by
    rw [ParamStruct.opcode, htype]
    decide
  have hlength := hidx.symm.trans (hcarries hkey)
  refine ⟨body.map ParamStruct.shape, c.shape, rest.map ParamStruct.shape, by simp, hc,
    hbody.map shapeRole_shape, ?_⟩
  rw [List.length_map]
  exact (Option.some.inj hlength).symm

/-- Where all calls match, they count their own braces right. -/
theorem scan_of_callsMatch {w : List Shape} (hw : CallsMatch w) (hlen : w.length ≤ 65536)
    (items : List Item) (pre post : List Shape) {h : Nat}
    (heq : w = pre ++ (Item.allShapes items ++ post))
    (habove : Above shapeRole h (Item.allShapes items)) : ∃ h', Item.scanAll items h = some h' ∧
      (h' : Int) = h + depth shapeRole (Item.allShapes items) := by
  match items with
  | [] => exact ⟨h, rfl, by simp [Item.allShapes]⟩
  | .param p :: items =>
    rw [allShapes_param] at habove heq ⊢
    obtain ⟨k, hk⟩ := Int.eq_ofNat_of_zero_le habove.2.nonneg
    rw [above_cons, hk] at habove
    obtain ⟨h', hscan, hdepth⟩ := scan_of_callsMatch hw hlen items (pre ++ [⟨p.code, none⟩])
      post (by simpa using heq) habove.2
    refine ⟨h', ?_, by rw [depth_cons]; omega⟩
    rw [Item.scanAll, Item.scan, scan_iff.mpr hk.symm]
    exact hscan
  | .call func_name call_type pointer_index inner :: items =>
    rw [allShapes_call] at habove heq ⊢
    -- The call ends behind its own items, and these are balanced.
    obtain ⟨body, c, rest, htail, hc, hbody, hcount⟩ := hw heq
    have hlength := congrArg List.length heq
    have hinner := length_allShapes inner
    simp only [List.length_append, List.length_cons] at hlength
    have hmod : (2 + Item.counts inner) % 65536 = 2 + Item.counts inner := by
      apply Nat.mod_eq_of_lt
      omega
    have hspan : body = ⟨funcCode call_type, none⟩ :: Item.allShapes inner := by
      have hlen' : body.length =
          (⟨funcCode call_type, none⟩ :: Item.allShapes inner : List Shape).length := by
        rw [List.length_cons]
        omega
      have happend : body ++ c :: rest = (⟨funcCode call_type, none⟩ :: Item.allShapes inner) ++
          (⟨S_EXPR_PARAM.CLOSE, none⟩ :: Item.allShapes items ++ post) := by
        simpa using htail.symm
      exact List.append_inj_left happend hlen'
    subst hspan
    have hinnerAbove := (hbody.above le_rfl).2
    have hzero := hbody.depth_eq_zero
    rw [weight_func] at hinnerAbove
    rw [depth_cons, weight_func] at hzero
    obtain ⟨k, hk, hkdepth⟩ := scan_of_callsMatch hw hlen inner (h := 0)
      (pre ++ [⟨S_EXPR_PARAM.OPEN_CALL, some ((2 + Item.counts inner) % 65536)⟩,
        ⟨funcCode call_type, none⟩])
      (⟨S_EXPR_PARAM.CLOSE, none⟩ :: Item.allShapes items ++ post)
      (by simpa using heq) (by simpa using hinnerAbove)
    obtain rfl : k = 0 := by omega
    have hrest := (above_append.mp habove.2.2).2.2
    rw [weight_open_call, weight_func, weight_close_call] at hrest
    obtain ⟨h', hscan, hdepth⟩ := scan_of_callsMatch hw hlen items (h := h)
      (pre ++ ⟨S_EXPR_PARAM.OPEN_CALL, some ((2 + Item.counts inner) % 65536)⟩ ::
        ⟨funcCode call_type, none⟩ :: (Item.allShapes inner ++ [⟨S_EXPR_PARAM.CLOSE, none⟩]))
      post (by simpa using heq) (by
        have hdepth : (h : Int) + 1 + 0 + depth shapeRole (Item.allShapes inner) + -1 = h := by
          omega
        rwa [hdepth] at hrest)
    refine ⟨h', ?_, ?_⟩
    · rw [Item.scanAll, Item.scan, if_pos hk]
      exact hscan
    · simp only [depth_cons, depth_append, weight_open_call, weight_func, weight_close_call]
      omega
termination_by sizeOf items

/-- A call that is a whole stream, and counts its braces right, fits into 16 bits: otherwise
its count leads to a token inside. -/
theorem length_le_of_callsMatch {func_name : LuaString} {call_type : CallType}
    {pointer_index : Option Nat} {inner : List Item} {h : Nat}
    (hw : CallsMatch (Item.allShapes [.call func_name call_type pointer_index inner]))
    (hflat : Item.flatAll inner 0 = some h) : 2 + Item.counts inner < 65536 := by
  by_contra hlarge
  have hfirst := allShapes_call func_name call_type pointer_index inner []
  obtain ⟨body, c, rest, htail, hc, hbody, hcount⟩ := @hw [] _ _ hfirst
  have hmod : (2 + Item.counts inner) % 65536 < 65536 := Nat.mod_lt _ (by omega)
  have hinner := length_allShapes inner
  -- The match is in front of the last token, and the braces do not close there.
  obtain ⟨q, hq⟩ : ∃ q, ⟨funcCode call_type, none⟩ :: Item.allShapes inner = body ++ c :: q := by
    have hsplit : (⟨funcCode call_type, none⟩ :: Item.allShapes inner) ++
        [⟨S_EXPR_PARAM.CLOSE, none⟩] = (body ++ [c]) ++ rest := by
      simpa [Item.allShapes] using htail
    rcases List.append_eq_append_iff.mp hsplit with ⟨q, hq, -⟩ | ⟨q, hq, -⟩
    · have hlength := congrArg List.length hq
      simp only [List.length_append, List.length_cons, List.length_nil] at hlength
      omega
    · exact ⟨q, by simpa using hq⟩
  have habove : Above shapeRole 0 (⟨funcCode call_type, none⟩ :: Item.allShapes inner) := by
    rw [above_cons, weight_func]
    exact ⟨le_rfl, by simpa using (above_of_flat inner hflat).1⟩
  exact habove.not_initial hbody hc hq

end motioncore.dsl
