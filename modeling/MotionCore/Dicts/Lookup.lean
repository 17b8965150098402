-- Dictionaries in the stream of parameters, and the lookup of a key in them. The lookup passes
-- over the first value behind a key by its `brace_idx`, and over what follows one parameter at a
-- time, so a dictionary there is walked into.
import MotionCore.Dsl.Nesting

open motioncore.brackets

namespace motioncore.dicts

open dsl (ParamStruct role)
open dsl.S_EXPR_PARAM

/-! ## The lookup -/

/-- The first four bytes of the value of a parameter. -/
def word (p : ParamStruct) : Nat :=
  match p.payload with
  | .u16s u16_a u16_b => u16_a.toNat + 65536 * u16_b.toNat
  | .number value => (value % 4294967296).toNat
  | .float value => value.toNat % 4294967296

def brace_idx (p : ParamStruct) : Nat := word p % 65536

def str_hash (p : ParamStruct) : UInt32 := UInt32.ofNat (word p)

/-- `skip_value`: how many parameters belong to the value that starts here. -/
def skip_value (p : ParamStruct) : Nat :=
  if p.opcode = OPEN_DICT ∨ p.opcode = OPEN_ARRAY ∨ p.opcode = OPEN_TUPLE ∨ p.opcode = OPEN ∨
      p.opcode = OPEN_CALL then
    brace_idx p + 1
  else 1

/-- The end of a key, if it is next. -/
def skip_close_key : List ParamStruct → Nat
  | p :: _ => if p.opcode = CLOSE_KEY then 1 else 0
  | [] => 0

/-- The loop of the lookups, at the position `p`, over the parameters from there to `dict_end`.
What is neither a key nor the end of a dictionary is passed over. -/
def scan (key_hash : UInt32) (p : Nat) : List ParamStruct → Option Nat
  | [] => none
  | param :: rest =>
    if param.opcode = OPEN_KEY then
      if str_hash param = key_hash then some (p + 1)
      else
        match rest with
        | [] => none
        | value :: rest =>
          let skipped := skip_value value
          let skipped := skipped + skip_close_key ((value :: rest).drop skipped)
          scan key_hash (p + 1 + skipped) ((value :: rest).drop skipped)
    else if param.opcode = CLOSE_DICT then none
    else scan key_hash (p + 1) rest
termination_by params => params.length
decreasing_by
  · simp only [List.length_drop, List.length_cons]
    omega
  · simp

/-- Both lookups of a hash: the place of the parameter behind the key. The dictionary is a place
in the stream, or NULL. -/
def find (stream : List ParamStruct) (dict : Option Nat) (key_hash : UInt32) : Option Nat := do
  let dict ← dict
  let o ← stream[dict]?
  if o.opcode ≠ OPEN_DICT then none
  else scan key_hash (dict + 1) ((stream.drop (dict + 1)).take (brace_idx o - 1))

def se_dicth_find : List ParamStruct → Option Nat → UInt32 → Option Nat := find

def se_dicts_find_hash : List ParamStruct → Option Nat → UInt32 → Option Nat := find

/-! ## Dictionaries -/

mutual

/-- A value: a parameter that is no brace, a list, a call, an array or a tuple, or a
dictionary. -/
inductive Value where
  | token (p : ParamStruct)
  | block (o : ParamStruct) (body : Values) (c : ParamStruct)
  | dict (o : ParamStruct) (entries : Entries) (c : ParamStruct)

inductive Values where
  | nil
  | cons (value : Value) (rest : Values)

/-- Each key holds any number of values. -/
inductive Entries where
  | nil
  | cons (key : ParamStruct) (content : Values) (close : ParamStruct) (rest : Entries)

end

mutual

def Value.tokens : Value → List ParamStruct
  | .token p => [p]
  | .block o body c => o :: (body.tokens ++ [c])
  | .dict o entries c => o :: (entries.tokens ++ [c])

def Values.tokens : Values → List ParamStruct
  | .nil => []
  | .cons value rest => value.tokens ++ rest.tokens

def Entries.tokens : Entries → List ParamStruct
  | .nil => []
  | .cons key content close rest => key :: (content.tokens ++ close :: rest.tokens)

end

/-- The braces that are neither of a dictionary nor of a key. -/
def blockCodes : List (UInt8 × UInt8) :=
  [(OPEN, CLOSE), (OPEN_CALL, CLOSE), (OPEN_ARRAY, CLOSE_ARRAY), (OPEN_TUPLE, CLOSE_TUPLE)]

mutual

/-- The braces match and carry their distances, and the keys are in the dictionaries. -/
def Value.Well : Value → Prop
  | .token p => role p = .plain
  | .block o body c =>
    (o.opcode, c.opcode) ∈ blockCodes ∧ o.brace_idx = some (body.tokens.length + 1) ∧ body.Well
  | .dict o entries c =>
    o.opcode = OPEN_DICT ∧ c.opcode = CLOSE_DICT ∧
      o.brace_idx = some (entries.tokens.length + 1) ∧ entries.Well

def Values.Well : Values → Prop
  | .nil => True
  | .cons value rest => value.Well ∧ rest.Well

def Entries.Well : Entries → Prop
  | .nil => True
  | .cons key content close rest =>
    key.opcode = OPEN_KEY ∧ close.opcode = CLOSE_KEY ∧ content.Well ∧ rest.Well

end

/-- The place of the content of the first entry with the key, when the entries start at `p`. -/
def Entries.place (key_hash : UInt32) (p : Nat) : Entries → Option Nat
  | .nil => none
  | .cons key content _ rest =>
    if str_hash key = key_hash then some (p + 1)
    else rest.place key_hash (p + content.tokens.length + 2)

def Entries.hashes : Entries → List UInt32
  | .nil => []
  | .cons key _ _ rest => str_hash key :: rest.hashes

/-! ## Dictionaries behind the first value of a key -/

mutual

/-- The first dictionary among the parameters of a value. -/
def Value.first_dict : Value → Option Entries
  | .token _ => none
  | .block _ body _ => body.first_dict
  | .dict _ entries _ => some entries

def Values.first_dict : Values → Option Entries
  | .nil => none
  | .cons value rest => value.first_dict.or rest.first_dict

end

def Values.tail : Values → Values
  | .nil => .nil
  | .cons _ rest => rest

/-- No entry has the key, up to the first that has a dictionary behind its first value, and so in
this dictionary. -/
inductive Unmet (key_hash : UInt32) : Entries → Prop
  | nil : Unmet key_hash .nil
  | next {key close : ParamStruct} {content : Values} {rest : Entries} :
      str_hash key ≠ key_hash → content.tail.first_dict = none → Unmet key_hash rest →
      Unmet key_hash (.cons key content close rest)
  | inner {key close : ParamStruct} {content : Values} {rest entries : Entries} :
      str_hash key ≠ key_hash → content.tail.first_dict = some entries →
      Unmet key_hash entries → Unmet key_hash (.cons key content close rest)

/-- Up to the entry with the key no entry has a dictionary behind its first value. Where one has,
the key must be in no entry that follows, and must not be met in the dictionary. -/
def Entries.Kept (key_hash : UInt32) : Entries → Prop
  | .nil => True
  | .cons key content _ rest =>
    str_hash key = key_hash ∨
      match content.tail.first_dict with
      | none => rest.Kept key_hash
      | some entries => key_hash ∉ rest.hashes ∧ Unmet key_hash entries

section

variable {key_hash : UInt32} {p : Nat} {param : ParamStruct} {params : List ParamStruct}

/-! ## Single parameters -/

theorem brace_idx_of {d : Nat} (h : param.brace_idx = some d) : brace_idx param = d := by
  unfold dsl.ParamStruct.brace_idx at h
  unfold brace_idx word
  split at h
  · next u16_a u16_b heq =>
    rw [heq]
    have hlt := u16_a.toNat_lt
    have hd := Option.some.inj h
    simp only
    omega
  · cases h

/-- What is neither a key nor the end of a dictionary is passed over. -/
theorem scan_pass (hkey : param.opcode ≠ OPEN_KEY) (hclose : param.opcode ≠ CLOSE_DICT) :
    scan key_hash p (param :: params) = scan key_hash (p + 1) params := by
  rw [scan.eq_def]
  simp only [if_neg hkey, if_neg hclose]

theorem scan_close (h : param.opcode = CLOSE_DICT) : scan key_hash p (param :: params) = none := by
  have hkey : param.opcode ≠ OPEN_KEY := by rw [h]; decide
  rw [scan.eq_def]
  simp only [if_neg hkey, if_pos h]

theorem scan_key (h : param.opcode = OPEN_KEY) (hkey : str_hash param = key_hash) :
    scan key_hash p (param :: params) = some (p + 1) := by
  rw [scan.eq_def]
  simp only [if_pos h, if_pos hkey]

/-- Behind another key the scan goes on with what follows the first value. -/
theorem scan_other_key {value : ParamStruct} (h : param.opcode = OPEN_KEY)
    (hkey : str_hash param ≠ key_hash) {skipped : Nat}
    (hskipped : skip_value value + skip_close_key ((value :: params).drop (skip_value value)) =
      skipped) : scan key_hash p (param :: value :: params) =
      scan key_hash (p + 1 + skipped) ((value :: params).drop skipped) := by
  rw [scan, if_pos h, if_neg hkey]
  simp only
  rw [hskipped]

theorem plain_passed (h : role param = .plain) :
    param.opcode ≠ OPEN_KEY ∧ param.opcode ≠ CLOSE_DICT ∧ param.opcode ≠ CLOSE_KEY ∧
      skip_value param = 1 := by
  have hrole : ∀ code : UInt8, dsl.codeRole code ≠ .plain → param.opcode ≠ code := by
    rintro code hcode rfl
    exact hcode h
  refine ⟨hrole _ (by decide), hrole _ (by decide), hrole _ (by decide), ?_⟩
  rw [skip_value, if_neg]
  rintro (h | h | h | h | h)
  · exact hrole _ (by decide) h
  · exact hrole _ (by decide) h
  · exact hrole _ (by decide) h
  · exact hrole _ (by decide) h
  · exact hrole _ (by decide) h

theorem block_passed {o c : ParamStruct} (h : (o.opcode, c.opcode) ∈ blockCodes) :
    (o.opcode ≠ OPEN_KEY ∧ o.opcode ≠ CLOSE_DICT ∧ o.opcode ≠ CLOSE_KEY ∧
      skip_value o = brace_idx o + 1) ∧ c.opcode ≠ OPEN_KEY ∧ c.opcode ≠ CLOSE_DICT := by
  simp only [blockCodes, List.mem_cons, Prod.mk.injEq, List.not_mem_nil, or_false] at h
  unfold skip_value
  rcases h with ⟨ho, hc⟩ | ⟨ho, hc⟩ | ⟨ho, hc⟩ | ⟨ho, hc⟩ <;> rw [ho, hc] <;> simp <;> decide

/-! ## Values -/

/-- A value begins with a parameter that ends no key, and that gives its length. -/
theorem Value.Well.head {value : Value} (h : value.Well) :
    ∃ first more, value.tokens = first :: more ∧ first.opcode ≠ CLOSE_KEY ∧
      skip_value first = value.tokens.length := by
  cases value with
  | token param =>
    obtain ⟨-, -, hclose, hskip⟩ := plain_passed h
    exact ⟨param, [], rfl, hclose, hskip⟩
  | block o body c =>
    obtain ⟨hcodes, hidx, -⟩ := h
    obtain ⟨⟨-, -, hclose, hskip⟩, -⟩ := block_passed hcodes
    refine ⟨o, body.tokens ++ [c], rfl, hclose, ?_⟩
    rw [hskip, brace_idx_of hidx]
    simp [Value.tokens]
  | dict o entries c =>
    obtain ⟨hopen, -, hidx, -⟩ := h
    refine ⟨o, entries.tokens ++ [c], rfl, by rw [hopen]; decide, ?_⟩
    rw [skip_value, if_pos (Or.inl hopen), brace_idx_of hidx]
    simp [Value.tokens]

/-- What the scan does with parameters: it passes over them, or walks into their first
dictionary. -/
def Walks (key_hash : UInt32) (params : List ParamStruct) : Option Entries → Prop
  | none => ∀ p rest, scan key_hash p (params ++ rest) = scan key_hash (p + params.length) rest
  | some entries => entries.Well ∧ ∃ before c after,
      params = before ++ (entries.tokens ++ c :: after) ∧ c.opcode = CLOSE_DICT ∧
      ∀ p rest, scan key_hash p (params ++ rest) =
        scan key_hash (p + before.length) (entries.tokens ++ c :: (after ++ rest))

theorem Walks.nil : Walks key_hash [] none := fun _ _ => rfl

theorem Walks.pass (hkey : param.opcode ≠ OPEN_KEY) (hclose : param.opcode ≠ CLOSE_DICT) :
    Walks key_hash [param] none := fun _ _ => scan_pass hkey hclose

theorem Walks.append {params' : List ParamStruct} {d d' : Option Entries}
    (h : Walks key_hash params d) (h' : Walks key_hash params' d') :
    Walks key_hash (params ++ params') (d.or d') := by
  cases d with
  | some entries =>
    obtain ⟨hwell, before, c, after, rfl, hc, hscan⟩ := h
    refine ⟨hwell, before, c, after ++ params', by simp, hc, fun p rest => ?_⟩
    rw [List.append_assoc, hscan, List.append_assoc]
  | none =>
    cases d' with
    | none =>
      intro p rest
      rw [List.append_assoc, h, h', List.length_append, Nat.add_assoc]
    | some entries =>
      obtain ⟨hwell, before, c, after, rfl, hc, hscan⟩ := h'
      refine ⟨hwell, params ++ before, c, after, by simp, hc, fun p rest => ?_⟩
      rw [List.append_assoc, h, hscan, List.length_append, Nat.add_assoc]

variable {entries : Entries}

theorem Walks.dict {o c : ParamStruct} (hwell : entries.Well) (ho : o.opcode = OPEN_DICT)
    (hc : c.opcode = CLOSE_DICT) :
    Walks key_hash (o :: (entries.tokens ++ [c])) (some entries) := by
  refine ⟨hwell, [o], c, [], by simp, hc, fun p rest => ?_⟩
  rw [List.cons_append, scan_pass (by rw [ho]; decide) (by rw [ho]; decide)]
  simp

mutual

theorem Value.Well.walks : {value : Value} → value.Well →
    Walks key_hash value.tokens value.first_dict
  | .token _, h => .pass (plain_passed h).1 (plain_passed h).2.1
  | .block o body c, h => by
    obtain ⟨hcodes, -, hbody⟩ := h
    obtain ⟨⟨hokey, hoclose, -⟩, hckey, hcclose⟩ := block_passed hcodes
    have hopen : Walks key_hash [o] none := .pass hokey hoclose
    have hclose : Walks key_hash [c] none := .pass hckey hcclose
    simpa [Value.tokens, Value.first_dict] using hopen.append (hbody.walks.append hclose)
  | .dict o entries c, h => .dict h.2.2.2 h.1 h.2.1

theorem Values.Well.walks : {values : Values} → values.Well →
    Walks key_hash values.tokens values.first_dict
  | .nil, _ => .nil
  | .cons _ _, h => h.1.walks.append h.2.walks

end

/-! ## Entries -/

/-- The end of the parameters that are scanned, or of a dictionary among them. -/
def Ends (rest : List ParamStruct) : Prop :=
  rest = [] ∨ ∃ c more, rest = c :: more ∧ c.opcode = CLOSE_DICT

variable {rest : List ParamStruct}

theorem Ends.scan_none (h : Ends rest) : scan key_hash p rest = none := by
  rcases h with rfl | ⟨c, more, rfl, hc⟩
  · rw [scan]
  · exact scan_close hc

theorem Ends.no_close_key (h : entries.Well) (hrest : Ends rest) :
    skip_close_key (entries.tokens ++ rest) = 0 := by
  cases entries with
  | nil =>
    rcases hrest with rfl | ⟨c, more, rfl, hc⟩
    · rfl
    · exact if_neg (by rw [hc]; decide)
  | cons key content close others =>
    have hkey : key.opcode = OPEN_KEY := h.1
    exact if_neg (by rw [hkey]; decide)

/-- Behind a key that is not looked for the scan goes on behind the first value. -/
theorem scan_behind_first {key close : ParamStruct} {content : Values} (hkey : key.opcode = OPEN_KEY)
    (hclose : close.opcode = CLOSE_KEY) (hwell : content.Well) (hne : str_hash key ≠ key_hash) :
    ∃ first, content.tokens = first ++ content.tail.tokens ∧
      ∀ p rest, skip_close_key rest = 0 →
        scan key_hash p (key :: (content.tokens ++ close :: rest)) =
          scan key_hash (p + 1 + first.length) (content.tail.tokens ++ close :: rest) := by
  have hpass : ∀ p rest, scan key_hash p (close :: rest) = scan key_hash (p + 1) rest :=
    fun p rest => scan_pass (by rw [hclose]; decide) (by rw [hclose]; decide)
  cases content with
  | nil =>
    refine ⟨[], rfl, fun p rest hrest => ?_⟩
    have hskip : skip_value close = 1 := by
      rw [skip_value, hclose]
      exact if_neg (by decide)
    have hone : skip_value close + skip_close_key ((close :: rest).drop (skip_value close)) = 1 := by
      rw [hskip]
      simpa using hrest
    exact (scan_other_key hkey hne hone).trans (hpass _ _).symm
  | cons value values =>
    refine ⟨value.tokens, rfl, fun p rest hrest => ?_⟩
    obtain ⟨first, more, htokens, -, hskip⟩ := hwell.1.head
    have hdrop : ∀ rest : List ParamStruct, (first :: (more ++ rest)).drop (skip_value first) = rest := by
      intro rest
      rw [hskip, ← List.cons_append, ← htokens, List.drop_left]
    have hscan : ∀ rest, scan key_hash p (key :: (value.tokens ++ rest)) =
        scan key_hash (p + 1 + (value.tokens.length + skip_close_key rest))
          (rest.drop (skip_close_key rest)) := by
      intro rest
      rw [htokens, List.cons_append]
      refine (scan_other_key hkey hne rfl).trans ?_
      rw [hdrop, ← List.drop_drop, hdrop, hskip, htokens]
    rw [Values.tokens, List.append_assoc, hscan]
    cases values with
    | nil =>
      have hone : skip_close_key (close :: rest) = 1 := if_pos hclose
      simp only [Values.tail, Values.tokens, List.nil_append]
      rw [hone, hpass]
      rfl
    | cons value' values =>
      obtain ⟨first', more', htokens', hclose', -⟩ := hwell.2.1.head
      have hzero : skip_close_key ((Values.cons value' values).tokens ++ close :: rest) = 0 := by
        rw [Values.tokens, htokens']
        exact if_neg hclose'
      rw [hzero]
      rfl

/-- An entry with another key: the scan passes over it, or walks into the first dictionary behind
its first value. -/
theorem scan_entry {key close : ParamStruct} {content : Values} (hkey : key.opcode = OPEN_KEY)
    (hclose : close.opcode = CLOSE_KEY) (hwell : content.Well) (hne : str_hash key ≠ key_hash) :
    match content.tail.first_dict with
    | none => ∀ p rest, skip_close_key rest = 0 →
      scan key_hash p (key :: (content.tokens ++ close :: rest)) =
        scan key_hash (p + content.tokens.length + 2) rest
    | some entries => entries.Well ∧ ∃ n c after,
      n + entries.tokens.length < content.tokens.length + 2 ∧ c.opcode = CLOSE_DICT ∧
      ∀ p rest, skip_close_key rest = 0 →
        scan key_hash p (key :: (content.tokens ++ close :: rest)) =
          scan key_hash (p + n) (entries.tokens ++ c :: (after ++ rest)) := by
  obtain ⟨first, htokens, hscan⟩ := scan_behind_first hkey hclose hwell hne
  have htail : content.tail.Well := by
    cases content with
    | nil => trivial
    | cons value values => exact hwell.2
  have hend : Walks key_hash [close] none :=
    .pass (by rw [hclose]; decide) (by rw [hclose]; decide)
  have hwalks := htail.walks.append hend
  rw [Option.or_none] at hwalks
  have hlength := congrArg List.length htokens
  rw [List.length_append] at hlength
  split
  · next hdict =>
    rw [hdict] at hwalks
    intro p rest hrest
    have hpassed := hwalks (p + 1 + first.length) rest
    rw [List.append_assoc] at hpassed
    rw [hscan p rest hrest]
    refine hpassed.trans (congrArg (fun n => scan key_hash n rest) ?_)
    rw [List.length_append, List.length_singleton]
    omega
  · next entries hdict =>
    rw [hdict] at hwalks
    obtain ⟨hentries, before, c, after, hparams, hc, hwalk⟩ := hwalks
    refine ⟨hentries, 1 + first.length + before.length, c, after, ?_, hc, fun p rest hrest => ?_⟩
    · have hlen := congrArg List.length hparams
      simp only [List.length_append, List.length_cons, List.length_nil] at hlen
      omega
    · have hwalked := hwalk (p + 1 + first.length) rest
      rw [List.append_assoc] at hwalked
      rw [hscan p rest hrest]
      refine hwalked.trans (congrArg (fun n => scan key_hash n _) ?_)
      omega

/-- The scan of the entries of a dictionary finds nothing exactly when the key is not met, and
what it finds is in the dictionary. -/
theorem scan_entries (h : entries.Well) (hrest : Ends rest) (p : Nat) :
    (Unmet key_hash entries ∧ scan key_hash p (entries.tokens ++ rest) = none) ∨
      (¬ Unmet key_hash entries ∧ ∃ q, scan key_hash p (entries.tokens ++ rest) = some q ∧
        q ≤ p + entries.tokens.length) := by
  induction hn : entries.tokens.length using Nat.strong_induction_on generalizing entries rest p with
  | _ n ih =>
    cases entries with
    | nil => exact Or.inl ⟨.nil, hrest.scan_none⟩
    | cons key content close others =>
      obtain ⟨hkey, hclose, hcontent, hothers⟩ := h
      have htokens : (Entries.cons key content close others).tokens ++ rest =
          key :: (content.tokens ++ close :: (others.tokens ++ rest)) := by
        simp [Entries.tokens]
      have hlength : n = content.tokens.length + 2 + others.tokens.length := by
        rw [← hn, Entries.tokens]
        simp only [List.length_cons, List.length_append]
        omega
      rw [htokens]
      by_cases hhash : str_hash key = key_hash
      · refine Or.inr ⟨?_, p + 1, scan_key hkey hhash, by omega⟩
        intro hunmet
        cases hunmet with
        | next hne => exact hne hhash
        | inner hne => exact hne hhash
      · have hentry := scan_entry hkey hclose hcontent hhash
        have hnext := hrest.no_close_key hothers
        cases hdict : content.tail.first_dict with
        | none =>
          rw [hdict] at hentry
          rw [hentry p _ hnext]
          rcases ih _ (by omega) hothers hrest (p + content.tokens.length + 2) rfl with
            ⟨hunmet, hnone⟩ | ⟨hmet, q, hq, hle⟩
          · exact Or.inl ⟨.next hhash hdict hunmet, hnone⟩
          · refine Or.inr ⟨?_, q, hq, by omega⟩
            intro hunmet
            cases hunmet with
            | next _ _ hunmet => exact hmet hunmet
            | inner _ hsome =>
              rw [hdict] at hsome
              cases hsome
        | some inner =>
          rw [hdict] at hentry
          obtain ⟨hinner, m, c, after, hm, hc, hscan⟩ := hentry
          rw [hscan p _ hnext]
          have hends : Ends (c :: (after ++ (others.tokens ++ rest))) := Or.inr ⟨c, _, rfl, hc⟩
          rcases ih _ (by omega) hinner hends (p + m) rfl with
            ⟨hunmet, hnone⟩ | ⟨hmet, q, hq, hle⟩
          · exact Or.inl ⟨.inner hhash hdict hunmet, hnone⟩
          · refine Or.inr ⟨?_, q, hq, by omega⟩
            intro hunmet
            cases hunmet with
            | next _ hnone =>
              rw [hdict] at hnone
              cases hnone
            | inner _ hsome hunmet =>
              rw [hdict] at hsome
              cases hsome
              exact hmet hunmet

theorem place_none_iff : (entries : Entries) → (p : Nat) →
    (entries.place key_hash p = none ↔ key_hash ∉ entries.hashes)
  | .nil, p => by simp [Entries.place, Entries.hashes]
  | .cons key content close others, p => by
    by_cases hhash : str_hash key = key_hash
    · simp [Entries.place, Entries.hashes, hhash]
    · have hothers := place_none_iff others (p + content.tokens.length + 2)
      simp only [Entries.place, if_neg hhash, hothers, Entries.hashes, List.mem_cons, not_or]
      exact ⟨fun h => ⟨fun heq => hhash heq.symm, h⟩, fun h => h.2⟩

theorem place_gt : (entries : Entries) → {p q : Nat} →
    entries.place key_hash p = some q → p < q
  | .nil, p, q, h => by cases h
  | .cons key content close others, p, q, h => by
    unfold Entries.place at h
    split at h
    · cases h
      omega
    · have hgt := place_gt others h
      omega

/-- Over the entries of a dictionary the scan finds the place of the key exactly when the entry
is kept. -/
theorem scan_place_iff : {entries : Entries} → entries.Well → (p : Nat) →
    (scan key_hash p entries.tokens = entries.place key_hash p ↔ entries.Kept key_hash)
  | .nil, _, p => by
    simp only [Entries.tokens, Entries.place, Entries.Kept, iff_true]
    rw [scan]
  | .cons key content close others, h, p => by
    obtain ⟨hkey, hclose, hcontent, hothers⟩ := h
    rw [Entries.tokens, Entries.place, Entries.Kept]
    by_cases hhash : str_hash key = key_hash
    · rw [scan_key hkey hhash, if_pos hhash]
      simp [hhash]
    · have hentry := scan_entry hkey hclose hcontent hhash
      have hnext : skip_close_key others.tokens = 0 := by
        simpa using Ends.no_close_key hothers (Or.inl rfl)
      rw [if_neg hhash, or_iff_right hhash]
      cases hdict : content.tail.first_dict with
      | none =>
        rw [hdict] at hentry
        rw [hentry p _ hnext]
        exact scan_place_iff hothers _
      | some inner =>
        rw [hdict] at hentry
        obtain ⟨hinner, n, c, after, hn, hc, hscan⟩ := hentry
        have hends : Ends (c :: (after ++ others.tokens)) := Or.inr ⟨c, _, rfl, hc⟩
        rw [hscan p _ hnext]
        rcases scan_entries hinner hends (p + n) with ⟨hunmet, hnone⟩ | ⟨hmet, q, hq, hle⟩
        · rw [hnone, eq_comm, place_none_iff]
          exact ⟨fun hnot => ⟨hnot, hunmet⟩, fun hkept => hkept.1⟩
        · rw [hq]
          constructor
          · intro hplace
            have hgt := place_gt others hplace.symm
            omega
          · rintro ⟨-, hunmet⟩
            exact absurd hunmet hmet

/-- In every well-formed dictionary both lookups give the content of the first entry with the key,
and NULL without one, exactly when the key is kept. -/
theorem dict_lookup_iff {o c : ParamStruct} {entries : Entries}
    (h : (Value.dict o entries c).Well) (before after : List ParamStruct) (key_hash : UInt32) :
    (se_dicth_find (before ++ (Value.dict o entries c).tokens ++ after) (some before.length)
        key_hash = entries.place key_hash (before.length + 1) ∧
      se_dicts_find_hash (before ++ (Value.dict o entries c).tokens ++ after)
        (some before.length) key_hash = entries.place key_hash (before.length + 1)) ↔
      entries.Kept key_hash := by
  obtain ⟨hopen, -, hidx, hwell⟩ := h
  have hfind : find (before ++ (Value.dict o entries c).tokens ++ after) (some before.length)
      key_hash = scan key_hash (before.length + 1) entries.tokens := by
    have hdrop : (before ++ (Value.dict o entries c).tokens ++ after).drop (before.length + 1) =
        entries.tokens ++ (c :: after) := by
      rw [List.append_assoc, List.drop_append, List.drop_eq_nil_of_le (by omega)]
      simp [Value.tokens]
    have hget : (before ++ (Value.dict o entries c).tokens ++ after)[before.length]? = some o := by
      simp [Value.tokens]
    simp only [find, Option.bind_eq_bind, Option.bind_some, hget]
    rw [if_neg (not_not.mpr hopen), hdrop, brace_idx_of hidx, Nat.add_sub_cancel,
      List.take_left]
  unfold se_dicth_find se_dicts_find_hash
  rw [hfind, and_self]
  exact scan_place_iff hwell _

end

/-! ## A dictionary with two values behind a key -/

def keyParam (key : dsl.LuaString) : ParamStruct := dsl.hashParam OPEN_KEY (dsl.fnv1a_32 key)

theorem keyParam_opcode (key : dsl.LuaString) : (keyParam key).opcode = OPEN_KEY := by
  simp only [keyParam, dsl.hashParam, dsl.numberParam, dsl.ParamStruct.opcode]
  decide

def inner_dict (key : dsl.LuaString) : Value :=
  .dict (dsl.u16Param OPEN_DICT 0 4 0)
    (.cons (keyParam key) (.cons (.token (dsl.numberParam INT 1)) .nil)
      (dsl.u16Param CLOSE_KEY 0 2 0) .nil)
    (dsl.u16Param CLOSE_DICT 0 4 0)

/-- A key with a number and this dictionary, and then the key `b`. -/
def outer_entries (key : dsl.LuaString) : Entries :=
  .cons (keyParam [0x61])
    (.cons (.token (dsl.numberParam INT 1)) (.cons (inner_dict key) .nil))
    (dsl.u16Param CLOSE_KEY 0 7 0)
    (.cons (keyParam [0x62]) (.cons (.token (dsl.numberParam INT 2)) .nil)
      (dsl.u16Param CLOSE_KEY 0 2 0) .nil)

def outer_dict (key : dsl.LuaString) : Value :=
  .dict (dsl.u16Param OPEN_DICT 0 12 0) (outer_entries key) (dsl.u16Param CLOSE_DICT 0 12 0)

theorem outer_dict_well (key : dsl.LuaString) : (outer_dict key).Well := by
  have hinner : (inner_dict key).Well :=
    ⟨rfl, rfl, rfl, keyParam_opcode _, rfl, ⟨rfl, trivial⟩, trivial⟩
  exact ⟨rfl, rfl, rfl, keyParam_opcode _, rfl, ⟨rfl, hinner, trivial⟩, keyParam_opcode _, rfl,
    ⟨rfl, trivial⟩, trivial⟩

/-- The key `a` is found in front of the dictionary that is behind its first value. -/
theorem outer_key_found :
    se_dicth_find ([] ++ (outer_dict [0x63]).tokens ++ []) (some 0) (dsl.fnv1a_32 [0x61]) =
      (outer_entries [0x63]).place (dsl.fnv1a_32 [0x61]) 1 :=
  ((dict_lookup_iff (outer_dict_well [0x63]) [] [] (dsl.fnv1a_32 [0x61])).mpr
    (Or.inl (by decide))).1

/-- The key `b` of the dictionary is not found, or is found in the inner one. -/
theorem outer_key_lost :
    (outer_entries [0x63]).place (dsl.fnv1a_32 [0x62]) 1 = some 10 ∧
      se_dicth_find (outer_dict [0x63]).tokens (some 0) (dsl.fnv1a_32 [0x62]) =
        none ∧
      se_dicth_find (outer_dict [0x62]).tokens (some 0) (dsl.fnv1a_32 [0x62]) =
        some 5 := by
  decide +kernel

end motioncore.dicts
