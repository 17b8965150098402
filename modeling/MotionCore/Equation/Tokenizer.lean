-- The tokenizer of the equation compiler. It takes a minus sign and the digits behind it as one
-- number where an operand is next, so its tokens are compared with those of the longest matches,
-- where a minus sign is always an operator.
import Mathlib.Algebra.Group.Nat.Defs
import Mathlib.Data.List.TakeWhile
import MotionCore.Equation.Syntax

namespace motioncore.equation

/-! ## Characters -/

/-- `%s` -/
def isSpace (c : Char) : Bool := c.toNat == 32 || (9 ≤ c.toNat && c.toNat ≤ 13)

/-- `[%w_]` -/
def isIdent (c : Char) : Bool := c.isAlphanum || c == '_'

/-- `[%a_]` -/
def isIdentStart (c : Char) : Bool := c.isAlpha || c == '_'

/-- `[%w_.]` -/
def isField (c : Char) : Bool := isIdent c || c == '.'

/-- `[%d.]` -/
def isNumber (c : Char) : Bool := c.isDigit || c == '.'

def two_char : Char → Char → Option Op
  | '=', '=' => some .eq
  | '!', '=' => some .ne
  | '<', '=' => some .le
  | '>', '=' => some .ge
  | '&', '&' => some .land
  | '|', '|' => some .lor
  | '<', '<' => some .shl
  | '>', '>' => some .shr
  | _, _ => none

/-- The operators of one character, the parentheses and the comma. -/
def one_char : Char → Option Token
  | '+' => some (.op .add)
  | '-' => some (.op .sub)
  | '*' => some (.op .mul)
  | '/' => some (.op .div)
  | '%' => some (.op .mod)
  | '&' => some (.op .band)
  | '|' => some (.op .bor)
  | '^' => some (.op .bxor)
  | '~' => some (.op .bnot)
  | '!' => some (.op .lnot)
  | '<' => some (.op .lt)
  | '>' => some (.op .gt)
  | '=' => some (.op .assign)
  | '(' => some .lparen
  | ')' => some .rparen
  | ',' => some .comma
  | _ => none

/-! ## Numbers -/

/-- The quotient, rounded to the nearest whole number, and to an even one between two. -/
def roundDiv (a b : Nat) : Nat :=
  if 2 * (a % b) < b then a / b
  else if b < 2 * (a % b) then a / b + 1
  else a / b + a / b % 2

/-- The whole part of the double that is nearest to `a / b`. A double has 53 bits, of which as
many are behind the point as the whole part leaves. -/
def double_whole (a b : Nat) : Nat :=
  let bits := if a / b = 0 then 0 else (a / b).log2 + 1
  if bits ≤ 53 then roundDiv (a * 2 ^ (53 - bits)) b / 2 ^ (53 - bits)
  else roundDiv a (b * 2 ^ (bits - 53)) * 2 ^ (bits - 53)

/-- The whole part of a numeral without sign. A numeral has a digit. -/
def unsigned (numstr : List Char) : Option Int :=
  let whole := numstr.takeWhile Char.isDigit
  let frac := (numstr.dropWhile Char.isDigit).tail
  if whole ++ frac = [] then none
  else some (double_whole (Nat.ofDigitChars 10 (whole ++ frac) 0) (10 ^ frac.length))

def tonumber : List Char → Option Int
  | '-' :: numstr => (unsigned numstr).map fun v => -v
  | numstr => unsigned numstr

/-- The loop over the digits of a number, with at most one point among them. -/
def scan_digits (has_dot : Bool) : List Char → List Char × Bool × List Char
  | [] => ([], has_dot, [])
  | c :: s =>
    if c = '.' ∧ has_dot = false then
      let (text, has_dot, rest) := scan_digits true s
      (c :: text, has_dot, rest)
    else if c.isDigit then
      let (text, has_dot, rest) := scan_digits has_dot s
      (c :: text, has_dot, rest)
    else ([], has_dot, c :: s)

/-- The suffix `f` makes a number a float. -/
def scan_suffix : Bool × List Char → Bool × List Char
  | (has_dot, c :: s) => if c = 'f' ∨ c = 'F' then (true, s) else (has_dot, c :: s)
  | (has_dot, []) => (has_dot, [])

def scan_number (sign s : List Char) : Option (Token × List Char) :=
  let (text, has_dot, rest) := scan_digits false s
  let (is_float, rest) := scan_suffix (has_dot, rest)
  (tonumber (sign ++ text)).map fun v => (.num v is_float, rest)

/-! ## The tokenizer -/

/-- After the start, an operator, an opening parenthesis or a comma an operand is next. -/
def operandNext : Token → Bool
  | .op _ | .lparen | .comma => true
  | _ => false

/-- The token that starts here, and what follows it. `none` stands for every error. -/
def next_token (operand : Bool) : List Char → Option (Token × List Char)
  | [] => none
  | ch :: rest =>
    if ch = '@' then
      let name := rest.takeWhile isField
      if name = [] then none else some (.field (String.ofList name), rest.dropWhile isField)
    else if isNumber ch then scan_number [] (ch :: rest)
    else if ch = '-' ∧ rest.head?.any isNumber ∧ operand then scan_number ['-'] rest
    else if isIdentStart ch then
      some (.ident (String.ofList (ch :: rest.takeWhile isIdent)), rest.dropWhile isIdent)
    else
      match rest.head?.bind (two_char ch) with
      | some op => some (.op op, rest.tail)
      | none => (one_char ch).map fun t => (t, rest)

/-- The loop of `tokenize`, of which the fuel counts the turns. -/
def tokenize_from : Nat → Bool → List Char → Option (List Token)
  | 0, _, _ => none
  | _ + 1, _, [] => some [.eof]
  | fuel + 1, operand, ch :: rest =>
    if isSpace ch then tokenize_from fuel operand rest
    else do
      let (t, rest) ← next_token operand (ch :: rest)
      let ts ← tokenize_from fuel (operandNext t) rest
      return t :: ts

def tokenize (str : List Char) : Option (List Token) := tokenize_from (str.length + 1) true str

/-! ## Longest matches -/

/-- The text of a number without sign and suffix: its whole part, and whether it has a point. -/
inductive Numeral : List Char → Int → Bool → Prop
  | whole {ds : List Char} : ds ≠ [] → (∀ c ∈ ds, c.isDigit) →
      Numeral ds (double_whole (Nat.ofDigitChars 10 ds 0) 1) false
  | dotted {ws fs : List Char} : ws ++ fs ≠ [] → (∀ c ∈ ws, c.isDigit) → (∀ c ∈ fs, c.isDigit) →
      Numeral (ws ++ '.' :: fs)
        (double_whole (Nat.ofDigitChars 10 (ws ++ fs) 0) (10 ^ fs.length)) true

/-- The text is the longest one with which a token can start there, and `rest` follows it. -/
inductive Lexeme : List Char → Token → List Char → Prop
  | ident {c : Char} {cs rest : List Char} : isIdentStart c → (∀ x ∈ cs, isIdent x) →
      (∀ x ∈ rest.head?, isIdent x = false) →
      Lexeme (c :: cs) (.ident (String.ofList (c :: cs))) rest
  | field {cs rest : List Char} : cs ≠ [] → (∀ x ∈ cs, isField x) →
      (∀ x ∈ rest.head?, isField x = false) → Lexeme ('@' :: cs) (.field (String.ofList cs)) rest
  | num {text rest : List Char} {v : Int} {has_dot : Bool} : Numeral text v has_dot →
      (∀ x ∈ rest.head?, x.isDigit = false ∧ x ≠ 'f' ∧ x ≠ 'F' ∧ (x = '.' → has_dot)) →
      Lexeme text (.num v has_dot) rest
  | float {text rest : List Char} {v : Int} {has_dot : Bool} {c : Char} :
      Numeral text v has_dot → c = 'f' ∨ c = 'F' → Lexeme (text ++ [c]) (.num v true) rest
  | two {a b : Char} {op : Op} {rest : List Char} : two_char a b = some op →
      Lexeme [a, b] (.op op) rest
  | one {a : Char} {t : Token} {rest : List Char} : one_char a = some t →
      (∀ b ∈ rest.head?, two_char a b = none) → Lexeme [a] t rest

/-- The tokens of a text, with blanks between them where they are wanted. -/
inductive Lexes : List Char → List Token → Prop
  | nil : Lexes [] []
  | space {c : Char} {s : List Char} {ts : List Token} : isSpace c → Lexes s ts →
      Lexes (c :: s) ts
  | token {text rest : List Char} {t : Token} {ts : List Token} : Lexeme text t rest →
      Lexes rest ts → Lexes (text ++ rest) (t :: ts)

/-- The tokens with a minus sign and a number joined in some places where an operand is next. -/
inductive Joined : Bool → List Token → List Token → Prop
  | nil {operand : Bool} : Joined operand [] []
  | cons {operand : Bool} {t : Token} {ts ts' : List Token} : Joined (operandNext t) ts ts' →
      Joined operand (t :: ts) (t :: ts')
  | join {v : Int} {is_float : Bool} {ts ts' : List Token} : Joined false ts ts' →
      Joined true (.op .sub :: .num v is_float :: ts) (.num (-v) is_float :: ts')

/-! ## Kinds of characters -/

variable {c : Char}

theorem digit_code : c.isDigit ↔ 48 ≤ c.toNat ∧ c.toNat ≤ 57 := by
  simp only [Char.isDigit, Bool.and_eq_true, decide_eq_true_eq, ge_iff_le, UInt32.le_iff_toNat_le]
  exact Iff.rfl

theorem alpha_code :
    c.isAlpha ↔ (65 ≤ c.toNat ∧ c.toNat ≤ 90) ∨ (97 ≤ c.toNat ∧ c.toNat ≤ 122) := by
  change (decide (c.val ≥ 65 ∧ c.val ≤ 90) ||
    (decide (c.val ≥ 97) && decide (c.val ≤ 122))) = true ↔ _
  simp only [Bool.or_eq_true, Bool.and_eq_true, decide_eq_true_eq, ge_iff_le,
    UInt32.le_iff_toNat_le]
  exact Iff.rfl

theorem char_code {d : Char} : c = d ↔ c.toNat = d.toNat :=
  ⟨fun h => congrArg Char.toNat h, fun h => Char.ext (UInt32.toNat_inj.mp h)⟩

theorem isNumber_code : isNumber c ↔ (48 ≤ c.toNat ∧ c.toNat ≤ 57) ∨ c.toNat = 46 := by
  simp only [isNumber, Bool.or_eq_true, digit_code, beq_iff_eq, char_code]
  rfl

theorem isIdentStart_code : isIdentStart c ↔
    ((65 ≤ c.toNat ∧ c.toNat ≤ 90) ∨ (97 ≤ c.toNat ∧ c.toNat ≤ 122)) ∨ c.toNat = 95 := by
  simp only [isIdentStart, Bool.or_eq_true, alpha_code, beq_iff_eq, char_code]
  rfl

/-- A character with which a name starts starts nothing else. -/
theorem ident_start_only (h : isIdentStart c) : c ≠ '@' ∧ isNumber c = false := by
  rw [isIdentStart_code] at h
  rw [← Bool.not_eq_true, isNumber_code, Ne, char_code]
  have hat : '@'.toNat = 64 := rfl
  omega

theorem number_only (h : isNumber c) : c ≠ '@' ∧ c ≠ '-' := by
  rw [isNumber_code] at h
  rw [Ne, Ne, char_code, char_code]
  have hat : '@'.toNat = 64 := rfl
  have hminus : '-'.toNat = 45 := rfl
  omega

theorem one_char_only {t : Token} (h : one_char c = some t) :
    c ≠ '@' ∧ isNumber c = false ∧ isIdentStart c = false := by
  unfold one_char at h
  split at h
  all_goals first | exact ⟨by decide, by decide, by decide⟩ | cases h

theorem two_char_starts {a b : Char} {op : Op} (h : two_char a b = some op) :
    ∃ t, one_char a = some t := by
  unfold two_char at h
  split at h
  all_goals first | exact ⟨_, rfl⟩ | cases h

theorem two_char_none {a b : Char}
    (h : a ∉ ['=', '!', '<', '>', '&', '|'] ∨ b ∉ ['=', '&', '|', '<', '>']) :
    two_char a b = none := by
  unfold two_char
  split
  all_goals first | rfl | simp at h

/-! ## Runs of characters -/

theorem head_dropWhile (p : Char → Bool) (s : List Char) :
    ∀ x ∈ (s.dropWhile p).head?, p x = false := by
  intro x hx
  have h := List.head?_dropWhile_not p s
  rw [Option.mem_def.mp hx] at h
  exact h

variable {cs : List Char}

theorem span_run {p : Char → Bool} (hcs : ∀ x ∈ cs, p x) (rest : List Char)
    (hrest : ∀ x ∈ rest.head?, p x = false) :
    (cs ++ rest).takeWhile p = cs ∧ (cs ++ rest).dropWhile p = rest := by
  induction cs with
  | nil =>
    cases rest with
    | nil => exact ⟨rfl, rfl⟩
    | cons c rest =>
      have hc : p c = false := hrest c rfl
      simp [hc]
  | cons c cs ih =>
    have hc : p c := hcs c List.mem_cons_self
    obtain ⟨htake, hdrop⟩ := ih fun x hx => hcs x (List.mem_cons_of_mem c hx)
    simp [hc, htake, hdrop]

theorem span_all {p : Char → Bool} (hcs : ∀ x ∈ cs, p x) :
    cs.takeWhile p = cs ∧ cs.dropWhile p = [] := by
  simpa using span_run hcs [] (by simp)

/-! ## Numbers -/

theorem scan_digits_point (s : List Char) :
    scan_digits true s = (s.takeWhile Char.isDigit, true, s.dropWhile Char.isDigit) := by
  induction s with
  | nil => rfl
  | cons c s ih =>
    rw [scan_digits, if_neg (by simp)]
    by_cases hc : c.isDigit
    · simp [hc, ih]
    · simp [hc]

theorem scan_digits_eq (s : List Char) : scan_digits false s = match s.dropWhile Char.isDigit with
      | '.' :: rest => (s.takeWhile Char.isDigit ++ '.' :: rest.takeWhile Char.isDigit, true,
          rest.dropWhile Char.isDigit)
      | rest => (s.takeWhile Char.isDigit, false, rest) := by
  induction s with
  | nil => rfl
  | cons c s ih =>
    rw [scan_digits]
    by_cases hc : c.isDigit
    · have hpoint : c ≠ '.' := by
        rintro rfl
        exact absurd hc (by decide)
      simp only [hpoint, false_and, if_false, hc, if_true, List.takeWhile_cons, List.dropWhile_cons,
        ih]
      split <;> rfl
    · by_cases hpoint : c = '.'
      · subst hpoint
        simp [hc, scan_digits_point]
      · simp only [hpoint, false_and, if_false, hc, Bool.false_eq_true, List.takeWhile_cons,
          List.dropWhile_cons]
        split
        · next rest heq => exact absurd (List.cons.inj heq).1 hpoint
        · rfl

variable {text : List Char} {v : Int} {has_dot : Bool}

theorem Numeral.starts (h : Numeral text v has_dot) : ∃ c cs, text = c :: cs ∧ isNumber c := by
  have hdigit : ∀ {c : Char}, c.isDigit → isNumber c := fun h => by simp [isNumber, h]
  cases h with
  | whole hne hds =>
    obtain ⟨c, cs, rfl⟩ := List.exists_cons_of_ne_nil hne
    exact ⟨c, cs, rfl, hdigit (hds c List.mem_cons_self)⟩
  | @dotted ws fs _ hws _ =>
    cases ws with
    | nil => exact ⟨'.', fs, rfl, rfl⟩
    | cons c ws => exact ⟨c, _, rfl, hdigit (hws c List.mem_cons_self)⟩

theorem tonumber_unsigned (h : c ≠ '-') : tonumber (c :: cs) = unsigned (c :: cs) := by
  unfold tonumber
  split
  · next heq => exact absurd (List.cons.inj heq).1 h
  · rfl

theorem Numeral.scanned {rest : List Char} (h : Numeral text v has_dot)
    (hrest : ∀ x ∈ rest.head?, x.isDigit = false ∧ (x = '.' → has_dot)) :
    scan_digits false (text ++ rest) = (text, has_dot, rest) ∧ tonumber text = some v := by
  have hnumber : tonumber text = unsigned text := by
    obtain ⟨c, cs, rfl, hc⟩ := h.starts
    exact tonumber_unsigned (number_only hc).2
  rw [hnumber]
  cases h with
  | whole hne hds =>
    obtain ⟨htake, hdrop⟩ := span_run hds rest fun x hx => (hrest x hx).1
    rw [scan_digits_eq, hdrop, htake]
    constructor
    · split
      · next rest' => exact absurd ((hrest '.' rfl).2 rfl) (by decide)
      · rfl
    · simp [unsigned, span_all hds, hne]
  | @dotted ws fs hne hws hfs =>
    obtain ⟨htake, hdrop⟩ := span_run hws ('.' :: fs) fun x hx => by cases hx; rfl
    obtain ⟨htake', hdrop'⟩ := span_run hws ('.' :: fs ++ rest) fun x hx => by cases hx; rfl
    obtain ⟨htake'', hdrop''⟩ := span_run hfs rest fun x hx => (hrest x hx).1
    constructor
    · rw [List.append_assoc, scan_digits_eq, hdrop', htake']
      simp [htake'', hdrop'']
    · simp [unsigned, htake, hdrop, hne]

variable {s : List Char}

/-- What is scanned is a numeral, if it is a number. -/
theorem scan_digits_numeral {rest : List Char} (h : scan_digits false s = (text, has_dot, rest))
    (hv : unsigned text = some v) : s = text ++ rest ∧ Numeral text v has_dot ∧
      ∀ x ∈ rest.head?, x.isDigit = false ∧ (x = '.' → has_dot) := by
  have hsplit := List.takeWhile_append_dropWhile (p := Char.isDigit) (l := s)
  have hdigits : ∀ s : List Char, ∀ c ∈ s.takeWhile Char.isDigit, c.isDigit :=
    fun s c hc => List.mem_takeWhile_imp hc
  rw [scan_digits_eq] at h
  split at h
  · next after hdrop =>
    cases h
    rw [hdrop] at hsplit
    obtain ⟨htake, hrest⟩ := span_run (hdigits s) ('.' :: after.takeWhile Char.isDigit)
      fun x hx => by cases hx; rfl
    have hne : s.takeWhile Char.isDigit ++ after.takeWhile Char.isDigit ≠ [] := by
      intro hnil
      simp [unsigned, htake, hrest, hnil] at hv
    simp only [unsigned, htake, hrest, List.tail_cons, if_neg hne, Option.some.injEq] at hv
    refine ⟨by simpa using hsplit.symm, ?_, fun x hx => ⟨head_dropWhile _ _ x hx, fun _ => rfl⟩⟩
    rw [← hv]
    exact .dotted hne (hdigits s) (hdigits after)
  · next hpoint =>
    cases h
    obtain ⟨htake, hrest⟩ := span_all (hdigits s)
    have hne : s.takeWhile Char.isDigit ≠ [] := by
      intro hnil
      simp [unsigned, hnil] at hv
    simp only [unsigned, htake, hrest, List.tail_nil, List.append_nil, if_neg hne,
      Option.some.injEq] at hv
    refine ⟨hsplit.symm, ?_, fun x hx => ⟨head_dropWhile _ _ x hx, ?_⟩⟩
    · rw [← hv]
      exact .whole hne (hdigits s)
    · rintro rfl
      obtain ⟨after, hafter⟩ := List.head?_eq_some_iff.mp (Option.mem_def.mp hx)
      exact absurd hafter (hpoint after)

/-! ## The next token -/

def Token.negated : Token → Token
  | .num v is_float => .num (-v) is_float
  | t => t

section

variable {s text rest : List Char} {t : Token}

/-- The text of a number behind its sign is no sign. -/
theorem scanned_unsigned {digits : List Char} {has_dot : Bool}
    (h : scan_digits false s = (digits, has_dot, rest)) : tonumber digits = unsigned digits := by
  rcases digits with _ | ⟨c, cs⟩
  · rfl
  refine tonumber_unsigned (number_only ?_).2
  have hdigit : ∀ (s : List Char) (x : Char), x ∈ s.takeWhile Char.isDigit → isNumber x := by
    intro s x hx
    simp [isNumber, List.mem_takeWhile_imp hx]
  have hall : ∀ x ∈ c :: cs, isNumber x := by
    rw [scan_digits_eq] at h
    split at h
    · rw [← (Prod.mk.inj h).1]
      intro x hx
      rcases List.mem_append.mp hx with hx | hx
      · exact hdigit _ x hx
      rcases List.mem_cons.mp hx with rfl | hx
      · rfl
      · exact hdigit _ x hx
    · rw [← (Prod.mk.inj h).1]
      exact hdigit _
  exact hall c List.mem_cons_self

theorem scan_number_lexeme (h : scan_number [] s = some (t, rest)) :
    ∃ text, s = text ++ rest ∧ Lexeme text t rest := by
  obtain ⟨⟨digits, has_dot, after⟩, hscan⟩ : ∃ r, scan_digits false s = r := ⟨_, rfl⟩
  simp only [scan_number, hscan, List.nil_append, Option.map_eq_some_iff] at h
  obtain ⟨v, hv, heq⟩ := h
  rw [scanned_unsigned hscan] at hv
  obtain ⟨hsplit, hnumeral, hafter⟩ := scan_digits_numeral hscan hv
  rcases after with _ | ⟨c, after⟩
  · cases heq
    exact ⟨digits, hsplit, .num hnumeral (by simp [scan_suffix])⟩
  · simp only [scan_suffix] at heq
    by_cases hc : c = 'f' ∨ c = 'F'
    · rw [if_pos hc] at heq
      cases heq
      exact ⟨digits ++ [c], by simpa using hsplit, .float hnumeral hc⟩
    · rw [if_neg hc] at heq
      cases heq
      refine ⟨digits, hsplit, .num hnumeral fun x hx => ?_⟩
      obtain ⟨hdigit, hpoint⟩ := hafter x hx
      cases hx
      exact ⟨hdigit, fun h => hc (Or.inl h), fun h => hc (Or.inr h), hpoint⟩

theorem scan_number_minus (s : List Char) :
    scan_number ['-'] s = (scan_number [] s).map fun (t, rest) => (t.negated, rest) := by
  obtain ⟨⟨digits, has_dot, after⟩, hscan⟩ : ∃ r, scan_digits false s = r := ⟨_, rfl⟩
  have hsigned : tonumber ('-' :: digits) = (unsigned digits).map fun v => -v := rfl
  simp only [scan_number, hscan, List.nil_append, List.singleton_append]
  rw [hsigned, scanned_unsigned hscan, Option.map_map, Option.map_map]
  rfl

/-- Where a minus sign is an operator, the tokenizer takes the longest match. -/
theorem next_token_lexeme (h : next_token false s = some (t, rest)) :
    ∃ text, s = text ++ rest ∧ Lexeme text t rest := by
  rcases s with _ | ⟨c, s⟩
  · cases h
  have hsplit : ∀ p : Char → Bool, s = s.takeWhile p ++ s.dropWhile p :=
    fun p => List.takeWhile_append_dropWhile.symm
  simp only [next_token] at h
  split at h
  · next hat =>
    split at h
    · cases h
    · next hne =>
      cases h
      subst hat
      refine ⟨'@' :: s.takeWhile isField, by rw [List.cons_append, ← hsplit], ?_⟩
      exact .field hne (fun x hx => List.mem_takeWhile_imp hx) (head_dropWhile _ _)
  split at h
  · exact scan_number_lexeme h
  split at h
  · next hminus => exact absurd hminus.2.2 (by simp)
  split at h
  · next hstart =>
    cases h
    refine ⟨c :: s.takeWhile isIdent, by rw [List.cons_append, ← hsplit], ?_⟩
    exact .ident hstart (fun x hx => List.mem_takeWhile_imp hx) (head_dropWhile _ _)
  split at h
  · next op hop =>
    cases h
    obtain ⟨b, hb, hop⟩ := Option.bind_eq_some_iff.mp hop
    obtain ⟨after, rfl⟩ := List.head?_eq_some_iff.mp hb
    exact ⟨[c, b], rfl, .two hop⟩
  · next hop =>
    obtain ⟨t', ht, heq⟩ := Option.map_eq_some_iff.mp h
    cases heq
    refine ⟨[c], rfl, .one ht fun b hb => ?_⟩
    rw [Option.mem_def.mp hb] at hop
    exact hop

/-- A longest match is the token that the tokenizer finds. -/
theorem Lexeme.next_token (h : Lexeme text t rest) :
    next_token false (text ++ rest) = some (t, rest) := by
  have hnumeral : ∀ {digits after : List Char} {v : Int} {has_dot : Bool},
      Numeral digits v has_dot →
      (∀ x ∈ after.head?, x.isDigit = false ∧ (x = '.' → has_dot)) →
      equation.next_token false (digits ++ after) =
        some (.num v (scan_suffix (has_dot, after)).1, (scan_suffix (has_dot, after)).2) := by
    intro digits after v has_dot hnum hafter
    obtain ⟨hscan, hv⟩ := hnum.scanned hafter
    obtain ⟨c, cs, rfl, hc⟩ := hnum.starts
    rw [List.cons_append] at hscan ⊢
    rw [equation.next_token, if_neg (number_only hc).1, if_pos hc]
    simp only [scan_number, hscan, List.nil_append, hv, Option.map_some]
  cases h with
  | @ident c cs rest hc hcs hrest =>
    obtain ⟨hat, hnum⟩ := ident_start_only hc
    obtain ⟨htake, hdrop⟩ := span_run hcs rest hrest
    rw [List.cons_append, equation.next_token, if_neg hat, if_neg (by simp [hnum]),
      if_neg (by simp), if_pos hc, htake, hdrop]
  | @field cs rest hne hcs hrest =>
    obtain ⟨htake, hdrop⟩ := span_run hcs rest hrest
    rw [List.cons_append, equation.next_token, if_pos rfl]
    simp only [htake, hdrop, if_neg hne]
  | @num text rest v has_dot hnum hrest =>
    rw [hnumeral hnum fun x hx => ⟨(hrest x hx).1, (hrest x hx).2.2.2⟩]
    rcases rest with _ | ⟨c, rest⟩
    · rfl
    · obtain ⟨-, hf, hF, -⟩ := hrest c rfl
      rw [scan_suffix, if_neg (by simp [hf, hF])]
  | @float text rest v has_dot c hnum hc =>
    have hrest : ∀ x ∈ (c :: rest).head?, x.isDigit = false ∧ (x = '.' → has_dot) := by
      rintro x hx
      cases hx
      rcases hc with rfl | rfl
      · exact ⟨by decide, fun h => absurd h (by decide)⟩
      · exact ⟨by decide, fun h => absurd h (by decide)⟩
    rw [List.append_assoc, List.singleton_append, hnumeral hnum hrest, scan_suffix, if_pos hc]
  | @two a b op rest hop =>
    obtain ⟨t, ht⟩ := two_char_starts hop
    obtain ⟨hat, hnum, hstart⟩ := one_char_only ht
    rw [List.cons_append, equation.next_token, if_neg hat, if_neg (by simp [hnum]),
      if_neg (by simp), if_neg (by simp [hstart])]
    simp [hop]
  | @one a t rest ht hrest =>
    obtain ⟨hat, hnum, hstart⟩ := one_char_only ht
    have hnone : rest.head?.bind (two_char a) = none := by
      cases rest with
      | nil => rfl
      | cons b rest => exact hrest b rfl
    rw [List.cons_append, equation.next_token, if_neg hat, if_neg (by simp [hnum]),
      if_neg (by simp), if_neg (by simp [hstart])]
    simp only [List.nil_append]
    rw [hnone]
    simp [ht]

variable {c : Char}

theorem number_token {operand : Bool} (hc : isNumber c)
    (h : next_token operand (c :: s) = some (t, rest)) : ∃ v is_float, t = .num v is_float := by
  rw [next_token, if_neg (number_only hc).1, if_pos hc] at h
  obtain ⟨⟨digits, has_dot, after⟩, hscan⟩ : ∃ r, scan_digits false (c :: s) = r := ⟨_, rfl⟩
  simp only [scan_number, hscan, Option.map_eq_some_iff] at h
  obtain ⟨v, -, heq⟩ := h
  cases heq
  exact ⟨_, _, rfl⟩

/-- Where an operand is next, a minus sign in front of a number belongs to it. -/
theorem next_token_minus (hc : isNumber c) : next_token true ('-' :: c :: s) =
      (next_token false (c :: s)).map fun (t, rest) => (t.negated, rest) := by
  have hminus : '-' = '-' ∧ (c :: s).head?.any isNumber ∧ true := by simp [hc]
  rw [next_token, if_neg (by decide), if_neg (by decide), if_pos hminus, scan_number_minus,
    next_token, if_neg (number_only hc).1, if_pos hc]

theorem next_token_operand (h : ∀ c s', s = '-' :: c :: s' → isNumber c = false) :
    next_token true s = next_token false s := by
  rcases s with _ | ⟨c, s⟩
  · rfl
  by_cases hc : c = '-'
  · have hnum : s.head?.any isNumber = false := by
      rcases s with _ | ⟨d, s⟩
      · rfl
      · exact h d s (by rw [hc])
    simp [next_token, hnum]
  · simp [next_token, hc]

/-- No operator of two characters starts with a minus sign. -/
theorem minus_lexeme (s : List Char) : Lexeme ['-'] (.op .sub) s := by
  exact .one rfl fun b _ => two_char_none (.inl (by decide))

theorem space_only (h : isSpace c) :
    isNumber c = false ∧ isIdentStart c = false ∧ one_char c = none ∧ c ≠ '@' := by
  have hcode : c.toNat = 32 ∨ (9 ≤ c.toNat ∧ c.toNat ≤ 13) := by
    simpa [isSpace] using h
  refine ⟨?_, ?_, ?_, ?_⟩
  · rw [← Bool.not_eq_true, isNumber_code]
    omega
  · rw [← Bool.not_eq_true, isIdentStart_code]
    omega
  · unfold one_char
    split
    all_goals first | rfl | exact absurd h (by decide)
  · rintro rfl
    exact absurd h (by decide)

theorem Lexeme.starts (h : Lexeme text t rest) : ∃ c cs, text = c :: cs ∧ isSpace c = false := by
  have hnumeral : ∀ {digits : List Char} {v : Int} {has_dot : Bool}, Numeral digits v has_dot →
      ∃ c cs, digits = c :: cs ∧ isSpace c = false := by
    intro digits v has_dot hnum
    obtain ⟨c, cs, rfl, hc⟩ := hnum.starts
    exact ⟨c, cs, rfl, Bool.eq_false_iff.mpr fun hspace => absurd hc (by simp [space_only hspace])⟩
  have hone : ∀ {c : Char} {t : Token}, one_char c = some t → isSpace c = false := by
    intro c t ht
    exact Bool.eq_false_iff.mpr fun hspace => absurd ht (by simp [space_only hspace])
  cases h with
  | @ident c cs _ hc =>
    exact ⟨c, cs, rfl, Bool.eq_false_iff.mpr fun hspace => absurd hc (by simp [space_only hspace])⟩
  | @field cs => exact ⟨'@', cs, rfl, rfl⟩
  | num hnum => exact hnumeral hnum
  | @float digits _ v has_dot c hnum =>
    obtain ⟨d, ds, rfl, hd⟩ := hnumeral hnum
    exact ⟨d, ds ++ [c], rfl, hd⟩
  | @two a b op _ hop =>
    obtain ⟨t, ht⟩ := two_char_starts hop
    exact ⟨a, [b], rfl, hone ht⟩
  | @one a t _ ht => exact ⟨a, [], rfl, hone ht⟩

end

/-! ## All tokens -/

variable {ts : List Token}

theorem tokenize_from_eof {fuel : Nat} {operand : Bool} (h : tokenize_from fuel operand s = some ts)
    : ∃ ts', ts = ts' ++ [.eof] := by
  induction fuel generalizing operand s ts with
  | zero => cases h
  | succ fuel ih =>
    rcases s with _ | ⟨c, s⟩
    · cases h
      exact ⟨[], rfl⟩
    rw [tokenize_from] at h
    split at h
    · exact ih h
    · simp only [Option.bind_eq_bind, Option.bind_eq_some_iff] at h
      obtain ⟨⟨t, rest⟩, -, others, hothers, heq⟩ := h
      cases heq
      obtain ⟨ts', rfl⟩ := ih hothers
      exact ⟨t :: ts', rfl⟩

/-- The tokens that the tokenizer finds are the longest matches, joined in some places. -/
theorem tokenize_from_lexes {fuel : Nat} {operand : Bool} {ts' : List Token}
    (h : tokenize_from fuel operand s = some ts') :
    ∃ ts, Lexes s ts ∧ Joined operand (ts ++ [.eof]) ts' := by
  induction fuel generalizing operand s ts' with
  | zero => cases h
  | succ fuel ih =>
    rcases s with _ | ⟨c, s⟩
    · cases h
      exact ⟨[], .nil, .cons .nil⟩
    rw [tokenize_from] at h
    split at h
    · next hspace =>
      obtain ⟨ts, hts, hjoined⟩ := ih h
      exact ⟨ts, .space hspace hts, hjoined⟩
    · simp only [Option.bind_eq_bind, Option.bind_eq_some_iff] at h
      obtain ⟨⟨t, rest⟩, hnext, others, hothers, heq⟩ := h
      cases heq
      obtain ⟨ts, hts, hjoined⟩ := ih hothers
      have hlongest : next_token false (c :: s) = some (t, rest) →
          ∃ ts, Lexes (c :: s) ts ∧ Joined operand (ts ++ [.eof]) (t :: others) := by
        intro hfalse
        obtain ⟨text, hsplit, hlexeme⟩ := next_token_lexeme hfalse
        rw [hsplit]
        exact ⟨t :: ts, .token hlexeme hts, .cons hjoined⟩
      cases operand with
      | false => exact hlongest hnext
      | true =>
        by_cases hminus : ∃ d s', c :: s = '-' :: d :: s' ∧ isNumber d
        · obtain ⟨d, s', heq, hd⟩ := hminus
          rw [heq, next_token_minus hd, Option.map_eq_some_iff] at hnext
          obtain ⟨⟨t', rest'⟩, hnumber, hpair⟩ := hnext
          obtain ⟨v, is_float, rfl⟩ := number_token hd hnumber
          cases hpair
          obtain ⟨text, hsplit, hlexeme⟩ := next_token_lexeme hnumber
          refine ⟨.op .sub :: .num v is_float :: ts, ?_, .join hjoined⟩
          rw [heq]
          refine .token (minus_lexeme _) ?_
          rw [hsplit]
          exact .token hlexeme hts
        · refine hlongest ((next_token_operand fun d s' heq => ?_).symm.trans hnext)
          exact Bool.eq_false_iff.mpr fun hd => hminus ⟨d, s', heq, hd⟩

/-- Tokens whose text starts as a number start with a number. -/
theorem Lexes.number_first (h : Lexes (c :: s) ts) (hc : isNumber c) :
    ∃ v is_float ts', ts = .num v is_float :: ts' := by
  generalize hs : c :: s = text at h
  cases h with
  | nil => cases hs
  | space hspace _ =>
    obtain ⟨rfl, -⟩ := List.cons.inj hs
    exact absurd hc (by simp [space_only hspace])
  | @token text rest t ts hlexeme _ =>
    have hnext := hlexeme.next_token
    rw [← hs] at hnext
    obtain ⟨v, is_float, rfl⟩ := number_token hc hnext
    exact ⟨v, is_float, ts, rfl⟩

/-- The tokenizer finds the longest matches, and joins some of them. -/
theorem Lexes.tokenize_from (h : Lexes s ts) : ∀ (operand : Bool) (fuel : Nat), s.length < fuel →
      ∃ ts', equation.tokenize_from fuel operand s = some ts' ∧
        Joined operand (ts ++ [.eof]) ts' := by
  induction h with
  | nil =>
    intro operand fuel hfuel
    obtain ⟨fuel, rfl⟩ := Nat.exists_eq_add_one_of_ne_zero (Nat.ne_of_gt hfuel)
    exact ⟨[.eof], rfl, .cons .nil⟩
  | @space c s ts hc _ ih =>
    intro operand fuel hfuel
    obtain ⟨fuel, rfl⟩ := Nat.exists_eq_add_one_of_ne_zero (Nat.ne_of_gt (Nat.zero_lt_of_lt hfuel))
    rw [equation.tokenize_from, if_pos hc]
    exact ih operand fuel (by simpa using hfuel)
  | @token text rest t ts hlexeme hlexes ih =>
    intro operand fuel hfuel
    obtain ⟨fuel, rfl⟩ := Nat.exists_eq_add_one_of_ne_zero (Nat.ne_of_gt (Nat.zero_lt_of_lt hfuel))
    have hnext := hlexeme.next_token
    obtain ⟨c, cs, rfl, hc⟩ := hlexeme.starts
    simp only [List.cons_append, List.length_cons, List.length_append] at hfuel hnext ⊢
    rw [equation.tokenize_from, if_neg (by simp [hc])]
    have hlongest : equation.next_token operand (c :: (cs ++ rest)) = some (t, rest) →
        ∃ ts', (do
          let (t, rest) ← equation.next_token operand (c :: (cs ++ rest))
          let ts ← equation.tokenize_from fuel (operandNext t) rest
          return t :: ts) = some ts' ∧ Joined operand (t :: ts ++ [.eof]) ts' := by
      intro hnext
      obtain ⟨ts', hts', hjoined⟩ := ih (operandNext t) fuel (by omega)
      exact ⟨t :: ts', by simp [hnext, hts'], .cons hjoined⟩
    cases operand with
    | false => exact hlongest hnext
    | true =>
      by_cases hminus : ∃ d s', c :: (cs ++ rest) = '-' :: d :: s' ∧ isNumber d
      · obtain ⟨d, s', heq, hd⟩ := hminus
        obtain ⟨rfl, hs'⟩ := List.cons.inj heq
        -- the match is the sign alone, and the number is the next token
        have hsign := (minus_lexeme (cs ++ rest)).next_token
        rw [List.singleton_append, hnext] at hsign
        obtain ⟨rfl, hrest⟩ := Prod.mk.inj (Option.some.inj hsign)
        rw [← hrest] at hs' ⊢
        subst hs'
        obtain ⟨ts', hts', hjoined⟩ := ih true (fuel + 1) (by omega)
        obtain ⟨v, is_float, others, rfl⟩ := hlexes.number_first hd
        have hspace : isSpace d = false :=
          Bool.eq_false_iff.mpr fun hspace => absurd hd (by simp [space_only hspace])
        rw [equation.tokenize_from, if_neg (by simp [hspace])] at hts'
        simp only [Option.bind_eq_bind, Option.bind_eq_some_iff] at hts'
        obtain ⟨⟨t, rest'⟩, hnumber, others', hothers, hpair⟩ := hts'
        have hfalse := (next_token_operand fun e s' heq => by
          obtain ⟨rfl, -⟩ := List.cons.inj heq
          exact absurd hd (by decide)).symm.trans hnumber
        obtain ⟨v', is_float', rfl⟩ := number_token hd hnumber
        cases hpair
        cases hjoined with
        | cons hjoined =>
          refine ⟨.num (-v) is_float :: others', ?_, .join hjoined⟩
          rw [next_token_minus hd, hfalse]
          have hoperand : operandNext (.num (-v) is_float) = operandNext (.num v is_float) := rfl
          simp only [Option.map_some, Token.negated, Option.bind_eq_bind, Option.bind_some]
          rw [hoperand, hothers]
          rfl
      · refine hlongest ((next_token_operand fun d s' heq => ?_).trans hnext)
        exact Bool.eq_false_iff.mpr fun hd => hminus ⟨d, s', heq, hd⟩

end motioncore.equation
