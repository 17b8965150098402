-- The text of an expression, read by the tokenizer and the parser: they accept the expressions of
-- the grammar, and group the operators as C does. A negative literal stands for a minus sign and
-- a number, so a text may be read as another tree of the same meaning.
import MotionCore.Equation.Soundness
import MotionCore.Equation.Tokenizer
import MotionCore.Equation.Value

namespace motioncore.equation

def parse_text (str : List Char) : Option Ast := (tokenize str).bind parse_tokens

/-- The text is an expression of the grammar: its longest matches are derived. -/
def Expression (str : List Char) (e : Ast) : Prop := ∃ ts, Lexes str ts ∧ Derives 0 ts e

/-- The second tree is the first with some minus signs joined with the numbers behind them. -/
inductive SignsJoined : Ast → Ast → Prop
  | num (v : Int) (is_float : Bool) : SignsJoined (.num v is_float) (.num v is_float)
  | var (name : String) : SignsJoined (.var name) (.var name)
  | field (name : String) : SignsJoined (.field name) (.field name)
  | unop {op : Op} {x x' : Ast} : SignsJoined x x' → SignsJoined (.unop op x) (.unop op x')
  | binop {op : Op} {l l' r r' : Ast} : SignsJoined l l' → SignsJoined r r' →
      SignsJoined (.binop op l r) (.binop op l' r')
  | call1 {f : Func} {x x' : Ast} : SignsJoined x x' → SignsJoined (.call1 f x) (.call1 f x')
  | call2 {f : Func} {x x' y y' : Ast} : SignsJoined x x' → SignsJoined y y' →
      SignsJoined (.call2 f x y) (.call2 f x' y')
  | join (v : Int) (is_float : Bool) :
      SignsJoined (.unop .sub (.num v is_float)) (.num (-v) is_float)

variable {e e' : Ast}

/-- Joined signs change neither the value nor the type. -/
theorem SignsJoined.same_meaning (h : SignsJoined e e') {w : Nat} (v : Vars) (m : Mem w) :
    value v m e' = value v m e ∧ infer_float v e' = infer_float v e := by
  induction h with
  | num | var | field => exact ⟨rfl, rfl⟩
  | unop _ ih | call1 _ ih =>
    obtain ⟨hvalue, hfloat⟩ := ih
    simp only [value, infer_float, hvalue, hfloat, and_self]
  | binop _ _ ihl ihr | call2 _ _ ihl ihr =>
    obtain ⟨hvalue, hfloat⟩ := ihl
    obtain ⟨hvalue', hfloat'⟩ := ihr
    simp only [value, infer_float, hvalue, hfloat, hvalue', hfloat', and_self]
  | join a is_float =>
    refine ⟨?_, rfl⟩
    simp only [value, Option.map_some, unopValue, BitVec.ofInt_neg]

/-! ## Printing -/

def opText : Op → List Char
  | .lor => ['|', '|']
  | .land => ['&', '&']
  | .bor => ['|']
  | .bxor => ['^']
  | .band => ['&']
  | .eq => ['=', '=']
  | .ne => ['!', '=']
  | .lt => ['<']
  | .le => ['<', '=']
  | .gt => ['>']
  | .ge => ['>', '=']
  | .shl => ['<', '<']
  | .shr => ['>', '>']
  | .add => ['+']
  | .sub => ['-']
  | .mul => ['*']
  | .div => ['/']
  | .mod => ['%']
  | .lnot => ['!']
  | .bnot => ['~']
  | .assign => ['=']

def parens (needed : Bool) (text : List Char) : List Char :=
  if needed then '(' :: (text ++ [')']) else text

@[simp] theorem parens_true (text : List Char) : parens true text = '(' :: (text ++ [')']) := rfl

def numText (v : Nat) (is_float : Bool) : List Char :=
  Nat.toDigits 10 v ++ if is_float then ['f'] else []

/-- The text of a tree, with the parentheses that it needs where operators from the level `n` on
are wanted. The right operand of an operator needs a stronger one. -/
def print : Nat → Ast → List Char
  | _, .num v is_float => (if v < 0 then ['-'] else []) ++ numText v.natAbs is_float
  | _, .var name => name.toList
  | _, .field name => '@' :: name.toList
  | _, .unop op x => opText op ++ print 11 x
  | n, .binop op l r =>
    let p := (op_info op).getD 0
    parens (decide (p < n)) (print p l ++ ' ' :: (opText op ++ ' ' :: print (p + 1) r))
  | _, .call1 f x => f.key.toList ++ parens true (print 0 x)
  | _, .call2 f x y => f.key.toList ++ parens true (print 0 x ++ ',' :: ' ' :: print 0 y)

/-- The trees of the language. Of the numbers only those that a double can hold, of the names only
those that the tokenizer knows, and the operators and functions with as many operands as they
take. -/
def Printable : Ast → Prop
  | .num v _ => double_whole v.natAbs 1 = v.natAbs
  | .var name => ∃ c cs, name.toList = c :: cs ∧ isIdentStart c ∧ ∀ x ∈ cs, isIdent x
  | .field name => name.toList ≠ [] ∧ ∀ x ∈ name.toList, isField x
  | .unop op x => isUnary op ∧ Printable x
  | .binop op l r => (op_info op).isSome ∧ Printable l ∧ Printable r
  | .call1 f x => f.arity = 1 ∧ Printable x
  | .call2 f x y => f.arity = 2 ∧ Printable x ∧ Printable y

/-- The tree with each negative literal as a minus sign and a number. -/
def split_signs : Ast → Ast
  | .num v is_float => if v < 0 then .unop .sub (.num (-v) is_float) else .num v is_float
  | .unop op x => .unop op (split_signs x)
  | .binop op l r => .binop op (split_signs l) (split_signs r)
  | .call1 f x => .call1 f (split_signs x)
  | .call2 f x y => .call2 f (split_signs x) (split_signs y)
  | leaf => leaf

theorem split_signs_joined (e : Ast) : SignsJoined (split_signs e) e := by
  induction e with
  | num v is_float =>
    unfold split_signs
    split
    · have hjoin := SignsJoined.join (-v) is_float
      rwa [Int.neg_neg] at hjoin
    · exact .num v is_float
  | var name => exact .var name
  | field name => exact .field name
  | unop op x ih => exact .unop ih
  | binop op l r ihl ihr => exact .binop ihl ihr
  | call1 f x ih => exact .call1 ih
  | call2 f x y ihx ihy => exact .call2 ihx ihy

/-! ## Joined tokens -/

variable {ts ts' : List Token}

theorem operand_of_number {v : Int} {is_float : Bool} {rest : List Token} (h : Derives 11 ts e)
    (hts : ts ++ rest = .num v is_float :: ts') : ts = [.num v is_float] ∧ e = .num v is_float := by
  cases h with
  | num v' is_float' =>
    obtain ⟨heq, -⟩ := List.cons.inj hts
    cases heq
    exact ⟨rfl, rfl⟩
  | binop hop hle =>
    rw [← op_info_is_c_level] at hop
    have hp := op_info_le hop
    omega
  | var | field | paren | unop | call1 | call2 => cases hts

variable {t : Token}

theorem Joined.of_cons {rest : List Token} (h : Joined false rest (t :: ts')) :
    ∃ ts, rest = t :: ts ∧ Joined (operandNext t) ts ts' := by
  cases h with
  | cons h => exact ⟨_, rfl, h⟩

theorem Joined.of_cons_right (h : Joined false (t :: ts) ts') :
    ∃ rest, ts' = t :: rest ∧ Joined (operandNext t) ts rest := by
  cases h with
  | cons h => exact ⟨_, rfl, h⟩

variable {n : Nat}

theorem Derives.unjoined (h : Derives n ts' e') : ∀ {ts rest'}, Joined true ts (ts' ++ rest') →
      ∃ before rest e, ts = before ++ rest ∧ Derives n before e ∧ SignsJoined e e' ∧
        Joined false rest rest' := by
  induction h with
  | num n v is_float =>
    intro ts rest' h
    cases h with
    | @cons _ _ ts _ h => exact ⟨[.num v is_float], ts, _, rfl, .num n v is_float, .num v is_float, h⟩
    | @join v' _ ts _ h =>
      exact ⟨[.op .sub, .num v' is_float], ts, _, rfl, .unop n rfl (.num 11 v' is_float),
        .join v' is_float, h⟩
  | var n name =>
    intro ts rest' h
    cases h with
    | @cons _ _ ts _ h => exact ⟨[.ident name], ts, _, rfl, .var n name, .var name, h⟩
  | field n name =>
    intro ts rest' h
    cases h with
    | @cons _ _ ts _ h => exact ⟨[.field name], ts, _, rfl, .field n name, .field name, h⟩
  | @paren n inner' e' _ ih =>
    intro ts rest' h
    rw [List.append_assoc, List.cons_append] at h
    cases h with
    | @cons _ _ ts _ h =>
      obtain ⟨inner, rest, e, rfl, he, hjoined, hstart⟩ := ih h
      obtain ⟨rest, rfl, hinner⟩ := hstart.of_cons
      exact ⟨Token.lparen :: inner ++ [Token.rparen], rest, e, by simp, .paren n he, hjoined, hinner⟩
  | @unop n op inner' e' hop _ ih =>
    intro ts rest' h
    rw [List.cons_append] at h
    cases h with
    | @cons _ _ ts _ h =>
      obtain ⟨inner, rest, e, rfl, he, hjoined, hstart⟩ := ih h
      exact ⟨.op op :: inner, rest, _, rfl, .unop n hop he, .unop hjoined, hstart⟩
  | @call1 n name f inner' e' hname hf _ ih =>
    intro ts rest' h
    simp only [List.cons_append, List.append_assoc] at h
    cases h with
    | @cons _ _ ts _ h =>
      obtain ⟨ts, rfl, hstart⟩ := h.of_cons
      obtain ⟨inner, rest, e, rfl, he, hjoined, hinner⟩ := ih hstart
      obtain ⟨rest, rfl, hnext⟩ := hinner.of_cons
      exact ⟨Token.ident name :: Token.lparen :: inner ++ [Token.rparen], rest, _, by simp,
        .call1 n hname hf he, .call1 hjoined, hnext⟩
  | @call2 n name f inner' other' e' e'' hname hf _ _ ih ih' =>
    intro ts rest' h
    simp only [List.cons_append, List.append_assoc] at h
    cases h with
    | @cons _ _ ts _ h =>
      obtain ⟨ts, rfl, hstart⟩ := h.of_cons
      obtain ⟨inner, rest, e, rfl, he, hjoined, hinner⟩ := ih hstart
      obtain ⟨rest, rfl, hnext⟩ := hinner.of_cons
      obtain ⟨other, rest, e₂, rfl, he₂, hjoined₂, hother⟩ := ih' hnext
      obtain ⟨rest, rfl, hend⟩ := hother.of_cons
      exact ⟨Token.ident name :: Token.lparen :: inner ++ Token.comma :: (other ++ [Token.rparen]), rest, _, by simp,
        .call2 n hname hf he he₂, .call2 hjoined hjoined₂, hend⟩
  | @binop n p op left' right' l' r' hop hle _ _ ihl ihr =>
    intro ts rest' h
    rw [List.append_assoc, List.cons_append] at h
    obtain ⟨left, rest, l, rfl, hl, hjoined, hstart⟩ := ihl h
    obtain ⟨rest, rfl, hinner⟩ := hstart.of_cons
    obtain ⟨right, rest, r, rfl, hr, hjoined', hnext⟩ := ihr hinner
    exact ⟨left ++ .op op :: right, rest, _, by simp, .binop hop hle hl hr,
      .binop hjoined hjoined', hnext⟩

theorem Derives.joined (h : Derives n ts e) : ∀ {rest ts'}, Joined true (ts ++ rest) ts' →
      ∃ before' rest' e', ts' = before' ++ rest' ∧ Derives n before' e' ∧ SignsJoined e e' ∧
        Joined false rest rest' := by
  induction h with
  | num n v is_float =>
    intro rest ts' h
    cases h with
    | @cons _ _ _ ts' h =>
      exact ⟨[.num v is_float], ts', _, rfl, .num n v is_float, .num v is_float, h⟩
  | var n name =>
    intro rest ts' h
    cases h with
    | @cons _ _ _ ts' h => exact ⟨[.ident name], ts', _, rfl, .var n name, .var name, h⟩
  | field n name =>
    intro rest ts' h
    cases h with
    | @cons _ _ _ ts' h => exact ⟨[.field name], ts', _, rfl, .field n name, .field name, h⟩
  | @paren n inner e _ ih =>
    intro rest ts' h
    rw [List.append_assoc, List.cons_append] at h
    cases h with
    | @cons _ _ _ ts' h =>
      obtain ⟨inner', rest', e', rfl, he, hjoined, hstart⟩ := ih h
      obtain ⟨rest', rfl, hinner⟩ := hstart.of_cons_right
      exact ⟨Token.lparen :: inner' ++ [Token.rparen], rest', e', by simp, .paren n he, hjoined, hinner⟩
  | @unop n op inner e hop he ih =>
    intro rest ts' h
    rw [List.cons_append] at h
    generalize hinner : inner ++ rest = following at h
    cases h with
    | @cons _ _ _ ts' h =>
      subst hinner
      obtain ⟨inner', rest', e', rfl, he, hjoined, hstart⟩ := ih h
      exact ⟨.op op :: inner', rest', _, rfl, .unop n hop he, .unop hjoined, hstart⟩
    | @join v is_float ts ts' h =>
      obtain ⟨rfl, rfl⟩ := operand_of_number he hinner
      obtain ⟨-, rfl⟩ := List.cons.inj hinner
      exact ⟨[.num (-v) is_float], ts', _, rfl, .num n (-v) is_float, .join v is_float, h⟩
  | @call1 n name f inner e hname hf _ ih =>
    intro rest ts' h
    simp only [List.cons_append, List.append_assoc] at h
    cases h with
    | @cons _ _ _ ts' h =>
      obtain ⟨ts', rfl, hstart⟩ := h.of_cons_right
      obtain ⟨inner', rest', e', rfl, he, hjoined, hinner⟩ := ih hstart
      obtain ⟨rest', rfl, hnext⟩ := hinner.of_cons_right
      exact ⟨Token.ident name :: Token.lparen :: inner' ++ [Token.rparen], rest', _, by simp,
        .call1 n hname hf he, .call1 hjoined, hnext⟩
  | @call2 n name f inner other e e₂ hname hf _ _ ih ih' =>
    intro rest ts' h
    simp only [List.cons_append, List.append_assoc] at h
    cases h with
    | @cons _ _ _ ts' h =>
      obtain ⟨ts', rfl, hstart⟩ := h.of_cons_right
      obtain ⟨inner', rest', e', rfl, he, hjoined, hinner⟩ := ih hstart
      obtain ⟨rest', rfl, hnext⟩ := hinner.of_cons_right
      obtain ⟨other', rest', e₂', rfl, he₂, hjoined₂, hother⟩ := ih' hnext
      obtain ⟨rest', rfl, hend⟩ := hother.of_cons_right
      exact ⟨Token.ident name :: Token.lparen :: inner' ++ Token.comma :: (other' ++ [Token.rparen]), rest', _,
        by simp, .call2 n hname hf he he₂, .call2 hjoined hjoined₂, hend⟩
  | @binop n p op left right l r hop hle _ _ ihl ihr =>
    intro rest ts' h
    rw [List.append_assoc, List.cons_append] at h
    obtain ⟨left', rest', l', rfl, hl, hjoined, hstart⟩ := ihl h
    obtain ⟨rest', rfl, hinner⟩ := hstart.of_cons_right
    obtain ⟨right', rest', r', rfl, hr, hjoined', hnext⟩ := ihr hinner
    exact ⟨left' ++ .op op :: right', rest', _, by simp, .binop hop hle hl hr,
      .binop hjoined hjoined', hnext⟩

/-! ## Texts -/

theorem parse_text_sound {str : List Char} (h : parse_text str = some e') :
    ∃ e, Expression str e ∧ SignsJoined e e' := by
  obtain ⟨ts', htokens, hparse⟩ := Option.bind_eq_some_iff.mp h
  obtain ⟨ts, hlexes, hjoined⟩ := tokenize_from_lexes htokens
  obtain ⟨ts'', rfl⟩ := tokenize_from_eof htokens
  have hderives := parse_tokens_iff.mp hparse
  obtain ⟨before, rest, e, heq, hbefore, hsigns, hrest⟩ := hderives.unjoined hjoined
  obtain ⟨rest', rfl, hnil⟩ := hrest.of_cons
  cases hnil
  rw [(List.append_inj' heq rfl).1] at hlexes
  exact ⟨e, ⟨before, hlexes, hbefore⟩, hsigns⟩

/-- An expression of the grammar is read, with some signs joined. -/
theorem Expression.parsed {str : List Char} (h : Expression str e) :
    ∃ e', parse_text str = some e' ∧ SignsJoined e e' := by
  obtain ⟨ts, hlexes, hderives⟩ := h
  obtain ⟨ts', htokens, hjoined⟩ := hlexes.tokenize_from true (str.length + 1) (Nat.lt_succ_self _)
  obtain ⟨before', rest', e', rfl, he', hsigns, hrest⟩ := hderives.joined hjoined
  obtain ⟨rest, rfl, hnil⟩ := hrest.of_cons_right
  cases hnil
  refine ⟨e', ?_, hsigns⟩
  rw [parse_text, tokenize, htokens]
  exact parse_tokens_iff.mpr he'

/-! ## The texts of tokens -/

/-- What ends every token: a blank, a closing parenthesis or a comma, or the end of the text. -/
def Separates (rest : List Char) : Prop := ∀ c ∈ rest.head?, c = ' ' ∨ c = ')' ∨ c = ','

theorem Separates.head {rest : List Char} (h : Separates rest) {p : Char → Bool}
    (hp : p ' ' = false ∧ p ')' = false ∧ p ',' = false) : ∀ x ∈ rest.head?, p x = false := by
  intro x hx
  rcases h x hx with rfl | rfl | rfl
  · exact hp.1
  · exact hp.2.1
  · exact hp.2.2

variable {rest : List Char}

theorem number_lexeme {v : Nat} (hv : double_whole v 1 = v) (is_float : Bool)
    (hrest : Separates rest) : Lexeme (numText v is_float) (.num v is_float) rest := by
  have hdigits : ∀ c ∈ Nat.toDigits 10 v, c.isDigit :=
    fun c hc => Nat.isDigit_of_mem_toDigits (by decide) (by decide) hc
  have hnumeral : Numeral (Nat.toDigits 10 v) v false := by
    have hwhole := Numeral.whole Nat.toDigits_ne_nil hdigits
    rwa [Nat.ofDigitChars_toDigits (by decide) (by decide), hv] at hwhole
  cases is_float with
  | true => exact .float hnumeral (Or.inl rfl)
  | false =>
    rw [numText]
    simp only [Bool.false_eq_true, if_false, List.append_nil]
    refine .num hnumeral fun x hx => ?_
    rcases hrest x hx with rfl | rfl | rfl
    · exact ⟨rfl, by decide, by decide, fun h => absurd h (by decide)⟩
    · exact ⟨rfl, by decide, by decide, fun h => absurd h (by decide)⟩
    · exact ⟨rfl, by decide, by decide, fun h => absurd h (by decide)⟩

/-- A binary operator between blanks is a longest match. -/
theorem binary_lexeme (op : Op) : Lexeme (opText op) (.op op) (' ' :: rest) := by
  have hblank : ∀ {a : Char}, ∀ b ∈ (' ' :: rest).head?, two_char a b = none := by
    intro a b hb
    cases hb
    exact two_char_none (.inr (by decide))
  cases op with
  | lor | land | eq | ne | le | ge | shl | shr => exact .two rfl
  | _ => exact .one rfl hblank

/-- A prefix operator is a longest match in front of anything but an equals sign. -/
theorem unary_lexeme {op : Op} (hop : isUnary op) (hrest : ∀ x ∈ rest.head?, x ≠ '=') :
    Lexeme (opText op) (.op op) rest := by
  have hnone : ∀ {a : Char}, a = '~' ∨ a = '!' → ∀ b ∈ rest.head?, two_char a b = none := by
    intro a ha b hb
    unfold two_char
    split
    all_goals first | rfl | exact absurd rfl (hrest _ hb) | exact absurd ha (by decide)
  cases op with
  | sub => exact minus_lexeme rest
  | lnot => exact .one rfl (hnone (Or.inr rfl))
  | bnot => exact .one rfl (hnone (Or.inl rfl))
  | _ => cases hop

theorem function_lexeme (f : Func) : Lexeme f.key.toList (.ident f.key) ('(' :: rest) := by
  have hname : ∀ c cs, isIdentStart c → (∀ x ∈ cs, isIdent x) →
      Lexeme (c :: cs) (.ident (String.ofList (c :: cs))) ('(' :: rest) := by
    intro c cs hc hcs
    exact .ident hc hcs fun x hx => by cases hx; rfl
  cases f <;> exact hname _ _ (by decide) (List.all_eq_true.mp rfl)

theorem function_known (f : Func) : builtin_funcs f.key = some f := by
  cases f <;> rfl

/-! ## The text of a tree is an expression -/

/-- The text is an expression of the level, whatever separator follows it. -/
def Prints (n : Nat) (text : List Char) (e : Ast) : Prop :=
  ∃ ts, Derives n ts e ∧ ∀ rest ts', Separates rest → Lexes rest ts' →
    Lexes (text ++ rest) (ts ++ ts')

theorem Prints.of_lexeme {text : List Char} (hderives : Derives n [t] e)
    (hlexeme : ∀ rest, Separates rest → Lexeme text t rest) : Prints n text e :=
  ⟨[t], hderives, fun rest _ hrest hlexes => .token (hlexeme rest hrest) hlexes⟩

theorem close_lexeme : Lexeme [')'] .rparen rest :=
  .one rfl fun _ _ => two_char_none (.inl (by decide))

theorem open_lexeme : Lexeme ['('] .lparen rest :=
  .one rfl fun _ _ => two_char_none (.inl (by decide))

theorem comma_lexeme : Lexeme [','] .comma rest :=
  .one rfl fun _ _ => two_char_none (.inl (by decide))

section

variable {n : Nat} {text text' : List Char} {e e' : Ast}

theorem Prints.parens (h : Prints 0 text e) : Prints n (parens true text) e := by
  obtain ⟨ts, hderives, hlexes⟩ := h
  refine ⟨_, .paren n hderives, fun rest ts' hrest hts' => ?_⟩
  have hclose : Lexes (')' :: rest) (.rparen :: ts') := .token close_lexeme hts'
  have hinner := hlexes (')' :: rest) (.rparen :: ts')
    (fun c hc => by cases hc; exact Or.inr (Or.inl rfl)) hclose
  have hall : Lexes ('(' :: (text ++ ')' :: rest)) (.lparen :: (ts ++ .rparen :: ts')) :=
    .token open_lexeme hinner
  simpa using hall

theorem Prints.unop {op : Op} (hop : isUnary op) (hstart : ∀ x ∈ text.head?, x ≠ '=')
    (hne : text ≠ []) (h : Prints 11 text e) : Prints n (opText op ++ text) (.unop op e) := by
  obtain ⟨ts, hderives, hlexes⟩ := h
  refine ⟨.op op :: ts, .unop n hop hderives, fun rest ts' hrest hts' => ?_⟩
  rw [List.append_assoc]
  refine .token (unary_lexeme hop fun x hx => hstart x ?_) (hlexes rest ts' hrest hts')
  obtain ⟨c, cs, rfl⟩ := List.exists_cons_of_ne_nil hne
  exact hx

theorem Prints.binop {op : Op} {p : Nat} (hop : op_info op = some p) (hle : n ≤ p)
    (hl : Prints p text e) (hr : Prints (p + 1) text' e') :
    Prints n (text ++ ' ' :: (opText op ++ ' ' :: text')) (.binop op e e') := by
  obtain ⟨ts, hderives, hlexes⟩ := hl
  obtain ⟨ts', hderives', hlexes'⟩ := hr
  have hlevel : cLevel op = some p := (op_info_is_c_level op).symm.trans hop
  refine ⟨ts ++ .op op :: ts', .binop hlevel hle hderives hderives',
    fun rest more hrest hmore => ?_⟩
  have hright : Lexes (' ' :: (text' ++ rest)) (ts' ++ more) :=
    .space rfl (hlexes' rest more hrest hmore)
  have hop : Lexes (' ' :: (opText op ++ ' ' :: (text' ++ rest))) (.op op :: (ts' ++ more)) :=
    .space rfl (.token (binary_lexeme op) hright)
  have hleft := hlexes _ _ (fun c hc => by cases hc; exact Or.inl rfl) hop
  simpa using hleft

theorem Prints.call1 {f : Func} (hf : f.arity = 1) (h : Prints 0 text e) :
    Prints n (f.key.toList ++ equation.parens true text) (.call1 f e) := by
  obtain ⟨ts, hderives, hlexes⟩ := h
  refine ⟨_, .call1 n (function_known f) hf hderives,
    fun rest more hrest hmore => ?_⟩
  have hclose : Lexes (')' :: rest) (.rparen :: more) := .token close_lexeme hmore
  have hinner := hlexes _ _ (fun c hc => by cases hc; exact Or.inr (Or.inl rfl)) hclose
  have hopen : Lexes ('(' :: (text ++ ')' :: rest)) (.lparen :: (ts ++ .rparen :: more)) :=
    .token open_lexeme hinner
  have hall : Lexes (f.key.toList ++ '(' :: (text ++ ')' :: rest))
      (.ident f.key :: .lparen :: (ts ++ .rparen :: more)) := .token (function_lexeme f) hopen
  simpa using hall

theorem Prints.call2 {f : Func} (hf : f.arity = 2) (h : Prints 0 text e) (h' : Prints 0 text' e') :
    Prints n (f.key.toList ++ equation.parens true (text ++ ',' :: ' ' :: text'))
      (.call2 f e e') := by
  obtain ⟨ts, hderives, hlexes⟩ := h
  obtain ⟨ts', hderives', hlexes'⟩ := h'
  refine ⟨_, .call2 n (function_known f) hf hderives hderives',
    fun rest more hrest hmore => ?_⟩
  have hclose : Lexes (')' :: rest) (.rparen :: more) := .token close_lexeme hmore
  have hsecond := hlexes' _ _ (fun c hc => by cases hc; exact Or.inr (Or.inl rfl)) hclose
  have hcomma : Lexes (',' :: ' ' :: (text' ++ ')' :: rest))
      (.comma :: (ts' ++ .rparen :: more)) := .token comma_lexeme (.space rfl hsecond)
  have hfirst := hlexes _ _ (fun c hc => by cases hc; exact Or.inr (Or.inr rfl)) hcomma
  have hopen : Lexes ('(' :: (text ++ ',' :: ' ' :: (text' ++ ')' :: rest)))
      (.lparen :: (ts ++ .comma :: (ts' ++ .rparen :: more))) := .token open_lexeme hfirst
  have hall : Lexes (f.key.toList ++ '(' :: (text ++ ',' :: ' ' :: (text' ++ ')' :: rest)))
      (.ident f.key :: .lparen :: (ts ++ .comma :: (ts' ++ .rparen :: more))) :=
    .token (function_lexeme f) hopen
  simpa using hall

end

theorem numText_starts (v : Nat) (is_float : Bool) :
    ∃ c cs, numText v is_float = c :: cs ∧ c ≠ '=' := by
  obtain ⟨c, cs, hdigits⟩ := List.exists_cons_of_ne_nil (Nat.toDigits_ne_nil (n := v) (b := 10))
  have hc : c.isDigit := by
    refine Nat.isDigit_of_mem_toDigits (n := v) (b := 10) (by decide) (by decide) ?_
    rw [hdigits]
    exact List.mem_cons_self
  refine ⟨c, _, by rw [numText, hdigits, List.cons_append], ?_⟩
  rintro rfl
  exact absurd hc (by decide)

/-- No text of a tree starts with an equals sign. -/
theorem print_starts (h : Printable e) (n : Nat) : ∃ c cs, print n e = c :: cs ∧ c ≠ '=' := by
  induction e generalizing n with
  | num v is_float =>
    rw [print]
    split
    · exact ⟨'-', _, rfl, by decide⟩
    · exact numText_starts v.natAbs is_float
  | var name =>
    obtain ⟨c, cs, hname, hc, -⟩ := h
    refine ⟨c, cs, hname, ?_⟩
    rintro rfl
    exact absurd hc (by decide)
  | field name => exact ⟨'@', name.toList, rfl, by decide⟩
  | unop op x _ =>
    have hop : isUnary op := h.1
    cases op with
    | sub => exact ⟨'-', _, rfl, by decide⟩
    | lnot => exact ⟨'!', _, rfl, by decide⟩
    | bnot => exact ⟨'~', _, rfl, by decide⟩
    | _ => cases hop
  | binop op l r ihl _ =>
    obtain ⟨c, cs, htext, hc⟩ := ihl h.2.1 ((op_info op).getD 0)
    rw [print]
    simp only [parens, htext]
    split
    · exact ⟨'(', _, rfl, by decide⟩
    · exact ⟨c, _, rfl, hc⟩
  | call1 f x _ | call2 f x y _ _ =>
    rw [print]
    cases f <;> exact ⟨_, _, rfl, by decide⟩

/-- The text of a tree is an expression with as few parentheses as the levels allow. -/
theorem print_prints {e : Ast} (h : Printable e) (n : Nat) : Prints n (print n e) (split_signs e) := by
  induction e generalizing n with
  | num v is_float =>
    have hv : double_whole v.natAbs 1 = v.natAbs := h
    rw [print, split_signs]
    split
    · next hneg =>
      have hcast : -v = (v.natAbs : Int) := by omega
      have hnum : Prints 11 (numText v.natAbs is_float) (.num (-v) is_float) := by
        rw [hcast]
        exact .of_lexeme (.num 11 _ is_float) fun rest hrest => number_lexeme hv is_float hrest
      obtain ⟨c, cs, htext, hc⟩ := numText_starts v.natAbs is_float
      refine .unop rfl (fun x hx => ?_) (by rw [htext]; exact List.cons_ne_nil _ _) hnum
      rw [htext] at hx
      cases hx
      exact hc
    · next hpos =>
      have hcast : v = (v.natAbs : Int) := by omega
      rw [List.nil_append]
      refine .of_lexeme (.num n v is_float) fun rest hrest => ?_
      have hlexeme := number_lexeme hv is_float hrest
      rwa [← hcast] at hlexeme
  | var name =>
    obtain ⟨c, cs, hname, hc, hcs⟩ := h
    refine .of_lexeme (.var n name) fun rest hrest => ?_
    have hlexeme := Lexeme.ident hc hcs (hrest.head ⟨by decide, by decide, by decide⟩)
    rw [← hname, String.ofList_toList] at hlexeme
    exact hlexeme
  | field name =>
    obtain ⟨hne, hall⟩ := h
    refine .of_lexeme (.field n name) fun rest hrest => ?_
    have hlexeme := Lexeme.field hne hall (hrest.head ⟨by decide, by decide, by decide⟩)
    rwa [String.ofList_toList] at hlexeme
  | unop op x ih =>
    obtain ⟨c, cs, htext, hc⟩ := print_starts h.2 11
    rw [print, split_signs]
    refine .unop h.1 (fun x hx => ?_) (by rw [htext]; exact List.cons_ne_nil _ _) (ih h.2 11)
    rw [htext] at hx
    cases hx
    exact hc
  | binop op l r ihl ihr =>
    obtain ⟨p, hp⟩ := Option.isSome_iff_exists.mp h.1
    rw [print, split_signs]
    simp only [hp, Option.getD_some]
    by_cases hlt : p < n
    · rw [decide_eq_true hlt]
      exact (Prints.binop hp (Nat.zero_le p) (ihl h.2.1 p) (ihr h.2.2 (p + 1))).parens
    · rw [decide_eq_false hlt]
      exact .binop hp (Nat.not_lt.mp hlt) (ihl h.2.1 p) (ihr h.2.2 (p + 1))
  | call1 f x ih => exact .call1 h.1 (ih h.2 0)
  | call2 f x y ihx ihy => exact .call2 h.1 (ihx h.2.1 0) (ihy h.2.2 0)

/-! ## Reading and printing -/

/-- Two trees that differ in the signs of literals only. -/
def SameUpToSigns (e e' : Ast) : Prop := ∃ e₀, SignsJoined e₀ e ∧ SignsJoined e₀ e'

theorem SameUpToSigns.same_meaning (h : SameUpToSigns e e') {w : Nat} (v : Vars) (m : Mem w) :
    value v m e' = value v m e ∧ infer_float v e' = infer_float v e := by
  obtain ⟨e₀, he, he'⟩ := h
  obtain ⟨hvalue, hfloat⟩ := he.same_meaning v m
  obtain ⟨hvalue', hfloat'⟩ := he'.same_meaning v m
  exact ⟨hvalue'.trans hvalue.symm, hfloat'.trans hfloat.symm⟩

/-- The tokenizer and the parser accept exactly the expressions of the grammar, and read them as
the grammar groups them, up to the signs of literals. So the text of a tree is read as a tree of
the same meaning. -/
theorem expressions_are_read (str : List Char) (tree : Ast) :
    ((∃ e', parse_text str = some e') ↔ ∃ e, Expression str e) ∧
    (∀ e', parse_text str = some e' → ∃ e, Expression str e ∧ SignsJoined e e') ∧
    (∀ e, Expression str e → ∃ e', parse_text str = some e' ∧ SignsJoined e e') ∧
    (Printable tree → ∃ e', parse_text (print 0 tree) = some e' ∧ SameUpToSigns tree e' ∧
      ∀ {w : Nat} (v : Vars) (m : Mem w),
        value v m e' = value v m tree ∧ infer_float v e' = infer_float v tree) := by
  refine ⟨⟨?_, ?_⟩, fun e' h => parse_text_sound h, fun e h => h.parsed, fun h => ?_⟩
  · rintro ⟨e', h⟩
    obtain ⟨e, he, -⟩ := parse_text_sound h
    exact ⟨e, he⟩
  · rintro ⟨e, h⟩
    obtain ⟨e', he', -⟩ := h.parsed
    exact ⟨e', he'⟩
  · obtain ⟨ts, hderives, hlexes⟩ := print_prints h 0
    have htext : Lexes (print 0 tree) ts := by
      simpa using hlexes [] [] (fun c hc => by cases hc) .nil
    obtain ⟨e', he', hsigns⟩ := Expression.parsed ⟨ts, htext, hderives⟩
    have hsame : SameUpToSigns tree e' := ⟨split_signs tree, split_signs_joined tree, hsigns⟩
    exact ⟨e', he', hsame, fun v m => hsame.same_meaning v m⟩

/-- A sum in a product, with a negative literal and a negated number. -/
def signedTree : Ast :=
  .binop .mul (.binop .add (.var "a") (.num (-5) false)) (.unop .sub (.num 3 false))

theorem signed_tree_is_read : print 0 signedTree = "(a + -5) * -3".toList ∧
    ∃ e', parse_text (print 0 signedTree) = some e' ∧ SameUpToSigns signedTree e' := by
  have hfive : double_whole 5 1 = 5 := by decide
  have hthree : double_whole 3 1 = 3 := by decide
  have hprintable : Printable signedTree :=
    ⟨rfl, ⟨rfl, ⟨'a', [], rfl, rfl, List.all_eq_true.mp rfl⟩, hfive⟩, rfl, hthree⟩
  obtain ⟨e', hread, hsame, -⟩ := (expressions_are_read [] signedTree).2.2.2 hprintable
  exact ⟨by decide, e', hread, hsame⟩

end motioncore.equation
