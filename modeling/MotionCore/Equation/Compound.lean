-- Compound assignments are rewritten by string patterns before anything is tokenized. The
-- patterns of variables know no underscore, and the operator `%` is written twice.
import MotionCore.Equation.Folding
import MotionCore.Equation.Reading
import MotionCore.Lib.LuaPattern

open motioncore.luapattern

namespace motioncore.equation

/-! ## Statements -/

inductive CompoundOp where
  | add | sub | mul | div | mod | band | bor | bxor | shl | shr
deriving DecidableEq, Repr

def CompoundOp.op : CompoundOp → Op
  | .add => .add
  | .sub => .sub
  | .mul => .mul
  | .div => .div
  | .mod => .mod
  | .band => .band
  | .bor => .bor
  | .bxor => .bxor
  | .shl => .shl
  | .shr => .shr

/-- The operator in front of the equals sign. -/
def CompoundOp.text (op : CompoundOp) : List Char := opText op.op

/-- The operator of the table, that is written between the operands. -/
def CompoundOp.written : CompoundOp → List Char
  | .mod => ['%', '%']
  | op => op.text

def space : Item Char := .star isSpace

def char (c : Char) : Item Char := .one (· == c)

/-- `%s*op=%s*(.+)%s*$` -/
def operator_pattern (op : CompoundOp) : Pattern Char :=
  [(0, space)] ++ op.text.map (fun c => (0, char c)) ++
    [(0, char '='), (0, space), (2, .plus fun _ => true), (0, space)]

/-- `^%s*(%w+)` and the operator. -/
def variable_pattern (op : CompoundOp) : Pattern Char :=
  [(0, space), (1, .plus Char.isAlphanum)] ++ operator_pattern op

/-- `^%s*(@[%w_.]+)` and the operator. -/
def field_pattern (op : CompoundOp) : Pattern Char :=
  [(0, space), (1, char '@'), (1, .plus isField)] ++ operator_pattern op

def compound_ops : List CompoundOp :=
  [.add, .sub, .mul, .div, .mod, .band, .bor, .bxor, .shl, .shr]

def compound_patterns : List (Pattern Char × CompoundOp) :=
  compound_ops.map fun op => (variable_pattern op, op)

def compound_patterns_field : List (Pattern Char × CompoundOp) :=
  compound_ops.map fun op => (field_pattern op, op)

/-- An assignment of the destination and the body, combined by an operator. -/
def combined (dest op body : List Char) : List Char :=
  dest ++ " = ".toList ++ dest ++ ' ' :: (op ++ " (".toList ++ body ++ [')'])

def desugar_compound (expr_str : List Char) : List Char :=
  ((compound_patterns_field ++ compound_patterns).findSome? fun (pat, op) =>
    (matchPattern pat expr_str).map fun m => combined (m 1) op.written (m 2)).getD expr_str

/-- `^%s*(@?[%w_.]+)%s*=%s*(.+)%s*$` -/
def assignment_pattern : Pattern Char :=
  [(0, space), (1, .opt (· == '@')), (1, .plus isField), (0, space), (0, char '='), (0, space),
    (2, .plus fun _ => true), (0, space)]

def dest_cell : List Char → Cell
  | '@' :: name => .field (String.ofList name)
  | name => .var (String.ofList name)

/-- `quad_expr` of a statement. `none` stands for every error. -/
def quad_expr_str (lua : LuaNumbers) (v : Vars) (scratch : List String) (expr_str : List Char) :
    Option (List Quad) := do
  let m ← matchPattern assignment_pattern (desugar_compound expr_str)
  let ts ← tokenize (m 2)
  (quad_expr (4 * ts.length + 2) lua v scratch (dest_cell (m 1)) ts).toOption

/-- The names that `frame_vars` accepts, and the paths of fields. -/
inductive Destination : List Char → Prop
  | var {name : List Char} : name ≠ [] → (∀ c ∈ name, isIdent c) → Destination name
  | field {path : List Char} : path ≠ [] → (∀ c ∈ path, isField c) → Destination ('@' :: path)

/-! ## Tokens without fuel -/

variable {operand : Bool} {c : Char} {s rest : List Char} {t : Token}

theorem next_token_shorter (h : next_token operand (c :: s) = some (t, rest)) :
    rest.length ≤ s.length := by
  have hlongest : ∀ {c : Char} {s rest : List Char} {t : Token},
      next_token false (c :: s) = some (t, rest) → rest.length ≤ s.length := by
    intro c s rest t h
    obtain ⟨text, hsplit, hlexeme⟩ := next_token_lexeme h
    obtain ⟨d, ds, rfl, -⟩ := hlexeme.starts
    have hlength := congrArg List.length hsplit
    simp only [List.length_cons, List.length_append] at hlength
    omega
  cases operand with
  | false => exact hlongest h
  | true =>
    by_cases hminus : ∃ d s', c :: s = '-' :: d :: s' ∧ isNumber d
    · obtain ⟨d, s', heq, hd⟩ := hminus
      cases heq
      rw [next_token_minus hd, Option.map_eq_some_iff] at h
      obtain ⟨⟨t', rest'⟩, hnumber, hpair⟩ := h
      cases hpair
      exact Nat.le_succ_of_le (hlongest hnumber)
    · refine hlongest ((next_token_operand fun d s' heq => ?_).symm.trans h)
      exact Bool.eq_false_iff.mpr fun hd => hminus ⟨d, s', heq, hd⟩

theorem tokenize_from_fuel {n : Nat} : ∀ {fuel fuel' : Nat} {operand : Bool} {s : List Char},
    s.length ≤ n → s.length < fuel → s.length < fuel' →
      tokenize_from fuel operand s = tokenize_from fuel' operand s := by
  induction n with
  | zero =>
    intro fuel fuel' operand s hn hfuel hfuel'
    obtain rfl : s = [] := List.eq_nil_of_length_eq_zero (by omega)
    obtain ⟨fuel, rfl⟩ := Nat.exists_eq_add_one_of_ne_zero (Nat.ne_of_gt hfuel)
    obtain ⟨fuel', rfl⟩ := Nat.exists_eq_add_one_of_ne_zero (Nat.ne_of_gt hfuel')
    rfl
  | succ n ih =>
    intro fuel fuel' operand s hn hfuel hfuel'
    obtain ⟨fuel, rfl⟩ := Nat.exists_eq_add_one_of_ne_zero (Nat.ne_of_gt (Nat.zero_lt_of_lt hfuel))
    obtain ⟨fuel', rfl⟩ :=
      Nat.exists_eq_add_one_of_ne_zero (Nat.ne_of_gt (Nat.zero_lt_of_lt hfuel'))
    rcases s with _ | ⟨c, s⟩
    · rfl
    simp only [List.length_cons] at hn hfuel hfuel'
    rw [tokenize_from, tokenize_from]
    split
    · exact ih (by omega) (by omega) (by omega)
    · cases hnext : next_token operand (c :: s) with
      | none => rfl
      | some r =>
        have hshorter := next_token_shorter hnext
        simp only [Option.bind_eq_bind, Option.bind_some]
        rw [ih (by omega) (by omega : r.2.length < fuel) (by omega : r.2.length < fuel')]

/-- The tokens of the text, where an operand is next or not. -/
def tokens (operand : Bool) (s : List Char) : Option (List Token) :=
  tokenize_from (s.length + 1) operand s

theorem tokens_space (hc : isSpace c) : tokens operand (c :: s) = tokens operand s := by
  rw [tokens, tokenize_from, if_pos hc]
  rfl

theorem tokens_spaces {w : List Char} (hw : ∀ c ∈ w, isSpace c) :
    tokens operand (w ++ s) = tokens operand s := by
  induction w with
  | nil => rfl
  | cons c w ih =>
    rw [List.cons_append, tokens_space (hw c List.mem_cons_self)]
    exact ih fun x hx => hw x (List.mem_cons_of_mem c hx)

theorem tokens_next (hc : isSpace c = false) (h : next_token operand (c :: s) = some (t, rest)) :
    tokens operand (c :: s) = (tokens (operandNext t) rest).map (t :: ·) := by
  have hshorter := next_token_shorter h
  rw [tokens, tokenize_from, if_neg (by simp [hc]), h]
  simp only [Option.bind_eq_bind, Option.bind_some, List.length_cons]
  rw [tokens, tokenize_from_fuel (Nat.le_refl _) (by omega : rest.length < s.length + 1)
    (Nat.lt_succ_self _)]
  cases tokenize_from (rest.length + 1) (operandNext t) rest <;> rfl

theorem tokens_lexeme {text : List Char} (h : Lexeme text t rest) :
    tokens false (text ++ rest) = (tokens (operandNext t) rest).map (t :: ·) := by
  have hnext := h.next_token
  obtain ⟨c, cs, rfl, hc⟩ := h.starts
  exact tokens_next hc hnext

/-- Where an operand is next, a longest match that is no minus sign is the next token, too. -/
theorem tokens_operand {text : List Char} (h : Lexeme text t rest) (ht : t ≠ .op .sub) :
    tokens true (text ++ rest) = (tokens (operandNext t) rest).map (t :: ·) := by
  have hnext := h.next_token
  obtain ⟨c, cs, rfl, hc⟩ := h.starts
  refine tokens_next hc ((next_token_operand fun d s' heq => ?_).trans hnext)
  obtain ⟨rfl, -⟩ := List.cons.inj heq
  rw [List.cons_append] at hnext
  have hminus := (minus_lexeme (cs ++ rest)).next_token
  rw [List.singleton_append, hnext] at hminus
  exact absurd (Prod.mk.inj (Option.some.inj hminus)).1 ht

/-! ## The patterns -/

/-- The characters of a dot, a name or a number are neither blank nor an operator. -/
theorem field_code : isField c ↔ (48 ≤ c.toNat ∧ c.toNat ≤ 57) ∨
    (65 ≤ c.toNat ∧ c.toNat ≤ 90) ∨ (97 ≤ c.toNat ∧ c.toNat ≤ 122) ∨ c.toNat = 95 ∨
      c.toNat = 46 := by
  simp only [isField, isIdent, Char.isAlphanum, Bool.or_eq_true, digit_code, alpha_code, beq_iff_eq,
    char_code]
  have hline : '_'.toNat = 95 := rfl
  have hdot : '.'.toNat = 46 := rfl
  omega

theorem ident_is_field (h : isIdent c) : isField c := by simp [isField, h]

theorem alphanum_is_field (h : c.isAlphanum) : isField c := by simp [isField, isIdent, h]

/-- The character is an operator's, or an equals sign. -/
def isSign (c : Char) : Bool := !isSpace c && !isField c && c != '@'

theorem sign_only (h : isSign c) : isSpace c = false ∧ isField c = false ∧ c ≠ '@' := by
  simpa [isSign, and_assoc] using h

theorem space_not_field (h : isSpace c) : isField c = false := by
  have hcode : c.toNat = 32 ∨ (9 ≤ c.toNat ∧ c.toNat ≤ 13) := by simpa [isSpace] using h
  rw [← Bool.not_eq_true, field_code]
  omega

/-- The first character of an operator. -/
def CompoundOp.sign : CompoundOp → Char
  | .add => '+'
  | .sub => '-'
  | .mul => '*'
  | .div => '/'
  | .mod => '%'
  | .band => '&'
  | .bor => '|'
  | .bxor => '^'
  | .shl => '<'
  | .shr => '>'

variable (op : CompoundOp)

theorem CompoundOp.sign_isSign : isSign op.sign := by
  cases op <;> rfl

theorem CompoundOp.sign_injective {op op' : CompoundOp} (h : op.sign = op'.sign) : op = op' := by
  cases op <;> cases op' <;> first | rfl | cases h

theorem CompoundOp.text_eq : ∃ more, op.text = op.sign :: more := by
  cases op <;> exact ⟨_, rfl⟩

/-- The operator of a pattern, the equals sign and the body. -/
def tail_items (op : CompoundOp) : List (Item Char) :=
  op.text.map char ++ [char '=', space, .plus fun _ => true, space]

theorem operator_items : (operator_pattern op).map Prod.snd = space :: tail_items op := by
  simp [operator_pattern, tail_items]

variable {is : List (Item Char)}

theorem split_char : split (char c :: is) (c :: rest) = (split is rest).map ([c] :: ·) :=
  split_one (by simp)

theorem split_char_none (h : ∀ x ∈ rest.head?, x ≠ c) : split (char c :: is) rest = none :=
  split_one_none fun x hx => by simpa using h x hx

/-- An operator is matched only where its first character is. -/
theorem tail_none {op : CompoundOp} (h : ∀ x ∈ rest.head?, x ≠ op.sign) :
    split (tail_items op) rest = none := by
  obtain ⟨more, hmore⟩ := op.text_eq
  rw [tail_items, hmore]
  exact split_char_none h

/-- Between the destination and the operator blanks are passed over. -/
theorem operator_split {op : CompoundOp} {w : List Char} (hw : ∀ c ∈ w, isSpace c)
    (hrest : ∀ x ∈ rest.head?, isSpace x = false) :
    split (space :: tail_items op) (w ++ rest) = (split (tail_items op) rest).map (w :: ·) := by
  refine split_star ⟨hw, hrest⟩ fun x xs hx => tail_none fun y hy => ?_
  cases hy
  rintro rfl
  exact absurd hx (by simp [(sign_only op.sign_isSign).1])

/-- Where the destination goes on there is no operator. -/
theorem operator_none {op : CompoundOp} (hspace : isSpace c = false) (hsign : c ≠ op.sign) :
    split (space :: tail_items op) (c :: s) = none := by
  have hsplit : split (space :: tail_items op) ([] ++ c :: s) =
      (split (tail_items op) (c :: s)).map ([] :: ·) :=
    operator_split (by simp) fun x hx => by cases hx; exact hspace
  rw [List.nil_append] at hsplit
  rw [hsplit, tail_none fun x hx => by cases hx; exact hsign]
  rfl

theorem field_not_sign (h : isField c) : isSpace c = false ∧ c ≠ op.sign := by
  constructor
  · exact Bool.eq_false_iff.mpr fun hspace => absurd h (by simp [space_not_field hspace])
  · rintro rfl
    exact absurd h (by simp [(sign_only op.sign_isSign).2.1])

/-- The text of a statement up to the operator or the equals sign. -/
structure Head (w₀ w₁ rest : List Char) : Prop where
  blank : ∀ c ∈ w₀, isSpace c
  blank' : ∀ c ∈ w₁, isSpace c
  sign : ∃ c s, rest = c :: s ∧ isSign c

section

variable {w₀ w₁ rest : List Char} {op : CompoundOp}

theorem Head.rest_run (h : Head w₀ w₁ rest) : ∀ x ∈ rest.head?, isSpace x = false := by
  obtain ⟨c, s, rfl, hc⟩ := h.sign
  intro x hx
  cases hx
  exact (sign_only hc).1

/-- Neither a blank nor a sign belongs to a destination. -/
theorem Head.dest_run (h : Head w₀ w₁ rest) {p : Char → Bool} (hp : ∀ c, p c → isField c) :
    ∀ x ∈ (w₁ ++ rest).head?, p x = false := by
  obtain ⟨c, s, rfl, hc⟩ := h.sign
  have hend : ∀ x, isField x = false → p x = false :=
    fun x hx => Bool.eq_false_iff.mpr fun hpx => absurd (hp x hpx) (by simp [hx])
  intro x hx
  cases hw : w₁ with
  | nil =>
    rw [hw] at hx
    cases hx
    exact hend _ (sign_only hc).2.1
  | cons y ys =>
    rw [hw] at hx
    obtain rfl : y = x := Option.some.inj hx
    exact hend _ (space_not_field (h.blank' y (by rw [hw]; exact List.mem_cons_self)))

theorem variable_items (op : CompoundOp) : (variable_pattern op).map Prod.snd =
      space :: .plus Char.isAlphanum :: space :: tail_items op := by
  rw [variable_pattern, List.map_append, operator_items]
  rfl

theorem field_items (op : CompoundOp) : (field_pattern op).map Prod.snd =
      space :: char '@' :: .plus isField :: space :: tail_items op := by
  rw [field_pattern, List.map_append, operator_items]
  rfl

variable {s : List Char}

/-- In front of a destination blanks are passed over. -/
theorem leading_split {is : List (Item Char)} (hw : ∀ c ∈ w₀, isSpace c)
    (hs : ∀ x ∈ s.head?, isSpace x = false)
    (hforced : ∀ x xs, isSpace x → split is (x :: xs) = none) :
    split (space :: is) (w₀ ++ s) = (split is s).map (w₀ :: ·) := split_star ⟨hw, hs⟩ hforced

theorem plus_none {p : Char → Bool} {is : List (Item Char)} {c : Char} (hc : p c = false) :
    split (.plus p :: is) (c :: s) = none := by
  simp [split, Item.lengths, hc]

/-- The pattern of a field takes the path, and then the operator decides. -/
theorem field_split (h : Head w₀ w₁ rest) {path : List Char} (hne : path ≠ [])
    (hpath : ∀ c ∈ path, isField c) :
    split ((field_pattern op).map Prod.snd) (w₀ ++ '@' :: (path ++ (w₁ ++ rest))) =
      (split (tail_items op) rest).map fun pieces => w₀ :: ['@'] :: path :: w₁ :: pieces := by
  rw [field_items, leading_split h.blank (fun x hx => by cases hx; rfl)
    (fun x xs hx => split_char_none fun y hy => by cases hy; rintro rfl; exact absurd hx (by decide)),
    split_char, split_plus ⟨hpath, h.dest_run fun _ => id⟩
      (fun x xs hx => operator_none (field_not_sign op hx).1 (field_not_sign op hx).2),
    if_neg hne, operator_split h.blank' h.rest_run]
  cases split (tail_items op) rest <;> rfl

/-- The pattern of a field does not match a variable. -/
theorem field_split_none (h : Head w₀ w₁ rest) {name : List Char} (hne : name ≠ [])
    (hname : ∀ c ∈ name, isIdent c) :
    split ((field_pattern op).map Prod.snd) (w₀ ++ (name ++ (w₁ ++ rest))) = none := by
  obtain ⟨c, cs, rfl⟩ := List.exists_cons_of_ne_nil hne
  have hc : isField c := ident_is_field (hname c List.mem_cons_self)
  rw [field_items, leading_split h.blank
    (fun x hx => by cases hx; exact (field_not_sign .add hc).1)
    (fun x xs hx => split_char_none fun y hy => by cases hy; rintro rfl; exact absurd hx (by decide)),
    List.cons_append, split_char_none]
  · rfl
  · intro x hx
    cases hx
    rintro rfl
    exact absurd hc (by decide)

theorem variable_split_none (h : Head w₀ w₁ rest) {c : Char} (hc : c.isAlphanum = false)
    (hspace : isSpace c = false) :
    split ((variable_pattern op).map Prod.snd) (w₀ ++ c :: s) = none := by
  rw [variable_items, leading_split h.blank (fun x hx => by cases hx; exact hspace)
    (fun x xs hx => plus_none ?_), plus_none hc]
  · rfl
  · exact Bool.eq_false_iff.mpr fun halpha =>
      absurd (alphanum_is_field halpha) (by simp [space_not_field hx])

/-- The pattern of a variable takes the name up to its first underscore, and then the operator
decides. -/
theorem variable_split (h : Head w₀ w₁ rest) {name : List Char} (hne : name ≠ [])
    (hname : ∀ c ∈ name, isIdent c) :
    split ((variable_pattern op).map Prod.snd) (w₀ ++ (name ++ (w₁ ++ rest))) =
      if '_' ∈ name then none
      else (split (tail_items op) rest).map fun pieces => w₀ :: name :: w₁ :: pieces := by
  have hforced : ∀ x xs, x.isAlphanum → split (space :: tail_items op) (x :: xs) = none :=
    fun x xs hx => operator_none (field_not_sign op (alphanum_is_field hx)).1
      (field_not_sign op (alphanum_is_field hx)).2
  have hleading : ∀ x xs, isSpace x → split (.plus Char.isAlphanum :: space :: tail_items op)
      (x :: xs) = none := by
    intro x xs hx
    refine plus_none (Bool.eq_false_iff.mpr fun halpha => ?_)
    exact absurd (alphanum_is_field halpha) (by simp [space_not_field hx])
  have hstart : ∀ x ∈ (name ++ (w₁ ++ rest)).head?, isSpace x = false := by
    obtain ⟨c, cs, rfl⟩ := List.exists_cons_of_ne_nil hne
    intro x hx
    cases hx
    exact (field_not_sign op (ident_is_field (hname c List.mem_cons_self))).1
  rw [variable_items, leading_split h.blank hstart hleading]
  split
  · next hline =>
    -- the run of letters and digits ends at the underscore
    have hcut := List.takeWhile_append_dropWhile (p := Char.isAlphanum) (l := name)
    have hne' : name.dropWhile Char.isAlphanum ≠ [] := by
      rw [Ne, List.dropWhile_eq_nil_iff]
      intro hall
      exact absurd (hall '_' hline) (by decide)
    obtain ⟨c, back, hback⟩ := List.exists_cons_of_ne_nil hne'
    have hc : c.isAlphanum = false :=
      head_dropWhile Char.isAlphanum name c (by rw [hback]; rfl)
    have hfield : isField c := by
      refine ident_is_field (hname c ?_)
      rw [← hcut, hback]
      exact List.mem_append_right _ List.mem_cons_self
    have hrun : Run Char.isAlphanum (name.takeWhile Char.isAlphanum) (c :: (back ++ (w₁ ++ rest))) :=
      ⟨fun x hx => List.mem_takeWhile_imp hx, fun x hx => by cases hx; exact hc⟩
    rw [← hcut, hback, List.append_assoc, List.cons_append, split_plus hrun hforced,
      operator_none (field_not_sign op hfield).1 (field_not_sign op hfield).2]
    split <;> rfl
  · next hline =>
    have hall : ∀ c ∈ name, c.isAlphanum := by
      intro c hc
      have hident := hname c hc
      simp only [isIdent, Bool.or_eq_true, beq_iff_eq] at hident
      rcases hident with halpha | rfl
      · exact halpha
      · exact absurd hc hline
    rw [split_plus ⟨hall, h.dest_run fun _ => alphanum_is_field⟩ hforced, if_neg hne,
      operator_split h.blank' h.rest_run]
    cases split (tail_items op) rest <;> rfl

end

/-! ## Rewriting -/

theorem split_chars (cs : List Char) :
    split (cs.map char ++ is) (cs ++ rest) = (split is rest).map (cs.map ([·]) ++ ·) := by
  induction cs with
  | nil => simp
  | cons c cs ih =>
    rw [List.map_cons, List.cons_append, List.cons_append, split_char, ih]
    cases split is rest <;> rfl

/-- The blanks and the body behind the equals sign. -/
def body_items : List (Item Char) := [space, .plus fun _ => true, space]

theorem tail_split (body : List Char) : split (tail_items op) (op.text ++ '=' :: body) =
      (split body_items body).map fun pieces => op.text.map ([·]) ++ ['='] :: pieces := by
  have hitems : tail_items op = op.text.map char ++ char '=' :: body_items := rfl
  rw [hitems, split_chars, split_char]
  cases split body_items body <;> rfl

/-- The body is what is behind some of the blanks, and must not be empty. -/
theorem body_split (body : List Char) : body ≠ [] →
    ∃ w body', split body_items body = some [w, body', []] ∧ (∀ c ∈ w, isSpace c) ∧
      body = w ++ body' := by
  intro hne
  have hwhole : ∀ {s : List Char}, s ≠ [] → split [.plus fun _ => true, space] s = some [s, []] := by
    intro s hs
    have hrun : Run (fun _ : Char => true) s [] := ⟨fun _ _ => rfl, by simp⟩
    have hrest : split [space] [] = some [[]] := rfl
    simpa using split_plus_longest hrun hs hrest
  have hsome : (split body_items body).isSome := split_star_isSome (by simp [hwhole hne])
  obtain ⟨pieces, hpieces⟩ := Option.isSome_iff_exists.mp hsome
  obtain ⟨w, body', others, rfl, hw, hothers, rfl⟩ := split_star_some hpieces
  cases body' with
  | nil => cases hothers
  | cons c s =>
    rw [hwhole (List.cons_ne_nil c s)] at hothers
    cases hothers
    exact ⟨w, c :: s, hpieces, hw, rfl⟩

theorem body_split_nil : split body_items [] = none := rfl

theorem findSome_only {β γ : Type} {f : β → Option γ} {l : List β} {a : β} (ha : a ∈ l)
    (h : ∀ b, b ≠ a → f b = none) : l.findSome? f = f a := by
  induction l with
  | nil => cases ha
  | cons b l ih =>
    rw [List.findSome?_cons]
    by_cases hb : b = a
    · rw [hb]
      cases hf : f a with
      | some c => rfl
      | none =>
        rw [List.findSome?_eq_none_iff]
        intro x _
        by_cases hx : x = a
        · rw [hx, hf]
        · exact h x hx
    · rw [h b hb]
      exact ih ((List.mem_cons.mp ha).resolve_left fun heq => hb heq.symm)

/-- The text that a pattern of the table makes of a statement. -/
def rewritten (s : List Char) (pattern : CompoundOp → Pattern Char) (op : CompoundOp) :
    Option (List Char) :=
  (matchPattern (pattern op) s).map fun m => combined (m 1) op.written (m 2)

theorem desugar_eq (s : List Char) : desugar_compound s =
    ((compound_ops.findSome? (rewritten s field_pattern)).or
      (compound_ops.findSome? (rewritten s variable_pattern))).getD s := by
  rw [desugar_compound, List.findSome?_append, compound_patterns_field, compound_patterns,
    List.findSome?_map, List.findSome?_map]
  rfl

theorem rewritten_none {pattern : CompoundOp → Pattern Char} {op : CompoundOp}
    (h : split ((pattern op).map Prod.snd) s = none) : rewritten s pattern op = none := by
  rw [rewritten, matchPattern, h]
  rfl

theorem mem_compound_ops : op ∈ compound_ops := by
  cases op <;> decide

theorem desugar_same (hfield : ∀ op, split ((field_pattern op).map Prod.snd) s = none)
    (hvariable : ∀ op, split ((variable_pattern op).map Prod.snd) s = none) :
    desugar_compound s = s := by
  have hnone : ∀ {pattern : CompoundOp → Pattern Char},
      (∀ op, split ((pattern op).map Prod.snd) s = none) →
      compound_ops.findSome? (rewritten s pattern) = none := by
    intro pattern h
    rw [List.findSome?_eq_none_iff]
    exact fun op _ => rewritten_none (h op)
  rw [desugar_eq, hnone hfield, hnone hvariable]
  rfl

/-- A compound assignment: the destination, the operator and the right-hand side. -/
def compound_text (w₀ d w₁ : List Char) (op : CompoundOp) (e : List Char) : List Char :=
  w₀ ++ (d ++ (w₁ ++ (op.text ++ '=' :: e)))

theorem compound_head {w₀ w₁ : List Char} (hw₀ : ∀ c ∈ w₀, isSpace c) (hw₁ : ∀ c ∈ w₁, isSpace c)
    (op : CompoundOp) (e : List Char) : Head w₀ w₁ (op.text ++ '=' :: e) := by
  obtain ⟨more, hmore⟩ := op.text_eq
  exact ⟨hw₀, hw₁, op.sign, _, by rw [hmore, List.cons_append], op.sign_isSign⟩

theorem other_tail_none {op op' : CompoundOp} (h : op' ≠ op) (e : List Char) :
    split (tail_items op') (op.text ++ '=' :: e) = none := by
  obtain ⟨more, hmore⟩ := op.text_eq
  refine tail_none fun x hx => ?_
  rw [hmore] at hx
  cases hx
  exact fun heq => h (CompoundOp.sign_injective heq).symm

section

variable {w₀ w₁ : List Char} (hw₀ : ∀ c ∈ w₀, isSpace c) (hw₁ : ∀ c ∈ w₁, isSpace c)
  (op : CompoundOp) {e : List Char}

include hw₀ hw₁

theorem desugar_field {path : List Char} (hne : path ≠ []) (hpath : ∀ c ∈ path, isField c)
    (he : e ≠ []) : ∃ w e', e = w ++ e' ∧ (∀ c ∈ w, isSpace c) ∧
      desugar_compound (compound_text w₀ ('@' :: path) w₁ op e) =
        combined ('@' :: path) op.written e' := by
  obtain ⟨w, e', hsplit, hw, rfl⟩ := body_split e he
  refine ⟨w, e', rfl, hw, ?_⟩
  have hhead := compound_head hw₀ hw₁ op (w ++ e')
  have hfirst : compound_ops.findSome?
      (rewritten (compound_text w₀ ('@' :: path) w₁ op (w ++ e')) field_pattern) =
      some (combined ('@' :: path) op.written e') := by
    rw [findSome_only (mem_compound_ops op)]
    · rw [rewritten, matchPattern, compound_text, List.cons_append, field_split hhead hne hpath,
        tail_split, hsplit]
      cases op <;> simp [capture, field_pattern, operator_pattern, CompoundOp.text, CompoundOp.op,
        opText]
    · intro op' hop'
      refine rewritten_none ?_
      rw [compound_text, List.cons_append, field_split hhead hne hpath, other_tail_none hop']
      rfl
  rw [desugar_eq, hfirst]
  rfl

/-- Variables without an underscore are rewritten, whatever the operator. -/
theorem desugar_variable {name : List Char} (hne : name ≠ []) (hname : ∀ c ∈ name, isIdent c)
    (hline : '_' ∉ name) (he : e ≠ []) : ∃ w e', e = w ++ e' ∧ (∀ c ∈ w, isSpace c) ∧
      desugar_compound (compound_text w₀ name w₁ op e) = combined name op.written e' := by
  obtain ⟨w, e', hsplit, hw, rfl⟩ := body_split e he
  refine ⟨w, e', rfl, hw, ?_⟩
  have hhead := compound_head hw₀ hw₁ op (w ++ e')
  have hfields : compound_ops.findSome?
      (rewritten (compound_text w₀ name w₁ op (w ++ e')) field_pattern) = none := by
    rw [List.findSome?_eq_none_iff]
    exact fun op' _ => rewritten_none (field_split_none hhead hne hname)
  have hfirst : compound_ops.findSome?
      (rewritten (compound_text w₀ name w₁ op (w ++ e')) variable_pattern) =
      some (combined name op.written e') := by
    rw [findSome_only (mem_compound_ops op)]
    · rw [rewritten, matchPattern, compound_text, variable_split hhead hne hname, if_neg hline,
        tail_split, hsplit]
      cases op <;> simp [capture, variable_pattern, operator_pattern, CompoundOp.text,
        CompoundOp.op, opText]
    · intro op' hop'
      refine rewritten_none ?_
      rw [compound_text, variable_split hhead hne hname, if_neg hline, other_tail_none hop']
      rfl
  rw [desugar_eq, hfields, hfirst]
  rfl

/-- A variable with an underscore is not rewritten. -/
theorem desugar_underscore {name : List Char} (hne : name ≠ []) (hname : ∀ c ∈ name, isIdent c)
    (hline : '_' ∈ name) :
    desugar_compound (compound_text w₀ name w₁ op e) = compound_text w₀ name w₁ op e := by
  have hhead := compound_head hw₀ hw₁ op e
  refine desugar_same (fun op' => field_split_none hhead hne hname) fun op' => ?_
  rw [compound_text, variable_split hhead hne hname, if_pos hline]

theorem desugar_nothing {d : List Char} (hd : Destination d) :
    desugar_compound (compound_text w₀ d w₁ op []) = compound_text w₀ d w₁ op [] := by
  have hhead := compound_head hw₀ hw₁ op []
  have htail : ∀ op', split (tail_items op') (op.text ++ ['=']) = none := by
    intro op'
    by_cases hop' : op' = op
    · rw [hop', tail_split, body_split_nil]
      rfl
    · exact other_tail_none hop' []
  cases hd with
  | var hne hname =>
    refine desugar_same (fun op' => field_split_none hhead hne hname) fun op' => ?_
    rw [compound_text, variable_split hhead hne hname, htail]
    split <;> rfl
  | field hne hpath =>
    refine desugar_same (fun op' => ?_) fun op' => ?_
    · rw [compound_text, List.cons_append, field_split hhead hne hpath, htail]
      rfl
    · exact variable_split_none hhead (by decide) (by decide)

theorem desugar_plain {d : List Char} (hd : Destination d) :
    desugar_compound (w₀ ++ (d ++ (w₁ ++ '=' :: e))) = w₀ ++ (d ++ (w₁ ++ '=' :: e)) := by
  have hhead : Head w₀ w₁ ('=' :: e) := ⟨hw₀, hw₁, '=', e, rfl, rfl⟩
  have htail : ∀ op', split (tail_items op') ('=' :: e) = none := by
    intro op'
    refine tail_none fun x hx => ?_
    cases hx
    cases op' <;> decide
  cases hd with
  | var hne hname =>
    refine desugar_same (fun op' => field_split_none hhead hne hname) fun op' => ?_
    rw [variable_split hhead hne hname, htail]
    split <;> rfl
  | field hne hpath =>
    refine desugar_same (fun op' => ?_) fun op' => ?_
    · rw [List.cons_append, field_split hhead hne hpath, htail]
      rfl
    · exact variable_split_none hhead (by decide) (by decide)

end

/-! ## Assignments -/

/-- What follows the destination in `assignment_pattern`. -/
def equals_items : List (Item Char) := space :: char '=' :: body_items

theorem assignment_items :
    assignment_pattern.map Prod.snd = space :: .opt (· == '@') :: .plus isField :: equals_items :=
  rfl

theorem equals_split (hc : isSpace c = false) : split equals_items (" = ".toList ++ c :: s) =
      some [[' '], ['='], [' '], c :: s, []] := by
  have hblank : ∀ {rest : List Char}, (∀ x ∈ rest.head?, isSpace x = false) →
      Run isSpace [' '] rest := fun hrest => ⟨by simp [isSpace], hrest⟩
  have hany : Run (fun _ : Char => true) (c :: s) [] := ⟨fun _ _ => rfl, by simp⟩
  have hend : split [space] [] = some [[]] := rfl
  have hbody : split [.plus fun _ => true, space] (c :: s) = some [c :: s, []] := by
    simpa using split_plus_longest hany (List.cons_ne_nil c s) hend
  have hspace : split body_items ([' '] ++ c :: s) = some [[' '], c :: s, []] :=
    split_star_longest (hblank fun x hx => by cases hx; exact hc) hbody
  have hequals : split (char '=' :: body_items) ('=' :: ' ' :: c :: s) =
      some [['='], [' '], c :: s, []] := by
    rw [split_char]
    exact congrArg (Option.map (['='] :: ·)) hspace
  exact split_star_longest (hblank fun x hx => by cases hx; rfl) hequals

variable {d : List Char}

theorem assignment_match (hd : Destination d) (hc : isSpace c = false) :
    ∃ m, matchPattern assignment_pattern (d ++ (" = ".toList ++ c :: s)) =
      some m ∧ m 1 = d ∧ m 2 = c :: s := by
  have hequals : split equals_items (" = ".toList ++ c :: s) = some [[' '], ['='], [' '], c :: s, []] :=
    equals_split hc
  have hname : ∀ {name : List Char}, name ≠ [] → (∀ x ∈ name, isField x) →
      split (.plus isField :: equals_items) (name ++ (" = ".toList ++ c :: s)) =
        some [name, [' '], ['='], [' '], c :: s, []] := by
    intro name hne hall
    exact split_plus_longest ⟨hall, fun x hx => by cases hx; rfl⟩ hne hequals
  have hleading : ∀ {s : List Char} {pieces : List (List Char)}, (∀ x ∈ s.head?, isSpace x = false) →
      split (.opt (· == '@') :: .plus isField :: equals_items) s = some pieces →
      split (assignment_pattern.map Prod.snd) s = some ([] :: pieces) := by
    intro s pieces hs hpieces
    have hempty : Run isSpace [] s := ⟨by simp, hs⟩
    rw [assignment_items]
    exact split_star_longest hempty hpieces
  rw [matchPattern]
  cases hd with
  | var hne hall =>
    have hfields : ∀ x ∈ d, isField x := fun x hx => ident_is_field (hall x hx)
    obtain ⟨a, as, rfl⟩ := List.exists_cons_of_ne_nil hne
    have ha : isField a := hfields a List.mem_cons_self
    have hat : ∀ x ∈ (a :: as ++ (" = ".toList ++ c :: s)).head?, (x == '@') = false := by
      intro x hx
      cases hx
      rw [beq_eq_false_iff_ne]
      rintro rfl
      exact absurd ha (by decide)
    rw [hleading (fun x hx => by cases hx; exact (field_not_sign .add ha).1)
      ((split_opt_none hat).trans (congrArg (Option.map ([] :: ·)) (hname hne hfields)))]
    exact ⟨_, rfl, by simp [capture, assignment_pattern], by simp [capture, assignment_pattern]⟩
  | field hne hall =>
    rw [List.cons_append,
      hleading (fun x hx => by cases hx; rfl) (split_opt_some rfl (hname hne hall))]
    exact ⟨_, rfl, by simp [capture, assignment_pattern], by simp [capture, assignment_pattern]⟩

theorem assignment_none {w₀ w₁ : List Char} (hw₀ : ∀ c ∈ w₀, isSpace c) (hw₁ : ∀ c ∈ w₁, isSpace c)
    (op : CompoundOp) {e : List Char} (hd : Destination d) :
    matchPattern assignment_pattern (compound_text w₀ d w₁ op e) = none := by
  have hhead := compound_head hw₀ hw₁ op e
  obtain ⟨more, hmore⟩ := op.text_eq
  have hforced : ∀ x xs, isSpace x → split (char '=' :: body_items) (x :: xs) = none := by
    intro x xs hx
    refine split_char_none fun y hy => ?_
    cases hy
    rintro rfl
    exact absurd hx (by decide)
  have hequals : ∀ x xs, isSpace x = false → x ≠ '=' → split equals_items (x :: xs) = none := by
    intro x xs hspace hx
    have hempty : Run isSpace [] (x :: xs) := ⟨by simp, fun y hy => by cases hy; exact hspace⟩
    have hsplit := split_star hempty hforced
    rw [List.nil_append] at hsplit
    rw [equals_items, space, hsplit, split_char_none fun y hy => by cases hy; exact hx]
    rfl
  have hoperator : split equals_items (w₁ ++ (op.text ++ '=' :: e)) = none := by
    rw [equals_items, space, split_star ⟨hw₁, hhead.rest_run⟩ hforced, split_char_none]
    · rfl
    · rw [hmore]
      intro x hx
      cases hx
      cases op <;> decide
  have hname : ∀ {name : List Char}, name ≠ [] → (∀ x ∈ name, isField x) →
      split (.plus isField :: equals_items) (name ++ (w₁ ++ (op.text ++ '=' :: e))) = none := by
    intro name hne hall
    rw [split_plus ⟨hall, hhead.dest_run fun _ => id⟩ fun x xs hx => hequals x xs
      (field_not_sign op hx).1 (by rintro rfl; exact absurd hx (by decide)), if_neg hne, hoperator]
    rfl
  have hleading : ∀ {s : List Char}, (∀ x ∈ s.head?, isSpace x = false) →
      split (.opt (· == '@') :: .plus isField :: equals_items) s = none →
      matchPattern assignment_pattern (w₀ ++ s) = none := by
    intro s hs hnone
    rw [matchPattern, assignment_items, leading_split hw₀ hs, hnone]
    · rfl
    · intro x xs hx
      rw [split_opt_none fun y hy => ?_, plus_none (space_not_field hx)]
      · rfl
      · cases hy
        rw [beq_eq_false_iff_ne]
        rintro rfl
        exact absurd hx (by decide)
  cases hd with
  | var hne hall =>
    have hfields : ∀ x ∈ d, isField x := fun x hx => ident_is_field (hall x hx)
    obtain ⟨a, as, rfl⟩ := List.exists_cons_of_ne_nil hne
    have ha : isField a := hfields a List.mem_cons_self
    refine hleading (fun x hx => by cases hx; exact (field_not_sign op ha).1) ?_
    rw [split_opt_none fun x hx => ?_, hname hne hfields]
    · rfl
    · cases hx
      rw [beq_eq_false_iff_ne]
      rintro rfl
      exact absurd ha (by decide)
  | field hne hall =>
    refine hleading (fun x hx => by cases hx; rfl) ?_
    exact split_opt_both rfl (hname hne hall) (plus_none rfl)

/-! ## Destinations as operands -/

inductive LeafToken : Token → Ast → Prop
  | num (v : Int) (is_float : Bool) : LeafToken (.num v is_float) (.num v is_float)
  | var (name : String) : LeafToken (.ident name) (.var name)
  | field (name : String) : LeafToken (.field name) (.field name)

theorem LeafToken.no_operator {leaf : Ast} (h : LeafToken t leaf) :
    t ≠ .op .sub ∧ operandNext t = false := by
  cases h <;> exact ⟨nofun, rfl⟩

theorem LeafToken.derives {leaf : Ast} (h : LeafToken t leaf) (n : Nat) : Derives n [t] leaf := by
  cases h with
  | num v is_float => exact .num n v is_float
  | var name => exact .var n name
  | field name => exact .field n name

/-- In front of a blank the destination is one operand. -/
def IsOperand (d : List Char) (t : Token) (leaf : Ast) : Prop :=
  LeafToken t leaf ∧ ∀ rest, Lexeme d t (' ' :: rest)

/-- The name starts with a digit, but is no number: it has more than one token. -/
def Divided (d : List Char) : Prop :=
  (∃ c cs, d = c :: cs ∧ c.isDigit) ∧ d.dropWhile Char.isDigit ∉ [[], ['f'], ['F']]

def FallsApart (d : List Char) : Prop :=
  ∃ v is_float c cs, isIdent c ∧ ∀ rest,
    tokens true (d ++ ' ' :: rest) = (tokens false (c :: (cs ++ ' ' :: rest))).map (.num v is_float :: ·)

theorem ident_kind (h : isIdent c) : isIdentStart c ∨ c.isDigit := by
  simp only [isIdent, Char.isAlphanum, Bool.or_eq_true, beq_iff_eq] at h
  simp only [isIdentStart, Bool.or_eq_true, beq_iff_eq]
  rcases h with (h | h) | h
  · exact Or.inl (Or.inl h)
  · exact Or.inr h
  · exact Or.inl (Or.inr h)

theorem number_tokens {ds more : List Char} (hne : ds ≠ []) (hds : ∀ c ∈ ds, c.isDigit)
    (hmore : ∀ c ∈ more, isIdent c) (hhead : ∀ x ∈ more.head?, x.isDigit = false) :
    (more ∈ [[], ['f'], ['F']] ∧ ∃ t leaf, IsOperand (ds ++ more) t leaf) ∨
      (more ∉ [[], ['f'], ['F']] ∧ FallsApart (ds ++ more)) := by
  obtain ⟨a, hnumeral⟩ : ∃ a, Numeral ds a false := ⟨_, .whole hne hds⟩
  rcases more with _ | ⟨x, more⟩
  · refine Or.inl ⟨by simp, _, _, .num a false, fun rest => ?_⟩
    rw [List.append_nil]
    refine .num hnumeral fun x hx => ?_
    cases hx
    exact ⟨rfl, by decide, by decide, fun h => absurd h (by decide)⟩
  by_cases hx : x = 'f' ∨ x = 'F'
  · rcases more with _ | ⟨c, cs⟩
    · refine Or.inl ⟨?_, _, _, .num a true, fun rest => .float hnumeral hx⟩
      rcases hx with rfl | rfl <;> simp
    · refine Or.inr ⟨by simp, a, true, c, cs, hmore c (by simp), fun rest => ?_⟩
      have hfloat : Lexeme (ds ++ [x]) (.num a true) (c :: (cs ++ ' ' :: rest)) := .float hnumeral hx
      have htokens := tokens_operand hfloat nofun
      simpa [operandNext] using htokens
  · refine Or.inr ⟨?_, a, false, x, more, hmore x List.mem_cons_self, fun rest => ?_⟩
    · have hcases := not_or.mp hx
      simp [hcases]
    · have hnum : Lexeme ds (.num a false) (x :: (more ++ ' ' :: rest)) := by
        refine .num hnumeral fun y hy => ?_
        cases hy
        refine ⟨hhead x rfl, fun h => hx (Or.inl h), fun h => hx (Or.inr h), ?_⟩
        rintro rfl
        exact absurd (hmore '.' List.mem_cons_self) (by decide)
      have htokens := tokens_operand hnum nofun
      simpa [operandNext] using htokens

/-- A destination is one operand, or a name that starts with a digit and falls apart. -/
theorem destination_tokens (hd : Destination d) :
    (¬ Divided d ∧ ∃ t leaf, IsOperand d t leaf) ∨ (Divided d ∧ FallsApart d) := by
  have hblank : ∀ {p : Char → Bool} {rest : List Char}, p ' ' = false →
      ∀ x ∈ (' ' :: rest).head?, p x = false := by
    intro p rest hp x hx
    cases hx
    exact hp
  cases hd with
  | @field path hne hall =>
    refine Or.inl ⟨?_, _, _, .field (String.ofList path), fun rest => .field hne hall (hblank rfl)⟩
    rintro ⟨⟨c, cs, heq, hc⟩, -⟩
    cases heq
    exact absurd hc (by decide)
  | var hne hall =>
    obtain ⟨c, cs, rfl⟩ := List.exists_cons_of_ne_nil hne
    rcases ident_kind (hall c List.mem_cons_self) with hstart | hdigit
    · refine Or.inl ⟨?_, _, _, .var _, fun rest => .ident hstart
        (fun x hx => hall x (List.mem_cons_of_mem c hx)) (hblank rfl)⟩
      rintro ⟨⟨c', cs', heq, hc'⟩, -⟩
      cases heq
      exact absurd (ident_start_only hstart).2 (by simp [isNumber, hc'])
    · have hdigits : ∀ x ∈ (c :: cs).takeWhile Char.isDigit, x.isDigit :=
        fun x hx => List.mem_takeWhile_imp hx
      have hwhole : (c :: cs).takeWhile Char.isDigit ≠ [] := by simp [hdigit]
      have hcut := List.takeWhile_append_dropWhile (p := Char.isDigit) (l := c :: cs)
      have hmore : ∀ x ∈ (c :: cs).dropWhile Char.isDigit, isIdent x := by
        intro x hx
        refine hall x ?_
        rw [← hcut]
        exact List.mem_append_right _ hx
      have hnumber := number_tokens hwhole hdigits hmore (head_dropWhile Char.isDigit (c :: cs))
      rw [hcut] at hnumber
      rcases hnumber with ⟨hmem, hoperand⟩ | ⟨hmem, hapart⟩
      · exact Or.inl ⟨fun hdivided => hdivided.2 hmem, hoperand⟩
      · exact Or.inr ⟨⟨⟨c, cs, rfl, hdigit⟩, hmem⟩, hapart⟩

/-! ## Statements that are no expressions -/

section

variable {lua : LuaNumbers} {v : Vars} {scratch : List String} {dest : Cell}

def compile_body (lua : LuaNumbers) (v : Vars) (scratch : List String) (dest : Cell)
    (ts : List Token) : Option (List Quad) :=
  (quad_expr (4 * ts.length + 2) lua v scratch dest ts).toOption

variable {ts : List Token}

theorem compile_none (h : parse_tokens ts = none) : compile_body lua v scratch dest ts = none := by
  unfold compile_body quad_expr
  unfold parse_tokens at h
  split
  · next heq =>
    rw [heq] at h
    cases h
  · rfl
  · rfl

theorem parse_expr_none (h : ∀ fuel, parse_primary fuel ts = none) (fuel m : Nat) :
    parse_expr fuel ts m = none := by
  cases fuel with
  | zero => rfl
  | succ fuel =>
    rw [parse_expr, h fuel]
    rfl

variable {t : Token} {leaf : Ast}

theorem operand_missing (ht : LeafToken t leaf) (op : CompoundOp)
    (h : ∀ fuel, parse_primary fuel ts = none) : parse_tokens (t :: .op op.op :: ts) = none := by
  have hright : ∀ fuel m, parse_expr fuel ts m = none := parse_expr_none h
  have hloop : ∀ fuel left, parse_loop fuel left (.op op.op :: ts) 0 = none := by
    intro fuel left
    cases fuel with
    | zero => rfl
    | succ fuel => cases op <;> simp [parse_loop, CompoundOp.op, op_info, hright]
  have hleft : ∀ fuel, parse_expr fuel (t :: .op op.op :: ts) 0 = none := by
    intro fuel
    rcases fuel with _ | _ | fuel
    · rfl
    · rfl
    · cases ht <;> simp [parse_expr, parse_primary, hloop]
  rw [parse_tokens, hleft]

theorem no_operator_twice (ht : LeafToken t leaf) (ts : List Token) :
    parse_tokens (t :: .op .mod :: .op .mod :: ts) = none :=
  operand_missing ht .mod fun fuel => by cases fuel <;> simp [parse_primary, isUnary]

theorem no_empty_parens (ht : LeafToken t leaf) (op : CompoundOp) (ts : List Token) :
    parse_tokens (t :: .op op.op :: .lparen :: .rparen :: ts) = none := by
  refine operand_missing ht op fun fuel => ?_
  have hinner : ∀ fuel m, parse_expr fuel (.rparen :: ts) m = none :=
    parse_expr_none fun fuel => by cases fuel <;> rfl
  cases fuel with
  | zero => rfl
  | succ fuel => simp [parse_primary, hinner]

/-- Behind a number there is an operator or the end. -/
theorem no_operand_twice {a : Int} {is_float : Bool} (ht : LeafToken t leaf) (ts : List Token) :
    parse_tokens (.num a is_float :: t :: ts) = none := by
  have hexpr : ∀ fuel r, parse_expr fuel (.num a is_float :: t :: ts) 0 = some r →
      r.2 = t :: ts := by
    intro fuel r h
    rcases fuel with _ | _ | fuel
    · cases h
    · cases h
    · cases ht <;> simp [parse_expr, parse_primary, parse_loop] at h <;> rw [← h]
  unfold parse_tokens
  split
  · next heq =>
    have hrest := hexpr _ _ heq
    cases ht <;> cases hrest
  · rfl

end

/-! ## Compound assignments -/

section

variable {d : List Char}

theorem combined_eq (d op body : List Char) : combined d op body =
    d ++ (" = ".toList ++ (d ++ ' ' :: (op ++ ' ' :: '(' :: (body ++ [')'])))) := by
  simp [combined]

theorem Destination.starts (hd : Destination d) : ∃ c cs, d = c :: cs ∧ isSpace c = false := by
  cases hd with
  | @field path => exact ⟨'@', path, rfl, rfl⟩
  | var hne hall =>
    obtain ⟨c, cs, rfl⟩ := List.exists_cons_of_ne_nil hne
    exact ⟨c, cs, rfl, (field_not_sign .add (ident_is_field (hall c List.mem_cons_self))).1⟩

/-- Nothing is rewritten twice. -/
theorem desugar_combined (hd : Destination d) (op body : List Char) :
    desugar_compound (combined d op body) = combined d op body := by
  have hnone : ∀ c ∈ ([] : List Char), isSpace c := by simp
  have hblank : ∀ c ∈ [' '], isSpace c := by simp [isSpace]
  rw [combined_eq]
  exact desugar_plain hnone hblank hd

theorem combined_compiles (hd : Destination d) (lua : LuaNumbers) (v : Vars) (scratch : List String)
    (op body : List Char) : quad_expr_str lua v scratch (combined d op body) =
      (tokens true (d ++ ' ' :: (op ++ ' ' :: '(' :: (body ++ [')'])))).bind
        (compile_body lua v scratch (dest_cell d)) := by
  obtain ⟨c, cs, hstart, hc⟩ := hd.starts
  obtain ⟨m, hm, hm₁, hm₂⟩ := assignment_match hd
    (s := cs ++ ' ' :: (op ++ ' ' :: '(' :: (body ++ [')']))) hc
  rw [← List.cons_append, ← hstart] at hm hm₂
  rw [quad_expr_str, desugar_combined hd, combined_eq, hm]
  simp only [Option.bind_eq_bind, Option.bind_some, hm₁, hm₂]
  rfl

theorem operator_tokens (op : CompoundOp) (s : List Char) :
    tokens false (' ' :: (op.text ++ ' ' :: '(' :: s)) =
      (tokens true s).map fun ts => .op op.op :: .lparen :: ts := by
  have hopen := tokens_operand (@open_lexeme s) nofun
  rw [tokens_space (by rfl), CompoundOp.text, tokens_lexeme (binary_lexeme op.op)]
  rw [show operandNext (.op op.op) = true from rfl, tokens_space (by rfl)]
  rw [List.singleton_append] at hopen
  rw [hopen, Option.map_map]
  rfl

theorem percent_tokens (s : List Char) : tokens false (' ' :: ('%' :: '%' :: ' ' :: '(' :: s)) =
      (tokens true s).map fun ts => .op .mod :: .op .mod :: .lparen :: ts := by
  have hfirst : Lexeme ['%'] (.op .mod) ('%' :: ' ' :: '(' :: s) :=
    .one rfl fun b hb => by cases hb; rfl
  have hsecond : Lexeme ['%'] (.op .mod) (' ' :: '(' :: s) :=
    .one rfl fun b hb => by cases hb; rfl
  have hopen := tokens_operand (@open_lexeme s) nofun
  have htokens := tokens_lexeme hfirst
  have htokens' := tokens_operand hsecond nofun
  rw [List.singleton_append] at hopen htokens htokens'
  rw [tokens_space (by rfl), htokens, show operandNext (.op .mod) = true from rfl, htokens',
    show operandNext (.op .mod) = true from rfl, tokens_space (by rfl), hopen, Option.map_map,
    Option.map_map]
  rfl

variable {t : Token} {leaf : Ast}

theorem operand_tokens (h : IsOperand d t leaf) (s : List Char) :
    tokens true (d ++ ' ' :: s) = (tokens false (' ' :: s)).map (t :: ·) := by
  obtain ⟨hne, hnext⟩ := h.1.no_operator
  rw [tokens_operand (h.2 s) hne, hnext]

theorem operand_first {c : Char} {s : List Char} {ts : List Token} (hc : isIdent c)
    (h : tokens false (c :: s) = some ts) : ∃ t leaf ts', LeafToken t leaf ∧ ts = t :: ts' := by
  have hspace := (field_not_sign .add (ident_is_field hc)).1
  rw [tokens, tokenize_from, if_neg (by simp [hspace])] at h
  simp only [Option.bind_eq_bind, Option.bind_eq_some_iff] at h
  obtain ⟨⟨t, rest⟩, hnext, ts', -, heq⟩ := h
  cases heq
  rcases ident_kind hc with hstart | hdigit
  · obtain ⟨hat, hnum⟩ := ident_start_only hstart
    rw [next_token, if_neg hat, if_neg (by simp [hnum]), if_neg (by simp), if_pos hstart] at hnext
    cases hnext
    exact ⟨_, _, ts', .var _, rfl⟩
  · obtain ⟨a, is_float, rfl⟩ := number_token (by simp [isNumber, hdigit]) hnext
    exact ⟨_, _, ts', .num a is_float, rfl⟩

/-- A destination that falls apart is no expression, whatever follows. -/
theorem apart_fails (h : FallsApart d) (lua : LuaNumbers) (v : Vars) (scratch : List String) (dest : Cell)
    (s : List Char) : (tokens true (d ++ ' ' :: s)).bind (compile_body lua v scratch dest) = none := by
  obtain ⟨a, is_float, c, cs, hc, htokens⟩ := h
  rw [htokens, Option.bind_map]
  cases hrest : tokens false (c :: (cs ++ ' ' :: s)) with
  | none => rfl
  | some ts =>
    obtain ⟨t, leaf, ts', ht, rfl⟩ := operand_first hc hrest
    exact compile_none (no_operand_twice ht ts')

/-- The compound assignments that compile as their long forms do: those of fields, and of
variables without an underscore, but for `%=`. Where the name of a variable is no operand, neither
form compiles. -/
def Expands (op : CompoundOp) (d : List Char) : Prop :=
  (op ≠ .mod ∧ ('_' ∉ d ∨ d.head? = some '@')) ∨ Divided d

theorem body_tokens {w e : List Char} (hw : ∀ c ∈ w, isSpace c) :
    tokens true (w ++ e ++ [')']) = tokens true (e ++ [')']) := by
  rw [List.append_assoc, tokens_spaces hw]

/-- A statement that is neither rewritten nor an assignment does not compile. -/
theorem not_rewritten_fails {w₀ w₁ e : List Char} (hw₀ : ∀ c ∈ w₀, isSpace c)
    (hw₁ : ∀ c ∈ w₁, isSpace c) (hd : Destination d) (op : CompoundOp) (lua : LuaNumbers) (v : Vars)
    (scratch : List String)
    (hsame : desugar_compound (compound_text w₀ d w₁ op e) = compound_text w₀ d w₁ op e) :
    quad_expr_str lua v scratch (compound_text w₀ d w₁ op e) = none := by
  rw [quad_expr_str, hsame, assignment_none hw₀ hw₁ op hd]
  rfl

/-- A compound assignment is left alone and does not compile, or is rewritten with the operator of
the table and a right-hand side without some of its blanks. -/
theorem short_form {w₀ w₁ : List Char} (hw₀ : ∀ c ∈ w₀, isSpace c) (hw₁ : ∀ c ∈ w₁, isSpace c)
    (hd : Destination d) (op : CompoundOp) (e : List Char) (lua : LuaNumbers) (v : Vars)
    (scratch : List String) : ((e = [] ∨ ('_' ∈ d ∧ d.head? ≠ some '@')) ∧
      quad_expr_str lua v scratch (compound_text w₀ d w₁ op e) = none) ∨
    (('_' ∉ d ∨ d.head? = some '@') ∧ ∃ w e', e = w ++ e' ∧ (∀ c ∈ w, isSpace c) ∧
      quad_expr_str lua v scratch (compound_text w₀ d w₁ op e) =
        (tokens true (d ++ ' ' :: (op.written ++ ' ' :: '(' :: (e' ++ [')'])))).bind
          (compile_body lua v scratch (dest_cell d))) := by
  have hfails := not_rewritten_fails (e := e) hw₀ hw₁ hd op lua v scratch
  have hrewritten : ∀ {e'}, desugar_compound (compound_text w₀ d w₁ op e) = combined d op.written e' →
      quad_expr_str lua v scratch (compound_text w₀ d w₁ op e) =
        quad_expr_str lua v scratch (combined d op.written e') := by
    intro e' h
    rw [quad_expr_str, quad_expr_str, h, desugar_combined hd]
  rcases eq_or_ne e [] with rfl | he
  · exact Or.inl ⟨Or.inl rfl, hfails (desugar_nothing hw₀ hw₁ op hd)⟩
  cases hd with
  | @field path hne hall =>
    obtain ⟨w, e', rfl, hw, hdesugar⟩ := desugar_field hw₀ hw₁ op hne hall he
    refine Or.inr ⟨Or.inr rfl, w, e', rfl, hw, ?_⟩
    rw [hrewritten hdesugar, combined_compiles (.field hne hall)]
  | var hne hall =>
    have hhead : d.head? ≠ some '@' := by
      obtain ⟨c, cs, rfl⟩ := List.exists_cons_of_ne_nil hne
      intro heq
      cases heq
      exact absurd (hall '@' List.mem_cons_self) (by decide)
    by_cases hline : '_' ∈ d
    · exact Or.inl ⟨Or.inr ⟨hline, hhead⟩, hfails (desugar_underscore hw₀ hw₁ op hne hall hline)⟩
    · obtain ⟨w, e', rfl, hw, hdesugar⟩ := desugar_variable hw₀ hw₁ op hne hall hline he
      refine Or.inr ⟨Or.inl hline, w, e', rfl, hw, ?_⟩
      rw [hrewritten hdesugar, combined_compiles (.var hne hall)]

/-! ## The long form of one -/

def anyVars : Vars where
  is_float _ := some false
  field_size _ := .four

theorem parse_tokens_expr {ts : List Token} {e : Ast} (h : parse_tokens ts = some e) :
    parse_expr (4 * ts.length + 2) ts 0 = some (e, [.eof]) := by
  unfold parse_tokens at h
  split at h
  · next heq =>
    cases h
    exact heq
  · cases h

theorem emit_ok (lua : LuaNumbers) (op : CompoundOp) (ht : LeafToken t leaf) (dest : Cell)
    (g : Gen) :
    ∃ r, emit anyVars [] (fold_constants lua (.binop op.op leaf (.num 1 false))) (some dest) g =
      .ok r := by
  have hdest : ref_for anyVars dest = .ok (.cell dest) := by cases dest <;> rfl
  have hbinop : ∀ {leaf : Ast} {r : Ref}, emit anyVars [] leaf none g = .ok (r, g) →
      ∃ r, emit anyVars [] (.binop op.op leaf (.num 1 false)) (some dest) g = .ok r := by
    intro leaf r hleaf
    obtain ⟨fn, hfn⟩ : ∃ fn, resolve_binop op.op
        (infer_float anyVars (.binop op.op leaf (.num 1 false))) = .ok fn := by
      cases op <;> exact ⟨_, rfl⟩
    have hone : emit anyVars [] (.num 1 false) none g = .ok (literal_ref 1 false, g) := rfl
    rw [emit, hleaf]
    simp only [bind, Except.bind, hone, dest_or_scratch, hdest, hfn]
    exact ⟨_, rfl⟩
  cases ht with
  | var name => exact hbinop (r := .cell (.var name)) rfl
  | field name => exact hbinop (r := .cell (.field name)) rfl
  | num a is_float =>
    simp only [fold_constants, Ast.literal, Option.bind_some]
    cases lua.binop op.op (a, is_float) (1, false) with
    | none => exact hbinop (r := literal_ref a is_float) rfl
    | some r =>
      simp only [foldedTo, emit, emit_leaf, bind, Except.bind, hdest]
      exact ⟨_, rfl⟩

theorem long_form_compiles (hd : Destination d) (h : IsOperand d t leaf) (op : CompoundOp)
    (lua : LuaNumbers) :
    ∃ ops, quad_expr_str lua anyVars [] (combined d op.text ['1']) = some ops := by
  have hone : tokens true ['1', ')'] = some [.num 1 false, .rparen, .eof] := by decide
  have hlevel : ∃ p, cLevel op.op = some p := by cases op <;> exact ⟨_, rfl⟩
  obtain ⟨p, hp⟩ := hlevel
  have hderives : Derives 0 ([t] ++ Token.op op.op :: ([Token.lparen] ++ [Token.num 1 false] ++ [Token.rparen]))
      (.binop op.op leaf (.num 1 false)) :=
    .binop hp (Nat.zero_le p) (h.1.derives p) (.paren _ (.num 0 1 false))
  have hparse := parse_tokens_expr (parse_tokens_iff.mpr hderives)
  rw [combined_compiles hd, operand_tokens h, operator_tokens]
  have hbody : ['1'] ++ [')'] = ['1', ')'] := rfl
  rw [hbody, hone]
  simp only [Option.map_some, Option.bind_some, compile_body, quad_expr]
  obtain ⟨r, hr⟩ := emit_ok lua op h.1 (dest_cell d) ⟨0, 0, []⟩
  refine ⟨r.2.ops, ?_⟩
  have hread : parse_expr (4 * [t, Token.op op.op, .lparen, .num 1 false, .rparen, .eof].length + 2)
      [t, .op op.op, .lparen, .num 1 false, .rparen, .eof] 0 =
      some (.binop op.op leaf (.num 1 false), [.eof]) := hparse
  rw [hread]
  simp only [bind, Except.bind, hr]
  rfl

/-- A compound assignment to a destination compiles as its long form, for every right-hand side,
exactly when it expands, and no plain assignment is rewritten. -/
theorem compound_assignment_iff (lua : LuaNumbers) (op : CompoundOp) (hd : Destination d) :
    ((∀ w₀ w₁ e : List Char, (∀ c ∈ w₀, isSpace c) → (∀ c ∈ w₁, isSpace c) → ∀ v scratch,
        quad_expr_str lua v scratch (compound_text w₀ d w₁ op e) =
          quad_expr_str lua v scratch (combined d op.text e)) ↔ Expands op d) ∧
    ∀ w₀ w₁ e : List Char, (∀ c ∈ w₀, isSpace c) → (∀ c ∈ w₁, isSpace c) →
      desugar_compound (w₀ ++ (d ++ (w₁ ++ '=' :: e))) = w₀ ++ (d ++ (w₁ ++ '=' :: e)) := by
  refine ⟨?_, fun w₀ w₁ e hw₀ hw₁ => desugar_plain hw₀ hw₁ hd⟩
  rcases destination_tokens hd with ⟨hwhole, t, leaf, hoperand⟩ | ⟨hdivided, hapart⟩
  · constructor
    · intro hsame
      obtain ⟨ops, hlong⟩ := long_form_compiles hd hoperand op lua
      have hblank : ∀ c ∈ ([] : List Char), isSpace c := by simp
      have hshort := hsame [] [] ['1'] hblank hblank anyVars []
      rw [hlong] at hshort
      rcases short_form hblank hblank hd op ['1'] lua anyVars [] with
        ⟨-, hnone⟩ | ⟨hname, w, e', -, -, hrewritten⟩
      · rw [hnone] at hshort
        cases hshort
      · refine Or.inl ⟨?_, hname⟩
        rintro rfl
        have hwritten : CompoundOp.mod.written = ['%', '%'] := rfl
        rw [hrewritten, operand_tokens hoperand, hwritten, List.cons_append, List.cons_append,
          List.nil_append, percent_tokens] at hshort
        cases htokens : tokens true (e' ++ [')']) with
        | none =>
          rw [htokens] at hshort
          cases hshort
        | some ts =>
          rw [htokens] at hshort
          exact absurd (hshort.symm.trans (compile_none (no_operator_twice hoperand.1 _))) nofun
    · rintro (⟨hmod, hname⟩ | hdivided)
      · intro w₀ w₁ e hw₀ hw₁ v scratch
        rw [combined_compiles hd, operand_tokens hoperand, operator_tokens]
        rcases short_form hw₀ hw₁ hd op e lua v scratch with
          ⟨rfl | ⟨hline, hhead⟩, hnone⟩ | ⟨-, w, e', rfl, hw, hrewritten⟩
        · -- without a right-hand side the long form has empty parentheses
          have hclose : tokens true ([] ++ [')']) = some [.rparen, .eof] := by decide
          rw [hnone, hclose]
          exact (compile_none (no_empty_parens hoperand.1 op _)).symm
        · exact absurd hname (not_or.mpr ⟨not_not.mpr hline, hhead⟩)
        · have hwritten : op.written = op.text := by
            cases op <;> first | rfl | exact absurd rfl hmod
          rw [hrewritten, operand_tokens hoperand, hwritten, operator_tokens, body_tokens hw]
      · exact absurd hdivided hwhole
  · refine iff_of_true (fun w₀ w₁ e hw₀ hw₁ v scratch => ?_) (Or.inr hdivided)
    rw [combined_compiles hd, apart_fails hapart]
    rcases short_form hw₀ hw₁ hd op e lua v scratch with ⟨-, hnone⟩ | ⟨-, w, e', -, -, hrewritten⟩
    · exact hnone
    · rw [hrewritten, apart_fails hapart]

end

theorem count_is_raised :
    quad_expr_str (lua_numbers 0) anyVars [] "count += 2".toList =
        quad_expr_str (lua_numbers 0) anyVars [] "count = count + ( 2)".toList ∧
      quad_expr_str (lua_numbers 0) anyVars [] "count += 2".toList =
        some [⟨.quad_iadd, .cell (.var "count"), .uint_val 2, .var "count"⟩] := by
  have hd : Destination "count".toList := .var (by decide) (List.all_eq_true.mp rfl)
  have hexpands : Expands .add "count".toList := Or.inl ⟨by decide, Or.inl (by decide)⟩
  have hsame := (compound_assignment_iff (lua_numbers 0) .add hd).1.mpr hexpands [] [' ']
    [' ', '2'] (by simp) (by simp [isSpace]) anyVars []
  exact ⟨hsame, by decide +kernel⟩

/-- The short form of a variable with an underscore is no statement, and a remainder is written
with two signs. -/
theorem underscore_is_not_rewritten :
    Destination "my_var".toList ∧
      quad_expr_str (lua_numbers 0) anyVars [] "my_var += 1".toList = none ∧
      quad_expr_str (lua_numbers 0) anyVars [] "my_var = my_var + (1)".toList =
        some [⟨.quad_iadd, .cell (.var "my_var"), .uint_val 1, .var "my_var"⟩] ∧
      desugar_compound "@x %= 2".toList = "@x = @x %% (2)".toList ∧
      quad_expr_str (lua_numbers 0) anyVars [] "@x %= 2".toList = none ∧
      quad_expr_str (lua_numbers 0) anyVars [] "@x = @x % (2)".toList =
        some [⟨.quad_imod, .cell (.field "x"), .uint_val 2, .field "x"⟩] :=
  ⟨.var (by decide) (List.all_eq_true.mp rfl), by decide +kernel, by decide +kernel, by decide +kernel,
    by decide +kernel, by decide +kernel⟩

end motioncore.equation
