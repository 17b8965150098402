-- The expressions of the equation compiler: tokens, the syntax tree, and the
-- parser by precedence climbing. The parser reads every expression of the C
-- grammar as C groups it. The argument follows a derivation, with the loop of
-- `parse_expr` as the continuation: what the loop makes of the tree and the rest,
-- the parser makes of the tokens.
import Mathlib.Tactic.Common

namespace motioncore.equation

/-! ## Tokens and trees -/

/-- The operator characters of the tokenizer. -/
inductive Op where
  | lor | land | bor | bxor | band
  | eq | ne | lt | le | gt | ge
  | shl | shr | add | sub | mul | div | mod
  | lnot | bnot | assign
deriving DecidableEq, Repr

/-- A token. Of a float literal the whole part is kept, which is all that an integer
read of it sees. -/
inductive Token where
  | num (value : Int) (is_float : Bool)
  | ident (name : String)
  | field (name : String)
  | op (op : Op)
  | lparen | rparen | comma | eof
deriving DecidableEq, Repr

inductive Func where
  | sqrt | abs | sin | cos | tan | asin | acos | atan | exp | log | log10 | log2
  | sinh | cosh | tanh | neg
  | min | max | pow | atan2
deriving DecidableEq, Repr

/-- The key of the function in the table of the source. -/
def Func.key : Func → String
  | .sqrt => "sqrt" | .abs => "abs" | .sin => "sin" | .cos => "cos" | .tan => "tan"
  | .asin => "asin" | .acos => "acos" | .atan => "atan" | .exp => "exp" | .log => "log"
  | .log10 => "log10" | .log2 => "log2" | .sinh => "sinh" | .cosh => "cosh" | .tanh => "tanh"
  | .neg => "neg" | .min => "min" | .max => "max" | .pow => "pow" | .atan2 => "atan2"

/-- `builtin_funcs`, by name. -/
def builtin_funcs (name : String) : Option Func :=
  [.sqrt, .abs, .sin, .cos, .tan, .asin, .acos, .atan, .exp, .log, .log10, .log2, .sinh, .cosh,
    .tanh, .neg, .min, .max, .pow, .atan2].find? fun f => f.key == name

def Func.arity : Func → Nat
  | .min | .max | .pow | .atan2 => 2
  | _ => 1

/-- The syntax tree. A call has the number of arguments that the parser let through. -/
inductive Ast where
  | num (value : Int) (is_float : Bool)
  | var (name : String)
  | field (name : String)
  | unop (op : Op) (operand : Ast)
  | binop (op : Op) (left right : Ast)
  | call1 (f : Func) (arg : Ast)
  | call2 (f : Func) (arg arg' : Ast)
deriving DecidableEq, Repr

/-- `op_info`: how strongly a binary operator binds. All of them are left-associative. -/
def op_info : Op → Option Nat
  | .lor => some 1
  | .land => some 2
  | .bor => some 3
  | .bxor => some 4
  | .band => some 5
  | .eq | .ne => some 6
  | .lt | .le | .gt | .ge => some 7
  | .shl | .shr => some 8
  | .add | .sub => some 9
  | .mul | .div | .mod => some 10
  | .lnot | .bnot | .assign => none

/-- The operators that stand before their operand. -/
def isUnary : Op → Bool
  | .sub | .lnot | .bnot => true
  | _ => false

/-! ## The parser -/

/-- What a call with these arguments is, when the function exists and takes as many. -/
def callNode (name : String) (args : List Ast) : Option Ast :=
  match builtin_funcs name, args with
  | some f, [a] => if f.arity = 1 then some (.call1 f a) else none
  | some f, [a, b] => if f.arity = 2 then some (.call2 f a b) else none
  | _, _ => none

mutual

/-- One operand. `none` stands for every error of the parser. -/
def parse_primary : Nat → List Token → Option (Ast × List Token)
  | 0, _ => none
  | _ + 1, .num v is_float :: ts => some (.num v is_float, ts)
  | _ + 1, .field name :: ts => some (.field name, ts)
  | fuel + 1, .ident name :: .lparen :: ts => do
    let (args, ts) ← parse_args fuel ts
    let call ← callNode name args
    return (call, ts)
  | _ + 1, .ident name :: ts => some (.var name, ts)
  | fuel + 1, .lparen :: ts => do
    let (e, ts) ← parse_expr fuel ts 0
    match ts with
    | .rparen :: ts => return (e, ts)
    | _ => none
  | fuel + 1, .op op :: ts =>
    if isUnary op then do
      let (operand, ts) ← parse_expr fuel ts 11
      return (.unop op operand, ts)
    else none
  | _ + 1, _ => none

/-- The arguments of a call and the parenthesis that closes it. -/
def parse_args : Nat → List Token → Option (List Ast × List Token)
  | 0, _ => none
  | _ + 1, .rparen :: ts => some ([], ts)
  | fuel + 1, ts => parse_more fuel ts

/-- One argument, and the others behind commas. -/
def parse_more : Nat → List Token → Option (List Ast × List Token)
  | 0, _ => none
  | fuel + 1, ts => do
    let (arg, ts) ← parse_expr fuel ts 0
    match ts with
    | .comma :: ts => do
      let (args, ts) ← parse_more fuel ts
      return (arg :: args, ts)
    | .rparen :: ts => return ([arg], ts)
    | _ => none

/-- An expression whose operators bind at least as strongly as `min_prec`. -/
def parse_expr : Nat → List Token → Nat → Option (Ast × List Token)
  | 0, _, _ => none
  | fuel + 1, ts, min_prec => do
    let (left, ts) ← parse_primary fuel ts
    parse_loop fuel left ts min_prec

/-- The loop of `parse_expr`: one more operator and its right operand. -/
def parse_loop : Nat → Ast → List Token → Nat → Option (Ast × List Token)
  | 0, _, _, _ => none
  | fuel + 1, left, .op op :: ts, min_prec =>
    match op_info op with
    | none => some (left, .op op :: ts)
    | some prec =>
      if prec < min_prec then some (left, .op op :: ts)
      else do
        let (right, ts) ← parse_expr fuel ts (prec + 1)
        parse_loop fuel (.binop op left right) ts min_prec
  | _ + 1, left, ts, _ => some (left, ts)

end

/-! ## The grammar of C -/

/-- The binary operators of C, from the weakest to the strongest. -/
def cLevels : List (List Op) :=
  [[.lor], [.land], [.bor], [.bxor], [.band], [.eq, .ne], [.lt, .le, .gt, .ge], [.shl, .shr],
    [.add, .sub], [.mul, .div, .mod]]

/-- Where the operator stands among the levels, counted from one. -/
def cLevel (op : Op) : Option Nat := (cLevels.findIdx? fun l => op ∈ l).map (· + 1)

/-- The table of the source ranks the operators as C does. -/
theorem op_info_is_c_level (op : Op) : op_info op = cLevel op := by
  cases op <;> rfl

/-- The tokens are an expression of the level: its outermost binary operator, outside
parentheses, is of that level or of a stronger one. Level 11 holds the operands. The
left operand of an operator may be of the same level, the right one may not. -/
inductive Derives : Nat → List Token → Ast → Prop where
  | num (n : Nat) (v : Int) (is_float : Bool) : Derives n [.num v is_float] (.num v is_float)
  | var (n : Nat) (name : String) : Derives n [.ident name] (.var name)
  | field (n : Nat) (name : String) : Derives n [.field name] (.field name)
  | paren (n : Nat) {ts : List Token} {e : Ast} :
      Derives 0 ts e → Derives n (.lparen :: ts ++ [.rparen]) e
  | unop (n : Nat) {op : Op} {ts : List Token} {e : Ast} :
      isUnary op → Derives 11 ts e → Derives n (.op op :: ts) (.unop op e)
  | call1 (n : Nat) {name : String} {f : Func} {ts : List Token} {e : Ast} :
      builtin_funcs name = some f → f.arity = 1 → Derives 0 ts e →
      Derives n (.ident name :: .lparen :: ts ++ [.rparen]) (.call1 f e)
  | call2 (n : Nat) {name : String} {f : Func} {ts ts' : List Token} {e e' : Ast} :
      builtin_funcs name = some f → f.arity = 2 → Derives 0 ts e → Derives 0 ts' e' →
      Derives n (.ident name :: .lparen :: ts ++ .comma :: (ts' ++ [.rparen])) (.call2 f e e')
  | binop {n p : Nat} {op : Op} {ts ts' : List Token} {e e' : Ast} :
      cLevel op = some p → n ≤ p → Derives p ts e → Derives (p + 1) ts' e' →
      Derives n (ts ++ .op op :: ts') (.binop op e e')

/-! ## Fuel -/

/-- Each part of the parser reads with one more unit of fuel what it reads with `fuel`. -/
structure MoreFuel (fuel : Nat) : Prop where
  primary : ∀ {ts r}, parse_primary fuel ts = some r → parse_primary (fuel + 1) ts = some r
  args : ∀ {ts r}, parse_args fuel ts = some r → parse_args (fuel + 1) ts = some r
  more : ∀ {ts r}, parse_more fuel ts = some r → parse_more (fuel + 1) ts = some r
  expr : ∀ {ts m r}, parse_expr fuel ts m = some r → parse_expr (fuel + 1) ts m = some r
  loop : ∀ {e ts m r}, parse_loop fuel e ts m = some r → parse_loop (fuel + 1) e ts m = some r

variable {fuel : Nat} {ts : List Token} {r : Ast × List Token}

theorem primary_succ (ih : MoreFuel fuel) (h : parse_primary (fuel + 1) ts = some r) :
    parse_primary (fuel + 2) ts = some r := by
  rcases ts with _ | ⟨t, ts⟩
  · exact h
  cases t with
  | num | field | rparen | comma | eof => exact h
  | ident name =>
    rcases ts with _ | ⟨t, ts⟩
    · exact h
    cases t with
    | num | field | ident | op | rparen | comma | eof => exact h
    | lparen =>
      simp only [parse_primary, Option.bind_eq_bind, Option.bind_eq_some_iff] at h ⊢
      obtain ⟨args, hargs, hcall⟩ := h
      exact ⟨args, ih.args hargs, hcall⟩
  | lparen =>
    simp only [parse_primary, Option.bind_eq_bind, Option.bind_eq_some_iff] at h ⊢
    obtain ⟨e, he, hclose⟩ := h
    exact ⟨e, ih.expr he, hclose⟩
  | op op =>
    simp only [parse_primary] at h ⊢
    split at h
    · rename_i hun
      simp only [hun, if_true, Option.bind_eq_bind, Option.bind_eq_some_iff] at h ⊢
      obtain ⟨e, he, hr⟩ := h
      exact ⟨e, ih.expr he, hr⟩
    · cases h

theorem args_succ (ih : MoreFuel fuel) {r : List Ast × List Token}
    (h : parse_args (fuel + 1) ts = some r) : parse_args (fuel + 2) ts = some r := by
  rcases ts with _ | ⟨t, ts⟩
  · exact ih.more h
  cases t with
  | rparen => exact h
  | num | ident | field | op | lparen | comma | eof => exact ih.more h

theorem more_succ (ih : MoreFuel fuel) {r : List Ast × List Token}
    (h : parse_more (fuel + 1) ts = some r) : parse_more (fuel + 2) ts = some r := by
  rw [parse_more] at h ⊢
  simp only [Option.bind_eq_bind, Option.bind_eq_some_iff] at h ⊢
  obtain ⟨⟨arg, rest⟩, harg, hrest⟩ := h
  refine ⟨(arg, rest), ih.expr harg, ?_⟩
  rcases rest with _ | ⟨t, rest⟩
  · exact hrest
  cases t with
  | num | ident | field | op | lparen | rparen | eof => exact hrest
  | comma =>
    simp only [Option.bind_eq_some_iff] at hrest ⊢
    obtain ⟨args, hargs, hr⟩ := hrest
    exact ⟨args, ih.more hargs, hr⟩

variable {e : Ast} {m : Nat}

theorem loop_succ (ih : MoreFuel fuel) (h : parse_loop (fuel + 1) e ts m = some r) :
    parse_loop (fuel + 2) e ts m = some r := by
  rcases ts with _ | ⟨t, ts⟩
  · exact h
  cases t with
  | num | ident | field | lparen | rparen | comma | eof => exact h
  | op op =>
    rcases hop : op_info op with _ | p
    · simp only [parse_loop, hop] at h ⊢
      exact h
    · simp only [parse_loop, hop] at h ⊢
      split at h
      · rename_i hlt
        simp only [hlt, if_true]
        exact h
      · rename_i hle
        simp only [hle, if_false, Option.bind_eq_bind, Option.bind_eq_some_iff] at h ⊢
        obtain ⟨right, hright, hr⟩ := h
        exact ⟨right, ih.expr hright, ih.loop hr⟩

theorem moreFuel (fuel : Nat) : MoreFuel fuel := by
  induction fuel with
  | zero =>
    constructor
    · intro ts r h
      simp [parse_primary] at h
    · intro ts r h
      simp [parse_args] at h
    · intro ts r h
      simp [parse_more] at h
    · intro ts m r h
      simp [parse_expr] at h
    · intro e ts m r h
      simp [parse_loop] at h
  | succ fuel ih =>
    refine ⟨primary_succ ih, args_succ ih, more_succ ih, ?_, loop_succ ih⟩
    intro ts m r h
    simp only [parse_expr, Option.bind_eq_bind, Option.bind_eq_some_iff] at h ⊢
    obtain ⟨left, hleft, hr⟩ := h
    exact ⟨left, ih.primary hleft, ih.loop hr⟩

variable {fuel' : Nat}

theorem parse_expr_le (hle : fuel ≤ fuel') (h : parse_expr fuel ts m = some r) :
    parse_expr fuel' ts m = some r := by
  induction hle with
  | refl => exact h
  | step _ ih => exact (moreFuel _).expr ih

theorem parse_loop_le (hle : fuel ≤ fuel') (h : parse_loop fuel e ts m = some r) :
    parse_loop fuel' e ts m = some r := by
  induction hle with
  | refl => exact h
  | step _ ih => exact (moreFuel _).loop ih

theorem parse_primary_le (hle : fuel ≤ fuel') (h : parse_primary fuel ts = some r) :
    parse_primary fuel' ts = some r := by
  induction hle with
  | refl => exact h
  | step _ ih => exact (moreFuel _).primary ih

theorem parse_more_le (hle : fuel ≤ fuel') {r : List Ast × List Token}
    (h : parse_more fuel ts = some r) : parse_more fuel' ts = some r := by
  induction hle with
  | refl => exact h
  | step _ ih => exact (moreFuel _).more ih

/-- The fuel decides whether the parser answers, never what. -/
theorem parse_expr_unique {r' : Ast × List Token} (h : parse_expr fuel ts m = some r)
    (h' : parse_expr fuel' ts m = some r') : r = r' := by
  have hr := parse_expr_le (Nat.le_max_left fuel fuel') h
  have hr' := parse_expr_le (Nat.le_max_right fuel fuel') h'
  exact Option.some.inj (hr.symm.trans hr')

/-! ## Derivations -/

/-- What may follow an expression of level `n`: no operator that binds more strongly,
and no opening parenthesis. -/
def Follows (n : Nat) : List Token → Prop
  | .op op :: _ => ∀ p, op_info op = some p → p ≤ n
  | .lparen :: _ => False
  | _ => True

variable {n : Nat}

theorem Follows.mono {n' : Nat} (hle : n ≤ n') (h : Follows n ts) : Follows n' ts := by
  rcases ts with _ | ⟨t, ts⟩
  · trivial
  cases t with
  | op op => exact fun p hp => Nat.le_trans (h p hp) hle
  | lparen => exact h
  | num | ident | field | rparen | comma | eof => trivial

theorem op_info_le {op : Op} {p : Nat} (h : op_info op = some p) : p ≤ 10 := by
  cases op <;> simp [op_info] at h <;> omega

/-- No binary operator binds as strongly as an operand. -/
theorem Follows.at_operand (h : Follows n ts) : Follows 10 ts := by
  rcases ts with _ | ⟨t, ts⟩
  · trivial
  cases t with
  | op op => exact fun p hp => op_info_le hp
  | lparen => exact h
  | num | ident | field | rparen | comma | eof => trivial

theorem parse_loop_stops (hlt : n < m) (e : Ast) (h : Follows n ts) :
    parse_loop 1 e ts m = some (e, ts) := by
  rcases ts with _ | ⟨t, ts⟩
  · rfl
  cases t with
  | num | ident | field | lparen | rparen | comma | eof => rfl
  | op op =>
    rcases hop : op_info op with _ | p
    · simp [parse_loop, hop]
    · have hp : p < m := Nat.lt_of_le_of_lt (h p hop) hlt
      simp [parse_loop, hop, hp]

variable {rest : List Token}

theorem parse_expr_of_primary (hprimary : parse_primary fuel ts = some (e, rest))
    (hloop : parse_loop fuel' e rest m = some r) : ∃ f, parse_expr f ts m = some r := by
  refine ⟨max fuel fuel' + 1, ?_⟩
  rw [parse_expr, parse_primary_le (Nat.le_max_left fuel fuel') hprimary]
  exact parse_loop_le (Nat.le_max_right fuel fuel') hloop

/-- An operator that is strong enough and its right operand, then the loop. -/
theorem parse_loop_of_operator {left right : Ast} {op : Op} {p : Nat} (hop : op_info op = some p)
    (hle : m ≤ p) (hright : parse_expr fuel ts (p + 1) = some (right, rest))
    (hloop : parse_loop fuel' (.binop op left right) rest m = some r) :
    ∃ f, parse_loop f left (.op op :: ts) m = some r := by
  refine ⟨max fuel fuel' + 1, ?_⟩
  have hm : ¬ p < m := Nat.not_lt.mpr hle
  simp only [parse_loop, hop, hm, if_false]
  rw [parse_expr_le (Nat.le_max_left fuel fuel') hright]
  exact parse_loop_le (Nat.le_max_right fuel fuel') hloop

theorem parse_more_last (h : parse_expr fuel ts 0 = some (e, .rparen :: rest)) :
    parse_more (fuel + 1) ts = some ([e], rest) := by
  rw [parse_more, h]
  rfl

theorem parse_more_next {ts' : List Token} {es : List Ast}
    (h : parse_expr fuel ts 0 = some (e, .comma :: ts'))
    (hmore : parse_more fuel' ts' = some (es, rest)) :
    parse_more (max fuel fuel' + 1) ts = some (e :: es, rest) := by
  rw [parse_more, parse_expr_le (Nat.le_max_left fuel fuel') h]
  simp only [Option.bind_eq_bind, Option.bind_some]
  rw [parse_more_le (Nat.le_max_right fuel fuel') hmore]
  rfl

/-- Arguments that start with an expression are no closing parenthesis. -/
theorem parse_args_of_more {r : List Ast × List Token} (h : parse_more fuel ts = some r)
    (hstart : ∀ rest, ts ≠ .rparen :: rest) : parse_args (fuel + 1) ts = some r := by
  rcases ts with _ | ⟨t, ts⟩
  · exact h
  cases t with
  | rparen => exact absurd rfl (hstart ts)
  | num | ident | field | op | lparen | comma | eof => exact h

theorem derives_starts (h : Derives n ts e) (more rest : List Token) :
    ts ++ more ≠ .rparen :: rest := by
  induction h generalizing more with
  | num | var | field | paren | unop | call1 | call2 => simp
  | binop _ _ _ _ ih _ =>
    rw [List.append_assoc]
    exact ih _

theorem parser_follows_derivation (h : Derives n ts e) :
    ∀ m ≤ n, ∀ rest r, Follows n rest → (∃ f, parse_loop f e rest m = some r) →
      ∃ f, parse_expr f (ts ++ rest) m = some r := by
  induction h with
  | num n v is_float =>
    rintro m - rest r - ⟨f, hloop⟩
    have hprimary : parse_primary 1 ([Token.num v is_float] ++ rest) = some (.num v is_float, rest) := rfl
    exact parse_expr_of_primary hprimary hloop
  | var n name =>
    rintro m - rest r hrest ⟨f, hloop⟩
    have hprimary : parse_primary 1 ([.ident name] ++ rest) = some (.var name, rest) := by
      rcases rest with _ | ⟨t, rest⟩
      · rfl
      cases t with
      | lparen => exact hrest.elim
      | num | ident | field | op | rparen | comma | eof => rfl
    exact parse_expr_of_primary hprimary hloop
  | field n name =>
    rintro m - rest r - ⟨f, hloop⟩
    have hprimary : parse_primary 1 ([.field name] ++ rest) = some (.field name, rest) := rfl
    exact parse_expr_of_primary hprimary hloop
  | @paren n ts e _ ih =>
    rintro m - rest r - ⟨f, hloop⟩
    obtain ⟨g, hg⟩ := ih 0 (Nat.le_refl 0) (.rparen :: rest) (e, .rparen :: rest) trivial
      ⟨1, rfl⟩
    have hprimary : parse_primary (g + 1) (.lparen :: (ts ++ .rparen :: rest)) = some (e, rest) := by
      rw [parse_primary, hg]
      rfl
    simp only [List.cons_append, List.append_assoc, List.nil_append]
    exact parse_expr_of_primary hprimary hloop
  | @unop n op ts e hun _ ih =>
    rintro m - rest r hrest ⟨f, hloop⟩
    obtain ⟨g, hg⟩ := ih 11 (Nat.le_refl 11) rest (e, rest) (hrest.at_operand.mono (by decide))
      ⟨1, parse_loop_stops (by decide) e hrest.at_operand⟩
    have hprimary : parse_primary (g + 1) (.op op :: (ts ++ rest)) = some (.unop op e, rest) := by
      simp only [parse_primary, hun, if_true]
      rw [hg]
      rfl
    exact parse_expr_of_primary hprimary hloop
  | @call1 n name f ts e hname harity hts ih =>
    rintro m - rest r - ⟨f', hloop⟩
    obtain ⟨g, hg⟩ := ih 0 (Nat.le_refl 0) (.rparen :: rest) (e, .rparen :: rest) trivial
      ⟨1, rfl⟩
    have hargs : parse_args (g + 2) (ts ++ .rparen :: rest) = some ([e], rest) :=
      parse_args_of_more (parse_more_last hg) (derives_starts hts _)
    have hprimary : parse_primary (g + 3) (.ident name :: .lparen :: (ts ++ .rparen :: rest)) =
        some (.call1 f e, rest) := by
      rw [parse_primary, hargs]
      simp [callNode, hname, harity]
    simp only [List.cons_append, List.append_assoc, List.nil_append]
    exact parse_expr_of_primary hprimary hloop
  | @call2 n name f ts ts' e e' hname harity hts _ ih ih' =>
    rintro m - rest r - ⟨f', hloop⟩
    obtain ⟨g', hg'⟩ := ih' 0 (Nat.le_refl 0) (.rparen :: rest) (e', .rparen :: rest) trivial
      ⟨1, rfl⟩
    obtain ⟨g, hg⟩ := ih 0 (Nat.le_refl 0) (.comma :: (ts' ++ .rparen :: rest))
      (e, .comma :: (ts' ++ .rparen :: rest)) trivial ⟨1, rfl⟩
    have hargs := parse_args_of_more (parse_more_next hg (parse_more_last hg'))
      (derives_starts hts _)
    have hprimary : parse_primary (max g (g' + 1) + 3)
        (.ident name :: .lparen :: (ts ++ .comma :: (ts' ++ .rparen :: rest))) =
        some (.call2 f e e', rest) := by
      rw [parse_primary, hargs]
      simp [callNode, hname, harity]
    simp only [List.cons_append, List.append_assoc, List.nil_append]
    exact parse_expr_of_primary hprimary hloop
  | @binop n p op ts ts' e e' hop hle _ _ ih ih' =>
    rintro m hm rest r hrest ⟨f, hloop⟩
    rw [← op_info_is_c_level] at hop
    have hfollows : Follows p rest := hrest.mono hle
    -- the right operand stops at the first operator of the level of `op`
    obtain ⟨g, hg⟩ := ih' (p + 1) (Nat.le_refl _) rest (e', rest) (hfollows.mono (Nat.le_succ p))
      ⟨1, parse_loop_stops (Nat.lt_succ_self p) e' hfollows⟩
    have hmp : m ≤ p := Nat.le_trans hm hle
    have hop' : Follows p (.op op :: (ts' ++ rest)) := by
      intro q hq
      rw [hop, Option.some.injEq] at hq
      exact Nat.le_of_eq hq.symm
    rw [List.append_assoc, List.cons_append]
    exact ih m hmp _ r hop' (parse_loop_of_operator hop hmp hg hloop)

/-- The parser reads an expression of the grammar, up to the end of the tokens. -/
theorem parser_reads_c_expressions (h : Derives 0 ts e) :
    ∃ fuel, parse_expr fuel (ts ++ [.eof]) 0 = some (e, [.eof]) :=
  parser_follows_derivation h 0 (Nat.le_refl 0) [.eof] (e, [.eof]) trivial ⟨1, rfl⟩

end motioncore.equation
