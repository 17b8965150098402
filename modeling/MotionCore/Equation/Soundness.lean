-- What the parser reads is an expression of the grammar, and a number of steps that goes by the
-- tokens is enough for it. So the parser with that many steps decides the grammar.
import MotionCore.Equation.Syntax

namespace motioncore.equation

/-! ## What is read is derived -/

variable {ts : List Token} {e : Ast}

theorem Derives.mono {n n' : Nat} (h : Derives n ts e) (hle : n' ≤ n) : Derives n' ts e := by
  cases h with
  | num _ v is_float => exact .num _ v is_float
  | var _ name => exact .var _ name
  | field _ name => exact .field _ name
  | paren _ he => exact .paren _ he
  | unop _ hop he => exact .unop _ hop he
  | call1 _ hname hf he => exact .call1 _ hname hf he
  | call2 _ hname hf he he' => exact .call2 _ hname hf he he'
  | binop hop hp hl hr => exact .binop hop (Nat.le_trans hle hp) hl hr

theorem Derives.ne_nil {n : Nat} (h : Derives n ts e) : ts ≠ [] := by
  cases h <;> simp

/-- The arguments of a call, up to the parenthesis that closes it. -/
inductive ArgsDerive : List Token → List Ast → Prop
  | last {ts : List Token} {e : Ast} : Derives 0 ts e → ArgsDerive (ts ++ [.rparen]) [e]
  | next {ts ts' : List Token} {e : Ast} {es : List Ast} : Derives 0 ts e → ArgsDerive ts' es →
      ArgsDerive (ts ++ .comma :: ts') (e :: es)

variable {es : List Ast}

theorem ArgsDerive.ne_nil (h : ArgsDerive ts es) : ts ≠ [] ∧ es ≠ [] := by
  cases h <;> simp

/-- The tokens do not go on with an operator of the level `m` or of a stronger one. -/
def Stops (m : Nat) : List Token → Prop
  | .op op :: _ => ∀ p, op_info op = some p → p < m
  | _ => True

/-- What each part of the parser reads with `fuel` is derived. -/
structure Reads (fuel : Nat) : Prop where
  primary : ∀ {ts e rest}, parse_primary fuel ts = some (e, rest) →
    ∃ ts', ts = ts' ++ rest ∧ ∀ n, Derives n ts' e
  args : ∀ {ts es rest}, parse_args fuel ts = some (es, rest) →
    (ts = .rparen :: rest ∧ es = []) ∨ ∃ ts', ts = ts' ++ rest ∧ ArgsDerive ts' es
  more : ∀ {ts es rest}, parse_more fuel ts = some (es, rest) →
    ∃ ts', ts = ts' ++ rest ∧ ArgsDerive ts' es
  expr : ∀ {ts m e rest}, parse_expr fuel ts m = some (e, rest) →
    ∃ ts', ts = ts' ++ rest ∧ Derives m ts' e ∧ Stops m rest
  loop : ∀ {left ts m e rest before p}, parse_loop fuel left ts m = some (e, rest) →
    Derives p before left → m ≤ p → Stops (p + 1) ts →
    ∃ ts', ts = ts' ++ rest ∧ Derives m (before ++ ts') e ∧ Stops m rest

/-- A call with its arguments is derived when the function takes that many. -/
theorem call_derived {name : String} (hargs : ArgsDerive ts es) (hcall : callNode name es = some e)
    (n : Nat) : Derives n (.ident name :: .lparen :: ts) e := by
  unfold callNode at hcall
  split at hcall
  · next f a hname =>
    split at hcall
    · next hf =>
      cases hcall
      cases hargs with
      | last he => exact .call1 n hname hf he
      | next _ hmore => exact absurd rfl hmore.ne_nil.2
    · cases hcall
  · next f a b hname =>
    split at hcall
    · next hf =>
      cases hcall
      cases hargs with
      | next he hmore =>
        cases hmore with
        | last he' => exact .call2 n hname hf he he'
        | next _ hmore => exact absurd rfl hmore.ne_nil.2
    · cases hcall
  · cases hcall

variable {fuel : Nat} {rest : List Token}

theorem primary_reads (ih : Reads fuel) (h : parse_primary (fuel + 1) ts = some (e, rest)) :
    ∃ ts', ts = ts' ++ rest ∧ ∀ n, Derives n ts' e := by
  rcases ts with _ | ⟨t, ts⟩
  · cases h
  have hvar : ∀ {name : String}, t = .ident name → e = .var name → rest = ts →
      ∃ ts', t :: ts = ts' ++ rest ∧ ∀ n, Derives n ts' e := by
    rintro name rfl rfl rfl
    exact ⟨[.ident name], rfl, fun n => .var n name⟩
  cases t with
  | num v is_float =>
    cases h
    exact ⟨[.num v is_float], rfl, fun n => .num n v is_float⟩
  | field name =>
    cases h
    exact ⟨[.field name], rfl, fun n => .field n name⟩
  | rparen | comma | eof => cases h
  | ident name =>
    rcases ts with _ | ⟨t, ts⟩
    · cases h
      exact hvar rfl rfl rfl
    cases t with
    | num | field | ident | op | rparen | comma | eof =>
      cases h
      exact hvar rfl rfl rfl
    | lparen =>
      simp only [parse_primary, Option.bind_eq_bind, Option.bind_eq_some_iff] at h
      obtain ⟨⟨es, ts'⟩, hargs, call, hcall, hr⟩ := h
      cases hr
      rcases ih.args hargs with ⟨-, rfl⟩ | ⟨inner, rfl, hderives⟩
      · unfold callNode at hcall
        split at hcall
        · next heq => cases heq
        · next heq => cases heq
        · cases hcall
      · exact ⟨.ident name :: .lparen :: inner, rfl, call_derived hderives hcall⟩
  | lparen =>
    simp only [parse_primary, Option.bind_eq_bind, Option.bind_eq_some_iff] at h
    obtain ⟨⟨e', ts'⟩, he, hclose⟩ := h
    obtain ⟨inner, rfl, hderives, -⟩ := ih.expr he
    rcases ts' with _ | ⟨t, ts'⟩
    · cases hclose
    cases t with
    | num | field | ident | op | lparen | comma | eof => cases hclose
    | rparen =>
      cases hclose
      exact ⟨.lparen :: inner ++ [.rparen], by simp, fun n => .paren n hderives⟩
  | op op =>
    simp only [parse_primary] at h
    split at h
    · next hun =>
      simp only [Option.bind_eq_bind, Option.bind_eq_some_iff] at h
      obtain ⟨⟨operand, ts'⟩, he, hr⟩ := h
      cases hr
      obtain ⟨inner, rfl, hderives, -⟩ := ih.expr he
      exact ⟨.op op :: inner, rfl, fun n => .unop n hun hderives⟩
    · cases h

theorem more_reads (ih : Reads fuel) (h : parse_more (fuel + 1) ts = some (es, rest)) :
    ∃ ts', ts = ts' ++ rest ∧ ArgsDerive ts' es := by
  rw [parse_more] at h
  simp only [Option.bind_eq_bind, Option.bind_eq_some_iff] at h
  obtain ⟨⟨arg, ts'⟩, harg, hmore⟩ := h
  obtain ⟨first, rfl, hderives, -⟩ := ih.expr harg
  rcases ts' with _ | ⟨t, ts'⟩
  · cases hmore
  cases t with
  | num | ident | field | op | lparen | eof => cases hmore
  | rparen =>
    cases hmore
    exact ⟨first ++ [Token.rparen], by simp, .last hderives⟩
  | comma =>
    simp only [Option.bind_eq_some_iff] at hmore
    obtain ⟨⟨args, ts''⟩, hargs, hr⟩ := hmore
    cases hr
    obtain ⟨others, rfl, hothers⟩ := ih.more hargs
    exact ⟨first ++ .comma :: others, by simp, .next hderives hothers⟩

variable {m : Nat}

/-- One turn of the loop: the operator is as strong as asked for and no stronger than the tree on
its left, and its right operand ends at an operator that is no stronger either. -/
theorem loop_reads (ih : Reads fuel) {left : Ast} {before : List Token} {p : Nat}
    (h : parse_loop (fuel + 1) left ts m = some (e, rest)) (hleft : Derives p before left)
    (hm : m ≤ p) (hstops : Stops (p + 1) ts) :
    ∃ ts', ts = ts' ++ rest ∧ Derives m (before ++ ts') e ∧ Stops m rest := by
  have hend : some (left, ts) = some (e, rest) → Stops m ts →
      ∃ ts', ts = ts' ++ rest ∧ Derives m (before ++ ts') e ∧ Stops m rest := by
    rintro heq hends
    cases heq
    exact ⟨[], rfl, by simpa using hleft.mono hm, hends⟩
  rcases ts with _ | ⟨t, ts⟩
  · exact hend h trivial
  cases t with
  | num | ident | field | lparen | rparen | comma | eof => exact hend h trivial
  | op op =>
    rcases hop : op_info op with _ | q
    · simp only [parse_loop, hop] at h
      refine hend h fun q' hq' => ?_
      rw [hop] at hq'
      cases hq'
    · simp only [parse_loop, hop] at h
      split at h
      · next hlt =>
        refine hend h fun q' hq' => ?_
        rw [hop] at hq'
        cases hq'
        exact hlt
      · next hge =>
        simp only [Option.bind_eq_bind, Option.bind_eq_some_iff] at h
        obtain ⟨⟨right, ts'⟩, hright, hloop⟩ := h
        obtain ⟨operand, rfl, hoperand, hnext⟩ := ih.expr hright
        have hq : q < p + 1 := hstops q hop
        have hlevel : cLevel op = some q := (op_info_is_c_level op).symm.trans hop
        have hnode : Derives q (before ++ .op op :: operand) (.binop op left right) :=
          .binop hlevel (Nat.le_refl q) (hleft.mono (Nat.le_of_lt_succ hq)) hoperand
        obtain ⟨others, rfl, hothers, hrest⟩ := ih.loop hloop hnode (Nat.not_lt.mp hge) hnext
        exact ⟨.op op :: (operand ++ others), by simp, by simpa using hothers, hrest⟩

theorem stops_above (ts : List Token) : Stops 11 ts := by
  rcases ts with _ | ⟨t, ts⟩
  · trivial
  cases t with
  | num | ident | field | lparen | rparen | comma | eof => trivial
  | op op => exact fun p hp => Nat.lt_succ_of_le (op_info_le hp)

theorem Stops.mono {m' : Nat} (h : Stops m ts) (hle : m ≤ m') : Stops m' ts := by
  rcases ts with _ | ⟨t, ts⟩
  · trivial
  cases t with
  | num | ident | field | lparen | rparen | comma | eof => trivial
  | op op => exact fun p hp => Nat.lt_of_lt_of_le (h p hp) hle

theorem reads (fuel : Nat) : Reads fuel := by
  induction fuel with
  | zero =>
    constructor
    · intro ts e rest h
      simp [parse_primary] at h
    · intro ts es rest h
      simp [parse_args] at h
    · intro ts es rest h
      simp [parse_more] at h
    · intro ts m e rest h
      simp [parse_expr] at h
    · intro left ts m e rest before p h
      simp [parse_loop] at h
  | succ fuel ih =>
    refine ⟨primary_reads ih, ?_, more_reads ih, ?_, loop_reads ih⟩
    · intro ts es rest h
      have hmore : parse_more fuel ts = some (es, rest) →
          (ts = .rparen :: rest ∧ es = []) ∨ ∃ ts', ts = ts' ++ rest ∧ ArgsDerive ts' es :=
        fun h => Or.inr (ih.more h)
      rcases ts with _ | ⟨t, ts⟩
      · exact hmore h
      cases t with
      | num | ident | field | op | lparen | comma | eof => exact hmore h
      | rparen =>
        cases h
        exact Or.inl ⟨rfl, rfl⟩
    · intro ts m e rest h
      simp only [parse_expr, Option.bind_eq_bind, Option.bind_eq_some_iff] at h
      obtain ⟨⟨left, ts'⟩, hleft, hloop⟩ := h
      obtain ⟨before, rfl, hbefore⟩ := ih.primary hleft
      obtain ⟨others, rfl, hothers, hrest⟩ := ih.loop hloop (hbefore (max m 11))
        (Nat.le_max_left m 11)
        ((stops_above ts').mono (Nat.le_succ_of_le (Nat.le_max_right m 11)))
      exact ⟨before ++ others, by simp, hothers, hrest⟩

/-! ## Enough fuel -/

theorem parse_args_le {fuel' : Nat} (hle : fuel ≤ fuel') {r : List Ast × List Token}
    (h : parse_args fuel ts = some r) : parse_args fuel' ts = some r := by
  induction hle with
  | refl => exact h
  | step _ ih => exact (moreFuel _).args ih

/-- What each part of the parser reads with `fuel`, it reads with four steps for each token. -/
structure Bounded (fuel : Nat) : Prop where
  primary : ∀ {ts r}, parse_primary fuel ts = some r →
    parse_primary (4 * ts.length + 1) ts = some r
  args : ∀ {ts r}, parse_args fuel ts = some r → parse_args (4 * ts.length + 4) ts = some r
  more : ∀ {ts r}, parse_more fuel ts = some r → parse_more (4 * ts.length + 3) ts = some r
  expr : ∀ {ts m r}, parse_expr fuel ts m = some r → parse_expr (4 * ts.length + 2) ts m = some r
  loop : ∀ {e ts m r}, parse_loop fuel e ts m = some r →
    parse_loop (4 * ts.length + 1) e ts m = some r

theorem primary_bounded (ih : Bounded fuel) {r : Ast × List Token}
    (h : parse_primary (fuel + 1) ts = some r) : parse_primary (4 * ts.length + 1) ts = some r := by
  rcases ts with _ | ⟨t, ts⟩
  · exact h
  cases t with
  | num | field | rparen | comma | eof => exact h
  | ident name =>
    rcases ts with _ | ⟨t, ts⟩
    · exact h
    cases t with
    | num | field | ident | op | rparen | comma | eof => exact h
    | lparen =>
      simp only [parse_primary, Option.bind_eq_bind, Option.bind_eq_some_iff] at h ⊢
      obtain ⟨args, hargs, hcall⟩ := h
      exact ⟨args, parse_args_le (by simp only [List.length_cons]; omega) (ih.args hargs), hcall⟩
  | lparen =>
    simp only [parse_primary, Option.bind_eq_bind, Option.bind_eq_some_iff] at h ⊢
    obtain ⟨e, he, hclose⟩ := h
    exact ⟨e, parse_expr_le (by simp only [List.length_cons]; omega) (ih.expr he), hclose⟩
  | op op =>
    simp only [parse_primary] at h ⊢
    split at h
    · rename_i hun
      simp only [hun, if_true, Option.bind_eq_bind, Option.bind_eq_some_iff] at h ⊢
      obtain ⟨e, he, hr⟩ := h
      exact ⟨e, parse_expr_le (by simp only [List.length_cons]; omega) (ih.expr he), hr⟩
    · cases h

theorem more_bounded (ih : Bounded fuel) {r : List Ast × List Token}
    (h : parse_more (fuel + 1) ts = some r) : parse_more (4 * ts.length + 3) ts = some r := by
  rw [parse_more] at h ⊢
  simp only [Option.bind_eq_bind, Option.bind_eq_some_iff] at h ⊢
  obtain ⟨⟨arg, rest⟩, harg, hrest⟩ := h
  refine ⟨(arg, rest), ih.expr harg, ?_⟩
  obtain ⟨first, rfl, -, -⟩ := (reads fuel).expr harg
  rcases rest with _ | ⟨t, rest⟩
  · exact hrest
  cases t with
  | num | ident | field | op | lparen | rparen | eof => exact hrest
  | comma =>
    simp only [Option.bind_eq_some_iff] at hrest ⊢
    obtain ⟨args, hargs, hr⟩ := hrest
    refine ⟨args, parse_more_le ?_ (ih.more hargs), hr⟩
    simp only [List.length_append, List.length_cons]
    omega

theorem loop_bounded (ih : Bounded fuel) {r : Ast × List Token}
    (h : parse_loop (fuel + 1) e ts m = some r) :
    parse_loop (4 * ts.length + 1) e ts m = some r := by
  rcases ts with _ | ⟨t, ts⟩
  · exact h
  cases t with
  | num | ident | field | lparen | rparen | comma | eof => exact h
  | op op =>
    rcases hop : op_info op with _ | p
    · simp only [parse_loop, hop] at h ⊢
      exact h
    · simp only [parse_loop, hop] at h ⊢
      split at h
      · rename_i hlt
        simp only [hlt, if_true]
        exact h
      · rename_i hle
        simp only [hle, if_false, Option.bind_eq_bind, Option.bind_eq_some_iff] at h ⊢
        obtain ⟨⟨right, rest⟩, hright, hr⟩ := h
        obtain ⟨operand, rfl, -, -⟩ := (reads fuel).expr hright
        refine ⟨(right, rest), parse_expr_le ?_ (ih.expr hright), parse_loop_le ?_ (ih.loop hr)⟩
        · simp only [List.length_append, List.length_cons]
          omega
        · simp only [List.length_append, List.length_cons]
          omega

theorem bounded (fuel : Nat) : Bounded fuel := by
  induction fuel with
  | zero =>
    constructor
    · intro ts r h
      simp [parse_primary] at h
    · intro ts r h
      simp [parse_args] at h
    · intro ts r h
      simp [parse_more] at h
    · intro ts m r h
      simp [parse_expr] at h
    · intro e ts m r h
      simp [parse_loop] at h
  | succ fuel ih =>
    refine ⟨primary_bounded ih, ?_, more_bounded ih, ?_, loop_bounded ih⟩
    · intro ts r h
      rcases ts with _ | ⟨t, ts⟩
      · exact ih.more h
      cases t with
      | rparen => exact h
      | num | ident | field | op | lparen | comma | eof => exact ih.more h
    · intro ts m r h
      simp only [parse_expr, Option.bind_eq_bind, Option.bind_eq_some_iff] at h ⊢
      obtain ⟨⟨left, rest⟩, hleft, hr⟩ := h
      obtain ⟨before, rfl, hbefore⟩ := (reads fuel).primary hleft
      have hpos := List.length_pos_iff.mpr (hbefore 0).ne_nil
      refine ⟨(left, rest), ih.primary hleft, parse_loop_le ?_ (ih.loop hr)⟩
      simp only [List.length_append]
      omega

/-! ## The parser -/

/-- The parser with enough fuel, and the check that it has read all tokens. -/
def parse_tokens (ts : List Token) : Option Ast :=
  match parse_expr (4 * ts.length + 2) ts 0 with
  | some (e, [.eof]) => some e
  | _ => none

/-- The parser accepts the tokens of an expression of the grammar, and no others. -/
theorem parse_tokens_iff : parse_tokens (ts ++ [.eof]) = some e ↔ Derives 0 ts e := by
  constructor
  · intro h
    unfold parse_tokens at h
    split at h
    · next e' hparse =>
      cases h
      obtain ⟨ts', hts, hderives, -⟩ := (reads _).expr hparse
      rw [(List.append_inj' hts rfl).1]
      exact hderives
    · cases h
  · intro h
    obtain ⟨fuel, hparse⟩ := parser_reads_c_expressions h
    unfold parse_tokens
    rw [(bounded fuel).expr hparse]

end motioncore.equation
