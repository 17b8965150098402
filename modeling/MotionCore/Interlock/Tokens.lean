-- An interlock text as a sequence of tokens, and what the steps of the parser do on it. White
-- space stands between tokens only, and each token is as long as it can be.
import Mathlib.Algebra.Group.Nat.Defs
import MotionCore.Interlock.Dsl
import MotionCore.Lib.Views

open motioncore.views

namespace motioncore.interlock

/-! ## Numerals -/

inductive Numeral where
  | dec (ds : List UInt8)
  | hex (ds : List UInt8)
deriving DecidableEq

def isHexDigit (c : UInt8) : Bool := (hexDigit c).isSome

def Numeral.value : Numeral → Nat
  | .dec ds => ds.foldl (fun v c => v * 10 + (c - 0x30).toNat) 0
  | .hex ds => ds.foldl (fun v c => v * 16 + ((hexDigit c).getD 0).toNat) 0

/-- The number as the parser stores it, in 16 bits. -/
def Numeral.stored (n : Numeral) : UInt16 := UInt16.ofNat n.value

variable (ds : List UInt8)

theorem decValue_toNat : (decValue ds).toNat = (Numeral.dec ds).value % 2 ^ 32 := by
  have hfold : ∀ (v : UInt32) (n : Nat), v.toNat = n % 2 ^ 32 →
      (ds.foldl (fun v c => v * 10 + (c - 0x30).toUInt32) v).toNat =
        ds.foldl (fun v c => v * 10 + (c - 0x30).toNat) n % 2 ^ 32 := by
    induction ds with
    | nil => exact fun _ _ h => h
    | cons c ds ih =>
      intro v n h
      refine ih _ _ ?_
      dsimp only
      have hten : (10 : UInt32).toNat = 10 := rfl
      rw [UInt32.toNat_add, UInt32.toNat_mul, h, UInt8.toNat_toUInt32, hten]
      omega
  exact hfold 0 0 rfl

theorem hexDigit_lt (c : UInt8) : ((hexDigit c).getD 0).toNat < 16 := by
  have hsub : ∀ {a n : UInt8}, a ≤ c → c ≤ a + n → a.toNat + n.toNat < 256 →
      (c - a).toNat ≤ n.toNat := by
    intro a n hac hcn hsum
    rw [UInt8.toNat_sub_of_le _ _ hac]
    rw [UInt8.le_iff_toNat_le, UInt8.toNat_add, Nat.mod_eq_of_lt (by omega)] at hcn
    omega
  unfold hexDigit isDigit
  split
  · rename_i h
    rw [Bool.and_eq_true, decide_eq_true_eq, decide_eq_true_eq] at h
    have hle := hsub (n := 9) h.1 h.2 (by decide)
    rw [Option.getD_some, UInt8.toNat_toUInt32]
    exact Nat.lt_of_le_of_lt hle (by decide)
  split
  · rename_i h
    have hle := hsub (n := 5) h.1 h.2 (by decide)
    rw [Option.getD_some, UInt8.toNat_toUInt32, UInt8.toNat_add]
    have h5 : (5 : UInt8).toNat = 5 := rfl
    have h10 : (10 : UInt8).toNat = 10 := rfl
    omega
  split
  · rename_i h
    have hle := hsub (n := 5) h.1 h.2 (by decide)
    rw [Option.getD_some, UInt8.toNat_toUInt32, UInt8.toNat_add]
    have h5 : (5 : UInt8).toNat = 5 := rfl
    have h10 : (10 : UInt8).toNat = 10 := rfl
    omega
  · decide

theorem hexValue_toNat : (hexValue ds).toNat = (Numeral.hex ds).value % 2 ^ 32 := by
  have hfold : ∀ (v : UInt32) (n : Nat), v.toNat = n % 2 ^ 32 →
      (ds.foldl (fun (v : UInt32) c => (v <<< 4) ||| (hexDigit c).getD 0) v).toNat =
        ds.foldl (fun v c => v * 16 + ((hexDigit c).getD 0).toNat) n % 2 ^ 32 := by
    induction ds with
    | nil => exact fun _ _ h => h
    | cons c ds ih =>
      intro v n h
      refine ih _ _ ?_
      have hlt := hexDigit_lt c
      have hfour : (4 : UInt32).toNat % 32 = 4 := rfl
      dsimp only
      have hdiv : v.toNat <<< 4 % 2 ^ 32 = (v.toNat % 2 ^ 28) <<< 4 := by
        rw [Nat.shiftLeft_eq, Nat.shiftLeft_eq]
        omega
      rw [UInt32.toNat_or, UInt32.toNat_shiftLeft, hfour, hdiv,
        ← Nat.shiftLeft_add_eq_or_of_lt (show _ < 2 ^ 4 from hlt), Nat.shiftLeft_eq, h]
      omega
  exact hfold 0 0 rfl

/-! ## Tokens -/

inductive Token where
  | ident (id : List UInt8)
  | num (n : Numeral)
  | char (c : UInt8)
deriving DecidableEq

/-- The token that starts with a digit. A 0x without digits is no numeral. -/
def lexNumber (s : List UInt8) : Token × List UInt8 :=
  match s with
  | 0x30 :: x :: rest =>
    if x = 0x78 ∨ x = 0x58 then
      if (rest.takeWhile isHexDigit).isEmpty then (.char 0x30, x :: rest)
      else (.num (.hex (rest.takeWhile isHexDigit)), rest.dropWhile isHexDigit)
    else (.num (.dec (s.takeWhile isDigit)), s.dropWhile isDigit)
  | _ => (.num (.dec (s.takeWhile isDigit)), s.dropWhile isDigit)

/-- The next token, from its first character on. -/
def lexAt (c : UInt8) (rest : List UInt8) : Token × List UInt8 :=
  if isIdentStart c then
    (.ident ((c :: rest).takeWhile isIdentCont), (c :: rest).dropWhile isIdentCont)
  else if isDigit c then lexNumber (c :: rest)
  else (.char c, rest)

def lex : Nat → List UInt8 → List Token
  | 0, _ => []
  | n + 1, s =>
    match s.dropWhile isWs with
    | [] => []
    | c :: rest => (lexAt c rest).1 :: lex n (lexAt c rest).2

def tokens (s : List UInt8) : List Token := lex s.length s

variable {c : UInt8}

theorem isIdentCont_of_start (h : isIdentStart c = true) : isIdentCont c = true := by
  unfold isIdentCont
  rw [h]
  rfl

theorem dropWhile_lt {p : UInt8 → Bool} {rest : List UInt8} (h : p c = true) :
    ((c :: rest).dropWhile p).length ≤ rest.length := by
  rw [List.dropWhile_cons_of_pos h]
  exact (List.dropWhile_suffix p).length_le

theorem lexAt_le (c : UInt8) (rest : List UInt8) : (lexAt c rest).2.length ≤ rest.length := by
  unfold lexAt
  split
  · rename_i h
    exact dropWhile_lt (isIdentCont_of_start h)
  split
  · rename_i h
    unfold lexNumber
    split
    · rename_i x rest' hs
      obtain ⟨rfl, rfl⟩ := List.cons.inj hs
      split
      · split
        · exact Nat.le_refl _
        · exact Nat.le_succ_of_le (List.dropWhile_suffix _).length_le
      · show ((0x30 :: x :: rest').dropWhile isDigit).length ≤ (x :: rest').length
        exact dropWhile_lt h
    · exact dropWhile_lt h
  · exact Nat.le_refl _

theorem lex_eq {n : Nat} {s : List UInt8} (h : s.length ≤ n) : lex n s = tokens s := by
  have hany : ∀ m n : Nat, ∀ s : List UInt8, s.length ≤ m → s.length ≤ n → lex m s = lex n s := by
    intro m
    induction m with
    | zero =>
      intro n s hm hn
      rw [List.eq_nil_of_length_eq_zero (Nat.le_zero.mp hm)]
      cases n <;> rfl
    | succ m ih =>
      intro n s hm hn
      cases n with
      | zero =>
        rw [List.eq_nil_of_length_eq_zero (Nat.le_zero.mp hn)]
        rfl
      | succ n =>
        unfold lex
        cases hs : s.dropWhile isWs with
        | nil => rfl
        | cons c rest =>
          have hlen : (c :: rest).length ≤ s.length := by
            rw [← hs]
            exact (List.dropWhile_suffix isWs).length_le
          have hle := lexAt_le c rest
          rw [List.length_cons] at hlen
          dsimp only
          rw [ih n _ (by omega) (by omega)]
  exact hany n s.length s h (Nat.le_refl _)

variable (s : List UInt8)

/-- The tokens of a text are the first one and those of the rest. -/
theorem tokens_eq : tokens s =
      match s.dropWhile isWs with
      | [] => []
      | c :: rest => (lexAt c rest).1 :: tokens (lexAt c rest).2 := by
  rw [← lex_eq (Nat.le_succ s.length), lex]
  cases hs : s.dropWhile isWs with
  | nil => rfl
  | cons c rest =>
    have hlen : (c :: rest).length ≤ s.length := by
      rw [← hs]
      exact (List.dropWhile_suffix isWs).length_le
    have hle := lexAt_le c rest
    rw [List.length_cons] at hlen
    dsimp only
    rw [lex_eq (by omega)]

theorem tokens_skip : tokens (s.dropWhile isWs) = tokens s := by
  rw [tokens_eq, tokens_eq s]
  have hidem : (s.dropWhile isWs).dropWhile isWs = s.dropWhile isWs := by
    induction s with
    | nil => rfl
    | cons c rest ih =>
      by_cases hc : isWs c = true
      · rw [List.dropWhile_cons_of_pos hc]
        exact ih
      · rw [List.dropWhile_cons_of_neg hc, List.dropWhile_cons_of_neg hc]
  rw [hidem]

theorem tokens_nil_iff : tokens s = [] ↔ s.dropWhile isWs = [] := by
  rw [tokens_eq]
  cases s.dropWhile isWs with
  | nil => simp
  | cons c rest => simp

theorem tokens_length_le : (tokens s).length ≤ s.length := by
  have hlex : ∀ n s, (lex n s).length ≤ n := by
    intro n
    induction n with
    | zero => exact fun _ => Nat.le_refl _
    | succ n ih =>
      intro s
      unfold lex
      cases s.dropWhile isWs with
      | nil => exact Nat.zero_le _
      | cons c rest => exact Nat.succ_le_succ (ih _)
  exact hlex _ _

/-! ## The steps of the parser on tokens -/

abbrev TokenParser := StateT (List Token) Option

def tIdent : TokenParser (List UInt8)
  | .ident id :: ts => some (id, ts)
  | _ => none

/-- Whether the character is next, which is then read. -/
def tChar (c : UInt8) : TokenParser Bool
  | .char d :: ts => if d = c then some (true, ts) else some (false, .char d :: ts)
  | ts => some (false, ts)

def tNeed (c : UInt8) : TokenParser Unit
  | .char d :: ts => if d = c then some ((), ts) else none
  | _ => none

def tNum : TokenParser Numeral
  | .num n :: ts => some (n, ts)
  | _ => none

def startsIdent : List Token → Bool
  | .ident _ :: _ => true
  | _ => false

/-- The characters between the words and numerals of a text. -/
def isMark (c : UInt8) : Bool := !isWs c && !isIdentStart c && !isDigit c

/-! ## One step on the text -/

/-- A parser of the text does on the text what the other does on its tokens. -/
abbrev OnTokens {α : Type} (p : Parser α) (q : TokenParser α) : Prop := Views tokens p q

theorem outcome_needIdent : outcome tokens needIdent s =
      match s.dropWhile isWs with
      | [] => none
      | c :: rest =>
        if isIdentStart c then
          some ((c :: rest).takeWhile isIdentCont, tokens ((c :: rest).dropWhile isIdentCont))
        else none := by
  have hrun : readIdent.run.run s =
      (if isIdentStart ((s.dropWhile isWs).headD 0) then
        (.ok (some ((s.dropWhile isWs).takeWhile isIdentCont)),
          (s.dropWhile isWs).dropWhile isIdentCont)
      else (.ok none, s.dropWhile isWs)) := by
    show (if isIdentStart ((s.dropWhile isWs).headD 0) then _ else _ : Parser _) _ = _
    split <;> rfl
  unfold needIdent
  rw [outcome_bind, hrun]
  cases hs : s.dropWhile isWs with
  | nil => rfl
  | cons c rest =>
    rw [List.headD_cons]
    by_cases hc : isIdentStart c = true
    · simp only [if_pos hc]
      rfl
    · simp only [if_neg hc]
      rfl

theorem outcome_consumeChar (want : UInt8) (s : List UInt8) : outcome tokens (consumeChar want) s =
      match s.dropWhile isWs with
      | [] => some (false, [])
      | c :: rest =>
        if c = want then some (true, tokens rest) else some (false, tokens (c :: rest)) := by
  unfold consumeChar
  rw [outcome_bind]
  show outcome tokens _ (s.dropWhile isWs) = _
  rw [outcome_bind]
  show outcome tokens (match s.dropWhile isWs with | [] => _ | c :: rest => _)
    (s.dropWhile isWs) = _
  cases hs : s.dropWhile isWs with
  | nil => rfl
  | cons c rest =>
    dsimp only
    split <;> rfl

theorem readDigits_run (digit : UInt8 → Bool) (value : List UInt8 → UInt32) (s : List UInt8) :
    (readDigits digit value).run.run s =
      (.ok (if (s.takeWhile digit).isEmpty then none
          else some (value (s.takeWhile digit)).toUInt16),
        s.dropWhile digit) := rfl

theorem dec_stored : (decValue ds).toUInt16 = (Numeral.dec ds).stored := by
  apply UInt16.toNat_inj.mp
  rw [UInt32.toNat_toUInt16, decValue_toNat, Numeral.stored, UInt16.toNat_ofNat']
  omega

theorem hex_stored : (hexValue ds).toUInt16 = (Numeral.hex ds).stored := by
  apply UInt16.toNat_inj.mp
  rw [UInt32.toNat_toUInt16, hexValue_toNat, Numeral.stored, UInt16.toNat_ofNat']
  omega

/-- A hexadecimal numeral begins with 0x. -/
def hexAhead (s : List UInt8) : Prop :=
  ∃ x rest, s = 0x30 :: x :: rest ∧ (x = 0x78 ∨ x = 0x58)

theorem lexNumber_dec {s : List UInt8} (h : ¬ hexAhead s) :
    lexNumber s = (.num (.dec (s.takeWhile isDigit)), s.dropWhile isDigit) := by
  unfold lexNumber
  split
  · rename_i x rest
    rw [if_neg fun hx => h ⟨x, rest, rfl, hx⟩]
  · rfl

/-- What `readNumber` reads from the first character on. -/
def numberAt (s : List UInt8) : Parser (Option UInt16) :=
  match s with
  | 0x30 :: x :: rest =>
    if x = 0x78 ∨ x = 0x58 then do
      set rest
      readDigits (fun c => (hexDigit c).isSome) hexValue
    else readDigits isDigit decValue
  | _ => readDigits isDigit decValue

theorem readNumber_run :
    readNumber.run.run s = (numberAt (s.dropWhile isWs)).run.run (s.dropWhile isWs) := rfl

theorem numberAt_dec {s : List UInt8} (h : ¬ hexAhead s) :
    numberAt s = readDigits isDigit decValue := by
  unfold numberAt
  split
  · rename_i x rest
    rw [if_neg fun hx => h ⟨x, rest, rfl, hx⟩]
  · rfl

theorem outcome_needNumber : outcome tokens needNumber s =
      match s.dropWhile isWs with
      | [] => none
      | c :: rest =>
        match (lexNumber (c :: rest)).1 with
        | .num n => if isDigit c then some (n.stored, tokens (lexNumber (c :: rest)).2) else none
        | _ => none := by
  unfold needNumber
  rw [outcome_bind, readNumber_run]
  cases hs : s.dropWhile isWs with
  | nil => rfl
  | cons c rest =>
    dsimp only
    by_cases hhex : hexAhead (c :: rest)
    · obtain ⟨x, rest', heq, hx⟩ := hhex
      obtain ⟨rfl, rfl⟩ := List.cons.inj heq
      have hread : (numberAt (0x30 :: x :: rest')).run.run (0x30 :: x :: rest') =
          (.ok (if (rest'.takeWhile isHexDigit).isEmpty then none
            else some (Numeral.hex (rest'.takeWhile isHexDigit)).stored),
            rest'.dropWhile isHexDigit) := by
        rw [← hex_stored]
        show (if x = 0x78 ∨ x = 0x58 then _ else _ : Parser (Option UInt16)).run.run _ = _
        rw [if_pos hx]
        rfl
      have hlex : lexNumber (0x30 :: x :: rest') =
          if (rest'.takeWhile isHexDigit).isEmpty then (.char 0x30, x :: rest')
          else (.num (.hex (rest'.takeWhile isHexDigit)), rest'.dropWhile isHexDigit) := by
        show (if x = 0x78 ∨ x = 0x58 then _ else _ : Token × List UInt8) = _
        rw [if_pos hx]
      rw [hread, hlex]
      cases rest'.takeWhile isHexDigit <;> rfl
    · rw [numberAt_dec hhex, lexNumber_dec hhex, readDigits_run, dec_stored]
      by_cases hc : isDigit c = true
      · rw [List.takeWhile_cons_of_pos hc]
        simp only [if_pos hc]
        rfl
      · rw [List.takeWhile_cons_of_neg hc]
        simp only [if_neg hc]
        rfl

/-! ## One step on the tokens -/

theorem head_not_ws {s rest : List UInt8} (hs : s.dropWhile isWs = c :: rest) : isWs c = false := by
  induction s with
  | nil => exact nomatch hs
  | cons d s ih =>
    cases hd : isWs d with
    | true =>
      rw [List.dropWhile_cons_of_pos hd] at hs
      exact ih hs
    | false =>
      rw [List.dropWhile_cons_of_neg (by simp [hd])] at hs
      rw [← (List.cons.inj hs).1]
      exact hd

theorem tokens_cons (rest : List UInt8) (hc : isWs c = false) :
    tokens (c :: rest) = (lexAt c rest).1 :: tokens (lexAt c rest).2 := by
  rw [tokens_eq, List.dropWhile_cons_of_neg (by simp [hc])]

variable {α : Type} {q : TokenParser α}

/-- What a step does behind the white space of the text, it does on the tokens. -/
theorem OnTokens.intro {p : Parser α}
    (hnil : ∀ s, s.dropWhile isWs = [] → outcome tokens p s = q [])
    (hcons : ∀ s c rest, s.dropWhile isWs = c :: rest → isWs c = false →
      outcome tokens p s = q ((lexAt c rest).1 :: tokens (lexAt c rest).2)) : OnTokens p q := by
  intro s
  rw [tokens_eq]
  cases hs : s.dropWhile isWs with
  | nil => exact hnil s hs
  | cons c rest => exact hcons s c rest hs (head_not_ws hs)

theorem lexNumber_cases : (∃ n, (lexNumber s).1 = .num n) ∨ (lexNumber s).1 = .char 0x30 := by
  unfold lexNumber
  split
  · split
    · split
      · exact .inr rfl
      · exact .inl ⟨_, rfl⟩
    · exact .inl ⟨_, rfl⟩
  · exact .inl ⟨_, rfl⟩

theorem lexAt_ident (hc : isIdentStart c = true) (rest : List UInt8) : lexAt c rest =
      (.ident ((c :: rest).takeWhile isIdentCont), (c :: rest).dropWhile isIdentCont) := by
  unfold lexAt
  rw [if_pos hc]

theorem lexAt_digit (hi : isIdentStart c = false) (hd : isDigit c = true) (rest : List UInt8) :
    lexAt c rest = lexNumber (c :: rest) := by
  unfold lexAt
  rw [if_neg (by simp [hi]), if_pos hd]

theorem lexAt_char (hi : isIdentStart c = false) (hd : isDigit c = false) (rest : List UInt8) :
    lexAt c rest = (.char c, rest) := by
  unfold lexAt
  rw [if_neg (by simp [hi]), if_neg (by simp [hd])]

theorem not_digit_of_start (h : isIdentStart c = true) : isDigit c = false := by
  unfold isIdentStart at h
  unfold isDigit
  simp only [Bool.or_eq_true, Bool.and_eq_true, decide_eq_true_eq, beq_iff_eq,
    UInt8.le_iff_toNat_le] at h
  rw [Bool.and_eq_false_iff, decide_eq_false_iff_not, decide_eq_false_iff_not,
    UInt8.le_iff_toNat_le, UInt8.le_iff_toNat_le]
  have h39 : (0x39 : UInt8).toNat = 57 := rfl
  have h41 : (0x41 : UInt8).toNat = 65 := rfl
  have h61 : (0x61 : UInt8).toNat = 97 := rfl
  rcases h with (h | h) | rfl
  · omega
  · omega
  · decide

theorem onTokens_needIdent : OnTokens needIdent tIdent := by
  refine .intro (fun s hs => ?_) fun s c rest hs _ => ?_
  · rw [outcome_needIdent, hs]
    rfl
  · rw [outcome_needIdent, hs]
    dsimp only
    cases hi : isIdentStart c with
    | true =>
      rw [lexAt_ident hi]
      rfl
    | false =>
      cases hd : isDigit c with
      | true =>
        rw [lexAt_digit hi hd]
        rcases lexNumber_cases (c :: rest) with ⟨n, hn⟩ | hn <;> rw [hn] <;> rfl
      | false =>
        rw [lexAt_char hi hd]
        rfl

theorem onTokens_consumeChar {want : UInt8} (hmark : isMark want = true) :
    OnTokens (consumeChar want) (tChar want) := by
  unfold isMark at hmark
  simp only [Bool.and_eq_true, Bool.not_eq_true'] at hmark
  obtain ⟨⟨-, hwi⟩, hwd⟩ := hmark
  have hother : ∀ {t : Token} (ts : List Token), t ≠ .char want →
      tChar want (t :: ts) = some (false, t :: ts) := by
    intro t ts hne
    cases t with
    | char d =>
      have hd : d ≠ want := fun he => hne (by rw [he])
      exact if_neg hd
    | ident id => rfl
    | num n => rfl
  refine .intro (fun s hs => ?_) fun s c rest hs hws => ?_
  · rw [outcome_consumeChar, hs]
    rfl
  · rw [outcome_consumeChar, hs]
    dsimp only
    by_cases hc : c = want
    · subst hc
      rw [if_pos rfl, lexAt_char hwi hwd]
      exact (if_pos rfl).symm
    · rw [if_neg hc, tokens_cons rest hws, hother]
      intro heq
      cases hi : isIdentStart c with
      | true =>
        rw [lexAt_ident hi] at heq
        exact nomatch heq
      | false =>
        cases hd : isDigit c with
        | true =>
          rw [lexAt_digit hi hd] at heq
          rcases lexNumber_cases (c :: rest) with ⟨n, hn⟩ | hn
          · rw [hn] at heq
            exact nomatch heq
          · rw [hn] at heq
            rw [← Token.char.inj heq] at hwd
            exact absurd hwd (by decide)
        | false =>
          rw [lexAt_char hi hd] at heq
          exact hc (Token.char.inj heq)

theorem onTokens_needChar {want : UInt8} (hmark : isMark want = true) :
    OnTokens (needChar want) (tNeed want) := by
  have hviews : OnTokens (needChar want)
      (tChar want >>= fun b => if !b then given none else pure ()) :=
    (onTokens_consumeChar hmark).bind fun b =>
      Views.ite (fun _ => Views.throw _) fun _ => Views.pure _
  refine hviews.congr fun ts => ?_
  rw [bind_apply]
  unfold tChar tNeed
  split
  · split <;> rfl
  · rename_i hne
    cases ts with
    | nil => rfl
    | cons t ts =>
      cases t with
      | char d => exact absurd rfl (hne d ts)
      | ident id => rfl
      | num n => rfl

theorem onTokens_needNumber : OnTokens needNumber (tNum >>= fun n => pure n.stored) := by
  refine .intro (fun s hs => ?_) fun s c rest hs _ => ?_
  · rw [outcome_needNumber, hs]
    rfl
  · rw [outcome_needNumber, hs]
    dsimp only
    cases hi : isIdentStart c with
    | true =>
      have hd := not_digit_of_start hi
      rw [lexAt_ident hi, hd]
      cases (lexNumber (c :: rest)).1 <;> rfl
    | false =>
      cases hd : isDigit c with
      | true =>
        rw [lexAt_digit hi hd]
        rcases lexNumber_cases (c :: rest) with ⟨n, hn⟩ | hn <;> rw [hn] <;> rfl
      | false =>
        rw [lexAt_char hi hd]
        cases (lexNumber (c :: rest)).1 <;> rfl

theorem onTokens_peek {f : Bool → Parser α} {g : Bool → TokenParser α}
    (h : ∀ b, OnTokens (f b) (g b)) :
    OnTokens (skipWs >>= fun _ => peek >>= fun c => f (isIdentStart c))
      (fun ts => g (startsIdent ts) ts) := by
  intro s
  have hpeek : outcome tokens (skipWs >>= fun _ => peek >>= fun c => f (isIdentStart c)) s =
      outcome tokens (f (isIdentStart ((s.dropWhile isWs).headD 0))) (s.dropWhile isWs) := by
    rw [outcome_bind]
    show outcome tokens (peek >>= fun c => f (isIdentStart c)) (s.dropWhile isWs) = _
    rw [outcome_bind]
    rfl
  have hstarts : isIdentStart ((s.dropWhile isWs).headD 0) = startsIdent (tokens s) := by
    rw [tokens_eq]
    cases hs : s.dropWhile isWs with
    | nil => rfl
    | cons c rest =>
      rw [List.headD_cons]
      dsimp only
      cases hi : isIdentStart c with
      | true =>
        rw [lexAt_ident hi]
        rfl
      | false =>
        cases hd : isDigit c with
        | true =>
          rw [lexAt_digit hi hd]
          rcases lexNumber_cases (c :: rest) with ⟨n, hn⟩ | hn <;> rw [hn] <;> rfl
        | false =>
          rw [lexAt_char hi hd]
          rfl
  rw [hpeek, hstarts, h, tokens_skip]

theorem onTokens_skipWs {f : Unit → Parser α} (h : OnTokens (f ()) q) :
    OnTokens (skipWs >>= f) q := by
  intro s
  have hskip : outcome tokens (skipWs >>= f) s = outcome tokens (f ()) (s.dropWhile isWs) := by
    rw [outcome_bind]
    rfl
  rw [hskip, h, tokens_skip]

theorem onTokens_end {e : ParseStatus} {f : Unit → Parser α} (h : OnTokens (f ()) q) :
    OnTokens (skipWs >>= fun _ => get >>= fun rest =>
        if rest ≠ [] then throw e >>= f else f ())
      (fun ts => if ts = [] then q [] else none) := by
  intro s
  have hend : outcome tokens (skipWs >>= fun _ => get >>= fun rest =>
        if rest ≠ [] then throw e >>= f else f ()) s =
      outcome tokens (if s.dropWhile isWs ≠ [] then throw e >>= f else f ())
        (s.dropWhile isWs) := by
    rw [outcome_bind]
    show outcome tokens (get >>= fun rest => if rest ≠ [] then throw e >>= f else f ())
      (s.dropWhile isWs) = _
    rw [outcome_bind]
    rfl
  rw [hend]
  show _ = if tokens s = [] then q [] else none
  by_cases hnil : s.dropWhile isWs = []
  · have hts := (tokens_nil_iff s).mpr hnil
    rw [if_neg (fun hne => hne hnil), if_pos hts, h, tokens_skip, hts]
  · rw [if_pos hnil, if_neg fun hts => hnil ((tokens_nil_iff s).mp hts), outcome_bind]
    rfl

end motioncore.interlock
