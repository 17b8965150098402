-- RFC 3339 texts in UTC, and when their order as texts is their order in time. The fraction of a
-- second has any number of digits, so a text may end where another one goes on.
import Mathlib.Data.String.Basic
import Mathlib.Order.Fin.Basic
import Mathlib.Tactic.Linarith

namespace motioncore.stamps

/-! ## Texts -/

/-- The date and the time of day as one number of 14 digits, and the digits of the fraction. -/
@[ext]
structure Stamp where
  whole : Nat
  fraction : List (Fin 10)
  whole_lt : whole < 10 ^ 14
deriving DecidableEq

/-- A place of the text: the digit of `10 ^ k`, or a separator. -/
inductive Mark where
  | digit (k : Nat)
  | sep (c : Char)

/-- `YYYY-MM-DDThh:mm:ss`. -/
def DATE_TIME : List Mark :=
  [.digit 13, .digit 12, .digit 11, .digit 10, .sep '-', .digit 9, .digit 8, .sep '-', .digit 7,
    .digit 6, .sep 'T', .digit 5, .digit 4, .sep ':', .digit 3, .digit 2, .sep ':', .digit 1,
    .digit 0]

def Mark.render (n : Nat) : Mark → Char
  | .digit k => Nat.digitChar (n / 10 ^ k % 10)
  | .sep c => c

/-- The fraction, if there is one, and the zone. -/
def tail : List (Fin 10) → List Char
  | [] => ['Z']
  | d :: f => '.' :: (d :: f).map (fun x => Nat.digitChar x) ++ ['Z']

def Stamp.chars (s : Stamp) : List Char := DATE_TIME.map (Mark.render s.whole) ++ tail s.fraction

def Stamp.text (s : Stamp) : String := String.ofList s.chars

/-! ## Times -/

def fractionValue : List (Fin 10) → ℚ
  | [] => 0
  | d :: f => ((d : Nat) + fractionValue f) / 10

def Stamp.time (s : Stamp) : ℚ := s.whole + fractionValue s.fraction

/-- One fraction of the same second goes on where the other one ends. -/
def Stamp.Clash (a b : Stamp) : Prop :=
  a.whole = b.whole ∧ a.fraction ≠ b.fraction ∧
    (a.fraction <+: b.fraction ∨ b.fraction <+: a.fraction)

instance (a b : Stamp) : Decidable (a.Clash b) := inferInstanceAs (Decidable (_ ∧ _ ∧ _))

variable {a b : Stamp}

theorem Stamp.Clash.symm (h : a.Clash b) : b.Clash a :=
  ⟨h.1.symm, h.2.1.symm, h.2.2.symm⟩

theorem fractionValue_bounds (f : List (Fin 10)) : 0 ≤ fractionValue f ∧ fractionValue f < 1 := by
  induction f with
  | nil => exact ⟨le_refl _, by norm_num [fractionValue]⟩
  | cons d f ih =>
    have hd : ((d : Nat) : ℚ) ≤ 9 := by exact_mod_cast Nat.le_of_lt_succ d.isLt
    have hd0 : (0 : ℚ) ≤ (d : Nat) := Nat.cast_nonneg _
    unfold fractionValue
    constructor
    · linarith [ih.1]
    · linarith [ih.2]

/-! ## The order -/

theorem digitChar_lt : ∀ d e : Fin 10, d < e → Nat.digitChar d < Nat.digitChar e := by decide

/-- The digits of the template are those below `10 ^ k`, each once and in order. -/
def covers : Nat → List Mark → Bool
  | k, [] => k = 0
  | k, .sep _ :: rest => covers k rest
  | 0, .digit _ :: _ => false
  | k + 1, .digit j :: rest => j = k ∧ covers k rest

/-- The texts of numbers that agree above `10 ^ k` are in the order of the numbers. -/
theorem render_lt {a b : Nat} (hlt : a < b) (x y : List Char) {l : List Mark} {k : Nat}
    (hl : covers k l = true) (hk : a / 10 ^ k = b / 10 ^ k) :
    l.map (Mark.render a) ++ x < l.map (Mark.render b) ++ y := by
  induction l generalizing k with
  | nil =>
    obtain rfl : k = 0 := of_decide_eq_true hl
    rw [Nat.pow_zero, Nat.div_one, Nat.div_one] at hk
    exact absurd hk (Nat.ne_of_lt hlt)
  | cons m l ih =>
    cases m with
    | sep c => exact List.cons_lt_cons_iff.mpr (Or.inr ⟨rfl, ih hl hk⟩)
    | digit j =>
      cases k with
      | zero => exact Bool.noConfusion hl
      | succ k =>
        obtain ⟨rfl, hl⟩ : j = k ∧ covers k l = true := of_decide_eq_true hl
        -- the numbers agree above the digit, so the digit decides unless it is the same
        have hsplit : ∀ n : Nat, n / 10 ^ j / 10 = n / 10 ^ (j + 1) := fun n => by
          rw [Nat.div_div_eq_div_mul, Nat.pow_succ]
        have ha := hsplit a
        have hb := hsplit b
        have hle : a / 10 ^ j ≤ b / 10 ^ j := Nat.div_le_div_right hlt.le
        rcases Nat.lt_or_ge (a / 10 ^ j) (b / 10 ^ j) with hdigit | hsame
        · refine List.cons_lt_cons_iff.mpr (Or.inl ?_)
          refine digitChar_lt ⟨a / 10 ^ j % 10, Nat.mod_lt _ (by omega)⟩
            ⟨b / 10 ^ j % 10, Nat.mod_lt _ (by omega)⟩ ?_
          change a / 10 ^ j % 10 < b / 10 ^ j % 10
          omega
        · have heq : a / 10 ^ j = b / 10 ^ j := le_antisymm hle hsame
          refine List.cons_lt_cons_iff.mpr (Or.inr ⟨?_, ih hl heq⟩)
          unfold Mark.render
          dsimp only
          rw [heq]

theorem chars_lt_of_whole (hlt : a.whole < b.whole) : a.chars < b.chars := by
  refine render_lt hlt _ _ (k := 14) (by decide) ?_
  rw [Nat.div_eq_of_lt a.whole_lt, Nat.div_eq_of_lt b.whole_lt]

theorem time_lt_of_whole (hlt : a.whole < b.whole) : a.time < b.time := by
  have hle : (a.whole : ℚ) + 1 ≤ b.whole := by exact_mod_cast hlt
  unfold Stamp.time
  linarith [(fractionValue_bounds a.fraction).2, (fractionValue_bounds b.fraction).1]

/-- Fractions of which none goes on from the other one: a digit decides both orders. -/
theorem fraction_order {f g : List (Fin 10)} (hfg : ¬ f <+: g) (hgf : ¬ g <+: f) (z : List Char) :
    (f.map (fun x => Nat.digitChar x) ++ z < g.map (fun x => Nat.digitChar x) ++ z ∧
      fractionValue f < fractionValue g) ∨
    (g.map (fun x => Nat.digitChar x) ++ z < f.map (fun x => Nat.digitChar x) ++ z ∧
      fractionValue g < fractionValue f) := by
  induction f generalizing g with
  | nil => exact absurd (List.nil_prefix) hfg
  | cons d f ih =>
    cases g with
    | nil => exact absurd (List.nil_prefix) hgf
    | cons e g =>
      have hless : ∀ {d e : Fin 10} {f g : List (Fin 10)}, d < e →
          fractionValue (d :: f) < fractionValue (e :: g) := by
        intro d e f g hde
        have hnum : ((d : Nat) : ℚ) + 1 ≤ (e : Nat) := by exact_mod_cast hde
        unfold fractionValue
        linarith [(fractionValue_bounds f).2, (fractionValue_bounds g).1]
      rcases lt_trichotomy d e with hlt | rfl | hgt
      · exact Or.inl ⟨List.cons_lt_cons_iff.mpr (Or.inl (digitChar_lt d e hlt)), hless hlt⟩
      · rw [List.prefix_cons_inj] at hfg hgf
        rcases ih hfg hgf with ⟨htext, hvalue⟩ | ⟨htext, hvalue⟩
        · refine Or.inl ⟨List.cons_lt_cons_iff.mpr (Or.inr ⟨rfl, htext⟩), ?_⟩
          unfold fractionValue
          linarith
        · refine Or.inr ⟨List.cons_lt_cons_iff.mpr (Or.inr ⟨rfl, htext⟩), ?_⟩
          unfold fractionValue
          linarith
      · exact Or.inr ⟨List.cons_lt_cons_iff.mpr (Or.inl (digitChar_lt e d hgt)), hless hgt⟩

/-- Two texts that are not the same and do not clash are in the order of their times. -/
theorem order_of_ne (hclash : ¬ a.Clash b) (hne : a ≠ b) :
    (a.text < b.text ∧ a.time < b.time) ∨ (b.text < a.text ∧ b.time < a.time) := by
  have htext : ∀ x y : Stamp, x.chars < y.chars → x.text < y.text := fun x y h => by
    rw [String.lt_iff_toList_lt]
    unfold Stamp.text
    rwa [String.toList_ofList, String.toList_ofList]
  rcases lt_trichotomy a.whole b.whole with hlt | heq | hgt
  · exact Or.inl ⟨htext a b (chars_lt_of_whole hlt), time_lt_of_whole hlt⟩
  · have hfraction : a.fraction ≠ b.fraction := fun h => hne (Stamp.ext heq h)
    have hfg : ¬ a.fraction <+: b.fraction := fun h => hclash ⟨heq, hfraction, Or.inl h⟩
    have hgf : ¬ b.fraction <+: a.fraction := fun h => hclash ⟨heq, hfraction, Or.inr h⟩
    have htail : ∀ f : List (Fin 10), f ≠ [] →
        tail f = '.' :: (f.map (fun x => Nat.digitChar x) ++ ['Z']) := fun f hf => by
      cases f with
      | nil => exact absurd rfl hf
      | cons d f => rfl
    have ha : a.fraction ≠ [] := fun h => hfg (h ▸ List.nil_prefix)
    have hb : b.fraction ≠ [] := fun h => hgf (h ▸ List.nil_prefix)
    have hcommon : ∀ {x y : List Char}, '.' :: x < '.' :: y → ∀ l : List Char,
        l ++ '.' :: x < l ++ '.' :: y := fun h l => by
      induction l with
      | nil => exact h
      | cons c l ih => exact List.cons_lt_cons_iff.mpr (Or.inr ⟨rfl, ih⟩)
    have hdot : ∀ {x y : List Char}, x < y → '.' :: x < '.' :: y := fun h =>
      List.cons_lt_cons_iff.mpr (Or.inr ⟨rfl, h⟩)
    rcases fraction_order hfg hgf ['Z'] with ⟨hchars, hvalue⟩ | ⟨hchars, hvalue⟩
    · refine Or.inl ⟨htext a b ?_, ?_⟩
      · unfold Stamp.chars
        rw [heq, htail _ ha, htail _ hb]
        exact hcommon (hdot hchars) _
      · unfold Stamp.time
        rw [heq]
        linarith
    · refine Or.inr ⟨htext b a ?_, ?_⟩
      · unfold Stamp.chars
        rw [heq, htail _ ha, htail _ hb]
        exact hcommon (hdot hchars) _
      · unfold Stamp.time
        rw [heq]
        linarith
  · exact Or.inr ⟨htext b a (chars_lt_of_whole hgt), time_lt_of_whole hgt⟩

theorem text_lt_iff (hclash : ¬ a.Clash b) : a.text < b.text ↔ a.time < b.time := by
  by_cases hne : a = b
  · rw [hne]
    exact ⟨fun h => absurd h (lt_irrefl _), fun h => absurd h (lt_irrefl _)⟩
  · rcases order_of_ne hclash hne with ⟨htext, htime⟩ | ⟨htext, htime⟩
    · exact ⟨fun _ => htime, fun _ => htext⟩
    · exact ⟨fun h => absurd h (lt_asymm htext), fun h => absurd h (lt_asymm htime)⟩

theorem text_le_iff (hclash : ¬ a.Clash b) : a.text ≤ b.text ↔ a.time ≤ b.time := by
  rw [← not_lt, ← not_lt, text_lt_iff fun h => hclash h.symm]

end motioncore.stamps
