-- Words of brackets of several kinds between plain letters: what it is to be
-- balanced, the depth of a word, and the match of an opening bracket, which a
-- balanced word has and has only once.
import Mathlib.Tactic.Ring

namespace motioncore.brackets

variable {α κ : Type*}

/-- What a letter does in a word of brackets. -/
inductive Role (κ : Type*) where
  | opens (kind : κ)
  | closes (kind : κ)
  | plain
deriving DecidableEq

/-- Each opening bracket has its closing one, of the same kind, and they do not cross. -/
inductive Balanced (role : α → Role κ) : List α → Prop
  | nil : Balanced role []
  | plain {a : α} {w : List α} :
      role a = .plain → Balanced role w → Balanced role (a :: w)
  | pair {o c : α} {k : κ} {body rest : List α} :
      role o = .opens k → role c = .closes k → Balanced role body → Balanced role rest →
      Balanced role (o :: (body ++ c :: rest))

variable {role : α → Role κ}
variable {v w : List α}

theorem Balanced.append (hv : Balanced role v) (hw : Balanced role w) : Balanced role (v ++ w) := by
  induction hv with
  | nil => exact hw
  | plain ha _ ih => exact .plain ha ih
  | pair ho hc hbody _ _ ihrest =>
    rw [List.cons_append, List.append_assoc, List.cons_append]
    exact .pair ho hc hbody ihrest

theorem Balanced.single {a : α} (ha : role a = .plain) : Balanced role [a] := .plain ha .nil

variable {o c : α} {k : κ}

theorem Balanced.wrap {body : List α} (ho : role o = .opens k) (hc : role c = .closes k)
    (hbody : Balanced role body) : Balanced role (o :: (body ++ [c])) := .pair ho hc hbody .nil

/-- Only the roles of the letters matter. -/
theorem Balanced.map {β : Type*} {role' : β → Role κ} {f : α → β} (hf : ∀ a, role' (f a) = role a)
    (h : Balanced role w) : Balanced role' (w.map f) := by
  induction h with
  | nil => exact .nil
  | plain ha _ ih => exact .plain ((hf _).trans ha) ih
  | pair ho hc _ _ ihbody ihrest =>
    rw [List.map_cons, List.map_append, List.map_cons]
    exact .pair ((hf _).trans ho) ((hf _).trans hc) ihbody ihrest

/-! ## Depth -/

def Role.weight : Role κ → Int
  | .opens _ => 1
  | .closes _ => -1
  | .plain => 0

/-- The opening brackets less the closing ones. -/
def depth (role : α → Role κ) (w : List α) : Int := (w.map fun a => (role a).weight).sum

@[simp] theorem depth_nil : depth role [] = 0 := rfl

@[simp] theorem depth_cons (a : α) (w : List α) :
    depth role (a :: w) = (role a).weight + depth role w := by
  simp [depth]

@[simp] theorem depth_append (v w : List α) :
    depth role (v ++ w) = depth role v + depth role w := by
  simp [depth]

theorem Balanced.depth_eq_zero (h : Balanced role w) : depth role w = 0 := by
  induction h with
  | nil => rfl
  | plain ha _ ih => simp [ha, Role.weight, ih]
  | pair ho hc _ _ ihbody ihrest => simp [ho, hc, Role.weight, ihbody, ihrest]

/-- From the depth `h` on, the word never closes more than is open. -/
def Above (role : α → Role κ) : Int → List α → Prop
  | h, [] => 0 ≤ h
  | h, a :: w => 0 ≤ h ∧ Above role (h + (role a).weight) w

variable {h : Int}

@[simp] theorem above_nil : Above role h [] ↔ 0 ≤ h := Iff.rfl

@[simp] theorem above_cons {a : α} :
    Above role h (a :: w) ↔ 0 ≤ h ∧ Above role (h + (role a).weight) w := Iff.rfl

theorem Above.nonneg (hw : Above role h w) : 0 ≤ h := by
  cases w with
  | nil => exact hw
  | cons a w => exact hw.1

theorem Above.mono {h' : Int} (hw : Above role h w) (hle : h ≤ h') : Above role h' w := by
  induction w generalizing h h' with
  | nil =>
    rw [above_nil] at hw ⊢
    omega
  | cons a w ih => exact ⟨le_trans hw.1 hle, ih hw.2 (by omega)⟩

theorem above_append :
    Above role h (v ++ w) ↔ Above role h v ∧ Above role (h + depth role v) w := by
  induction v generalizing h with
  | nil =>
    constructor
    · intro hw
      exact ⟨hw.nonneg, by simpa using hw⟩
    · rintro ⟨-, hw⟩
      simpa using hw
  | cons a v ih => rw [List.cons_append, above_cons, above_cons, ih, depth_cons, and_assoc, add_assoc]

theorem Balanced.above (hw : Balanced role w) (hh : 0 ≤ h) : Above role h w := by
  induction hw generalizing h with
  | nil => exact hh
  | plain ha _ ih => exact ⟨hh, ih (by simpa [ha, Role.weight] using hh)⟩
  | @pair o c k body rest ho hc hbody _ ihbody ihrest =>
    have hopen : (role o).weight = 1 := by rw [ho]; rfl
    have hclose : (role c).weight = -1 := by rw [hc]; rfl
    refine ⟨hh, above_append.mpr ⟨ihbody (by omega), ?_⟩⟩
    rw [hbody.depth_eq_zero, above_cons]
    exact ⟨by omega, ihrest (by omega)⟩

/-! ## The match of an opening bracket -/

/-- An opening bracket in a balanced word has its match behind it. -/
theorem Balanced.match_of_mem (h : Balanced role w) {pre tail : List α} (heq : w = pre ++ o :: tail)
    (ho : role o = .opens k) :
    ∃ body c rest, tail = body ++ c :: rest ∧ role c = .closes k ∧ Balanced role body := by
  induction h generalizing pre tail with
  | nil => simp at heq
  | plain ha _ ih =>
    cases pre with
    | nil =>
      obtain ⟨rfl, -⟩ := List.cons.inj heq
      rw [ha] at ho
      cases ho
    | cons b pre => exact ih (List.cons.inj heq).2
  | @pair o' c k' body rest ho' hc hbody _ ihbody ihrest =>
    cases pre with
    | nil =>
      obtain ⟨rfl, rfl⟩ := List.cons.inj heq
      obtain rfl : k' = k := by
        rw [ho] at ho'
        exact (Role.opens.inj ho').symm
      exact ⟨body, c, rest, rfl, hc, hbody⟩
    | cons b pre =>
      have htail := (List.cons.inj heq).2
      rcases List.append_eq_append_iff.mp htail with ⟨q, rfl, hq⟩ | ⟨q, hbodyq, hq⟩
      · cases q with
        | nil =>
          obtain ⟨rfl, -⟩ := List.cons.inj hq
          rw [hc] at ho
          cases ho
        | cons d q => exact ihrest (List.cons.inj hq).2
      · cases q with
        | nil =>
          obtain ⟨rfl, -⟩ := List.cons.inj hq
          rw [hc] at ho
          cases ho
        | cons d q =>
          obtain ⟨rfl, rfl⟩ := List.cons.inj hq
          obtain ⟨body', c', rest', rfl, hc', hbal⟩ := ihbody hbodyq
          exact ⟨body', c', rest' ++ c :: rest, by simp, hc', hbal⟩

/-- A balanced word does not go on behind a closing bracket that is too many. -/
theorem Above.not_initial {s : List α} (hw : Above role 0 w) (hv : Balanced role v)
    (hc : role c = .closes k) : w ≠ v ++ c :: s := by
  rintro rfl
  have hrest := (above_append.mp hw).2
  rw [hv.depth_eq_zero, above_cons, hc] at hrest
  have hneg := hrest.2.nonneg
  simp [Role.weight] at hneg

/-- Two balanced words that each end at a closing bracket are the same one. -/
theorem Balanced.match_unique (hv : Balanced role v) (hw : Balanced role w) {d : α} {l : κ}
    (hc : role c = .closes k) (hd : role d = .closes l) {r s : List α}
    (heq : v ++ c :: r = w ++ d :: s) : v = w := by
  rcases List.append_eq_append_iff.mp heq with ⟨q, hwq, hq⟩ | ⟨q, hvq, hq⟩
  · cases q with
    | nil => simpa using hwq.symm
    | cons e q =>
      obtain ⟨rfl, -⟩ := List.cons.inj hq
      exact absurd hwq ((hw.above le_rfl).not_initial hv hc)
  · cases q with
    | nil => simpa using hvq
    | cons e q =>
      obtain ⟨rfl, -⟩ := List.cons.inj hq
      exact absurd hvq ((hv.above le_rfl).not_initial hw hd)

/-! ## Distances -/

/-- `P` holds of each opening bracket and its distance to its match. -/
def Spaced (role : α → Role κ) (P : α → Nat → Prop) (w : List α) : Prop :=
  ∀ ⦃pre : List α⦄ ⦃o : α⦄ ⦃body : List α⦄ ⦃c : α⦄ ⦃post : List α⦄ ⦃k : κ⦄,
    w = pre ++ o :: (body ++ c :: post) → role o = .opens k → role c = .closes k →
    Balanced role body → P o (body.length + 1)

variable {P : α → Nat → Prop}

theorem Spaced.nil : Spaced role P [] := by
  intro pre o body c post k heq
  simp at heq

theorem Spaced.single (a : α) : Spaced role P [a] := by
  intro pre o body c post k heq
  have hlen := congrArg List.length heq
  simp at hlen
  omega

theorem Spaced.append (hbal : Balanced role v) (hv : Spaced role P v) (hw : Spaced role P w) :
    Spaced role P (v ++ w) := by
  intro pre o body c post k heq ho hc hbody
  rcases List.append_eq_append_iff.mp heq with ⟨q, -, hq⟩ | ⟨q, hvq, hq⟩
  · exact hw hq ho hc hbody
  · cases q with
    | nil =>
      have hpre : w = [] ++ (o :: (body ++ c :: post)) := by simpa using hq.symm
      exact hw hpre ho hc hbody
    | cons d q =>
      obtain ⟨rfl, hq⟩ := List.cons.inj hq
      obtain ⟨body', c', rest, rfl, hc', hbody'⟩ := hbal.match_of_mem hvq ho
      have heq' : body ++ c :: post = body' ++ c' :: (rest ++ w) := by simpa using hq
      obtain rfl := hbody.match_unique hbody' hc hc' heq'
      exact hv hvq ho hc' hbody'

theorem Spaced.pair {body : List α} (hc : role c = .closes k) (hbal : Balanced role body)
    (hbody : Spaced role P body) (hP : P o (body.length + 1)) :
    Spaced role P (o :: (body ++ [c])) := by
  intro pre o' body' c' post k' heq ho' hc' hbal'
  cases pre with
  | nil =>
    obtain ⟨rfl, htail⟩ := List.cons.inj heq
    obtain rfl := hbal.match_unique hbal' hc hc' htail
    exact hP
  | cons d pre =>
    exact (hbody.append hbal (.single c)) (List.cons.inj heq).2 ho' hc' hbal'

/-! ## The check with a stack -/

section

variable [DecidableEq κ]

/-- One letter with the kinds that are open, the last first. -/
def checkStep (role : α → Role κ) (stack : List κ) (a : α) : Option (List κ) :=
  match role a, stack with
  | .plain, stack => some stack
  | .opens k, stack => some (k :: stack)
  | .closes k, top :: stack => if top = k then some stack else none
  | .closes _, [] => none

/-- The kinds that a word leaves open, or `none` where a bracket does not match. -/
def check (role : α → Role κ) (stack : List κ) (w : List α) : Option (List κ) :=
  w.foldlM (checkStep role) stack

variable (stack : List κ)

@[simp] theorem check_nil : check role stack [] = some stack := rfl

@[simp] theorem check_cons (a : α) (w : List α) :
    check role stack (a :: w) = (checkStep role stack a).bind fun s => check role s w := by
  simp only [check, List.foldlM_cons]
  rfl

theorem check_append (v w : List α) :
    check role stack (v ++ w) = (check role stack v).bind fun s => check role s w := by
  induction v generalizing stack with
  | nil => rfl
  | cons a v ih =>
    rw [List.cons_append, check_cons, check_cons, Option.bind_assoc]
    exact Option.bind_congr fun s _ => ih s

variable {w : List α}

theorem Balanced.check_eq (h : Balanced role w) (stack : List κ) :
    check role stack w = some stack := by
  induction h generalizing stack with
  | nil => rfl
  | plain ha _ ih => simp [checkStep, ha, ih]
  | pair ho hc _ _ ihbody ihrest =>
    simp [checkStep, ho, hc, check_append, ihbody, ihrest]

/-- A word that closes the kinds of a stack, with balanced words between them. -/
inductive Closing (role : α → Role κ) : List κ → List α → Prop
  | nil {w : List α} : Balanced role w → Closing role [] w
  | cons {k : κ} {stack : List κ} {body rest : List α} {c : α} :
      Balanced role body → role c = .closes k → Closing role stack rest →
      Closing role (k :: stack) (body ++ c :: rest)

omit [DecidableEq κ] in
theorem Closing.append {stack : List κ} {v w : List α} (hv : Balanced role v)
    (hw : Closing role stack w) : Closing role stack (v ++ w) := by
  cases hw with
  | nil hw => exact .nil (hv.append hw)
  | cons hbody hc hrest =>
    rw [← List.append_assoc]
    exact .cons (hv.append hbody) hc hrest

theorem closing_of_check {stack : List κ} (h : check role stack w = some []) :
    Closing role stack w := by
  induction w generalizing stack with
  | nil =>
    obtain rfl : stack = [] := Option.some.inj h
    exact .nil .nil
  | cons a w ih =>
    rw [check_cons] at h
    obtain ⟨s, hstep, hrest⟩ := Option.bind_eq_some_iff.mp h
    have hclosing := ih hrest
    rcases ha : role a with k | k | _
    · obtain rfl : k :: stack = s := by simpa [checkStep, ha] using hstep
      cases hclosing with
      | @cons _ _ body rest c hbody hc htail =>
        have := htail.append (Balanced.wrap ha hc hbody)
        simpa using this
    · cases stack with
      | nil => simp [checkStep, ha] at hstep
      | cons top stack =>
        obtain ⟨rfl, rfl⟩ : top = k ∧ stack = s := by simpa [checkStep, ha] using hstep
        exact Closing.cons .nil ha hclosing
    · obtain rfl : stack = s := by simpa [checkStep, ha] using hstep
      exact hclosing.append (Balanced.single ha)

/-- The check with a stack decides whether a word is balanced. -/
theorem check_iff_balanced : check role [] w = some [] ↔ Balanced role w := by
  constructor
  · intro h
    cases closing_of_check h with
    | nil hw => exact hw
  · intro h
    exact h.check_eq []

end

end motioncore.brackets
