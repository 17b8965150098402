-- Lua's string patterns, anchored at both ends: single characters and runs of characters of a
-- class, as long as possible, with backtracking. A run whose characters cannot start what follows
-- it is matched in one way only.
import Mathlib.Data.List.TakeWhile
import Mathlib.Tactic.Common

namespace motioncore.luapattern

variable {α : Type*}

/-- One character of a class, at most one, any number, or at least one. -/
inductive Item (α : Type*) where
  | one (p : α → Bool)
  | opt (p : α → Bool)
  | star (p : α → Bool)
  | plus (p : α → Bool)

/-- How many characters the item may take, the most first. -/
def Item.lengths (s : List α) : Item α → List Nat
  | .one p => if s.head?.any p then [1] else []
  | .opt p => if s.head?.any p then [1, 0] else [0]
  | .star p => (List.range ((s.takeWhile p).length + 1)).reverse
  | .plus p => (List.range (s.takeWhile p).length).reverse.map (· + 1)

/-- The first way to cut the text into the pieces of the items. -/
def split : List (Item α) → List α → Option (List (List α))
  | [], [] => some []
  | [], _ :: _ => none
  | i :: is, s => (i.lengths s).findSome? fun n => (split is (s.drop n)).map (s.take n :: ·)

theorem split_cons (i : Item α) (is : List (Item α)) (s : List α) : split (i :: is) s =
    (i.lengths s).findSome? fun n => (split is (s.drop n)).map (s.take n :: ·) := rfl

/-- A pattern gives each of its items the number of its capture, or zero. -/
abbrev Pattern (α : Type*) := List (Nat × Item α)

/-- What the pieces of the items with the number make together. -/
def capture (pat : Pattern α) (pieces : List (List α)) (k : Nat) : List α :=
  ((pat.map Prod.fst).zip pieces).flatMap fun (j, piece) => if j = k then piece else []

def matchPattern (pat : Pattern α) (s : List α) : Option (Nat → List α) :=
  (split (pat.map Prod.snd) s).map (capture pat)

variable {p : α → Bool} {is : List (Item α)} {cs rest : List α} {c : α}

/-! ## Runs -/

def Run (p : α → Bool) (cs rest : List α) : Prop :=
  (∀ x ∈ cs, p x) ∧ ∀ x ∈ rest.head?, p x = false

theorem Run.takeWhile (h : Run p cs rest) : (cs ++ rest).takeWhile p = cs := by
  obtain ⟨hcs, hrest⟩ := h
  induction cs with
  | nil =>
    cases rest with
    | nil => rfl
    | cons c rest => simp [hrest c rfl]
  | cons c cs ih =>
    have hc : p c := hcs c List.mem_cons_self
    simp [hc, ih fun x hx => hcs x (List.mem_cons_of_mem c hx)]

theorem split_one (hc : p c) :
    split (.one p :: is) (c :: rest) = (split is rest).map ([c] :: ·) := by
  cases hsplit : split is rest with
  | none => simp [split_cons, Item.lengths, hc, hsplit]
  | some pieces => simp [split_cons, Item.lengths, hc, hsplit]

theorem split_one_none (h : ∀ x ∈ rest.head?, p x = false) : split (.one p :: is) rest = none := by
  cases rest with
  | nil => rfl
  | cons c rest => simp [split_cons, Item.lengths, h c rfl]

theorem split_opt_none (h : ∀ x ∈ rest.head?, p x = false) :
    split (.opt p :: is) rest = (split is rest).map ([] :: ·) := by
  have hhead : rest.head?.any p = false := by
    cases rest with
    | nil => rfl
    | cons c rest => exact h c rfl
  cases hsplit : split is rest with
  | none => simp [split_cons, Item.lengths, hhead, hsplit]
  | some pieces => simp [split_cons, Item.lengths, hhead, hsplit]

variable {pieces : List (List α)}

theorem split_opt_some (hc : p c) (h : split is rest = some pieces) :
    split (.opt p :: is) (c :: rest) = some ([c] :: pieces) := by
  simp [split_cons, Item.lengths, hc, h]

/-- The longest run is tried first. -/
theorem split_star_longest (h : Run p cs rest) (hrest : split is rest = some pieces) :
    split (.star p :: is) (cs ++ rest) = some (cs :: pieces) := by
  rw [split_cons, Item.lengths, h.takeWhile, List.range_succ]
  simp [hrest]

/-- With nothing else to try, a part of the run would have to do. -/
theorem findSome_reverse_range {β : Type*} {f : Nat → Option β} {n : Nat}
    (h : ∀ m < n, f m = none) : (List.range (n + 1)).reverse.findSome? f = f n := by
  rw [List.range_succ, List.reverse_append, List.reverse_singleton, List.singleton_append,
    List.findSome?_cons]
  cases hn : f n with
  | some b => rfl
  | none =>
    rw [List.findSome?_eq_none_iff]
    intro m hm
    exact h m (List.mem_range.mp (List.mem_reverse.mp hm))

theorem part_of_run (h : Run p cs rest) {m : Nat} (hm : m < cs.length) :
    ∃ x xs, (cs ++ rest).drop m = x :: xs ∧ p x := by
  refine ⟨cs[m], cs.drop (m + 1) ++ rest, ?_, h.1 _ (List.getElem_mem hm)⟩
  rw [List.drop_append_of_le_length (Nat.le_of_lt hm), List.drop_eq_getElem_cons hm,
    List.cons_append]

/-- A run is taken whole if what follows cannot start with its characters. -/
theorem split_star (h : Run p cs rest) (hforced : ∀ x xs, p x → split is (x :: xs) = none) :
    split (.star p :: is) (cs ++ rest) = (split is rest).map (cs :: ·) := by
  rw [split_cons, Item.lengths, h.takeWhile, findSome_reverse_range]
  · simp
  · intro m hm
    obtain ⟨x, xs, hdrop, hx⟩ := part_of_run h hm
    rw [hdrop, hforced x xs hx]
    rfl

theorem split_plus (h : Run p cs rest) (hforced : ∀ x xs, p x → split is (x :: xs) = none) :
    split (.plus p :: is) (cs ++ rest) =
      if cs = [] then none else (split is rest).map (cs :: ·) := by
  rw [split_cons, Item.lengths, h.takeWhile]
  cases cs with
  | nil => rfl
  | cons c cs =>
    rw [if_neg (List.cons_ne_nil c cs), List.length_cons,
      List.findSome?_map, findSome_reverse_range]
    · simp
    · intro m hm
      obtain ⟨x, xs, hdrop, hx⟩ := part_of_run h (m := m + 1) (by simpa using hm)
      simp only [Function.comp_apply]
      rw [hdrop, hforced x xs hx]
      rfl

theorem split_plus_longest (h : Run p cs rest) (hne : cs ≠ [])
    (hrest : split is rest = some pieces) :
    split (.plus p :: is) (cs ++ rest) = some (cs :: pieces) := by
  obtain ⟨c, cs, rfl⟩ := List.exists_cons_of_ne_nil hne
  rw [split_cons, Item.lengths, h.takeWhile, List.length_cons, List.range_succ]
  simp [hrest]

theorem split_opt_both (hc : p c) (h : split is rest = none)
    (h' : split is (c :: rest) = none) : split (.opt p :: is) (c :: rest) = none := by
  simp [split_cons, Item.lengths, hc, h, h']

/-! ## What a match is -/

/-- Whatever a run takes, the rest is matched by what follows. -/
theorem split_star_some {s : List α} (h : split (.star p :: is) s = some pieces) :
    ∃ cs rest pieces', s = cs ++ rest ∧ (∀ x ∈ cs, p x) ∧ split is rest = some pieces' ∧
      pieces = cs :: pieces' := by
  rw [split_cons, Item.lengths] at h
  obtain ⟨n, hn, hsome⟩ := List.exists_of_findSome?_eq_some h
  obtain ⟨pieces', hrest, rfl⟩ := Option.map_eq_some_iff.mp hsome
  refine ⟨s.take n, s.drop n, pieces', (List.take_append_drop n s).symm, fun x hx => ?_, hrest, rfl⟩
  have hle : n ≤ (s.takeWhile p).length := by
    rw [List.mem_reverse, List.mem_range] at hn
    omega
  have hpre : s.take n <+: s.takeWhile p :=
    List.prefix_of_prefix_length_le (List.take_prefix n s) (List.takeWhile_prefix p)
      (Nat.le_trans (List.length_take_le n s) hle)
  exact List.mem_takeWhile_imp (hpre.subset hx)

/-- A run may be empty. -/
theorem split_star_isSome {s : List α} (h : (split is s).isSome) :
    (split (.star p :: is) s).isSome := by
  obtain ⟨pieces, hpieces⟩ := Option.isSome_iff_exists.mp h
  rw [split_cons, Item.lengths, List.findSome?_isSome_iff]
  exact ⟨0, by simp, by simp [hpieces]⟩

end motioncore.luapattern
