-- Which robots can share the database of the persistence service: when their leaves have
-- paths of their own, and when a restarted service finds the paths that were announced.
import MotionCore.Lib.Runs
import MotionCore.Persistence.Database

namespace motioncore.persistence

open motioncore.machine

/-- A leaf that was announced: who announced it, and as what. -/
structure Quad where
  class_ : Text
  instance_ : Text
  kind : Kind
  path : Text
deriving DecidableEq, Repr

namespace Quad

variable (q r : Quad)

def kb : Text := kb_name q.class_ q.instance_

def field : Text := tail_to_field q.path

def ltree_path : Text := join_path q.kb q.kind q.field

/-- The entry of an announce that asks for the leaf. -/
def entry : Entry := ⟨some q.kind, q.path, none, none⟩

/-- The leaf as `diff_topology` makes it. -/
def leaf : Leaf := Announce.leaf ⟨q.class_, q.instance_, [q.entry]⟩ q.entry q.kind

def SameRobot : Prop := q.class_ = r.class_ ∧ q.instance_ = r.instance_

instance : Decidable (q.SameRobot r) := inferInstanceAs (Decidable (_ ∧ _))

/-- The name of the second robot goes on where that of the first one ends, with the kind of
the first leaf and a beginning of its path. -/
def RunsInto : Prop :=
  (r.kb = q.kb ++ '.' :: q.kind.label ∧ q.field = r.kind.label ++ '.' :: r.field) ∨
    ∃ u, r.kb = q.kb ++ '.' :: (q.kind.label ++ '.' :: u) ∧
      q.field = u ++ '.' :: (r.kind.label ++ '.' :: r.field)

end Quad

/-- All leaves are declared in an empty database, one after the other. -/
def declareAll (qs : List Quad) : Option Database :=
  runs (fun db q => db.add_field q.kb q.leaf) .empty qs

/-- No two leaves share a path. -/
def PathsApart (qs : List Quad) : Prop :=
  ∀ q ∈ qs, ∀ r ∈ qs, q ≠ r → q.ltree_path ≠ r.ltree_path

instance (qs : List Quad) : Decidable (PathsApart qs) := by
  unfold PathsApart
  infer_instance

/-- What a restarted service loads for a robot has the paths that the robot announced. -/
def Reloads (qs : List Quad) : Prop :=
  ∀ db, declareAll qs = some db → ∀ q ∈ qs, ∀ t,
    ((db._load_existing_leaves q.kb q.class_ q.instance_).lookup t).isSome ↔
      ∃ r ∈ qs, r.SameRobot q ∧ r.path = t

/-- The names under which leaves can be kept apart: the paths are without dots, robots that
share a knowledge base announce the same paths but never in one kind, and no robot's name
goes on where the leaf of another one does. -/
structure WellNamed (qs : List Quad) : Prop where
  dotless : ∀ q ∈ qs, '.' ∉ q.path
  kinds : ∀ q ∈ qs, ∀ r ∈ qs, q.kb = r.kb → q.kind = r.kind → q.path = r.path → q = r
  shared : ∀ q ∈ qs, ∀ r ∈ qs, q.kb = r.kb → ∃ s ∈ qs, s.SameRobot q ∧ s.path = r.path
  ends : ∀ q ∈ qs, ∀ r ∈ qs, ¬ q.RunsInto r

/-! ## Splitting a path at its dots -/

theorem Kind.dot_not_mem (k : Kind) : '.' ∉ k.label := by cases k <;> decide

theorem Kind.label_injective {k k' : Kind} (h : k.label = k'.label) : k = k' := by
  cases k <;> cases k' <;> first | rfl | exact absurd h (by decide)

/-- What stands before a dot begins with the segment before the first dot. -/
theorem split_first_dot {a x w y : Text} (ha : '.' ∉ a) (h : a ++ '.' :: x = w ++ '.' :: y) :
    (w = a ∧ x = y) ∨ ∃ u, w = a ++ '.' :: u ∧ x = u ++ '.' :: y := by
  rcases List.append_eq_append_iff.mp h with ⟨m, hw, hx⟩ | ⟨m, ha', hy⟩
  · cases m with
    | nil =>
      rw [List.append_nil] at hw
      exact .inl ⟨hw, (List.cons.inj hx).2⟩
    | cons c u =>
      obtain ⟨rfl, -⟩ := List.cons.inj hx
      exact .inr ⟨u, hw, (List.cons.inj hx).2⟩
  · cases m with
    | nil =>
      rw [List.append_nil] at ha'
      exact .inl ⟨ha'.symm, (List.cons.inj hy).2.symm⟩
    | cons c u =>
      obtain ⟨rfl, -⟩ := List.cons.inj hy
      exact absurd (ha' ▸ List.mem_append_right _ List.mem_cons_self) ha

theorem gsub_field (p : Text) : gsub '.' '/' (tail_to_field p) = gsub '.' '/' p := by
  simp only [tail_to_field, gsub, List.map_map]
  apply List.map_congr_left
  intro c _
  by_cases h : c = '/'
  · subst h
    decide
  · simp [h]

theorem gsub_dot_eq_self {p : Text} (h : '.' ∉ p) : gsub '.' '/' p = p := by
  rw [gsub]
  apply (List.map_congr_left _).trans (List.map_id p)
  intro c hc
  have hne : c ≠ '.' := fun he => h (he ▸ hc)
  simp [hne]

theorem dot_not_mem_gsub (p : Text) : '.' ∉ gsub '.' '/' p := by
  rw [gsub, List.mem_map]
  rintro ⟨c, -, hc⟩
  by_cases h : c = '.'
  · rw [if_pos h] at hc
    exact absurd hc (by decide)
  · rw [if_neg h] at hc
    exact h hc

/-- Paths without dots are known by their fields. -/
theorem tail_to_field_inj {p p' : Text} (hp : '.' ∉ p) (hp' : '.' ∉ p')
    (h : tail_to_field p = tail_to_field p') : p = p' := by
  have hgsub := congrArg (gsub '.' '/') h
  rwa [gsub_field, gsub_field, gsub_dot_eq_self hp, gsub_dot_eq_self hp'] at hgsub

/-! ## Where two leaves meet -/

variable {q r : Quad}

theorem Quad.RunsInto.ltree_path_eq (h : q.RunsInto r) : q.ltree_path = r.ltree_path := by
  rcases h with ⟨hkb, hfield⟩ | ⟨u, hkb, hfield⟩ <;>
    simp [Quad.ltree_path, join_path, hkb, hfield]

theorem Quad.RunsInto.longer (h : q.RunsInto r) : q.kb <+: r.kb ∧ q.kb.length < r.kb.length := by
  rcases h with ⟨hkb, -⟩ | ⟨u, hkb, -⟩ <;>
  · rw [hkb]
    refine ⟨List.prefix_append _ _, ?_⟩
    simp

theorem Quad.RunsInto.ne (h : q.RunsInto r) : q ≠ r := by
  rintro rfl
  exact Nat.lt_irrefl _ h.longer.2

/-- Two leaves have one path only if a name runs into the other, or the robots share their
knowledge base and the leaves their kind and field. -/
theorem Quad.meet (h : q.ltree_path = r.ltree_path) :
    q.RunsInto r ∨ r.RunsInto q ∨ (q.kb = r.kb ∧ q.kind = r.kind ∧ q.field = r.field) := by
  have hinto : ∀ {q r : Quad} {w : Text}, r.kb = q.kb ++ '.' :: w →
      q.kind.label ++ '.' :: q.field = w ++ '.' :: (r.kind.label ++ '.' :: r.field) →
      q.RunsInto r := by
    intro q r w hkb hrest
    rcases split_first_dot (Kind.dot_not_mem _) hrest with ⟨rfl, hfield⟩ | ⟨u, rfl, hfield⟩
    · exact .inl ⟨hkb, hfield⟩
    · exact .inr ⟨u, hkb, hfield⟩
  have hsame : ∀ {q r : Quad}, q.kind.label ++ '.' :: q.field = r.kind.label ++ '.' :: r.field →
      q.kind = r.kind ∧ q.field = r.field := by
    intro q r hrest
    rcases split_first_dot (Kind.dot_not_mem _) hrest with ⟨hlabel, hfield⟩ | ⟨u, hlabel, -⟩
    · exact ⟨(Kind.label_injective hlabel).symm, hfield⟩
    · exact absurd (hlabel ▸ List.mem_append_right _ List.mem_cons_self) (Kind.dot_not_mem _)
  rcases List.append_eq_append_iff.mp h with ⟨m, hkb, hrest⟩ | ⟨m, hkb, hrest⟩
  · cases m with
    | nil =>
      rw [List.append_nil] at hkb
      exact .inr (.inr ⟨hkb.symm, hsame (List.cons.inj hrest).2⟩)
    | cons c w =>
      obtain ⟨rfl, -⟩ := List.cons.inj hrest
      exact .inl (hinto hkb (List.cons.inj hrest).2)
  · cases m with
    | nil =>
      rw [List.append_nil] at hkb
      obtain ⟨hkind, hfield⟩ := hsame (List.cons.inj hrest).2
      exact .inr (.inr ⟨hkb, hkind.symm, hfield.symm⟩)
    | cons c w =>
      obtain ⟨rfl, -⟩ := List.cons.inj hrest
      exact .inr (.inl (hinto hkb (List.cons.inj hrest).2))

/-! ## What is declared -/

def Row.Of (row : Row) (q : Quad) : Prop :=
  row.knowledge_base = q.kb ∧ row.label = q.kind ∧ row.name = q.field ∧ row.path = q.ltree_path

variable {db : Database}

theorem add_field_row {db' : Database} (h : db.add_field q.kb q.leaf = some db') :
    ∃ row, db'.rows = db.rows ++ [row] ∧ row.Of q := by
  unfold Database.add_field at h
  have hkind : q.leaf.kind = q.kind := rfl
  have htail : q.leaf.tail = q.path := rfl
  cases hk : q.kind <;> simp only [hkind, hk, Database.add_info_node, htail] at h <;>
    split at h <;> cases h <;> refine ⟨_, rfl, rfl, hk.symm, rfl, ?_⟩ <;>
    rw [Quad.ltree_path, hk] <;> rfl

variable {qs : List Quad}

theorem declareAll_rows (h : declareAll qs = some db) :
    (∀ row ∈ db.rows, ∃ q ∈ qs, row.Of q) ∧ ∀ q ∈ qs, ∃ row ∈ db.rows, row.Of q := by
  induction qs using List.reverseRecOn generalizing db with
  | nil =>
    cases h
    exact ⟨fun _ h => absurd h List.not_mem_nil, fun _ h => absurd h List.not_mem_nil⟩
  | append_singleton qs q ih =>
    rw [declareAll, runs_append] at h
    obtain ⟨db₁, h₁, h₂⟩ := Option.bind_eq_some_iff.mp h
    rw [runs_cons] at h₂
    obtain ⟨db₂, h₂, h₃⟩ := Option.bind_eq_some_iff.mp h₂
    cases h₃
    obtain ⟨row, hrows, hrow⟩ := add_field_row h₂
    obtain ⟨hfrom, hall⟩ := ih h₁
    rw [hrows]
    refine ⟨fun row' hrow' => ?_, fun q' hq' => ?_⟩
    · rcases List.mem_append.mp hrow' with hrow' | hrow'
      · obtain ⟨q', hq', hof⟩ := hfrom row' hrow'
        exact ⟨q', List.mem_append_left _ hq', hof⟩
      · rw [List.mem_singleton.mp hrow']
        exact ⟨q, List.mem_append_right _ List.mem_cons_self, hrow⟩
    · rcases List.mem_append.mp hq' with hq' | hq'
      · obtain ⟨row', hrow', hof⟩ := hall q' hq'
        exact ⟨row', List.mem_append_left _ hrow', hof⟩
      · rw [List.mem_singleton.mp hq']
        exact ⟨row, List.mem_append_right _ List.mem_cons_self, hrow⟩

/-- Leaves with paths of their own can all be declared. -/
theorem exists_declareAll (hqs : qs.Nodup) (h : PathsApart qs) : ∃ db, declareAll qs = some db := by
  induction qs using List.reverseRecOn with
  | nil => exact ⟨_, rfl⟩
  | append_singleton qs q ih =>
    obtain ⟨hnodup, -, hnew⟩ := List.nodup_append.mp hqs
    obtain ⟨db, hdb⟩ := ih hnodup fun a ha b hb =>
      h a (List.mem_append_left _ ha) b (List.mem_append_left _ hb)
    have hpath : join_path q.kb q.leaf.kind (tail_to_field q.leaf.tail) ∉ db.paths := by
      intro hmem
      obtain ⟨row, hrow, hp⟩ := List.mem_map.mp hmem
      obtain ⟨r, hr, hof⟩ := (declareAll_rows hdb).1 row hrow
      apply h r (List.mem_append_left _ hr) q (List.mem_append_right _ List.mem_cons_self)
        (hnew r hr q List.mem_cons_self)
      exact hof.2.2.2.symm.trans hp
    obtain ⟨db', -, hadd, -⟩ := Database.add_field_eq_some hpath
    refine ⟨db', ?_⟩
    rw [declareAll, runs_append]
    apply Option.bind_eq_some_iff.mpr
    refine ⟨db, hdb, ?_⟩
    rw [runs_cons, hadd]
    rfl

/-- The tails that a restarted service loads for a robot. -/
theorem isSome_reload (h : declareAll qs = some db) (q : Quad) (t : Text) :
    ((db._load_existing_leaves q.kb q.class_ q.instance_).lookup t).isSome ↔
      ∃ r ∈ qs, r.kb = q.kb ∧ gsub '.' '/' r.path = t := by
  rw [Database.isSome_lookup_load]
  obtain ⟨hfrom, hall⟩ := declareAll_rows h
  constructor
  · rintro ⟨row, hmem, hkb, hname⟩
    obtain ⟨r, hr, hof⟩ := hfrom row hmem
    refine ⟨r, hr, hof.1.symm.trans hkb, ?_⟩
    rw [← gsub_field, ← hname, hof.2.2.1]
    rfl
  · rintro ⟨r, hr, hkb, hpath⟩
    obtain ⟨row, hmem, hof⟩ := hall r hr
    refine ⟨row, hmem, hof.1.trans hkb, ?_⟩
    rw [hof.2.2.1, ← hpath]
    exact gsub_field r.path

/-! ## Which names keep the leaves apart -/

theorem PathsApart.of_wellNamed (h : WellNamed qs) : PathsApart qs := by
  intro q hq r hr hne hpath
  rcases Quad.meet hpath with hinto | hinto | ⟨hkb, hkind, hfield⟩
  · exact h.ends q hq r hr hinto
  · exact h.ends r hr q hq hinto
  · have hsame : q.path = r.path := tail_to_field_inj (h.dotless q hq) (h.dotless r hr) hfield
    exact hne (h.kinds q hq r hr hkb hkind hsame)

theorem Reloads.of_wellNamed (h : WellNamed qs) : Reloads qs := by
  intro db hdb q hq t
  rw [isSome_reload hdb]
  constructor
  · rintro ⟨r, hr, hkb, rfl⟩
    obtain ⟨s, hs, hrobot, hpath⟩ := h.shared q hq r hr hkb.symm
    exact ⟨s, hs, hrobot, hpath.trans (gsub_dot_eq_self (h.dotless r hr)).symm⟩
  · rintro ⟨r, hr, hrobot, rfl⟩
    refine ⟨r, hr, ?_, gsub_dot_eq_self (h.dotless r hr)⟩
    rw [Quad.kb, Quad.kb, hrobot.1, hrobot.2]

/-- Leaves that are different have different paths, and a restarted service finds for each
robot the paths it announced, exactly when the leaves are named well. -/
theorem leaves_apart_iff {qs : List Quad} (hqs : qs.Nodup) :
    PathsApart qs ∧ Reloads qs ↔ WellNamed qs := by
  constructor
  · rintro ⟨hapart, hreload⟩
    obtain ⟨db, hdb⟩ := exists_declareAll hqs hapart
    have htails : ∀ q ∈ qs, ∀ t, (∃ r ∈ qs, r.kb = q.kb ∧ gsub '.' '/' r.path = t) ↔
        ∃ r ∈ qs, r.SameRobot q ∧ r.path = t := by
      intro q hq t
      rw [← isSome_reload hdb, hreload db hdb q hq]
    have hdots : ∀ q ∈ qs, '.' ∉ q.path := by
      intro q hq
      obtain ⟨r, -, -, hpath⟩ := (htails q hq q.path).mpr ⟨q, hq, ⟨rfl, rfl⟩, rfl⟩
      rw [← hpath]
      exact dot_not_mem_gsub r.path
    refine ⟨hdots, fun q hq r hr hkb hkind hpath => ?_, fun q hq r hr hkb => ?_,
      fun q hq r hr hinto => hapart q hq r hr hinto.ne hinto.ltree_path_eq⟩
    · by_contra hne
      apply hapart q hq r hr hne
      rw [Quad.ltree_path, Quad.ltree_path, Quad.field, Quad.field, hkb, hkind, hpath]
    · apply (htails q hq r.path).mp
      exact ⟨r, hr, hkb.symm, gsub_dot_eq_self (hdots r hr)⟩
  · intro h
    exact ⟨.of_wellNamed h, .of_wellNamed h⟩

def farm : List Quad :=
  [⟨"farm_soil".toList, "a".toList, .stream, "cimis/sample".toList⟩,
    ⟨"pump".toList, "a".toList, .status, "state".toList⟩]

theorem farm_apart : PathsApart farm ∧ Reloads farm :=
  (leaves_apart_iff (by decide)).mpr
    ⟨by decide, by decide, by decide, fun q hq r hr h => by
      have hlonger := h.longer
      clear h
      revert q r
      decide⟩

/-- Two robots whose class and instance are cut differently, and a path with a dot. -/
def recut : List Quad :=
  [⟨"a_b".toList, "c".toList, .stream, "p".toList⟩,
    ⟨"a".toList, "b_c".toList, .stream, "p".toList⟩]

def dotted : List Quad := [⟨"a".toList, "b".toList, .stream, "p.q".toList⟩]

theorem names_mix_leaves : ¬ PathsApart recut ∧ ¬ Reloads dotted := by
  constructor
  · decide
  · intro h
    have hnodup : dotted.Nodup := by decide
    obtain ⟨db, hdb⟩ := exists_declareAll hnodup (by decide)
    have hloaded := (h db hdb _ List.mem_cons_self "p.q".toList).mpr
      ⟨_, List.mem_cons_self, ⟨rfl, rfl⟩, rfl⟩
    rw [isSome_reload hdb] at hloaded
    revert hloaded
    decide

end motioncore.persistence
