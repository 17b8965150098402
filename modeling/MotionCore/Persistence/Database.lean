-- The database of the persistence service (server/persistence/lib/persistence.lua): the
-- names under which the leaves of the robots are stored, the rows that the construct
-- layer declares, and the leaves that a restarted service loads from them.
import Mathlib.Data.List.AList
import Mathlib.Data.List.Induction

namespace motioncore.persistence

/-! ## Names -/

/-- A Lua string, one character after the other. -/
abbrev Text := List Char

/-- `s:gsub(a, b)` where both are single characters. -/
def gsub (a b : Char) (s : Text) : Text := s.map fun c => if c = a then b else c

/-- "cimis/station/sample" becomes "cimis.station.sample". -/
def tail_to_field (tail : Text) : Text := gsub '/' '.' tail

/-- The row types that the service declares. -/
inductive Kind where
  | stream
  | status
deriving DecidableEq, Repr

def Kind.label : Kind → Text
  | .stream => "stream".toList
  | .status => "status".toList

def instance_key (class_ instance_ : Text) : Text := class_ ++ '/' :: instance_

def kb_name (class_ instance_ : Text) : Text := class_ ++ '_' :: instance_

def full_key (class_ instance_ tail : Text) : Text := class_ ++ '/' :: (instance_ ++ '/' :: tail)

def join_path (kb : Text) (kind : Kind) (field : Text) : Text :=
  kb ++ '.' :: (kind.label ++ '.' :: field)

/-! ## Topology announces -/

/-- An entry of an announce. The kind is `none` when it is neither stream nor status. -/
structure Entry where
  kind : Option Kind
  path : Text
  length : Option Nat
  desc : Option Text
deriving DecidableEq, Repr

structure Announce where
  class_ : Text
  instance_ : Text
  entries : List Entry
deriving DecidableEq, Repr

structure Leaf where
  tail : Text
  full_key : Text
  kind : Kind
  length : Option Nat
  desc : Option Text
  ltree_path : Text
deriving DecidableEq, Repr

abbrev Leaves := AList fun _ : Text => Leaf

def Leaves.all (leaves : Leaves) : List Leaf := leaves.entries.map fun entry => entry.2

/-- The leaves of the first table whose tail the second one does not have. -/
def Leaves.without (leaves others : Leaves) : Leaves where
  entries := leaves.entries.filter fun entry => (others.lookup entry.1).isNone
  nodupKeys := leaves.nodupKeys.sublist List.filter_sublist

def Announce.leaf (a : Announce) (e : Entry) (kind : Kind) : Leaf where
  tail := e.path
  full_key := persistence.full_key a.class_ a.instance_ e.path
  kind := kind
  length := e.length
  desc := e.desc
  ltree_path := join_path (kb_name a.class_ a.instance_) kind (tail_to_field e.path)

/-- The leaves of an announce, where an entry replaces an earlier one of the same path. -/
def Announce.desired (a : Announce) : Leaves :=
  a.entries.foldl (fun desired e =>
    match e.kind with
    | some kind => desired.insert e.path (a.leaf e kind)
    | none => desired) ∅

/-! ## Rows -/

structure Row where
  knowledge_base : Text
  label : Kind
  name : Text
  description : Text
  /-- The property `stream_length`, which stream rows have. -/
  stream_length : Option Nat
  path : Text
deriving DecidableEq, Repr

/-- The table of nodes. Its paths are unique. -/
structure Database where
  rows : List Row
  unique : (rows.map Row.path).Nodup

namespace Database

def empty : Database := ⟨[], List.nodup_nil⟩

def paths (db : Database) : List Text := db.rows.map Row.path

/-- `add_info_node`: the row is inserted, and a path that exists is refused. -/
def add_info_node (db : Database) (row : Row) : Option Database :=
  if h : row.path ∈ db.paths then none
  else some ⟨db.rows ++ [row], by
    rw [List.map_append]
    exact List.Nodup.append db.unique (List.nodup_singleton _) (by simpa [paths] using h)⟩

/-- The field of a leaf is declared in a knowledge base, as a stream or as a status. -/
def add_field (db : Database) (kb : Text) (leaf : Leaf) : Option Database :=
  let field := tail_to_field leaf.tail
  let desc := leaf.desc.getD leaf.tail
  match leaf.kind with
  | .stream => db.add_info_node
      ⟨kb, .stream, field, desc, some (leaf.length.getD 100), join_path kb .stream field⟩
  | .status => db.add_info_node ⟨kb, .status, field, desc, none, join_path kb .status field⟩

def _kb_exists (db : Database) (kb : Text) : Bool := db.rows.any fun row => row.knowledge_base = kb

def search (db : Database) (kb : Text) (kind : Kind) : List Row :=
  db.rows.filter fun row => row.knowledge_base = kb ∧ row.label = kind

/-- The leaves of a knowledge base, with their tails made from the names of the rows. -/
def _load_existing_leaves (db : Database) (kb class_ instance_ : Text) : Leaves :=
  [Kind.stream, Kind.status].foldl (fun out kind =>
    (db.search kb kind).foldl (fun out row =>
      let tail := gsub '.' '/' row.name
      out.insert tail
        ⟨tail, full_key class_ instance_ tail, kind, none, none, row.path⟩) out) ∅

end Database

/-! ## Lemmas -/

theorem Leaves.mem_all {leaves : Leaves} {l : Leaf} :
    l ∈ leaves.all ↔ ∃ t, leaves.lookup t = some l := by
  simp only [Leaves.all, List.mem_map, Sigma.exists]
  constructor
  · rintro ⟨t, l', hmem, rfl⟩
    exact ⟨t, AList.mem_lookup_iff.mpr hmem⟩
  · rintro ⟨t, h⟩
    exact ⟨t, l, AList.mem_lookup_iff.mp h, rfl⟩

theorem Leaves.lookup_without (leaves others : Leaves) (t : Text) :
    (leaves.without others).lookup t =
      if (others.lookup t).isNone then leaves.lookup t else none := by
  apply Option.ext
  intro l
  rw [← Option.mem_def, AList.mem_lookup_iff, Leaves.without, List.mem_filter,
    ← AList.mem_lookup_iff, Option.mem_def]
  by_cases h : (others.lookup t).isNone = true <;> simp [h]

section

variable (a : Announce)

/-- The leaf of a path is that of an entry with the path, and there is one for each entry. -/
theorem Announce.desired_spec (t : Text) : (∀ l, a.desired.lookup t = some l →
      ∃ e ∈ a.entries, e.path = t ∧ ∃ k, e.kind = some k ∧ l = a.leaf e k) ∧
      ∀ e ∈ a.entries, e.path = t → e.kind.isSome → (a.desired.lookup t).isSome := by
  unfold Announce.desired
  generalize ha : a.entries = entries
  clear ha
  induction entries using List.reverseRecOn with
  | nil => simp
  | append_singleton entries e ih =>
    rw [List.foldl_append, List.foldl_cons, List.foldl_nil]
    obtain ⟨hfrom, hall⟩ := ih
    cases hk : e.kind with
    | none =>
      refine ⟨fun l hl => ?_, fun e' he' ht hsome => ?_⟩
      · obtain ⟨e', he', hrest⟩ := hfrom l hl
        exact ⟨e', List.mem_append_left _ he', hrest⟩
      · rcases List.mem_append.mp he' with he' | he'
        · exact hall e' he' ht hsome
        · rw [List.mem_singleton.mp he', hk] at hsome
          cases hsome
    | some k =>
      dsimp only
      by_cases ht : t = e.path
      · subst ht
        rw [AList.lookup_insert]
        refine ⟨fun l hl => ?_, fun _ _ _ _ => rfl⟩
        exact ⟨e, List.mem_append_right _ (List.mem_singleton_self e), rfl, k, hk,
          (Option.some.inj hl).symm⟩
      · rw [AList.lookup_insert_ne ht]
        refine ⟨fun l hl => ?_, fun e' he' ht' hsome => ?_⟩
        · obtain ⟨e', he', hrest⟩ := hfrom l hl
          exact ⟨e', List.mem_append_left _ he', hrest⟩
        · rcases List.mem_append.mp he' with he' | he'
          · exact hall e' he' ht' hsome
          · rw [List.mem_singleton.mp he'] at ht'
            exact absurd ht'.symm ht

end

namespace Database

variable {db : Database}
variable {kb : Text}

theorem add_field_eq_some {leaf : Leaf}
    (h : join_path kb leaf.kind (tail_to_field leaf.tail) ∉ db.paths) :
    ∃ db' row, db.add_field kb leaf = some db' ∧ db'.rows = db.rows ++ [row] ∧
      row.path = join_path kb leaf.kind (tail_to_field leaf.tail) := by
  unfold add_field
  cases hk : leaf.kind <;> rw [hk] at h <;> simp only [add_info_node, dif_neg h] <;>
    exact ⟨_, _, rfl, rfl, rfl⟩

theorem mem_search {kind : Kind} {row : Row} :
    row ∈ db.search kb kind ↔ row ∈ db.rows ∧ row.knowledge_base = kb ∧ row.label = kind := by
  simp [search]

theorem isSome_lookup_load {class_ instance_ t : Text} :
    ((db._load_existing_leaves kb class_ instance_).lookup t).isSome ↔
      ∃ row ∈ db.rows, row.knowledge_base = kb ∧ gsub '.' '/' row.name = t := by
  have hrows : ∀ (kind : Kind) (rows : List Row) (out : Leaves),
      ((rows.foldl (fun out row =>
        let tail := gsub '.' '/' row.name
        out.insert tail ⟨tail, full_key class_ instance_ tail, kind, none, none, row.path⟩)
        out).lookup t).isSome ↔
        (out.lookup t).isSome ∨ ∃ row ∈ rows, gsub '.' '/' row.name = t := by
    intro kind rows
    induction rows with
    | nil => simp
    | cons row rows ih =>
      intro out
      rw [List.foldl_cons, ih]
      by_cases h : t = gsub '.' '/' row.name
      · subst h
        simp
      · rw [AList.lookup_insert_ne h]
        simp [Ne.symm h]
  simp only [_load_existing_leaves, List.foldl_cons, List.foldl_nil, hrows, AList.lookup_empty,
    Option.isSome_none, Bool.false_eq_true, false_or, mem_search]
  constructor
  · rintro (⟨row, ⟨hmem, hkb, -⟩, hname⟩ | ⟨row, ⟨hmem, hkb, -⟩, hname⟩) <;>
      exact ⟨row, hmem, hkb, hname⟩
  · rintro ⟨row, hmem, hkb, hname⟩
    cases hl : row.label with
    | stream => exact .inl ⟨row, ⟨hmem, hkb, hl⟩, hname⟩
    | status => exact .inr ⟨row, ⟨hmem, hkb, hl⟩, hname⟩

end Database

end motioncore.persistence
