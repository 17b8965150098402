-- The persistence service (server/persistence/lib/persistence.lua and main.lua): what it
-- knows of the robots, its subscriptions, and how it takes in a topology announce.
import MotionCore.Lib.Runs
import MotionCore.Persistence.Database

namespace motioncore.persistence

open motioncore.machine

/-! ## State -/

structure Instance where
  class_ : Text
  instance_ : Text
  kb_name : Text
  leaves : Leaves
  desired : Leaves
  kb_already : Bool
  pending_added : Leaves
  pending_removed : Leaves
  constructed : Bool

/-- The subscriptions: those that the client holds open, each with the key it is for, and
those that the pump polls, by key. -/
structure Subs where
  next : Nat
  live : List (Nat × Text)
  data_subs : AList fun _ : Text => Nat × Leaf

structure Service where
  db : Database
  instances : AList fun _ : Text => Instance
  subs : Subs

/-- `M.new` on a database, before the first announce. -/
def Service.new (db : Database) : Service := ⟨db, ∅, ⟨0, [], ∅⟩⟩

/-! ## Subscriptions -/

def Subs.open_added_sub (subs : Subs) (leaf : Leaf) : Subs where
  next := subs.next + 1
  live := subs.live ++ [(subs.next, leaf.full_key)]
  data_subs := subs.data_subs.insert leaf.full_key (subs.next, leaf)

def Subs.open_added_subs (subs : Subs) (added : Leaves) : Subs :=
  added.all.foldl open_added_sub subs

def Subs.close_removed_sub (subs : Subs) (leaf : Leaf) : Subs :=
  match subs.data_subs.lookup leaf.full_key with
  | some (sub, _) =>
    { subs with
      live := subs.live.filter fun l => l.1 ≠ sub
      data_subs := subs.data_subs.erase leaf.full_key }
  | none => subs

def Subs.close_removed_subs (subs : Subs) (removed : Leaves) : Subs :=
  removed.all.foldl close_removed_sub subs

/-! ## Announces -/

def Announce.key (a : Announce) : Text := instance_key a.class_ a.instance_

def Announce.kb (a : Announce) : Text := kb_name a.class_ a.instance_

/-- The state of an instance that was not heard of. -/
def Announce.fresh (a : Announce) : Instance where
  class_ := a.class_
  instance_ := a.instance_
  kb_name := a.kb
  leaves := ∅
  desired := ∅
  kb_already := false
  pending_added := ∅
  pending_removed := ∅
  constructed := false

/-- The announce is compared with the leaves in memory. The names must not be empty. -/
def Service.diff_topology (s : Service) (a : Announce) : Option Instance :=
  if a.class_ = [] ∨ a.instance_ = [] then none
  else
    let state := (s.instances.lookup a.key).getD a.fresh
    some { state with
      desired := a.desired
      kb_already := s.db._kb_exists a.kb
      pending_added := a.desired.without state.leaves
      pending_removed := state.leaves.without a.desired }

/-- The fields that the database does not have yet are declared, once for an instance. -/
def Database.reconcile_schema (db : Database) (state : Instance) : Option (Database × Instance) :=
  if state.constructed then some (db, state)
  else
    let db_existing :=
      if state.kb_already then db._load_existing_leaves state.kb_name state.class_ state.instance_
      else ∅
    let schema_added := state.pending_added.without db_existing
    let add := fun (db : Database) leaf => db.add_field state.kb_name leaf
    (runs add db schema_added.all).map fun db =>
      (db, { state with
        leaves := state.desired
        constructed := true
        pending_added := ∅
        pending_removed := ∅ })

/-- Subscriptions are opened, then the schema is reconciled, then subscriptions are closed.
The service stops where one of these raises. -/
def handle_topology (s : Service) (a : Announce) : Option Service := do
  let state ← s.diff_topology a
  let subs := s.subs.open_added_subs state.pending_added
  let (db, state') ← s.db.reconcile_schema state
  some {
    db := db
    instances := s.instances.insert a.key state'
    subs := subs.close_removed_subs state.pending_removed }

/-! ## What the subscriptions are -/

/-- The client holds one subscription for each of the keys, and the pump polls it. -/
structure Subs.Exact (subs : Subs) (keys : Text → Prop) : Prop where
  fresh : ∀ l ∈ subs.live, l.1 < subs.next
  ids : (subs.live.map Prod.fst).Nodup
  polled : ∀ sub key, (sub, key) ∈ subs.live ↔
    ∃ leaf, subs.data_subs.lookup key = some (sub, leaf)
  keys_iff : ∀ key, (subs.data_subs.lookup key).isSome ↔ keys key

namespace Subs

variable {subs : Subs} {keys : Text → Prop}

theorem Exact.congr {keys' : Text → Prop} (h : subs.Exact keys) (hk : ∀ key, keys key ↔ keys' key) :
    subs.Exact keys' where
  fresh := h.fresh
  ids := h.ids
  polled := h.polled
  keys_iff key := (h.keys_iff key).trans (hk key)

theorem Exact.open_iff (h : subs.Exact keys) (key : Text) :
    (∃ sub, (sub, key) ∈ subs.live) ↔ keys key := by
  rw [← h.keys_iff, Option.isSome_iff_exists]
  constructor
  · rintro ⟨sub, hsub⟩
    obtain ⟨leaf, hleaf⟩ := (h.polled sub key).mp hsub
    exact ⟨_, hleaf⟩
  · rintro ⟨⟨sub, leaf⟩, hleaf⟩
    exact ⟨sub, (h.polled sub key).mpr ⟨leaf, hleaf⟩⟩

theorem Exact.once (h : subs.Exact keys) : (subs.live.map Prod.snd).Nodup := by
  apply (List.Nodup.of_map _ h.ids).map_on
  rintro ⟨sub, key⟩ hsub ⟨sub', key'⟩ hsub' heq
  obtain rfl : key = key' := heq
  obtain ⟨leaf, hleaf⟩ := (h.polled sub key).mp hsub
  obtain ⟨leaf', hleaf'⟩ := (h.polled sub' key).mp hsub'
  rw [hleaf] at hleaf'
  rw [(Prod.mk.inj (Option.some.inj hleaf')).1]

theorem Exact.open_added_sub (h : subs.Exact keys) {leaf : Leaf} (hnew : ¬ keys leaf.full_key) :
    (subs.open_added_sub leaf).Exact fun key => keys key ∨ key = leaf.full_key := by
  have hnone : subs.data_subs.lookup leaf.full_key = none := by
    rw [← Option.not_isSome_iff_eq_none, h.keys_iff]
    exact hnew
  have hnotin : ∀ sub, (sub, leaf.full_key) ∉ subs.live := by
    intro sub hsub
    obtain ⟨l, hl⟩ := (h.polled sub leaf.full_key).mp hsub
    rw [hnone] at hl
    cases hl
  refine ⟨fun l hl => ?_, ?_, fun sub key => ?_, fun key => ?_⟩
  · rcases List.mem_append.mp hl with hl | hl
    · exact Nat.lt_succ_of_lt (h.fresh l hl)
    · rw [List.mem_singleton.mp hl]
      exact Nat.lt_succ_self _
  · change ((subs.live ++ [(subs.next, leaf.full_key)]).map Prod.fst).Nodup
    rw [List.map_append]
    refine h.ids.append (List.nodup_singleton _) ?_
    intro id hid hid'
    obtain ⟨l, hl, rfl⟩ := List.mem_map.mp hid
    have hlt := h.fresh l hl
    simp at hid'
    omega
  · change (sub, key) ∈ subs.live ++ [(subs.next, leaf.full_key)] ↔
      ∃ l, (subs.data_subs.insert leaf.full_key (subs.next, leaf)).lookup key = some (sub, l)
    by_cases hkey : key = leaf.full_key
    · subst hkey
      rw [AList.lookup_insert]
      simp [hnotin sub, eq_comm]
    · rw [AList.lookup_insert_ne hkey, ← h.polled]
      simp [hkey]
  · change ((subs.data_subs.insert leaf.full_key (subs.next, leaf)).lookup key).isSome ↔ _
    by_cases hkey : key = leaf.full_key
    · subst hkey
      simp
    · rw [AList.lookup_insert_ne hkey, h.keys_iff]
      simp [hkey]

theorem Exact.open_added (h : subs.Exact keys) {added : List Leaf}
    (hnew : ∀ l ∈ added, ¬ keys l.full_key) (hapart : (added.map Leaf.full_key).Nodup) :
    (added.foldl Subs.open_added_sub subs).Exact
      fun key => keys key ∨ ∃ l ∈ added, key = l.full_key := by
  induction added generalizing subs keys with
  | nil => exact h.congr fun key => by simp
  | cons l added ih =>
    obtain ⟨hl, hrest⟩ := List.nodup_cons.mp hapart
    rw [List.foldl_cons]
    refine (ih (h.open_added_sub (hnew l List.mem_cons_self)) ?_ hrest).congr fun key => ?_
    · rintro l' hl' (hkey | hkey)
      · exact hnew l' (List.mem_cons_of_mem _ hl') hkey
      · exact hl (hkey ▸ List.mem_map_of_mem hl')
    · simp [or_assoc]

theorem Exact.close_removed_sub (h : subs.Exact keys) (leaf : Leaf) :
    (subs.close_removed_sub leaf).Exact fun key => keys key ∧ key ≠ leaf.full_key := by
  unfold Subs.close_removed_sub
  cases hlookup : subs.data_subs.lookup leaf.full_key with
  | none =>
    refine h.congr fun key => ⟨fun hkey => ⟨hkey, ?_⟩, And.left⟩
    rintro rfl
    have hsome := (h.keys_iff leaf.full_key).mpr hkey
    rw [hlookup] at hsome
    cases hsome
  | some entry =>
    obtain ⟨sub, leaf'⟩ := entry
    have hmem : (sub, leaf.full_key) ∈ subs.live := (h.polled _ _).mpr ⟨leaf', hlookup⟩
    refine ⟨fun l hl => h.fresh l (List.mem_filter.mp hl).1,
      h.ids.sublist (List.filter_sublist.map _), fun sub' key => ?_, fun key => ?_⟩
    · change (sub', key) ∈ subs.live.filter _ ↔
        ∃ l, (subs.data_subs.erase leaf.full_key).lookup key = some (sub', l)
      rw [List.mem_filter]
      by_cases hkey : key = leaf.full_key
      · subst hkey
        rw [AList.lookup_erase]
        simp only [decide_not, Bool.not_eq_eq_eq_not, Bool.not_true, decide_eq_false_iff_not,
          reduceCtorEq, exists_false, iff_false, not_and, not_not]
        intro hsub
        obtain ⟨l, hl⟩ := (h.polled sub' leaf.full_key).mp hsub
        rw [hlookup] at hl
        exact (Prod.mk.inj (Option.some.inj hl)).1.symm
      · rw [AList.lookup_erase_ne hkey, ← h.polled]
        refine ⟨And.left, fun hsub => ⟨hsub, ?_⟩⟩
        have hne : sub' ≠ sub := by
          rintro rfl
          have hpair := List.inj_on_of_nodup_map h.ids hsub hmem rfl
          exact hkey (Prod.mk.inj hpair).2
        simpa using hne
    · change ((subs.data_subs.erase leaf.full_key).lookup key).isSome ↔ _
      by_cases hkey : key = leaf.full_key
      · subst hkey
        simp
      · rw [AList.lookup_erase_ne hkey, h.keys_iff]
        simp [hkey]

theorem Exact.close_removed (h : subs.Exact keys) (removed : List Leaf) :
    (removed.foldl Subs.close_removed_sub subs).Exact
      fun key => keys key ∧ ∀ l ∈ removed, key ≠ l.full_key := by
  induction removed generalizing subs keys with
  | nil => exact h.congr fun key => by simp
  | cons l removed ih =>
    rw [List.foldl_cons]
    exact (ih (h.close_removed_sub l)).congr fun key => by simp [and_assoc]

theorem Exact.close_nothing (h : subs.Exact keys) {removed : List Leaf}
    (hnone : ∀ l ∈ removed, ¬ keys l.full_key) :
    removed.foldl Subs.close_removed_sub subs = subs := by
  induction removed with
  | nil => rfl
  | cons l removed ih =>
    have hlookup : subs.data_subs.lookup l.full_key = none := by
      rw [← Option.not_isSome_iff_eq_none, h.keys_iff]
      exact hnone l List.mem_cons_self
    have hsame : subs.close_removed_sub l = subs := by
      rw [Subs.close_removed_sub, hlookup]
    rw [List.foldl_cons, hsame]
    exact ih fun l' hl' => hnone l' (List.mem_cons_of_mem _ hl')

end Subs

end motioncore.persistence
