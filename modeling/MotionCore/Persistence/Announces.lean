-- The persistence service follows the announces: it holds one subscription for each leaf
-- of the latest announce of each robot, and each leaf that was announced is declared once.
-- This needs that a robot, once it is known, announces no leaf it did not announce before.
import MotionCore.Persistence.Service

namespace motioncore.persistence

open motioncore.machine

/-! ## What should hold -/

def Announce.SameRobot (a b : Announce) : Prop := a.class_ = b.class_ ∧ a.instance_ = b.instance_

def Latest (acts : List Announce) (a : Announce) : Prop :=
  ∃ pre post, acts = pre ++ a :: post ∧ ∀ b ∈ post, ¬ b.SameRobot a

/-- The announce has a stream or status leaf with this key. -/
def Announce.Asks (a : Announce) (key : Text) : Prop :=
  ∃ e ∈ a.entries, e.kind.isSome ∧ full_key a.class_ a.instance_ e.path = key

/-- The subscriptions and the database are as the announces so far ask for. -/
structure Follows (db₀ : Database) (acts : List Announce) (s : Service) : Prop where
  open_iff : ∀ key, (∃ sub, (sub, key) ∈ s.subs.live) ↔ ∃ a, Latest acts a ∧ a.Asks key
  once : (s.subs.live.map Prod.snd).Nodup
  polled : ∀ sub key, (sub, key) ∈ s.subs.live ↔
    ∃ leaf, s.subs.data_subs.lookup key = some (sub, leaf)
  declared : ∀ a ∈ acts, ∀ e ∈ a.entries, ∀ k, e.kind = some k →
    s.db.paths.count (a.leaf e k).ltree_path = 1
  kept : db₀.rows <+: s.db.rows
  /-- A repeated announce opens nothing and declares nothing. -/
  repeated : ∀ a, Latest acts a → ∃ s', handle_topology s a = some s' ∧
    s'.subs = s.subs ∧ s'.db = s.db

/-! ## When it holds -/

/-- The leaves that a restarted service has in its database for a robot. -/
def Service.loaded (s : Service) (a : Announce) : Leaves :=
  s.db._load_existing_leaves a.kb a.class_ a.instance_

/-- The leaves of the announce have paths of their own, and the database has just those of
them that it would load. -/
def Service.Distinguishes (s : Service) (a : Announce) : Prop :=
  (∀ l ∈ a.desired.all, ∀ l' ∈ a.desired.all, l.ltree_path = l'.ltree_path → l.tail = l'.tail) ∧
    ∀ l ∈ a.desired.all, (((s.loaded a).lookup l.tail).isSome ↔ l.ltree_path ∈ s.db.paths)

instance (s : Service) (a : Announce) : Decidable (s.Distinguishes a) :=
  inferInstanceAs (Decidable (_ ∧ _))

/-- An announce that the service can follow. A robot that is known announces no leaf that its
announce before did not have, and the database distinguishes the leaves of a new one. -/
structure Orderly (s : Service) (a : Announce) : Prop where
  named : a.class_ ≠ [] ∧ a.instance_ ≠ []
  one_kind : ∀ e ∈ a.entries, ∀ e' ∈ a.entries, e.kind.isSome → e'.kind.isSome →
    e.path = e'.path → e.kind = e'.kind
  /-- The keys of other robots are other keys. -/
  apart : ∀ entry ∈ s.instances.entries,
    ¬ (entry.2.class_ = a.class_ ∧ entry.2.instance_ = a.instance_) →
      entry.1 ≠ a.key ∧ ∀ l ∈ entry.2.leaves.all, ∀ l' ∈ a.desired.all, l.full_key ≠ l'.full_key
  known : ∀ st ∈ s.instances.lookup a.key, ∀ l ∈ a.desired.all, ∃ l' ∈ st.desired.all,
    l'.tail = l.tail ∧ l'.kind = l.kind
  new : (s.instances.lookup a.key).isNone → s.Distinguishes a

instance (s : Service) (a : Announce) : Decidable (Orderly s a) :=
  decidable_of_iff (_ ∧ _ ∧ _ ∧ _ ∧ _)
    ⟨fun ⟨h₁, h₂, h₃, h₄, h₅⟩ => ⟨h₁, h₂, h₃, h₄, h₅⟩,
      fun h => ⟨h.named, h.one_kind, h.apart, h.known, h.new⟩⟩

/-! ## Declarations -/

section

variable {db db' : Database} {kb : Text}

theorem add_field_rows {leaf : Leaf} (h : db.add_field kb leaf = some db') :
    db.rows <+: db'.rows := by
  unfold Database.add_field at h
  cases hk : leaf.kind <;> simp only [hk, Database.add_info_node] at h <;> split at h <;>
    cases h <;> exact List.prefix_append _ _

theorem add_fields_rows {added : List Leaf}
    (h : runs (fun (db : Database) leaf => db.add_field kb leaf) db added = some db') :
    db.rows <+: db'.rows :=
  rel_runs (R := fun db db' : Database => db.rows <+: db'.rows) (fun _ => List.prefix_refl _)
    (fun _ _ _ => List.IsPrefix.trans) (fun _ _ _ => add_field_rows) h

theorem paths_subset (h : db.rows <+: db'.rows) {path : Text} (hp : path ∈ db.paths) :
    path ∈ db'.paths := (h.map Row.path).subset hp

/-- Fields with paths of their own that the database does not have can all be declared. -/
theorem exists_add_fields {added : List Leaf}
    (hpath : ∀ l ∈ added, l.ltree_path = join_path kb l.kind (tail_to_field l.tail))
    (hnew : ∀ l ∈ added, l.ltree_path ∉ db.paths) (hapart : (added.map Leaf.ltree_path).Nodup) :
    ∃ db', runs (fun (db : Database) leaf => db.add_field kb leaf) db added = some db' ∧
      ∀ l ∈ added, l.ltree_path ∈ db'.paths := by
  induction added generalizing db with
  | nil => exact ⟨db, rfl, fun l hl => absurd hl List.not_mem_nil⟩
  | cons l added ih =>
    obtain ⟨hl, hrest⟩ := List.nodup_cons.mp hapart
    have hlpath := hpath l List.mem_cons_self
    have hlnew : join_path kb l.kind (tail_to_field l.tail) ∉ db.paths :=
      hlpath ▸ hnew l List.mem_cons_self
    obtain ⟨db₁, row, hadd, hrows, hrow⟩ := Database.add_field_eq_some hlnew
    have hpaths : ∀ p, p ∈ db₁.paths ↔ p ∈ db.paths ∨ p = l.ltree_path := by
      intro p
      rw [hlpath, ← hrow, Database.paths, hrows]
      simp [Database.paths]
    have hnew₁ : ∀ l' ∈ added, l'.ltree_path ∉ db₁.paths := by
      intro l' hl' hmem
      rcases (hpaths _).mp hmem with hmem | heq
      · exact hnew l' (List.mem_cons_of_mem _ hl') hmem
      · exact hl (heq ▸ List.mem_map_of_mem hl')
    obtain ⟨db', hrun, hall⟩ :=
      ih (fun l' hl' => hpath l' (List.mem_cons_of_mem _ hl')) hnew₁ hrest
    refine ⟨db', by rw [runs_cons, hadd]; exact hrun, fun l' hl' => ?_⟩
    rcases List.mem_cons.mp hl' with rfl | hl'
    · exact paths_subset (add_fields_rows hrun) ((hpaths _).mpr (.inr rfl))
    · exact hall l' hl'

end

/-! ## Desired leaves -/

section

variable {a b : Announce}

theorem desired_asks {t : Text} {l : Leaf} (h : a.desired.lookup t = some l) :
    l.tail = t ∧ l.full_key = full_key a.class_ a.instance_ t ∧ a.Asks l.full_key ∧
      l.ltree_path = join_path a.kb l.kind (tail_to_field l.tail) := by
  obtain ⟨e, he, rfl, k, hk, rfl⟩ := (a.desired_spec t).1 l h
  exact ⟨rfl, rfl, ⟨e, he, by rw [hk]; rfl, rfl⟩, rfl⟩

theorem asks_iff {key : Text} :
    a.Asks key ↔ ∃ t, (a.desired.lookup t).isSome ∧ full_key a.class_ a.instance_ t = key := by
  constructor
  · rintro ⟨e, he, hk, rfl⟩
    exact ⟨e.path, (a.desired_spec e.path).2 e he rfl hk, rfl⟩
  · rintro ⟨t, ht, rfl⟩
    obtain ⟨l, hl⟩ := Option.isSome_iff_exists.mp ht
    obtain ⟨-, hkey, hasks, -⟩ := desired_asks hl
    rwa [← hkey]

theorem full_key_inj {class_ instance_ t t' : Text}
    (h : full_key class_ instance_ t = full_key class_ instance_ t') : t = t' := by
  have hrest := (List.cons.inj (List.append_cancel_left h)).2
  exact (List.cons.inj (List.append_cancel_left hrest)).2

theorem all_full_keys_nodup : (a.desired.all.map Leaf.full_key).Nodup := by
  have htails : (a.desired.entries.map Sigma.fst).Nodup := a.desired.keys_nodup
  rw [Leaves.all, List.map_map]
  apply (List.Nodup.of_map _ htails).map_on
  rintro ⟨t, l⟩ hl ⟨t', l'⟩ hl' heq
  have hkey := (desired_asks (AList.mem_lookup_iff.mpr hl)).2.1
  have hkey' := (desired_asks (AList.mem_lookup_iff.mpr hl')).2.1
  obtain rfl : t = t' := full_key_inj (hkey.symm.trans (heq.trans hkey'))
  have hsame := (AList.mem_lookup_iff.mpr hl).symm.trans (AList.mem_lookup_iff.mpr hl')
  rw [Option.some.inj hsame]

theorem latest_snoc {acts : List Announce} :
    Latest (acts ++ [a]) b ↔ b = a ∨ (Latest acts b ∧ ¬ a.SameRobot b) := by
  constructor
  · rintro ⟨pre, post, heq, hpost⟩
    rcases List.eq_nil_or_concat post with rfl | ⟨post, x, rfl⟩
    · exact .inl (List.singleton_inj.mp (List.append_inj' heq rfl).2).symm
    · have hsplit : acts ++ [a] = (pre ++ b :: post) ++ [x] := by
        rw [heq]
        simp
      obtain ⟨hacts, hx⟩ := List.append_inj' hsplit rfl
      rw [← List.singleton_inj.mp hx] at hpost
      exact .inr ⟨⟨pre, post, hacts, fun c hc => hpost c (by simp [hc])⟩,
        hpost a (by simp)⟩
  · rintro (rfl | ⟨⟨pre, post, rfl, hpost⟩, hne⟩)
    · exact ⟨acts, [], rfl, fun c hc => absurd hc List.not_mem_nil⟩
    · refine ⟨pre, post ++ [a], by simp, fun c hc => ?_⟩
      rcases List.mem_append.mp hc with hc | hc
      · exact hpost c hc
      · rw [List.mem_singleton.mp hc]
        exact hne

theorem Latest.mem {acts : List Announce} (h : Latest acts a) : a ∈ acts := by
  obtain ⟨pre, post, rfl, -⟩ := h
  exact List.mem_append_right _ List.mem_cons_self

end

/-! ## The invariant -/

/-- The state table of a robot, against its latest announce. -/
structure Instance.Knows (st : Instance) (b : Announce) : Prop where
  named : b.class_ ≠ [] ∧ b.instance_ ≠ []
  constructed : st.constructed = true
  robot : st.class_ = b.class_ ∧ st.instance_ = b.instance_
  desired : st.desired = b.desired
  leaf : ∀ t l, st.leaves.lookup t = some l → l.full_key = full_key b.class_ b.instance_ t
  held : ∀ t, (st.desired.lookup t).isSome → (st.leaves.lookup t).isSome

structure Tracks (acts : List Announce) (s : Service) : Prop where
  /-- Each table is that of the latest announce of a robot, and each robot has one. -/
  of_state : ∀ k st, s.instances.lookup k = some st → ∃ b, Latest acts b ∧ b.key = k ∧ st.Knows b
  of_latest : ∀ b, Latest acts b → ∃ st, s.instances.lookup b.key = some st ∧ st.Knows b
  apart : ∀ k st k' st', s.instances.lookup k = some st → s.instances.lookup k' = some st' →
    k ≠ k' → ∀ l ∈ st.leaves.all, ∀ l' ∈ st'.leaves.all, l.full_key ≠ l'.full_key
  subs : s.subs.Exact fun key => ∃ a, Latest acts a ∧ a.Asks key
  declared : ∀ a ∈ acts, ∀ e ∈ a.entries, ∀ k, e.kind = some k →
    (a.leaf e k).ltree_path ∈ s.db.paths

variable {acts : List Announce} {s : Service} {a : Announce}
variable {b : Announce}

theorem Announce.SameRobot.key_eq (h : a.SameRobot b) : a.key = b.key := by
  rw [Announce.key, Announce.key, h.1, h.2]

variable {st : Instance}

/-- A table under the key of an announce is that of its robot. -/
theorem Tracks.knows (h : Tracks acts s) (ha : Orderly s a)
    (hst : s.instances.lookup a.key = some st) :
    ∃ b, Latest acts b ∧ a.SameRobot b ∧ st.Knows b := by
  obtain ⟨b, hb, -, hknows⟩ := h.of_state _ _ hst
  refine ⟨b, hb, ?_, hknows⟩
  by_contra hne
  have hmem : (⟨a.key, st⟩ : Sigma fun _ : Text => Instance) ∈ s.instances.entries :=
    AList.mem_lookup_iff.mp hst
  apply (ha.apart _ hmem ?_).1 rfl
  rintro ⟨hclass, hinstance⟩
  exact hne ⟨hclass.symm.trans hknows.robot.1, hinstance.symm.trans hknows.robot.2⟩

/-- A leaf that is announced again was already subscribed. -/
theorem Instance.Knows.asks (h : st.Knows b) {key : Text} (hasks : b.Asks key) :
    ∃ t l, b.desired.lookup t = some l ∧ (st.leaves.lookup t).isSome ∧
      full_key b.class_ b.instance_ t = key := by
  obtain ⟨t, ht, hkey⟩ := asks_iff.mp hasks
  obtain ⟨l, hl⟩ := Option.isSome_iff_exists.mp ht
  exact ⟨t, l, hl, h.held t (by rwa [h.desired]), hkey⟩

/-- The keys of two robots are different. -/
theorem Tracks.keys_apart (h : Tracks acts s) (hb : Latest acts b) {k : Text}
    (hst : s.instances.lookup k = some st) (hne : b.key ≠ k) {key : Text} (hasks : b.Asks key) :
    ∀ l ∈ st.leaves.all, l.full_key ≠ key := by
  intro l hl
  obtain ⟨stb, hstb, hknows⟩ := h.of_latest b hb
  obtain ⟨t, -, -, hleaf, hkey⟩ := hknows.asks hasks
  obtain ⟨l', hl'⟩ := Option.isSome_iff_exists.mp hleaf
  have hne := h.apart _ _ _ _ hstb hst hne l' (Leaves.mem_all.mpr ⟨t, hl'⟩) l hl
  rw [hknows.leaf t l' hl', hkey] at hne
  exact hne.symm

/-! ## One announce -/

variable {s' : Service}

theorem lookup_instances (hs : s'.instances = s.instances.insert a.key st) (k : Text)
    (st' : Instance) : s'.instances.lookup k = some st' ↔
      (k = a.key ∧ st' = st) ∨ (k ≠ a.key ∧ s.instances.lookup k = some st') := by
  rw [hs]
  by_cases hk : k = a.key
  · subst hk
    simp [eq_comm]
  · rw [AList.lookup_insert_ne hk]
    simp [hk]

theorem Tracks.snoc (h : Tracks acts s) (hknows : st.Knows a)
    (hs : s'.instances = s.instances.insert a.key st)
    (hkey : ∀ b, Latest acts b → b.key = a.key → a.SameRobot b)
    (hapart : ∀ k st', s.instances.lookup k = some st' → k ≠ a.key →
      ∀ l ∈ st'.leaves.all, ∀ l' ∈ st.leaves.all, l.full_key ≠ l'.full_key)
    (hsubs : s'.subs.Exact fun key => (∃ b, Latest acts b ∧ ¬ a.SameRobot b ∧
      b.Asks key) ∨ a.Asks key) (hdb : s.db.rows <+: s'.db.rows)
    (hdeclared : ∀ e ∈ a.entries, ∀ k, e.kind = some k → (a.leaf e k).ltree_path ∈ s'.db.paths) :
    Tracks (acts ++ [a]) s' := by
  have hlookup := fun k st' => lookup_instances hs k st'
  refine ⟨fun k st' hst' => ?_, fun b hb => ?_, fun k st₁ k' st₂ h₁ h₂ hne => ?_,
    hsubs.congr fun key => ?_, fun b hb e he k hk => ?_⟩
  · rcases (hlookup k st').mp hst' with ⟨rfl, rfl⟩ | ⟨hk, hst'⟩
    · exact ⟨a, latest_snoc.mpr (.inl rfl), rfl, hknows⟩
    · obtain ⟨b, hb, rfl, hb'⟩ := h.of_state k st' hst'
      exact ⟨b, latest_snoc.mpr (.inr ⟨hb, fun hsame => hk hsame.key_eq.symm⟩), rfl, hb'⟩
  · rcases latest_snoc.mp hb with rfl | ⟨hb, hne⟩
    · exact ⟨st, (hlookup _ _).mpr (.inl ⟨rfl, rfl⟩), hknows⟩
    · obtain ⟨st', hst', hb'⟩ := h.of_latest b hb
      exact ⟨st', (hlookup _ _).mpr (.inr ⟨fun hk => hne (hkey b hb hk), hst'⟩), hb'⟩
  · rcases (hlookup _ _).mp h₁ with ⟨rfl, rfl⟩ | ⟨hk, h₁⟩ <;>
      rcases (hlookup _ _).mp h₂ with ⟨rfl, rfl⟩ | ⟨hk', h₂⟩
    · exact absurd rfl hne
    · exact fun l hl l' hl' => (hapart _ _ h₂ hk' l' hl' l hl).symm
    · exact hapart _ _ h₁ hk
    · exact h.apart _ _ _ _ h₁ h₂ hne
  · constructor
    · rintro (⟨b, hb, hne, hasks⟩ | hasks)
      · exact ⟨b, latest_snoc.mpr (.inr ⟨hb, hne⟩), hasks⟩
      · exact ⟨a, latest_snoc.mpr (.inl rfl), hasks⟩
    · rintro ⟨b, hb, hasks⟩
      rcases latest_snoc.mp hb with rfl | ⟨hb, hne⟩
      · exact .inr hasks
      · exact .inl ⟨b, hb, hne, hasks⟩
  · rcases List.mem_append.mp hb with hb | hb
    · exact paths_subset hdb (h.declared b hb e he k hk)
    · obtain rfl := List.mem_singleton.mp hb
      exact hdeclared e he k hk

theorem diff_topology_eq (hnamed : a.class_ ≠ [] ∧ a.instance_ ≠ []) {state : Instance}
    (hstate : (s.instances.lookup a.key).getD a.fresh = state) :
    s.diff_topology a = some { state with
      desired := a.desired
      kb_already := s.db._kb_exists a.kb
      pending_added := a.desired.without state.leaves
      pending_removed := state.leaves.without a.desired } := by
  have hnot : ¬ (a.class_ = [] ∨ a.instance_ = []) := by
    rintro (h | h)
    · exact hnamed.1 h
    · exact hnamed.2 h
  rw [Service.diff_topology, if_neg hnot, hstate]

theorem without_all_eq_nil {leaves others : Leaves}
    (h : ∀ t, (leaves.lookup t).isSome → (others.lookup t).isSome) :
    (leaves.without others).all = [] := by
  rw [List.eq_nil_iff_forall_not_mem]
  intro l hl
  obtain ⟨t, ht⟩ := Leaves.mem_all.mp hl
  rw [Leaves.lookup_without] at ht
  split at ht
  · rename_i hnone
    have hsome := h t (by rw [ht]; rfl)
    rw [Option.isNone_iff_eq_none.mp hnone] at hsome
    cases hsome
  · cases ht

theorem Tracks.same_of_key (h : Tracks acts s) (ha : Orderly s a) (hb : Latest acts b)
    (hkey : b.key = a.key) : a.SameRobot b := by
  obtain ⟨st, hst, hknows⟩ := h.of_latest b hb
  by_contra hne
  have hmem : (⟨b.key, st⟩ : Sigma fun _ : Text => Instance) ∈ s.instances.entries :=
    AList.mem_lookup_iff.mp hst
  apply (ha.apart _ hmem ?_).1 hkey
  rintro ⟨hclass, hinstance⟩
  exact hne ⟨hclass.symm.trans hknows.robot.1, hinstance.symm.trans hknows.robot.2⟩

theorem Orderly.desired_of_entry (ha : Orderly s a) {e : Entry} (he : e ∈ a.entries) {k : Kind}
    (hk : e.kind = some k) : ∃ l, a.desired.lookup e.path = some l ∧ l.kind = k ∧
      l.ltree_path = (a.leaf e k).ltree_path := by
  have hsome : e.kind.isSome := by rw [hk]; rfl
  obtain ⟨l, hl⟩ := Option.isSome_iff_exists.mp ((a.desired_spec e.path).2 e he rfl hsome)
  obtain ⟨e', he', hpath, k', hk', rfl⟩ := (a.desired_spec e.path).1 l hl
  have hsame := ha.one_kind e he e' he' hsome (by rw [hk']; rfl) hpath.symm
  obtain rfl : k = k' := Option.some.inj (hk.symm.trans (hsame.trans hk'))
  refine ⟨_, hl, rfl, ?_⟩
  simp only [Announce.leaf, hpath]

section

variable {st : Instance} {b : Announce}

/-- What a robot that is known announces was subscribed for it once. -/
theorem Orderly.held (ha : Orderly s a) (hst : s.instances.lookup a.key = some st)
    (hknows : st.Knows b) {t : Text} (ht : (a.desired.lookup t).isSome) :
    (b.desired.lookup t).isSome ∧ (st.leaves.lookup t).isSome := by
  obtain ⟨l, hl⟩ := Option.isSome_iff_exists.mp ht
  obtain ⟨l', hl', htail, -⟩ := ha.known st hst l (Leaves.mem_all.mpr ⟨t, hl⟩)
  obtain ⟨t', ht'⟩ := Leaves.mem_all.mp hl'
  rw [hknows.desired] at ht'
  have htt' : t' = t := by
    rw [← (desired_asks ht').1, htail, (desired_asks hl).1]
  subst htt'
  have hsome : (b.desired.lookup t').isSome := by rw [ht']; rfl
  exact ⟨hsome, hknows.held t' (by rwa [hknows.desired])⟩

/-- The keys that stay open are those of the new announce and of the other robots. -/
theorem Tracks.keys_known (h : Tracks acts s) (ha : Orderly s a)
    (hst : s.instances.lookup a.key = some st) (hb : Latest acts b) (hrobot : a.SameRobot b)
    (hknows : st.Knows b) (key : Text) : ((∃ c, Latest acts c ∧ c.Asks key) ∧
      ∀ l ∈ (st.leaves.without a.desired).all, key ≠ l.full_key) ↔
      (∃ c, Latest acts c ∧ ¬ a.SameRobot c ∧ c.Asks key) ∨ a.Asks key := by
  have hremoved : ∀ l, l ∈ (st.leaves.without a.desired).all ↔
      ∃ t, a.desired.lookup t = none ∧ st.leaves.lookup t = some l := by
    intro l
    simp only [Leaves.mem_all, Leaves.lookup_without, Option.isNone_iff_eq_none]
    simp
  constructor
  · rintro ⟨⟨c, hc, hasks⟩, hnot⟩
    by_cases hsame : a.SameRobot c
    · right
      obtain ⟨stc, hstc, hcknows⟩ := h.of_latest c hc
      rw [← hsame.key_eq, hst] at hstc
      cases hstc
      obtain ⟨t, -, -, hleaf, hkey⟩ := hcknows.asks hasks
      obtain ⟨l, hl⟩ := Option.isSome_iff_exists.mp hleaf
      have hlkey := hcknows.leaf t l hl
      apply asks_iff.mpr
      refine ⟨t, ?_, by rw [hsame.1, hsame.2, hkey]⟩
      by_contra hnone
      apply hnot l ((hremoved l).mpr ⟨t, Option.not_isSome_iff_eq_none.mp hnone, hl⟩)
      rw [hlkey, hkey]
    · exact .inl ⟨c, hc, hsame, hasks⟩
  · rintro (⟨c, hc, hne, hasks⟩ | hasks)
    · refine ⟨⟨c, hc, hasks⟩, fun l hl => ?_⟩
      obtain ⟨t, -, hlt⟩ := (hremoved l).mp hl
      have hkey : c.key ≠ a.key := fun hkey => hne (h.same_of_key ha hc hkey)
      exact (h.keys_apart hc hst hkey hasks l (Leaves.mem_all.mpr ⟨t, hlt⟩)).symm
    · obtain ⟨t, ht, rfl⟩ := asks_iff.mp hasks
      refine ⟨⟨b, hb, asks_iff.mpr ⟨t, (ha.held hst hknows ht).1, ?_⟩⟩, fun l hl heq => ?_⟩
      · rw [hrobot.1, hrobot.2]
      · obtain ⟨t', hnone, hlt⟩ := (hremoved l).mp hl
        rw [hknows.leaf t' l hlt, hrobot.1, hrobot.2] at heq
        rw [full_key_inj heq, hnone] at ht
        cases ht

/-- An announce of a robot that is known opens nothing and declares nothing. -/
theorem handle_known_eq (hnamed : a.class_ ≠ [] ∧ a.instance_ ≠ [])
    (hst : s.instances.lookup a.key = some st) (hconstructed : st.constructed = true)
    (hheld : ∀ t, (a.desired.lookup t).isSome → (st.leaves.lookup t).isSome) :
    handle_topology s a = some {
      db := s.db
      instances := s.instances.insert a.key { st with
        desired := a.desired
        kb_already := s.db._kb_exists a.kb
        pending_added := a.desired.without st.leaves
        pending_removed := st.leaves.without a.desired }
      subs := s.subs.close_removed_subs (st.leaves.without a.desired) } := by
  have hadded : (a.desired.without st.leaves).all = [] :=
    without_all_eq_nil hheld
  have hopen : s.subs.open_added_subs (a.desired.without st.leaves) = s.subs := by
    rw [Subs.open_added_subs, hadded]
    rfl
  have hstate : (s.instances.lookup a.key).getD a.fresh = st := by rw [hst]; rfl
  rw [handle_topology, diff_topology_eq hnamed hstate]
  simp only [Option.bind_eq_bind, Option.bind_some, Database.reconcile_schema,
    hconstructed, if_true, hopen]

theorem handle_known (h : Tracks acts s) (ha : Orderly s a)
    (hst : s.instances.lookup a.key = some st) (hb : Latest acts b) (hrobot : a.SameRobot b)
    (hknows : st.Knows b) : ∃ s', handle_topology s a = some s' ∧ Tracks (acts ++ [a]) s' := by
  have hheld := fun t ht => (ha.held hst hknows (t := t) ht).2
  refine ⟨_, handle_known_eq ha.named hst hknows.constructed hheld,
    h.snoc ?_ rfl (fun c hc => h.same_of_key ha hc)
    (fun k st' hst' hk l hl l' hl' => h.apart _ _ _ _ hst' hst hk l hl l' hl')
    ((h.subs.close_removed _).congr (h.keys_known ha hst hb hrobot hknows))
    (List.prefix_refl _) fun e he k hk => ?_⟩
  · refine ⟨ha.named, hknows.constructed, ⟨?_, ?_⟩, rfl, fun t l hl => ?_, hheld⟩
    · exact hknows.robot.1.trans hrobot.1.symm
    · exact hknows.robot.2.trans hrobot.2.symm
    · rw [hrobot.1, hrobot.2]
      exact hknows.leaf t l hl
  · obtain ⟨l, hl, rfl, hpath⟩ := ha.desired_of_entry he hk
    obtain ⟨l', hl', htail, hkind⟩ := ha.known st hst l (Leaves.mem_all.mpr ⟨_, hl⟩)
    obtain ⟨t, ht⟩ := Leaves.mem_all.mp hl'
    rw [hknows.desired] at ht
    obtain ⟨e', he', rfl, k', hk', rfl⟩ := (b.desired_spec t).1 l' ht
    have hdeclared := h.declared b hb.mem e' he' k' hk'
    obtain rfl : k' = l.kind := hkind
    have hepath : e'.path = e.path := htail.trans (desired_asks hl).1
    have hsame : (a.leaf e l.kind).ltree_path = (b.leaf e' l.kind).ltree_path := by
      simp only [Announce.leaf, hepath, hrobot.1, hrobot.2]
    rwa [hsame]

end

theorem Leaves.without_empty (leaves : Leaves) : leaves.without ∅ = leaves := by
  apply AList.ext
  simp [Leaves.without]

theorem Leaves.empty_without (leaves : Leaves) : (∅ : Leaves).without leaves = ∅ := rfl

/-- What the database has of a new robot, as `reconcile_schema` asks for it. -/
theorem lookup_db_existing (s : Service) (a : Announce) (t : Text) :
    ((if s.db._kb_exists a.kb then s.loaded a else ∅ : Leaves).lookup t).isSome ↔
      ((s.loaded a).lookup t).isSome := by
  split
  · rfl
  · rename_i hnone
    simp only [AList.lookup_empty, Option.isSome_none, Bool.false_eq_true, false_iff,
      Service.loaded, Database.isSome_lookup_load]
    rintro ⟨row, hrow, hkb, -⟩
    apply hnone
    rw [Database._kb_exists, List.any_eq_true]
    exact ⟨row, hrow, by simpa using hkb⟩

/-- The fields of a new robot that the database does not have are declared. -/
theorem Orderly.declares (ha : Orderly s a) (hnew : s.instances.lookup a.key = none)
    {existing : Leaves} (hex : ∀ t, (existing.lookup t).isSome ↔ ((s.loaded a).lookup t).isSome) :
    ∃ db', runs (fun (db : Database) leaf => db.add_field a.kb leaf) s.db
        (a.desired.without existing).all = some db' ∧ s.db.rows <+: db'.rows ∧
      ∀ l ∈ a.desired.all, l.ltree_path ∈ db'.paths := by
  obtain ⟨hpaths, hloaded⟩ := ha.new (by rw [hnew]; rfl)
  have hadded : ∀ l, l ∈ (a.desired.without existing).all ↔
      ∃ t, existing.lookup t = none ∧ a.desired.lookup t = some l := by
    intro l
    simp only [Leaves.mem_all, Leaves.lookup_without, Option.isNone_iff_eq_none]
    simp
  have hnotin : ∀ l ∈ (a.desired.without existing).all, l.ltree_path ∉ s.db.paths := by
    intro l hl
    obtain ⟨t, hnone, ht⟩ := (hadded l).mp hl
    rw [← hloaded l (Leaves.mem_all.mpr ⟨t, ht⟩), (desired_asks ht).1, ← hex, hnone]
    simp
  have hnodup : ((a.desired.without existing).all.map Leaf.ltree_path).Nodup := by
    have htails : ((a.desired.without existing).entries.map Sigma.fst).Nodup :=
      (a.desired.without existing).keys_nodup
    rw [Leaves.all, List.map_map]
    apply (List.Nodup.of_map _ htails).map_on
    rintro ⟨t, l⟩ hl ⟨t', l'⟩ hl' heq
    have ht := AList.mem_lookup_iff.mpr (List.mem_of_mem_filter hl)
    have ht' := AList.mem_lookup_iff.mpr (List.mem_of_mem_filter hl')
    have htail := hpaths l (Leaves.mem_all.mpr ⟨t, ht⟩) l' (Leaves.mem_all.mpr ⟨t', ht'⟩) heq
    rw [(desired_asks ht).1, (desired_asks ht').1] at htail
    subst htail
    rw [Option.some.inj (ht.symm.trans ht')]
  have hjoin : ∀ l ∈ (a.desired.without existing).all,
      l.ltree_path = join_path a.kb l.kind (tail_to_field l.tail) := by
    intro l hl
    obtain ⟨t, -, ht⟩ := (hadded l).mp hl
    obtain ⟨htail, -, -, hpath⟩ := desired_asks ht
    rw [hpath, htail]
  obtain ⟨db', hrun, hall⟩ := exists_add_fields hjoin hnotin hnodup
  refine ⟨db', hrun, add_fields_rows hrun, fun l hl => ?_⟩
  obtain ⟨t, ht⟩ := Leaves.mem_all.mp hl
  cases hext : existing.lookup t with
  | none => exact hall l ((hadded l).mpr ⟨t, hext, ht⟩)
  | some l' =>
    apply paths_subset (add_fields_rows hrun)
    rw [← hloaded l hl, (desired_asks ht).1, ← hex, hext]
    rfl

theorem handle_new (h : Tracks acts s) (ha : Orderly s a) (hnew : s.instances.lookup a.key = none) :
    ∃ s', handle_topology s a = some s' ∧ Tracks (acts ++ [a]) s' := by
  have hother : ∀ b, Latest acts b → b.key ≠ a.key := by
    intro b hb hkey
    obtain ⟨st, hst, -⟩ := h.of_latest b hb
    rw [hkey, hnew] at hst
    cases hst
  have hkeys : ∀ k st, s.instances.lookup k = some st →
      ∀ l ∈ st.leaves.all, ∀ l' ∈ a.desired.all, l.full_key ≠ l'.full_key := by
    intro k st hst
    obtain ⟨b, hb, rfl, hknows⟩ := h.of_state k st hst
    have hmem : (⟨b.key, st⟩ : Sigma fun _ : Text => Instance) ∈ s.instances.entries :=
      AList.mem_lookup_iff.mp hst
    refine (ha.apart _ hmem ?_).2
    rintro ⟨hclass, hinstance⟩
    apply hother b hb
    rw [Announce.key, Announce.key, ← hclass, ← hinstance, hknows.robot.1, hknows.robot.2]
  have hfresh : ∀ l ∈ a.desired.all, ¬ ∃ b, Latest acts b ∧ b.Asks l.full_key := by
    rintro l hl ⟨b, hb, hasks⟩
    obtain ⟨st, hst, hknows⟩ := h.of_latest b hb
    obtain ⟨t, -, -, hleaf, hkey⟩ := hknows.asks hasks
    obtain ⟨l', hl'⟩ := Option.isSome_iff_exists.mp hleaf
    apply hkeys _ _ hst l' (Leaves.mem_all.mpr ⟨t, hl'⟩) l hl
    rw [hknows.leaf t l' hl', hkey]
  obtain ⟨db', hrun, hrows, hall⟩ := ha.declares hnew fun t => lookup_db_existing s a t
  have hsubs := h.subs.open_added hfresh all_full_keys_nodup
  have heq : handle_topology s a = some {
      db := db'
      instances := s.instances.insert a.key { a.fresh with
        leaves := a.desired
        desired := a.desired
        kb_already := s.db._kb_exists a.kb
        constructed := true }
      subs := a.desired.all.foldl Subs.open_added_sub s.subs } := by
    have hstate : (s.instances.lookup a.key).getD a.fresh = a.fresh := by rw [hnew]; rfl
    rw [handle_topology, diff_topology_eq ha.named hstate]
    simp only [Announce.fresh, Leaves.without_empty, Leaves.empty_without,
      Option.bind_eq_bind, Option.bind_some, Database.reconcile_schema, Bool.false_eq_true,
      if_false]
    rw [Service.loaded] at hrun
    rw [hrun]
    rfl
  refine ⟨_, heq, h.snoc ⟨ha.named, rfl, ⟨rfl, rfl⟩, rfl, fun t l hl => (desired_asks hl).2.1,
    fun t ht => ht⟩ rfl (fun b hb hkey => absurd hkey (hother b hb))
    (fun k st' hst' _ => hkeys k st' hst') (hsubs.congr fun key => ?_) hrows
    fun e he k hk => ?_⟩
  · constructor
    · rintro (⟨b, hb, hasks⟩ | ⟨l, hl, rfl⟩)
      · exact .inl ⟨b, hb, fun hsame => hother b hb hsame.key_eq.symm, hasks⟩
      · obtain ⟨t, ht⟩ := Leaves.mem_all.mp hl
        exact .inr (desired_asks ht).2.2.1
    · rintro (⟨b, hb, -, hasks⟩ | hasks)
      · exact .inl ⟨b, hb, hasks⟩
      · obtain ⟨t, ht, rfl⟩ := asks_iff.mp hasks
        obtain ⟨l, hl⟩ := Option.isSome_iff_exists.mp ht
        exact .inr ⟨l, Leaves.mem_all.mpr ⟨t, hl⟩, (desired_asks hl).2.1.symm⟩
  · obtain ⟨l, hl, -, hpath⟩ := ha.desired_of_entry he hk
    rw [← hpath]
    exact hall l (Leaves.mem_all.mpr ⟨_, hl⟩)

theorem handle_orderly (h : Tracks acts s) (ha : Orderly s a) :
    ∃ s', handle_topology s a = some s' ∧ Tracks (acts ++ [a]) s' := by
  cases hlookup : s.instances.lookup a.key with
  | none => exact handle_new h ha hlookup
  | some st =>
    obtain ⟨b, hb, hrobot, hknows⟩ := h.knows ha hlookup
    exact handle_known h ha hlookup hb hrobot hknows

/-! ## Every run -/

theorem handle_topology_rows (h : handle_topology s a = some s') : s.db.rows <+: s'.db.rows := by
  simp only [handle_topology, Option.bind_eq_bind, Option.bind_eq_some_iff] at h
  obtain ⟨state, -, ⟨db, state'⟩, hreconcile, hs⟩ := h
  cases hs
  rw [Database.reconcile_schema] at hreconcile
  split at hreconcile
  · cases hreconcile
    exact List.prefix_refl _
  · obtain ⟨db', hrun, hdb⟩ := Option.map_eq_some_iff.mp hreconcile
    cases hdb
    exact add_fields_rows hrun

/-- A latest announce that comes again finds everything as it asks for. -/
theorem Tracks.repeated (h : Tracks acts s) (hlatest : Latest acts a) :
    ∃ s', handle_topology s a = some s' ∧ s'.subs = s.subs ∧ s'.db = s.db := by
  obtain ⟨st, hst, hknows⟩ := h.of_latest a hlatest
  have hheld : ∀ t, (a.desired.lookup t).isSome → (st.leaves.lookup t).isSome := by
    intro t ht
    exact hknows.held t (by rwa [hknows.desired])
  refine ⟨_, handle_known_eq hknows.named hst hknows.constructed hheld, ?_, rfl⟩
  apply h.subs.close_nothing
  rintro l hl ⟨c, hc, hasks⟩
  obtain ⟨t, ht⟩ := Leaves.mem_all.mp hl
  rw [Leaves.lookup_without] at ht
  split at ht
  · rename_i hnone
    by_cases hkey : c.key = a.key
    · obtain ⟨stc, hstc, hcknows⟩ := h.of_latest c hc
      rw [hkey, hst] at hstc
      cases hstc
      obtain ⟨t', l', hl', -, heq⟩ := hcknows.asks hasks
      rw [hcknows.leaf t l ht] at heq
      rw [← full_key_inj heq, ← hknows.desired, hcknows.desired, hl'] at hnone
      cases hnone
    · exact h.keys_apart hc hst hkey hasks l (Leaves.mem_all.mpr ⟨t, ht⟩) rfl
  · cases ht

theorem tracks_new (db : Database) : Tracks [] (.new db) := by
  have hnone : ∀ b, ¬ Latest [] b := by
    rintro b ⟨pre, post, heq, -⟩
    simp at heq
  have hlookup : ∀ k st, (Service.new db).instances.lookup k = some st → False := by
    intro k st hst
    rw [Service.new, AList.lookup_empty] at hst
    cases hst
  refine ⟨fun k st hst => (hlookup k st hst).elim, fun b hb => absurd hb (hnone b),
    fun k st _ _ hst => (hlookup k st hst).elim, ⟨?_, List.nodup_nil, fun sub key => ?_,
      fun key => ?_⟩, fun a ha => absurd ha List.not_mem_nil⟩
  · exact fun l hl => absurd hl List.not_mem_nil
  · simp [Service.new]
  · simp [Service.new, hnone]

/-- In every run of orderly announces no announce fails, and behind each of them the
subscriptions and the database are as the latest announces ask for. -/
theorem announces_are_followed (db : Database) {acts : List Announce}
    (hok : Meets handle_topology Orderly (.new db) acts) :
    ∃ s, runs handle_topology (.new db) acts = some s ∧ Follows db acts s := by
  obtain ⟨s, hrun, htracks⟩ := history_runs (fun _ _ _ h ha => handle_orderly h ha)
    (tracks_new db) hok
  rw [List.nil_append] at htracks
  have hkept : db.rows <+: s.db.rows :=
    rel_runs (R := fun s s' : Service => s.db.rows <+: s'.db.rows)
      (fun _ => List.prefix_refl _) (fun _ _ _ => List.IsPrefix.trans)
      (fun _ _ _ => handle_topology_rows) hrun
  refine ⟨s, hrun, htracks.subs.open_iff, htracks.subs.once, htracks.subs.polled,
    fun a ha e he k hk => ?_, hkept, fun a ha => htracks.repeated ha⟩
  exact List.count_eq_one_of_mem s.db.unique (htracks.declared a ha e he k hk)

def station (entries : List Entry) : Announce := ⟨"soil".toList, "a".toList, entries⟩

def sample : Entry := ⟨some .stream, "cimis/sample".toList, some 64, none⟩

def battery : Entry := ⟨some .status, "battery".toList, none, none⟩

theorem station_is_followed : ∃ s,
    runs handle_topology (.new .empty) [station [sample, battery], station [battery]] = some s ∧
      Follows .empty [station [sample, battery], station [battery]] s :=
  announces_are_followed .empty (by decide +kernel)

theorem added_leaf_is_not_declared : ∃ s,
    runs handle_topology (.new .empty)
      [station [sample], station [sample, battery], station [sample, battery]] = some s ∧
    ¬ Follows .empty
      [station [sample], station [sample, battery], station [sample, battery]] s ∧
    ((station []).leaf battery .status).ltree_path ∉ s.db.paths ∧
    ¬ (s.subs.live.map Prod.snd).Nodup := by
  have hend : (runs handle_topology (.new .empty)
      [station [sample], station [sample, battery], station [sample, battery]]).map (fun s =>
        (decide (((station []).leaf battery .status).ltree_path ∈ s.db.paths),
          decide (s.subs.live.map Prod.snd).Nodup)) = some (false, false) := by decide +kernel
  obtain ⟨s, hrun, hs⟩ := Option.map_eq_some_iff.mp hend
  obtain ⟨hpath, honce⟩ := Prod.mk.inj hs
  have honce := of_decide_eq_false honce
  exact ⟨s, hrun, fun h => honce h.once, of_decide_eq_false hpath, honce⟩

end motioncore.persistence
