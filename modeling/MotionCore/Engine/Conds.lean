-- `se_cond` over whole runs. In every state that its parent can bring about at most one action is
-- initialised, and each tick invokes the action of the first case whose predicate holds.
import MotionCore.Engine.Activations
import MotionCore.Engine.Forks
import MotionCore.Dsl.Conds

namespace motioncore.engine

open EventType

variable {E : Type}

/-! ## One tick -/

/-- The predicates of `k` cases fail, from the child `i` on, and the next one holds. -/
def asks (i : Nat) : Nat → List Deed
  | 0 => [.asked i true]
  | k + 1 => .asked i false :: asks (i + 2) k

def fails (i : Nat) : Nat → List Deed
  | 0 => []
  | k + 1 => .asked i false :: fails (i + 2) k

def clearing (a : Nat) : List Deed := [.terminated a, .resetAll a]

/-- The old action is put away and the new one is made ready. -/
def switching (active_child matched_action : Nat) : List Deed :=
  if matched_action = active_child then []
  else (if active_child = NO_ACTION then [] else clearing active_child) ++ clearing matched_action

/-- What follows on the answer of the action. -/
def settling (a : Nat) (r : Result) : List Deed :=
  if r = SE_DISABLE then [.terminated a] else if r = SE_PIPELINE_RESET then clearing a else []

inductive CondTick (args : List ArgKind) (active_child : Nat) : List Deed → Nat → Prop where
  | matched {k : Nat} (r : Result) (h : 2 * k < args.length) : CondTick args active_child
    (asks 0 k ++ switching active_child (2 * k + 1) ++ .invoked (2 * k + 1) r ::
      settling (2 * k + 1) r) (2 * k + 1)
  | none {k : Nat} (h : args.length ≤ 2 * k) : CondTick args active_child (fails 0 k) active_child

section

variable {args : List ArgKind} {α : Type}

/-- Predicates and actions in turn. -/
def Alternate (args : List ArgKind) : Prop :=
  ∀ i, i < args.length → (isPred args i = true ↔ i % 2 = 0)

variable {d : NodeData} {deeds : List Deed}

theorem cond_match_does (halt : Alternate args) {g : Option Nat → Prog α} (n i : Nat)
    (heven : i % 2 = 0) (hn : args.length ≤ n + i) {out : Option (α × NodeData)}
    (h : Does (cond_match args n i >>= g) d deeds out) :
    (∃ k rest, i + 2 * k < args.length ∧ deeds = asks i k ++ rest ∧
      Does (g (some (i + 2 * k + 1))) d rest out) ∨
    ∃ k rest, args.length ≤ i + 2 * k ∧ deeds = fails i k ++ rest ∧ Does (g none) d rest out := by
  induction n generalizing i deeds with
  | zero => exact Or.inr ⟨0, deeds, by omega, rfl, h⟩
  | succ n ih =>
    unfold cond_match at h
    by_cases hend : args.length ≤ i
    · rw [if_pos hend] at h
      exact Or.inr ⟨0, deeds, by omega, rfl, h⟩
    · rw [if_neg hend, if_pos ((halt i (by omega)).mpr heven)] at h
      obtain ⟨b, rest, hdeeds, h⟩ := h
      cases b with
      | true => exact Or.inl ⟨0, rest, by omega, hdeeds, h⟩
      | false =>
        rcases ih (i + 2) (by omega) (by omega) h with ⟨k, rest', hk, hrest, h⟩ | ⟨k, rest', hk, hrest, h⟩
        · refine Or.inl ⟨k + 1, rest', by omega, by rw [hdeeds, hrest]; rfl, ?_⟩
          have hchild : i + 2 * (k + 1) + 1 = i + 2 + 2 * k + 1 := by omega
          rw [hchild]
          exact h
        · exact Or.inr ⟨k + 1, rest', by omega, by rw [hdeeds, hrest]; rfl, h⟩

variable {d' : NodeData}

theorem cond_result_does {a : Nat} {r r' : Result}
    (h : Does (cond_result a r) d deeds (some (r', d'))) :
    d' = d ∧ deeds = if r = SE_PIPELINE_RESET then clearing a else [] := by
  obtain ⟨layer, code⟩ := r
  cases layer with
  | application | function =>
    obtain ⟨rfl, hout⟩ := h
    cases hout
    exact ⟨rfl, rfl⟩
  | pipeline =>
    cases code with
    | CONTINUE | HALT | SKIP_CONTINUE | DISABLE | TERMINATE =>
      obtain ⟨rfl, hout⟩ := h
      cases hout
      exact ⟨rfl, rfl⟩
    | RESET =>
      obtain ⟨rest, rfl, rest', rfl, rfl, hout⟩ := h
      cases hout
      exact ⟨rfl, rfl⟩

theorem cond_invoke_does {a : Nat} {r' : Result}
    (h : Does (s_expr_child_invoke a >>= cond_result a) d deeds (some (r', d'))) :
    ∃ r, d' = d ∧ deeds = .invoked a r :: settling a r := by
  obtain ⟨r, rest, hdeeds, hrest⟩ := h
  by_cases hr : r = SE_DISABLE
  · subst hr
    obtain ⟨rest', hterm, hresult⟩ := hrest
    obtain ⟨hd, hnone⟩ := cond_result_does (r := SE_CONTINUE) hresult
    refine ⟨SE_DISABLE, hd, ?_⟩
    rw [hdeeds, hterm, hnone]
    rfl
  · change Does (Prog.andThen (if r = SE_DISABLE then _ else Prog.ret r) (cond_result a)) d rest _ at hrest
    rw [if_neg hr] at hrest
    obtain ⟨hd, hafter⟩ := cond_result_does hrest
    refine ⟨r, hd, ?_⟩
    rw [hdeeds, hafter]
    simp [settling, hr]

theorem cond_does (halt : Alternate args) (hlen : args.length ≤ 65535) {r : Result}
    (h : Does (se_cond args SE_EVENT_TICK) d deeds (some (r, d'))) :
    CondTick args d.user_data deeds d'.user_data := by
  simp only [se_cond] at h
  rcases cond_match_does halt args.length 0 rfl (by omega) h with
    ⟨k, rest, hk, rfl, hfound⟩ | ⟨k, rest, hk, rfl, rfl, hout⟩
  · have hrestart : ∀ {j : Nat} {g : Unit → Prog Result} {deeds : List Deed},
        Does (restart_recursive j >>= g) d deeds (some (r, d')) →
        ∃ rest, deeds = clearing j ++ rest ∧ Does (g ()) d rest (some (r, d')) := by
      rintro j g deeds ⟨rest₁, hterm, rest₂, hreset, hg⟩
      exact ⟨rest₂, by rw [hterm, hreset]; rfl, hg⟩
    rw [Nat.zero_add] at hk hfound
    -- what is done once the flags hold the action
    have hinvoke : ∀ {d₁ : NodeData} {rest : List Deed}, d₁.user_data = 2 * k + 1 →
        Does (s_expr_child_invoke (2 * k + 1) >>= cond_result (2 * k + 1)) d₁ rest (some (r, d')) →
        d'.user_data = 2 * k + 1 ∧ ∃ r₀, rest = .invoked (2 * k + 1) r₀ :: settling (2 * k + 1) r₀ := by
      intro d₁ rest hd₁ hrun
      obtain ⟨r₀, hd, hrest⟩ := cond_invoke_does hrun
      exact ⟨by rw [hd, hd₁], r₀, hrest⟩
    have hmod : (2 * k + 1) % 65536 = 2 * k + 1 := Nat.mod_eq_of_lt (by omega)
    change Does (if 2 * k + 1 ≠ d.user_data then _ else _) d rest _ at hfound
    suffices hdone : d'.user_data = 2 * k + 1 ∧ ∃ r₀,
        rest = switching d.user_data (2 * k + 1) ++ .invoked (2 * k + 1) r₀ :: settling (2 * k + 1) r₀ by
      obtain ⟨hd, r₀, rfl⟩ := hdone
      rw [hd, ← List.append_assoc]
      exact .matched r₀ hk
    unfold switching
    by_cases hsame : 2 * k + 1 = d.user_data
    · rw [if_neg (not_not_intro hsame)] at hfound
      rw [if_pos hsame]
      exact hinvoke hsame.symm hfound
    · rw [if_pos hsame] at hfound
      rw [if_neg hsame]
      by_cases hnone : d.user_data = NO_ACTION
      · rw [if_neg (not_not_intro hnone)] at hfound
        obtain ⟨rest₁, rfl, hset⟩ := hrestart hfound
        obtain ⟨hd, r₀, rfl⟩ := hinvoke hmod hset
        exact ⟨hd, r₀, by rw [if_pos hnone]; rfl⟩
      · rw [if_pos hnone] at hfound
        obtain ⟨rest₁, rfl, hold⟩ := hrestart hfound
        obtain ⟨rest₂, rfl, hset⟩ := hrestart hold
        obtain ⟨hd, r₀, rfl⟩ := hinvoke hmod hset
        exact ⟨hd, r₀, by rw [if_neg hnone, List.append_assoc]⟩
  · cases hout
    rw [List.append_nil]
    exact .none (by omega)

end

/-! ## Which actions are initialised -/

def ChildDown (args : List Node) (j : Nat) (s : Eng E) : Prop :=
  ∀ u, args[j]? = some u → u.kind.isCall = true → (s.nodes u.idx).initialized = false

/-- No action but this one is initialised. The actions are the children with odd numbers. -/
def OnlyAction (args : List Node) (a : Option Nat) (s : Eng E) : Prop :=
  ∀ j, j % 2 = 1 → some j ≠ a → ChildDown args j s

def AtMostOne (args : List Node) (s : Eng E) : Prop :=
  ∀ i j, i % 2 = 1 → j % 2 = 1 → ¬ ChildDown args i s → ¬ ChildDown args j s → i = j

variable {args : List Node} {s : Eng E}

theorem OnlyAction.at_most_one {a : Option Nat} (h : OnlyAction args a s) : AtMostOne args s := by
  have hcurrent : ∀ j, j % 2 = 1 → ¬ ChildDown args j s → some j = a := by
    intro j hj hup
    by_contra hne
    exact hup (h j hj hne)
  intro i j hi hj hupi hupj
  exact Option.some.inj ((hcurrent i hi hupi).trans (hcurrent j hj hupj).symm)

theorem OnlyAction.of_none (h : OnlyAction args none s) (a : Option Nat) :
    OnlyAction args a s := fun j hj _ => h j hj (fun heq => nomatch heq)

def Deed.child : Deed → Nat
  | .invoked j _ | .asked j _ | .terminated j | .reset j | .resetAll j => j

/-- The deed only puts a child away. -/
def Deed.clears : Deed → Bool
  | .terminated _ | .reset _ | .resetAll _ => true
  | _ => false

section

variable {w : World E} {idx : Nat} {args : List Node} {s s' s₀ : Eng E}
variable {j : Nat}

theorem ChildDown.of_nodes (h : ChildDown args j s) (hidx : idx ∉ Node.indicesAll args)
    (hsame : ∀ n, n ≠ idx → s'.nodes n = s.nodes n) : ChildDown args j s' := by
  intro u hu hcall
  have hne : u.idx ≠ idx := fun heq =>
    hidx (heq ▸ mem_indicesAll (List.mem_of_getElem? hu) (idx_mem hcall))
  rw [hsame _ hne]
  exact h u hu hcall

variable {a : Option Nat}

theorem OnlyAction.of_nodes (h : OnlyAction args a s) (hidx : idx ∉ Node.indicesAll args)
    (hsame : ∀ n, n ≠ idx → s'.nodes n = s.nodes n) :
    OnlyAction args a s' := fun j hj hne => (h j hj hne).of_nodes hidx hsame

variable {deed : Deed}

theorem DeedRun.respects {kids : List (Kid E)} (h : DeedRun kids deed s s')
    {R : Eng E → Eng E → Prop} (hkid : (kidAt kids deed.child).Respects R) : R s s' := by
  cases h with
  | invoked h => exact hkid.invoke _ _ _ h
  | asked h => exact hkid.invokePred _ _ _ h
  | terminated h => exact hkid.terminate _ _ h
  | reset j => exact hkid.reset s
  | resetAll j => exact hkid.resetRecursive s

theorem DeedRun.within (h : DeedRun (Node.kids w args) deed s s') {u : Node}
    (hu : args[deed.child]? = some u) : Within u.indices s s' :=
  h.respects (kidAt_some hu ▸ kid_within w u)

theorem DeedRun.none (h : DeedRun (Node.kids w args) deed s s') (hu : args[deed.child]? = none) :
    s' = s := by
  refine (h.respects (R := fun s s' => s = s') ?_).symm
  rw [kidAt_none hu]
  constructor
  · rintro s r s' ⟨⟩
    rfl
  · rintro s b s' ⟨⟩
    rfl
  · rintro s s' ⟨⟩
    rfl
  · exact fun _ => rfl
  · exact fun _ => rfl

variable {t : Node}

theorem reset_down (hcall : t.kind.isCall = true) (s : Eng E) :
    (((t.kid w).resetRecursive s).nodes t.idx).initialized = false :=
  (reset_fresh t s t.idx (idx_mem hcall)).2.1

/-- A child that is down stays so, unless it is invoked. -/
theorem DeedRun.down (hnodup : (Node.indicesAll args).Nodup)
    (h : DeedRun (Node.kids w args) deed s s') (hdown : ChildDown args j s)
    (hdeed : deed.child ≠ j ∨ deed.clears = true) : ChildDown args j s' := by
  intro u hu hcall
  by_cases hchild : deed.child = j
  · have hclears : deed.clears = true := hdeed.resolve_left fun hne => hne hchild
    cases h with
    | invoked | asked => exact nomatch hclears
    | @terminated i _ _ h =>
      obtain rfl : i = j := hchild
      rw [kidAt_some hu] at h
      have hinit := hdown u hu hcall
      unfold Kid.terminate at h
      have hidx : (u.kid w).idx = u.idx := by cases u <;> rfl
      rw [hidx, hinit] at h
      simp only [Bool.false_eq_true, if_false, ite_self, Option.some.injEq] at h
      rw [← h]
      exact hinit
    | reset i =>
      obtain rfl : i = j := hchild
      rw [kidAt_some hu, reset_node hcall]
    | resetAll i =>
      obtain rfl : i = j := hchild
      rw [kidAt_some hu]
      exact reset_down hcall s
  · cases hother : args[deed.child]? with
    | none =>
      rw [h.none hother]
      exact hdown u hu hcall
    | some v =>
      have hout := indices_disjoint hnodup hu hother (Ne.symm hchild) _ (idx_mem hcall)
      rw [(h.within hother).nodes _ hout]
      exact hdown u hu hcall

/-- The deed invokes no action but this one. -/
def KeepsTo (a : Option Nat) (deed : Deed) : Prop :=
  deed.clears = true ∨ deed.child % 2 = 0 ∨ some deed.child = a

theorem DeedRun.only (hnodup : (Node.indicesAll args).Nodup)
    (h : DeedRun (Node.kids w args) deed s s') (honly : OnlyAction args a s)
    (hkeeps : KeepsTo a deed) : OnlyAction args a s' := by
  intro j hj hne
  refine h.down hnodup (honly j hj hne) ?_
  rcases hkeeps with hclears | heven | hcurrent
  · exact Or.inr hclears
  · refine Or.inl fun heq => ?_
    rw [heq] at heven
    omega
  · exact Or.inl fun heq => hne (heq ▸ hcurrent)

/-- While no other action is invoked, no other is initialised. -/
theorem Chain.only (hidx : idx ∉ Node.indicesAll args) (hnodup : (Node.indicesAll args).Nodup)
    {ds : List (Deed × Eng E)} (h : Chain (Node.kids w args) idx s ds s')
    (honly : OnlyAction args a s) (hkeeps : ∀ deed ∈ ds.map Prod.fst, KeepsTo a deed) :
    OnlyAction args a s' ∧ ∀ x ∈ ds, OnlyAction args a x.2 := by
  induction h with
  | nil hsame => exact ⟨honly.of_nodes hidx hsame, by simp⟩
  | cons hsame hdeed _ ih =>
    have hhere := honly.of_nodes hidx hsame
    have hnext := hdeed.only hnodup hhere (hkeeps _ List.mem_cons_self)
    obtain ⟨hend, hall⟩ := ih hnext fun deed hm => hkeeps deed (List.mem_cons_of_mem _ hm)
    refine ⟨hend, fun x hx => ?_⟩
    rcases List.mem_cons.mp hx with rfl | hx
    · exact hhere
    · exact hall x hx

theorem mem_asks {i k : Nat} (h : deed ∈ asks i k) (heven : i % 2 = 0) : deed.child % 2 = 0 := by
  induction k generalizing i with
  | zero =>
    rw [List.mem_singleton.mp h]
    exact heven
  | succ k ih =>
    rcases List.mem_cons.mp h with rfl | h
    · exact heven
    · exact ih h (by omega)

theorem Fresh.down (ht : args[j]? = some t) (h : Fresh t s) : ChildDown args j s := by
  intro u hu hcall
  obtain rfl : t = u := Option.some.inj (ht.symm.trans hu)
  exact (h t.idx (idx_mem hcall)).2.1

theorem Chain.cleared (hidx : idx ∉ Node.indicesAll args) {ds : List (Deed × Eng E)}
    (h : Chain (Node.kids w args) idx s ds s') {before : List Deed}
    (hds : ds.map Prod.fst = before ++ clearing j) (ht : args[j]? = some t) : Fresh t s' := by
  obtain ⟨ds₁, ds₂, rfl, -, hclear⟩ := List.map_eq_append_iff.mp hds
  obtain ⟨⟨deed, s₁⟩, ds₃, rfl, -, hreset⟩ := List.map_eq_cons_iff.mp hclear
  obtain ⟨⟨deed', s₂⟩, ds₄, rfl, hdeed, hnil⟩ := List.map_eq_cons_iff.mp hreset
  obtain rfl := List.map_eq_nil_iff.mp hnil
  obtain ⟨s₃, -, hchain⟩ := h.split
  cases hchain with
  | cons _ _ hchain =>
    cases hchain with
    | cons _ hrun hend =>
      obtain rfl : deed' = .resetAll j := hdeed
      cases hrun with
      | resetAll =>
        rw [kidAt_some ht] at hend
        cases hend with
        | nil hsame =>
          intro n hn
          have hne : n ≠ idx := fun heq => hidx (heq ▸ mem_indicesAll (List.mem_of_getElem? ht) hn)
          rw [hsame n hne]
          exact reset_fresh t _ n hn

end

/-! ## What a tick has to do -/

/-- The tick with the doings `before`, then the invocation of the action of the case `k` in the
state `s₀`, and then `after`. The action of the last tick is `last`. -/
structure CondLaw (args : List Node) (last : Option Nat) (k : Nat) (before : List (Deed × Eng E))
    (s₀ : Eng E) (after : List (Deed × Eng E)) : Prop where
  /-- It is the first case whose predicate holds. -/
  first_case : ∃ puts, before.map Prod.fst = asks 0 k ++ puts ∧ ∀ deed ∈ puts, deed.clears = true
  nothing_else : ∀ deed ∈ after.map Prod.fst, deed.clears = true
  one_action : (∀ x ∈ before, AtMostOne args x.2) ∧ AtMostOne args s₀ ∧ ∀ x ∈ after, AtMostOne args x.2
  old_first : ∀ old, last = some old → old ≠ 2 * k + 1 →
    .terminated old ∈ before.map Prod.fst ∧ ChildDown args old s₀
  afresh : last ≠ some (2 * k + 1) → ∀ t, args[2 * k + 1]? = some t → Fresh t s₀

def lastInvoked : List Deed → Option Nat
  | [] => none
  | .invoked j _ :: ds => (lastInvoked ds).or (some j)
  | _ :: ds => lastInvoked ds

/-- The children are predicates and actions in turn. The last predicate is `SE_TRUE`. -/
structure CondArgs (w : World E) (idx : Nat) (args : List Node) : Prop where
  nodup : (idx :: Node.indicesAll args).Nodup
  short : args.length ≤ 65535
  kinds : ∀ (i : Nat) (t : Node), args[i]? = some t →
    ∃ f, t.kind = .call f ∧ (f = .pred ↔ i % 2 = 0)
  pairs : ∃ n, args.length = 2 * n + 2 ∧ ∃ id m, args[2 * n]? = some (.pred (.test id) m []) ∧
    ∀ event_id env, (w.test id event_id env).1 = true

section

variable {w : World E} {idx : Nat} {args : List Node} {last : Option Nat} {s s' : Eng E}

theorem CondArgs.alternate (h : CondArgs w idx args) : Alternate (args.map Node.kind) := by
  intro i hi
  rw [List.length_map] at hi
  obtain ⟨f, hkind, hpred⟩ := h.kinds i args[i] (List.getElem?_eq_getElem hi)
  rw [← hpred]
  simp [isPred, List.getElem?_eq_getElem hi, hkind]

variable {i : Nat}

theorem CondArgs.outside (h : CondArgs w idx args) : idx ∉ Node.indicesAll args :=
  (List.nodup_cons.mp h.nodup).1

theorem clearing_clears (a : Nat) : ∀ deed ∈ clearing a, deed.clears = true := by
  intro deed hm
  simp only [clearing, List.mem_cons, List.not_mem_nil, or_false] at hm
  rcases hm with rfl | rfl <;> rfl

theorem switching_clears (active_child a : Nat) : ∀ deed ∈ switching active_child a,
    deed.clears = true := by
  intro deed hm
  unfold switching at hm
  split at hm
  · exact absurd hm List.not_mem_nil
  · rcases List.mem_append.mp hm with hm | hm
    · split at hm
      · exact absurd hm List.not_mem_nil
      · exact clearing_clears _ deed hm
    · exact clearing_clears _ deed hm

theorem settling_clears (a : Nat) (r : Result) : ∀ deed ∈ settling a r, deed.clears = true := by
  intro deed hm
  unfold settling at hm
  split at hm
  · rw [List.mem_singleton.mp hm]
    rfl
  · split at hm
    · exact clearing_clears _ deed hm
    · exact absurd hm List.not_mem_nil

/-- What has been done before the action is invoked. -/
structure Switched (args : List Node) (last : Option Nat) (k : Nat) (before : List (Deed × Eng E))
    (s₁ : Eng E) : Prop where
  only : OnlyAction args (some (2 * k + 1)) s₁
  one_action : ∀ x ∈ before, AtMostOne args x.2
  old_first : ∀ old, last = some old → old ≠ 2 * k + 1 →
    .terminated old ∈ before.map Prod.fst ∧ ChildDown args old s₁
  afresh : last ≠ some (2 * k + 1) → ∀ t, args[2 * k + 1]? = some t → Fresh t s₁

variable {k : Nat}

theorem keepsTo_asks (heven : i % 2 = 0) (a : Option Nat) :
    ∀ deed ∈ asks i k, KeepsTo a deed := fun _ hm => Or.inr (Or.inl (mem_asks hm heven))

theorem keepsTo_append {a : Option Nat} {ds ds' : List Deed} (h : ∀ deed ∈ ds, KeepsTo a deed)
    (h' : ∀ deed ∈ ds', deed.clears = true) : ∀ deed ∈ ds ++ ds', KeepsTo a deed := by
  intro deed hm
  rcases List.mem_append.mp hm with hm | hm
  · exact h deed hm
  · exact Or.inl (h' deed hm)

theorem CondArgs.action_lt (h : CondArgs w idx args) (hk : 2 * k < args.length) :
    2 * k + 1 < args.length ∧ 2 * k + 1 ≠ NO_ACTION := by
  obtain ⟨n, hlen, -⟩ := h.pairs
  have hshort := h.short
  unfold NO_ACTION
  omega

theorem switched (hargs : CondArgs w idx args) {before : List (Deed × Eng E)}
    (h : Chain (Node.kids w args) idx s before s') (hk : 2 * k < args.length)
    (hlast : ∀ a, last = some a → a % 2 = 1 ∧ a < args.length)
    (hbefore : before.map Prod.fst = asks 0 k ++ switching (last.getD NO_ACTION) (2 * k + 1))
    (honly : OnlyAction args last s) : Switched args last k before s' := by
  obtain ⟨hidx, hnodup⟩ := List.nodup_cons.mp hargs.nodup
  obtain ⟨-, hno⟩ := hargs.action_lt hk
  have hasks := fun a => keepsTo_asks (k := k) (show 0 % 2 = 0 from rfl) a
  by_cases hsame : last = some (2 * k + 1)
  · -- the action of the last tick goes on
    subst hsame
    rw [Option.getD_some, switching, if_pos rfl, List.append_nil] at hbefore
    obtain ⟨hend, hall⟩ := h.only hidx hnodup honly (hbefore ▸ hasks _)
    refine ⟨hend, fun x hx => (hall x hx).at_most_one, fun old hold hne => ?_, fun hne => absurd rfl hne⟩
    exact absurd (Option.some.inj hold).symm hne
  · have hfresh : ∀ t, args[2 * k + 1]? = some t → Fresh t s' := by
      have hchange : 2 * k + 1 ≠ last.getD NO_ACTION := by
        intro heq
        cases last with
        | none => exact hno heq
        | some old => exact hsame (congrArg some heq.symm)
      have hclear := hbefore
      rw [switching, if_neg hchange, ← List.append_assoc] at hclear
      exact fun t ht => h.cleared hidx hclear ht
    cases last with
    | none =>
      -- no action is initialised, so there is none to put away
      obtain ⟨hend, hall⟩ := h.only hidx hnodup (honly.of_none (some (2 * k + 1)))
        (hbefore ▸ keepsTo_append (hasks _) (switching_clears _ _))
      exact ⟨hend, fun x hx => (hall x hx).at_most_one, fun old hold => (nomatch hold), fun _ => hfresh⟩
    | some old =>
      obtain ⟨hodd, hlt⟩ := hlast old rfl
      have hold : old ≠ NO_ACTION := by
        have hshort := hargs.short
        unfold NO_ACTION
        omega
      have hne : 2 * k + 1 ≠ old := fun heq => hsame (congrArg some heq.symm)
      rw [Option.getD_some, switching, if_neg hne, if_neg hold, ← List.append_assoc] at hbefore
      -- the old action is put away, and from then on only the new one may be initialised
      obtain ⟨before₁, before₂, rfl, hput, hnew⟩ := List.map_eq_append_iff.mp hbefore
      obtain ⟨s₁, hchain₁, hchain₂⟩ := h.split
      obtain ⟨honly₁, hall₁⟩ := hchain₁.only hidx hnodup honly
        (hput ▸ keepsTo_append (hasks _) (clearing_clears _))
      have hdown : ChildDown args old s₁ := by
        cases ht : args[old]? with
        | none => exact fun u hu => nomatch ht.symm.trans hu
        | some t => exact (hchain₁.cleared hidx hput ht).down ht
      have hnone : OnlyAction args none s₁ := by
        intro j hj _
        by_cases hjo : j = old
        · exact hjo ▸ hdown
        · exact honly₁ j hj fun heq => hjo (Option.some.inj heq)
      have hclears : ∀ a, ∀ deed ∈ before₂.map Prod.fst, KeepsTo a deed := by
        rw [hnew]
        exact fun a deed hm => Or.inl (clearing_clears _ deed hm)
      obtain ⟨honly₂, hall₂⟩ := hchain₂.only hidx hnodup hnone (hclears none)
      refine ⟨honly₂.of_none _, fun x hx => ?_, fun old' hold' _ => ?_, fun _ => hfresh⟩
      · rcases List.mem_append.mp hx with hx | hx
        · exact (hall₁ x hx).at_most_one
        · exact (hall₂ x hx).at_most_one
      · obtain rfl : old = old' := Option.some.inj hold'
        refine ⟨?_, honly₂ old hodd (fun heq => nomatch heq)⟩
        rw [List.map_append, hput]
        simp [clearing]

theorem mem_fails {n : Nat} (h : n < k) : .asked (i + 2 * n) false ∈ fails i k := by
  induction k generalizing i n with
  | zero => omega
  | succ k ih =>
    cases n with
    | zero => exact List.mem_cons_self
    | succ n =>
      have hchild : i + 2 * (n + 1) = i + 2 + 2 * n := by omega
      rw [hchild]
      exact List.mem_cons_of_mem _ (ih (by omega))

theorem CondArgs.not_fails (hargs : CondArgs w idx args) {ds : List (Deed × Eng E)}
    (h : Chain (Node.kids w args) idx s ds s') (hk : args.length ≤ 2 * k) :
    ds.map Prod.fst ≠ fails 0 k := by
  intro hdeeds
  obtain ⟨n, hlen, id, m, ht, htrue⟩ := hargs.pairs
  have hmem : Deed.asked (0 + 2 * n) false ∈ ds.map Prod.fst := hdeeds ▸ mem_fails (by omega)
  rw [Nat.zero_add] at hmem
  obtain ⟨⟨deed, s₀⟩, hmem, rfl⟩ := List.mem_map.mp hmem
  obtain ⟨s₁, hrun⟩ := h.deed_of_mem hmem
  cases hrun with
  | asked hask =>
    rw [kidAt_some ht] at hask
    simp only [Node.kid, predKid, dispatch_pred, htrue, Option.some.injEq, Prod.mk.injEq,
      Bool.true_eq_false, false_and] at hask

theorem tick_law (hargs : CondArgs w idx args) {ds : List (Deed × Eng E)}
    (h : Chain (Node.kids w args) idx s ds s') {d' : Nat}
    (htick : CondTick (args.map Node.kind) (last.getD NO_ACTION) (ds.map Prod.fst) d')
    (hlast : ∀ a, last = some a → a % 2 = 1 ∧ a < args.length) (honly : OnlyAction args last s) :
    ∃ k before r s₀ after, ds = before ++ (.invoked (2 * k + 1) r, s₀) :: after ∧
      2 * k + 1 < args.length ∧ CondLaw args last k before s₀ after ∧
      OnlyAction args (some (2 * k + 1)) s' ∧ d' = 2 * k + 1 := by
  obtain ⟨hidx, hnodup⟩ := List.nodup_cons.mp hargs.nodup
  generalize hdeeds : ds.map Prod.fst = deeds at htick
  cases htick with
  | none hk =>
    rw [List.length_map] at hk
    exact absurd hdeeds (hargs.not_fails h hk)
  | @matched k r hk =>
    rw [List.length_map] at hk
    obtain ⟨before, rest, rfl, hbefore, hrest⟩ := List.map_eq_append_iff.mp hdeeds
    obtain ⟨⟨deed, s₀⟩, after, rfl, hdeed, hafter⟩ := List.map_eq_cons_iff.mp hrest
    obtain rfl : deed = .invoked (2 * k + 1) r := hdeed
    obtain ⟨s₁, hchain₁, hchain₂⟩ := h.split
    have hswitched := switched hargs hchain₁ hk hlast hbefore honly
    have hsettles : ∀ deed ∈ after.map Prod.fst, deed.clears = true :=
      hafter ▸ settling_clears (2 * k + 1) r
    obtain ⟨honly₂, hall₂⟩ := hchain₂.only hidx hnodup hswitched.only (by
      rw [List.map_cons, hafter]
      intro deed hm
      rcases List.mem_cons.mp hm with rfl | hm
      · exact Or.inr (Or.inr rfl)
      · exact Or.inl (settling_clears _ _ deed hm))
    have hhere : ∀ n, n ≠ idx → s₀.nodes n = s₁.nodes n := by
      cases hchain₂ with
      | cons hsame _ _ => exact hsame
    refine ⟨k, before, r, s₀, after, rfl, (hargs.action_lt hk).1, ?_, honly₂, rfl⟩
    exact {
      first_case := ⟨_, hbefore, switching_clears _ _⟩
      nothing_else := hsettles
      one_action := ⟨hswitched.one_action, (hall₂ _ List.mem_cons_self).at_most_one,
        fun x hx => (hall₂ x (List.mem_cons_of_mem _ hx)).at_most_one⟩
      old_first := fun old hold hne =>
        ⟨(hswitched.old_first old hold hne).1, (hswitched.old_first old hold hne).2.of_nodes hidx hhere⟩
      afresh := fun hne t ht n hn => by
        have hout : n ≠ idx := fun heq => hidx (heq ▸ mem_indicesAll (List.mem_of_getElem? ht) hn)
        rw [hhere n hout]
        exact hswitched.afresh hne t ht n hn }

/-! ## TERMINATE -/

theorem put_away (hnodup : (Node.indicesAll args).Nodup) {own : NodeData → E → Result × NodeData × E}
    {i : Nat} (h : runProg w (Node.kids w args) idx own
      (if isCall (args.map Node.kind) i then do
        s_expr_child_terminate i
        s_expr_child_reset i
      else pure ()) s = some ((), s')) {j : Nat} (hj : j = i ∨ ChildDown args j s) :
    ChildDown args j s' := by
  cases hcall : isCall (args.map Node.kind) i with
  | false =>
    simp only [hcall, Bool.false_eq_true, if_false, runProg_pure, Option.some.injEq, Prod.mk.injEq,
      true_and] at h
    subst h
    rcases hj with rfl | hj
    · intro u hu hkind
      simp [isCall, hu, hkind] at hcall
    · exact hj
  | true =>
    simp only [hcall, if_true, runProg_bind, run_child_terminate, run_child_reset,
      Option.bind_eq_some_iff, Option.map_eq_some_iff, Prod.mk.injEq, Prod.exists, true_and,
      Option.some.injEq] at h
    obtain ⟨-, s₁, ⟨_, hterm, rfl⟩, rfl⟩ := h
    rcases hj with rfl | hj
    · intro u hu hkind
      rw [kidAt_some hu, reset_node hkind]
    · exact (DeedRun.reset i _).down hnodup
        ((DeedRun.terminated hterm).down hnodup hj (Or.inr rfl)) (Or.inr rfl)

theorem put_away_all (hnodup : (Node.indicesAll args).Nodup)
    {own : NodeData → E → Result × NodeData × E} (js : List Nat) {s s' : Eng E}
    (h : runProg w (Node.kids w args) idx own (forEach js fun i =>
      if isCall (args.map Node.kind) i then do
        s_expr_child_terminate i
        s_expr_child_reset i
      else pure ()) s = some ((), s')) {j : Nat} (hj : j ∈ js ∨ ChildDown args j s) :
    ChildDown args j s' := by
  induction js generalizing s with
  | nil =>
    cases h
    exact hj.resolve_left List.not_mem_nil
  | cons i js ih =>
    simp only [forEach, runProg_bind, Option.bind_eq_some_iff] at h
    obtain ⟨⟨_, s₁⟩, hstep, hrest⟩ := h
    refine ih hrest ?_
    rcases hj with hj | hj
    · rcases List.mem_cons.mp hj with rfl | hj
      · exact Or.inr (put_away hnodup hstep (Or.inl rfl))
      · exact Or.inl hj
    · exact Or.inr (put_away hnodup hstep (Or.inr hj))

theorem put_away_does {α : Type} {kinds : List ArgKind} {g : Unit → Prog α} (js : List Nat)
    {d : NodeData} {deeds : List Deed} {out : Option (α × NodeData)}
    (h : Does ((forEach js fun i => if isCall kinds i then do
        s_expr_child_terminate i
        s_expr_child_reset i
      else pure ()) >>= g) d deeds out) :
    ∃ puts rest, deeds = puts ++ rest ∧ (∀ deed ∈ puts, deed.clears = true) ∧ Does (g ()) d rest out := by
  induction js generalizing deeds with
  | nil => exact ⟨[], deeds, rfl, by simp, h⟩
  | cons i js ih =>
    cases hcall : isCall kinds i with
    | false =>
      simp only [forEach, hcall, Bool.false_eq_true, if_false] at h
      exact ih h
    | true =>
      simp only [forEach, hcall, if_true] at h
      obtain ⟨rest₁, hterm, rest₂, hreset, hrest⟩ := h
      obtain ⟨puts, rest, hputs, hclears, hg⟩ := ih hrest
      refine ⟨.terminated i :: .reset i :: puts, rest, by rw [hterm, hreset, hputs]; rfl, ?_, hg⟩
      intro deed hm
      simp only [List.mem_cons] at hm
      rcases hm with rfl | rfl | hm
      · rfl
      · rfl
      · exact hclears deed hm

variable {r : Result}

theorem terminate_down (hargs : CondArgs w idx args) {event_id : Nat}
    (h : callMain w .se_cond idx (Node.kids w args) event_id SE_EVENT_TERMINATE s = some (r, s'))
    (j : Nat) : ChildDown args j s' := by
  obtain ⟨hidx, hnodup⟩ := List.nodup_cons.mp hargs.nodup
  unfold callMain at h
  rw [kids_kinds] at h
  simp only [mainProg, se_cond, s_expr_children_terminate_all, runProg_bind, Option.bind_eq_some_iff,
    run_set_user_flags, runProg_pure, Option.some.injEq, Prod.mk.injEq, Prod.exists] at h
  obtain ⟨_, s₁, hloop, _, _, ⟨-, rfl⟩, -, rfl⟩ := h
  have hdown : ChildDown args j s₁ := by
    by_cases hj : j < args.length
    · refine put_away_all hnodup _ hloop (Or.inl ?_)
      simpa using hj
    · intro u hu
      exact absurd (List.getElem?_eq_some_iff.mp hu).1 hj
  exact hdown.of_nodes hidx (setData_other s₁ idx _)

def terminateDoings (w : World E) (idx : Nat) (args : List Node) (s : Eng E) : List (Deed × Eng E) :=
  doings w (Node.kids w args) idx (ownFn w .se_cond 0 SE_EVENT_TERMINATE)
    (se_cond (args.map Node.kind) SE_EVENT_TERMINATE) s

/-- On the way no action is initialised but the last. -/
theorem terminate_only (hargs : CondArgs w idx args) (h : OnlyAction args last s) {event_id : Nat}
    (hrun : callMain w .se_cond idx (Node.kids w args) event_id SE_EVENT_TERMINATE s = some (r, s')) :
    ∀ x ∈ terminateDoings w idx args s, AtMostOne args x.2 := by
  obtain ⟨hidx, hnodup⟩ := List.nodup_cons.mp hargs.nodup
  have hkids := kids_respect ((sameData_follows idx).into w) args
    fun i hi => sameData_at fun he => hidx (he ▸ hi)
  unfold callMain at hrun
  rw [kids_kinds] at hrun
  have hdoes := doings_does hkids _ _ hrun
  have hchain := doings_chain _ _ hrun
  obtain ⟨puts, rest, hputs, hclears, hrest⟩ := put_away_does _ hdoes
  obtain ⟨rfl, -⟩ := hrest
  rw [List.append_nil] at hputs
  obtain ⟨-, hall⟩ := hchain.only hidx hnodup h (hputs ▸ fun deed hm => Or.inl (hclears deed hm))
  exact fun x hx => (hall x hx).at_most_one

/-! ## Runs -/

/-- The states that a `se_cond` comes to, with the action of its last tick. It is called when it is
active, and its parent resets it without its children only when it is not initialised. Elsewhere
anything may happen. -/
inductive CondRun (w : World E) (idx : Nat) (args : List Node) : Option Nat → Eng E → Prop where
  | created {s : Eng E} (hnew : (s.nodes idx).initialized = false) (hdown : OnlyAction args none s) :
    CondRun w idx args none s
  | elsewhere {last : Option Nat} {s s' : Eng E} (h : CondRun w idx args last s)
    (hs : Apart (idx :: Node.indicesAll args) s s') : CondRun w idx args last s'
  | ticked {last : Option Nat} {s s₁ s₂ : Eng E} {r : Result} (h : CondRun w idx args last s)
    (hactive : (s.nodes idx).active = true)
    (hfirst : first_call w .se_cond idx (Node.kids w args) s = some s₁)
    (htick : callMain w .se_cond idx (Node.kids w args) s₁.event_id SE_EVENT_TICK s₁ = some (r, s₂)) :
    CondRun w idx args (lastInvoked ((tickDoings w .se_cond idx args s₁).map Prod.fst))
      (s₂.record (.tick idx r))
  | completed {last : Option Nat} {s s' : Eng E} {r : Result} (h : CondRun w idx args last s)
    (hinit : (s.nodes idx).initialized = true)
    (hend : last_call w .se_cond idx (Node.kids w args) SE_PIPELINE_DISABLE s = some s') :
    CondRun w idx args none s'
  | terminated {last : Option Nat} {s s' : Eng E} (h : CondRun w idx args last s)
    (hend : (Node.kid w (.main .se_cond idx args)).terminate s = some s') : CondRun w idx args none s'
  | reset {last : Option Nat} {s : Eng E} (h : CondRun w idx args last s)
    (hdown : (s.nodes idx).initialized = false) :
    CondRun w idx args none ((Node.kid w (.main .se_cond idx args)).reset s)
  | resetAll {last : Option Nat} {s : Eng E} (h : CondRun w idx args last s) :
    CondRun w idx args none ((Node.kid w (.main .se_cond idx args)).resetRecursive s)

structure Current (idx : Nat) (args : List Node) (last : Option Nat) (s : Eng E) : Prop where
  new : (s.nodes idx).initialized = false → last = none
  flags : (s.nodes idx).initialized = true → (s.nodes idx).active = true →
    (s.nodes idx).data.user_data = last.getD NO_ACTION
  only : OnlyAction args last s
  action : ∀ a, last = some a → a % 2 = 1 ∧ a < args.length

theorem Current.of_apart (h : Current idx args last s) (hs : Apart (idx :: Node.indicesAll args) s s') :
    Current idx args last s' := by
  have hown := hs.nodes idx List.mem_cons_self
  refine ⟨hown ▸ h.new, hown ▸ h.flags, fun j hj hne u hu hcall => ?_, h.action⟩
  rw [hs.nodes u.idx (List.mem_cons_of_mem _ (mem_indicesAll (List.mem_of_getElem? hu) (idx_mem hcall)))]
  exact h.only j hj hne u hu hcall

theorem current_down (hdown : OnlyAction args none s)
    (hflags : (s.nodes idx).initialized = true → (s.nodes idx).active = true →
      (s.nodes idx).data.user_data = NO_ACTION) : Current idx args none s :=
  ⟨fun _ => rfl, hflags, hdown, fun _ ha => nomatch ha⟩

theorem Current.first_call (hargs : CondArgs w idx args) (h : Current idx args last s)
    (hactive : (s.nodes idx).active = true) {s₁ : Eng E}
    (hfirst : first_call w .se_cond idx (Node.kids w args) s = some s₁) :
    (s₁.nodes idx).initialized = true ∧ (s₁.nodes idx).data.user_data = last.getD NO_ACTION ∧
      OnlyAction args last s₁ := by
  unfold motioncore.engine.first_call at hfirst
  cases hinit : (s.nodes idx).initialized with
  | true =>
    simp only [hinit, if_true, Option.some.injEq] at hfirst
    subst hfirst
    exact ⟨hinit, h.flags hinit hactive, h.only⟩
  | false =>
    obtain rfl := h.new hinit
    simp only [hinit, Bool.false_eq_true, if_false, callMain, mainProg, se_cond, runProg_bind,
      run_set_user_flags, Option.bind_some, runProg_pure, Option.map_some, Option.some.injEq] at hfirst
    subst hfirst
    refine ⟨?_, ?_, ?_⟩
    · simp [Eng.setData, Eng.setNode, Eng.record]
    · simp [NO_ACTION]
    · refine h.only.of_nodes hargs.outside fun n hn => ?_
      simp [Eng.setData, Eng.setNode, Eng.record, hn]

theorem lastInvoked_append (ds ds' : List Deed) :
    lastInvoked (ds ++ ds') = (lastInvoked ds').or (lastInvoked ds) := by
  induction ds with
  | nil => simp [lastInvoked]
  | cons deed ds ih =>
    cases deed with
    | invoked j r => simp [lastInvoked, ih]
    | asked | terminated | reset | resetAll => simp [lastInvoked, ih]

theorem lastInvoked_asks (i k : Nat) : lastInvoked (asks i k) = none := by
  induction k generalizing i with
  | zero => rfl
  | succ k ih => exact ih (i + 2)

theorem lastInvoked_clears {ds : List Deed} (h : ∀ deed ∈ ds, deed.clears = true) :
    lastInvoked ds = none := by
  induction ds with
  | nil => rfl
  | cons deed ds ih =>
    have hrest := ih fun d hm => h d (List.mem_cons_of_mem _ hm)
    have hhead := h deed List.mem_cons_self
    cases deed with
    | invoked | asked => exact nomatch hhead
    | terminated | reset | resetAll => exact hrest

theorem CondLaw.lastInvoked {before after : List (Deed × Eng E)} {s₀ : Eng E}
    (h : CondLaw args last k before s₀ after) :
    lastInvoked ((before ++ (.invoked (2 * k + 1) r, s₀) :: after).map Prod.fst) = some (2 * k + 1) := by
  obtain ⟨puts, hbefore, hputs⟩ := h.first_case
  rw [List.map_append, hbefore, List.map_cons, lastInvoked_append, lastInvoked_append]
  simp [motioncore.engine.lastInvoked, lastInvoked_clears h.nothing_else, lastInvoked_clears hputs,
    lastInvoked_asks]

theorem Current.tick (hargs : CondArgs w idx args) (h : Current idx args last s)
    (hactive : (s.nodes idx).active = true) {s₁ s₂ : Eng E}
    (hfirst : motioncore.engine.first_call w .se_cond idx (Node.kids w args) s = some s₁)
    (htick : callMain w .se_cond idx (Node.kids w args) s₁.event_id SE_EVENT_TICK s₁ = some (r, s₂)) :
    ∃ k before r₀ s₀ after, tickDoings w .se_cond idx args s₁ =
        before ++ (.invoked (2 * k + 1) r₀, s₀) :: after ∧
      2 * k + 1 < args.length ∧ CondLaw args last k before s₀ after ∧
      Current idx args (some (2 * k + 1)) (s₂.record (.tick idx r)) := by
  obtain ⟨hinit, hdata, honly⟩ := h.first_call hargs hactive hfirst
  have hidx := hargs.outside
  have hkids := kids_respect ((sameData_follows idx).into w) args
    fun i hi => sameData_at fun he => hidx (he ▸ hi)
  have hflags := call_flags hidx htick
  unfold callMain at htick
  rw [kids_kinds] at htick
  have hdoes := doings_does hkids _ _ htick
  have hchain := doings_chain _ _ htick
  have hlen : (args.map Node.kind).length ≤ 65535 := by
    rw [List.length_map]
    exact hargs.short
  have hcond := cond_does hargs.alternate hlen hdoes
  rw [hdata] at hcond
  obtain ⟨k, before, r₀, s₀, after, hds, hk, hlaw, hend, hafter⟩ :=
    tick_law hargs hchain hcond h.action honly
  refine ⟨k, before, r₀, s₀, after, hds, hk, hlaw, ⟨fun hno => ?_, fun _ _ => hafter, ?_, ?_⟩⟩
  · exact nomatch (hflags.2.trans hinit).symm.trans hno
  · exact hend.of_nodes hidx fun _ _ => rfl
  · rintro a ha
    obtain rfl : 2 * k + 1 = a := Option.some.inj ha
    omega

theorem terminated_down (hargs : CondArgs w idx args) (h : Current idx args last s)
    (hend : (Node.kid w (.main .se_cond idx args)).terminate s = some s') :
    Current idx args none s' := by
  rcases terminate_cases hend with ⟨hinit, rfl⟩ | ⟨-, r, s₁, hrun, rfl⟩
  · obtain rfl := h.new hinit
    exact h
  · refine current_down (fun j _ _ => ?_) fun hno => ?_
    · refine (terminate_down hargs hrun j).of_nodes hargs.outside fun n hn => ?_
      simp [Eng.clearNode, Eng.setNode, hn]
    · simp [Eng.clearNode, Eng.setNode] at hno

theorem completed_down (hargs : CondArgs w idx args)
    (hend : last_call w .se_cond idx (Node.kids w args) SE_PIPELINE_DISABLE s = some s') :
    Current idx args none s' := by
  simp only [last_call, if_true, Option.map_eq_some_iff, Prod.exists] at hend
  obtain ⟨r, s₁, hrun, rfl⟩ := hend
  refine current_down (fun j _ _ => ?_) fun _ hno => ?_
  · refine (terminate_down hargs hrun j).of_nodes hargs.outside fun n hn => ?_
    simp [Eng.setNode, hn]
  · simp [Eng.setNode] at hno

theorem CondRun.current (hargs : CondArgs w idx args) (h : CondRun w idx args last s) :
    Current idx args last s := by
  induction h with
  | created hnew hdown => exact current_down hdown fun hinit => nomatch hnew.symm.trans hinit
  | elsewhere _ hs ih => exact ih.of_apart hs
  | ticked _ hactive hfirst htick ih =>
    obtain ⟨k, before, r₀, s₀, after, hds, -, hlaw, hnext⟩ := ih.tick hargs hactive hfirst htick
    rw [hds, hlaw.lastInvoked]
    exact hnext
  | completed _ _ hend _ => exact completed_down hargs hend
  | terminated _ hend ih => exact terminated_down hargs ih hend
  | @reset _ s _ hdown ih =>
    obtain rfl := ih.new hdown
    have hnew := reset_node (w := w) (t := .main .se_cond idx args) rfl s
    refine current_down (ih.only.of_nodes hargs.outside fun n hn => ?_) fun hno => ?_
    · change ((s.resetMain idx).nodes n) = s.nodes n
      unfold Eng.resetMain
      dsimp only
      split <;> simp [Eng.resetNode, Eng.setNode, hn]
    · rw [show (Node.main MainFn.se_cond idx args).idx = idx from rfl] at hnew
      rw [hnew] at hno
      exact nomatch hno
  | @resetAll _ s _ _ =>
    have hfresh := reset_fresh (w := w) (.main .se_cond idx args) s
    refine current_down (fun j _ _ u hu hcall => ?_) fun hno => ?_
    · have hmem := mem_indicesAll (List.mem_of_getElem? hu) (idx_mem hcall)
      exact (hfresh u.idx (List.mem_cons_of_mem _ hmem)).2.1
    · exact nomatch (hfresh idx List.mem_cons_self).2.1.symm.trans hno

end

structure RunLaw (w : World E) (idx : Nat) (args : List Node) (last : Option Nat) (s : Eng E) : Prop where
  one_action : AtMostOne args s
  tick : ∀ (s₁ s₂ : Eng E) (r : Result), (s.nodes idx).active = true →
    first_call w .se_cond idx (Node.kids w args) s = some s₁ →
    callMain w .se_cond idx (Node.kids w args) s₁.event_id SE_EVENT_TICK s₁ = some (r, s₂) →
    ∃ k before r₀ s₀ after, tickDoings w .se_cond idx args s₁ =
        before ++ (.invoked (2 * k + 1) r₀, s₀) :: after ∧
      2 * k + 1 < args.length ∧ CondLaw args last k before s₀ after
  terminate : ∀ (event_id : Nat) (s' : Eng E) (r : Result),
    callMain w .se_cond idx (Node.kids w args) event_id SE_EVENT_TERMINATE (s.record (.terminate idx)) =
      some (r, s') →
    ∀ x ∈ terminateDoings w idx args (s.record (.terminate idx)), AtMostOne args x.2

theorem run_law {w : World E} {idx : Nat} {last : Option Nat} (hargs : CondArgs w idx args)
    (h : CondRun w idx args last s) : RunLaw w idx args last s := by
  have hcurrent := h.current hargs
  refine ⟨hcurrent.only.at_most_one, fun s₁ s₂ r hactive hfirst htick => ?_, fun event_id s' r hrun => ?_⟩
  · obtain ⟨k, before, r₀, s₀, after, hds, hk, hlaw, -⟩ := hcurrent.tick hargs hactive hfirst htick
    exact ⟨k, before, r₀, s₀, after, hds, hk, hlaw⟩
  · exact terminate_only hargs (hcurrent.only.of_nodes hargs.outside fun _ _ => rfl) hrun

/-- The DSL accepts a `se_cond` exactly when none of its actions has another one in it. At run time
every `se_cond` keeps its law, nested or not. -/
theorem se_cond_law (cases : dsl.Cases) (st : dsl.LuaState) {E : Type} (w : World E) (idx : Nat)
    (args : List Node) (last : Option Nat) (s : Eng E) :
    (cases.Sound → dsl.Ordered st.builder.current_call_stack →
      (dsl.Accepts cases st ↔ cases.nests = false)) ∧
    (CondArgs w idx args → CondRun w idx args last s → RunLaw w idx args last s) :=
  ⟨fun hsound ho => dsl.accepts_iff hsound ho, fun hargs h => run_law hargs h⟩

/-! ## A default with one action -/

/-- A oneshot without parameters. -/
def log_action : dsl.Closure := dsl.Closure.call (dsl.ascii "SE_LOG") .o_call .ok

theorem log_action_emits : dsl.EmitsAction log_action := by
  refine (dsl.emits_all_nil.call (dsl.ascii "SE_LOG") .o_call).mono ?_
  rintro items ⟨pointer_index, inner, rfl, -⟩
  exact ⟨_, rfl, rfl⟩

def log_default : dsl.Cases := .default (.plain log_action)

/-- The default, with a `se_cond` for its action. -/
def nested_default : dsl.Cases := .default (.cond log_default)

def default_args : List Node := [.pred (.test 0) 1 [], .oneshot 0 2 false]

theorem default_keeps_law : dsl.Accepts log_default dsl.new_tree ∧
    RunLaw (scripted 1 fun _ => SE_PIPELINE_CONTINUE) 0 default_args none (createdState ()) := by
  have hlaw := se_cond_law log_default dsl.new_tree (scripted 1 fun _ => SE_PIPELINE_CONTINUE) 0
    default_args none (createdState ())
  refine ⟨(hlaw.1 log_action_emits dsl.new_tree_ordered).mpr rfl,
    hlaw.2 ⟨by decide, by decide, ?_, 0, rfl, 0, 1, rfl, fun _ _ => rfl⟩
      (.created rfl fun j _ _ u _ _ => rfl)⟩
  intro i t ht
  match i with
  | 0 =>
    obtain rfl : Node.pred (.test 0) 1 [] = t := Option.some.inj ht
    exact ⟨.pred, rfl, by decide⟩
  | 1 =>
    obtain rfl : Node.oneshot 0 2 false = t := Option.some.inj ht
    exact ⟨.oneshot, rfl, by decide⟩
  | i + 2 => simp [default_args] at ht

/-- A `se_cond` in the action of the default makes the outer one fail. -/
theorem nested_cond_is_rejected : ¬ ∀ (cases : dsl.Cases) (st : dsl.LuaState), cases.Sound →
    dsl.Ordered st.builder.current_call_stack → dsl.Accepts cases st := by
  intro hall
  have hsound : nested_default.Sound := log_action_emits
  have haccepts := hall nested_default dsl.new_tree hsound dsl.new_tree_ordered
  exact nomatch (dsl.accepts_iff hsound dsl.new_tree_ordered).mp haccepts

end motioncore.engine
