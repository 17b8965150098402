-- Trees with dictionary nodes. A dispatch node keeps its dictionary in a pointer of the tree,
-- which INIT of any dispatch node sets, TERMINATE of any clears and every tick reads: it is
-- that of the last dispatch node that was initialised, unless one was terminated since. So each
-- node looks into its own dictionary exactly in the runs where these agree at every tick.
import MotionCore.Engine.Steps

namespace motioncore.dictionary

open engine engine.EventType

variable {E : Type}

/-! ## Trees with dictionary nodes -/

/-- Where a dispatch node has its key from. -/
inductive Key where
  | hash (h : Nat)
  | field (f : Nat)
deriving DecidableEq, Repr

/-- The nodes of a tree. `dispatch` is `se_exec_dict_dispatch` or `se_exec_dict_fn_ptr`, with
the field of its dictionary and its key, and `inner` is `se_exec_dict_internal`. -/
inductive DictNode where
  | int (v : Int)
  | fieldRef (f : Nat)
  | literal
  | main (fn : MainFn) (idx : Nat) (args : List DictNode)
  | oneshot (id idx : Nat) (survives_reset : Bool)
  | pred (fn : PredFn) (idx : Nat) (args : List DictNode)
  | dispatch (idx field : Nat) (key : Key)
  | inner (idx key : Nat)

/-- An access of a dispatch node to the pointer of the tree. `own` is the dictionary that its
field holds. -/
inductive Access where
  | took (n dict : Nat)
  | cleared (n : Nat)
  | looked (n : Nat) (own used key : Option Nat)
deriving DecidableEq, Repr

/-- The environment of the tree, the pointer, and the accesses. -/
structure DictEnv (E : Type) where
  env : E
  current_dict : Option Nat
  trace : List Access

/-- The functions of a module, its dictionaries by their address, and the fields that hold
pointers and hashes. `find` gives the parameters behind a key up to its end. -/
structure DictWorld (E : Type) where
  world : World E
  is_dict : Nat → Bool
  find : Nat → Nat → Option (List DictNode)
  dict_field : Nat → E → Option Nat
  hash_field : Nat → E → Option Nat

/-- The functions of the leaves do not know the pointer. -/
def lift (w : World E) : World (DictEnv E) where
  fuel := w.fuel
  main id event event_id d e :=
    let (r, d, env) := w.main id event event_id d e.env
    (r, d, { e with env := env })
  oneshot id event_id e := { e with env := w.oneshot id event_id e.env }
  test id event_id e :=
    let (b, env) := w.test id event_id e.env
    (b, { e with env := env })
  counter id event_id st e :=
    let (b, st, env) := w.counter id event_id st e.env
    (b, st, { e with env := env })
  field f e := w.field f e.env

namespace DictWorld

/-- The dictionary that a field holds. -/
def held (w : DictWorld E) (field : Nat) (env : E) : Option Nat :=
  (w.dict_field field env).filter w.is_dict

def keyOf (w : DictWorld E) (key : Key) (env : E) : Option Nat :=
  match key with
  | .hash h => some h
  | .field f => w.hash_field f env

end DictWorld

/-! ## Entries -/

/-- The calls of an entry, one after the other. A main node that neither continues nor
completes ends the entry. -/
def invoke_calls : List (Kid (DictEnv E)) → Result → Eng (DictEnv E) →
    Option (Result × Eng (DictEnv E))
  | [], result, s => some (result, s)
  | k :: ks, result, s =>
    match k.kind with
    | .call .main => do
      let (result, s) ← k.invoke s
      if result ≠ SE_PIPELINE_CONTINUE ∧ result ≠ SE_PIPELINE_DISABLE then return (result, s)
      else invoke_calls ks result s
    | .call _ => do
      let (_, s) ← k.invoke s
      invoke_calls ks result s
    | _ => invoke_calls ks result s

/-- All calls of the entry are reset, and then invoked. An entry without parameters is an
exception. -/
def run_entry (content : List (Kid (DictEnv E))) (s : Eng (DictEnv E)) :
    Option (Result × Eng (DictEnv E)) :=
  if content.isEmpty then some (SE_PIPELINE_TERMINATE, s)
  else do
    let (result, s) ← invoke_calls content SE_PIPELINE_CONTINUE (reset_all content s)
    return (if result = SE_PIPELINE_DISABLE then SE_PIPELINE_CONTINUE else result, s)

/-- What is behind a key of a dictionary. `none` is a chain of entries that is too long. -/
def Entries (E : Type) : Type := Nat → Nat → Option (Option (List (Kid (DictEnv E))))

/-- The key is looked up in the dictionary of the tree. No dictionary, no key and no entry are
exceptions. -/
def exec_key (entries : Entries E) (key : Option Nat) (s : Eng (DictEnv E)) :
    Option (Result × Eng (DictEnv E)) :=
  match s.env.current_dict, key with
  | some d, some h =>
    match entries d h with
    | none => none
    | some none => some (SE_PIPELINE_TERMINATE, s)
    | some (some content) => run_entry content s
  | _, _ => some (SE_PIPELINE_TERMINATE, s)

/-! ## The functions of the nodes -/

def setDict (s : Eng (DictEnv E)) (d : Option Nat) (a : Access) : Eng (DictEnv E) :=
  { s with env := { s.env with current_dict := d, trace := s.env.trace ++ [a] } }

def look (s : Eng (DictEnv E)) (a : Access) : Eng (DictEnv E) :=
  { s with env := { s.env with trace := s.env.trace ++ [a] } }

/-- Both dispatch nodes, with the key that they look up. -/
def exec_dict (w : DictWorld E) (entries : Entries E) (idx field : Nat) (key : Key)
    (event : EventType) (s : Eng (DictEnv E)) : Option (Result × Eng (DictEnv E)) :=
  match event with
  | SE_EVENT_INIT =>
    match w.dict_field field s.env.env with
    | none => some (SE_PIPELINE_TERMINATE, s)
    | some d =>
      if w.is_dict d then some (SE_PIPELINE_CONTINUE, setDict s (some d) (.took idx d))
      else some (SE_PIPELINE_TERMINATE, s)
  | SE_EVENT_TERMINATE => some (SE_PIPELINE_CONTINUE, setDict s none (.cleared idx))
  | SE_EVENT_TICK =>
    let key := w.keyOf key s.env.env
    exec_key entries key (look s (.looked idx (w.held field s.env.env) s.env.current_dict key))

def se_exec_dict_dispatch (w : DictWorld E) (entries : Entries E) (idx field hash : Nat) :
    EventType → Eng (DictEnv E) → Option (Result × Eng (DictEnv E)) :=
  exec_dict w entries idx field (.hash hash)

def se_exec_dict_fn_ptr (w : DictWorld E) (entries : Entries E) (idx field hash_field : Nat) :
    EventType → Eng (DictEnv E) → Option (Result × Eng (DictEnv E)) :=
  exec_dict w entries idx field (.field hash_field)

/-- It has no dictionary of its own. -/
def se_exec_dict_internal (entries : Entries E) (key : Nat) (event : EventType)
    (s : Eng (DictEnv E)) : Option (Result × Eng (DictEnv E)) :=
  match event with
  | SE_EVENT_INIT | SE_EVENT_TERMINATE => some (SE_PIPELINE_CONTINUE, s)
  | SE_EVENT_TICK => exec_key entries (some key) s

def dispatchFn (w : DictWorld E) (entries : Entries E) (idx field : Nat) (key : Key) :
    EventType → Eng (DictEnv E) → Option (Result × Eng (DictEnv E)) :=
  match key with
  | .hash h => se_exec_dict_dispatch w entries idx field h
  | .field f => se_exec_dict_fn_ptr w entries idx field f

/-! ## Dispatch -/

section

variable (call : EventType → Eng E → Option (Result × Eng E)) (idx : Nat)

/-- The first phase of `dispatch_main`, for any function. -/
def first_call (s : Eng E) : Option (Eng E) :=
  if (s.nodes idx).initialized then some s
  else
    (call SE_EVENT_INIT ((s.setNode idx { s.nodes idx with initialized := true }).record
      (.init idx))).map Prod.snd

/-- The last phase of `dispatch_main`. -/
def last_call (result : Result) (s : Eng E) : Option (Eng E) :=
  if result = SE_PIPELINE_DISABLE then
    (call SE_EVENT_TERMINATE (s.record (.terminate idx))).map
      fun (_, s) => s.setNode idx { s.nodes idx with active := false }
  else some s

/-- `dispatch_main` for a function that is called with an event. -/
def dispatch_call (s : Eng E) : Option (Result × Eng E) :=
  if !(s.nodes idx).active then some (SE_PIPELINE_CONTINUE, s)
  else do
    let s ← first_call call idx s
    let (result, s) ← call SE_EVENT_TICK s
    let s ← last_call call idx result (s.record (.tick idx result))
    return (result, s)

/-- A node with a function, and with no calls among its parameters. -/
def callKid : Kid E where
  kind := .call .main
  idx := idx
  invoke := dispatch_call call idx
  invokePred s := some (false, s)
  onTerminate s := (call SE_EVENT_TERMINATE (s.record (.terminate idx))).map Prod.snd
  resetArgs s := s

end

/-! ## Trees -/

mutual

def DictNode.kid (w : DictWorld E) (entries : Entries E) : DictNode → Kid (DictEnv E)
  | .int v => .param (.int v)
  | .fieldRef f => .param (.field f)
  | .literal => .param .other
  | .main fn idx args => mainKid (lift w.world) fn idx (DictNode.kids w entries args)
  | .oneshot id idx survives_reset => oneshotKid (lift w.world) id idx survives_reset
  | .pred fn idx args => predKid (lift w.world) fn idx (DictNode.kids w entries args)
  | .dispatch idx field key => callKid (dispatchFn w entries idx field key) idx
  | .inner idx key => callKid (se_exec_dict_internal entries key) idx

def DictNode.kids (w : DictWorld E) (entries : Entries E) : List DictNode → List (Kid (DictEnv E))
  | [] => []
  | n :: ns => n.kid w entries :: DictNode.kids w entries ns

end

/-- The entries of the dictionaries, down to a depth. -/
def entriesTo (w : DictWorld E) : Nat → Entries E
  | 0 => fun _ _ => none
  | depth + 1 => fun d h => some ((w.find d h).map (DictNode.kids w (entriesTo w depth)))

/-- `s_expr_node_tick` of a tree with dictionary nodes. -/
def s_expr_node_tick (w : DictWorld E) (depth : Nat) (root : DictNode) (event_id : Nat)
    (s : Eng (DictEnv E)) : Option (Result × Eng (DictEnv E)) :=
  let k := root.kid w (entriesTo w depth)
  if (s.nodes k.idx).active then k.invoke { s with event_id := event_id }
  else some (SE_FUNCTION_TERMINATE, s)

/-- The events of a run. The world outside does not know the pointer. -/
def runTicks (w : DictWorld E) (depth : Nat) (root : DictNode) :
    List (Event E) → Eng (DictEnv E) → Option (Eng (DictEnv E))
  | [], s => some s
  | e :: es, s => do
    let (_, s) ← s_expr_node_tick w depth root e.event_id
      { s with env := { s.env with env := e.outside s.env.env } }
    runTicks w depth root es s

def created (env : E) : Eng (DictEnv E) := createdState ⟨env, none, []⟩

open engine engine.EventType

variable {E : Type}

/-! ## The context of a lookup -/

/-- The dictionary after the last INIT or TERMINATE of a dispatch node. -/
def contextFrom (d : Option Nat) : List Access → Option Nat
  | [] => d
  | .took _ d' :: as => contextFrom (some d') as
  | .cleared _ :: as => contextFrom none as
  | .looked _ _ _ _ :: as => contextFrom d as

def context (as : List Access) : Option Nat := contextFrom none as

theorem contextFrom_append (d : Option Nat) (as bs : List Access) :
    contextFrom d (as ++ bs) = contextFrom (contextFrom d as) bs := by
  induction as generalizing d with
  | nil => rfl
  | cons a as ih =>
    cases a with
    | took n d' => exact ih _
    | cleared n => exact ih _
    | looked n own used key => exact ih _

/-- On every tick a dispatch node looks into the dictionary that its own field holds. -/
def OwnLookups (trace : List Access) : Prop :=
  ∀ n own used key, .looked n own used key ∈ trace → used = own

/-- At every tick of a dispatch node, the last INIT or TERMINATE of any dispatch node left the
dictionary that the node's own field holds. -/
def InContext (trace : List Access) : Prop :=
  ∀ as n own used key bs, trace = as ++ .looked n own used key :: bs → context as = own

/-- The pointer is the context, at every lookup and now. -/
structure Coherent (e : DictEnv E) : Prop where
  current : e.current_dict = context e.trace
  looked : ∀ as n own used key bs, e.trace = as ++ .looked n own used key :: bs →
    used = context as

/-- What happens in the tree keeps the pointer coherent. -/
def KeepsCoherent (s s' : Eng (DictEnv E)) : Prop := Coherent s.env → Coherent s'.env

/-! ## Single steps -/

def Entries.Keep (entries : Entries E) : Prop :=
  ∀ d h content, entries d h = some (some content) → ∀ k ∈ content, k.Respects KeepsCoherent

theorem looked_append {as bs log : List Access} {a : Access} {n : Nat} {own used key : Option Nat}
    (h : log ++ [a] = as ++ .looked n own used key :: bs) :
    (∃ bs', log = as ++ .looked n own used key :: bs') ∨
      (log = as ∧ a = .looked n own used key) := by
  rcases List.eq_nil_or_concat bs with rfl | ⟨bs', b, rfl⟩
  · obtain ⟨hlog, ha⟩ := List.append_inj' h rfl
    exact Or.inr ⟨hlog, List.singleton_inj.mp ha⟩
  · rw [List.concat_eq_append, ← List.cons_append, ← List.append_assoc] at h
    exact Or.inl ⟨bs', (List.append_inj' h rfl).1⟩

theorem Coherent.set {e : DictEnv E} (h : Coherent e) {d : Option Nat} {a : Access}
    (ha : ∀ c, contextFrom c [a] = d) (hno : ∀ n own used key, a ≠ .looked n own used key) :
    Coherent { e with current_dict := d, trace := e.trace ++ [a] } where
  current := by
    rw [context, contextFrom_append]
    exact (ha _).symm
  looked := by
    intro as n own used key bs hsplit
    rcases looked_append hsplit with ⟨bs', hlog⟩ | ⟨-, heq⟩
    · exact h.looked as n own used key bs' hlog
    · exact absurd heq (hno n own used key)

theorem Coherent.look {e : DictEnv E} (h : Coherent e) (n : Nat) (own key : Option Nat) :
    Coherent { e with trace := e.trace ++ [.looked n own e.current_dict key] } where
  current := by
    rw [context, contextFrom_append]
    exact h.current
  looked := by
    intro as n' own' used key' bs hsplit
    rcases looked_append hsplit with ⟨bs', hlog⟩ | ⟨hlog, heq⟩
    · exact h.looked as n' own' used key' bs' hlog
    · simp only [Access.looked.injEq] at heq
      rw [← heq.2.2.1, ← hlog]
      exact h.current

theorem keeps_refl (s : Eng (DictEnv E)) : KeepsCoherent s s := id

theorem keeps_trans {s t u : Eng (DictEnv E)} (h : KeepsCoherent s t) (h' : KeepsCoherent t u) :
    KeepsCoherent s u := h' ∘ h

theorem keeps_follows (w : World E) : FollowsIn (lift w) (KeepsCoherent (E := E)) where
  refl := keeps_refl
  trans _ _ _ := keeps_trans
  main _ _ _ _ _ h := ⟨h.current, h.looked⟩
  oneshot _ _ _ h := ⟨h.current, h.looked⟩
  test _ _ _ h := ⟨h.current, h.looked⟩
  counter _ _ _ _ h := ⟨h.current, h.looked⟩

theorem keeps_at (idx : Nat) : RespectsAt (KeepsCoherent (E := E)) idx where
  setNode _ _ h := h
  record _ _ _ h := h
  drop _ h := h

/-! ## The functions of the nodes -/

section

variable {w : DictWorld E} {entries : Entries E} {s s' : Eng (DictEnv E)} {r : Result}

theorem invoke_calls_keeps {content : List (Kid (DictEnv E))}
    (hkids : ∀ k ∈ content, k.Respects KeepsCoherent) :
    ∀ {r₀ : Result} {s : Eng (DictEnv E)}, invoke_calls content r₀ s = some (r, s') →
      KeepsCoherent s s' := by
  induction content with
  | nil =>
    intro r₀ s h
    cases h
    exact keeps_refl _
  | cons k ks ih =>
    intro r₀ s h
    have hk := hkids k List.mem_cons_self
    have hks : ∀ k ∈ ks, k.Respects KeepsCoherent := fun k' h => hkids k' (List.mem_cons_of_mem _ h)
    unfold invoke_calls at h
    split at h
    · simp only [Option.bind_eq_bind, Option.bind_eq_some_iff] at h
      obtain ⟨⟨r₁, s₁⟩, hcall, h⟩ := h
      have hfirst := hk.invoke _ _ _ hcall
      split at h
      · cases h
        exact hfirst
      · exact keeps_trans hfirst (ih hks h)
    · simp only [Option.bind_eq_bind, Option.bind_eq_some_iff] at h
      obtain ⟨⟨r₁, s₁⟩, hcall, h⟩ := h
      exact keeps_trans (hk.invoke _ _ _ hcall) (ih hks h)
    · exact ih hks h

theorem exec_key_keeps (w : DictWorld E) (hentries : entries.Keep) {key : Option Nat}
    (h : exec_key entries key s = some (r, s')) : KeepsCoherent s s' := by
  unfold exec_key at h
  split at h
  · split at h
    · cases h
    · cases h
      exact keeps_refl _
    · rename_i content hcontent
      have hkids := hentries _ _ _ hcontent
      unfold run_entry at h
      split at h
      · cases h
        exact keeps_refl _
      · simp only [Option.bind_eq_bind, Option.bind_eq_some_iff, Option.pure_def,
          Option.some.injEq, Prod.mk.injEq] at h
        obtain ⟨⟨r₁, s₁⟩, hcalls, -, rfl⟩ := h
        have hreset := reset_all_respects (keeps_follows w.world) content hkids s
        exact keeps_trans hreset (invoke_calls_keeps hkids hcalls)
  · cases h
    exact keeps_refl _

theorem exec_dict_keeps (hentries : entries.Keep) {idx field : Nat} {key : Key}
    {event : EventType} (h : exec_dict w entries idx field key event s = some (r, s')) :
    KeepsCoherent s s' := by
  cases event with
  | SE_EVENT_INIT =>
    simp only [exec_dict] at h
    split at h
    · cases h
      exact keeps_refl _
    · split at h
      · cases h
        exact fun hs => hs.set (fun c => rfl) (fun _ _ _ _ => by simp)
      · cases h
        exact keeps_refl _
  | SE_EVENT_TERMINATE =>
    cases h
    exact fun hs => hs.set (fun c => rfl) (fun _ _ _ _ => by simp)
  | SE_EVENT_TICK =>
    refine keeps_trans ?_ (exec_key_keeps w hentries h)
    exact fun hs => hs.look _ _ _

theorem internal_keeps (w : DictWorld E) (hentries : entries.Keep) {key : Nat} {event : EventType}
    (h : se_exec_dict_internal entries key event s = some (r, s')) : KeepsCoherent s s' := by
  cases event with
  | SE_EVENT_INIT =>
    cases h
    exact keeps_refl _
  | SE_EVENT_TERMINATE =>
    cases h
    exact keeps_refl _
  | SE_EVENT_TICK => exact exec_key_keeps w hentries h

theorem reset_keeps (idx : Nat) (s : Eng (DictEnv E)) : KeepsCoherent s (s.resetMain idx) := by
  unfold Eng.resetMain
  dsimp only
  split
  · exact keeps_refl s
  · exact keeps_refl s

theorem callKid_keeps {call : EventType → Eng (DictEnv E) → Option (Result × Eng (DictEnv E))}
    (hcall : ∀ {event s r s'}, call event s = some (r, s') → KeepsCoherent s s') (idx : Nat) :
    (callKid call idx).Respects KeepsCoherent := by
  refine ⟨?_, ?_, ?_, ?_, ?_⟩
  · intro s r s' h
    simp only [callKid, dispatch_call] at h
    split at h
    · cases h
      exact keeps_refl _
    · simp only [Option.bind_eq_bind, Option.bind_eq_some_iff, Option.pure_def,
        Option.some.injEq, Prod.mk.injEq] at h
      obtain ⟨s₁, hfirst, ⟨r', s₂⟩, htick, s₃, hlast, -, rfl⟩ := h
      have h₁ : KeepsCoherent s s₁ := by
        unfold first_call at hfirst
        split at hfirst
        · cases hfirst
          exact keeps_refl _
        · simp only [Option.map_eq_some_iff] at hfirst
          obtain ⟨⟨_, _⟩, hinit, rfl⟩ := hfirst
          have hkeeps := hcall hinit
          exact hkeeps
      have h₃ : KeepsCoherent s₂ s₃ := by
        unfold last_call at hlast
        split at hlast
        · simp only [Option.map_eq_some_iff] at hlast
          obtain ⟨⟨_, _⟩, hterm, rfl⟩ := hlast
          have hkeeps := hcall hterm
          exact hkeeps
        · cases hlast
          exact keeps_refl _
      exact keeps_trans h₁ (keeps_trans (hcall htick) h₃)
  · intro s b s' h
    simp only [callKid, Option.some.injEq, Prod.mk.injEq] at h
    exact h.2 ▸ keeps_refl s
  · intro s s' h
    have hmain : (callKid call idx).kind = .call .main := rfl
    unfold Kid.terminate at h
    rw [if_pos hmain] at h
    split at h
    · simp only [callKid, Option.map_eq_some_iff] at h
      obtain ⟨_, ⟨⟨_, _⟩, hterm, rfl⟩, rfl⟩ := h
      have hkeeps := hcall hterm
      exact hkeeps
    · cases h
      exact keeps_refl _
  · exact reset_keeps idx
  · exact reset_keeps idx

end

/-! ## Trees and runs -/

section

variable (w : DictWorld E)

mutual

theorem kid_keeps {entries : Entries E} (hentries : entries.Keep) :
    ∀ t : DictNode, (t.kid w entries).Respects KeepsCoherent
  | .int _ => param_respects (keeps_follows w.world) _ rfl
  | .fieldRef _ => param_respects (keeps_follows w.world) _ rfl
  | .literal => param_respects (keeps_follows w.world) _ rfl
  | .main _ idx args => mainKid_respects (keeps_follows w.world) (keeps_at idx)
      (kids_keep hentries args)
  | .oneshot id idx survives_reset =>
    oneshotKid_respects (keeps_follows w.world) (keeps_at idx) id survives_reset
  | .pred fn idx args => predKid_respects (keeps_follows w.world) (keeps_at idx)
      (kids_keep hentries args) fn
  | .dispatch idx _ (.hash _) => callKid_keeps (exec_dict_keeps hentries) idx
  | .dispatch idx _ (.field _) => callKid_keeps (exec_dict_keeps hentries) idx
  | .inner idx _ => callKid_keeps (internal_keeps w hentries) idx

theorem kids_keep {entries : Entries E} (hentries : entries.Keep) :
    ∀ ts : List DictNode, ∀ k ∈ DictNode.kids w entries ts, k.Respects KeepsCoherent
  | [] => by
    intro k hk
    simp [DictNode.kids] at hk
  | t :: ts => by
    intro k hk
    simp only [DictNode.kids, List.mem_cons] at hk
    rcases hk with rfl | hk
    · exact kid_keeps hentries t
    · exact kids_keep hentries ts k hk

end

/-- The entries of every depth keep the pointer coherent, by induction on the depth. -/
theorem entriesTo_keep (depth : Nat) : (entriesTo w depth).Keep := by
  induction depth with
  | zero =>
    intro d h content hcontent
    cases hcontent
  | succ depth ih =>
    intro d h content hcontent
    simp only [entriesTo, Option.some.injEq, Option.map_eq_some_iff] at hcontent
    obtain ⟨ts, -, rfl⟩ := hcontent
    exact kids_keep w ih ts

theorem run_keeps {depth : Nat} {root : DictNode} (es : List (Event E)) :
    ∀ {s s' : Eng (DictEnv E)}, runTicks w depth root es s = some s' → KeepsCoherent s s' := by
  induction es with
  | nil =>
    intro s s' h
    cases h
    exact keeps_refl _
  | cons e es ih =>
    intro s s' h
    simp only [runTicks, Option.bind_eq_bind, Option.bind_eq_some_iff] at h
    obtain ⟨⟨r, s₁⟩, htick, h⟩ := h
    refine keeps_trans ?_ (ih h)
    intro hs
    have houtside : Coherent { s.env with env := e.outside s.env.env } := ⟨hs.current, hs.looked⟩
    dsimp only [s_expr_node_tick] at htick
    split at htick
    · exact (kid_keeps w (entriesTo_keep w depth) root).invoke _ _ _ htick houtside
    · cases htick
      exact houtside

end

theorem created_coherent (env : E) : Coherent (created env).env where
  current := rfl
  looked := by
    intro as n own used key bs h
    simp [created, createdState] at h

/-- In every run, each dispatch node looks into its own dictionary at each of its ticks if and
only if, at each of these ticks, the dispatch node that was initialised last took the same
dictionary, and none was terminated since. -/
theorem own_lookups_iff {w : DictWorld E} {depth : Nat} {root : DictNode} {env : E}
    {es : List (Event E)} {s : Eng (DictEnv E)}
    (h : runTicks w depth root es (created env) = some s) :
    OwnLookups s.env.trace ↔ InContext s.env.trace := by
  have hs : Coherent s.env := run_keeps w es h (created_coherent env)
  constructor
  · intro hown as n own used key bs hsplit
    rw [← hs.looked as n own used key bs hsplit]
    exact hown n own used key (hsplit ▸ by simp)
  · intro hcontext n own used key hmem
    obtain ⟨as, bs, hsplit⟩ := List.append_of_mem hmem
    rw [hs.looked as n own used key bs hsplit]
    exact hcontext as n own used key bs hsplit

/-! ## Two dispatch nodes -/

/-- Two dictionaries. Each has one entry behind the key 1, an oneshot of its own. Field `f`
holds the dictionary `f`. -/
def twoDictionaries : DictWorld (List Nat) where
  world :=
    { fuel := 1
      main := fun _ _ _ d env => (SE_PIPELINE_CONTINUE, d, env)
      oneshot := fun id _ env => env ++ [id]
      test := fun _ _ env => (true, env)
      counter := fun _ _ st env => (true, st, env)
      field := fun _ _ => 0 }
  is_dict d := d < 2
  find d h := if h = 1 then some [.oneshot d (10 + d) false] else none
  dict_field f _ := some f
  hash_field _ _ := none

/-- A chain flow with a dispatch node for each of the two fields. -/
def twoDispatches (field field' : Nat) : DictNode :=
  .main .se_chain_flow 0 [.dispatch 1 field (.hash 1), .dispatch 2 field' (.hash 1)]

/-- At the second tick the first node looks into the dictionary of the second. -/
theorem dispatch_runs_other_dictionary : ¬ ∀ (w : DictWorld (List Nat)) (depth : Nat)
    (root : DictNode) (env : List Nat) (es : List (Event (List Nat)))
    (s : Eng (DictEnv (List Nat))),
    runTicks w depth root es (created env) = some s → OwnLookups s.env.trace := by
  intro hall
  have htrace : (runTicks twoDictionaries 2 (twoDispatches 0 1) [⟨id, 4⟩, ⟨id, 4⟩]
      (created [])).map (fun s => s.env.trace) = some [.took 1 0, .looked 1 (some 0) (some 0) (some 1),
        .took 2 1, .looked 2 (some 1) (some 1) (some 1), .looked 1 (some 0) (some 1) (some 1),
        .looked 2 (some 1) (some 1) (some 1)] := by
    decide +kernel
  obtain ⟨s, hrun, hs⟩ := Option.map_eq_some_iff.mp htrace
  have hown := hall _ _ _ _ _ s hrun 1 (some 0) (some 1) (some 1) (by rw [hs]; simp)
  cases hown

/-- Two dispatch nodes with the same dictionary do not disturb each other. -/
theorem same_dictionary_is_shared : ∃ s,
    runTicks twoDictionaries 2 (twoDispatches 0 0) [⟨id, 4⟩, ⟨id, 4⟩] (created []) = some s ∧
    InContext s.env.trace := by
  have htrace : (runTicks twoDictionaries 2 (twoDispatches 0 0) [⟨id, 4⟩, ⟨id, 4⟩]
      (created [])).map (fun s => s.env.trace) = some [.took 1 0, .looked 1 (some 0) (some 0) (some 1),
        .took 2 0, .looked 2 (some 0) (some 0) (some 1), .looked 1 (some 0) (some 0) (some 1),
        .looked 2 (some 0) (some 0) (some 1)] := by
    decide +kernel
  obtain ⟨s, hrun, hs⟩ := Option.map_eq_some_iff.mp htrace
  refine ⟨s, hrun, (own_lookups_iff hrun).mp ?_⟩
  intro n own used key hmem
  rw [hs] at hmem
  simp only [List.mem_cons, List.not_mem_nil, reduceCtorEq, Access.looked.injEq, false_or,
    or_false] at hmem
  rcases hmem with h | h | h | h
  all_goals exact h.2.2.1.trans h.2.1.symm

end motioncore.dictionary
