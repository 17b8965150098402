-- The requests of the command queues, over all orders of the steps of the bus supervisor. Each
-- is answered once, with what its own command gave or with an error, as long as its arguments
-- can be converted and its bus is not closed under it.
import MotionCore.BusSup.Presence

namespace motioncore.bussup

open motioncore.machine motioncore.trace

variable {n : Nat} {ν : Type} {config : Fin n → Config} {lua : Lua ν}

/-! ## Requests and answers -/

def Event.takes (i : Fin n) (id : Nat) : Event n → Bool
  | .taken j request _ => j = i ∧ request = id
  | _ => false

def Event.answers (i : Fin n) (id : Nat) : Event n → Bool
  | .answered j request _ => j = i ∧ request = id
  | _ => false

/-- The commands in flight. Their callbacks are gone when the bus is closed. -/
def Node.pending : Node → List (Nat × Pending)
  | .disabled => []
  | .enabled ns | .failed ns => (ns.bus.map Bus.pending).getD []

def requestIs (id : Nat) (entry : Nat × Pending) : Bool := entry.2.request = id

/-- The name of the command that a payload asks for. -/
def commandOf (lua : Lua ν) (payload : List UInt8) : Option String :=
  match (lua.cjson_decode payload).bind (Value.get? "command") with
  | some (.str name) => some name
  | _ => none

section

variable (config lua) (acts : List (Step n)) (i : Fin n)

/-- The dongle takes the request from its queue in this tick. -/
def TakenIn (id : Nat) (payload : List UInt8) (t : Tick) (after : List (Step n)) : Prop :=
  ∃ before s, acts = before ++ .tick i t :: after ∧
    runs (step config lua) (.init n) before = some s ∧ s.requests ≤ id ∧
    t.requests[id - s.requests]? = some payload

/-- What a request may be answered with: a result is decoded from the reply of the command
that was submitted for it. -/
def Fits (id : Nat) (payload : List UInt8) (t : Tick) (after : List (Step n)) : Reply → Prop
  | .error _ => True
  | .faulting => commandOf lua payload = some "__fault"
  | .result fields => ∃ name cmd, commandOf lua payload = some name ∧
      CATALOG.lookup name = some cmd ∧ ∃ t' ev, .tick i t' ∈ after ∧ ev ∈ t'.drained ∧
        ev.kind = 1 ∧ ev.handle = t.handle id ∧ ev.status = 0 ∧
        fields = (decode cmd.reply ev.data).getD []

def AnswerFits (id : Nat) (reply : Reply) : Prop :=
  ∃ payload t after, TakenIn config lua acts i id payload t after ∧
    Fits lua i id payload t after reply

/-- Each request that was taken is answered once, or its command is still in flight. -/
structure Serviced (s : System n) : Prop where
  once : ∀ i id payload, .taken i id payload ∈ s.log →
    s.log.countP (Event.answers i id) + (s.nodes i).pending.countP (requestIs id) = 1
  own : ∀ i id reply, .answered i id reply ∈ s.log → AnswerFits config lua acts i id reply

end

/-! ## When the requests are answered -/

/-- The arguments up to the first that is missing can be converted. -/
def Encodes (lua : Lua ν) (args : Value ν) : List (String × ArgType) → Prop
  | [] => True
  | (name, typ) :: rest => ∃ present, args.index name = some present ∧
      ∀ v, present = some v → (enc lua typ v).isSome ∧ Encodes lua args rest

/-- The arguments can be converted, and so can the timeout when it is needed. -/
def Convertible (lua : Lua ν) (payload : List UInt8) : Prop :=
  ∀ j name cmd, lua.cjson_decode payload = some j → j.get? "command" = some (.str name) →
    CATALOG.lookup name = some cmd →
    let args := orElse (j.get? "args") (.object [])
    Encodes lua args cmd.args ∧
      ((∀ field ∈ cmd.args, (args.get? field.1).isSome) →
        (orElse (j.get? "admin") (.bool false)).truthy ∨
          ((j.get? "timeout_ms").filter Value.truthy).all Value.isInt)

instance Encodes.decidable (lua : Lua ν) (args : Value ν) :
    ∀ fields, Decidable (Encodes lua args fields)
  | [] => isTrue trivial
  | (name, typ) :: rest =>
    match hindex : args.index name with
    | none => isFalse fun ⟨present, hpresent, _⟩ => by simp [hindex] at hpresent
    | some none => isTrue ⟨none, hindex, fun v hv => by cases hv⟩
    | some (some v) =>
      have : Decidable (Encodes lua args rest) := Encodes.decidable lua args rest
      decidable_of_iff ((enc lua typ v).isSome ∧ Encodes lua args rest)
        ⟨fun h => ⟨some v, hindex, fun v' hv => Option.some.inj hv ▸ h⟩,
          fun ⟨present, hpresent, h⟩ => h v (by simpa [hindex] using hpresent.symm)⟩

instance (lua : Lua ν) (payload : List UInt8) : Decidable (Convertible lua payload) :=
  match hj : lua.cjson_decode payload with
  | none => isTrue fun j _ _ hj' => by simp [hj] at hj'
  | some j =>
    match hname : j.get? "command" with
    | some (.str name) =>
      match hcmd : CATALOG.lookup name with
      | none => isTrue fun j' name' cmd' hj' hname' hcmd' => by
        obtain rfl : j = j' := by simpa [hj] using hj'
        obtain rfl : name = name' := by simpa [hname] using hname'
        rw [hcmd] at hcmd'
        cases hcmd'
      | some cmd =>
        decidable_of_iff
          (Encodes lua (orElse (j.get? "args") (.object [])) cmd.args ∧
            ((∀ field ∈ cmd.args, ((orElse (j.get? "args") (.object [])).get? field.1).isSome) →
              (orElse (j.get? "admin") (.bool false)).truthy ∨
                ((j.get? "timeout_ms").filter Value.truthy).all Value.isInt))
          ⟨fun h j' name' cmd' hj' hname' hcmd' => by
            obtain rfl : j = j' := by simpa [hj] using hj'
            obtain rfl : name = name' := by simpa [hname] using hname'
            obtain rfl : cmd = cmd' := by simpa [hcmd] using hcmd'
            exact h, fun h => h j name cmd hj hname hcmd⟩
    | none | some .null | some (.bool _) | some (.num _) | some (.array _) | some (.object _) =>
      isTrue fun j' name cmd hj' hname' => by
        obtain rfl : j = j' := by simpa [hj] using hj'
        simp [hname] at hname'

/-- The core gives no handle that is in flight. -/
def FreshHandles (t : Tick) (requests : Nat) (pending : List (Nat × Pending)) : Prop :=
  ∀ a < t.requests.length, t.handle (requests + a) ≠ 0 →
    (∀ entry ∈ pending, entry.1 ≠ t.handle (requests + a)) ∧
      ∀ b < a, t.handle (requests + b) ≠ t.handle (requests + a)

/-- The requests that are taken can be converted, and a dongle is disabled with no command in
flight. -/
def Orderly (lua : Lua ν) (s : System n) : Step n → Prop
  | .tick i t => ∀ ns, s.nodes i = .enabled ns → ns.phase = .serving →
      (∀ payload ∈ t.requests, Convertible lua payload) ∧
        FreshHandles t s.requests (s.nodes i).pending
  | .disable i => (s.nodes i).pending = []
  | _ => True

instance (t : Tick) (requests : Nat) (pending : List (Nat × Pending)) :
    Decidable (FreshHandles t requests pending) :=
  inferInstanceAs (Decidable (∀ a < t.requests.length, t.handle (requests + a) ≠ 0 → _ ∧ _))

instance (s : System n) : ∀ a, Decidable (Orderly lua s a)
  | .tick i t =>
    match hnode : s.nodes i with
    | .enabled ns =>
      decidable_of_iff (ns.phase = .serving → (∀ payload ∈ t.requests, Convertible lua payload) ∧
          FreshHandles t s.requests (s.nodes i).pending)
        ⟨fun h ns' hns => by rw [hnode] at hns; cases hns; exact h, fun h => h ns hnode⟩
    | .disabled | .failed _ => isTrue fun ns hns => by rw [hnode] at hns; cases hns
  | .disable i => (inferInstance : Decidable ((s.nodes i).pending = []))
  | .enable _ _ | .gate_down | .publish => isTrue trivial

/-! ## Conversions -/

theorem encode_of_encodes {args : Value ν} {fields : List (String × ArgType)}
    (h : Encodes lua args fields) : (∃ e, encode lua args fields = some (.error e)) ∨
      ((∃ bytes, encode lua args fields = some (.ok bytes)) ∧
        ∀ field ∈ fields, (args.get? field.1).isSome) := by
  induction fields with
  | nil => exact .inr ⟨⟨[], rfl⟩, by simp⟩
  | cons field rest ih =>
    obtain ⟨name, typ⟩ := field
    obtain ⟨present, hpresent, hrest⟩ := h
    cases present with
    | none => exact .inl ⟨_, by simp only [encode, hpresent]; rfl⟩
    | some v =>
      obtain ⟨henc, hrest⟩ := hrest v rfl
      obtain ⟨bytes, hbytes⟩ := Option.isSome_iff_exists.mp henc
      have hget : args.get? name = some v := by
        cases args <;> simp_all [Value.index]
      rcases ih hrest with ⟨e, he⟩ | ⟨⟨more, hmore⟩, hall⟩
      · exact .inl ⟨e, by simp [encode, hpresent, hbytes, he]⟩
      · refine .inr ⟨⟨bytes ++ more, by simp [encode, hpresent, hbytes, hmore]⟩, ?_⟩
        intro field hfield
        rcases List.mem_cons.mp hfield with rfl | hfield
        · rw [hget]
          rfl
        · exact hall field hfield

/-! ## The books of one dongle -/

/-- What is taken is answered or in flight. `W` says which commands may be in flight under which
handle, and `A` what a request may be answered with. -/
structure Tally (i : Fin n) (W : Nat → Pending → Prop) (A : Nat → Reply → Prop)
    (pending : List (Nat × Pending)) (requests : Nat) (log : List (Event n)) : Prop where
  balance : ∀ id, log.countP (Event.takes i id) =
    log.countP (Event.answers i id) + pending.countP (requestIs id)
  once : ∀ id, log.countP (Event.takes i id) ≤ 1
  fresh : ∀ id, requests ≤ id → log.countP (Event.takes i id) = 0
  keys : (pending.map Prod.fst).Nodup
  waits : ∀ entry ∈ pending, W entry.1 entry.2
  answered : ∀ id reply, .answered i id reply ∈ log → A id reply

/-- The event is about no request of the dongle. -/
def Event.Apart (i : Fin n) (e : Event n) : Prop :=
  ∀ id, e.takes i id = false ∧ e.answers i id = false

theorem Event.apart_of_ne {i : Fin n} {e : Event n} (h : e.dongle ≠ some i) : e.Apart i := by
  intro id
  cases e <;> simp_all [Event.dongle, Event.takes, Event.answers]

section

variable {i : Fin n} {W W' : Nat → Pending → Prop} {A A' : Nat → Reply → Prop}
  {pending : List (Nat × Pending)} {requests requests' : Nat} {log log' : List (Event n)}

theorem Tally.mono (h : Tally i W A pending requests log) (hW : ∀ k p, W k p → W' k p)
    (hA : ∀ id reply, A id reply → A' id reply) : Tally i W' A' pending requests log :=
  ⟨h.balance, h.once, h.fresh, h.keys, fun entry he => hW _ _ (h.waits entry he),
    fun id reply hmem => hA _ _ (h.answered id reply hmem)⟩

variable (id request : Nat)

@[simp] theorem takes_taken (payload : List UInt8) :
    (log ++ [Event.taken i request payload]).countP (Event.takes i id) =
      log.countP (Event.takes i id) + if request = id then 1 else 0 := by
  simp [Event.takes, List.countP_append, List.countP_cons]

@[simp] theorem takes_answered (reply : Reply) :
    (log ++ [Event.answered i request reply]).countP (Event.takes i id) =
      log.countP (Event.takes i id) := by
  simp [Event.takes, List.countP_append]

@[simp] theorem answers_taken (payload : List UInt8) :
    (log ++ [Event.taken i request payload]).countP (Event.answers i id) =
      log.countP (Event.answers i id) := by
  simp [Event.answers, List.countP_append]

@[simp] theorem answers_answered (reply : Reply) :
    (log ++ [Event.answered i request reply]).countP (Event.answers i id) =
      log.countP (Event.answers i id) + if request = id then 1 else 0 := by
  simp [Event.answers, List.countP_append, List.countP_cons]

theorem Tally.apart (h : Tally i W A pending requests log) (hle : requests ≤ requests')
    (hlog : Adds (Event.Apart i) log log') : Tally i W A pending requests' log' := by
  have htakes : ∀ id, log'.countP (Event.takes i id) = log.countP (Event.takes i id) :=
    fun id => hlog.countP_eq fun e he => (he id).1
  have hanswers : ∀ id, log'.countP (Event.answers i id) = log.countP (Event.answers i id) :=
    fun id => hlog.countP_eq fun e he => (he id).2
  refine ⟨fun id => ?_, fun id => ?_, fun id hid => ?_, h.keys, h.waits, fun id reply hmem => ?_⟩
  · rw [htakes, hanswers]
    exact h.balance id
  · rw [htakes]
    exact h.once id
  · rw [htakes]
    exact h.fresh id (hle.trans hid)
  · refine h.answered id reply (hlog.mem_of_mem hmem fun hap => ?_)
    have hans := (hap id).2
    simp [Event.answers] at hans

theorem Tally.refuse (h : Tally i W A pending requests log) {payload : List UInt8}
    {reply : Reply} (hA : A requests reply) : Tally i W A pending (requests + 1)
      (log ++ [.taken i requests payload] ++ [.answered i requests reply]) := by
  refine ⟨fun id => ?_, fun id => ?_, fun id hid => ?_, h.keys, h.waits, fun id r hmem => ?_⟩
  · rw [takes_answered, takes_taken, answers_answered, answers_taken, h.balance id]
    omega
  · rw [takes_answered, takes_taken]
    split
    · rename_i hid
      rw [h.fresh id (by omega)]
    · exact h.once id
  · rw [takes_answered, takes_taken, if_neg (by omega), h.fresh id (by omega)]
  · simp only [List.append_assoc, List.mem_append, List.mem_cons, List.not_mem_nil, or_false,
      reduceCtorEq, false_or, Event.answered.injEq, true_and] at hmem
    rcases hmem with hmem | ⟨rfl, rfl⟩
    · exact h.answered id r hmem
    · exact hA

variable {handle : Nat} {p : Pending}

theorem Tally.submit (h : Tally i W A pending requests log) {payload : List UInt8}
    (hp : p.request = requests) (hW : W handle p) (hnew : ∀ entry ∈ pending, entry.1 ≠ handle) :
    Tally i W A ((handle, p) :: pending.filter fun entry => entry.1 ≠ handle) (requests + 1)
      (log ++ [.taken i requests payload]) := by
  have hothers : (pending.filter fun entry => entry.1 ≠ handle) = pending :=
    List.filter_eq_self.mpr fun entry he => by simpa using hnew entry he
  have hpending : ∀ id, ((handle, p) :: pending).countP (requestIs id) =
      pending.countP (requestIs id) + if requests = id then 1 else 0 := by
    intro id
    simp [requestIs, List.countP_cons, hp]
  rw [hothers]
  refine ⟨fun id => ?_, fun id => ?_, fun id hid => ?_, ?_, fun entry he => ?_,
    fun id r hmem => ?_⟩
  · rw [takes_taken, answers_taken, hpending, h.balance id]
    omega
  · rw [takes_taken]
    split
    · rename_i hid
      rw [h.fresh id (by omega)]
    · exact h.once id
  · rw [takes_taken, if_neg (by omega), h.fresh id (by omega)]
  · refine List.nodup_cons.mpr ⟨fun hmem => ?_, h.keys⟩
    obtain ⟨entry, he, heq⟩ := List.mem_map.mp hmem
    exact hnew entry he heq
  · rcases List.mem_cons.mp he with rfl | he
    · exact hW
    · exact h.waits entry he
  · refine h.answered id r ?_
    simpa using hmem

theorem lookup_mem (h : pending.lookup handle = some p) : (handle, p) ∈ pending := by
  induction pending with
  | nil => cases h
  | cons entry rest ih =>
    rw [List.lookup_cons] at h
    split at h
    · rename_i heq
      cases h
      rw [eq_of_beq heq]
      exact List.mem_cons_self
    · exact List.mem_cons_of_mem _ (ih h)

/-- A handle is in flight at most once. -/
theorem countP_filter_key (hkeys : (pending.map Prod.fst).Nodup) (hmem : (handle, p) ∈ pending)
    (q : Nat × Pending → Bool) :
    pending.countP q = (pending.filter fun entry => entry.1 ≠ handle).countP q +
      if q (handle, p) then 1 else 0 := by
  induction pending with
  | nil => cases hmem
  | cons entry rest ih =>
    rw [List.map_cons, List.nodup_cons] at hkeys
    rcases List.mem_cons.mp hmem with rfl | hmem
    · have hothers : (rest.filter fun entry => entry.1 ≠ handle) = rest := by
        refine List.filter_eq_self.mpr fun entry he => ?_
        have hne : entry.1 ≠ handle := fun heq => hkeys.1 (List.mem_map.mpr ⟨entry, he, heq⟩)
        simpa using hne
      rw [List.countP_cons, List.filter_cons_of_neg (by simp), hothers]
    · have hne : entry.1 ≠ handle :=
        fun heq => hkeys.1 (List.mem_map.mpr ⟨_, hmem, heq.symm⟩)
      rw [List.countP_cons, List.filter_cons_of_pos (by simpa using hne), List.countP_cons,
        ih hkeys.2 hmem]
      omega

theorem Tally.complete (h : Tally i W A pending requests log) {reply : Reply}
    (hp : pending.lookup handle = some p) (hA : A p.request reply) :
    Tally i W A (pending.filter fun entry => entry.1 ≠ handle) requests
      (log ++ [.answered i p.request reply]) := by
  refine ⟨fun id => ?_, fun id => ?_, fun id hid => ?_, ?_, fun entry he => ?_,
    fun id r hmem => ?_⟩
  · rw [takes_answered, answers_answered, h.balance id,
      countP_filter_key h.keys (lookup_mem hp) (requestIs id)]
    simp only [requestIs, decide_eq_true_eq]
    omega
  · rw [takes_answered]
    exact h.once id
  · rw [takes_answered]
    exact h.fresh id hid
  · exact h.keys.sublist ((List.filter_sublist).map _)
  · exact h.waits entry (List.mem_of_mem_filter he)
  · simp only [List.mem_append, List.mem_cons, List.not_mem_nil, or_false,
      Event.answered.injEq, true_and] at hmem
    rcases hmem with hmem | ⟨rfl, rfl⟩
    · exact h.answered id r hmem
    · exact hA

end

/-! ## The work of a tick -/

def Work.Tallied (i : Fin n) (W : Nat → Pending → Prop) (A : Nat → Reply → Prop)
    (w : Work n) : Prop := Tally i W A w.bus.pending w.requests w.log

section

variable {i : Fin n} {W : Nat → Pending → Prop} {A : Nat → Reply → Prop} {w w' : Work n}

theorem Work.Tallied.note (h : w.Tallied i W A) {e : Event n} (he : e.Apart i) :
    (w.note e).Tallied i W A := Tally.apart h le_rfl ((Adds.refl _).snoc he)

theorem handle_tallied (h : w.Tallied i W A) (ev : CtrlEvent) : (w.handle i ev).Tallied i W A := by
  have hnote : ∀ (rt : Runtime) (e : Event n), e.Apart i →
      ((({ w with rt := rt } : Work n)).note e).Tallied i W A := fun rt e he =>
    Tally.apart h le_rfl ((Adds.refl _).snoc he)
  unfold Work.handle
  split
  · exact (hnote _ _ fun _ => ⟨rfl, rfl⟩).note fun _ => ⟨rfl, rfl⟩
  · split
    · exact hnote _ _ fun _ => ⟨rfl, rfl⟩
    · split
      · exact hnote _ _ fun _ => ⟨rfl, rfl⟩
      · exact h

theorem event_tallied (h : w.Tallied i W A) {ev : CtrlEvent}
    (hdone : ev.kind = 1 → ∀ p, W ev.handle p → A p.request (p.complete ev)) :
    (w.event i ev).Tallied i W A := by
  unfold Work.event
  split
  · rename_i hkind
    split
    · rename_i p hp
      exact Tally.complete h hp (hdone hkind p (h.waits _ (lookup_mem hp)))
    · exact h
  · split
    · exact handle_tallied h ev
    · exact h

theorem event_requests (w : Work n) (ev : CtrlEvent) : (w.event i ev).requests = w.requests := by
  unfold Work.event Work.handle
  split
  · split <;> rfl
  · split
    · split
      · rfl
      · split
        · rfl
        · split <;> rfl
    · rfl

theorem event_pending (w : Work n) (ev : CtrlEvent) {entry : Nat × Pending}
    (h : entry ∈ (w.event i ev).bus.pending) : entry ∈ w.bus.pending := by
  unfold Work.event Work.handle at h
  split at h
  · split at h
    · exact List.mem_of_mem_filter h
    · exact h
  · split at h
    · split at h
      · exact h
      · split at h
        · exact h
        · split at h <;> exact h
    · exact h

/-- A poll answers the requests whose commands have completed. -/
theorem poll_tallied (h : w.Tallied i W A) {drained : List CtrlEvent}
    (hdone : ∀ ev ∈ drained, ev.kind = 1 → ∀ p, W ev.handle p → A p.request (p.complete ev)) :
    (w.poll i drained).Tallied i W A ∧ (w.poll i drained).requests = w.requests ∧
      ∀ entry ∈ (w.poll i drained).bus.pending, entry ∈ w.bus.pending := by
  induction drained generalizing w with
  | nil => exact ⟨h, rfl, fun _ he => he⟩
  | cons ev drained ih =>
    obtain ⟨htally, hreq, hsub⟩ := ih (event_tallied h (hdone ev List.mem_cons_self))
      fun ev' hev' => hdone ev' (List.mem_cons_of_mem _ hev')
    exact ⟨htally, hreq.trans (event_requests w ev), fun entry he => event_pending w ev (hsub _ he)⟩

theorem catalog_tallied (h : w.Tallied i W A) (now : Time) : (w.catalog i now).Tallied i W A := by
  unfold Work.catalog
  split
  · exact Tally.apart h le_rfl ((Adds.refl _).snoc fun _ => ⟨rfl, rfl⟩)
  · exact h

theorem heartbeat_tallied (h : w.Tallied i W A) (now : Time) :
    (w.heartbeat i now).Tallied i W A := by
  unfold Work.heartbeat
  split
  · refine Tally.apart h le_rfl (((Adds.refl _).snoc ?_).snoc fun _ => ⟨rfl, rfl⟩)
    exact fun _ => ⟨rfl, rfl⟩
  · exact h

theorem catalog_requests (w : Work n) (now : Time) : (w.catalog i now).requests = w.requests := by
  unfold Work.catalog
  split <;> rfl

theorem heartbeat_requests (w : Work n) (now : Time) :
    (w.heartbeat i now).requests = w.requests := by
  unfold Work.heartbeat
  split <;> rfl

variable {payload : List UInt8}

theorem commandOf_eq {j : Value ν} {name : String} (hj : lua.cjson_decode payload = some j)
    (hname : j.get? "command" = some (.str name)) : commandOf lua payload = some name := by
  simp [commandOf, hj, hname]

def Work.take (i : Fin n) (payload : List UInt8) (w : Work n) : Work n :=
  ({ w with requests := w.requests + 1 }).note (.taken i w.requests payload)

/-- What holds after a request was taken. -/
structure Work.Took (i : Fin n) (W : Nat → Pending → Prop) (A : Nat → Reply → Prop)
    (handle : Nat → Nat) (w w' : Work n) : Prop where
  tally : w'.Tallied i W A
  requests : w'.requests = w.requests + 1
  pending : ∀ entry ∈ w'.bus.pending,
    entry ∈ w.bus.pending ∨ entry.1 = handle w.requests ∧ handle w.requests ≠ 0

/-- `W` and `A` allow all that may become of a request. -/
structure Allows (lua : Lua ν) (W : Nat → Pending → Prop) (A : Nat → Reply → Prop) (handle id : Nat)
    (payload : List UInt8) : Prop where
  error : ∀ e, A id (.error e)
  faulting : commandOf lua payload = some "__fault" → A id .faulting
  wait : ∀ name cmd, commandOf lua payload = some name → CATALOG.lookup name = some cmd →
    handle ≠ 0 → W handle ⟨id, name, cmd⟩

theorem Work.Tallied.took (h : w.Tallied i W A) {handle : Nat → Nat} {reply : Reply}
    (hA : A w.requests reply) (hbus : w'.bus = w.bus) (hreq : w'.requests = w.requests + 1)
    (hlog : w'.log = ((w.take i payload).note (.answered i w.requests reply)).log) :
    w.Took i W A handle w' := by
  refine ⟨?_, hreq, fun entry he => .inl (hbus ▸ he)⟩
  rw [Work.Tallied, hbus, hreq, hlog]
  exact Tally.refuse h hA

theorem submit_took (h : w.Tallied i W A) {handle : Nat → Nat} {j command : Value ν}
    (hj : lua.cjson_decode payload = some j) (hcommand : j.get? "command" = some command)
    (hconv : Convertible lua payload)
    (hfresh : handle w.requests ≠ 0 → ∀ entry ∈ w.bus.pending, entry.1 ≠ handle w.requests)
    (hallow : Allows lua W A (handle w.requests) w.requests payload) :
    ∃ w', (w.take i payload).submit lua i handle w.requests command j = some w' ∧
      w.Took i W A handle w' := by
  unfold Work.submit
  dsimp only
  split
  · exact ⟨_, rfl, h.took (hallow.error _) rfl rfl rfl⟩
  · rename_i name cmd hcmd
    obtain ⟨rfl, hlookup⟩ : command = .str name ∧ CATALOG.lookup name = some cmd := by
      split at hcmd
      · rename_i name'
        obtain ⟨cmd', hlookup, heq⟩ := Option.map_eq_some_iff.mp hcmd
        cases heq
        exact ⟨rfl, hlookup⟩
      · cases hcmd
    obtain ⟨hargs, htimeout⟩ := hconv j name cmd hj hcommand hlookup
    rcases encode_of_encodes hargs with ⟨e, he⟩ | ⟨⟨bytes, hbytes⟩, hall⟩
    · rw [he]
      exact ⟨_, rfl, h.took (hallow.error _) rfl rfl rfl⟩
    · rw [hbytes]
      simp only [Option.bind_eq_bind, Option.bind_some]
      rw [if_pos (htimeout hall)]
      split
      · exact ⟨_, rfl, h.took (hallow.error _) rfl rfl rfl⟩
      · rename_i hne
        refine ⟨_, rfl, ?_, rfl, fun entry he => ?_⟩
        · exact Tally.submit h rfl (hallow.wait name cmd (commandOf_eq hj hcommand) hlookup hne)
            (hfresh hne)
        · rcases List.mem_cons.mp he with rfl | he
          · exact .inr ⟨rfl, hne⟩
          · exact .inl (List.mem_of_mem_filter he)

/-- One request is taken: it is answered, or its command is in flight under the handle. -/
theorem serve_took (h : w.Tallied i W A) {handle : Nat → Nat} (hconv : Convertible lua payload)
    (hfresh : handle w.requests ≠ 0 → ∀ entry ∈ w.bus.pending, entry.1 ≠ handle w.requests)
    (hallow : Allows lua W A (handle w.requests) w.requests payload) :
    ∃ w', w.serve lua i handle payload = some w' ∧ w.Took i W A handle w' := by
  unfold Work.serve
  dsimp only
  split
  · rename_i j command hbind
    obtain ⟨j', hj, hget⟩ := Option.bind_eq_some_iff.mp hbind
    obtain ⟨command', hcommand, heq⟩ := Option.map_eq_some_iff.mp hget
    cases heq
    split
    · split
      · exact ⟨_, rfl, h.took (hallow.faulting (commandOf_eq hj hcommand)) rfl rfl rfl⟩
      · exact submit_took h hj hcommand hconv hfresh hallow
    · exact ⟨_, rfl, h.took (hallow.error _) rfl rfl rfl⟩
  · exact ⟨_, rfl, h.took (hallow.error _) rfl rfl rfl⟩

theorem serves_tallied {t : Tick} {base : Nat} {pending : List (Nat × Pending)}
    {done payloads : List (List UInt8)} (hqueue : t.requests = done ++ payloads)
    (hconv : ∀ payload ∈ payloads, Convertible lua payload) (hfresh : FreshHandles t base pending)
    (hallow : ∀ a payload, t.requests[a]? = some payload →
      Allows lua W A (t.handle (base + a)) (base + a) payload)
    (h : w.Tallied i W A) (hreq : w.requests = base + done.length)
    (hpending : ∀ entry ∈ w.bus.pending,
      entry ∈ pending ∨ ∃ a < done.length, entry.1 = t.handle (base + a)) :
    ∃ w', payloads.foldlM (Work.serve lua i t.handle) w = some w' ∧ w'.Tallied i W A ∧
      w'.requests = base + t.requests.length := by
  induction payloads generalizing w done with
  | nil => exact ⟨w, rfl, h, by rw [hreq, hqueue, List.append_nil]⟩
  | cons payload payloads ih =>
    have hlt : done.length < t.requests.length := by
      rw [hqueue, List.length_append, List.length_cons]
      omega
    have hhere : t.requests[done.length]? = some payload := by simp [hqueue]
    have hallowed := hallow _ _ hhere
    rw [← hreq] at hallowed
    have hnew : t.handle w.requests ≠ 0 →
        ∀ entry ∈ w.bus.pending, entry.1 ≠ t.handle w.requests := by
      rw [hreq]
      intro hne entry he
      obtain ⟨hold, hothers⟩ := hfresh _ hlt hne
      rcases hpending entry he with he | ⟨a, ha, heq⟩
      · exact hold entry he
      · exact heq ▸ hothers a ha
    obtain ⟨w₁, hserve, htook⟩ := serve_took h (hconv payload List.mem_cons_self) hnew hallowed
    have hqueue' : t.requests = (done ++ [payload]) ++ payloads := by simp [hqueue]
    obtain ⟨w', hrest, htally, hlast⟩ := ih hqueue'
      (fun p hp => hconv p (List.mem_cons_of_mem _ hp)) htook.tally
      (by rw [htook.requests, hreq, List.length_append]; rfl) (fun entry he => by
        rw [List.length_append, List.length_singleton]
        rcases htook.pending entry he with he | ⟨heq, -⟩
        · rcases hpending entry he with he | ⟨a, ha, heq⟩
          · exact .inl he
          · exact .inr ⟨a, by omega, heq⟩
        · exact .inr ⟨done.length, by omega, by rw [heq, hreq]⟩)
    refine ⟨w', ?_, htally, hlast⟩
    rw [List.foldlM_cons, hserve]
    exact hrest

theorem served_tallied {W' : Nat → Pending → Prop} {t : Tick} (h : w.Tallied i W A)
    (hdone : ∀ ev ∈ t.drained, ev.kind = 1 → ∀ p, W ev.handle p → A p.request (p.complete ev))
    (hW : ∀ k p, W k p → W' k p) (hconv : ∀ payload ∈ t.requests, Convertible lua payload)
    (hfresh : FreshHandles t w.requests w.bus.pending)
    (hallow : ∀ a payload, t.requests[a]? = some payload →
      Allows lua W' A (t.handle (w.requests + a)) (w.requests + a) payload) :
    ∃ w', t.requests.foldlM (Work.serve lua i t.handle) (w.poll i t.drained) = some w' ∧
      ((w'.catalog i t.now).heartbeat i t.now).Tallied i W' A ∧
      w.requests ≤ ((w'.catalog i t.now).heartbeat i t.now).requests := by
  obtain ⟨hpoll, hreq, hpending⟩ := poll_tallied h hdone
  obtain ⟨w', hserve, htally, hreq'⟩ := serves_tallied (List.nil_append t.requests).symm hconv
    hfresh hallow (hpoll.mono hW fun _ _ hA => hA) hreq fun entry he => .inl (hpending entry he)
  refine ⟨w', hserve, heartbeat_tallied (catalog_tallied htally _) _, ?_⟩
  rw [heartbeat_requests, catalog_requests, hreq']
  exact Nat.le_add_right _ _

end

/-! ## One step -/

section

variable (config lua) (acts : List (Step n)) (i : Fin n)

/-- The command was submitted under the handle for a request that the dongle took. -/
def Waits (handle : Nat) (p : Pending) : Prop :=
  ∃ payload t after, TakenIn config lua acts i p.request payload t after ∧
    t.handle p.request = handle ∧ commandOf lua payload = some p.name ∧
    CATALOG.lookup p.name = some p.cmd

structure Books (s : System n) : Prop where
  tally : ∀ i, Tally i (Waits config lua acts i) (AnswerFits config lua acts i)
    (s.nodes i).pending s.requests s.log
  closed : ∀ i ns, s.nodes i = .enabled ns → ns.phase = .wait_turn → ns.bus = none

end

section

variable {acts : List (Step n)} {a : Step n} {i : Fin n} {id : Nat} {payload : List UInt8}
  {t : Tick} {after : List (Step n)} {s s' : System n}

theorem TakenIn.snoc (h : TakenIn config lua acts i id payload t after) :
    TakenIn config lua (acts ++ [a]) i id payload t (after ++ [a]) := by
  obtain ⟨before, s, rfl, h⟩ := h
  exact ⟨before, s, by simp, h⟩

theorem Fits.snoc {reply : Reply} (h : Fits lua i id payload t after reply) :
    Fits lua i id payload t (after ++ [a]) reply := by
  cases reply with
  | error e => trivial
  | faulting => exact h
  | result fields =>
    obtain ⟨name, cmd, hname, hcmd, t', ev, ht', hev⟩ := h
    exact ⟨name, cmd, hname, hcmd, t', ev, List.mem_append_left _ ht', hev⟩

theorem AnswerFits.snoc {reply : Reply} (h : AnswerFits config lua acts i id reply) :
    AnswerFits config lua (acts ++ [a]) i id reply := by
  obtain ⟨payload, t, after, htaken, hfits⟩ := h
  exact ⟨payload, t, after ++ [a], htaken.snoc, hfits.snoc⟩

theorem Waits.snoc {handle : Nat} {p : Pending} (h : Waits config lua acts i handle p) :
    Waits config lua (acts ++ [a]) i handle p := by
  obtain ⟨payload, t, after, htaken, h⟩ := h
  exact ⟨payload, t, after ++ [a], htaken.snoc, h⟩

theorem status_err_none {status : Nat} (h : status_err status = none) : status = 0 := by
  unfold status_err at h
  split at h
  · assumption
  · split at h
    · cases h
    · split at h
      · cases h
      · split at h <;> cases h

theorem Waits.complete {p : Pending} {ev : CtrlEvent} (h : Waits config lua acts i ev.handle p)
    (hev : ev ∈ t.drained) (hkind : ev.kind = 1) :
    AnswerFits config lua (acts ++ [.tick i t]) i p.request (p.complete ev) := by
  obtain ⟨payload, t₀, after, htaken, hhandle, hname, hcmd⟩ := h
  refine ⟨payload, t₀, after ++ [.tick i t], htaken.snoc, ?_⟩
  unfold Pending.complete
  split
  · trivial
  · rename_i hstatus
    exact ⟨p.name, p.cmd, hname, hcmd, t, ev, by simp, hev, hkind, hhandle.symm,
      status_err_none hstatus, rfl⟩

theorem takenIn_now (hrun : runs (step config lua) (.init n) acts = some s) {k : Nat}
    (hk : t.requests[k]? = some payload) :
    TakenIn config lua (acts ++ [.tick i t]) i (s.requests + k) payload t [] :=
  ⟨acts, s, rfl, hrun, Nat.le_add_right _ _, by rwa [Nat.add_sub_cancel_left]⟩

theorem allows_now (hrun : runs (step config lua) (.init n) acts = some s) {k : Nat}
    (hk : t.requests[k]? = some payload) : Allows lua (Waits config lua (acts ++ [.tick i t]) i)
      (AnswerFits config lua (acts ++ [.tick i t]) i) (t.handle (s.requests + k))
      (s.requests + k) payload := by
  have htaken := takenIn_now (i := i) hrun hk
  refine ⟨fun e => ⟨payload, t, [], htaken, trivial⟩, fun hfault => ⟨payload, t, [], htaken, hfault⟩,
    fun name cmd hname hcmd hne => ⟨payload, t, [], htaken, rfl, hname, hcmd⟩⟩

/-- A step that neither takes nor answers a request of the dongle, and leaves its commands. -/
theorem Books.apart (h : Books config lua acts s)
    (hpending : (s'.nodes i).pending = (s.nodes i).pending)
    (hle : s.requests ≤ s'.requests) (hlog : Adds (Event.Apart i) s.log s'.log) :
    Tally i (Waits config lua (acts ++ [a]) i) (AnswerFits config lua (acts ++ [a]) i)
      (s'.nodes i).pending s'.requests s'.log := by
  rw [hpending]
  exact ((h.tally i).mono (fun _ _ => Waits.snoc) (fun _ _ => AnswerFits.snoc)).apart hle hlog

/-- What a tick leaves of the books of its dongle. -/
structure Keeps (config : Fin n → Config) (lua : Lua ν) (acts : List (Step n)) (i : Fin n)
    (s s' : System n) : Prop where
  tally : Tally i (Waits config lua acts i) (AnswerFits config lua acts i)
    (s'.nodes i).pending s'.requests s'.log
  requests : s.requests ≤ s'.requests
  closed : ∀ ns, s'.nodes i = .enabled ns → ns.phase = .wait_turn → ns.bus = none

theorem Books.moved (h : Books config lua acts s) {node : Node} (hnode : s'.nodes i = node)
    (hpending : node.pending = (s.nodes i).pending)
    (hclosed : ∀ ns, node = .enabled ns → ns.phase ≠ .wait_turn)
    (hreq : s'.requests = s.requests) (hlog : Adds (Event.Apart i) s.log s'.log) :
    Keeps config lua (acts ++ [a]) i s s' := by
  refine ⟨h.apart (by rw [hnode, hpending]) hreq.ge hlog, hreq.ge, fun ns hns hphase => ?_⟩
  exact absurd hphase (hclosed ns (hnode.symm.trans hns))

variable {ns : NodeData}

theorem serve_keeps (h : Books config lua acts s)
    (hrun : runs (step config lua) (.init n) acts = some s) (hns : s.nodes i = .enabled ns)
    (horderly : Orderly lua s (.tick i t)) : ∃ s', DONGLE_SERVE config lua s i ns t = some s' ∧
      Keeps config lua (acts ++ [.tick i t]) i s s' := by
  have hheld : (s.nodes i).pending = (ns.bus.map Bus.pending).getD [] := by rw [hns]; rfl
  have hstay : Keeps config lua (acts ++ [.tick i t]) i s s :=
    ⟨h.apart rfl le_rfl (.refl _), le_rfl, h.closed i⟩
  have hfault : Keeps config lua (acts ++ [.tick i t]) i s
      (s.setNode i (.enabled { ns with phase := .fault })) := by
    refine h.moved (Function.update_self _ _ _) hheld.symm ?_ rfl (.refl _)
    rintro _ ⟨⟩
    exact fun h => by cases h
  unfold DONGLE_SERVE
  cases hphase : ns.phase with
  | wait_turn =>
    refine ⟨_, rfl, ?_⟩
    have hbus := h.closed i ns hns hphase
    unfold wait_turn
    split
    · exact hstay
    · split
      · exact hstay
      · split
        · refine h.moved (Function.update_self _ _ _) (hheld.trans (by rw [hbus]; rfl)).symm ?_ rfl
            ((Adds.refl _).snoc fun _ => ⟨rfl, rfl⟩)
          rintro _ ⟨⟩
          exact fun h => by cases h
        · exact hfault
  | provisioning =>
    refine ⟨_, rfl, ?_⟩
    unfold provisioning
    split
    · exact hfault
    · rename_i bus hbus
      have htally : (s.work i ns bus).Tallied i (Waits config lua acts i)
          (AnswerFits config lua (acts ++ [.tick i t]) i) := by
        have hold := (h.tally i).mono (fun _ _ hW => hW)
          (fun _ _ => AnswerFits.snoc (a := .tick i t))
        rw [hheld, hbus] at hold
        exact hold
      obtain ⟨hpoll, hreq, -⟩ := poll_tallied htally
        fun ev hev hkind p hW => hW.complete hev hkind
      refine ⟨?_, hreq.ge, ?_⟩
      · have hnew := hpoll.mono (fun _ _ => Waits.snoc (a := .tick i t)) fun _ _ hA => hA
        simp only [System.setNode, Function.update_self]
        exact hnew
      · simp only [System.setNode, Function.update_self]
        rintro _ ⟨⟩
        dsimp only
        split
        · exact fun h => by cases h
        · split <;> exact fun h => by cases h
  | verify =>
    refine ⟨_, rfl, ?_⟩
    unfold verify
    dsimp only
    generalize (if ns.bus.isSome = true then t.identity else none) = uid
    split
    · refine h.moved (Function.update_self _ _ _) hheld.symm ?_ rfl (.refl _)
      rintro _ ⟨⟩
      exact fun h => by cases h
    · refine h.moved (Function.update_self _ _ _) ?_ ?_ rfl ⟨_, rfl, ?_⟩
      · rw [hheld]
        cases ns.bus <;> rfl
      · rintro _ ⟨⟩
        exact fun h => by cases h
      · simp [Event.Apart, Event.takes, Event.answers]
  | fault =>
    refine ⟨_, rfl, h.moved (Function.update_self _ _ _) hheld.symm ?_ rfl (.refl _)⟩
    rintro _ ⟨⟩
  | serving =>
    change ∃ s', serving config lua s i ns t = some s' ∧ _
    unfold serving
    split
    · exact ⟨_, rfl, hfault⟩
    · rename_i bus hbus
      obtain ⟨hconv, hfresh⟩ := horderly ns hns hphase
      rw [hheld, hbus] at hfresh
      have htally : (s.work i ns bus).Tallied i (Waits config lua acts i)
          (AnswerFits config lua (acts ++ [.tick i t]) i) := by
        have hold := (h.tally i).mono (fun _ _ hW => hW)
          (fun _ _ => AnswerFits.snoc (a := .tick i t))
        rw [hheld, hbus] at hold
        exact hold
      obtain ⟨w, hserve, hserved, hreq⟩ := served_tallied htally
        (fun ev hev hkind p hW => hW.complete hev hkind) (fun _ _ => Waits.snoc) hconv hfresh
        (fun k payload hk => allows_now hrun hk)
      simp only [hserve, Option.bind_eq_bind, Option.bind_some]
      split
      · refine ⟨_, rfl, ?_, hreq, ?_⟩
        · simp only [System.setNode, Function.update_self]
          exact hserved
        · simp only [System.setNode, Function.update_self]
          rintro _ ⟨⟩
      · refine ⟨_, rfl, ?_, hreq, ?_⟩
        · simp only [System.setNode, Function.update_self]
          exact hserved
        · simp only [System.setNode, Function.update_self]
          rintro _ ⟨⟩
          intro hwait
          rw [hphase] at hwait
          cases hwait

theorem tick_books (h : Books config lua acts s)
    (hrun : runs (step config lua) (.init n) acts = some s) (hns : s.nodes i = .enabled ns)
    (horderly : Orderly lua s (.tick i t)) : ∃ s', step config lua s (.tick i t) = some s' ∧
      Books config lua (acts ++ [.tick i t]) s' := by
  obtain ⟨s', hserve, hkeeps⟩ := serve_keeps h hrun hns horderly
  obtain ⟨hframe, hlog⟩ := serve_frame hserve
  refine ⟨s', by simpa [step, hns] using hserve, fun j => ?_, fun j => ?_⟩
  · by_cases hj : j = i
    · subst hj
      exact hkeeps.tally
    · refine h.apart (by rw [(hframe j hj).1]) hkeeps.requests (hlog.mono fun e he => ?_)
      exact Event.apart_of_ne fun heq => hj (Option.some.inj (heq.symm.trans he))
  · by_cases hj : j = i
    · subst hj
      exact hkeeps.closed
    · rw [(hframe j hj).1]
      exact h.closed j

theorem Books.still (h : Books config lua acts s) {node : Node}
    (hnodes : s'.nodes = Function.update s.nodes i node) (hold : (s.nodes i).pending = [])
    (hnew : node = .disabled ∨ ∃ ns, node = .enabled ns ∧ ns.bus = none)
    (hreq : s'.requests = s.requests) (hlog : ∀ j, Adds (Event.Apart j) s.log s'.log) :
    Books config lua (acts ++ [a]) s' := by
  refine ⟨fun j => ?_, fun j ns hns _ => ?_⟩
  · refine h.apart ?_ hreq.ge (hlog j)
    rw [hnodes]
    by_cases hj : j = i
    · subst hj
      rw [Function.update_self, hold]
      rcases hnew with rfl | ⟨ns, rfl, hbus⟩
      · rfl
      · simp [Node.pending, hbus]
    · rw [Function.update_of_ne hj]
  · rw [hnodes] at hns
    by_cases hj : j = i
    · subst hj
      rw [Function.update_self] at hns
      subst hns
      rcases hnew with hnew | ⟨ns', hns', hbus⟩
      · cases hnew
      · cases hns'
        exact hbus
    · rw [Function.update_of_ne hj] at hns
      exact h.closed j ns hns ‹_›

theorem step_books (h : Books config lua acts s)
    (hrun : runs (step config lua) (.init n) acts = some s) (horderly : Orderly lua s a)
    (hstep : step config lua s a = some s') : Books config lua (acts ++ [a]) s' := by
  cases a with
  | enable i now =>
    cases hns : s.nodes i <;> simp only [step, hns] at hstep <;> cases hstep
    exact h.still rfl (by rw [hns]; rfl) (.inr ⟨_, rfl, rfl⟩) rfl fun j => .refl _
  | tick i t =>
    cases hns : s.nodes i with
    | disabled => simp [step, hns] at hstep
    | failed ns => simp [step, hns] at hstep
    | enabled ns =>
      obtain ⟨s₁, hstep₁, hbooks⟩ := tick_books h hrun hns horderly
      rw [hstep] at hstep₁
      cases hstep₁
      exact hbooks
  | disable i =>
    have hterm : Books config lua (acts ++ [.disable i]) (DONGLE_TERM s i) := by
      refine h.still rfl horderly (.inl rfl) rfl fun j => ⟨_, rfl, ?_⟩
      simp [Event.Apart, Event.takes, Event.answers]
    cases hns : s.nodes i <;> simp only [step, hns] at hstep <;> cases hstep <;> exact hterm
  | gate_down =>
    cases hstep
    refine ⟨fun j => h.apart rfl le_rfl ⟨_, rfl, ?_⟩, h.closed⟩
    simp [Event.Apart, Event.takes, Event.answers]
  | publish =>
    cases hstep
    exact ⟨fun j => h.apart rfl le_rfl ((Adds.refl _).snoc fun _ => ⟨rfl, rfl⟩), h.closed⟩

end

/-! ## Every run -/

theorem init_books : Books config lua [] (.init n) := by
  refine ⟨fun i => ⟨fun id => rfl, fun id => ?_, fun id _ => rfl, List.nodup_nil, ?_, ?_⟩, ?_⟩
  · exact Nat.zero_le 1
  · rintro _ ⟨⟩
  · rintro _ _ ⟨⟩
  · rintro _ _ ⟨⟩

theorem Books.serviced {acts : List (Step n)} {s : System n} (h : Books config lua acts s) :
    Serviced config lua acts s := by
  refine ⟨fun i id payload htaken => ?_, fun i => (h.tally i).answered⟩
  have hpos : 0 < s.log.countP (Event.takes i id) :=
    List.countP_pos_iff.mpr ⟨_, htaken, by simp [Event.takes]⟩
  have hone := (h.tally i).once id
  have hbalance := (h.tally i).balance id
  omega

/-- In every run in which what is taken can be converted and no dongle is disabled with a
command in flight, each request is answered once, with what its command gave or with an error,
and no such tick raises. -/
theorem requests_are_answered {acts : List (Step n)} {s : System n}
    (hrun : runs (step config lua) (.init n) acts = some s)
    (horderly : Meets (step config lua) (Orderly lua) (.init n) acts) :
    Serviced config lua acts s ∧ ∀ i t ns, s.nodes i = .enabled ns → Orderly lua s (.tick i t) →
      ∃ s', step config lua s (.tick i t) = some s' := by
  have hinv : runs (step config lua) (.init n) ([] ++ acts) = some s ∧
      Books config lua ([] ++ acts) s :=
    inv_history (I := fun acts s => runs (step config lua) (.init n) acts = some s ∧
        Books config lua acts s)
      (fun acts s a s' h hok hstep => ⟨by rw [runs_append, h.1]; simpa using hstep,
        step_books h.2 h.1 hok hstep⟩)
      ⟨rfl, init_books⟩ horderly hrun
  refine ⟨hinv.2.serviced, fun i t ns hns hok => ?_⟩
  obtain ⟨s', hstep, -⟩ := tick_books hinv.2 hinv.1 hns hok
  exact ⟨s', hstep⟩

def comeUp : List (Step 1) :=
  let i : Fin 1 := ⟨0, Nat.zero_lt_one⟩
  [.enable i 0, .tick i quietTick, .tick i quietTick, .tick i quietTick, .tick i quietTick]

/-- It takes a request, and its command is in flight under handle 1. -/
def askTick : Tick := { quietTick with requests := [sysinfoPayload] }

def doneTick : Tick := { quietTick with drained := [⟨1, 1, 0, 0, 1, [0xAB]⟩] }

theorem sysinfo_is_answered : ∃ s,
    runs (step alone integers) (.init 1) (comeUp ++ [.tick 0 askTick, .tick 0 doneTick]) = some s ∧
      Serviced alone integers (comeUp ++ [.tick 0 askTick, .tick 0 doneTick]) s := by
  obtain ⟨s, hrun⟩ : ∃ s, runs (step alone integers) (.init 1)
      (comeUp ++ [.tick 0 askTick, .tick 0 doneTick]) = some s := ⟨_, rfl⟩
  exact ⟨s, hrun, (requests_are_answered hrun (by decide +kernel)).1⟩

/-- A request whose value is no number. -/
def truePayload : List UInt8 := bytesOf
  "\x7b\x22command\x22:\x22dac_write\x22,\x22args\x22:\x7b\x22value\x22:true\x7d\x7d"

/-- Lua with integers that can read this request. -/
def reader : Lua Int := { integers with
  cjson_decode payload :=
    if payload = truePayload then
      some (.object [("command", .str "dac_write"), ("args", .object [("value", .bool true)])])
    else integers.cjson_decode payload }

def trueTick : Tick := { quietTick with requests := [truePayload] }

/-- A request raises, and one that is in flight is lost with the bus. -/
theorem requests_fail :
    (∃ s ns, runs (step alone reader) (.init 1) comeUp = some s ∧ s.nodes 0 = .enabled ns ∧
      step alone reader s (.tick 0 trueTick) = none) ∧
    ∃ s, runs (step alone integers) (.init 1) (comeUp ++ [.tick 0 askTick, .disable 0]) = some s ∧
      ¬ Serviced alone integers (comeUp ++ [.tick 0 askTick, .disable 0]) s := by
  constructor
  · obtain ⟨s, hrun⟩ : ∃ s, runs (step alone reader) (.init 1) comeUp = some s := ⟨_, rfl⟩
    have hphase : (runs (step alone reader) (.init 1) comeUp).map (fun s =>
        ((step alone reader s (.tick 0 quietTick)).isSome,
          (step alone reader s (.tick 0 trueTick)).isNone)) = some (true, true) := by decide +kernel
    rw [hrun] at hphase
    obtain ⟨hserved, hraise⟩ := Prod.mk.inj (Option.some.inj hphase)
    cases hns : s.nodes 0 with
    | enabled ns => exact ⟨s, ns, hrun, hns, Option.isNone_iff_eq_none.mp hraise⟩
    | disabled => simp [step, hns] at hserved
    | failed ns => simp [step, hns] at hserved
  · obtain ⟨s, hrun⟩ : ∃ s, runs (step alone integers) (.init 1)
        (comeUp ++ [.tick 0 askTick, .disable 0]) = some s := ⟨_, rfl⟩
    have hcount : (runs (step alone integers) (.init 1)
        (comeUp ++ [.tick 0 askTick, .disable 0])).map (fun s =>
          (s.log.contains (.taken 0 0 sysinfoPayload),
            s.log.countP (Event.answers 0 0) + (s.nodes 0).pending.countP (requestIs 0))) =
              some (true, 0) := by decide +kernel
    rw [hrun] at hcount
    obtain ⟨htaken, hnone⟩ := Prod.mk.inj (Option.some.inj hcount)
    refine ⟨s, hrun, fun h => ?_⟩
    have hone := h.once 0 0 sysinfoPayload (by simpa using htaken)
    rw [hnone] at hone
    cases hone

end motioncore.bussup
