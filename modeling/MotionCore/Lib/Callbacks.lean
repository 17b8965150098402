-- Programs that call out to code they do not know, which may call in again, and
-- that share a device with others: a machine that runs them on a stack of
-- unfinished calls, and a rule that follows one program at a time and speaks
-- about every run of the machine.
import MotionCore.Lib.Runs

namespace motioncore.callbacks

open motioncore.machine

/-! ## Programs -/

/-- What a family of programs works on. -/
structure Setting where
  /-- The state that only the programs write. -/
  State : Type
  /-- The device that others use at any time. -/
  Device : Type
  /-- What a use of the device tells. -/
  Told : Type
  /-- What a program notes. -/
  Note : Type
  /-- The code outside that is called. -/
  Callee : Type
  Answer : Type
  /-- The programs that the code outside may call. -/
  Entry : Type
  /-- What others do to the device. -/
  Other : Type

inductive Prog (S : Setting) (α : Type) where
  | ret (a : α)
  | read (k : S.State → Prog S α)
  | write (f : S.State → S.State) (k : Prog S α)
  /-- One use of the device, which nobody interrupts, with what is noted of it. -/
  | use (act : S.Device → S.Told × S.Device) (noted : S.Told → Option S.Note)
      (k : S.Told → Prog S α)
  | note (e : S.Note) (k : Prog S α)
  | call (x : S.Callee) (k : S.Answer → Prog S α)
  /-- The end of everything. -/
  | halt

variable {S : Setting} {α β : Type}

namespace Prog

def andThen : Prog S α → (α → Prog S β) → Prog S β
  | ret a, f => f a
  | read k, f => read fun s => (k s).andThen f
  | write g k, f => write g (k.andThen f)
  | use act noted k, f => use act noted fun t => (k t).andThen f
  | note e k, f => note e (k.andThen f)
  | call x k, f => call x fun a => (k a).andThen f
  | halt, _ => halt

instance : Monad (Prog S) where
  pure := ret
  bind := andThen

/-- A step for each element of a list, in its order. -/
def forEach {γ : Type} : List γ → (γ → Prog S Unit) → Prog S Unit
  | [], _ => ret ()
  | c :: cs, f => (f c).andThen fun _ => forEach cs f

end Prog

/-! ## The machine -/

/-- The programs behind the entries, and what others do to the device. They may break it. -/
structure System (S : Setting) where
  entry : S.Entry → Prog S (Option S.Entry)
  other : S.Other → S.Device → Option S.Device

structure Waiting (S : Setting) where
  callee : S.Callee
  next : S.Answer → Prog S (Option S.Entry)

/-- A program runs, or the code outside does when there is none: the last callee on the
stack, or the main code when the stack is empty. A program may end with an entry, and is
started again there. -/
structure Machine (S : Setting) where
  state : S.State
  device : S.Device
  /-- Each note with the number of calls that were unfinished. -/
  log : List (Nat × S.Note)
  running : Option (Prog S (Option S.Entry))
  stack : List (Waiting S)

inductive Act (S : Setting) where
  | run
  | other (o : S.Other)
  | enter (e : S.Entry)
  | answer (a : S.Answer)

variable (sys : System S)

/-- What the log gets from a use of the device. -/
def noteAt (d : Nat) : Option S.Note → List (Nat × S.Note)
  | none => []
  | some e => [(d, e)]

/-- One step of the program that runs. -/
def Machine.exec (m : Machine S) : Prog S (Option S.Entry) → Option (Machine S)
  | .ret none => some { m with running := none }
  | .ret (some e) => some { m with running := some (sys.entry e) }
  | .read k => some { m with running := some (k m.state) }
  | .write f k => some { m with state := f m.state, running := some k }
  | .use act noted k =>
    some { m with
      device := (act m.device).2
      log := m.log ++ noteAt m.stack.length (noted (act m.device).1)
      running := some (k (act m.device).1) }
  | .note e k => some { m with log := m.log ++ [(m.stack.length, e)], running := some k }
  | .call x k => some { m with running := none, stack := ⟨x, k⟩ :: m.stack }
  | .halt => none

def Machine.step (m : Machine S) : Act S → Option (Machine S)
  | .run => m.running.bind (m.exec sys)
  | .other o =>
    match sys.other o m.device with
    | some d => some { m with device := d }
    | none => some { m with running := some .halt }
  | .enter e =>
    match m.running with
    | none => some { m with running := some (sys.entry e) }
    | some _ => none
  | .answer a =>
    match m.running, m.stack with
    | none, w :: rest => some { m with running := some (w.next a), stack := rest }
    | _, _ => none

/-- The machine before its first step, with the main code running. -/
def Machine.start (state : S.State) (device : S.Device) : Machine S where
  state := state
  device := device
  log := []
  running := none
  stack := []

/-! ## The rule for one program -/

/-- What a program can see: the state, and the log. -/
structure View (S : Setting) where
  state : S.State
  log : List (Nat × S.Note)

def Machine.view (m : Machine S) : View S := ⟨m.state, m.log⟩

def View.noted (v : View S) (d : Nat) (e : S.Note) : View S :=
  { v with log := v.log ++ [(d, e)] }

/-- What programs and the code outside owe each other. A level is a number of unfinished
calls. -/
structure Contract (S : Setting) where
  /-- Holds whenever code outside runs at a level. -/
  Inv : Nat → View S → Prop
  /-- What the code outside leaves alone while it runs at a level, whatever it calls. -/
  Rely : Nat → View S → View S → Prop
  /-- Holds of the device and the log at any time. -/
  Link : S.Device → List (Nat × S.Note) → Prop
  /-- Holds of the log at any time. -/
  Safe : List (Nat × S.Note) → Prop
  /-- What a note says where it is made. -/
  Law : Nat → View S → S.Note → Prop
  /-- What is assumed where a note is made. -/
  Allowed : View S → S.Note → Prop
  /-- What is assumed where the code outside calls in at a level. -/
  MayEnter : Nat → S.Entry → Prop
  /-- What is assumed of the others. -/
  MayAct : S.Other → Prop

variable (C : Contract S)

/-- The program keeps the contract at a level, and ends in `Q`. -/
def Keeps (d : Nat) : Prog S α → (α → View S → Prop) → View S → Prop
  | .ret a, Q, v => Q a v
  | .read k, Q, v => Keeps d (k v.state) Q v
  | .write f k, Q, v => Keeps d k Q { v with state := f v.state }
  | .use act noted k, Q, v => ∀ w, C.Link w v.log →
    (∀ e, noted (act w).1 = some e → C.Law d v e) ∧
      C.Link (act w).2 (v.log ++ noteAt d (noted (act w).1)) ∧
      Keeps d (k (act w).1) Q { v with log := v.log ++ noteAt d (noted (act w).1) }
  | .note e k, Q, v => C.Allowed v e →
    C.Law d v e ∧ (∀ w, C.Link w v.log → C.Link w (v.log ++ [(d, e)])) ∧
      Keeps d k Q (v.noted d e)
  | .call _ k, Q, v => C.Inv (d + 1) v ∧
    ∀ v' a, C.Inv (d + 1) v' → C.Rely (d + 1) v v' → Keeps d (k a) Q v'
  | .halt, _, _ => True

variable {C}
variable {d : Nat} {p : Prog S α} {v : View S}

theorem Keeps.mono {Q Q' : α → View S → Prop} (h : Keeps C d p Q v)
    (himp : ∀ a v', Q a v' → Q' a v') : Keeps C d p Q' v := by
  induction p generalizing v with
  | ret a => exact himp _ _ h
  | read k ih => exact ih _ h
  | write f k ih => exact ih h
  | use act noted k ih =>
    intro w hw
    obtain ⟨hlaw, hlink, hk⟩ := h w hw
    exact ⟨hlaw, hlink, ih _ hk⟩
  | note e k ih =>
    intro hallowed
    obtain ⟨hlaw, hlink, hk⟩ := h hallowed
    exact ⟨hlaw, hlink, ih hk⟩
  | call x k ih => exact ⟨h.1, fun v' a hinv hrely => ih _ (h.2 v' a hinv hrely)⟩
  | halt => trivial

theorem keeps_andThen {f : α → Prog S β} {Q : β → View S → Prop}
    (h : Keeps C d p (fun a v' => Keeps C d (f a) Q v') v) : Keeps C d (p.andThen f) Q v := by
  induction p generalizing v with
  | ret a => exact h
  | read k ih => exact ih _ h
  | write g k ih => exact ih h
  | use act noted k ih =>
    intro w hw
    obtain ⟨hlaw, hlink, hk⟩ := h w hw
    exact ⟨hlaw, hlink, ih _ hk⟩
  | note e k ih =>
    intro hallowed
    obtain ⟨hlaw, hlink, hk⟩ := h hallowed
    exact ⟨hlaw, hlink, ih hk⟩
  | call x k ih => exact ⟨h.1, fun v' a hinv hrely => ih _ (h.2 v' a hinv hrely)⟩
  | halt => trivial

theorem keeps_bind {f : α → Prog S β} {Q : β → View S → Prop}
    (h : Keeps C d p (fun a v' => Keeps C d (f a) Q v') v) :
    Keeps C d (p >>= f) Q v := keeps_andThen h

theorem keeps_forEach_from {γ : Type} {f : γ → Prog S Unit} (I : List γ → View S → Prop)
    {done todo : List γ} (hstart : I done v)
    (hstep : ∀ pre c post v', pre ++ c :: post = done ++ todo → I pre v' →
      Keeps C d (f c) (fun _ => I (pre ++ [c])) v') :
    Keeps C d (Prog.forEach todo f) (fun _ => I (done ++ todo)) v := by
  induction todo generalizing done v with
  | nil => simpa [Prog.forEach, Keeps] using hstart
  | cons c todo ih =>
    rw [Prog.forEach]
    apply keeps_andThen
    apply (hstep done c todo v rfl hstart).mono
    intro _ v' hI
    have hsplit : done ++ c :: todo = (done ++ [c]) ++ todo := by simp
    rw [hsplit]
    apply ih hI
    intro pre c' post v'' heq
    exact hstep pre c' post v'' (by rw [heq, hsplit])

/-- A loop over a list, with a fact about the elements that are done. -/
theorem keeps_forEach {γ : Type} {f : γ → Prog S Unit} (I : List γ → View S → Prop) (todo : List γ)
    (hstart : I [] v) (hstep : ∀ pre c post v', pre ++ c :: post = todo → I pre v' →
      Keeps C d (f c) (fun _ => I (pre ++ [c])) v') :
    Keeps C d (Prog.forEach todo f) (fun _ => I todo) v :=
  keeps_forEach_from I hstart hstep

/-! ## Programs that stay within a relation -/

/-- What one spell of a program may do, as a relation that can be put in line. -/
structure Spell (C : Contract S) (d : Nat) (G : View S → View S → Prop) : Prop where
  trans : ∀ {v₁ v₂ v₃}, G v₁ v₂ → G v₂ v₃ → G v₁ v₃
  /-- Where the spell may end another one may begin. -/
  again : ∀ {v v'}, G v v' → G v' v'
  inv : ∀ {v}, G v v → C.Inv (d + 1) v
  outside : ∀ {v v'}, G v v → C.Inv (d + 1) v' → C.Rely (d + 1) v v' → G v v'

/-- The program stays within the relation wherever it may begin. -/
def Within (C : Contract S) (d : Nat) (G : View S → View S → Prop) (p : Prog S α) : Prop :=
  ∀ v, G v v → Keeps C d p (fun _ => G v) v

section

variable {d : Nat} {G : View S → View S → Prop}

theorem within_pure (a : α) : Within C d G (pure a : Prog S α) := fun _ h => h

theorem within_halt : Within C d G (.halt : Prog S α) := fun _ _ => trivial

theorem Within.bind (hG : Spell C d G) {p : Prog S α} {f : α → Prog S β} (hp : Within C d G p)
    (hf : ∀ a, Within C d G (f a)) : Within C d G (p >>= f) := by
  intro v h
  apply keeps_bind
  apply (hp v h).mono
  intro a v' h'
  exact (hf a v' (hG.again h')).mono fun _ _ h'' => hG.trans h' h''

theorem Within.forEach (hG : Spell C d G) {γ : Type} {f : γ → Prog S Unit}
    (hf : ∀ c, Within C d G (f c)) (cs : List γ) : Within C d G (Prog.forEach cs f) := by
  induction cs with
  | nil => exact within_pure ()
  | cons c cs ih => exact (hf c).bind hG fun _ => ih

theorem within_call (hG : Spell C d G) (x : S.Callee) :
    Within C d G (.call x .ret : Prog S S.Answer) :=
  fun _ h => ⟨hG.inv h, fun _ _ hinv hrely => hG.outside h hinv hrely⟩

end

/-! ## Every run of the machine -/

/-- The end of a call in: the code outside goes on at its level, and what it relies on is
as it was. -/
def Done (C : Contract S) (d : Nat) (v : View S) (next : Option S.Entry) (v' : View S) : Prop :=
  C.Inv d v' ∧ C.Rely d v v' ∧ ∀ e, next = some e → C.MayEnter d e

/-- The contract is met by each entry and by the others. -/
structure Contract.Lawful (C : Contract S) (sys : System S) : Prop where
  refl : ∀ d v, C.Rely d v v
  trans : ∀ d v₁ v₂ v₃, C.Rely d v₁ v₂ → C.Rely d v₂ v₃ → C.Rely d v₁ v₃
  safe : ∀ d v e, C.Law d v e → C.Safe v.log → C.Safe (v.log ++ [(d, e)])
  other : ∀ o w w' log, C.MayAct o → C.Link w log → sys.other o w = some w' → C.Link w' log
  entry : ∀ d e v, C.MayEnter d e → C.Inv d v → Keeps C d (sys.entry e) (Done C d v) v

/-- What a run is assumed to meet in each step. -/
def Contract.Permits (C : Contract S) (m : Machine S) : Act S → Prop
  | .run => ∀ e k, m.running = some (.note e k) → C.Allowed m.view e
  | .other o => C.MayAct o
  | .enter e => C.MayEnter m.stack.length e
  | .answer _ => True

/-- The programs on the stack will keep the contract when their callees answer. -/
def Awaits (C : Contract S) (v₀ : View S) : List (Waiting S) → View S → Prop
  | [], v => C.Inv 0 v ∧ C.Rely 0 v₀ v
  | w :: rest, v => C.Inv (rest.length + 1) v ∧ ∃ v₁, C.Rely (rest.length + 1) v₁ v ∧
    ∀ v' a, C.Inv (rest.length + 1) v' → C.Rely (rest.length + 1) v₁ v' →
      ∃ v₂, Awaits C v₀ rest v₂ ∧
        Keeps C rest.length (w.next a) (Done C rest.length v₂) v'

structure InContract (C : Contract S) (v₀ : View S) (m : Machine S) : Prop where
  link : C.Link m.device m.log
  safe : C.Safe m.log
  outside : m.running = none → Awaits C v₀ m.stack m.view
  inside : ∀ p, m.running = some p → ∃ v₁, Awaits C v₀ m.stack v₁ ∧
    Keeps C m.stack.length p (Done C m.stack.length v₁) m.view

variable {sys} {v₀ : View S} {m m' : Machine S}
variable {stack : List (Waiting S)}

theorem Awaits.inv (h : Awaits C v₀ stack v) : C.Inv stack.length v := by
  cases stack with
  | nil => exact h.1
  | cons w rest => exact h.1

theorem Awaits.later (hC : C.Lawful sys) {v' : View S} (h : Awaits C v₀ stack v)
    (hinv : C.Inv stack.length v') (hrely : C.Rely stack.length v v') : Awaits C v₀ stack v' := by
  cases stack with
  | nil => exact ⟨hinv, hC.trans _ _ _ _ h.2 hrely⟩
  | cons w rest =>
    obtain ⟨-, v₁, hrely₁, hnext⟩ := h
    exact ⟨hinv, v₁, hC.trans _ _ _ _ hrely₁ hrely, hnext⟩

theorem Awaits.enter (hC : C.Lawful sys) (h : Awaits C v₀ stack v) {e : S.Entry}
    (he : C.MayEnter stack.length e) : ∃ v₁, Awaits C v₀ stack v₁ ∧
      Keeps C stack.length (sys.entry e) (Done C stack.length v₁) v :=
  ⟨v, h, hC.entry _ e v he h.inv⟩

theorem InContract.exec (hC : C.Lawful sys) (h : InContract C v₀ m)
    {p : Prog S (Option S.Entry)} (hp : m.running = some p)
    (hok : ∀ e k, p = .note e k → C.Allowed m.view e) (hstep : m.exec sys p = some m') :
    InContract C v₀ m' := by
  obtain ⟨v₁, hawaits, hkeeps⟩ := h.inside p hp
  cases p with
  | ret next =>
    obtain ⟨hinv, hrely, hnext⟩ := hkeeps
    have hlater : Awaits C v₀ m.stack m.view := hawaits.later hC hinv hrely
    cases next with
    | none =>
      cases hstep
      exact ⟨h.link, h.safe, fun _ => hlater, fun p hp => by cases hp⟩
    | some e =>
      cases hstep
      refine ⟨h.link, h.safe, (fun hr => by cases hr), fun p hp => ?_⟩
      cases hp
      exact hlater.enter hC (hnext e rfl)
  | read k =>
    cases hstep
    refine ⟨h.link, h.safe, (fun hr => by cases hr), fun p hp => ?_⟩
    cases hp
    exact ⟨v₁, hawaits, hkeeps⟩
  | write f k =>
    cases hstep
    refine ⟨h.link, h.safe, (fun hr => by cases hr), fun p hp => ?_⟩
    cases hp
    exact ⟨v₁, hawaits, hkeeps⟩
  | use act noted k =>
    cases hstep
    obtain ⟨hlaw, hlink, hk⟩ := hkeeps m.device h.link
    refine ⟨hlink, ?_, (fun hr => by cases hr), fun p hp => ?_⟩
    · cases he : noted (act m.device).1 with
      | none => simpa [noteAt, he] using h.safe
      | some e =>
        have hsafe := hC.safe _ m.view e (hlaw e he) h.safe
        simpa [noteAt, he, Machine.view] using hsafe
    cases hp
    exact ⟨v₁, hawaits, hk⟩
  | note e k =>
    cases hstep
    obtain ⟨hlaw, hlink, hk⟩ := hkeeps (hok e k rfl)
    refine ⟨hlink _ h.link, hC.safe _ m.view e hlaw h.safe, (fun hr => by cases hr), fun p hp => ?_⟩
    cases hp
    exact ⟨v₁, hawaits, hk⟩
  | call x k =>
    cases hstep
    refine ⟨h.link, h.safe, fun _ => ?_, fun p hp => by cases hp⟩
    refine ⟨hkeeps.1, m.view, hC.refl _ _, fun v' a hinv hrely => ?_⟩
    exact ⟨v₁, hawaits, hkeeps.2 v' a hinv hrely⟩
  | halt => cases hstep

theorem InContract.step (hC : C.Lawful sys) (h : InContract C v₀ m) {a : Act S}
    (hok : C.Permits m a) (hstep : m.step sys a = some m') : InContract C v₀ m' := by
  cases a with
  | run =>
    obtain ⟨p, hp, hexec⟩ := Option.bind_eq_some_iff.mp hstep
    exact h.exec hC hp (fun e k heq => hok e k (heq ▸ hp)) hexec
  | other o =>
    rw [Machine.step] at hstep
    cases ho : sys.other o m.device with
    | none =>
      rw [ho] at hstep
      cases hstep
      refine ⟨h.link, h.safe, (fun hr => by cases hr), fun p hp => ?_⟩
      cases hp
      cases hr : m.running with
      | none => exact ⟨m.view, h.outside hr, trivial⟩
      | some q =>
        obtain ⟨v₁, hawaits, -⟩ := h.inside q hr
        exact ⟨v₁, hawaits, trivial⟩
    | some w =>
      rw [ho] at hstep
      cases hstep
      exact ⟨hC.other o _ w _ hok h.link ho, h.safe, h.outside, h.inside⟩
  | enter e =>
    rw [Machine.step] at hstep
    cases hr : m.running with
    | some q => simp [hr] at hstep
    | none =>
      rw [hr] at hstep
      cases hstep
      refine ⟨h.link, h.safe, (fun hr => by cases hr), fun p hp => ?_⟩
      cases hp
      exact (h.outside hr).enter hC hok
  | answer a =>
    rw [Machine.step] at hstep
    cases hr : m.running with
    | some q => simp [hr] at hstep
    | none =>
      cases hs : m.stack with
      | nil => simp [hr, hs] at hstep
      | cons w rest =>
        rw [hr, hs] at hstep
        cases hstep
        refine ⟨h.link, h.safe, (fun hr => by cases hr), fun p hp => ?_⟩
        cases hp
        have hawaits := h.outside hr
        rw [hs] at hawaits
        obtain ⟨hinv, v₁, hrely, hnext⟩ := hawaits
        exact hnext m.view a hinv hrely

/-- A note that is made says what it should. -/
theorem InContract.law (h : InContract C v₀ m) {e : S.Note} {k : Prog S (Option S.Entry)}
    (hr : m.running = some (.note e k)) (hok : C.Allowed m.view e) :
    C.Law m.stack.length m.view e := by
  obtain ⟨v₁, -, hkeeps⟩ := h.inside _ hr
  exact (hkeeps hok).1

theorem run_in_contract (hC : C.Lawful sys) {state : S.State} {device : S.Device}
    (hinv : C.Inv 0 ⟨state, []⟩) (hlink : C.Link device []) (hsafe : C.Safe [])
    {acts : List (Act S)} (hok : Meets (Machine.step sys) C.Permits (.start state device) acts)
    (hrun : runs (Machine.step sys) (.start state device) acts = some m) :
    InContract C ⟨state, []⟩ m := by
  have hstart : InContract C ⟨state, []⟩ (Machine.start state device) :=
    ⟨hlink, hsafe, fun _ => ⟨hinv, hC.refl _ _⟩, fun p hp => by cases hp⟩
  exact inv_runs (fun m a m' h hok hstep => h.step hC hok hstep) hstart hok hrun

end motioncore.callbacks
