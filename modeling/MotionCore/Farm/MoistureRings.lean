-- The moisture robot: the rings (farm_soil/lib/moisture.lua), and the fetch that fills, saves and
-- publishes them (farm_soil/chains/moisture_user_functions.lua). The process may end between two
-- uplinks. An uplink is what the decoder makes of TTN's texts, and the disk takes every write.
-- Over fetches and restarts the rings keep the newest uplinks of each device, in time, each
-- published at most once. Texts are in the order of time unless two fractions of one second
-- clash, and a restart finds the rings of the devices that class_spec lists.
import MotionCore.Farm.Cimis
import MotionCore.Lib.Runs
import MotionCore.Lib.Stamps

open motioncore.stamps motioncore.machine

namespace motioncore.farm.soil

variable {α : Type}

/-! ## Records -/

/-- The strongest gateway of an uplink, with its settings. -/
structure Gateway (α : Type) where
  gateway_id : Option (Json α)
  gateway_count : Nat
  rssi : Option (Json α)
  channel_rssi : Option (Json α)
  snr : Option (Json α)
  frequency : Option (Json α)
  spreading_factor : Option (Json α)
  bandwidth : Option (Json α)
  coding_rate : Option (Json α)
  airtime_s : Option α

/-- An uplink of `parse_uplinks`. An id that is no natural number has no name either way. -/
structure Uplink (α : Type) where
  device_id : String
  received_at : Stamp
  f_cnt : Option α
  measurements : List (Nat × α)
  gateway : Gateway α
  battery_present : Bool
  battery_value : Option α

inductive Measurement where
  | moisture | soil_temp | ec
deriving DecidableEq, Repr

def MEASUREMENT_NAME : List (Nat × Measurement) :=
  [(4108, .moisture), (4102, .soil_temp), (4103, .ec)]

/-- The fields of `link`: those of the gateway, and the battery. -/
structure Link (α : Type) extends Gateway α where
  battery : Option α

structure Record (α : Type) where
  received_at : Stamp
  f_cnt : Option α
  measurements : Measurement → Option α
  link : Link α

/-- The loop over the measurements. Of two with one name the later one stays. -/
def named (measurements : List (Nat × α)) : Measurement → Option α :=
  measurements.foldl (fun ms (m : Nat × α) =>
    match MEASUREMENT_NAME.lookup m.1 with
    | some name => Function.update ms name (some m.2)
    | none => ms) fun _ => none

def record_from_uplink (up : Uplink α) : Record α where
  received_at := up.received_at
  f_cnt := up.f_cnt
  measurements := named up.measurements
  link := { up.gateway with battery := if up.battery_present then up.battery_value else none }

/-! ## Rings -/

def RING_CAPACITY : Nat := 256

/-- A slot: the ring of a sensing point, with the oldest entry first. -/
structure Slot (α : Type) where
  device : String
  location : String
  ring : List (Record α)

def new_slot (device location : String) : Slot α := ⟨device, location, []⟩

/-- The entries that stay when the oldest ones are evicted. -/
@[irreducible] def newest {β : Type} (l : List β) : List β := l.drop (l.length - RING_CAPACITY)

/-- `ring_append`, which gives nothing when it drops the record. -/
def ring_append (slot : Slot α) (record : Record α) : Option (Slot α) :=
  if slot.ring.getLast?.any fun n => record.received_at.text ≤ n.received_at.text then none
  else some { slot with ring := newest (slot.ring ++ [record]) }

def ring_at (slot : Slot α) (index : Nat) : Option (Record α) :=
  if slot.ring.length - index < 1 then none else slot.ring[slot.ring.length - index - 1]?

/-! ## The disk -/

/-- What `cjson` does with records. Numbers may come back with fewer digits. -/
structure Cjson (α : Type) where
  encodes : Record α → Bool
  reread : Record α → Record α
  reread_encodes : ∀ r, encodes r = true → encodes (reread r) = true
  reread_received_at : ∀ r, (reread r).received_at = r.received_at

/-- The identity, the locations of `class_spec`, and where the data lies. -/
structure Site where
  root : String
  cls : String
  inst : String
  device_locations : List (String × String)
  keys : (device_locations.map Prod.fst).Nodup

/-- What `[^%w%._%-]` keeps. -/
def isPlain (c : Char) : Bool := c.isAlphanum ∨ c = '.' ∨ c = '_' ∨ c = '-'

/-- Another character gives an underscore for each of its bytes. -/
def sanitize (s : String) : List Char :=
  s.toList.flatMap fun c => if isPlain c then [c] else List.replicate c.utf8Size '_'

@[irreducible] def slot_path (site : Site) (device location : String) : String :=
  String.ofList (site.root.toList ++ "/moisture_rings/".toList ++ sanitize site.cls ++ ['_'] ++
    sanitize site.inst ++ ['_'] ++ sanitize device ++ ['_'] ++ sanitize location ++ ".json".toList)

/-- The file of each path, as `cjson.decode` reads it. -/
abbrev Files (α : Type) := String → Option (Slot α)

/-- `save_slot`. A ring that cannot be encoded leaves the file as it is. -/
def save_slot (cj : Cjson α) (site : Site) (slot : Slot α) (files : Files α) : Files α :=
  if slot.ring.all cj.encodes then
    Function.update files (slot_path site slot.device slot.location)
      (some { slot with ring := slot.ring.map cj.reread })
  else files

def load_slot (site : Site) (files : Files α) (device location : String) : Option (Slot α) :=
  files (slot_path site device location)

/-- `device .. "/" .. location`. -/
def point (device location : String) : String := device ++ "/" ++ location

/-- The slot of a listed device, if there is one. -/
def load_into (site : Site) (files : Files α) (slots : String → Option (Slot α))
    (x : String × String) : String → Option (Slot α) :=
  match load_slot site files x.1 x.2 with
  | some slot => Function.update slots (point x.1 x.2) (some slot)
  | none => slots

def load_all_slots (site : Site) (files : Files α) : String → Option (Slot α) :=
  site.device_locations.foldl (load_into site files) fun _ => none

/-! ## The robot -/

/-- A reading and the sensing point of its `latest` key. -/
structure Publication (α : Type) where
  device : String
  location : String
  record : Record α

structure Robot (α : Type) where
  /-- `_moisture_slots` and `_moisture_hydrated`. -/
  slots : String → Option (Slot α)
  hydrated : Bool
  files : Files α
  /-- The uplinks that the fetch in progress has still to take. -/
  todo : List (Uplink α)
  /-- The uplinks that went into a ring, and what the broker took. -/
  accepted : List (Uplink α)
  published : List (Publication α)

def Robot.init : Robot α where
  slots := fun _ => none
  hydrated := false
  files := fun _ => none
  todo := []
  accepted := []
  published := []

/-- The order that `table.sort` gives to the uplinks. It may swap those of one text. -/
structure UplinkSort (α : Type) where
  sort : List (Uplink α) → List (Uplink α)
  perm : ∀ l, (sort l).Perm l
  sorted : ∀ l, (sort l).Pairwise fun a b => a.received_at.text ≤ b.received_at.text

/-- `locations[device] or "unknown"`. -/
def Site.location (site : Site) (device : String) : String :=
  (site.device_locations.lookup device).getD "unknown"

def Site.point (site : Site) (device : String) : String :=
  soil.point device (site.location device)

def Site.path (site : Site) (device : String) : String :=
  slot_path site device (site.location device)

/-- The rings come from the disk, once in the life of the process. -/
def hydrate (site : Site) (s : Robot α) : Robot α :=
  if s.hydrated then s
  else
    { s with
      slots := fun sp => (s.slots sp).or (load_all_slots site s.files sp)
      hydrated := true }

/-- The beginning of `MOISTURE_FETCH`. A fetch that fails has hydrated the rings. -/
def fetch (site : Site) (srt : UplinkSort α) (body : Option (List (Uplink α))) (s : Robot α) :
    Robot α :=
  { hydrate site s with todo := (body.map srt.sort).getD [] }

/-- One turn of the loop of `MOISTURE_FETCH`. `taken` tells whether the broker takes the reading. A
reading that cannot be encoded raises and ends the fetch. -/
def take_uplink (cj : Cjson α) (site : Site) (up : Uplink α) (rest : List (Uplink α)) (taken : Bool)
    (s : Robot α) : Robot α :=
  let device := up.device_id
  let location := site.location device
  let sp := point device location
  let slot := (s.slots sp).getD (new_slot device location)
  let record := record_from_uplink up
  match ring_append slot record with
  | none => { s with slots := Function.update s.slots sp (some slot), todo := rest }
  | some slot =>
    { s with
      slots := Function.update s.slots sp (some slot)
      files := save_slot cj site slot s.files
      todo := if cj.encodes record then rest else []
      accepted := s.accepted ++ [up]
      published := s.published ++
        if cj.encodes record && taken then [⟨device, location, record⟩] else [] }

inductive Input (α : Type) where
  | fetch (body : Option (List (Uplink α)))
  | next (taken : Bool)
  | restart

/-- A fetch comes when the one before has ended. -/
def step (cj : Cjson α) (site : Site) (srt : UplinkSort α) (s : Robot α) :
    Input α → Option (Robot α)
  | .fetch body => if s.todo.isEmpty then some (fetch site srt body s) else none
  | .next taken =>
    match s.todo with
    | [] => none
    | up :: rest => some (take_uplink cj site up rest taken s)
  | .restart => some { s with slots := fun _ => none, hydrated := false, todo := [] }

variable {α : Type} {cj : Cjson α} {site : Site} {srt : UplinkSort α} {devices : List String}

/-! ## What should hold -/

/-- The uplinks of a device that went into its ring, as entries. -/
def acceptedOf (s : Robot α) (d : String) : List (Record α) :=
  (s.accepted.filter fun up => up.device_id = d).map record_from_uplink

def publishedOf (s : Robot α) (d : String) : List (Record α) :=
  (s.published.filter fun p => p.device = d).map Publication.record

/-- The record, as it comes back after some restarts. -/
def Reread (cj : Cjson α) (r r' : Record α) : Prop := ∃ n, r' = cj.reread^[n] r

def InTime (l : List (Record α)) : Prop :=
  l.Pairwise fun a b => a.received_at.time < b.received_at.time

/-- A ring of a device, and what it should hold. -/
structure RingOf (cj : Cjson α) (acc : List (Record α)) (slot : Slot α) : Prop where
  in_time : InTime slot.ring
  bounded : slot.ring.length ≤ RING_CAPACITY
  newest : List.Forall₂ (Reread cj) (newest acc) slot.ring
  ring_at : ∀ index : Nat, Option.Rel (Reread cj) (acc.reverse.take RING_CAPACITY)[index]?
    (ring_at slot index)

/-- In every state: no uplink is published twice, and each ring is the one of a device. -/
structure KeepsRings (cj : Cjson α) (site : Site) (devices : List String) (s : Robot α) : Prop where
  once : ∀ d, InTime (publishedOf s d)
  rings : ∀ sp slot, s.slots sp = some slot →
    ∃ d ∈ devices, sp = site.point d ∧ RingOf cj (acceptedOf s d) slot

def ringOf (site : Site) (s : Robot α) (d : String) : List (Record α) :=
  (s.slots (site.point d)).elim [] Slot.ring

/-- The uplink is received later than the newest entry of its ring. -/
def Later (site : Site) (s : Robot α) (up : Uplink α) : Prop :=
  ∀ n, (ringOf site s up.device_id).getLast? = some n → n.received_at.time < up.received_at.time

/-- In every turn of the loop: an uplink that is later than its ring goes into it, and one that waits
and is later stays so, unless one of its device and its time went in. -/
structure TakesLater (cj : Cjson α) (site : Site) (srt : UplinkSort α) (s : Robot α)
    (i : Input α) : Prop where
  appended : ∀ taken up rest s', i = .next taken → s.todo = up :: rest →
    step cj site srt s i = some s' → Later site s up →
      ringOf site s' up.device_id = newest (ringOf site s up.device_id ++ [record_from_uplink up])
  waiting : ∀ taken up rest s', i = .next taken → s.todo = up :: rest →
    step cj site srt s i = some s' → s'.todo = rest ∧ ∀ up' ∈ rest, Later site s up' →
      Later site s' up' ∨
        (up'.device_id = up.device_id ∧ up'.received_at.time = up.received_at.time)

/-! ## When it holds -/

/-- The uplinks of a fetch are of the devices of the run, and no two of one device clash. An uplink
that is taken can be encoded and does not clash with the newest entry of its ring. When the process
ends, the devices that have a ring are listed. -/
def Orderly (cj : Cjson α) (site : Site) (devices : List String) (s : Robot α) : Input α → Prop
  | .fetch none => True
  | .fetch (some ups) => (∀ up ∈ ups, up.device_id ∈ devices) ∧
      ups.Pairwise fun a b => a.device_id = b.device_id → ¬ a.received_at.Clash b.received_at
  | .next _ =>
    match s.todo with
    | [] => True
    | up :: _ => cj.encodes (record_from_uplink up) = true ∧
        (ringOf site s up.device_id).getLast?.all (fun n => ¬ up.received_at.Clash n.received_at)
  | .restart => ∀ up ∈ s.accepted, (site.device_locations.lookup up.device_id).isSome

instance (s : Robot α) (i : Input α) : Decidable (Orderly cj site devices s i) := by
  cases i with
  | fetch body => cases body <;> unfold Orderly <;> infer_instance
  | next taken =>
    unfold Orderly
    dsimp only
    cases s.todo <;> dsimp only <;> infer_instance
  | restart => unfold Orderly; infer_instance

/-! ## Rings -/

variable {β : Type} (l : List β)

theorem newest_append (x : β) : newest (newest l ++ [x]) = newest (l ++ [x]) := by
  unfold newest
  generalize RING_CAPACITY = cap
  rw [← List.drop_append_of_le_length (Nat.sub_le _ _), List.drop_drop, List.length_drop,
    List.length_append, List.length_singleton]
  have hsame : l.length - cap + (l.length + 1 - (l.length - cap) - cap) = l.length + 1 - cap := by
    omega
  rw [hsame]

theorem newest_length : (newest l).length ≤ RING_CAPACITY := by
  unfold newest
  rw [List.length_drop]
  omega

theorem newest_nil : newest ([] : List β) = [] := by
  unfold newest
  exact List.drop_nil

theorem newest_sublist : (newest l).Sublist l := by
  unfold newest
  exact List.drop_sublist _ _

theorem newest_getLast? : (newest l).getLast? = l.getLast? := by
  cases l with
  | nil => rw [newest_nil]
  | cons x l =>
    have hpos : 0 < RING_CAPACITY := by decide
    unfold newest
    generalize RING_CAPACITY = cap at hpos ⊢
    rw [List.getLast?_drop, if_neg]
    rw [List.length_cons]
    omega

variable {γ : Type} {R : β → γ → Prop} {l' : List γ}

theorem newest_forall₂ {l : List β} (h : List.Forall₂ R l l') :
    List.Forall₂ R (newest l) (newest l') := by
  unfold newest
  rw [h.length_eq]
  exact List.forall₂_drop _ h

variable {r : Record α}

theorem reread_encodes {r' : Record α} (h : Reread cj r r') (hr : cj.encodes r = true) :
    cj.encodes r' = true := by
  obtain ⟨n, rfl⟩ := h
  induction n with
  | zero => exact hr
  | succ n ih =>
    rw [Function.iterate_succ_apply']
    exact cj.reread_encodes _ ih

theorem reread_received_at {r' : Record α} (h : Reread cj r r') :
    r'.received_at = r.received_at := by
  obtain ⟨n, rfl⟩ := h
  induction n with
  | zero => rfl
  | succ n ih => rw [Function.iterate_succ_apply', cj.reread_received_at, ih]

theorem reread_refl (r : Record α) : Reread cj r r := ⟨0, rfl⟩

/-- What is written to the disk comes back as the same entries. -/
theorem forall₂_reread {l l' : List (Record α)} (h : List.Forall₂ (Reread cj) l l') :
    List.Forall₂ (Reread cj) l (l'.map cj.reread) := by
  rw [List.forall₂_map_right_iff]
  refine h.imp fun r r' hr => ?_
  obtain ⟨n, rfl⟩ := hr
  exact ⟨n + 1, (Function.iterate_succ_apply' _ _ _).symm⟩

def stamps (l : List (Record α)) : List Stamp := l.map Record.received_at

theorem stamps_eq {l l' : List (Record α)} (h : List.Forall₂ (Reread cj) l l') :
    stamps l' = stamps l := by
  induction h with
  | nil => rfl
  | cons hr _ ih =>
    unfold stamps at ih ⊢
    rw [List.map_cons, List.map_cons, ih, reread_received_at hr]

theorem inTime_iff (l : List (Record α)) :
    InTime l ↔ (stamps l).Pairwise fun a b => a.time < b.time := by
  unfold InTime stamps
  rw [List.pairwise_map]

/-- The last entry of a ring is received when the last accepted uplink is. -/
theorem getLast?_stamp {acc ring : List (Record α)} (h : List.Forall₂ (Reread cj) (newest acc) ring) :
    ring.getLast?.map Record.received_at = acc.getLast?.map Record.received_at := by
  have heq := congrArg List.getLast? (stamps_eq h)
  unfold stamps at heq
  rwa [List.getLast?_map, List.getLast?_map, newest_getLast?] at heq

theorem inTime_append {l : List (Record α)} (h : InTime l)
    (hlast : ∀ n, l.getLast? = some n → n.received_at.time < r.received_at.time) :
    InTime (l ++ [r]) := by
  refine List.pairwise_append.mpr ⟨h, List.pairwise_singleton _ _, ?_⟩
  intro a ha b hb
  rw [List.mem_singleton.mp hb]
  obtain ⟨front, n, rfl⟩ : ∃ front n, l = front ++ [n] := by
    rcases List.eq_nil_or_concat l with rfl | ⟨front, n, hl⟩
    · exact absurd ha List.not_mem_nil
    · exact ⟨front, n, hl.trans List.concat_eq_append⟩
  have hn := hlast n List.getLast?_concat
  rcases List.mem_append.mp ha with hfront | hsame
  · exact ((List.pairwise_append.mp h).2.2 a hfront n List.mem_cons_self).trans hn
  · rw [List.mem_singleton.mp hsame]
    exact hn

theorem ring_at_eq (slot : Slot α) (index : Nat) :
    ring_at slot index = slot.ring.reverse[index]? := by
  unfold ring_at
  split
  · rename_i h
    refine (List.getElem?_eq_none ?_).symm
    rw [List.length_reverse]
    omega
  · rename_i h
    rw [List.getElem?_reverse (by omega)]
    congr 1
    omega

theorem forall₂_getElem? {l : List β} (h : List.Forall₂ R l l') (index : Nat) :
    Option.Rel R l[index]? l'[index]? := by
  induction h generalizing index with
  | nil => exact Option.Rel.none
  | cons hr _ ih =>
    cases index with
    | zero => exact Option.Rel.some hr
    | succ index => exact ih index

theorem forall₂_mem_right {l : List β} (h : List.Forall₂ R l l') {y : γ} (hy : y ∈ l') :
    ∃ x ∈ l, R x y := by
  induction h with
  | nil => exact absurd hy List.not_mem_nil
  | @cons a b l l' hr _ ih =>
    rcases List.mem_cons.mp hy with rfl | hy
    · exact ⟨a, List.mem_cons_self, hr⟩
    · obtain ⟨x, hx, hxy⟩ := ih hy
      exact ⟨x, List.mem_cons_of_mem _ hx, hxy⟩

variable {slot : Slot α}

/-- A ring that holds the newest accepted uplinks is in time when these are. -/
theorem ringOf_of_newest {acc : List (Record α)} (hacc : InTime acc)
    (h : List.Forall₂ (Reread cj) (newest acc) slot.ring) : RingOf cj acc slot := by
  refine ⟨?_, ?_, h, ?_⟩
  · rw [inTime_iff, stamps_eq h, ← inTime_iff]
    exact List.Pairwise.sublist (newest_sublist acc) hacc
  · rw [← h.length_eq]
    exact newest_length acc
  · intro index
    rw [ring_at_eq]
    have hrev := List.forall₂_reverse_iff.mpr h
    unfold newest at hrev
    rw [List.reverse_drop] at hrev
    have htake : acc.reverse.take (acc.length - (acc.length - RING_CAPACITY)) =
        acc.reverse.take RING_CAPACITY := by
      rw [List.take_eq_take_iff, List.length_reverse]
      omega
    rw [htake] at hrev
    exact forall₂_getElem? hrev index

/-! ## Points and files -/

theorem sanitize_append (s t : String) : sanitize (s ++ t) = sanitize s ++ sanitize t := by
  unfold sanitize
  rw [String.toList_append, List.flatMap_append]

theorem path_eq (d : String) : site.path d = String.ofList
    (site.root.toList ++ "/moisture_rings/".toList ++ sanitize site.cls ++ ['_'] ++
      sanitize site.inst ++ ['_'] ++ sanitize (site.point d) ++ ".json".toList) := by
  have hsplit : sanitize (site.point d) = sanitize d ++ ['_'] ++ sanitize (site.location d) := by
    unfold Site.point point
    rw [sanitize_append, sanitize_append]
    rfl
  unfold Site.path slot_path
  rw [hsplit]
  simp only [List.append_assoc]

theorem path_of_point {d d' : String} (h : site.point d = site.point d') :
    site.path d = site.path d' := by
  rw [path_eq, path_eq, h]

variable {x : String × String}

theorem lookup_of_mem {l : List (String × String)} (hkeys : (l.map Prod.fst).Nodup) (hx : x ∈ l) :
    l.lookup x.1 = some x.2 := by
  induction l with
  | nil => exact absurd hx List.not_mem_nil
  | cons y l ih =>
    obtain ⟨k, v⟩ := y
    rw [List.map_cons, List.nodup_cons] at hkeys
    rw [List.lookup_cons]
    rcases List.mem_cons.mp hx with rfl | hx
    · rw [beq_self_eq_true]
    · have hne : x.1 ≠ k := fun h => hkeys.1 (List.mem_map.mpr ⟨x, hx, h⟩)
      rw [beq_false_of_ne hne]
      exact ih hkeys.2 hx

theorem listed_location (hx : x ∈ site.device_locations) : site.location x.1 = x.2 := by
  unfold Site.location
  rw [lookup_of_mem site.keys hx]
  rfl

theorem listed_point (hx : x ∈ site.device_locations) : point x.1 x.2 = site.point x.1 := by
  unfold Site.point
  rw [listed_location hx]

theorem listed_load (hx : x ∈ site.device_locations) (files : Files α) :
    load_slot site files x.1 x.2 = files (site.path x.1) := by
  unfold load_slot Site.path
  rw [listed_location hx]

structure OwnFiles (site : Site) (devices : List String) : Prop where
  listed : ∀ x ∈ site.device_locations, x.1 ∈ devices
  distinct : ∀ d ∈ devices, ∀ d' ∈ devices, site.path d = site.path d' → d = d'

theorem point_inj (hown : OwnFiles site devices) {d d' : String} (hd : d ∈ devices)
    (hd' : d' ∈ devices) (h : site.point d = site.point d') : d = d' :=
  hown.distinct d hd d' hd' (path_of_point h)

variable {files : Files α}

theorem load_mem {sp : String} (h : load_all_slots site files sp = some slot) :
    ∃ x ∈ site.device_locations, sp = site.point x.1 ∧ files (site.path x.1) = some slot := by
  have hall : ∀ sp slot, load_all_slots site files sp = some slot →
      ∃ x ∈ site.device_locations, sp = site.point x.1 ∧ files (site.path x.1) = some slot := by
    refine List.foldlRecOn site.device_locations (load_into site files)
      (motive := fun m => ∀ sp slot, m sp = some slot → ∃ x ∈ site.device_locations,
        sp = site.point x.1 ∧ files (site.path x.1) = some slot) ?_ ?_
    · exact fun _ _ hnone => absurd hnone.symm (Option.some_ne_none _)
    · intro m hm x hx sp slot hslot
      unfold load_into at hslot
      cases hload : load_slot site files x.1 x.2 with
      | some slot' =>
        rw [hload] at hslot
        by_cases hsp : sp = point x.1 x.2
        · dsimp only at hslot
          rw [hsp, Function.update_self, ← hload, listed_load hx] at hslot
          exact ⟨x, hx, hsp.trans (listed_point hx), hslot⟩
        · dsimp only at hslot
          rw [Function.update_of_ne hsp] at hslot
          exact hm sp slot hslot
      | none =>
        rw [hload] at hslot
        exact hm sp slot hslot
  exact hall sp slot h

/-- The entry of a device is not written over by another one. -/
theorem load_keeps (hown : OwnFiles site devices) {y : String × String}
    (hx : x ∈ site.device_locations) (hy : y ∈ site.device_locations)
    (hfile : files (site.path x.1) = some slot) {m : String → Option (Slot α)}
    (hm : m (site.point x.1) = some slot) :
    load_into site files m y (site.point x.1) = some slot := by
  unfold load_into
  cases hload : load_slot site files y.1 y.2 with
  | some slot' =>
    dsimp only
    rw [listed_load hy] at hload
    rw [listed_point hy]
    by_cases hpoint : site.point x.1 = site.point y.1
    · have hdevice := point_inj hown (hown.listed x hx) (hown.listed y hy) hpoint
      rw [← hdevice, hfile] at hload
      rw [← hpoint, Function.update_self, hload]
    · rw [Function.update_of_ne hpoint]
      exact hm
  | none => exact hm

theorem load_listed (hown : OwnFiles site devices) (hx : x ∈ site.device_locations)
    (hfile : files (site.path x.1) = some slot) :
    load_all_slots site files (site.point x.1) = some slot := by
  unfold load_all_slots
  obtain ⟨before, after, hsplit⟩ := List.append_of_mem hx
  rw [hsplit, List.foldl_append, List.foldl_cons]
  refine List.foldlRecOn after (load_into site files)
    (motive := fun m => m (site.point x.1) = some slot) ?_ ?_
  · unfold load_into
    rw [listed_load hx, hfile]
    dsimp only
    rw [listed_point hx, Function.update_self]
  · intro m hm y hy
    have hlisted : y ∈ site.device_locations := by
      rw [hsplit]
      exact List.mem_append_right _ (List.mem_cons_of_mem _ hy)
    exact load_keeps hown hx hlisted hfile hm

end motioncore.farm.soil
