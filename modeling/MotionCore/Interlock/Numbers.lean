-- The numbers of an instance against the numerals of its text. The modifiers of a group are read
-- as they are written, or rejected; the thresholds and the values of the outputs are cut to 16
-- bits before anything looks at them.
import MotionCore.Interlock.WellFormed

open motioncore.views motioncore.machine

namespace motioncore.interlock

/-! ## The numbers that a text writes -/

def Item.threshold : Item → Option Numeral
  | .group _ => none
  | .watch w => some w.threshold
  | .out _ _ => none

def Item.numeral : Item → Option Numeral
  | .group _ => none
  | .watch w => some w.threshold
  | .out _ o => some o.value

/-- The input has the numbers of the group that declares its pin; a virtual input has none. -/
def IlInput.ToldBy (i : IlInput) (items : List Item) : Prop :=
  (i.mode = .virtual ∧ i.hyst = 0 ∧ i.debounce_depth = 0) ∨
    ∃ g : CfgGroup, .group g ∈ items ∧ (∃ label ∈ g.pins.labels, Names label i.phys_id) ∧
      i.hyst.toNat = modValue PRE_HYST g.mods ∧
      i.debounce_depth.toNat = modValue PRE_DEBOUNCE g.mods

/-- The numbers of the instance are the integers that the message writes, and none of these is
too large for its field. -/
structure Message.Exact (m : Message) (inst : IlInst) : Prop where
  thresholds : inst.watches.map (·.threshold.toNat) =
    m.items.filterMap fun it => it.threshold.map Numeral.value
  inputs : ∀ i ∈ inst.inputs, i.ToldBy m.items
  outputs : ∀ o ∈ inst.outputs, ∀ is_ok,
    (o.value is_ok).toNat = ((lastSet is_ok o.phys_id m.items).map Numeral.value).getD 0
  bits : ∀ is_ok o, .out is_ok o ∈ m.items → o.value.value ≤ 1

/-- The numbers of what a text makes are the integers that it writes. -/
def KeepsNumbers (text : DslText) : Prop :=
  ∀ inst, ilParse text = .ok inst → ∃ m, Reads text m inst ∧ m.Exact inst

/-- No numeral of the text is too large for 16 bits. -/
def NumeralsFit (text : DslText) : Prop :=
  ∀ m inst, Reads text m inst → ∀ it ∈ m.items, ∀ n, it.numeral = some n → n.value < 2 ^ 16

/-! ## What each item writes -/

theorem Numeral.stored_toNat {n : Numeral} (h : n.value < 2 ^ 16) : n.stored.toNat = n.value :=
  UInt16.toNat_ofNat_of_lt' h

structure NumbersSoFar (items : List Item) (inst : IlInst) : Prop where
  thresholds : inst.watches.map (·.threshold) =
    items.filterMap fun it => it.threshold.map Numeral.stored
  inputs : ∀ i ∈ inst.inputs, i.ToldBy items

variable {items : List Item}

theorem IlInput.ToldBy.append {i : IlInput} (h : i.ToldBy items) (more : List Item) :
    i.ToldBy (items ++ more) := by
  rcases h with h | ⟨g, hg, hrest⟩
  · exact .inl h
  · exact .inr ⟨g, List.mem_append_left _ hg, hrest⟩

variable {inst inst' : IlInst}

theorem NumbersSoFar.group {g : CfgGroup} (h : NumbersSoFar items inst)
    (hbuild : g.build inst = some inst') : NumbersSoFar (items ++ [.group g]) inst' := by
  have hstart : NumbersSoFar (items ++ [.group g]) inst := by
    refine ⟨?_, fun i hi => (h.inputs i hi).append _⟩
    rw [List.filterMap_append, h.thresholds]
    exact (List.append_nil _).symm
  refine CfgGroup.build_inv (fun cfg label s s' _ htells hlabel hs hrec => ?_) hstart hbuild
  cases hrec with
  | output phys_id names fresh mode name inputs watches outputs =>
    exact ⟨watches ▸ hs.thresholds, inputs ▸ hs.inputs⟩
  | input phys_id names fresh mode name inputs watches outputs =>
    refine ⟨watches ▸ hs.thresholds, ?_⟩
    rw [inputs]
    intro i hi
    rcases List.mem_append.mp hi with hi | hi
    · exact hs.inputs i hi
    · rw [List.mem_singleton.mp hi]
      exact .inr ⟨g, List.mem_append_right _ List.mem_cons_self, ⟨label, hlabel, names⟩,
        htells.hyst, htells.debounce⟩

theorem NumbersSoFar.watch {w : WatchItem} (h : NumbersSoFar items inst)
    (hwatch : Watching w inst inst') : NumbersSoFar (items ++ [.watch w]) inst' := by
  obtain ⟨found, idx, op, hfound, -, -, -, hinputs, -, hwatches⟩ := hwatch
  have hf : found.watches = inst.watches ∧ ∀ i ∈ found.inputs, i.ToldBy items := by
    cases hfound with
    | there same lt =>
      subst same
      exact ⟨rfl, h.inputs⟩
    | first virt_id virt fresh last name inputs watches outputs =>
      refine ⟨watches, ?_⟩
      rw [inputs]
      intro i hi
      rcases List.mem_append.mp hi with hi | hi
      · exact h.inputs i hi
      · rw [List.mem_singleton.mp hi]
        exact .inl ⟨rfl, rfl, rfl⟩
  refine ⟨?_, hinputs ▸ fun i hi => (hf.2 i hi).append _⟩
  rw [hwatches, List.map_append, hf.1, h.thresholds, List.filterMap_append]
  rfl

theorem NumbersSoFar.out {is_ok : Bool} {o : OutItem} (h : NumbersSoFar items inst)
    (hset : Setting is_ok o inst inst') : NumbersSoFar (items ++ [.out is_ok o]) inst' := by
  refine ⟨?_, hset.inputs ▸ fun i hi => (h.inputs i hi).append _⟩
  rw [hset.watches, h.thresholds, List.filterMap_append]
  exact (List.append_nil _).symm

theorem NumbersSoFar.step {it : Item} (h : NumbersSoFar items inst)
    (hbuild : it.build inst = some inst') : NumbersSoFar (items ++ [it]) inst' := by
  cases it with
  | group g => exact h.group hbuild
  | watch w => exact h.watch (WatchItem.build_cases hbuild)
  | out is_ok o => exact h.out (OutItem.build_cases hbuild)

theorem Reads.numbers {text : List UInt8} {m : Message} (h : Reads text m inst) :
    NumbersSoFar m.items inst := by
  obtain ⟨hlen, made, hrun, rfl, -⟩ := Message.build_runs h.makes
  have hstart : NumbersSoFar [] (.named m.name hlen) := ⟨rfl, nofun⟩
  have hsofar : NumbersSoFar m.items made :=
    inv_history (P := fun _ _ => True) (I := NumbersSoFar) (fun _ _ _ _ hI _ ht => hI.step ht)
      hstart (Meets.of_forall (fun _ _ => trivial) _ _) hrun
  exact ⟨hsofar.thresholds, hsofar.inputs⟩

/-! ## Numbers that are kept -/

/-- The numbers of a text are kept exactly when none of its numerals is too large for 16 bits. -/
theorem keeps_numbers_iff (text : DslText) : KeepsNumbers text ↔ NumeralsFit text := by
  constructor
  · intro h m inst hreads it hit n hn
    obtain ⟨m', hreads', hexact⟩ := h inst (ilParse_iff.mpr ⟨m, hreads⟩)
    obtain ⟨rfl, -⟩ := hreads.unique hreads'
    cases it with
    | group g => exact nomatch hn
    | watch w =>
      have hmem : n.value ∈ inst.watches.map (·.threshold.toNat) := by
        rw [hexact.thresholds]
        exact List.mem_filterMap.mpr ⟨.watch w, hit, congrArg (Option.map Numeral.value) hn⟩
      obtain ⟨v, -, hv⟩ := List.mem_map.mp hmem
      rw [← hv]
      exact v.threshold.toNat_lt
    | out is_ok o =>
      obtain rfl := Option.some.inj hn
      exact Nat.lt_of_le_of_lt (hexact.bits is_ok o hit) (by decide)
  · intro h inst hok
    obtain ⟨m, hreads⟩ := ilParse_iff.mp hok
    have hfit := h m inst hreads
    have hsofar := hreads.made.2.1
    have hnums := hreads.numbers
    refine ⟨m, hreads, ?_, hnums.inputs, fun o ho is_ok => ?_, fun is_ok o hit => ?_⟩
    · have hmap : inst.watches.map (·.threshold.toNat) =
          (inst.watches.map (·.threshold)).map UInt16.toNat := by rw [List.map_map]; rfl
      rw [hmap, hnums.thresholds, List.map_filterMap]
      refine List.filterMap_congr fun it hit => ?_
      cases it with
      | group g => rfl
      | watch w => exact congrArg some (Numeral.stored_toNat (hfit _ hit _ rfl))
      | out is_ok o => rfl
    · rw [hsofar.values o ho is_ok]
      cases hlast : lastSet is_ok o.phys_id m.items with
      | none => rfl
      | some n =>
        obtain ⟨it, hit, -, rfl⟩ := lastSet_some hlast
        exact Numeral.stored_toNat (hfit _ hit _ rfl)
    · have hbit := UInt16.le_iff_toNat_le.mp (hsofar.bits is_ok o hit)
      rw [Numeral.stored_toNat (hfit _ hit _ rfl)] at hbit
      exact hbit

def largeText : List UInt8 :=
  ascii ['x', ';', 'c', 'f', 'g', '[', 'A', '1', ':', 'a', 'd', 'c', ']', ';', 'w', 'a', 't', 'c',
    'h', '[', 'A', '1', ':', 'g', 't', ':', '6', '5', '5', '3', '7', ']']

def largeMessage : Message where
  name := ascii ['x']
  sections :=
    [.cfg ⟨.one (ascii ['A', '1']), KW_ADC, []⟩ [] false,
      .watch ⟨ascii ['A', '1'], some (ascii ['g', 't']), .dec (ascii ['6', '5', '5', '3', '7'])⟩ []]

set_option maxRecDepth 16000 in
/-- A threshold of 65537 becomes 1. -/
theorem large_threshold_becomes_one : ¬ ∀ text, KeepsNumbers text := by
  intro h
  have hspells : tokens largeText = largeMessage.print TWO_COMMAS := by decide
  have hbuild : (largeMessage.build.map fun i => i.watches.map (·.threshold.toNat)) = some [1] := by
    decide
  obtain ⟨inst, hinst, hone⟩ := Option.map_eq_some_iff.mp hbuild
  have hreads : Reads largeText largeMessage inst := ⟨hspells, hinst⟩
  obtain ⟨m, hreads', hexact⟩ :=
    h ⟨largeText, by decide⟩ inst (ilParse_iff.mpr ⟨_, hreads⟩)
  obtain ⟨rfl, -⟩ := hreads.unique hreads'
  have hwritten := hone.symm.trans hexact.thresholds
  exact absurd hwritten (by decide)

end motioncore.interlock
