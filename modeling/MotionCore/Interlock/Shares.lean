-- What the claims of an interlock give to its slot: the same shares of the same pins
-- on every chip where they succeed, also when the slot has them already.
import MotionCore.Interlock.Claims

namespace motioncore.interlock

/-! ## Shares that are set one after the other -/

def sharesOf (k : SlotIx) (p : Pins) : Fin HAL_PIN_TABLE_SIZE → Option Share :=
  fun i => (p.claims i).share k

def sharesAfter : List (Fin HAL_PIN_TABLE_SIZE × Share) →
    (Fin HAL_PIN_TABLE_SIZE → Option Share) → Fin HAL_PIN_TABLE_SIZE → Option Share
  | [], f => f
  | (i, share) :: rest, f => sharesAfter rest (Function.update f i (some share))

theorem sharesAfter_append (l m : List (Fin HAL_PIN_TABLE_SIZE × Share))
    (f : Fin HAL_PIN_TABLE_SIZE → Option Share) :
    sharesAfter (l ++ m) f = sharesAfter m (sharesAfter l f) := by
  induction l generalizing f with
  | nil => rfl
  | cons x l ih => exact ih _

variable {i : Fin HAL_PIN_TABLE_SIZE}

theorem sharesAfter_untouched {l : List (Fin HAL_PIN_TABLE_SIZE × Share)} (h : i ∉ l.map Prod.fst)
    (f : Fin HAL_PIN_TABLE_SIZE → Option Share) : sharesAfter l f i = f i := by
  induction l generalizing f with
  | nil => rfl
  | cons x l ih =>
    rw [List.map_cons, List.mem_cons, not_or] at h
    unfold sharesAfter
    rw [ih h.2, Function.update_of_ne h.1]

theorem sharesAfter_touched {l : List (Fin HAL_PIN_TABLE_SIZE × Share)} (h : i ∈ l.map Prod.fst)
    (f g : Fin HAL_PIN_TABLE_SIZE → Option Share) : sharesAfter l f i = sharesAfter l g i := by
  induction l generalizing f g with
  | nil => exact nomatch h
  | cons x l ih =>
    unfold sharesAfter
    by_cases hl : i ∈ l.map Prod.fst
    · exact ih hl _ _
    · rw [List.map_cons, List.mem_cons] at h
      obtain rfl := h.resolve_right hl
      rw [sharesAfter_untouched hl, sharesAfter_untouched hl, Function.update_self,
        Function.update_self]

/-- Setting the same shares again changes nothing. -/
theorem sharesAfter_again (l : List (Fin HAL_PIN_TABLE_SIZE × Share))
    (f : Fin HAL_PIN_TABLE_SIZE → Option Share) :
    sharesAfter l (sharesAfter l f) = sharesAfter l f := by
  funext i
  by_cases h : i ∈ l.map Prod.fst
  · exact sharesAfter_touched h _ _
  · exact sharesAfter_untouched h _

/-! ## What each claim sets -/

/-- Where the claim succeeds it sets the same shares, whatever the table was. -/
def Sets (k : SlotIx) (claim : Pins → Pins × ClaimStatus) : Prop :=
  ∃ l, ∀ p p', claim p = (p', .ok) → sharesOf k p' = sharesAfter l (sharesOf k p)

theorem Sets.of_never {k : SlotIx} {claim : Pins → Pins × ClaimStatus}
    (h : ∀ p, (claim p).2 ≠ .ok) : Sets k claim :=
  ⟨[], fun p p' hok => absurd (by rw [hok]) (h p)⟩

variable {p p' : Pins}

theorem sharesOf_update {k : SlotIx} {c : PinClaim} {share : Share}
    (hp : p'.claims = Function.update p.claims i c) (hc : c.share k = some share) :
    sharesOf k p' = sharesAfter [(i, share)] (sharesOf k p) := by
  funext j
  change (p'.claims j).share k = Function.update (sharesOf k p) i (some share) j
  rw [hp]
  by_cases hj : j = i
  · subst hj
    rw [Function.update_self, Function.update_self, hc]
  · rw [Function.update_of_ne hj, Function.update_of_ne hj]
    rfl

theorem share_owned {c : PinClaim} {k : SlotIx} (h : c.slot_mask k = true) : c.share k = some
      { mode := c.mode
        ok_value := c.ok_value
        err_value := c.err_value
        adc :=
          if c.mode = .adcScan then some (c.oversample_exp, c.sh_cyc, c.adc_channel)
          else none } := if_pos h

theorem Sets.of_one {k : SlotIx} {claim : Pins → Pins × ClaimStatus} (i : Fin HAL_PIN_TABLE_SIZE)
    (share : Share) (h : ∀ p, Refused p (claim p) ∨ ∃ p' c, claim p = (p', .ok) ∧
      p'.claims = Function.update p.claims i c ∧ c.share k = some share) : Sets k claim := by
  refine ⟨[(i, share)], fun p p' hok => ?_⟩
  rcases h p with hrefused | ⟨q, c, hq, hset, hshare⟩
  · exact absurd (congrArg Prod.snd hok) hrefused.2
  · obtain ⟨rfl, -⟩ := Prod.mk.inj (hq.symm.trans hok)
    exact sharesOf_update hset hshare

variable (phys_id : UInt8) (k : SlotIx)

theorem halPinClaim_sets (mode : HalPinMode) : Sets k fun p => halPinClaim p phys_id k mode := by
  by_cases htakes : ∃ i, TakesInput phys_id mode i
  · obtain ⟨i, hi⟩ := htakes
    refine .of_one i ⟨mode, 0, 0, none⟩ fun p => ?_
    refine (halPinClaim_cases p phys_id k mode).imp_right fun ⟨j, hj, _, hok⟩ => ?_
    obtain rfl := Option.some.inj (hi.place.symm.trans hj.place)
    refine ⟨_, _, hok, rfl, ?_⟩
    rw [share_owned (slotBit_self k)]
    dsimp only
    rw [if_neg fun hmode => hi.input (Or.inr (Or.inr hmode))]
  · refine .of_never fun p => ?_
    rcases halPinClaim_cases p phys_id k mode with hrefused | ⟨i, hi, -⟩
    · exact hrefused.2
    · exact absurd ⟨i, hi⟩ htakes

theorem halPinClaimAdc_sets (oversample sh : UInt8) :
    Sets k fun p => halPinClaimAdc p phys_id k oversample sh := by
  by_cases htakes : ∃ i channel, TakesAdc phys_id oversample sh channel i
  · obtain ⟨i, channel, hi⟩ := htakes
    refine .of_one i ⟨.adcScan, 0, 0, some (oversample, sh, channel)⟩ fun p => ?_
    refine (halPinClaimAdc_cases p phys_id k oversample sh).imp_right
      fun ⟨j, channel', hj, _, _, hok⟩ => ?_
    obtain rfl := Option.some.inj (hi.place.symm.trans hj.place)
    obtain ⟨bp, hbp, -, -, rfl⟩ := hi.pin
    obtain ⟨bp', hbp', -, -, rfl⟩ := hj.pin
    obtain rfl := Option.some.inj (hbp.symm.trans hbp')
    refine ⟨_, _, hok, rfl, ?_⟩
    rw [share_owned (slotBit_self k)]
    rfl
  · refine .of_never fun p => ?_
    rcases halPinClaimAdc_cases p phys_id k oversample sh with hrefused | ⟨i, channel, hi, -⟩
    · exact hrefused.2
    · exact absurd ⟨i, channel, hi⟩ htakes

theorem halPinClaimOutput_sets (ok_value err_value : UInt8) :
    Sets k fun p => halPinClaimOutput p phys_id k ok_value err_value := by
  by_cases htakes : ∃ i, TakesOutput phys_id ok_value err_value i
  · obtain ⟨i, hi⟩ := htakes
    refine .of_one i ⟨.gpioOut, ok_value, err_value, none⟩ fun p => ?_
    refine (halPinClaimOutput_cases p phys_id k ok_value err_value).imp_right fun ⟨j, hj, h⟩ => ?_
    obtain rfl := Option.some.inj (hi.place.symm.trans hj.place)
    rcases h with ⟨hout, hok⟩ | ⟨-, hok⟩
    · refine ⟨_, _, hok, rfl, ?_⟩
      have hmask : ((p.claims i).slot_mask k || slotBit k k) = true := by
        rw [slotBit_self, Bool.or_true]
      rw [share_owned hmask]
      dsimp only
      rw [hout.mode, hout.ok_value, hout.err_value]
      rfl
    · refine ⟨_, _, hok, rfl, ?_⟩
      rw [share_owned (slotBit_self k)]
      rfl
  · refine .of_never fun p => ?_
    rcases halPinClaimOutput_cases p phys_id k ok_value err_value with hrefused | ⟨i, hi, -⟩
    · exact hrefused.2
    · exact absurd ⟨i, hi⟩ htakes

theorem claimInput_sets (i : IlInput) : Sets k (claimInput k i) := by
  unfold claimInput
  cases i.mode with
  | virtual =>
    refine ⟨[], fun p p' hok => ?_⟩
    rw [Prod.mk.injEq] at hok
    rw [← hok.1]
    rfl
  | adc => exact halPinClaimAdc_sets _ _ _ _
  | output => exact .of_never fun p h => nomatch h
  | input => exact halPinClaim_sets _ _ _
  | inputPullUp => exact halPinClaim_sets _ _ _
  | inputPullDown => exact halPinClaim_sets _ _ _

theorem claimEach_sets {k : SlotIx} {claims : List (Pins → Pins × ClaimStatus)}
    (h : ∀ c ∈ claims, Sets k c) : Sets k (claimEach claims) := by
  induction claims with
  | nil =>
    refine ⟨[], fun p p' hok => ?_⟩
    unfold claimEach at hok
    rw [Prod.mk.injEq] at hok
    rw [← hok.1]
    rfl
  | cons c cs ih =>
    obtain ⟨l, hl⟩ := h c List.mem_cons_self
    obtain ⟨m, hm⟩ := ih fun d hd => h d (List.mem_cons_of_mem _ hd)
    refine ⟨l ++ m, fun p p' hok => ?_⟩
    unfold claimEach at hok
    split at hok
    · rename_i p1 hp1
      rw [hm p1 p' hok, hl p p1 hp1, sharesAfter_append]
    · rename_i hne
      exact absurd hok (hne p')

variable {inst : IlInst}

theorem claimInstPins_ok {k : SlotIx} (h : claimInstPins p k inst = (p', .ok)) :
    claimEach (claimsOf k inst) p = (p', .ok) := by
  unfold claimInstPins at h
  split at h
  · rename_i hp
    rw [hp, h]
  · rename_i hne _
    rw [Prod.mk.injEq] at h
    exact absurd h.2 hne

theorem claimsOf_sets (inst : IlInst) : ∀ c ∈ claimsOf k inst, Sets k c := by
  intro c hc
  unfold claimsOf at hc
  rw [List.mem_append, List.mem_map, List.mem_map] at hc
  rcases hc with ⟨i, _, rfl⟩ | ⟨o, _, rfl⟩
  · exact claimInput_sets k i
  · exact halPinClaimOutput_sets o.phys_id k o.ok_value o.err_value

theorem claimInstPins_sets (inst : IlInst) : Sets k fun p => claimInstPins p k inst := by
  obtain ⟨l, hl⟩ := claimEach_sets (claimsOf_sets k inst)
  exact ⟨l, fun p p' hok => hl p p' (claimInstPins_ok hok)⟩

variable {q : Pins}

/-- The claims of an interlock give its slot the same shares on every chip. -/
theorem same_shares {k : SlotIx} {q' : Pins} (hp : claimInstPins p k inst = (p', .ok))
    (hq : claimInstPins q k inst = (q', .ok)) (h : sharesOf k p = sharesOf k q) :
    sharesOf k p' = sharesOf k q' := by
  obtain ⟨l, hl⟩ := claimInstPins_sets k inst
  rw [hl p p' hp, hl q q' hq, h]

theorem same_shares_again {k : SlotIx} {q' : Pins} (hp : claimInstPins p k inst = (p', .ok))
    (hq : claimInstPins q k inst = (q', .ok)) (h : sharesOf k p = sharesOf k q') :
    sharesOf k p' = sharesOf k q' := by
  obtain ⟨l, hl⟩ := claimInstPins_sets k inst
  rw [hl p p' hp, h, hl q q' hq, sharesAfter_again]

/-! ## A chip of its own -/

/-- On `q` nobody but the slot `k` has a share, and `k` has the shares that it has on `p`. -/
structure Alone (k : SlotIx) (q p : Pins) : Prop where
  alone : ∀ i k', k' ≠ k → (q.claims i).slot_mask k' = false
  same : ∀ i, (q.claims i).share k = (p.claims i).share k

theorem Alone.not_taken {k : SlotIx} (h : Alone k q p) (i : Fin HAL_PIN_TABLE_SIZE) :
    ¬ (q.claims i).takenFrom k = true := by
  have hne : ∀ k : SlotIx, 1 - k ≠ k := by decide
  unfold PinClaim.takenFrom
  rw [h.alone i (1 - k) (hne k)]
  exact Bool.false_ne_true

/-- A claim that succeeds among others succeeds alone. -/
def OkAlone (k : SlotIx) (claim : Pins → Pins × ClaimStatus) : Prop :=
  ∀ q p, Alone k q p → (claim p).2 = .ok → (claim q).2 = .ok

theorem halPinClaim_okAlone (mode : HalPinMode) :
    OkAlone k fun p => halPinClaim p phys_id k mode := by
  intro q p h hok
  rcases halPinClaim_cases p phys_id k mode with hrefused | ⟨i, htakes, -⟩
  · exact absurd hok hrefused.2
  · exact congrArg Prod.snd (halPinClaim_ok htakes (h.not_taken i))

theorem halPinClaimAdc_okAlone (oversample sh : UInt8) :
    OkAlone k fun p => halPinClaimAdc p phys_id k oversample sh := by
  intro q p h hok
  rcases halPinClaimAdc_cases p phys_id k oversample sh with
    hrefused | ⟨i, channel, htakes, -, hown, -⟩
  · exact absurd hok hrefused.2
  · have hown' : ¬ (q.claims i).usedBy k := by
      rintro ⟨hm, hne⟩
      obtain ⟨hmd, _⟩ := values_of_share (h.same i).symm hm
      exact hown ⟨(mask_of_share (h.same i)).symm.trans hm, hmd ▸ hne⟩
    exact congrArg Prod.snd (halPinClaimAdc_ok htakes (h.not_taken i) hown')

theorem halPinClaimOutput_okAlone (ok_value err_value : UInt8) :
    OkAlone k fun p => halPinClaimOutput p phys_id k ok_value err_value := by
  intro q p h hok
  rcases halPinClaimOutput_cases p phys_id k ok_value err_value with
    hrefused | ⟨i, htakes, hp⟩
  · exact absurd hok hrefused.2
  · by_cases hc : (q.claims i).claimed = true
    · -- only `k` can be the owner, and then the pin is the same output on `p`
      have hm : (q.claims i).slot_mask k = true := by
        obtain ⟨k', hk'⟩ := (claimed_iff _).mp hc
        by_cases hkk : k' = k
        · exact hkk ▸ hk'
        · exact absurd (hk'.symm.trans (h.alone i k' hkk)) (by decide)
      have hpm := (mask_of_share (h.same i)).symm.trans hm
      obtain ⟨hmd, hv, he⟩ := values_of_share (h.same i) hpm
      rcases hp with ⟨hout, -⟩ | ⟨hfree, -⟩
      · exact congrArg Prod.snd (halPinClaimOutput_shares htakes
          ⟨hc, hmd.trans hout.mode, hv.trans hout.ok_value, he.trans hout.err_value⟩)
      · exact absurd ((claimed_iff _).mpr ⟨k, hpm⟩) hfree
    · exact congrArg Prod.snd (halPinClaimOutput_new htakes hc)

theorem claimInput_okAlone (i : IlInput) : OkAlone k (claimInput k i) := by
  unfold claimInput
  cases i.mode with
  | virtual => exact fun _ _ _ hok => hok
  | adc => exact halPinClaimAdc_okAlone _ _ _ _
  | output => exact fun _ _ _ hok => nomatch hok
  | input => exact halPinClaim_okAlone _ _ _
  | inputPullUp => exact halPinClaim_okAlone _ _ _
  | inputPullDown => exact halPinClaim_okAlone _ _ _

theorem claimsOf_okAlone (inst : IlInst) : ∀ c ∈ claimsOf k inst, OkAlone k c := by
  intro c hc
  unfold claimsOf at hc
  rw [List.mem_append, List.mem_map, List.mem_map] at hc
  rcases hc with ⟨i, _, rfl⟩ | ⟨o, _, rfl⟩
  · exact claimInput_okAlone k i
  · exact halPinClaimOutput_okAlone o.phys_id k o.ok_value o.err_value

/-- A claim that succeeds on both keeps the one chip a part of the other. -/
theorem Alone.claim {k : SlotIx} {outs : List IlOutput} {claim : Pins → Pins × ClaimStatus}
    {q p q' p' : Pins} (h : Alone k q p) (hsets : Sets k claim)
    (hstep : TableStep k outs q (claim q).1) (hq : claim q = (q', .ok))
    (hp : claim p = (p', .ok)) : Alone k q' p' := by
  rw [hq] at hstep
  refine ⟨fun i k' hk' => ?_, fun i => ?_⟩
  · rw [mask_of_share ((hstep i).others k' hk')]
    exact h.alone i k' hk'
  · obtain ⟨l, hl⟩ := hsets
    have hsame : sharesOf k q = sharesOf k p := funext h.same
    have hafter : sharesOf k q' = sharesOf k p' := by rw [hl q q' hq, hl p p' hp, hsame]
    exact congrFun hafter i

theorem claimEach_alone {k : SlotIx} {outs : List IlOutput}
    {claims : List (Pins → Pins × ClaimStatus)} (hok : ∀ c ∈ claims, OkAlone k c)
    (hsets : ∀ c ∈ claims, Sets k c) (hsteps : ∀ c ∈ claims, ∀ p, TableStep k outs p (c p).1)
    {q p p' : Pins} (h : Alone k q p) (hp : claimEach claims p = (p', .ok)) :
    ∃ q', claimEach claims q = (q', .ok) := by
  induction claims generalizing q p with
  | nil => exact ⟨q, rfl⟩
  | cons c cs ih =>
    unfold claimEach at hp
    split at hp
    · rename_i p1 hp1
      have hmem := List.mem_cons_self (a := c) (l := cs)
      have hq : (c q).2 = .ok := hok c hmem q p h (by rw [hp1])
      have hq1 : c q = ((c q).1, .ok) := by rw [← hq]
      have h1 := h.claim (hsets c hmem) (hsteps c hmem q) hq1 hp1
      obtain ⟨q', hq'⟩ := ih (fun d hd => hok d (List.mem_cons_of_mem _ hd))
        (fun d hd => hsets d (List.mem_cons_of_mem _ hd))
        (fun d hd => hsteps d (List.mem_cons_of_mem _ hd)) h1 hp
      refine ⟨q', ?_⟩
      unfold claimEach
      rw [hq1]
      exact hq'
    · rename_i hne
      exact absurd hp (hne p')

/-- Claims that succeed for a slot without pins succeed on a chip that was just reset,
and give the same shares there. -/
theorem claims_on_a_cold_chip {k : SlotIx} (hnone : ∀ i, (p.claims i).slot_mask k = false)
    (hp : claimInstPins p k inst = (p', .ok)) :
    ∃ q, claimInstPins .boot k inst = (q, .ok) ∧ sharesOf k p' = sharesOf k q := by
  have halone : Alone k .boot p := by
    refine ⟨fun _ _ _ => rfl, fun i => ?_⟩
    rw [share_none.mpr (hnone i)]
    rfl
  obtain ⟨q, hq⟩ := claimEach_alone (claimsOf_okAlone k inst) (claimsOf_sets k inst)
    (claimsOf_step k inst) halone (claimInstPins_ok hp)
  have hboot : claimInstPins .boot k inst = (q, .ok) := by
    unfold claimInstPins
    rw [hq]
  exact ⟨q, hboot, same_shares hp hboot (funext fun i => (halone.same i).symm)⟩

end motioncore.interlock
