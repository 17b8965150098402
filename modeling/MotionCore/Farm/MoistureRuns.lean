-- The runs of the moisture robot. What is in memory and what is on the disk fit what was accepted
-- of each device; a fetch, a turn of its loop and a restart keep that, so every run does.
import MotionCore.Farm.MoistureRings

open motioncore.machine motioncore.stamps

namespace motioncore.farm.soil

variable {α : Type} {cj : Cjson α} {site : Site} {srt : UplinkSort α} {devices : List String}

/-! ## The invariant -/

/-- A slot of a device, in memory or in its file, with what was accepted of the device. -/
def Fits (cj : Cjson α) (site : Site) (d : String) (acc : List (Record α)) :
    Option (Slot α) → Prop
  | some slot => slot.device = d ∧ slot.location = site.location d ∧
      List.Forall₂ (Reread cj) (newest acc) slot.ring
  | none => acc = []

theorem fits_some {d : String} {acc ring : List (Record α)}
    (h : List.Forall₂ (Reread cj) (newest acc) ring) :
    Fits cj site d acc (some ⟨d, site.location d, ring⟩) := ⟨rfl, rfl, h⟩

structure Good (cj : Cjson α) (site : Site) (devices : List String) (s : Robot α) : Prop where
  files : ∀ d ∈ devices, Fits cj site d (acceptedOf s d) (s.files (site.path d))
  slots : s.hydrated = true → ∀ d ∈ devices,
    Fits cj site d (acceptedOf s d) (s.slots (site.point d))
  points : ∀ sp slot, s.slots sp = some slot → ∃ d ∈ devices, sp = site.point d
  cold : s.hydrated = false → (∀ sp, s.slots sp = none) ∧ s.todo = [] ∧
    ∀ up ∈ s.accepted, (site.device_locations.lookup up.device_id).isSome
  in_time : ∀ d, InTime (acceptedOf s d)
  encodes : ∀ up ∈ s.accepted, cj.encodes (record_from_uplink up) = true
  published : ∀ d, (publishedOf s d).Sublist (acceptedOf s d)
  waiting : s.todo.Pairwise fun a b =>
    a.device_id = b.device_id → a.received_at.time ≤ b.received_at.time
  known : ∀ up ∈ s.todo, up.device_id ∈ devices

theorem good_init : Good cj site devices (.init : Robot α) where
  files _ _ := rfl
  slots h := Bool.noConfusion h
  points _ _ h := absurd h.symm (Option.some_ne_none _)
  cold _ := ⟨fun _ => rfl, rfl, fun _ h => absurd h List.not_mem_nil⟩
  in_time _ := List.Pairwise.nil
  encodes _ h := absurd h List.not_mem_nil
  published _ := List.Sublist.refl _
  waiting := List.Pairwise.nil
  known _ h := absurd h List.not_mem_nil

theorem Good.keepsRings {s : Robot α} (h : Good cj site devices s) :
    KeepsRings cj site devices s := by
  refine ⟨fun d => ?_, fun sp slot hslot => ?_⟩
  · exact List.Pairwise.sublist (h.published d) (h.in_time d)
  · obtain ⟨d, hd, rfl⟩ := h.points sp slot hslot
    have hwarm : s.hydrated = true := by
      cases hcold : s.hydrated with
      | true => rfl
      | false => exact absurd (hslot.symm.trans ((h.cold hcold).1 _)) (Option.some_ne_none _)
    have hfits := h.slots hwarm d hd
    rw [hslot] at hfits
    exact ⟨d, hd, rfl, ringOf_of_newest (h.in_time d) hfits.2.2⟩

/-! ## A fetch -/

theorem mem_acceptedOf {s : Robot α} {d : String} {r : Record α} (h : r ∈ acceptedOf s d) :
    ∃ up ∈ s.accepted, up.device_id = d ∧ record_from_uplink up = r := by
  obtain ⟨up, hup, hr⟩ := List.mem_map.mp h
  obtain ⟨hmem, hd⟩ := List.mem_filter.mp hup
  exact ⟨up, hmem, of_decide_eq_true hd, hr⟩

/-- After a restart a listed device has the ring of its file, and the others have no uplinks. -/
theorem load_fits (hown : OwnFiles site devices) {s : Robot α} (h : Good cj site devices s)
    (hcold : s.hydrated = false) {d : String} (hd : d ∈ devices) :
    Fits cj site d (acceptedOf s d) (load_all_slots site s.files (site.point d)) := by
  cases hload : load_all_slots site s.files (site.point d) with
  | some slot =>
    obtain ⟨x, hx, hpoint, hfile⟩ := load_mem hload
    obtain rfl := point_inj hown hd (hown.listed x hx) hpoint
    have hfits := h.files x.1 hd
    rw [hfile] at hfits
    exact hfits
  | none =>
    have hfits := h.files d hd
    cases hfile : s.files (site.path d) with
    | none =>
      rw [hfile] at hfits
      exact hfits
    | some slot =>
      refine List.eq_nil_iff_forall_not_mem.mpr fun r hr => ?_
      obtain ⟨up, hup, rfl, -⟩ := mem_acceptedOf hr
      obtain ⟨location, hlookup⟩ := Option.isSome_iff_exists.mp ((h.cold hcold).2.2 up hup)
      have hx : (up.device_id, location) ∈ site.device_locations := by
        obtain ⟨before, after, hsplit, -⟩ := List.lookup_eq_some_iff.mp hlookup
        rw [hsplit]
        exact List.mem_append_right _ List.mem_cons_self
      exact Option.some_ne_none _ ((load_listed hown hx hfile).symm.trans hload)

theorem hydrate_good (hown : OwnFiles site devices) {s : Robot α} (h : Good cj site devices s) :
    Good cj site devices (hydrate site s) ∧ (hydrate site s).hydrated = true := by
  unfold hydrate
  cases hcold : s.hydrated with
  | true => exact ⟨h, hcold⟩
  | false =>
    obtain ⟨hnone, htodo, hlisted⟩ := h.cold hcold
    refine ⟨⟨h.files, fun _ d hd => ?_, fun sp slot hslot => ?_, fun hwarm => Bool.noConfusion hwarm,
      h.in_time, h.encodes, h.published, h.waiting, h.known⟩, rfl⟩
    · change Fits cj site d _ ((s.slots (site.point d)).or _)
      rw [hnone]
      exact load_fits hown h hcold hd
    · change (s.slots sp).or _ = some slot at hslot
      rw [hnone] at hslot
      obtain ⟨x, hx, hsp, -⟩ := load_mem hslot
      exact ⟨x.1, hown.listed x hx, hsp⟩

/-- The uplinks of a fetch are taken in the order of time, device by device. -/
theorem sorted_waiting (srt : UplinkSort α) {ups : List (Uplink α)}
    (hclash : ups.Pairwise fun a b => a.device_id = b.device_id →
      ¬ a.received_at.Clash b.received_at) : (srt.sort ups).Pairwise fun a b =>
      a.device_id = b.device_id → a.received_at.time ≤ b.received_at.time := by
  have hsymm : ∀ {a b : Uplink α}, (a.device_id = b.device_id →
      ¬ a.received_at.Clash b.received_at) → b.device_id = a.device_id →
        ¬ b.received_at.Clash a.received_at := fun h heq hc => h heq.symm hc.symm
  have hperm := ((srt.perm ups).pairwise_iff hsymm).mpr hclash
  refine (hperm.and (srt.sorted ups)).imp fun ⟨hc, htext⟩ heq => ?_
  exact (text_le_iff (hc heq)).mp htext

theorem fetch_good (hown : OwnFiles site devices) {s : Robot α} (h : Good cj site devices s)
    {body : Option (List (Uplink α))} (hok : Orderly cj site devices s (.fetch body)) :
    Good cj site devices (fetch site srt body s) := by
  obtain ⟨hgood, hwarm⟩ := hydrate_good hown h
  have hnew : ((body.map srt.sort).getD []).Pairwise (fun a b =>
      a.device_id = b.device_id → a.received_at.time ≤ b.received_at.time) ∧
      ∀ up ∈ (body.map srt.sort).getD [], up.device_id ∈ devices := by
    cases body with
    | none => exact ⟨List.Pairwise.nil, fun _ hup => absurd hup List.not_mem_nil⟩
    | some ups =>
      exact ⟨sorted_waiting srt hok.2, fun up hup => hok.1 up ((srt.perm ups).mem_iff.mp hup)⟩
  exact ⟨hgood.files, hgood.slots, hgood.points, fun hcold => Bool.noConfusion (hwarm.symm.trans hcold),
    hgood.in_time, hgood.encodes, hgood.published, hnew.1, hnew.2⟩

/-! ## A turn of the loop -/

theorem Good.warm {s : Robot α} (h : Good cj site devices s) {up : Uplink α}
    {rest : List (Uplink α)} (htodo : s.todo = up :: rest) : s.hydrated = true := by
  cases hcold : s.hydrated with
  | true => rfl
  | false => exact absurd (htodo.symm.trans (h.cold hcold).2.1) (List.cons_ne_nil _ _)

theorem slot_eq {d : String} {acc : List (Record α)} {s : Robot α}
    (hfits : Fits cj site d acc (s.slots (site.point d))) :
    (s.slots (site.point d)).getD (new_slot d (site.location d)) =
        ⟨d, site.location d, ringOf site s d⟩ ∧
      List.Forall₂ (Reread cj) (newest acc) (ringOf site s d) := by
  unfold ringOf
  cases hslot : s.slots (site.point d) with
  | none =>
    rw [hslot] at hfits
    obtain rfl : acc = [] := hfits
    rw [newest_nil]
    exact ⟨rfl, List.Forall₂.nil⟩
  | some slot =>
    rw [hslot] at hfits
    obtain ⟨hdevice, hlocation, hring⟩ := hfits
    obtain ⟨device, location, ring⟩ := slot
    obtain rfl : device = d := hdevice
    obtain rfl : location = site.location device := hlocation
    exact ⟨rfl, hring⟩

theorem drops_iff {s : Robot α} {up : Uplink α} (hclash : ((ringOf site s up.device_id).getLast?.all
      fun n => ¬ up.received_at.Clash n.received_at) = true) :
    ((ringOf site s up.device_id).getLast?.any
      fun n => up.received_at.text ≤ n.received_at.text) = true ↔ ¬ Later site s up := by
  unfold Later
  cases hlast : (ringOf site s up.device_id).getLast? with
  | none => simp
  | some n =>
    rw [hlast] at hclash
    have hno : ¬ up.received_at.Clash n.received_at := of_decide_eq_true hclash
    simp [text_le_iff hno]

def appended (cj : Cjson α) (site : Site) (up : Uplink α) (rest : List (Uplink α)) (taken : Bool)
    (s : Robot α) : Robot α :=
  let d := up.device_id
  let ring := newest (ringOf site s d ++ [record_from_uplink up])
  { s with
    slots := Function.update s.slots (site.point d) (some ⟨d, site.location d, ring⟩)
    files := Function.update s.files (site.path d)
      (some ⟨d, site.location d, ring.map cj.reread⟩)
    todo := rest
    accepted := s.accepted ++ [up]
    published := s.published ++
      if taken then [⟨d, site.location d, record_from_uplink up⟩] else [] }

theorem appended_slots (cj : Cjson α) (site : Site) (up : Uplink α) (rest : List (Uplink α))
    (taken : Bool) (s : Robot α) : (appended cj site up rest taken s).slots =
      Function.update s.slots (site.point up.device_id) (some ⟨up.device_id,
        site.location up.device_id,
        newest (ringOf site s up.device_id ++ [record_from_uplink up])⟩) := by
  unfold appended
  dsimp only

theorem appended_files (cj : Cjson α) (site : Site) (up : Uplink α) (rest : List (Uplink α))
    (taken : Bool) (s : Robot α) : (appended cj site up rest taken s).files =
      Function.update s.files (site.path up.device_id) (some ⟨up.device_id,
        site.location up.device_id,
        (newest (ringOf site s up.device_id ++ [record_from_uplink up])).map cj.reread⟩) := by
  unfold appended
  dsimp only

theorem ring_encodes {s : Robot α} (h : Good cj site devices s) {up : Uplink α}
    (hnew : cj.encodes (record_from_uplink up) = true)
    (hring : List.Forall₂ (Reread cj) (newest (acceptedOf s up.device_id))
      (ringOf site s up.device_id)) :
    (newest (ringOf site s up.device_id ++ [record_from_uplink up])).all cj.encodes = true := by
  rw [List.all_eq_true]
  intro r hr
  rcases List.mem_append.mp ((newest_sublist _).subset hr) with hold | hlast
  · obtain ⟨r', hr', hreread⟩ := forall₂_mem_right hring hold
    obtain ⟨up', hup', -, rfl⟩ := mem_acceptedOf ((newest_sublist _).subset hr')
    exact reread_encodes hreread (h.encodes up' hup')
  · rw [List.mem_singleton.mp hlast]
    exact hnew

theorem take_uplink_none {s : Robot α} {up : Uplink α} {slot : Slot α}
    (hslot : (s.slots (site.point up.device_id)).getD
      (new_slot up.device_id (site.location up.device_id)) = slot)
    (hdrop : ring_append slot (record_from_uplink up) = none) (rest : List (Uplink α))
    (taken : Bool) : take_uplink cj site up rest taken s =
      { s with slots := Function.update s.slots (site.point up.device_id) (some slot), todo := rest } := by
  subst hslot
  unfold take_uplink
  unfold Site.point at hdrop ⊢
  dsimp only
  rw [hdrop]

theorem take_uplink_some {s : Robot α} {up : Uplink α} {slot slot' : Slot α}
    (hslot : (s.slots (site.point up.device_id)).getD
      (new_slot up.device_id (site.location up.device_id)) = slot)
    (happend : ring_append slot (record_from_uplink up) = some slot')
    (hencodes : cj.encodes (record_from_uplink up) = true) (rest : List (Uplink α))
    (taken : Bool) : take_uplink cj site up rest taken s =
      { s with
        slots := Function.update s.slots (site.point up.device_id) (some slot')
        files := save_slot cj site slot' s.files
        todo := rest
        accepted := s.accepted ++ [up]
        published := s.published ++ if taken then
          [⟨up.device_id, site.location up.device_id, record_from_uplink up⟩] else [] } := by
  subst hslot
  unfold take_uplink
  unfold Site.point at happend ⊢
  dsimp only
  rw [happend]
  dsimp only
  rw [if_pos hencodes, hencodes, Bool.true_and]

theorem take_uplink_cases {s : Robot α} (h : Good cj site devices s) {up : Uplink α}
    {rest : List (Uplink α)} (htodo : s.todo = up :: rest) {taken : Bool}
    (hok : Orderly cj site devices s (.next taken)) :
    (¬ Later site s up ∧ take_uplink cj site up rest taken s = { s with todo := rest }) ∨
      (Later site s up ∧ take_uplink cj site up rest taken s = appended cj site up rest taken s) := by
  unfold Orderly at hok
  rw [htodo] at hok
  obtain ⟨hencodes, hclash⟩ := hok
  have hd := h.known up (htodo ▸ List.mem_cons_self)
  have hfits := h.slots (h.warm htodo) up.device_id hd
  obtain ⟨hslot, hring⟩ := slot_eq hfits
  have hdrops := drops_iff hclash
  by_cases hlater : Later site s up
  · refine Or.inr ⟨hlater, ?_⟩
    have happend : ring_append ⟨up.device_id, site.location up.device_id, ringOf site s up.device_id⟩
        (record_from_uplink up) = some ⟨up.device_id, site.location up.device_id,
          newest (ringOf site s up.device_id ++ [record_from_uplink up])⟩ :=
      if_neg fun hdrop => hdrops.mp hdrop hlater
    rw [take_uplink_some hslot happend hencodes, save_slot, if_pos (ring_encodes h hencodes hring)]
    unfold appended Site.path
    dsimp only
  · refine Or.inl ⟨hlater, ?_⟩
    have hdrop : ring_append ⟨up.device_id, site.location up.device_id, ringOf site s up.device_id⟩
        (record_from_uplink up) = none := if_pos (hdrops.mpr hlater)
    rw [take_uplink_none hslot hdrop]
    -- the ring is not empty, so the slot was there
    cases hold : s.slots (site.point up.device_id) with
    | none =>
      refine absurd (fun n hn => ?_) hlater
      unfold ringOf at hn
      rw [hold] at hn
      exact absurd hn.symm (Option.some_ne_none _)
    | some slot =>
      rw [hold] at hslot
      rw [← hslot]
      dsimp only [Option.getD_some]
      rw [← hold, Function.update_eq_self]

theorem acceptedOf_append {s s' : Robot α} {up : Uplink α}
    (h : s'.accepted = s.accepted ++ [up]) (d : String) : acceptedOf s' d = acceptedOf s d ++
      if up.device_id = d then [record_from_uplink up] else [] := by
  unfold acceptedOf
  rw [h, List.filter_append, List.map_append]
  by_cases hd : up.device_id = d <;> simp [hd]

theorem publishedOf_append {s s' : Robot α} {ps : List (Publication α)}
    (h : s'.published = s.published ++ ps) (d : String) : publishedOf s' d =
      publishedOf s d ++ (ps.filter fun p => p.device = d).map Publication.record := by
  unfold publishedOf
  rw [h, List.filter_append, List.map_append]

theorem appended_ring {s : Robot α} {up : Uplink α}
    (hring : List.Forall₂ (Reread cj) (newest (acceptedOf s up.device_id))
      (ringOf site s up.device_id)) :
    List.Forall₂ (Reread cj) (newest (acceptedOf s up.device_id ++ [record_from_uplink up]))
      (newest (ringOf site s up.device_id ++ [record_from_uplink up])) := by
  rw [← newest_append]
  exact newest_forall₂ (List.rel_append hring (List.Forall₂.cons (reread_refl _) List.Forall₂.nil))

theorem appended_good (hown : OwnFiles site devices) {s : Robot α} (h : Good cj site devices s)
    {up : Uplink α} {rest : List (Uplink α)} (htodo : s.todo = up :: rest)
    (hencodes : cj.encodes (record_from_uplink up) = true) (hlater : Later site s up)
    (taken : Bool) : Good cj site devices (appended cj site up rest taken s) := by
  have hd := h.known up (htodo ▸ List.mem_cons_self)
  have hwarm := h.warm htodo
  obtain ⟨-, hring⟩ := slot_eq (h.slots hwarm up.device_id hd)
  have hnew := appended_ring hring
  have hacc : ∀ d, acceptedOf (appended cj site up rest taken s) d = acceptedOf s d ++
      if up.device_id = d then [record_from_uplink up] else [] := acceptedOf_append rfl
  have hwaiting := h.waiting
  rw [htodo, List.pairwise_cons] at hwaiting
  refine ⟨fun d hmem => ?_, fun _ d hmem => ?_, fun sp slot hslot => ?_, fun hcold => ?_,
    fun d => ?_, fun up' hup => ?_, fun d => ?_, hwaiting.2, fun up' hup => ?_⟩
  · rw [hacc, appended_files]
    by_cases hsame : up.device_id = d
    · subst hsame
      rw [Function.update_self, if_pos rfl]
      exact fits_some (forall₂_reread hnew)
    · have hpath : site.path d ≠ site.path up.device_id := fun heq =>
        hsame (hown.distinct _ hd _ hmem heq.symm)
      rw [Function.update_of_ne hpath, if_neg hsame, List.append_nil]
      exact h.files d hmem
  · rw [hacc, appended_slots]
    by_cases hsame : up.device_id = d
    · subst hsame
      rw [Function.update_self, if_pos rfl]
      exact fits_some hnew
    · have hpoint : site.point d ≠ site.point up.device_id := fun heq =>
        hsame (point_inj hown hd hmem heq.symm)
      rw [Function.update_of_ne hpoint, if_neg hsame, List.append_nil]
      exact h.slots hwarm d hmem
  · rw [appended_slots] at hslot
    by_cases hsp : sp = site.point up.device_id
    · exact ⟨up.device_id, hd, hsp⟩
    · rw [Function.update_of_ne hsp] at hslot
      exact h.points sp slot hslot
  · exact Bool.noConfusion (hwarm.symm.trans hcold)
  · rw [hacc]
    by_cases hsame : up.device_id = d
    · subst hsame
      rw [if_pos rfl]
      refine inTime_append (h.in_time _) fun n hn => ?_
      -- the newest accepted uplink is received when the newest entry of the ring is
      have hstamp := getLast?_stamp hring
      rw [hn, Option.map_some] at hstamp
      obtain ⟨n', hn', heq⟩ := Option.map_eq_some_iff.mp hstamp
      rw [← heq]
      exact hlater n' hn'
    · rw [if_neg hsame, List.append_nil]
      exact h.in_time d
  · rcases List.mem_append.mp hup with hold | hlast
    · exact h.encodes up' hold
    · rw [List.mem_singleton.mp hlast]
      exact hencodes
  · rw [hacc, publishedOf_append rfl]
    refine List.Sublist.append (h.published d) ?_
    cases taken with
    | true => by_cases hsame : up.device_id = d <;> simp [hsame]
    | false => simp
  · exact h.known up' (htodo ▸ List.mem_cons_of_mem _ hup)

theorem dropped_good {s : Robot α} (h : Good cj site devices s) {up : Uplink α}
    {rest : List (Uplink α)} (htodo : s.todo = up :: rest) :
    Good cj site devices { s with todo := rest } := by
  have hwaiting := h.waiting
  rw [htodo, List.pairwise_cons] at hwaiting
  refine ⟨h.files, h.slots, h.points, fun hcold => ?_, h.in_time, h.encodes, h.published,
    hwaiting.2, fun up' hup => h.known up' (htodo ▸ List.mem_cons_of_mem _ hup)⟩
  exact Bool.noConfusion ((h.warm htodo).symm.trans hcold)

/-! ## Every run -/

theorem next_encodes {s : Robot α} {up : Uplink α} {rest : List (Uplink α)}
    (htodo : s.todo = up :: rest) {taken : Bool} (hok : Orderly cj site devices s (.next taken)) :
    cj.encodes (record_from_uplink up) = true := by
  unfold Orderly at hok
  rw [htodo] at hok
  exact hok.1

theorem step_good (hown : OwnFiles site devices) {s s' : Robot α} (h : Good cj site devices s)
    {i : Input α} (hok : Orderly cj site devices s i) (hstep : step cj site srt s i = some s') :
    Good cj site devices s' := by
  cases i with
  | fetch body =>
    obtain ⟨-, heq⟩ := Option.ite_none_right_eq_some.mp hstep
    obtain rfl := Option.some.inj heq
    exact fetch_good hown h hok
  | next taken =>
    unfold step at hstep
    dsimp only at hstep
    split at hstep
    · exact absurd hstep.symm (Option.some_ne_none _)
    · rename_i up rest htodo
      obtain rfl := Option.some.inj hstep
      rcases take_uplink_cases h htodo hok with ⟨-, heq⟩ | ⟨hlater, heq⟩
      · rw [heq]
        exact dropped_good h htodo
      · rw [heq]
        exact appended_good hown h htodo (next_encodes htodo hok) hlater taken
  | restart =>
    obtain rfl := Option.some.inj hstep
    exact ⟨h.files, fun hwarm => Bool.noConfusion hwarm,
      fun _ _ hslot => absurd hslot.symm (Option.some_ne_none _), fun _ => ⟨fun _ => rfl, rfl, hok⟩,
      h.in_time, h.encodes, h.published, List.Pairwise.nil, fun _ hup => absurd hup List.not_mem_nil⟩

theorem appended_ringOf_self (s : Robot α) (up : Uplink α) (rest : List (Uplink α)) (taken : Bool) :
    ringOf site (appended cj site up rest taken s) up.device_id =
      newest (ringOf site s up.device_id ++ [record_from_uplink up]) := by
  unfold ringOf
  rw [appended_slots, Function.update_self]
  rfl

theorem appended_ringOf_of_ne (s : Robot α) {up : Uplink α} (rest : List (Uplink α)) (taken : Bool)
    {d : String} (hpoint : site.point d ≠ site.point up.device_id) :
    ringOf site (appended cj site up rest taken s) d = ringOf site s d := by
  unfold ringOf
  rw [appended_slots, Function.update_of_ne hpoint]

theorem step_takesLater (hown : OwnFiles site devices) {s : Robot α} (h : Good cj site devices s)
    {i : Input α} (hok : Orderly cj site devices s i) : TakesLater cj site srt s i := by
  have hturn : ∀ taken up rest s', i = .next taken → s.todo = up :: rest →
      step cj site srt s i = some s' → (¬ Later site s up ∧ s' = { s with todo := rest }) ∨
        (Later site s up ∧ s' = appended cj site up rest taken s) := by
    rintro taken up rest s' rfl htodo hstep
    unfold step at hstep
    dsimp only at hstep
    rw [htodo] at hstep
    obtain rfl := Option.some.inj hstep
    exact take_uplink_cases h htodo hok
  refine ⟨fun taken up rest s' hi htodo hstep hlater => ?_,
    fun taken up rest s' hi htodo hstep => ?_⟩
  · rcases hturn taken up rest s' hi htodo hstep with ⟨hnot, -⟩ | ⟨-, rfl⟩
    · exact absurd hlater hnot
    · exact appended_ringOf_self s up rest taken
  · rcases hturn taken up rest s' hi htodo hstep with ⟨-, rfl⟩ | ⟨-, rfl⟩
    · exact ⟨rfl, fun up' _ hlater => Or.inl hlater⟩
    · refine ⟨rfl, fun up' hup hlater => ?_⟩
      by_cases hsame : up'.device_id = up.device_id
      · have hwaiting := h.waiting
        rw [htodo, List.pairwise_cons] at hwaiting
        rcases lt_or_eq_of_le (hwaiting.1 up' hup hsame.symm) with hlt | heq
        · refine Or.inl fun n hn => ?_
          rw [hsame, appended_ringOf_self, newest_getLast?, List.getLast?_concat] at hn
          obtain rfl := Option.some.inj hn
          exact hlt
        · exact Or.inr ⟨hsame, heq.symm⟩
      · have hd := h.known up (htodo ▸ List.mem_cons_self)
        have hd' := h.known up' (htodo ▸ List.mem_cons_of_mem _ hup)
        refine Or.inl fun n hn => ?_
        rw [appended_ringOf_of_ne s rest taken fun hp => hsame (point_inj hown hd' hd hp)] at hn
        exact hlater n hn

/-- In every run of fetches and restarts that is orderly: no uplink is published twice, each ring is
in time and holds the newest uplinks that were accepted, and a later uplink always goes in. -/
theorem rings_hold_the_newest (cj : Cjson α) (site : Site) (srt : UplinkSort α)
    (devices : List String) (inputs : List (Input α)) (hown : OwnFiles site devices)
    (hok : Meets (step cj site srt) (Orderly cj site devices) .init inputs) :
    (∀ s, runs (step cj site srt) .init inputs = some s → KeepsRings cj site devices s) ∧
      Meets (step cj site srt) (TakesLater cj site srt) .init inputs := by
  have hstep : ∀ s i s', Good cj site devices s → Orderly cj site devices s i →
      step cj site srt s i = some s' → Good cj site devices s' :=
    fun _ _ _ hs hi hstep => step_good hown hs hi hstep
  refine ⟨fun s hrun => (inv_runs hstep good_init hok hrun).keepsRings, ?_⟩
  exact meets_of_inv hstep (fun _ _ hs hi => step_takesLater hown hs hi) good_init hok

/-! ## A restart with a listed device, and one without -/

def textSort : UplinkSort Nat where
  sort := List.insertionSort fun a b => a.received_at.text ≤ b.received_at.text
  perm := List.perm_insertionSort _
  sorted l :=
    have : Std.Total fun a b : Uplink Nat => a.received_at.text ≤ b.received_at.text :=
      ⟨fun a b => le_total a.received_at.text b.received_at.text⟩
    have : IsTrans (Uplink Nat) fun a b => a.received_at.text ≤ b.received_at.text :=
      ⟨fun _ _ _ h h' => h.trans h'⟩
    List.pairwise_insertionSort _ l

/-- Whole numbers of up to 14 digits come back as they were. -/
def wholeJson : Cjson Nat where
  encodes _ := true
  reread r := r
  reread_encodes _ h := h
  reread_received_at _ := rfl

def lacima : Site where
  root := "./var"
  cls := "farm_soil"
  inst := "lacima01"
  device_locations := [("lacima1c", "zone1"), ("lacima1d", "zone2"), ("lacamia1b", "zone3")]
  keys := by decide

def reading (device : String) (received_at : Stamp) : Uplink Nat where
  device_id := device
  received_at := received_at
  f_cnt := some 4115
  measurements := [(4108, 530), (4102, 17100), (4103, 30900)]
  gateway := ⟨none, 1, none, none, none, none, none, none, none, none⟩
  battery_present := false
  battery_value := none

/-- 13:00:00.25, 13:00:01 and 14:00:00.5 on 2026-05-12. -/
def quarter : Stamp := ⟨20260512130000, [2, 5], by decide⟩
def second : Stamp := ⟨20260512130001, [], by decide⟩
def half : Stamp := ⟨20260512140000, [5], by decide⟩

/-- The second fetch, behind a restart, has the uplinks of the first one and a new one. -/
def overlap : List (Input Nat) :=
  [.fetch (some [reading "lacima1d" second, reading "lacima1c" quarter]), .next true, .next false,
    .restart, .fetch (some [reading "lacima1c" quarter, reading "lacima1d" second,
      reading "lacima1c" half]), .next true, .next true, .next true]

theorem overlap_is_taken_once :
    ((runs (step wholeJson lacima textSort) .init overlap).map fun s =>
      ((publishedOf s "lacima1c").map Record.received_at,
        (ringOf lacima s "lacima1d").map Record.received_at)) =
          some ([quarter, half], [second]) ∧
    (∀ s, runs (step wholeJson lacima textSort) .init overlap = some s →
      KeepsRings wholeJson lacima (lacima.device_locations.map Prod.fst) s) ∧
      Meets (step wholeJson lacima textSort) (TakesLater wholeJson lacima textSort) .init overlap :=
  ⟨by decide +kernel, rings_hold_the_newest wholeJson lacima textSort _ overlap
    ⟨by decide +kernel, by decide +kernel⟩ (by decide +kernel)⟩

/-- An uplink of a device that is not listed, fetched again behind a restart. -/
def unlisted : List (Input Nat) :=
  [.fetch (some [reading "lacima1e" half]), .next true, .restart,
    .fetch (some [reading "lacima1e" half]), .next true]

theorem unlisted_is_published_again :
    ¬ ∀ (cj : Cjson Nat) (site : Site) (srt : UplinkSort Nat) (inputs : List (Input Nat))
      (s : Robot Nat), runs (step cj site srt) .init inputs = some s →
        ∀ d, ((publishedOf s d).map Record.received_at).Nodup := by
  intro hall
  have hend : (runs (step wholeJson lacima textSort) .init unlisted).map
      (fun s => (publishedOf s "lacima1e").map Record.received_at) = some [half, half] := by
    decide +kernel
  obtain ⟨s, hrun, hend⟩ := Option.map_eq_some_iff.mp hend
  have honce := hall wholeJson lacima textSort unlisted s hrun "lacima1e"
  rw [hend] at honce
  exact absurd honce (by decide)

end motioncore.farm.soil
