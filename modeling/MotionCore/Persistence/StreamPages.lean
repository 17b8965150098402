-- A client that follows next_page gets each selected row once, in the order of the ids, in pages
-- that fit. So it gets the rows of its time range in the order of time just when the texts agree
-- with the times and the ids go with them.
import Mathlib.Data.List.Nodup
import Mathlib.Data.List.Pairwise
import MotionCore.Persistence.Stream

open motioncore.stamps

namespace motioncore.persistence.query

variable {δ : Type}

/-! ## What should hold -/

structure Query where
  since_ts : Option ℚ
  until_ts : Option ℚ
  limit : Option ℚ
  order : Option Order
  limit_pos : ∀ l, limit = some l → 1 ≤ l

def Query.args (q : Query) : StreamArgs :=
  ⟨q.since_ts.map .num, q.until_ts.map .num, q.limit, q.order.map Order.text⟩

/-- The order of the reply: newest first unless it is asked for otherwise. -/
def Query.direction (q : Query) : Order := q.order.getD .desc

/-- The record time lies in the range. -/
def Query.holds (q : Query) (r : Row δ) : Bool :=
  r.valid && (q.since_ts.all fun x : ℚ => x ≤ (r.recorded_at.epoch : ℚ)) &&
    q.until_ts.all fun x : ℚ => (r.recorded_at.epoch : ℚ) ≤ x

/-- Oldest first, or newest first. -/
def Order.inTime : Order → OutRow δ → OutRow δ → Prop
  | .asc, a, b => a.recorded_at.epoch ≤ b.recorded_at.epoch
  | .desc, a, b => b.recorded_at.epoch ≤ a.recorded_at.epoch

def collected (pages : List (Reply δ)) : List (OutRow δ) := pages.flatMap Reply.data

/-- The pages hold the rows of the range, each once and in time. Each of them fits, and it names a
next page just when rows remain. -/
structure Answers (srv : Server δ) (t : Table δ) (q : Query) (pages : List (Reply δ)) : Prop where
  rows : (collected pages).Perm ((t.rows.filter q.holds).map Row.out)
  in_time : (collected pages).Pairwise q.direction.inTime
  fits : ∀ p ∈ pages, ∃ size, srv.size p = some size ∧ size ≤ srv.max_reply_bytes
  more : ∀ pre p post, pages = pre ++ p :: post → (p.next_page.isSome ↔ collected post ≠ [])

/-! ## When it holds -/

/-- A valid row is between the bounds as a text just when it is between them in time. -/
def TextsAgree (real : RealText) (t : Table δ) (q : Query) : Prop :=
  ∀ r ∈ t.rows, selects real q.args.since_ts q.args.until_ts r = q.holds r

/-- The ids of the rows in the range go with their times, as before the ring wraps. -/
def IdsInTime (t : Table δ) (q : Query) : Prop :=
  ∀ r ∈ t.rows, ∀ r' ∈ t.rows, q.holds r = true → q.holds r' = true → r.id < r'.id →
    r.recorded_at.epoch ≤ r'.recorded_at.epoch

instance (real : RealText) (t : Table δ) (q : Query) : Decidable (TextsAgree real t q) :=
  inferInstanceAs (Decidable (∀ r ∈ t.rows, _ = _))

instance (t : Table δ) (q : Query) : Decidable (IdsInTime t q) :=
  inferInstanceAs (Decidable (∀ r ∈ t.rows, ∀ r' ∈ t.rows, _ → _ → _ → _))

/-- No single row is over the cap: it fits with a cursor, and so does the empty page. Rows of the
table can be encoded. -/
structure RowsFit (srv : Server δ) (t : Table δ) : Prop where
  encodes : ∀ data next, (∀ o ∈ data, o ∈ t.rows.map Row.out) → (srv.size (.ok data next)).isSome
  single : ∀ o ∈ t.rows.map Row.out, ∀ next ∈ [none, some (make_cursor .asc o.id),
    some (make_cursor .desc o.id)], ∀ size, srv.size (.ok [o] next) = some size →
      size ≤ srv.max_reply_bytes
  empty : ∀ size, srv.size (.ok [] none) = some size → size ≤ srv.max_reply_bytes

/-! ## Cursors -/

variable (real : RealText) (order : Order)

theorem order_text_alpha : ∀ c ∈ order.text.toList, c.isAlpha = true := by
  have hall : order.text.toList.all Char.isAlpha = true := by cases order <;> decide
  exact List.all_eq_true.mp hall

theorem ofText_text : Order.ofText order.text = some order := by
  cases order <;> decide

variable (id : Nat)

theorem parse_make_cursor : parse_cursor (make_cursor order id) = some (order, id) := by
  have hchars : (make_cursor order id).toList = order.text.toList ++ ':' :: Nat.toDigits 10 id := by
    unfold make_cursor
    simp only [String.toList_append, String.toList_ofList, List.append_assoc]
    rfl
  have hdrop : (':' :: Nat.toDigits 10 id).dropWhile Char.isAlpha = ':' :: Nat.toDigits 10 id :=
    List.dropWhile_cons_of_neg (by decide)
  have htake : (':' :: Nat.toDigits 10 id).takeWhile Char.isAlpha = [] :=
    List.takeWhile_cons_of_neg (by decide)
  have hdigits : Nat.toDigits 10 id ≠ [] ∧ (Nat.toDigits 10 id).all Char.isDigit = true :=
    ⟨Nat.toDigits_ne_nil, List.all_eq_true.mpr fun c hc =>
      Nat.isDigit_of_mem_toDigits (by decide) (by decide) hc⟩
  unfold parse_cursor
  rw [hchars, List.dropWhile_append_of_pos (order_text_alpha order), hdrop,
    List.takeWhile_append_of_pos (order_text_alpha order), htake, List.append_nil]
  refine (if_pos hdigits).trans ?_
  rw [String.ofList_toList, ofText_text, Nat.ofDigitChars_ten_toDigits]
  rfl

theorem cursor_ne_empty : make_cursor order id ≠ "" := by
  intro h
  have hnone : parse_cursor "" = none := by decide
  rw [← h, parse_make_cursor] at hnone
  exact Option.some_ne_none _ hnone

/-- The order and the place of a page: the first one, or one behind a cursor. -/
def pageAt (order : Order) : Option Nat → Option String
  | none => none
  | some id => some (make_cursor order id)

theorem resolve_page (q : Query) (after_id : Option Nat) :
    (resolve q.args (pageAt q.direction after_id) : Except (Reply δ) _) =
      .ok (q.direction, after_id) := by
  cases after_id with
  | some id =>
    unfold resolve pageAt
    rw [Option.filter_some_pos (by simpa using cursor_ne_empty q.direction id)]
    dsimp only
    rw [parse_make_cursor]
  | none =>
    unfold resolve pageAt Query.args Query.direction
    cases q.order with
    | none => rfl
    | some order =>
      dsimp only [Option.filter_none, Option.map_some, Option.getD_some]
      rw [ofText_text]

theorem limitOf_query (srv : Server δ) (q : Query) : ∃ n, limitOf srv q.args = .ok n ∧ 0 < n := by
  unfold limitOf Query.args
  cases hlimit : q.limit with
  | none => exact ⟨_, rfl, srv.rows_pos⟩
  | some l =>
    have hl := q.limit_pos l hlimit
    refine ⟨_, if_neg (not_lt.mpr hl), lt_min ?_ srv.rows_pos⟩
    have hfloor : 1 ≤ ⌊l⌋ := Int.le_floor.mpr (by exact_mod_cast hl)
    omega

/-! ## The rows of a page -/

def selected (real : RealText) (t : Table δ) (q : Query) : List (Row δ) :=
  q.direction.arrange (t.rows.filter (selects real q.args.since_ts q.args.until_ts))

def remaining (real : RealText) (t : Table δ) (q : Query) (after_id : Option Nat) : List (Row δ) :=
  (selected real t q).filter fun r => after_id.all fun a => q.direction.after a r.id

theorem arrange_filter {β : Type} (p : β → Bool) (l : List β) :
    order.arrange (l.filter p) = (order.arrange l).filter p := by
  cases order with
  | asc => rfl
  | desc => exact List.filter_reverse.symm

theorem list_stream_data_eq (t : Table δ) (q : Query) (limit : Nat) (after_id : Option Nat) :
    list_stream_data real t
      ⟨q.direction, limit, after_id, q.args.since_ts, q.args.until_ts⟩ =
        (remaining real t q after_id).take limit := by
  unfold list_stream_data remaining selected
  dsimp only
  rw [← arrange_filter, List.filter_filter]
  congr 2
  refine List.filter_congr fun r _ => ?_
  exact Bool.and_comm _ _

theorem selected_pairwise (t : Table δ) (q : Query) :
    (selected real t q).Pairwise fun a b => q.direction.after a.id b.id = true := by
  have hids := t.ids.filter (selects real q.args.since_ts q.args.until_ts)
  unfold selected
  cases q.direction with
  | asc => exact hids.imp fun h => decide_eq_true h
  | desc => exact List.pairwise_reverse.mpr (hids.imp fun h => decide_eq_true h)

theorem after_asymm {order : Order} {a b : Nat} (h : order.after a b = true) :
    order.after b a = false := by
  cases order <;> simp only [Order.after, decide_eq_true_eq, decide_eq_false_iff_not] at h ⊢ <;>
    omega

variable {r : Row δ}

/-- Behind the last row of a part of the rows lies the rest. -/
theorem filter_after {order : Order} {pre post : List (Row δ)}
    (h : (pre ++ r :: post).Pairwise fun a b => order.after a.id b.id = true) :
    (pre ++ r :: post).filter (fun x => order.after r.id x.id) = post := by
  obtain ⟨-, hrest, hcross⟩ := List.pairwise_append.mp h
  have hpre : pre.filter (fun x => order.after r.id x.id) = [] := by
    refine List.filter_eq_nil_iff.mpr fun x hx => ?_
    rw [after_asymm (hcross x hx r List.mem_cons_self)]
    exact Bool.false_ne_true
  have hself : order.after r.id r.id = false := by
    cases order <;> simp [Order.after]
  have hpost : post.filter (fun x => order.after r.id x.id) = post :=
    List.filter_eq_self.mpr fun x hx => (List.pairwise_cons.mp hrest).1 x hx
  rw [List.filter_append, hpre, List.nil_append, List.filter_cons, hself, hpost]
  rfl

def cursorOf (order : Order) (l : List (OutRow δ)) : Option String :=
  l.getLast?.map fun o => make_cursor order o.id

theorem cursor_allowed : some (make_cursor order id) ∈
      [none, some (make_cursor .asc id), some (make_cursor .desc id)] := by
  cases order <;> simp

variable {srv : Server δ} {t : Table δ} {size : Nat}

theorem single_fits (hfit : RowsFit srv t) (order : Order) {data : List (OutRow δ)}
    (hdata : ∀ o ∈ data, o ∈ t.rows.map Row.out) (hlen : data.length = 1) {next : Option String}
    (hnext : next = none ∨ next = cursorOf order data)
    (hsize : srv.size (.ok data next) = some size) : size ≤ srv.max_reply_bytes := by
  obtain ⟨o, rfl⟩ := List.length_eq_one_iff.mp hlen
  refine hfit.single o (hdata o List.mem_cons_self) next ?_ size hsize
  rcases hnext with rfl | rfl
  · exact List.mem_cons_self
  · exact cursor_allowed order o.id

/-- The loop ends with some first rows that fit, and with the cursor behind them. -/
theorem trim_fits (hfit : RowsFit srv t) (order : Order) {data : List (OutRow δ)}
    (hdata : ∀ o ∈ data, o ∈ t.rows.map Row.out) {n : Nat} (hn : 0 < n) (hle : n ≤ data.length)
    {next : Option String} (hnext : next = none ∨ next = cursorOf order (data.take n)) :
    ∃ k size, 0 < k ∧ k ≤ n ∧ trim srv order data n next =
      .ok (data.take k) (if k = n then next else cursorOf order (data.take k)) ∧
        srv.size (trim srv order data n next) = some size ∧ size ≤ srv.max_reply_bytes := by
  induction n generalizing next with
  | zero => exact absurd hn (Nat.lt_irrefl 0)
  | succ n ih =>
    have htake : ∀ o ∈ data.take (n + 1), o ∈ t.rows.map Row.out :=
      fun o ho => hdata o (List.mem_of_mem_take ho)
    obtain ⟨size, hsize⟩ := Option.isSome_iff_exists.mp (hfit.encodes (data.take (n + 1)) next htake)
    by_cases hcap : size ≤ srv.max_reply_bytes
    · have heq : trim srv order data (n + 1) next = .ok (data.take (n + 1)) next := by
        rw [trim, hsize]
        exact if_pos hcap
      refine ⟨n + 1, size, hn, le_refl _, ?_, ?_, hcap⟩
      · rw [heq, if_pos rfl]
      · rw [heq, hsize]
    · have heq : trim srv order data (n + 1) next =
          trim srv order data n (cursorOf order (data.take n)) := by
        rw [trim, hsize]
        exact if_neg hcap
      -- a single row fits, so some rows are left
      have hpos : 0 < n := by
        refine Nat.pos_of_ne_zero fun hzero => hcap ?_
        subst hzero
        refine single_fits hfit order htake ?_ hnext hsize
        rw [List.length_take]
        omega
      obtain ⟨k, size', hk, hkn, htrim, hsize', hcap'⟩ := ih hpos (by omega) (Or.inr rfl)
      refine ⟨k, size', hk, by omega, ?_, heq ▸ hsize', hcap'⟩
      rw [heq, htrim, if_neg (by omega : k ≠ n + 1)]
      split
      · rename_i hsame
        rw [hsame]
      · rfl

theorem finish_fits {reply : Reply δ} (hsize : srv.size reply = some size)
    (hcap : size ≤ srv.max_reply_bytes) : finish srv reply = reply := by
  unfold finish
  rw [hsize]
  exact if_neg (by omega)

/-- A page: some first rows of those that remain, at least one if there is any, and the cursor
behind them if they are not all. -/
theorem handle_page (hfit : RowsFit srv t) (q : Query) (after_id : Option Nat) :
    ∃ k size, k ≤ (remaining real t q after_id).length ∧
      (remaining real t q after_id ≠ [] → 0 < k) ∧
      handle srv real t q.args (pageAt q.direction after_id) =
        .ok (((remaining real t q after_id).take k).map Row.out)
          (if k = (remaining real t q after_id).length then none
          else cursorOf q.direction (((remaining real t q after_id).take k).map Row.out)) ∧
      srv.size (handle srv real t q.args (pageAt q.direction after_id)) = some size ∧
        size ≤ srv.max_reply_bytes := by
  obtain ⟨limit, hlimit, hpos⟩ := limitOf_query srv q
  have hop : op_stream srv real t q.args (pageAt q.direction after_id) =
      (let rows := (remaining real t q after_id).take (limit + 1)
      let data := (rows.take limit).map Row.out
      if data.isEmpty then .ok [] none
      else trim srv q.direction data data.length
        (if limit < rows.length then cursorOf q.direction data else none)) := by
    unfold op_stream
    rw [resolve_page, hlimit]
    dsimp only
    rw [list_stream_data_eq]
    rfl
  have hmem : ∀ r ∈ remaining real t q after_id, r ∈ t.rows := by
    intro r hr
    have hsel := List.mem_of_mem_filter hr
    unfold selected at hsel
    cases hdir : q.direction with
    | asc =>
      rw [hdir] at hsel
      exact List.mem_of_mem_filter hsel
    | desc =>
      rw [hdir] at hsel
      exact List.mem_of_mem_filter (List.mem_reverse.mp hsel)
  generalize remaining real t q after_id = l at hop hmem ⊢
  unfold handle
  dsimp only at hop
  rw [List.take_take, min_eq_left (Nat.le_succ limit), List.length_take] at hop
  by_cases hempty : l = []
  · subst hempty
    obtain ⟨size, hsize⟩ := Option.isSome_iff_exists.mp
      (hfit.encodes [] none fun _ ho => absurd ho List.not_mem_nil)
    have hcap := hfit.empty size hsize
    have hreply : op_stream srv real t q.args (pageAt q.direction after_id) = .ok [] none := by
      rw [hop]
      simp
    rw [hreply, finish_fits hsize hcap]
    exact ⟨0, size, le_refl _, fun h => absurd rfl h, rfl, hsize, hcap⟩
  · have hlen : 0 < l.length := List.length_pos_iff.mpr hempty
    have hdata : ∀ o ∈ (l.take limit).map Row.out, o ∈ t.rows.map Row.out := by
      intro o ho
      obtain ⟨r, hr, rfl⟩ := List.mem_map.mp ho
      exact List.mem_map_of_mem (hmem r (List.mem_of_mem_take hr))
    have hn : ((l.take limit).map Row.out).length = min limit l.length := by
      rw [List.length_map, List.length_take]
    have hne : ((l.take limit).map Row.out).isEmpty = false := by
      rw [List.isEmpty_eq_false_iff, ← List.length_pos_iff, hn]
      omega
    rw [hne] at hop
    have hnext : (if limit < min (limit + 1) l.length then
        cursorOf q.direction ((l.take limit).map Row.out) else none) = none ∨
      (if limit < min (limit + 1) l.length then
        cursorOf q.direction ((l.take limit).map Row.out) else none) =
          cursorOf q.direction (((l.take limit).map Row.out).take (min limit l.length)) := by
      rw [← hn, List.take_length]
      split
      · exact Or.inr rfl
      · exact Or.inl rfl
    obtain ⟨k, size, hk, hkn, htrim, hsize, hcap⟩ :=
      trim_fits hfit q.direction hdata (n := min limit l.length) (by omega) (by omega) hnext
    have hreply : op_stream srv real t q.args (pageAt q.direction after_id) =
        trim srv q.direction ((l.take limit).map Row.out) (min limit l.length)
          (if limit < min (limit + 1) l.length then
            cursorOf q.direction ((l.take limit).map Row.out) else none) := by
      rw [hop, hn]
      rfl
    rw [hreply, finish_fits hsize hcap]
    refine ⟨k, size, by omega, fun _ => hk, ?_, hsize, hcap⟩
    have hpre : ((l.take limit).map Row.out).take k = (l.take k).map Row.out := by
      rw [← List.map_take, List.take_take, min_eq_left (by omega)]
    rw [htrim, hpre]
    congr 1
    by_cases hkl : k = l.length
    · rw [if_pos hkl, if_pos (by omega), if_neg (by omega)]
    · rw [if_neg hkl]
      by_cases hkm : k = min limit l.length
      · have hkl' : k = limit := by omega
        rw [if_pos hkm, if_pos (by omega), hkl']
      · rw [if_neg hkm]

/-! ## All the pages -/

theorem after_trans {order : Order} {a b c : Nat} (h : order.after a b = true)
    (h' : order.after b c = true) : order.after a c = true := by
  cases order <;> simp only [Order.after, decide_eq_true_eq] at h h' ⊢ <;> omega

/-- Behind the cursor of a page lie the rows that the page did not take. -/
theorem remaining_next (t : Table δ) (q : Query) (after_id : Option Nat) {pre post : List (Row δ)}
    (hl : remaining real t q after_id = pre ++ r :: post) :
    remaining real t q (some r.id) = post := by
  have hsorted := (selected_pairwise real t q).filter
    fun r => after_id.all fun a => q.direction.after a r.id
  change (remaining real t q after_id).Pairwise _ at hsorted
  rw [hl] at hsorted
  have hr : (after_id.all fun a => q.direction.after a r.id) = true := by
    have hmem : r ∈ remaining real t q after_id := by
      rw [hl]
      exact List.mem_append_right _ List.mem_cons_self
    exact (List.mem_filter.mp hmem).2
  have hsame : remaining real t q (some r.id) =
      (remaining real t q after_id).filter fun x => q.direction.after r.id x.id := by
    unfold remaining
    rw [List.filter_filter]
    refine List.filter_congr fun x _ => ?_
    rw [Option.all_some]
    cases hx : q.direction.after r.id x.id with
    | false => rfl
    | true =>
      cases after_id with
      | none => rfl
      | some a =>
        rw [Option.all_some] at hr ⊢
        rw [after_trans hr hx]
        rfl
  rw [hsame, hl]
  exact filter_after hsorted

structure Pages (srv : Server δ) (l : List (Row δ)) (pages : List (Reply δ)) : Prop where
  rows : collected pages = l.map Row.out
  fits : ∀ p ∈ pages, ∃ size, srv.size p = some size ∧ size ≤ srv.max_reply_bytes
  more : ∀ pre p post, pages = pre ++ p :: post → (p.next_page.isSome ↔ collected post ≠ [])

variable {l : List (Row δ)}

theorem pages_last (hsize : srv.size (.ok (l.map Row.out) none) = some size)
    (hcap : size ≤ srv.max_reply_bytes) : Pages srv l [.ok (l.map Row.out) none] := by
  refine ⟨List.append_nil _, fun p hp => ?_, fun pre p post hsplit => ?_⟩
  · rw [List.mem_singleton.mp hp]
    exact ⟨size, hsize, hcap⟩
  · cases pre with
    | nil =>
      obtain ⟨rfl, rfl⟩ := List.cons.inj hsplit
      exact ⟨fun h => Bool.noConfusion h, fun h => absurd rfl h⟩
    | cons x pre =>
      obtain ⟨-, hnil⟩ := List.cons.inj hsplit
      exact absurd hnil.symm (List.append_ne_nil_of_right_ne_nil pre (List.cons_ne_nil p post))

theorem pages_cons {k : Nat} {next : String} {rest : List (Reply δ)}
    (hrest : Pages srv (l.drop k) rest) (hk : k < l.length)
    (hsize : srv.size (.ok ((l.take k).map Row.out) (some next)) = some size)
    (hcap : size ≤ srv.max_reply_bytes) :
    Pages srv l (.ok ((l.take k).map Row.out) (some next) :: rest) := by
  refine ⟨?_, fun p hp => ?_, fun pre p post hsplit => ?_⟩
  · change (l.take k).map Row.out ++ collected rest = _
    rw [hrest.rows, ← List.map_append, List.take_append_drop]
  · rcases List.mem_cons.mp hp with rfl | hp
    · exact ⟨size, hsize, hcap⟩
    · exact hrest.fits p hp
  · cases pre with
    | nil =>
      obtain ⟨rfl, rfl⟩ := List.cons.inj hsplit
      refine ⟨fun _ hnil => ?_, fun _ => rfl⟩
      rw [hrest.rows] at hnil
      have hlen := congrArg List.length hnil
      rw [List.length_map, List.length_drop, List.length_nil] at hlen
      omega
    | cons x pre =>
      obtain ⟨-, hsplit⟩ := List.cons.inj hsplit
      exact hrest.more pre p post hsplit

/-- The client comes to the end, with all the rows that remain. -/
theorem follow_pages (hfit : RowsFit srv t) (q : Query) (after_id : Option Nat) :
    ∃ n pages, follow srv real t q.args n (pageAt q.direction after_id) = some pages ∧
      Pages srv (remaining real t q after_id) pages := by
  induction hlen : (remaining real t q after_id).length using Nat.strong_induction_on
    generalizing after_id with
  | _ m ih =>
    obtain ⟨k, size, hk, hpos, hreply, hsize, hcap⟩ := handle_page real hfit q after_id
    by_cases hall : k = (remaining real t q after_id).length
    · rw [if_pos hall] at hreply
      rw [hreply, hall, List.take_length] at hsize
      refine ⟨1, [.ok ((remaining real t q after_id).map Row.out) none], ?_, pages_last hsize hcap⟩
      rw [follow, hreply, hall, List.take_length]
      rfl
    · have hlt : k < (remaining real t q after_id).length := by omega
      have hsome : 0 < k := hpos (List.ne_nil_of_length_pos (by omega))
      -- the last row of the page, whose id the cursor has
      obtain ⟨front, r, hfront⟩ : ∃ front r, (remaining real t q after_id).take k = front ++ [r] := by
        rcases List.eq_nil_or_concat ((remaining real t q after_id).take k) with hnil | ⟨front, r, h⟩
        · have hzero := congrArg List.length hnil
          rw [List.length_take, List.length_nil] at hzero
          omega
        · exact ⟨front, r, h.trans List.concat_eq_append⟩
      have hcursor : cursorOf q.direction (((remaining real t q after_id).take k).map Row.out) =
          some (make_cursor q.direction r.id) := by
        unfold cursorOf
        rw [hfront, List.map_append, List.map_singleton, List.getLast?_concat]
        rfl
      rw [if_neg hall, hcursor] at hreply
      have hsplit : remaining real t q after_id =
          front ++ r :: (remaining real t q after_id).drop k := by
        conv_lhs => rw [← List.take_append_drop k (remaining real t q after_id), hfront]
        rw [List.append_assoc]
        rfl
      have hnext := remaining_next real t q after_id hsplit
      obtain ⟨n, pages, hfollow, hpages⟩ := ih _ (by
        rw [← hlen, List.length_drop]
        omega) (some r.id) (congrArg List.length hnext)
      rw [hnext] at hpages
      rw [hreply] at hsize
      refine ⟨n + 1, _, ?_, pages_cons hpages hlt hsize hcap⟩
      rw [follow, hreply]
      dsimp only [Reply.next_page]
      rw [show some (make_cursor q.direction r.id) = pageAt q.direction (some r.id) from rfl,
        hfollow]
      rfl

/-- A client that comes to the end has the same pages, however long it was ready to go on. -/
theorem follow_unique {real : RealText} {args : StreamArgs} {n m : Nat} {page : Option String}
    {a b : List (Reply δ)} (ha : follow srv real t args n page = some a)
    (hb : follow srv real t args m page = some b) : a = b := by
  induction n generalizing m page a b with
  | zero => exact absurd ha.symm (Option.some_ne_none _)
  | succ n ih =>
    cases m with
    | zero => exact absurd hb.symm (Option.some_ne_none _)
    | succ m =>
      rw [follow] at ha hb
      cases hnext : (handle srv real t args page).next_page with
      | none =>
        rw [hnext] at ha hb
        exact Option.some.inj (ha.symm.trans hb)
      | some next =>
        rw [hnext] at ha hb
        obtain ⟨a', ha', rfl⟩ := Option.map_eq_some_iff.mp ha
        obtain ⟨b', hb', rfl⟩ := Option.map_eq_some_iff.mp hb
        rw [ih ha' hb']

/-! ## The answer -/

theorem arrange_inTime (l : List (Row δ)) : ((order.arrange l).map Row.out).Pairwise order.inTime ↔
      l.Pairwise fun a b => a.recorded_at.epoch ≤ b.recorded_at.epoch := by
  cases order with
  | asc => exact List.pairwise_map
  | desc =>
    rw [List.pairwise_map]
    exact List.pairwise_reverse

theorem arrange_perm {β : Type} (l : List β) : (order.arrange l).Perm l := by
  cases order with
  | asc => exact List.Perm.refl l
  | desc => exact l.reverse_perm

theorem row_of_id {r' : Row δ} (hr : r ∈ t.rows) (hr' : r' ∈ t.rows) (h : r.id = r'.id) :
    r = r' := by
  have hnodup : (t.rows.map Row.id).Nodup := by
    rw [List.Nodup, List.pairwise_map]
    exact t.ids.imp Nat.ne_of_lt
  exact List.inj_on_of_nodup_map hnodup hr hr' h

/-- A reply has a row of the table just when the list has it. -/
theorem out_mem {p : Row δ → Bool} (hr : r ∈ t.rows) :
    r.out ∈ (t.rows.filter p).map Row.out ↔ p r = true := by
  constructor
  · intro h
    obtain ⟨r', hr', hout⟩ := List.mem_map.mp h
    obtain ⟨hmem, hp⟩ := List.mem_filter.mp hr'
    rwa [row_of_id hr hmem (congrArg OutRow.id hout).symm]
  · intro h
    exact List.mem_map_of_mem (List.mem_filter.mpr ⟨hr, h⟩)

theorem ids_in_time (hids : l.Pairwise fun a b => a.id < b.id)
    (htime : l.Pairwise fun a b => a.recorded_at.epoch ≤ b.recorded_at.epoch) {r' : Row δ}
    (hr : r ∈ l) (hr' : r' ∈ l) (hlt : r.id < r'.id) :
    r.recorded_at.epoch ≤ r'.recorded_at.epoch := by
  let both (a b : Row δ) : Prop := (a.id < b.id → a.recorded_at.epoch ≤ b.recorded_at.epoch) ∧
    (b.id < a.id → b.recorded_at.epoch ≤ a.recorded_at.epoch)
  have hsymm : Std.Symm both := ⟨fun _ _ h => ⟨h.2, h.1⟩⟩
  have hboth : l.Pairwise both :=
    (hids.and htime).imp fun h => ⟨fun _ => h.2, fun hlt => absurd hlt (Nat.lt_asymm h.1)⟩
  have hne : r ≠ r' := fun h => absurd hlt (h ▸ Nat.lt_irrefl _)
  exact (hboth.forall hr hr' hne).1 hlt

theorem answers_of_agree {real : RealText} {q : Query} {pages : List (Reply δ)}
    (hpages : Pages srv (selected real t q) pages) (htexts : TextsAgree real t q)
    (hids : IdsInTime t q) : Answers srv t q pages := by
  have hfilter : t.rows.filter (selects real q.args.since_ts q.args.until_ts) =
      t.rows.filter q.holds := List.filter_congr htexts
  have hselected : selected real t q = q.direction.arrange (t.rows.filter q.holds) := by
    unfold selected
    rw [hfilter]
  refine ⟨?_, ?_, hpages.fits, hpages.more⟩
  · rw [hpages.rows, hselected]
    exact (arrange_perm _ _).map _
  · rw [hpages.rows, hselected, arrange_inTime]
    refine (t.ids.filter q.holds).imp_of_mem fun ha hb hlt => ?_
    obtain ⟨ha, hpa⟩ := List.mem_filter.mp ha
    obtain ⟨hb, hpb⟩ := List.mem_filter.mp hb
    exact hids _ ha _ hb hpa hpb hlt

theorem agree_of_answers {real : RealText} {q : Query} {pages : List (Reply δ)}
    (hpages : Pages srv (selected real t q) pages) (h : Answers srv t q pages) :
    TextsAgree real t q ∧ IdsInTime t q := by
  have hrows := h.rows
  have htime := h.in_time
  rw [hpages.rows] at hrows htime
  have htexts : TextsAgree real t q := by
    intro r hr
    have hiff : selects real q.args.since_ts q.args.until_ts r = true ↔ q.holds r = true := by
      rw [← out_mem hr, ← out_mem hr, ← hrows.mem_iff]
      exact (((arrange_perm _ _).map Row.out).mem_iff).symm
    exact Bool.eq_iff_iff.mpr hiff
  refine ⟨htexts, fun r hr r' hr' hp hp' hlt => ?_⟩
  unfold selected at htime
  rw [arrange_inTime] at htime
  refine ids_in_time (t.ids.filter _) htime (List.mem_filter.mpr ⟨hr, ?_⟩)
    (List.mem_filter.mpr ⟨hr', ?_⟩) hlt
  · rw [htexts r hr]
    exact hp
  · rw [htexts r' hr']
    exact hp'

theorem remaining_none (t : Table δ) (q : Query) : remaining real t q none = selected real t q := by
  unfold remaining
  exact List.filter_eq_self.mpr fun _ _ => rfl

/-- A client that follows `next_page` comes to the end and gets the rows of its range, each once,
in time, in pages that fit, if and only if the texts of the bounds agree with the times of the rows
and the ids of the rows go with their times. -/
theorem stream_answers_iff (srv : Server δ) (real : RealText) (t : Table δ) (q : Query)
    (hfit : RowsFit srv t) :
    (∃ n pages, follow srv real t q.args n none = some pages ∧ Answers srv t q pages) ↔
      TextsAgree real t q ∧ IdsInTime t q := by
  obtain ⟨n, pages, hfollow, hpages⟩ := follow_pages real hfit q none
  rw [remaining_none] at hpages
  constructor
  · rintro ⟨n', pages', hfollow', hanswers⟩
    obtain rfl : pages = pages' := follow_unique hfollow hfollow'
    exact agree_of_answers hpages hanswers
  · rintro ⟨htexts, hids⟩
    exact ⟨n, pages, hfollow, answers_of_agree hpages htexts hids⟩

/-- The length of a row as JSON, when its value is an object with one digit-only field `v`. -/
def rowSize (o : OutRow Nat) : Nat :=
  58 + (Nat.toDigits 10 o.id).length + (Nat.toDigits 10 o.value).length

def replySize : Reply Nat → Nat
  | .ok data next => 21 + (data.map rowSize).sum + (data.length - 1) +
      next.elim 0 fun s => 15 + s.length
  | .err code msg => 41 + code.length + msg.length

def smallServer : Server Nat where
  max_page_rows := 100
  max_reply_bytes := 200
  rows_pos := by decide
  size reply := some (replySize reply)

/-- The text of a whole REAL of up to 15 digits. -/
def wholeReal (x : ℚ) : String := toString x.num ++ ".0"

/-- Five readings, an hour apart, and a row that was not written yet. -/
def readings : Table Nat where
  rows := [⟨1, ⟨2026, 5, 23, 10, 0, 0⟩, 17, true⟩, ⟨2, ⟨2026, 5, 23, 11, 0, 0⟩, 18, true⟩,
    ⟨3, ⟨2026, 5, 23, 12, 0, 0⟩, 21, true⟩, ⟨5, ⟨2026, 5, 23, 13, 0, 0⟩, 22, true⟩,
    ⟨6, ⟨2026, 5, 23, 14, 0, 0⟩, 20, true⟩, ⟨7, ⟨2026, 5, 23, 9, 0, 0⟩, 0, false⟩]
  ids := by decide

theorem readings_fit : RowsFit smallServer readings where
  encodes _ _ _ := rfl
  single := by
    have hall : ∀ o ∈ readings.rows.map Row.out, ∀ next ∈ [none, some (make_cursor .asc o.id),
        some (make_cursor .desc o.id)], replySize (.ok [o] next) ≤ 200 := by
      decide +kernel
    intro o ho next hnext size hsize
    rw [← Option.some.inj hsize]
    exact hall o ho next hnext
  empty size hsize := by
    rw [← Option.some.inj hsize]
    decide +kernel

/-- All times from 0 to 3000000000, which no text of a time is between the texts of. -/
def allTimes : Query := ⟨some 0, some 3000000000, some 4, none, by simp⟩

theorem readings_in_pages :
    ((follow smallServer wholeReal readings allTimes.args 5 none).map fun pages =>
      pages.map fun p => p.data.map OutRow.id) = some [[6, 5], [3, 2], [1]] ∧
    ∃ n pages, follow smallServer wholeReal readings allTimes.args n none = some pages ∧
      Answers smallServer readings allTimes pages :=
  ⟨by decide +kernel, (stream_answers_iff smallServer wholeReal readings allTimes readings_fit).mpr
    ⟨by decide +kernel, by decide +kernel⟩⟩

/-- Until a time in 2027. -/
def until2027 : Query := ⟨none, some 1800000000, none, none, by simp⟩

theorem until_epoch_selects_nothing :
    ¬ ∀ (srv : Server Nat) (real : RealText) (t : Table Nat) (q : Query), RowsFit srv t →
      ∃ n pages, follow srv real t q.args n none = some pages ∧ Answers srv t q pages := by
  intro hall
  obtain ⟨n, pages, hfollow, hanswers⟩ :=
    hall smallServer wholeReal readings until2027 readings_fit
  obtain ⟨n', pages', hfollow', hpages⟩ := follow_pages wholeReal readings_fit until2027 none
  obtain rfl : pages = pages' := follow_unique hfollow hfollow'
  rw [remaining_none] at hpages
  exact absurd (agree_of_answers hpages hanswers).1 (by decide +kernel)

end motioncore.persistence.query
