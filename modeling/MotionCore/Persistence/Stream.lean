-- The stream op of the query server (server/persistence/lib/query_server.lua), over the rows of one
-- leaf (vendor/lua/kb_stream.lua). A reply is what the client decodes; its length as JSON is the
-- JSON library's, and the text of a number that is no small integer is SQLite's.
import Mathlib.Data.Rat.Floor
import MotionCore.Lib.Stamps

open motioncore.stamps

namespace motioncore.persistence.query

variable {δ : Type}

/-! ## Times -/

/-- A date and a time of day in UTC. -/
structure Civil where
  year : Nat
  month : Nat
  day : Nat
  hour : Nat
  minute : Nat
  second : Nat
deriving DecidableEq

/-- `os.date('!%Y-%m-%dT%H:%M:%S')`. -/
def Civil.text (c : Civil) : String :=
  String.ofList (DATE_TIME.map (Mark.render
    (((((c.year * 100 + c.month) * 100 + c.day) * 100 + c.hour) * 100 + c.minute) * 100 + c.second)))

/-- The days from the epoch, in years that begin with March. -/
def Civil.days (c : Civil) : Int :=
  let y : Int := if c.month ≤ 2 then c.year - 1 else c.year
  let yoe := y % 400
  let doy : Int := (153 * ((c.month + 9) % 12) + 2) / 5 + c.day - 1
  y / 400 * 146097 + (yoe * 365 + yoe / 4 - yoe / 100 + doy) - 719468

/-- Epoch seconds. -/
def Civil.epoch (c : Civil) : Int := c.days * 86400 + c.hour * 3600 + c.minute * 60 + c.second

/-! ## The rows of a leaf -/

structure Row (δ : Type) where
  id : Nat
  recorded_at : Civil
  data : δ
  valid : Bool

/-- The rows of one path, by their ids. -/
structure Table (δ : Type) where
  rows : List (Row δ)
  ids : rows.Pairwise fun a b => a.id < b.id

inductive Order where
  | asc | desc
deriving DecidableEq, Repr

inductive Bound where
  | num (x : ℚ)
  | text (s : String)

/-- What SQLite makes of a REAL when it is compared with a column of text. -/
abbrev RealText := ℚ → String

/-- The text that a bound is compared as. A small integer is bound as an integer. -/
def Bound.asText (real : RealText) : Bound → String
  | .num x => if x.isInt ∧ |x| < 2 ^ 31 then toString x.num else real x
  | .text s => s

structure ReadOpts where
  order : Order
  limit : Nat
  after_id : Option Nat
  recorded_after : Option Bound
  recorded_before : Option Bound

/-- The row is valid and between the bounds, as texts. -/
def selects (real : RealText) (after before : Option Bound) (r : Row δ) : Bool :=
  r.valid && (after.all fun b => b.asText real ≤ r.recorded_at.text) &&
    before.all fun b => r.recorded_at.text ≤ b.asText real

/-- The second id comes after the first one. -/
def Order.after : Order → Nat → Nat → Bool
  | .asc, a, b => a < b
  | .desc, a, b => b < a

def Order.arrange {β : Type} : Order → List β → List β
  | .asc, l => l
  | .desc, l => l.reverse

/-- `list_stream_data`, ordered by id. -/
def list_stream_data (real : RealText) (t : Table δ) (opts : ReadOpts) : List (Row δ) :=
  (opts.order.arrange (t.rows.filter fun r =>
    selects real opts.recorded_after opts.recorded_before r &&
      opts.after_id.all fun a => opts.order.after a r.id)).take opts.limit

/-! ## Replies -/

structure OutRow (δ : Type) where
  id : Nat
  recorded_at : Civil
  value : δ

inductive Reply (δ : Type) where
  | ok (data : List (OutRow δ)) (next_page : Option String)
  | err (code msg : String)

def Reply.data : Reply δ → List (OutRow δ)
  | .ok data _ => data
  | .err .. => []

def Reply.next_page : Reply δ → Option String
  | .ok _ next => next
  | .err .. => none

structure Server (δ : Type) where
  max_page_rows : Nat
  max_reply_bytes : Nat
  rows_pos : 0 < max_page_rows
  /-- The length of what `cjson.encode` makes of a reply, when it does not raise. -/
  size : Reply δ → Option Nat

def Order.text : Order → String
  | .asc => "asc"
  | .desc => "desc"

def Order.ofText (s : String) : Option Order :=
  if s = "asc" then some .asc else if s = "desc" then some .desc else none

def make_cursor (order : Order) (after_id : Nat) : String :=
  order.text ++ ":" ++ String.ofList (Nat.toDigits 10 after_id)

/-- The letters, the colon and the digits of `^(%a+):(%d+)$`. -/
def parse_cursor (s : String) : Option (Order × Nat) :=
  match s.toList.dropWhile Char.isAlpha with
  | ':' :: digits =>
    if digits ≠ [] ∧ digits.all Char.isDigit then
      (Order.ofText (String.ofList (s.toList.takeWhile Char.isAlpha))).map
        (·, Nat.ofDigitChars 10 digits 0)
    else none
  | _ => none

/-! ## The op -/

structure StreamArgs where
  since_ts : Option Bound
  until_ts : Option Bound
  limit : Option ℚ
  order : Option String

/-- The order, and the id to go on behind. The cursor wins over the arguments. -/
def resolve (args : StreamArgs) (page : Option String) : Except (Reply δ) (Order × Option Nat) :=
  match page.filter (· ≠ "") with
  | some s =>
    match parse_cursor s with
    | some (order, after_id) => .ok (order, some after_id)
    | none => .error (.err "bad_request" "invalid page cursor")
  | none =>
    match args.order with
    | none => .ok (.desc, none)
    | some s =>
      match Order.ofText s with
      | some order => .ok (order, none)
      | none => .error (.err "bad_request" "order must be 'asc' or 'desc'")

def limitOf (srv : Server δ) (args : StreamArgs) : Except (Reply δ) Nat :=
  match args.limit with
  | some l =>
    if l < 1 then .error (.err "bad_request" "limit must be a positive integer")
    else .ok (min ⌊l⌋.toNat srv.max_page_rows)
  | none => .ok srv.max_page_rows

def Row.out (r : Row δ) : OutRow δ := ⟨r.id, r.recorded_at, r.data⟩

/-- The loop that drops rows until the reply fits, with `n` rows left. -/
def trim (srv : Server δ) (order : Order) (data : List (OutRow δ)) :
    Nat → Option String → Reply δ
  | 0, _ => .err "payload_too_big" "first stream row exceeds max_reply_bytes"
  | n + 1, next =>
    let reply := Reply.ok (data.take (n + 1)) next
    match srv.size reply with
    | none => .err "internal" "encode failed"
    | some size =>
      if size ≤ srv.max_reply_bytes then reply
      else trim srv order data n ((data.take n).getLast?.map fun o => make_cursor order o.id)

def op_stream (srv : Server δ) (real : RealText) (t : Table δ) (args : StreamArgs)
    (page : Option String) : Reply δ :=
  match resolve args page, limitOf srv args with
  | .error reply, _ => reply
  | _, .error reply => reply
  | .ok (order, after_id), .ok limit =>
    let rows := list_stream_data real t
      ⟨order, limit + 1, after_id, args.since_ts, args.until_ts⟩
    let more_available := limit < rows.length
    let data := (rows.take limit).map Row.out
    if data.isEmpty then .ok [] none
    else trim srv order data data.length
      (if more_available then data.getLast?.map fun o => make_cursor order o.id else none)

/-- The end of `handle`: the reply is encoded for the wire. What the library says of an error is left
out. -/
def finish (srv : Server δ) (reply : Reply δ) : Reply δ :=
  match srv.size reply with
  | none => .err "internal" "encode failed"
  | some size =>
    if srv.max_reply_bytes < size then .err "payload_too_big"
      ("reply " ++ toString size ++ " > max_reply_bytes " ++ toString srv.max_reply_bytes)
    else reply

def handle (srv : Server δ) (real : RealText) (t : Table δ) (args : StreamArgs)
    (page : Option String) : Reply δ :=
  finish srv (op_stream srv real t args page)

/-- The client follows `next_page` until it is absent, for at most `n` pages. -/
def follow (srv : Server δ) (real : RealText) (t : Table δ) (args : StreamArgs) :
    Nat → Option String → Option (List (Reply δ))
  | 0, _ => none
  | n + 1, page =>
    let reply := handle srv real t args page
    match reply.next_page with
    | none => some [reply]
    | some next => (follow srv real t args n (some next)).map (reply :: ·)

end motioncore.persistence.query
