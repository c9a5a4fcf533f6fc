import MarketDataEngine.Messages
import MarketDataEngine.Prices

/-!
# Notifications are read back

What the exchange reports, a change of some levels of a book or some trades, comes as the text of a
JSON document, and `on_message` should make exactly the calls of the report. `Notification.document`
is the document, with prices and quantities spelled as decimal numbers, and a whole feed of such
texts is the run of their calls (`feed_written`): nothing is lost, doubled, misread or reordered
between the wire and the correlator, although prices and quantities pass through doubles.
-/

namespace MarketDataEngine

open Json History MarketDataHandler

/-- How the exchange spells an action. -/
def L2Action.text : L2Action → List Char
  | .new => "new".toList
  | .change => "change".toList
  | .delete => "delete".toList

/-- A change of a level, with a price that doubles can tell from the next. -/
structure LevelChange where
  action : L2Action
  price : Price
  qty : Qty
  price_lt : price.toNat < 2 ^ 51

/-- A trade, with a price that doubles can tell from the next. -/
structure TradeReport where
  trade : Trade
  price_lt : trade.price.toNat < 2 ^ 51

/-- What a notification reports. -/
inductive Notification
  | trades (reports : List TradeReport)
  | book (ts : Timestamp) (bids asks : List LevelChange)

/-- The update that `on_message` makes of a level. -/
def LevelChange.update (l : LevelChange) (ts : Timestamp) (side : Side) (recvTs : UInt64) :
    L2Update where
  ts := ts
  action := l.action
  price := l.price
  newQty := l.qty
  side := side
  recvTs := recvTs

/-- The calls that a notification asks for, when it is received at `recvTs`. -/
def Notification.calls (recvTs : UInt64) : Notification → List Call
  | .trades reports => reports.map fun t => .trade t.trade
  | .book ts bids asks => bids.map (fun l => .l2Update (l.update ts .bid recvTs)) ++
      asks.map fun l => .l2Update (l.update ts .ask recvTs)

/-! ## Documents -/

/-- A price, spelled with its tenths. -/
def priceJson (p : Price) : Json := .num (fixed 1 p.toNat)

/-- A quantity, spelled with a point and a zero. -/
def qtyJson (q : Qty) : Json := .num (fixed 1 (q.toNat * 10))

/-- A timestamp as a signed integer, which the handler casts back. -/
def timestampJson (ts : Timestamp) : Json := ofInt64 ts.toInt64

/-- A level as a list of its action, price and quantity. -/
def LevelChange.json (l : LevelChange) : Json :=
  .arr [.str l.action.text, priceJson l.price, qtyJson l.qty]

/-- A trade with the members that the handler reads. -/
def TradeReport.json (t : TradeReport) : Json :=
  .obj [("trade_id".toList, .str (Nat.toDigits 10 t.trade.tradeId.toNat)),
    ("timestamp".toList, timestampJson t.trade.ts),
    ("price".toList, priceJson t.trade.price),
    ("direction".toList, .str (if t.trade.aggressorSide = .ask then "buy" else "sell").toList),
    ("amount".toList, qtyJson t.trade.qty)]

/-- The member `data` of a notification. -/
def Notification.data : Notification → Json
  | .trades reports => .arr (reports.map TradeReport.json)
  | .book ts bids asks =>
    .obj [("timestamp".toList, timestampJson ts),
      ("bids".toList, .arr (bids.map LevelChange.json)),
      ("asks".toList, .arr (asks.map LevelChange.json))]

/-- The document of a notification. -/
def Notification.document (n : Notification) : Json :=
  .obj [("jsonrpc".toList, .str "2.0".toList),
    ("method".toList, .str "subscription".toList),
    ("params".toList, .obj [("data".toList, n.data)])]

/-- The message of a notification that is received at a time. -/
def Notification.message (n : Notification) (recvTs : UInt64) : RawMessage :=
  ⟨recvTs, write n.document⟩

/-- Elements that are spelled one by one are spelled as an array. -/
theorem elemsSpelled_map {α : Type*} {f : α → Json} (h : ∀ a, NumbersSpelled (f a)) (xs : List α) :
    ElemsSpelled (xs.map f) := by
  induction xs with
  | nil => trivial
  | cons x xs ih => exact ⟨h x, ih⟩

/-- All numbers of a notification are spelled as JSON numbers. -/
theorem numbersSpelled_notification (n : Notification) : NumbersSpelled n.document := by
  have hfixed : ∀ N, isNumber (fixed 1 N) := isNumber_fixed (by decide)
  have hint : ∀ x, isNumber (intLit x) := isNumber_intLit
  have hlevel : ∀ l : LevelChange, NumbersSpelled l.json := fun l =>
    ⟨trivial, hfixed _, hfixed _, trivial⟩
  have htrade : ∀ t : TradeReport, NumbersSpelled t.json := fun t =>
    ⟨trivial, hint _, hfixed _, trivial, hfixed _, trivial⟩
  have hdata : NumbersSpelled n.data := by
    cases n with
    | trades reports => exact elemsSpelled_map htrade reports
    | book ts bids asks =>
      exact ⟨hint _, elemsSpelled_map hlevel bids, elemsSpelled_map hlevel asks, trivial⟩
  exact ⟨trivial, trivial, ⟨hdata, trivial⟩, trivial⟩

/-! ## Reading -/

section
variable {undefined : UndefinedCasts}

variable (undefined) in

/-- The price of a notification is read back, if it is small enough. -/
theorem getDouble_price {p : Price} (hp : p.toNat < 2 ^ 51) :
    ∃ x, getDouble (.binary64 undefined) (some (priceJson p)) = some x ∧
      (Doubles.binary64 undefined).toPrice x = p := by
  have hlit : decimal? (fixed 1 p.toNat) = some (p.toNat / (10 * 1 : ℕ) : ℚ) := by
    rw [decimal?_fixed (by decide)]
    norm_num
  refine ⟨toDouble _, ofLiteral_binary64 hlit (by decide) (by omega), ?_⟩
  rw [toPrice_toDouble one_pos hp, Nat.div_one, UInt64.ofNat_toNat]

variable (undefined) in

/-- Every quantity of a notification is read back. -/
theorem getDouble_qty (q : Qty) :
    ∃ x, getDouble (.binary64 undefined) (some (qtyJson q)) = some x ∧
      (Doubles.binary64 undefined).toQty x = q := by
  have hlt := q.toNat_lt
  have hdiv : q.toNat * 10 / 10 = q.toNat := by omega
  have hlit : decimal? (fixed 1 (q.toNat * 10)) = some ((q.toNat * 10 : ℕ) / (10 : ℕ) : ℚ) := by
    rw [decimal?_fixed (by decide)]
    norm_num
  refine ⟨toDouble _, ofLiteral_binary64 hlit (by decide) (by omega), ?_⟩
  rw [toQty_toDouble (by decide) (by omega) (by omega), hdiv, UInt32.ofNat_toNat]

/-- The action of a level is read back. -/
theorem action_of_text (a : L2Action) : (if a.text = "new".toList then L2Action.new
    else if a.text = "change".toList then .change else .delete) = a := by
  cases a <;> rfl

/-- A change of a level is read back. -/
theorem levelCall?_json (l : LevelChange) (ts : Timestamp) (side : Side) (recvTs : UInt64) :
    levelCall? (.binary64 undefined) ts side recvTs l.json =
      some (.l2Update (l.update ts side recvTs)) := by
  obtain ⟨x, hx, hprice⟩ := getDouble_price undefined l.price_lt
  obtain ⟨y, hy, hqty⟩ := getDouble_qty undefined l.qty
  have harr : l.json.arr? = some [.str l.action.text, priceJson l.price, qtyJson l.qty] := rfl
  simp only [levelCall?, harr, Option.bind_eq_bind, Option.bind_some, List.getElem?_cons_zero,
    List.getElem?_cons_succ, str?_str, hx, hy, hprice, hqty, action_of_text]
  rfl

/-- The levels of one side are read back, in their order. -/
theorem processLevels_json (levels : List LevelChange) (ts : Timestamp) (side : Side)
    (recvTs : UInt64) :
    processLevels (.binary64 undefined) (some (.arr (levels.map LevelChange.json))) ts side recvTs =
      levels.map fun l => .l2Update (l.update ts side recvTs) := by
  show (levels.map LevelChange.json).filterMap _ = _
  rw [List.filterMap_map, ← List.filterMap_eq_map]
  exact congrArg (List.filterMap · levels) (funext fun l => levelCall?_json l ts side recvTs)

/-- `stoull` skips no digit. -/
theorem isBlank_of_isDigit {c : Char} (hc : c.isDigit) : isBlank c = false := by
  simp only [Char.isDigit, Bool.and_eq_true, decide_eq_true_eq, ge_iff_le,
    UInt32.le_iff_toNat_le] at hc
  have hspace : c ≠ ' ' := by
    rintro rfl
    exact absurd hc.1 (by decide)
  have hlarge : ¬ c.toNat ≤ 13 := Nat.not_le.2 (Nat.lt_of_lt_of_le (by decide) hc.1)
  simp [isBlank, hspace, hlarge]

/-- Digits have no sign before them. -/
theorem signAndDigits_digits (n : ℕ) :
    signAndDigits (Nat.toDigits 10 n) = (false, Nat.toDigits 10 n) := by
  have hblank : (Nat.toDigits 10 n).dropWhile isBlank = Nat.toDigits 10 n := by
    obtain ⟨c, ds, hds⟩ := List.exists_cons_of_ne_nil (Nat.toDigits_ne_nil (n := n) (b := 10))
    have hc : c.isDigit := digits_isDigit n c (hds ▸ List.mem_cons_self ..)
    rw [hds, List.dropWhile_cons_of_neg]
    simp [isBlank_of_isDigit hc]
  rw [signAndDigits, hblank]
  split
  · exact absurd ‹_› (digits_ne_cons n (by decide) _)
  · exact absurd ‹_› (digits_ne_cons n (by decide) _)
  · rw [List.takeWhile_eq_self_iff.2 (digits_isDigit n)]

/-- `stoull` reads the digits of a 64-bit number back. -/
theorem stoull_digits {n : ℕ} (hn : n < 2 ^ 64) : stoull (Nat.toDigits 10 n) = .ok (.ofNat n) := by
  rw [stoull, signAndDigits_digits]
  dsimp only
  rw [nat?_digits]
  dsimp only
  rw [if_neg (Nat.not_le.2 hn)]
  rfl

/-- A trade is read back. -/
theorem validTrade?_json (t : TradeReport) : validTrade? (.binary64 undefined) t.json =
    some { t.trade with tradeId := 0 } := by
  obtain ⟨x, hx, hprice⟩ := getDouble_price undefined t.price_lt
  obtain ⟨y, hy, hqty⟩ := getDouble_qty undefined t.trade.qty
  have hts : (t.json.obj?.bind (field? "timestamp")).bind int64? = some t.trade.ts.toInt64 :=
    int64?_ofInt64 _
  have hprice' : t.json.obj?.bind (field? "price") = some (priceJson t.trade.price) := rfl
  have hdirection : (t.json.obj?.bind (field? "direction")).bind str? =
      some (if t.trade.aggressorSide = .ask then "buy" else "sell").toList := rfl
  have hamount : t.json.obj?.bind (field? "amount") = some (qtyJson t.trade.qty) := rfl
  have hside : (if (if t.trade.aggressorSide = .ask then "buy" else "sell").toList = "buy".toList
      then Side.ask else .bid) = t.trade.aggressorSide := by
    cases t.trade.aggressorSide <;> rfl
  simp only [validTrade?, hts, hprice', hdirection, hamount, Option.bind_eq_bind, Option.bind_some,
    hx, hy, hprice, hqty, hside, UInt64.toUInt64_toInt64]

/-- The id of a trade is read back. -/
theorem tradeId_json (t : TradeReport) : tradeId t.json = .ok t.trade.tradeId := by
  have hlookup : tradeIdString? t.json = some (Nat.toDigits 10 t.trade.tradeId.toNat) := rfl
  rw [tradeId, hlookup]
  dsimp only
  rw [stoull_digits t.trade.tradeId.toNat_lt, UInt64.ofNat_toNat]

/-- The trades of a notification are read back, in their order, and nothing is thrown. -/
theorem tradeCalls_json (reports : List TradeReport) :
    tradeCalls (.binary64 undefined) (reports.map TradeReport.json) =
      (reports.map fun t => .trade t.trade, none) := by
  induction reports with
  | nil => rfl
  | cons t reports ih =>
    rw [List.map_cons, tradeCalls, validTrade?_json, tradeId_json, ih]
    rfl

end

/-- The calls of a message are those of its data. -/
theorem messageCalls_document {parse : List Char → Option Json} {D : Doubles} {n : Notification}
    {text : List Char} (hparse : parse text = some n.document) (recvTs : UInt64) :
    messageCalls D parse recvTs text =
      match n with
      | .trades reports => tradeCalls D (reports.map TradeReport.json)
      | .book .. => (bookCalls D n.data recvTs, none) := by
  have hsub : IsSubscription parse text := by
    rw [IsSubscription, hparse]
    rfl
  have hparams : ((parse text).bind (field? "params")).bind obj? =
      some (.obj [("data".toList, n.data)]) := by
    rw [hparse]
    rfl
  rw [messageCalls, if_neg (not_not.2 hsub), hparams]
  cases n <;> rfl

/-- **A notification is read back.** -/
theorem messageCalls_written {parse : List Char → Option Json} {undefined : UndefinedCasts}
    {n : Notification} {text : List Char} (hparse : parse text = some n.document)
    (recvTs : UInt64) :
    messageCalls (.binary64 undefined) parse recvTs text = (n.calls recvTs, none) := by
  rw [messageCalls_document hparse]
  cases n with
  | trades reports => exact tradeCalls_json reports
  | book ts bids asks =>
    have hts : ((Notification.book ts bids asks).data.field? "timestamp").bind int64? =
        some ts.toInt64 := int64?_ofInt64 _
    have hbids : (Notification.book ts bids asks).data.field? "bids" =
        some (.arr (bids.map LevelChange.json)) := rfl
    have hasks : (Notification.book ts bids asks).data.field? "asks" =
        some (.arr (asks.map LevelChange.json)) := rfl
    dsimp only
    rw [bookCalls, hts, hbids, hasks]
    dsimp only
    rw [processLevels_json, processLevels_json, UInt64.toUInt64_toInt64]
    rfl

/-- The calls of a feed are those of its notifications, and none throws. -/
theorem feedCalls_written {parse : List Char → Option Json}
    (hparse : ∀ text v, Document text v → parse text = some v) (undefined : UndefinedCasts)
    (ns : List (UInt64 × Notification)) :
    feedCalls (.binary64 undefined) parse (ns.map fun n => n.2.message n.1) =
      (ns.flatMap fun n => n.2.calls n.1, none) := by
  induction ns with
  | nil => rfl
  | cons n ns ih =>
    have hread : parse (n.2.message n.1).text = some n.2.document :=
      hparse _ _ (document_write (numbersSpelled_notification n.2))
    rw [List.map_cons, feedCalls, messageCalls_written hread, ih]
    rfl

/-- **A feed of notifications is the run of their calls.** Whatever the notifications are and
whenever they are received, the handler that gets their texts has made exactly their calls, in their
order, and the process runs on. -/
theorem feed_written (parse : List Char → Option Json)
    (hparse : ∀ text v, Document text v → parse text = some v) (undefined : UndefinedCasts)
    (ns : List (UInt64 × Notification)) :
    (feed (.binary64 undefined) parse).log (ns.map fun n => n.2.message n.1) =
        handler.log (ns.flatMap fun n => n.2.calls n.1) ∧
      (feed (.binary64 undefined) parse).state (ns.map fun n => n.2.message n.1) =
        some (handler.state (ns.flatMap fun n => n.2.calls n.1)) := by
  obtain ⟨hlog, hstate⟩ := feed_run (.binary64 undefined) parse (ns.map fun n => n.2.message n.1)
  rw [feedCalls_written hparse] at hlog hstate
  exact ⟨hlog, hstate⟩

/-- A change of two levels, and a trade. -/
theorem feed_written_example :
    let ns : List (UInt64 × Notification) :=
      [(70, .book 5 [⟨.new, 10005, 3, by decide⟩] [⟨.delete, 10010, 0, by decide⟩]),
        (80, .trades [⟨⟨6, 10005, 2, .bid, 17⟩, by decide⟩])]
    let D := Doubles.binary64 ⟨fun _ => 0, fun _ => 0⟩
    (feed D Json.parse).log (ns.map fun n => n.2.message n.1) =
        handler.log (ns.flatMap fun n => n.2.calls n.1) ∧
      (feed D Json.parse).state (ns.map fun n => n.2.message n.1) =
        some (handler.state (ns.flatMap fun n => n.2.calls n.1)) :=
  feed_written Json.parse (fun _ _ h => parse_of_document h) _ _

end MarketDataEngine
