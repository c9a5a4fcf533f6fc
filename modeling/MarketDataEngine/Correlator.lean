import MarketDataEngine.ShadowBook
import MarketDataEngine.TradeBuffer

/-!
# The correlator

`Correlator` turns L2 updates and trades into the L3 stream (`src/utils/correlator.cpp`): an update
that raises a level adds an order, one that lowers it fills the orders at the front as far as a
buffered trade explains the decrease, and cancels the rest. What it passes to `event_cb_`, and the
entries it logs as `TradeNoL2Match`, are the lists its operations return, in that order.

Its view is the two books' levels, queues and next ids; `decrease` and `matched` are the quantities
an update takes from a level and from the buffer.
-/

namespace MarketDataEngine

/-- The arguments of `on_trade`. -/
structure Trade where
  ts : Timestamp
  price : Price
  qty : Qty
  aggressorSide : Side
  tradeId : UInt64
  deriving DecidableEq, Repr

/-- The arguments of `on_l2_update`. -/
structure L2Update where
  ts : Timestamp
  action : L2Action
  price : Price
  newQty : Qty
  side : Side
  recvTs : UInt64
  deriving DecidableEq, Repr

/-- The correlator: a book for each side, and the trades that wait. -/
structure Correlator where
  bidBook : ShadowBook := {}
  askBook : ShadowBook := {}
  tradeBuffer : TradeBuffer := {}

namespace Correlator

/-- `book_for`: the book of a side. -/
def bookFor (c : Correlator) (s : Side) : ShadowBook :=
  if s = .bid then c.bidBook else c.askBook

/-- The effect of a write through the reference `book_for` returns. -/
def setBook (c : Correlator) (s : Side) (b : ShadowBook) : Correlator :=
  if s = .bid then { c with bidBook := b } else { c with askBook := b }

/-- Buffers a trade. The side is not recorded. -/
def onTrade (c : Correlator) (t : Trade) : Correlator :=
  { c with tradeBuffer := c.tradeBuffer.add t.ts t.price t.qty t.tradeId }

/-- Reports a decrease: fills for the part that the buffer explains, cancels for the rest. -/
def processDecrease (c : Correlator) (ts : Timestamp) (price : Price) (decreaseQty : Qty)
    (side : Side) (recvTs : UInt64) : Correlator × List L3Event :=
  let (buffer, filledQty, tradeId) := c.tradeBuffer.consume ts price decreaseQty 0
  let cancelQty := decreaseQty - filledQty
  let book := c.bookFor side
  let (book, fills) :=
    if 0 < filledQty then book.consume price filledQty .orderFill ts recvTs tradeId else (book, [])
  let (book, cancels) :=
    if 0 < cancelQty then book.consume price cancelQty .orderCancel ts recvTs 0 else (book, [])
  ({ c with tradeBuffer := buffer }.setBook side book,
    (fills ++ cancels).map fun ev => { ev with side := side })

/-- Drops the buffered trades before `ts`, and returns those it logs. -/
def flushBefore (c : Correlator) (ts : Timestamp) : Correlator × List FlushedEntry :=
  let (buffer, flushed) := c.tradeBuffer.flushBefore ts
  ({ c with tradeBuffer := buffer }, flushed)

/-- The event of a new order. -/
def addEvent (u : L2Update) (id : OrderId) (qty : Qty) : L3Event where
  type := .orderAdd
  side := u.side
  orderId := id
  price := u.price
  qty := qty
  exchangeTs := u.ts
  recvTsNs := u.recvTs
  tradeId := 0

/-- Applies an L2 update: the trades it logs as unmatched, and the events it emits. -/
def onL2Update (c : Correlator) (u : L2Update) :
    Correlator × List FlushedEntry × List L3Event :=
  let (c, flushed) := c.flushBefore u.ts
  let (book, delta) := (c.bookFor u.side).apply u.action u.price u.newQty
  let c := c.setBook u.side book
  if 0 < delta then
    let (book, id) := (c.bookFor u.side).addOrder u.price (UInt32.ofInt delta)
    (c.setBook u.side book, flushed, [addEvent u id (UInt32.ofInt delta)])
  else if delta < 0 then
    let (c, events) := c.processDecrease u.ts u.price (UInt32.ofInt (-delta)) u.side u.recvTs
    (c, flushed, events)
  else (c, flushed, [])

/-! ## The view of a correlator -/

@[simp] theorem bookFor_setBook (c : Correlator) (s s' : Side) (b : ShadowBook) :
    (c.setBook s b).bookFor s' = if s' = s then b else c.bookFor s' := by
  cases s <;> cases s' <;> rfl

@[simp] theorem setBook_tradeBuffer (c : Correlator) (s : Side) (b : ShadowBook) :
    (c.setBook s b).tradeBuffer = c.tradeBuffer := by
  cases s <;> rfl

/-- The state of a price on a side. -/
def level (c : Correlator) (s : Side) (p : Price) : LevelState := (c.bookFor s).level p

/-- The queue of a price on a side. -/
def lots (c : Correlator) (s : Side) (p : Price) : List (OrderId × ℕ) := (c.bookFor s).lots p

/-- The quantity a book holds for a price on a side. -/
def totalQty (c : Correlator) (s : Side) (p : Price) : Qty := (c.bookFor s).getQty p

/-- The id the next order of a side gets. -/
def nextOrderId (c : Correlator) (s : Side) : OrderId := (c.bookFor s).nextOrderId

@[simp] theorem level_init (s : Side) (p : Price) : ({} : Correlator).level s p = {} := by
  cases s <;> simp [level, bookFor, ShadowBook.level]

/-- The quantity of a level is one of its book. -/
theorem totalQty_eq (c : Correlator) (s : Side) (p : Price) :
    c.totalQty s p = (c.level s p).totalQty := by
  rw [totalQty, ShadowBook.getQty_eq, level]

/-- The lots of a level are those of its queue. -/
theorem lots_eq (c : Correlator) (s : Side) (p : Price) :
    c.lots s p = (c.level s p).orders.map SyntheticOrder.lot := rfl

end Correlator

/-- The quantity the update reports for its side and price. -/
def L2Update.reported (u : L2Update) : Qty := reportedQty u.action u.newQty

namespace Correlator

/-- By how much the update lowers its level. -/
def decrease (c : Correlator) (u : L2Update) : ℕ :=
  (c.totalQty u.side u.price).toNat - u.reported.toNat

/-- The quantity of the decrease that the buffered trades explain. -/
def matched (c : Correlator) (u : L2Update) : ℕ :=
  min (c.tradeBuffer.buffered u.ts u.price) (c.decrease u)

end Correlator
end MarketDataEngine
