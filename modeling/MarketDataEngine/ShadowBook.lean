import Std.Data.ExtTreeMap
import MarketDataEngine.Types
import MarketDataEngine.Lib.Fifo

/-!
# The shadow book of one side

`ShadowBook` keeps, for every price, the quantity reported by the L2 feed and a queue of synthetic
orders (`src/utils/shadow_book.cpp`). `apply` records a report and returns its change, `addOrder`
queues a new order and `consume` takes a quantity from the front of a queue, one event for each
order it touches. A `std::map` is an `ExtTreeMap`, a `std::deque` a list with its front first, and
the `out` vector that `consume` appends to is the list it returns.

Callers read a book through `level`, the state of a price with an absent level read as the default
one, and through `lots`, a queue as labelled quantities; `consume` is `Fifo.take` and `Fifo.drop` on
these.
-/

open Std

namespace MarketDataEngine

/-- An order of the book: its id and what is left of it. -/
structure SyntheticOrder where
  orderId : OrderId
  qty : Qty
  deriving DecidableEq, Repr

/-- A level: the quantity the book has for it, and the queue of its orders. -/
structure LevelState where
  totalQty : Qty := 0
  orders : List SyntheticOrder := []
  deriving DecidableEq, Repr

/-- The book of one side: its levels by price, and the next id. -/
structure ShadowBook where
  levels : ExtTreeMap Price LevelState := ∅
  nextOrderId : OrderId := 1

namespace ShadowBook

/-- Records a report of the L2 feed, and returns the change of the level's quantity. The change of
two 32-bit quantities fits an `int64_t`. -/
def apply (b : ShadowBook) (action : L2Action) (price : Price) (newQty : Qty) :
    ShadowBook × Int :=
  match action with
  | .new =>
    -- `levels_[price]` creates an absent level
    let level := b.levels.getD price {}
    ({ b with levels := b.levels.insert price { level with totalQty := newQty } },
      (newQty.toNat : Int) - level.totalQty.toNat)
  | .change =>
    match b.levels[price]? with
    | none =>
      ({ b with levels := b.levels.insert price { totalQty := newQty } }, (newQty.toNat : Int))
    | some level =>
      ({ b with levels := b.levels.insert price { level with totalQty := newQty } },
        (newQty.toNat : Int) - level.totalQty.toNat)
  | .delete =>
    match b.levels[price]? with
    | none => (b, 0)
    | some level => ({ b with levels := b.levels.erase price }, -(level.totalQty.toNat : Int))

/-- The event `consume` pushes for `qty` of the order `orderId`. It does not know the side, which is
value-initialised to the first enumerator. -/
def consumeEvent (price : Price) (type : L3EventType) (ts : Timestamp) (recvTs tradeId : UInt64)
    (orderId : OrderId) (qty : Qty) : L3Event where
  type := type
  side := .bid
  orderId := orderId
  price := price
  qty := qty
  exchangeTs := ts
  recvTsNs := recvTs
  tradeId := if type = .orderFill then tradeId else 0

/-- The loop of `consume`: the orders left, the quantity still to consume and the events pushed. -/
def consumeLoop (price : Price) (type : L3EventType) (ts : Timestamp) (recvTs tradeId : UInt64) :
    List SyntheticOrder → Qty → List SyntheticOrder × Qty × List L3Event
  | [], remaining => ([], remaining, [])
  | front :: orders, remaining =>
    if 0 < remaining then
      if front.qty ≤ remaining then
        let (orders', remaining', out) :=
          consumeLoop price type ts recvTs tradeId orders (remaining - front.qty)
        (orders', remaining',
          consumeEvent price type ts recvTs tradeId front.orderId front.qty :: out)
      else
        -- nothing remains, so the loop ends here
        ({ front with qty := front.qty - remaining } :: orders, 0,
          [consumeEvent price type ts recvTs tradeId front.orderId remaining])
    else (front :: orders, remaining, [])

/-- Takes up to `qty` from the front of the level's queue, one cancel or fill event for each order
it touches. -/
def consume (b : ShadowBook) (price : Price) (qty : Qty) (type : L3EventType) (ts : Timestamp)
    (recvTs tradeId : UInt64) : ShadowBook × List L3Event :=
  match b.levels[price]? with
  | none => (b, [])
  | some level =>
    let (orders, remaining, out) := consumeLoop price type ts recvTs tradeId level.orders qty
    let level' := { totalQty := level.totalQty - (qty - remaining), orders := orders }
    ({ b with
        levels :=
          if orders.isEmpty then b.levels.erase price else b.levels.insert price level' }, out)

/-- Queues a new order of quantity `qty`. -/
def addOrder (b : ShadowBook) (price : Price) (qty : Qty) : ShadowBook × OrderId :=
  let level := b.levels.getD price {}
  let id := b.nextOrderId
  ({ levels := b.levels.insert price
      { totalQty := level.totalQty + qty, orders := level.orders ++ [⟨id, qty⟩] }
     nextOrderId := b.nextOrderId + 1 }, id)

/-- `get_qty`: the quantity of a level, or zero. -/
def getQty (b : ShadowBook) (price : Price) : Qty :=
  match b.levels[price]? with
  | some level => level.totalQty
  | none => 0

/-- `has_level`: the level is in the map. -/
def hasLevel (b : ShadowBook) (price : Price) : Bool := b.levels.contains price

end ShadowBook

/-! ## The view of a book -/

/-- The order's label and quantity. -/
def SyntheticOrder.lot (o : SyntheticOrder) : OrderId × ℕ := (o.orderId, o.qty.toNat)

/-- The label and quantity of the order the event is about. -/
def L3Event.lot (e : L3Event) : OrderId × ℕ := (e.orderId, e.qty.toNat)

/-- The quantity a report leaves at its price: nothing when the level is deleted. -/
def reportedQty (action : L2Action) (newQty : Qty) : Qty := if action = .delete then 0 else newQty

/-- An order is known by its lot. -/
theorem SyntheticOrder.lot_injective : Function.Injective SyntheticOrder.lot := by
  rintro ⟨id, q⟩ ⟨id', q'⟩ h
  simp only [lot, Prod.mk.injEq, UInt32.toNat_inj] at h
  rw [h.1, h.2]

namespace ShadowBook

/-- The state of a price, an absent level read as the one `levels_[price]` would create. -/
def level (b : ShadowBook) (price : Price) : LevelState := b.levels.getD price {}

/-- The queue of a price. -/
def lots (b : ShadowBook) (price : Price) : List (OrderId × ℕ) :=
  (b.level price).orders.map SyntheticOrder.lot

/-- A level that is not there is empty. -/
theorem level_eq_getD (b : ShadowBook) (price : Price) :
    b.level price = (b.levels[price]?).getD {} := by
  rw [level, ExtTreeMap.getD_eq_getD_getElem?]

/-- `get_qty` is zero where there is no level. -/
theorem getQty_eq (b : ShadowBook) (price : Price) : b.getQty price = (b.level price).totalQty := by
  rw [getQty, level_eq_getD]
  cases b.levels[price]? <;> rfl

/-- A level is there iff it is found. -/
theorem hasLevel_iff (b : ShadowBook) (price : Price) :
    b.hasLevel price ↔ ∃ level, b.levels[price]? = some level := by
  rw [hasLevel, ← ExtTreeMap.isSome_getElem?_eq_contains, Option.isSome_iff_exists]

/-! ## `apply` -/

@[simp] theorem apply_nextOrderId (b : ShadowBook) (action : L2Action) (price : Price)
    (newQty : Qty) : (b.apply action price newQty).1.nextOrderId = b.nextOrderId := by
  unfold apply
  cases action with
  | new => rfl
  | change | delete => dsimp only; split <;> rfl

/-- The change `apply` returns is the reported quantity less the level's quantity. -/
theorem apply_delta (b : ShadowBook) (action : L2Action) (price : Price) (newQty : Qty) :
    (b.apply action price newQty).2 =
      ((reportedQty action newQty).toNat : Int) - (b.level price).totalQty.toNat := by
  unfold apply
  rw [level_eq_getD]
  cases action with
  | new => simp [reportedQty, ExtTreeMap.getD_eq_getD_getElem?]
  | change => dsimp only; split <;> rename_i h <;> simp [h, reportedQty]
  | delete => dsimp only; split <;> rename_i h <;> simp [h, reportedQty]

/-- `apply` makes sure that the level is there, or drops it. -/
theorem apply_levels (b : ShadowBook) (action : L2Action) (price : Price) (newQty : Qty)
    (p : Price) :
    (b.apply action price newQty).1.levels[p]? =
      if p = price then
        if action = .delete then none else some { b.level price with totalQty := newQty }
      else b.levels[p]? := by
  unfold apply
  rcases eq_or_ne p price with rfl | hp
  · simp only [level_eq_getD]
    cases action with
    | new => simp [ExtTreeMap.getD_eq_getD_getElem?]
    | change => dsimp only; split <;> rename_i h <;> simp [h]
    | delete => dsimp only; split <;> rename_i h <;> simp [h]
  · cases action with
    | new => simp [ExtTreeMap.getElem?_insert, hp, Ne.symm hp]
    | change => dsimp only; split <;> simp [ExtTreeMap.getElem?_insert, hp, Ne.symm hp]
    | delete => dsimp only; split <;> simp [ExtTreeMap.getElem?_erase, hp, Ne.symm hp]

/-- `apply` writes the quantity of one level, or drops it with its queue. -/
theorem apply_level (b : ShadowBook) (action : L2Action) (price : Price) (newQty : Qty)
    (p : Price) :
    (b.apply action price newQty).1.level p =
      if p = price then
        if action = .delete then {} else { b.level price with totalQty := newQty }
      else b.level p := by
  rw [level_eq_getD, apply_levels]
  split
  · split <;> rfl
  · rw [level_eq_getD]

/-! ## `addOrder` -/

/-- `addOrder` puts one order at the back of one queue, and adds its quantity to the level's. -/
theorem addOrder_levels (b : ShadowBook) (price : Price) (qty : Qty) (p : Price) :
    (b.addOrder price qty).1.levels[p]? =
      if p = price then
        some
          { totalQty := (b.level price).totalQty + qty
            orders := (b.level price).orders ++ [⟨b.nextOrderId, qty⟩] }
      else b.levels[p]? := by
  rcases eq_or_ne p price with rfl | hp
  · simp [addOrder, level]
  · simp [addOrder, ExtTreeMap.getElem?_insert, hp, Ne.symm hp]

/-- What an order does to the levels. -/
theorem addOrder_level (b : ShadowBook) (price : Price) (qty : Qty) (p : Price) :
    (b.addOrder price qty).1.level p =
      if p = price then
        { totalQty := (b.level price).totalQty + qty
          orders := (b.level price).orders ++ [⟨b.nextOrderId, qty⟩] }
      else b.level p := by
  rw [level_eq_getD, addOrder_levels]
  split
  · rfl
  · rw [level_eq_getD]

@[simp] theorem addOrder_nextOrderId (b : ShadowBook) (price : Price) (qty : Qty) :
    (b.addOrder price qty).1.nextOrderId = b.nextOrderId + 1 := rfl

@[simp] theorem addOrder_id (b : ShadowBook) (price : Price) (qty : Qty) :
    (b.addOrder price qty).2 = b.nextOrderId := rfl

/-! ## `consume` -/

section
variable (price : Price) (type : L3EventType) (ts : Timestamp) (recvTs tradeId : UInt64)

/-- The loop leaves the queue without the units it takes. -/
theorem consumeLoop_orders (orders : List SyntheticOrder) (remaining : Qty) :
    (consumeLoop price type ts recvTs tradeId orders remaining).1.map SyntheticOrder.lot =
      Fifo.drop remaining.toNat (orders.map SyntheticOrder.lot) := by
  fun_induction consumeLoop price type ts recvTs tradeId orders remaining with
  | case1 => rfl
  | case2 front orders remaining hr hq orders' remaining' out heq ih =>
    have hr' := Nat.ne_of_gt (qty_pos_iff.1 hr)
    have hq' := UInt32.le_iff_toNat_le.1 hq
    rw [heq, UInt32.toNat_sub_of_le _ _ hq] at ih
    simp [Fifo.drop, SyntheticOrder.lot, hr', hq', ih]
  | case3 front orders remaining hr hq =>
    have hr' := Nat.ne_of_gt (qty_pos_iff.1 hr)
    have hq' := mt UInt32.le_iff_toNat_le.2 hq
    have hle : remaining ≤ front.qty := UInt32.le_of_lt (UInt32.not_le.1 hq)
    simp [Fifo.drop, SyntheticOrder.lot, hr', hq', UInt32.toNat_sub_of_le _ _ hle]
  | case4 front orders remaining hr =>
    simp [SyntheticOrder.lot, qty_eq_zero hr]

/-- The events of the loop are about the units it takes. -/
theorem consumeLoop_events (orders : List SyntheticOrder) (remaining : Qty) :
    (consumeLoop price type ts recvTs tradeId orders remaining).2.2.map L3Event.lot =
      Fifo.take remaining.toNat (orders.map SyntheticOrder.lot) := by
  fun_induction consumeLoop price type ts recvTs tradeId orders remaining with
  | case1 => rfl
  | case2 front orders remaining hr hq orders' remaining' out heq ih =>
    have hr' := Nat.ne_of_gt (qty_pos_iff.1 hr)
    have hq' := UInt32.le_iff_toNat_le.1 hq
    rw [heq, UInt32.toNat_sub_of_le _ _ hq] at ih
    simp [Fifo.take, SyntheticOrder.lot, L3Event.lot, consumeEvent, hr', hq', ← ih]
  | case3 front orders remaining hr hq =>
    have hr' := Nat.ne_of_gt (qty_pos_iff.1 hr)
    have hq' := mt UInt32.le_iff_toNat_le.2 hq
    simp [Fifo.take, SyntheticOrder.lot, L3Event.lot, consumeEvent, hr', hq']
  | case4 front orders remaining hr =>
    simp [qty_eq_zero hr]

/-- What remains to consume is what the queue does not have. -/
theorem consumeLoop_remaining (orders : List SyntheticOrder) (remaining : Qty) :
    (consumeLoop price type ts recvTs tradeId orders remaining).2.1.toNat =
      remaining.toNat - Fifo.total (orders.map SyntheticOrder.lot) := by
  fun_induction consumeLoop price type ts recvTs tradeId orders remaining with
  | case1 => simp
  | case2 front orders remaining hr hq orders' remaining' out heq ih =>
    rw [heq, UInt32.toNat_sub_of_le _ _ hq] at ih
    simp [SyntheticOrder.lot, ih, Nat.sub_sub]
  | case3 front orders remaining hr hq =>
    have hq' := mt UInt32.le_iff_toNat_le.2 hq
    simp only [List.map_cons, SyntheticOrder.lot, Fifo.total_cons, UInt32.toNat_zero]
    omega
  | case4 front orders remaining hr =>
    simp [qty_eq_zero hr]

/-- While an order is left, nothing remains to consume. -/
theorem consumeLoop_remaining_of_ne_nil (orders : List SyntheticOrder) (remaining : Qty)
    (h : (consumeLoop price type ts recvTs tradeId orders remaining).1 ≠ []) :
    (consumeLoop price type ts recvTs tradeId orders remaining).2.1 = 0 := by
  have hdrop : Fifo.drop remaining.toNat (orders.map SyntheticOrder.lot) ≠ [] := by
    rw [← consumeLoop_orders price type ts recvTs tradeId]
    exact fun hnil => h (List.map_eq_nil_iff.1 hnil)
  refine UInt32.toNat_inj.1 ?_
  rw [consumeLoop_remaining, Nat.sub_eq_zero_of_le (Fifo.le_total_of_drop_ne_nil hdrop)]
  rfl

/-- The events of the loop differ in their order and quantity only. -/
theorem consumeLoop_event_eq (orders : List SyntheticOrder) (remaining : Qty) :
    ∀ e ∈ (consumeLoop price type ts recvTs tradeId orders remaining).2.2,
      e = consumeEvent price type ts recvTs tradeId e.orderId e.qty := by
  fun_induction consumeLoop price type ts recvTs tradeId orders remaining with
  | case1 | case4 => simp
  | case2 front orders remaining hr hq orders' remaining' out heq ih =>
    rw [heq] at ih
    intro e he
    rcases List.mem_cons.1 he with rfl | he
    · rfl
    · exact ih e he
  | case3 front orders remaining hr hq =>
    intro e he
    rw [List.mem_singleton.1 he]
    rfl

end

/-- The orders the loop leaves do not depend on the events it pushes. -/
theorem consumeLoop_orders_congr (price : Price) (type : L3EventType) (ts : Timestamp)
    (recvTs tradeId : UInt64) (orders : List SyntheticOrder) (qty : Qty) :
    (consumeLoop price type ts recvTs tradeId orders qty).1 =
      (consumeLoop 0 .orderCancel 0 0 0 orders qty).1 :=
  SyntheticOrder.lot_injective.list_map (by rw [consumeLoop_orders, consumeLoop_orders])

end ShadowBook

/-- The level that stays when `qty` is taken from its queue: none without an order left. -/
def LevelState.less (level : LevelState) (qty : Qty) : Option LevelState :=
  if (ShadowBook.consumeLoop 0 .orderCancel 0 0 0 level.orders qty).1 = [] then none
  else some
    { totalQty := level.totalQty - qty
      orders := (ShadowBook.consumeLoop 0 .orderCancel 0 0 0 level.orders qty).1 }

namespace LevelState

/-- The queue of a level that is consumed. -/
theorem less_lots (level : LevelState) (qty : Qty) :
    ((level.less qty).getD {}).orders.map SyntheticOrder.lot =
      Fifo.drop qty.toNat (level.orders.map SyntheticOrder.lot) := by
  rw [← ShadowBook.consumeLoop_orders 0 .orderCancel 0 0 0, less]
  split <;> simp_all

/-- The quantity of a level that is consumed. -/
theorem less_totalQty (level : LevelState) (qty : Qty) :
    ((level.less qty).getD {}).totalQty =
      if Fifo.drop qty.toNat (level.orders.map SyntheticOrder.lot) = [] then 0
      else level.totalQty - qty := by
  simp only [← ShadowBook.consumeLoop_orders 0 .orderCancel 0 0 0, List.map_eq_nil_iff, less]
  split <;> rfl

/-- The level goes with its queue, or stays less the quantity. -/
theorem less_cases (level : LevelState) (qty : Qty) :
    (Fifo.drop qty.toNat (level.orders.map SyntheticOrder.lot) = [] ∧ level.less qty = none) ∨
      (Fifo.drop qty.toNat (level.orders.map SyntheticOrder.lot) ≠ [] ∧
        ∃ level', level.less qty = some level' ∧ level'.totalQty = level.totalQty - qty) := by
  rw [← ShadowBook.consumeLoop_orders 0 .orderCancel 0 0 0, Ne, List.map_eq_nil_iff, less]
  split <;> rename_i h
  · exact .inl ⟨h, rfl⟩
  · exact .inr ⟨h, _, rfl, rfl⟩

/-- Taking `f` and then the rest of `d` leaves what taking `d` leaves. -/
theorem less_less (level : LevelState) {f d : Qty} (h : f ≤ d) :
    (level.less f).bind (less · (d - f)) = level.less d := by
  have hsub : f.toNat + (d - f).toNat = d.toNat := by
    have := UInt32.le_iff_toNat_le.1 h
    rw [UInt32.toNat_sub_of_le _ _ h]
    omega
  have hrest : (ShadowBook.consumeLoop 0 .orderCancel 0 0 0
        (ShadowBook.consumeLoop 0 .orderCancel 0 0 0 level.orders f).1 (d - f)).1 =
      (ShadowBook.consumeLoop 0 .orderCancel 0 0 0 level.orders d).1 := by
    refine SyntheticOrder.lot_injective.list_map ?_
    simp only [ShadowBook.consumeLoop_orders, Fifo.drop_drop, hsub]
  have htotal : level.totalQty - f - (d - f) = level.totalQty - d := by grind
  by_cases he : (ShadowBook.consumeLoop 0 .orderCancel 0 0 0 level.orders f).1 = []
  · have hd : (ShadowBook.consumeLoop 0 .orderCancel 0 0 0 level.orders d).1 = [] := by
      rw [← hrest, he]
      rfl
    simp [less, he, hd]
  · simp [less, he, hrest, htotal]

end LevelState

namespace ShadowBook

section
variable (price : Price) (type : L3EventType) (ts : Timestamp) (recvTs tradeId : UInt64)
variable (b : ShadowBook) (qty : Qty)

@[simp] theorem consume_nextOrderId :
    (b.consume price qty type ts recvTs tradeId).1.nextOrderId = b.nextOrderId := by
  unfold consume
  split <;> rfl

/-- `consume` takes from one queue, and drops the level when no order is left. -/
theorem consume_levels (p : Price) :
    (b.consume price qty type ts recvTs tradeId).1.levels[p]? =
      if p = price then b.levels[price]?.bind (LevelState.less · qty) else b.levels[p]? := by
  unfold consume
  split
  · rename_i h
    split <;> simp_all
  · rename_i level h
    have hrem := consumeLoop_remaining_of_ne_nil price type ts recvTs tradeId level.orders qty
    simp only [h, Option.bind_some, LevelState.less]
    rw [← consumeLoop_orders_congr price type ts recvTs tradeId]
    by_cases hp : p = price
    · by_cases he : (consumeLoop price type ts recvTs tradeId level.orders qty).1 = []
      · simp [hp, he]
      · simp [hp, he, hrem he]
    · rw [if_neg hp]
      split <;> simp [ExtTreeMap.getElem?_erase, ExtTreeMap.getElem?_insert, Ne.symm hp]

/-- The events of `consume`, an absent level read as an empty queue. -/
theorem consume_events_eq : (b.consume price qty type ts recvTs tradeId).2 =
    (consumeLoop price type ts recvTs tradeId (b.level price).orders qty).2.2 := by
  unfold consume
  rw [level_eq_getD]
  split <;> rename_i h <;> simp [h, consumeLoop]

/-- The events of `consume` are about the units it takes from the queue. -/
theorem consume_events : (b.consume price qty type ts recvTs tradeId).2.map L3Event.lot =
    Fifo.take qty.toNat (b.lots price) := by
  rw [consume_events_eq, consumeLoop_events, lots]

/-- The events of `consume` differ in their order and quantity only. -/
theorem consume_event_eq : ∀ e ∈ (b.consume price qty type ts recvTs tradeId).2,
    e = consumeEvent price type ts recvTs tradeId e.orderId e.qty := by
  rw [consume_events_eq]
  exact consumeLoop_event_eq price type ts recvTs tradeId _ qty

/-- `consume` leaves the other levels alone. -/
theorem consume_level_of_ne {p : Price} (hp : p ≠ price) :
    (b.consume price qty type ts recvTs tradeId).1.level p = b.level p := by
  rw [level_eq_getD, consume_levels, if_neg hp, level_eq_getD]

/-- The queue after `consume`. -/
theorem consume_lots : (b.consume price qty type ts recvTs tradeId).1.lots price =
    Fifo.drop qty.toNat (b.lots price) := by
  rw [lots, lots, level_eq_getD, level_eq_getD, consume_levels, if_pos rfl]
  cases b.levels[price]? with
  | none => rfl
  | some level => exact level.less_lots qty

/-- The level's quantity after `consume`: the level goes with its last order. -/
theorem consume_totalQty :
    ((b.consume price qty type ts recvTs tradeId).1.level price).totalQty =
      if Fifo.drop qty.toNat (b.lots price) = [] then 0 else (b.level price).totalQty - qty := by
  rw [lots, level_eq_getD, level_eq_getD, consume_levels, if_pos rfl]
  cases b.levels[price]? with
  | none => simp
  | some level => exact level.less_totalQty qty

end

/-- Two books with the same levels and the same next id are the same. -/
theorem ext_levels {b b' : ShadowBook} (hl : ∀ p : Price, b.levels[p]? = b'.levels[p]?)
    (hn : b.nextOrderId = b'.nextOrderId) : b = b' := by
  cases b
  cases b'
  have := ExtTreeMap.ext_getElem? hl
  simp_all

/-- The book `consume` leaves does not depend on the events it pushes. -/
theorem consume_book_congr (b : ShadowBook) (price : Price) (qty : Qty) (type type' : L3EventType)
    (ts ts' : Timestamp) (recvTs recvTs' tradeId tradeId' : UInt64) :
    (b.consume price qty type ts recvTs tradeId).1 =
      (b.consume price qty type' ts' recvTs' tradeId').1 :=
  ext_levels (fun p => by rw [consume_levels, consume_levels]) (by simp)

/-- Two calls in a row leave the book that one call for both quantities leaves. -/
theorem consume_consume (b : ShadowBook) (price : Price) {f d : Qty} (h : f ≤ d)
    (type type' : L3EventType) (ts ts' : Timestamp) (recvTs recvTs' tradeId tradeId' : UInt64) :
    ((b.consume price f type ts recvTs tradeId).1.consume price (d - f) type' ts' recvTs'
      tradeId').1 = (b.consume price d type' ts' recvTs' tradeId').1 := by
  refine ext_levels (fun p => ?_) (by simp)
  simp only [consume_levels, if_true]
  split
  · cases b.levels[price]? with
    | none => rfl
    | some level => exact level.less_less h
  · rfl

end ShadowBook
end MarketDataEngine
