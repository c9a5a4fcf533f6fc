import MarketDataEngine.Lib.Arith
import MarketDataEngine.Trades

/-!
# The quantity arithmetic of a run

Quantities are unsigned 32-bit words, and none of their updates is checked. The code is restated
here with a record of its 32-bit arithmetic (`onL2UpdateTraced` and the functions it calls), and
`onL2UpdateTraced_val` says that the record is all it adds. `exact_iff` is the exact condition under
which no operation of a run wraps. What may wrap is `total_qty` alone, and only because `apply` has
written the reported quantity when `add_order` adds the raise to it and `consume` subtracts the
decrease from it once more (`exact_fails`).
-/

namespace MarketDataEngine

open Arith History

/-! ## The code with its arithmetic recorded -/

namespace ShadowBook

/-- `ShadowBook.consumeLoop`, traced. -/
def consumeLoopTraced (price : Price) (type : L3EventType) (ts : Timestamp)
    (recvTs tradeId : UInt64) :
    List SyntheticOrder → Qty → Traced (List SyntheticOrder × Qty × List L3Event)
  | [], remaining => pure ([], remaining, [])
  | front :: orders, remaining =>
    if 0 < remaining then
      if front.qty ≤ remaining then do
        let rest ← sub remaining front.qty
        let (orders', remaining', out) ←
          consumeLoopTraced price type ts recvTs tradeId orders rest
        pure (orders', remaining',
          consumeEvent price type ts recvTs tradeId front.orderId front.qty :: out)
      else do
        let left ← sub front.qty remaining
        pure ({ front with qty := left } :: orders, 0,
          [consumeEvent price type ts recvTs tradeId front.orderId remaining])
    else pure (front :: orders, remaining, [])

/-- `ShadowBook.consume`, traced. -/
def consumeTraced (b : ShadowBook) (price : Price) (qty : Qty) (type : L3EventType)
    (ts : Timestamp) (recvTs tradeId : UInt64) : Traced (ShadowBook × List L3Event) :=
  match b.levels[price]? with
  | none => pure (b, [])
  | some level => do
    let (orders, remaining, out) ←
      consumeLoopTraced price type ts recvTs tradeId level.orders qty
    let consumed ← sub qty remaining
    let totalQty ← sub level.totalQty consumed
    let level' := { totalQty := totalQty, orders := orders }
    pure ({ b with
        levels :=
          if orders.isEmpty then b.levels.erase price else b.levels.insert price level' }, out)

/-- `ShadowBook.addOrder`, traced. -/
def addOrderTraced (b : ShadowBook) (price : Price) (qty : Qty) :
    Traced (ShadowBook × OrderId) := do
  let level := b.levels.getD price {}
  let id := b.nextOrderId
  let totalQty ← add level.totalQty qty
  let level' := { totalQty := totalQty, orders := level.orders ++ [⟨id, qty⟩] }
  pure ({ levels := b.levels.insert price level', nextOrderId := b.nextOrderId + 1 }, id)

end ShadowBook

namespace TradeBuffer

/-- `TradeBuffer.add`, traced. -/
def addTraced (b : TradeBuffer) (ts : Timestamp) (price : Price) (qty : Qty) (tradeId : UInt64) :
    Traced TradeBuffer := do
  let priceMap := b.buffer.getD ts ∅
  let entry ← match priceMap[price]? with
    | none => pure { qty := qty, tradeId := tradeId }
    | some entry => do
      let sum ← Arith.add entry.qty qty
      pure { qty := sum, tradeId := tradeId }
  pure { buffer := b.buffer.insert ts (priceMap.insert price entry) }

/-- `TradeBuffer.consume`, traced. -/
def consumeTraced (b : TradeBuffer) (ts : Timestamp) (price : Price) (qty : Qty)
    (outTradeId : UInt64) : Traced (TradeBuffer × Qty × UInt64) :=
  match b.buffer[ts]? with
  | none => pure (b, 0, outTradeId)
  | some priceMap =>
    match priceMap[price]? with
    | none => pure (b, 0, outTradeId)
    | some entry => do
      let available := min entry.qty qty
      let left ← sub entry.qty available
      let entry' := { entry with qty := left }
      let priceMap' :=
        if entry'.qty = 0 then priceMap.erase price else priceMap.insert price entry'
      pure ({ buffer :=
          if priceMap'.isEmpty then b.buffer.erase ts else b.buffer.insert ts priceMap' },
        available, entry.tradeId)

end TradeBuffer

namespace Correlator

/-- `Correlator.onTrade`, traced. -/
def onTradeTraced (c : Correlator) (t : Trade) : Traced Correlator := do
  let buffer ← c.tradeBuffer.addTraced t.ts t.price t.qty t.tradeId
  pure { c with tradeBuffer := buffer }

/-- `Correlator.consumePos`, traced. -/
def consumePosTraced (b : ShadowBook) (price : Price) (qty : Qty) (type : L3EventType)
    (ts : Timestamp) (recvTs tradeId : UInt64) : Traced (ShadowBook × List L3Event) :=
  if 0 < qty then b.consumeTraced price qty type ts recvTs tradeId else pure (b, [])

/-- `Correlator.processDecrease`, traced. -/
def processDecreaseTraced (c : Correlator) (ts : Timestamp) (price : Price) (decreaseQty : Qty)
    (side : Side) (recvTs : UInt64) : Traced (Correlator × List L3Event) := do
  let (buffer, filledQty, tradeId) ← c.tradeBuffer.consumeTraced ts price decreaseQty 0
  let cancelQty ← sub decreaseQty filledQty
  let (book, fills) ←
    consumePosTraced (c.bookFor side) price filledQty .orderFill ts recvTs tradeId
  let (book, cancels) ← consumePosTraced book price cancelQty .orderCancel ts recvTs 0
  pure ({ c with tradeBuffer := buffer }.setBook side book,
    (fills ++ cancels).map fun ev => { ev with side := side })

/-- `Correlator.onL2Update`, traced. -/
def onL2UpdateTraced (c : Correlator) (u : L2Update) :
    Traced (Correlator × List FlushedEntry × List L3Event) :=
  let (c, flushed) := c.flushBefore u.ts
  let (book, delta) := (c.bookFor u.side).apply u.action u.price u.newQty
  let c := c.setBook u.side book
  if 0 < delta then do
    let qty ← cast delta
    let (book, id) ← (c.bookFor u.side).addOrderTraced u.price qty
    pure (c.setBook u.side book, flushed, [addEvent u id qty])
  else if delta < 0 then do
    let decrease ← cast (-delta)
    let (c, events) ← c.processDecreaseTraced u.ts u.price decrease u.side u.recvTs
    pure (c, flushed, events)
  else pure (c, flushed, [])

end Correlator

/-! ## The record is all that is added -/

section
variable (price : Price) (type : L3EventType) (ts : Timestamp) (recvTs tradeId : UInt64)

@[simp] theorem ShadowBook.consumeLoopTraced_val (orders : List SyntheticOrder) (remaining : Qty) :
    (consumeLoopTraced price type ts recvTs tradeId orders remaining).val =
      consumeLoop price type ts recvTs tradeId orders remaining := by
  induction orders generalizing remaining with
  | nil => rfl
  | cons front orders ih =>
    unfold consumeLoopTraced consumeLoop
    split
    · split <;> simp [ih]
    · rfl

@[simp] theorem ShadowBook.consumeTraced_val (b : ShadowBook) (qty : Qty) :
    (b.consumeTraced price qty type ts recvTs tradeId).val =
      b.consume price qty type ts recvTs tradeId := by
  unfold consumeTraced consume
  cases b.levels[price]? <;> simp

@[simp] theorem ShadowBook.addOrderTraced_val (b : ShadowBook) (qty : Qty) :
    (b.addOrderTraced price qty).val = b.addOrder price qty := rfl

@[simp] theorem TradeBuffer.addTraced_val (b : TradeBuffer) (qty : Qty) :
    (b.addTraced ts price qty tradeId).val = b.add ts price qty tradeId := by
  cases h : (b.buffer.getD ts ∅)[price]? <;> simp [addTraced, add, h]

@[simp] theorem TradeBuffer.consumeTraced_val (b : TradeBuffer) (qty : Qty) :
    (b.consumeTraced ts price qty tradeId).val = b.consume ts price qty tradeId := by
  unfold consumeTraced consume
  cases b.buffer[ts]? with
  | none => rfl
  | some m =>
    dsimp only
    cases m[price]? <;> rfl

@[simp] theorem Correlator.onTradeTraced_val (c : Correlator) (t : Trade) :
    (c.onTradeTraced t).val = c.onTrade t := by
  simp [onTradeTraced, onTrade]

@[simp] theorem Correlator.consumePosTraced_val (b : ShadowBook) (qty : Qty) :
    (consumePosTraced b price qty type ts recvTs tradeId).val =
      consumePos b price qty type ts recvTs tradeId := by
  unfold consumePosTraced consumePos
  split
  · exact b.consumeTraced_val price type ts recvTs tradeId qty
  · rfl

@[simp] theorem Correlator.processDecreaseTraced_val (c : Correlator) (d : Qty) (s : Side) :
    (c.processDecreaseTraced ts price d s recvTs).val =
      c.processDecrease ts price d s recvTs := by
  rw [processDecrease_eq]
  simp [processDecreaseTraced, fills, cancels]

/-- **The recorded code computes what the code computes.** -/
@[simp] theorem Correlator.onL2UpdateTraced_val (c : Correlator) (u : L2Update) :
    (c.onL2UpdateTraced u).val = c.onL2Update u := by
  unfold onL2UpdateTraced onL2Update
  dsimp only
  split
  · simp
  · split
    · simp
    · rfl

end

/-! ## Exact steps -/

section
variable (price : Price) (type : L3EventType) (ts : Timestamp) (recvTs tradeId : UInt64)

/-- The loop subtracts only what is there. -/
theorem ShadowBook.consumeLoopTraced_exact (orders : List SyntheticOrder) (remaining : Qty) :
    (consumeLoopTraced price type ts recvTs tradeId orders remaining).Exact := by
  induction orders generalizing remaining with
  | nil => exact Traced.exact_pure _
  | cons front orders ih =>
    unfold consumeLoopTraced
    split
    · split <;> rename_i hq
      · simp [ih, hq]
      · simp [UInt32.le_of_lt (UInt32.not_le.1 hq)]
    · exact Traced.exact_pure _

/-- `consume` is exact iff what it takes from the queue of a level is within `total_qty`. -/
theorem ShadowBook.consumeTraced_exact (b : ShadowBook) (qty : Qty) :
    (b.consumeTraced price qty type ts recvTs tradeId).Exact ↔
      ∀ level, b.levels[price]? = some level →
        min qty.toNat (Fifo.total (b.lots price)) ≤ level.totalQty.toNat := by
  unfold consumeTraced lots
  rw [level_eq_getD]
  cases b.levels[price]? with
  | none => simp
  | some level =>
    have hrem := consumeLoop_remaining price type ts recvTs tradeId level.orders qty
    have hle : (consumeLoop price type ts recvTs tradeId level.orders qty).2.1 ≤ qty := by
      rw [UInt32.le_iff_toNat_le, hrem]
      exact Nat.sub_le ..
    simp only [Traced.exact_bind, consumeLoopTraced_exact, consumeLoopTraced_val, exact_sub, hle,
      sub_val, Traced.exact_pure, true_and, and_true, UInt32.le_iff_toNat_le,
      UInt32.toNat_sub_of_le _ _ hle, hrem, Option.some.injEq, forall_eq', Option.getD_some]
    omega

/-- An order is added exactly iff the level has room for it. -/
theorem ShadowBook.addOrderTraced_exact (b : ShadowBook) (qty : Qty) :
    (b.addOrderTraced price qty).Exact ↔
      (b.level price).totalQty.toNat + qty.toNat < 2 ^ 32 := by
  simp [addOrderTraced, level]

/-- The buffer adds up exactly iff the sum fits. -/
theorem TradeBuffer.addTraced_exact (b : TradeBuffer) (qty : Qty) :
    (b.addTraced ts price qty tradeId).Exact ↔
      b.buffered ts price + qty.toNat < 2 ^ 32 := by
  have hqty := qty.toNat_lt
  unfold addTraced buffered entry
  rw [Std.ExtTreeMap.getD_eq_getD_getElem?]
  cases hb : b.buffer[ts]? with
  | none => simpa using hqty
  | some m =>
    cases hm : m[price]? with
    | none => simpa [hm] using hqty
    | some e => simp [hm]

/-- The buffer gives up only what it holds. -/
theorem TradeBuffer.consumeTraced_exact (b : TradeBuffer) (qty : Qty) :
    (b.consumeTraced ts price qty tradeId).Exact := by
  unfold consumeTraced
  cases b.buffer[ts]? with
  | none => exact Traced.exact_pure _
  | some m =>
    dsimp only
    cases m[price]? with
    | none => exact Traced.exact_pure _
    | some e =>
      have hle : min e.qty qty ≤ e.qty := by
        rw [UInt32.le_iff_toNat_le, qty_min_toNat]
        exact Nat.min_le_left ..
      simp [hle]

end

/-- What the queue of a level gives of `qty` is within the level's `total_qty`. -/
def ShadowBook.Affords (b : ShadowBook) (price : Price) (qty : ℕ) : Prop :=
  ∀ level, b.levels[price]? = some level →
    min qty (Fifo.total (b.lots price)) ≤ level.totalQty.toNat

namespace Correlator

section
variable (b : ShadowBook) (price : Price) (type : L3EventType) (ts : Timestamp)
  (recvTs tradeId : UInt64)

/-- A book is consumed exactly iff it affords the quantity. -/
theorem consumePosTraced_exact (qty : Qty) :
    (consumePosTraced b price qty type ts recvTs tradeId).Exact ↔ b.Affords price qty.toNat := by
  unfold consumePosTraced
  split
  · exact b.consumeTraced_exact price type ts recvTs tradeId qty
  · rename_i h
    refine iff_of_true (Traced.exact_pure _) ?_
    intro level _
    simp [qty_eq_zero h]

/-- A decrease is within `total_qty` iff it is in the two parts it is taken in. -/
theorem affords_consumePos {f d : Qty} (hf : f ≤ d) :
    (b.Affords price f.toNat ∧
        (consumePos b price f type ts recvTs tradeId).1.Affords price (d - f).toNat) ↔
      b.Affords price d.toNat := by
  have hsub := UInt32.toNat_sub_of_le _ _ hf
  have hle := UInt32.le_iff_toNat_le.1 hf
  rcases Nat.eq_zero_or_pos f.toNat with hz | hpos
  · obtain rfl : f = 0 := UInt32.toNat_inj.1 hz
    rw [consumePos_zero, UInt32.sub_zero]
    exact and_iff_right fun level _ => by simp
  unfold ShadowBook.Affords
  rw [consumePos_lots, Fifo.total_drop, hsub]
  rw [consumePos, if_pos (qty_pos_iff.2 hpos), ShadowBook.consume_levels, if_pos rfl]
  have hlots : b.lots price = ((b.levels[price]?).getD {}).orders.map SyntheticOrder.lot := by
    rw [ShadowBook.lots, ShadowBook.level_eq_getD]
  cases hl : b.levels[price]? with
  | none => simp
  | some level =>
    have htotal := Fifo.total_drop f.toNat (b.lots price)
    rw [hl, Option.getD_some] at hlots
    simp only [Option.bind_some, Option.some.injEq, forall_eq']
    rcases level.less_cases f with ⟨hdrop, hless⟩ | ⟨hdrop, level', hless, hqty⟩
    · -- the first part takes the whole queue
      rw [← hlots] at hdrop
      rw [hdrop, Fifo.total_nil] at htotal
      simp only [hless, reduceCtorEq, false_imp_iff, implies_true, and_true]
      omega
    · have hf' := Fifo.le_total_of_drop_ne_nil hdrop
      rw [← hlots] at hf'
      simp only [hless, Option.some.injEq, forall_eq', hqty]
      refine ⟨?_, ?_⟩
      · rintro ⟨hfirst, hrest⟩
        rw [UInt32.toNat_sub_of_le _ _ (UInt32.le_iff_toNat_le.2 (by omega))] at hrest
        omega
      · intro h
        rw [UInt32.toNat_sub_of_le _ _ (UInt32.le_iff_toNat_le.2 (by omega))]
        omega

end

section
variable (c : Correlator)

/-- A trade is buffered exactly iff the entry has room for it. -/
theorem onTradeTraced_exact (t : Trade) :
    (c.onTradeTraced t).Exact ↔ c.tradeBuffer.buffered t.ts t.price + t.qty.toNat < 2 ^ 32 := by
  simp [onTradeTraced, TradeBuffer.addTraced_exact]

/-- A decrease is reported exactly iff its level affords it. -/
theorem processDecreaseTraced_exact (ts : Timestamp) (price : Price) (d : Qty) (s : Side)
    (recvTs : UInt64) :
    (c.processDecreaseTraced ts price d s recvTs).Exact ↔
      (c.bookFor s).Affords price d.toNat := by
  have hle := c.consume_le ts price d
  rw [← affords_consumePos (c.bookFor s) price .orderFill ts recvTs
    (c.tradeBuffer.consume ts price d 0).2.2 hle]
  simp only [processDecreaseTraced, Traced.exact_bind, TradeBuffer.consumeTraced_exact,
    TradeBuffer.consumeTraced_val, exact_sub, hle, sub_val, consumePosTraced_exact,
    consumePosTraced_val, Traced.exact_pure, true_and, and_true]

/-- A call whose arithmetic fits: an added level holds its double count, and a lowered one keeps
what is taken from its queue. -/
def Fits : Call → Prop
  | .trade _ => True
  | .l2Update u => u.action ≠ .delete →
    if c.totalQty u.side u.price < u.newQty then
      u.newQty.toNat + (u.newQty.toNat - (c.totalQty u.side u.price).toNat) < 2 ^ 32
    else min (c.decrease u) (Fifo.total (c.lots u.side u.price)) ≤ u.newQty.toNat

/-- The level that a decrease is taken from is within its `total_qty`. -/
theorem applied_affords (u : L2Update) (d : ℕ) : (c.applied u).Affords u.price d ↔
    (u.action ≠ .delete → min d (Fifo.total (c.lots u.side u.price)) ≤ u.newQty.toNat) := by
  unfold ShadowBook.Affords applied
  rw [ShadowBook.apply_levels, if_pos rfl, ShadowBook.lots, ShadowBook.apply_level, if_pos rfl]
  by_cases ha : u.action = .delete
  · simp [ha]
  · simp [ha, lots_eq, level]

/-- What an update stores in `total_qty` before its orders are queued. -/
theorem applied_totalQty (u : L2Update) (ha : u.action ≠ .delete) :
    ((c.applied u).level u.price).totalQty = u.newQty := by
  rw [applied, ShadowBook.apply_level, if_pos rfl, if_neg ha]

/-- The arithmetic of an update is exact iff the update fits. -/
theorem onL2UpdateTraced_exact (u : L2Update) :
    (c.onL2UpdateTraced u).Exact ↔ c.Fits (.l2Update u) := by
  have hdelta := (c.bookFor u.side).apply_delta u.action u.price u.newQty
  rw [← ShadowBook.getQty_eq] at hdelta
  change _ = ((u.reported.toNat : Int) - (c.totalQty u.side u.price).toNat) at hdelta
  have hnew := u.reported.toNat_lt
  have hold := (c.totalQty u.side u.price).toNat_lt
  have hbook : ((c.flushBefore u.ts).1.setBook u.side
      ((c.bookFor u.side).apply u.action u.price u.newQty).1).bookFor u.side = c.applied u := by
    rw [bookFor_setBook, if_pos rfl, applied]
  unfold onL2UpdateTraced Fits
  simp only [flushBefore_bookFor, hdelta, hbook]
  rcases Nat.lt_trichotomy (c.totalQty u.side u.price).toNat u.reported.toNat with h | h | h
  · have hlt := UInt32.lt_iff_toNat_lt.2 h
    have ha : u.action ≠ .delete := fun ha => by
      rw [reported_of_delete u ha] at h
      exact absurd h (Nat.not_lt_zero _)
    rw [if_pos (by omega)]
    simp only [Traced.exact_bind, exact_cast, cast_val, ofInt_sub_of_le (UInt32.le_of_lt hlt),
      ShadowBook.addOrderTraced_exact, Traced.exact_pure, applied_totalQty c u ha,
      UInt32.toNat_sub_of_le _ _ (UInt32.le_of_lt hlt), and_true]
    rw [reported_of_ne u ha] at h hlt ⊢
    simp only [ha, ne_eq, not_false_eq_true, true_imp_iff, hlt, if_true]
    omega
  · rw [if_neg (by omega), if_neg (by omega)]
    refine iff_of_true (Traced.exact_pure _) ?_
    intro ha
    rw [reported_of_ne u ha] at h
    rw [if_neg (fun hlt => Nat.ne_of_lt (UInt32.lt_iff_toNat_lt.1 hlt) h), decrease,
      reported_of_ne u ha, h, Nat.sub_self, Nat.zero_min]
    exact Nat.zero_le _
  · have hlt := UInt32.lt_iff_toNat_lt.2 h
    rw [if_neg (by omega), if_pos (by omega), Int.neg_sub]
    simp only [Traced.exact_bind, exact_cast, cast_val, ofInt_sub_of_le (UInt32.le_of_lt hlt),
      processDecreaseTraced_exact, Traced.exact_pure, hbook, applied_affords, and_true,
      decrease_eq c u hlt]
    refine (and_iff_right (by omega)).trans (imp_congr_right fun ha => ?_)
    rw [reported_of_ne u ha] at h
    rw [if_neg fun hlt' => Nat.lt_asymm h (UInt32.lt_iff_toNat_lt.1 hlt')]

/-- A call with its arithmetic recorded. -/
def stepTraced : Call → Traced Correlator
  | .trade t => c.onTradeTraced t
  | .l2Update u => do
    let (c', _, _) ← c.onL2UpdateTraced u
    pure c'

end
end Correlator

/-! ## Runs -/

/-- The recorded run is the run. -/
theorem stepTraced_val (c : Correlator) (call : Call) :
    (c.stepTraced call).val = (c.step call).1 := by
  cases call with
  | trade t => exact c.onTradeTraced_val t
  | l2Update u => exact congrArg Prod.fst (c.onL2UpdateTraced_val u)

/-- What is buffered and what a call adds to it was traded in the run. -/
theorem buffered_add_le_traced {calls pre post : List Call} {t : Trade}
    (h : calls = pre ++ .trade t :: post) :
    (engine.state pre).tradeBuffer.buffered t.ts t.price + t.qty.toNat ≤
      traded t.ts t.price (engine.log calls) := by
  have hbacked := backed_run t.ts t.price pre
  unfold Backed at hbacked
  rw [traded_log] at hbacked ⊢
  have hself : Entry.tradedAt t.ts t.price (.call (.trade t)) = t.qty.toNat := if_pos ⟨rfl, rfl⟩
  rw [h, tally_append, tally_cons, hself]
  omega

/-- **When no quantity wraps.** As long as the quantity traded at each timestamp and price is below
2^32, all arithmetic of a run is exact iff every call fits. -/
theorem exact_iff (calls : List Call)
    (hlt : ∀ ts p, traded ts p (engine.log calls) < 2 ^ 32) :
    Always (fun pre call => ((engine.state pre).stepTraced call).Exact) calls ↔
      Always (fun pre call => (engine.state pre).Fits call) calls := by
  refine forall_congr' fun pre => forall_congr' fun call => forall_congr' fun post =>
    imp_congr_right fun h => ?_
  cases call with
  | trade t =>
    refine iff_of_true ((Correlator.onTradeTraced_exact _ t).2 ?_) trivial
    exact Nat.lt_of_le_of_lt (buffered_add_le_traced h) (hlt t.ts t.price)
  | l2Update u =>
    show ((engine.state pre).stepTraced (.l2Update u)).Exact ↔
      (engine.state pre).Fits (.l2Update u)
    rw [← Correlator.onL2UpdateTraced_exact]
    simp [Correlator.stepTraced]

/-- A decrease that is filled in part and cancelled in part, all within 32 bits. -/
theorem exact_example :
    Always (fun pre call => ((engine.state pre).stepTraced call).Exact)
        [.l2Update ⟨1, .new, 1000, 10, .bid, 0⟩, .trade ⟨2, 1000, 4, .bid, 7⟩,
          .l2Update ⟨2, .change, 1000, 13, .bid, 0⟩] ↔
      Always (fun pre call => (engine.state pre).Fits call)
        [.l2Update ⟨1, .new, 1000, 10, .bid, 0⟩, .trade ⟨2, 1000, 4, .bid, 7⟩,
          .l2Update ⟨2, .change, 1000, 13, .bid, 0⟩] :=
  exact_iff _ fun ts p => by
    rw [traded_log]
    simp only [tally_cons, tally_nil, Entry.tradedAt]
    split <;> decide

/-- A level of ten that goes to five holds five when its order of ten is taken from it. -/
theorem exact_fails : ¬ ∀ calls, (∀ ts p, traded ts p (engine.log calls) < 2 ^ 32) →
    Always (fun pre call => ((engine.state pre).stepTraced call).Exact) calls := by
  intro h
  have hwraps := h
    [.l2Update ⟨1, .new, 1000, 10, .bid, 0⟩, .l2Update ⟨2, .change, 1000, 5, .bid, 0⟩]
    (fun ts p => by rw [traded_log]; exact Nat.two_pow_pos 32)
    [.l2Update ⟨1, .new, 1000, 10, .bid, 0⟩] (.l2Update ⟨2, .change, 1000, 5, .bid, 0⟩) [] rfl
  revert hwraps
  decide +kernel

end MarketDataEngine
