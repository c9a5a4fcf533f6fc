import MarketDataEngine.ShadowBook
import Mathlib.Logic.Function.Iterate

/-!
# What `consume` takes

The loop of `consume`, pass by pass, and what one call does as a whole (`consume_takesFifo`): the
loop ends with what `consumeLoop` computes, and takes a prefix of the queue, whole orders but the
last, which stays with what it was not asked for.
-/

namespace MarketDataEngine

/-- What the loop of `consume` works on. -/
structure ConsumeState where
  orders : List SyntheticOrder
  remaining : Qty
  out : List L3Event

/-- The loop goes on. -/
def ConsumeState.Guard (s : ConsumeState) : Prop := 0 < s.remaining ∧ s.orders ≠ []

/-- One pass of the loop. -/
def ConsumeState.pass (price : Price) (type : L3EventType) (ts : Timestamp)
    (recvTs tradeId : UInt64) (s : ConsumeState) : ConsumeState :=
  match s.orders with
  | [] => s
  | front :: orders =>
    if front.qty ≤ s.remaining then
      { orders := orders
        remaining := s.remaining - front.qty
        out := s.out ++
          [ShadowBook.consumeEvent price type ts recvTs tradeId front.orderId front.qty] }
    else
      { orders := { front with qty := front.qty - s.remaining } :: orders
        remaining := 0
        out := s.out ++
          [ShadowBook.consumeEvent price type ts recvTs tradeId front.orderId s.remaining] }

/-- From a queue, an exact prefix is taken and the rest left: whole orders, and of one more a
part. -/
inductive FifoPrefix : List SyntheticOrder → List (OrderId × Qty) → List SyntheticOrder → Prop
  | whole (done left : List SyntheticOrder) :
    FifoPrefix (done ++ left) (done.map fun o => (o.orderId, o.qty)) left
  | part (done : List SyntheticOrder) (o : SyntheticOrder) (left : List SyntheticOrder) (q : Qty)
      (pos : 0 < q) (less : q < o.qty) :
    FifoPrefix (done ++ o :: left) ((done.map fun o => (o.orderId, o.qty)) ++ [(o.orderId, q)])
      ({ o with qty := o.qty - q } :: left)

/-- An order that is taken whole stands in front of what is taken after it. -/
theorem FifoPrefix.cons {queue left : List SyntheticOrder} {taken : List (OrderId × Qty)}
    (h : FifoPrefix queue taken left) (o : SyntheticOrder) :
    FifoPrefix (o :: queue) ((o.orderId, o.qty) :: taken) left := by
  cases h with
  | whole done left => exact .whole (o :: done) left
  | part done o' left q pos less => exact .part (o :: done) o' left q pos less

namespace ShadowBook

section
variable (price : Price) (type : L3EventType) (ts : Timestamp) (recvTs tradeId : UInt64)

/-- The loop on a queue ends, after at most one pass for each order: at `s`, where the guard fails
for the first time. -/
def LoopEnds (orders : List SyntheticOrder) (qty : Qty) (out : List L3Event) (s : ConsumeState) :
    Prop :=
  ∃ n ≤ orders.length,
    (∀ m < n, ((ConsumeState.pass price type ts recvTs tradeId)^[m] ⟨orders, qty, out⟩).Guard) ∧
      (ConsumeState.pass price type ts recvTs tradeId)^[n] ⟨orders, qty, out⟩ = s ∧ ¬ s.Guard

/-- What a call of `consume` does to a book that has the level. -/
structure TakesFifo (b : ShadowBook) (qty : Qty) (level : LevelState)
    (left : List SyntheticOrder) : Prop where
  ends : ∃ remaining, LoopEnds price type ts recvTs tradeId level.orders qty []
    ⟨left, remaining, (b.consume price qty type ts recvTs tradeId).2⟩
  fifo : FifoPrefix level.orders
    ((b.consume price qty type ts recvTs tradeId).2.map fun e => (e.orderId, e.qty)) left
  total : ((b.consume price qty type ts recvTs tradeId).2.map fun e => e.qty.toNat).sum =
    min qty.toNat (level.orders.map fun o => o.qty.toNat).sum
  event : ∀ e ∈ (b.consume price qty type ts recvTs tradeId).2,
    e = consumeEvent price type ts recvTs tradeId e.orderId e.qty
  level : (b.consume price qty type ts recvTs tradeId).1.levels[price]? =
    if left = [] then none else some { totalQty := level.totalQty - qty, orders := left }
  others : ∀ p : Price, p ≠ price →
    (b.consume price qty type ts recvTs tradeId).1.levels[p]? = b.levels[p]?
  nextOrderId : (b.consume price qty type ts recvTs tradeId).1.nextOrderId = b.nextOrderId

/-- A pass that takes a whole order goes on with the rest of the queue. -/
theorem loopEnds_cons {front : SyntheticOrder} {orders : List SyntheticOrder} {qty : Qty}
    {out : List L3Event} {s : ConsumeState} (hpos : 0 < qty) (hle : front.qty ≤ qty)
    (h : LoopEnds price type ts recvTs tradeId orders (qty - front.qty)
      (out ++ [consumeEvent price type ts recvTs tradeId front.orderId front.qty]) s) :
    LoopEnds price type ts recvTs tradeId (front :: orders) qty out s := by
  obtain ⟨n, hn, hguard, hs, hend⟩ := h
  have hpass : ConsumeState.pass price type ts recvTs tradeId ⟨front :: orders, qty, out⟩ =
      ⟨orders, qty - front.qty,
        out ++ [consumeEvent price type ts recvTs tradeId front.orderId front.qty]⟩ := by
    simp [ConsumeState.pass, hle]
  refine ⟨n + 1, Nat.succ_le_succ hn, ?_, ?_, hend⟩
  · intro m hm
    cases m with
    | zero => exact ⟨hpos, List.cons_ne_nil _ _⟩
    | succ m =>
      rw [Function.iterate_succ_apply, hpass]
      exact hguard m (Nat.lt_of_succ_lt_succ hm)
  · rw [Function.iterate_succ_apply, hpass, hs]

/-- The loop ends with what `consumeLoop` computes. -/
theorem consumeLoop_ends (orders : List SyntheticOrder) (qty : Qty) (out : List L3Event) :
    LoopEnds price type ts recvTs tradeId orders qty out
      ⟨(consumeLoop price type ts recvTs tradeId orders qty).1,
        (consumeLoop price type ts recvTs tradeId orders qty).2.1,
        out ++ (consumeLoop price type ts recvTs tradeId orders qty).2.2⟩ := by
  fun_induction consumeLoop price type ts recvTs tradeId orders qty generalizing out with
  | case1 remaining =>
    refine ⟨0, Nat.le_refl 0, fun m hm => absurd hm (Nat.not_lt_zero m), ?_, fun h => h.2 rfl⟩
    rw [List.append_nil]
    rfl
  | case2 front orders remaining hr hq orders' remaining' out' heq ih =>
    have ih := ih (out ++ [consumeEvent price type ts recvTs tradeId front.orderId front.qty])
    rw [heq, List.append_assoc] at ih
    exact loopEnds_cons price type ts recvTs tradeId hr hq ih
  | case3 front orders remaining hr hq =>
    refine ⟨1, Nat.succ_le_succ (Nat.zero_le _), ?_, ?_, fun h => UInt32.lt_irrefl _ h.1⟩
    · intro m hm
      obtain rfl := Nat.lt_one_iff.1 hm
      exact ⟨hr, List.cons_ne_nil _ _⟩
    · simp [ConsumeState.pass, hq]
  | case4 front orders remaining hr =>
    refine ⟨0, Nat.zero_le _, fun m hm => absurd hm (Nat.not_lt_zero m), ?_, fun h => hr h.1⟩
    rw [List.append_nil]
    rfl

/-- The loop takes a prefix of the queue. -/
theorem consumeLoop_fifo (orders : List SyntheticOrder) (qty : Qty) :
    FifoPrefix orders ((consumeLoop price type ts recvTs tradeId orders qty).2.2.map
        fun e => (e.orderId, e.qty))
      (consumeLoop price type ts recvTs tradeId orders qty).1 := by
  fun_induction consumeLoop price type ts recvTs tradeId orders qty with
  | case1 remaining => exact .whole [] []
  | case2 front orders remaining hr hq orders' remaining' out heq ih =>
    rw [heq] at ih
    exact ih.cons front
  | case3 front orders remaining hr hq =>
    exact .part [] front orders remaining hr (UInt32.not_le.1 hq)
  | case4 front orders remaining hr => exact .whole [] (front :: orders)

/-- **`consume` takes an exact prefix of the queue.** Without a level it does nothing. -/
theorem consume_takesFifo (b : ShadowBook) (qty : Qty) :
    match b.levels[price]? with
    | none => b.consume price qty type ts recvTs tradeId = (b, [])
    | some level => ∃ left, TakesFifo price type ts recvTs tradeId b qty level left := by
  cases hlevel : b.levels[price]? with
  | none => simp [consume, hlevel]
  | some level =>
    have hout : (b.consume price qty type ts recvTs tradeId).2 =
        (consumeLoop price type ts recvTs tradeId level.orders qty).2.2 := by
      rw [consume_events_eq, level_eq_getD, hlevel, Option.getD_some]
    refine ⟨(consumeLoop price type ts recvTs tradeId level.orders qty).1, ?_⟩
    constructor
    case ends =>
      rw [hout]
      exact ⟨_, consumeLoop_ends price type ts recvTs tradeId level.orders qty []⟩
    case fifo =>
      rw [hout]
      exact consumeLoop_fifo price type ts recvTs tradeId level.orders qty
    case total =>
      have htotal := congrArg Fifo.total
        (consumeLoop_events price type ts recvTs tradeId level.orders qty)
      rw [Fifo.total_take] at htotal
      simpa [Fifo.total, hout, L3Event.lot, SyntheticOrder.lot, Function.comp_def] using htotal
    case event => exact consume_event_eq price type ts recvTs tradeId b qty
    case level =>
      rw [consume_levels, if_pos rfl, hlevel, Option.bind_some, LevelState.less,
        ← consumeLoop_orders_congr price type ts recvTs tradeId]
    case others =>
      intro p hp
      rw [consume_levels, if_neg hp]
    case nextOrderId => exact consume_nextOrderId price type ts recvTs tradeId b qty

end

end ShadowBook
end MarketDataEngine
