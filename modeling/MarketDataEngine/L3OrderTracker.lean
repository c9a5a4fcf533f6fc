import Std.Data.ExtTreeMap
import MarketDataEngine.Types
import MarketDataEngine.Lib.MapWeight

/-!
# The order tracker

`L3OrderTracker` replays the event stream into a map of live orders and counts what does not fit
(`src/utils/l3_order_tracker.cpp`). An order is known by its id alone: an event reads and writes the
order under its id and no other (`onEvent_liveOrders`), and what it counts depends on how it is
received there (`onEvent_stats`). The map is unordered in the source; its order is never read.
-/

open Std

namespace MarketDataEngine

open History

/-- A live order, as the tracker knows it. -/
structure LiveOrder where
  price : Price
  qty : Qty
  side : Side
  addedTs : Timestamp
  deriving DecidableEq, Repr

/-- The counters of the tracker. -/
structure TrackerStats where
  totalAdds : UInt64 := 0
  totalCancels : UInt64 := 0
  totalFills : UInt64 := 0
  /-- A cancel or fill of an order that is not in the map. -/
  unknownOrderId : UInt64 := 0
  /-- A cancel or fill of more than rests. -/
  qtyExceed : UInt64 := 0
  /-- An add of an order that is live. -/
  duplicateAdd : UInt64 := 0
  deriving DecidableEq, Repr

/-- The tracker: the live orders by their ids, and the counters. -/
@[ext]
structure L3OrderTracker where
  liveOrders : ExtTreeMap OrderId LiveOrder := ∅
  stats : TrackerStats := {}

namespace L3OrderTracker

/-- `handle_add`: an id that is live already is counted, and its order kept. -/
def handleAdd (t : L3OrderTracker) (ev : L3Event) : L3OrderTracker :=
  match t.liveOrders[ev.orderId]? with
  | some _ => { t with stats.duplicateAdd := t.stats.duplicateAdd + 1 }
  | none =>
    { liveOrders := t.liveOrders.insert ev.orderId
        { price := ev.price, qty := ev.qty, side := ev.side, addedTs := ev.exchangeTs }
      stats := { t.stats with totalAdds := t.stats.totalAdds + 1 } }

/-- `handle_reduce`: an id that is not live is counted, and so is a quantity that is too large,
which takes all. -/
def handleReduce (t : L3OrderTracker) (ev : L3Event) : L3OrderTracker :=
  match t.liveOrders[ev.orderId]? with
  | none => { t with stats.unknownOrderId := t.stats.unknownOrderId + 1 }
  | some order =>
    -- a price that differs is logged, and changes nothing
    let exceeds := order.qty < ev.qty
    let qty := if exceeds then 0 else order.qty - ev.qty
    let stats :=
      if exceeds then { t.stats with qtyExceed := t.stats.qtyExceed + 1 } else t.stats
    let stats :=
      if ev.type = .orderCancel then { stats with totalCancels := stats.totalCancels + 1 }
      else { stats with totalFills := stats.totalFills + 1 }
    { liveOrders :=
        if qty = 0 then t.liveOrders.erase ev.orderId
        else t.liveOrders.insert ev.orderId { order with qty := qty }
      stats := stats }

/-- `on_event`: an order is added or, on any other event, reduced. -/
def onEvent (t : L3OrderTracker) (ev : L3Event) : L3OrderTracker :=
  match ev.type with
  | .orderAdd => t.handleAdd ev
  | .orderCancel => t.handleReduce ev
  | .orderFill => t.handleReduce ev

end L3OrderTracker

/-! ## What an event does to its order -/

/-- The counters of two parts of a run. -/
def TrackerStats.plus (s d : TrackerStats) : TrackerStats where
  totalAdds := s.totalAdds + d.totalAdds
  totalCancels := s.totalCancels + d.totalCancels
  totalFills := s.totalFills + d.totalFills
  unknownOrderId := s.unknownOrderId + d.unknownOrderId
  qtyExceed := s.qtyExceed + d.qtyExceed
  duplicateAdd := s.duplicateAdd + d.duplicateAdd

/-- Counts may be added in any order. -/
theorem TrackerStats.plus_right_comm (s d e : TrackerStats) :
    (s.plus d).plus e = (s.plus e).plus d := by
  simp only [plus, mk.injEq]
  refine ⟨?_, ?_, ?_, ?_, ?_, ?_⟩ <;> ac_rfl

/-- A reduction closes an order of no more than its quantity. -/
theorem LiveOrder.reduced_eq_zero (o : LiveOrder) (qty : Qty) :
    (if o.qty < qty then 0 else o.qty - qty) = 0 ↔ o.qty ≤ qty := by
  split <;> rename_i h
  · exact iff_of_true rfl (UInt32.le_of_lt h)
  · have hsub := UInt32.toNat_sub_of_le _ _ (UInt32.not_lt.1 h)
    rw [← UInt32.toNat_inj, hsub, UInt32.le_iff_toNat_le, UInt32.toNat_zero]
    omega

namespace L3OrderTracker

/-- How an event is received. -/
inductive Receipt
  | accepted (order : LiveOrder)
  | duplicate (order : LiveOrder)
  | unknown
  | reduced (type : L3EventType) (qty : Qty) (order : LiveOrder)
  deriving DecidableEq, Repr

/-- How an event is received, by the order that is live under its id. -/
def receipt (ev : L3Event) : Option LiveOrder → Receipt
  | none =>
    if ev.type = .orderAdd then
      .accepted { price := ev.price, qty := ev.qty, side := ev.side, addedTs := ev.exchangeTs }
    else .unknown
  | some order => if ev.type = .orderAdd then .duplicate order else .reduced ev.type ev.qty order

namespace Receipt

/-- The order that is live afterwards. -/
def leaves : Receipt → Option LiveOrder
  | accepted order => some order
  | duplicate order => some order
  | unknown => none
  | reduced _ qty order =>
    if order.qty ≤ qty then none else some { order with qty := order.qty - qty }

/-- What is counted. -/
def counts : Receipt → TrackerStats
  | accepted _ => { totalAdds := 1 }
  | duplicate _ => { duplicateAdd := 1 }
  | unknown => { unknownOrderId := 1 }
  | reduced type qty order =>
    { totalCancels := if type = .orderCancel then 1 else 0
      totalFills := if type = .orderCancel then 0 else 1
      qtyExceed := if order.qty < qty then 1 else 0 }

end Receipt

section
variable (t : L3OrderTracker) (ev : L3Event)

/-- What is no add reduces. -/
theorem onEvent_of_ne (h : ev.type ≠ .orderAdd) : t.onEvent ev = t.handleReduce ev := by
  unfold onEvent
  cases hty : ev.type with
  | orderAdd => exact absurd hty h
  | orderCancel | orderFill => rfl

/-- An event changes the order under its id and no other. -/
theorem onEvent_liveOrders (id : OrderId) : (t.onEvent ev).liveOrders[id]? =
    if id = ev.orderId then (receipt ev t.liveOrders[ev.orderId]?).leaves
    else t.liveOrders[id]? := by
  rcases Decidable.em (ev.type = .orderAdd) with hty | hty
  · simp only [onEvent, hty, handleAdd]
    cases ho : t.liveOrders[ev.orderId]? with
    | none =>
      simp only [receipt, hty, if_true, Receipt.leaves]
      exact getElem?_insert_ite ..
    | some o =>
      simp only [receipt, hty, if_true, Receipt.leaves]
      split <;> rename_i hid
      · rw [hid, ho]
      · rfl
  · rw [onEvent_of_ne t ev hty, handleReduce]
    cases ho : t.liveOrders[ev.orderId]? with
    | none =>
      simp only [receipt, hty, if_false, Receipt.leaves]
      split <;> rename_i hid
      · rw [hid, ho]
      · rfl
    | some o =>
      simp only [receipt, hty, if_false, Receipt.leaves, o.reduced_eq_zero]
      split <;> rename_i hle
      · rw [getElem?_erase_ite]
      · rw [getElem?_insert_ite, if_neg (fun hlt => hle (UInt32.le_of_lt hlt))]

/-- An event is counted by how it is received. -/
theorem onEvent_stats :
    (t.onEvent ev).stats = t.stats.plus (receipt ev t.liveOrders[ev.orderId]?).counts := by
  rcases Decidable.em (ev.type = .orderAdd) with hty | hty
  · simp only [onEvent, hty, handleAdd]
    cases t.liveOrders[ev.orderId]? <;>
      simp [receipt, hty, Receipt.counts, TrackerStats.plus]
  · rw [onEvent_of_ne t ev hty, handleReduce]
    cases t.liveOrders[ev.orderId]? with
    | none => simp [receipt, hty, Receipt.counts, TrackerStats.plus]
    | some o =>
      simp only [receipt, hty, if_false, Receipt.counts, TrackerStats.plus]
      split <;> split <;> simp

end

/-! ## The view of a tracker -/

/-- Where an order rests and with which quantity, as the tracker has it. -/
def live (t : L3OrderTracker) (id : OrderId) : Option (Side × Price × ℕ) :=
  t.liveOrders[id]?.map fun o => (o.side, o.price, o.qty.toNat)

/-- The three anomaly counters: unknown ids, excess quantities, duplicate adds. -/
def anomalies (t : L3OrderTracker) : UInt64 × UInt64 × UInt64 :=
  (t.stats.unknownOrderId, t.stats.qtyExceed, t.stats.duplicateAdd)

section
variable {t : L3OrderTracker} {ev : L3Event}

/-- What is not live is not in the map. -/
theorem live_eq_none {id : OrderId} (h : t.live id = none) : t.liveOrders[id]? = none := by
  simpa [live] using h

/-- An add under a free id is live from then on. -/
theorem onEvent_add (hty : ev.type = .orderAdd) (h : t.live ev.orderId = none) :
    (t.onEvent ev).anomalies = t.anomalies ∧ ∀ id, (t.onEvent ev).live id =
      if id = ev.orderId then some (ev.side, ev.price, ev.qty.toNat) else t.live id := by
  have ho := live_eq_none h
  refine ⟨?_, ?_⟩
  · simp [anomalies, onEvent_stats, ho, receipt, hty, Receipt.counts, TrackerStats.plus]
  · intro id
    rw [live, onEvent_liveOrders, ho, receipt, if_pos hty, Receipt.leaves]
    split
    · rfl
    · rfl

/-- An add under a live id is counted. -/
theorem onEvent_duplicate (hty : ev.type = .orderAdd) (h : t.live ev.orderId ≠ none) :
    (t.onEvent ev).stats.duplicateAdd = t.stats.duplicateAdd + 1 := by
  obtain ⟨o, ho⟩ : ∃ o, t.liveOrders[ev.orderId]? = some o :=
    Option.ne_none_iff_exists'.1 fun hn => h (by simp [live, hn])
  rw [onEvent_stats, ho, receipt, if_pos hty]
  rfl

/-- A reduction within what rests is taken off the order, which is closed when nothing is left. -/
theorem onEvent_reduce (hty : ev.type ≠ .orderAdd) {s : Side} {p : Price} {q : ℕ}
    (h : t.live ev.orderId = some (s, p, q)) (hle : ev.qty.toNat ≤ q) :
    (t.onEvent ev).anomalies = t.anomalies ∧ ∀ id, (t.onEvent ev).live id =
      if id = ev.orderId then
        if ev.qty.toNat = q then none else some (s, p, q - ev.qty.toNat)
      else t.live id := by
  obtain ⟨o, ho, hsp⟩ := Option.map_eq_some_iff.1 h
  obtain ⟨rfl, rfl, rfl⟩ : o.side = s ∧ o.price = p ∧ o.qty.toNat = q := by simpa using hsp
  have hle' : ev.qty ≤ o.qty := UInt32.le_iff_toNat_le.2 hle
  refine ⟨?_, ?_⟩
  · simp [anomalies, onEvent_stats, ho, receipt, hty, Receipt.counts, TrackerStats.plus,
      UInt32.not_lt.2 hle']
  · intro id
    have hclosed : o.qty ≤ ev.qty ↔ ev.qty.toNat = o.qty.toNat := by
      rw [UInt32.le_iff_toNat_le]
      omega
    rw [live, onEvent_liveOrders, ho, receipt, if_neg hty, Receipt.leaves]
    simp only [hclosed]
    split
    · split
      · rfl
      · rw [Option.map_some, UInt32.toNat_sub_of_le _ _ hle']
    · rfl

end

end L3OrderTracker
end MarketDataEngine
