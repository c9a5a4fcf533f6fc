import MarketDataEngine.Correlator

/-!
# What an L2 update can do

`L2Step` is all that an L2 update can do to the books and what it emits then, one constructor for
each way it goes: the level is deleted, raised, kept or lowered. `onL2Update_step` proves it of the
code, and every later module reasons by its cases. What an update does to the trade buffer is
`onL2Update_entry`, and what it logs as unmatched `onL2Update_flushed`.
-/

namespace MarketDataEngine

open Correlator

/-- `c'` differs from `c` at most in one level, its side's next id and the trade buffer. -/
structure Frame (c c' : Correlator) (s : Side) (p : Price) : Prop where
  level : ∀ s' p', ¬ (s' = s ∧ p' = p) → c'.level s' p' = c.level s' p'
  nextOrderId : ∀ s', s' ≠ s → c'.nextOrderId s' = c.nextOrderId s'

/-- Two steps that touch one level only, one after the other. -/
theorem Frame.trans {c c' c'' : Correlator} {s : Side} {p : Price} (h : Frame c c' s p)
    (h' : Frame c' c'' s p) : Frame c c'' s p where
  level s' p' hne := (h'.level s' p' hne).trans (h.level s' p' hne)
  nextOrderId s' hne := (h'.nextOrderId s' hne).trans (h.nextOrderId s' hne)

/-- The event of a fill or cancel that the update causes. -/
def Correlator.reduceEvent (u : L2Update) (type : L3EventType) (tradeId : UInt64) (id : OrderId)
    (qty : Qty) : L3Event where
  type := type
  side := u.side
  orderId := id
  price := u.price
  qty := qty
  exchangeTs := u.ts
  recvTsNs := u.recvTs
  tradeId := tradeId

/-- What an update does that lowers a level: the queue loses the decrease from its front, the part
that the buffered trades explain as fills and the rest as cancels. -/
structure Reduced (c : Correlator) (u : L2Update) (c' : Correlator)
    (fills cancels : List L3Event) : Prop where
  action : u.action ≠ .delete
  lowered : u.newQty < c.totalQty u.side u.price
  frame : Frame c c' u.side u.price
  nextOrderId : c'.nextOrderId u.side = c.nextOrderId u.side
  lots : c'.lots u.side u.price = Fifo.drop (c.decrease u) (c.lots u.side u.price)
  totalQty : c'.totalQty u.side u.price =
    if Fifo.drop (c.decrease u) (c.lots u.side u.price) = [] then 0
    else u.newQty - (c.totalQty u.side u.price - u.newQty)
  fill_lots : fills.map L3Event.lot = Fifo.take (c.matched u) (c.lots u.side u.price)
  cancel_lots : cancels.map L3Event.lot =
    Fifo.take (c.decrease u - c.matched u) (Fifo.drop (c.matched u) (c.lots u.side u.price))
  fill_event : ∀ e ∈ fills, e = reduceEvent u .orderFill
    (((c.tradeBuffer.entry u.ts u.price).map TradeEntry.tradeId).getD 0) e.orderId e.qty
  cancel_event : ∀ e ∈ cancels, e = reduceEvent u .orderCancel 0 e.orderId e.qty

/-- What an L2 update can do to the books, and the events it emits. -/
inductive L2Step (c : Correlator) (u : L2Update) (c' : Correlator) : List L3Event → Prop
  | deleted (action : u.action = .delete) (frame : Frame c c' u.side u.price)
      (nextOrderId : c'.nextOrderId u.side = c.nextOrderId u.side)
      (level : c'.level u.side u.price = {}) : L2Step c u c' []
  | added (action : u.action ≠ .delete) (raised : c.totalQty u.side u.price < u.newQty)
      (frame : Frame c c' u.side u.price)
      (nextOrderId : c'.nextOrderId u.side = c.nextOrderId u.side + 1)
      (level : c'.level u.side u.price =
        { totalQty := u.newQty + (u.newQty - c.totalQty u.side u.price)
          orders := (c.level u.side u.price).orders ++
            [⟨c.nextOrderId u.side, u.newQty - c.totalQty u.side u.price⟩] }) :
      L2Step c u c'
        [addEvent u (c.nextOrderId u.side) (u.newQty - c.totalQty u.side u.price)]
  | kept (action : u.action ≠ .delete) (same : u.newQty = c.totalQty u.side u.price)
      (frame : Frame c c' u.side u.price)
      (nextOrderId : c'.nextOrderId u.side = c.nextOrderId u.side)
      (level : c'.level u.side u.price = c.level u.side u.price) : L2Step c u c' []
  | reduced (fills cancels : List L3Event) (h : Reduced c u c' fills cancels) :
      L2Step c u c' (fills ++ cancels)

namespace Correlator

/-! ## `process_decrease` -/

section
variable (b : ShadowBook) (price : Price) (qty : Qty) (type : L3EventType) (ts : Timestamp)
  (recvTs tradeId : UInt64)

/-- The guarded call of `process_decrease`: nothing happens for a quantity of zero. -/
def consumePos : ShadowBook × List L3Event :=
  if 0 < qty then b.consume price qty type ts recvTs tradeId else (b, [])

/-- A quantity of zero consumes nothing. -/
theorem consumePos_zero : consumePos b price 0 type ts recvTs tradeId = (b, []) := by
  simp [consumePos]

/-- What is consumed leaves the front of the queue. -/
theorem consumePos_lots : (consumePos b price qty type ts recvTs tradeId).1.lots price =
    Fifo.drop qty.toNat (b.lots price) := by
  unfold consumePos
  split
  · rw [ShadowBook.consume_lots]
  · rename_i h
    simp [qty_eq_zero h]

/-- The events of what is consumed are the lots of the front. -/
theorem consumePos_events : (consumePos b price qty type ts recvTs tradeId).2.map L3Event.lot =
    Fifo.take qty.toNat (b.lots price) := by
  unfold consumePos
  split
  · rw [ShadowBook.consume_events]
  · rename_i h
    simp [qty_eq_zero h]

/-- Every event of what is consumed has the fields of the call. -/
theorem consumePos_event_eq : ∀ e ∈ (consumePos b price qty type ts recvTs tradeId).2,
    e = ShadowBook.consumeEvent price type ts recvTs tradeId e.orderId e.qty := by
  unfold consumePos
  split
  · exact ShadowBook.consume_event_eq price type ts recvTs tradeId b qty
  · simp

/-- However a positive decrease is cut in two, the guarded calls leave the book of one call. -/
theorem consumePos_consumePos (type' : L3EventType) (tradeId' : UInt64) {f d : Qty} (hf : f ≤ d)
    (hd : 0 < d) :
    (consumePos (consumePos b price f type ts recvTs tradeId).1 price (d - f) type' ts recvTs
      tradeId').1 = (b.consume price d .orderCancel 0 0 0).1 := by
  have hsub := UInt32.toNat_sub_of_le _ _ hf
  have hle := UInt32.le_iff_toNat_le.1 hf
  rcases Nat.eq_zero_or_pos f.toNat with hz | hpos
  · obtain rfl : f = 0 := UInt32.toNat_inj.1 hz
    rw [consumePos_zero, UInt32.sub_zero, consumePos, if_pos hd]
    exact ShadowBook.consume_book_congr ..
  rcases Nat.eq_zero_or_pos (d - f).toNat with hz | hrest
  · obtain rfl : f = d := UInt32.toNat_inj.1 (by omega)
    have hz' : f - f = 0 := UInt32.toNat_inj.1 hz
    rw [hz', consumePos_zero, consumePos, if_pos hd]
    exact ShadowBook.consume_book_congr ..
  · rw [consumePos, if_pos (qty_pos_iff.2 hrest), consumePos, if_pos (qty_pos_iff.2 hpos),
      ShadowBook.consume_consume b price hf]
    exact ShadowBook.consume_book_congr ..

end

section
variable (c : Correlator) (ts : Timestamp) (price : Price) (d : Qty) (s : Side) (recvTs : UInt64)

/-- The fills of `processDecrease`, before their side is set. -/
def fills : ShadowBook × List L3Event :=
  let t := c.tradeBuffer.consume ts price d 0
  consumePos (c.bookFor s) price t.2.1 .orderFill ts recvTs t.2.2

/-- The cancels of `processDecrease`, before their side is set. -/
def cancels : ShadowBook × List L3Event :=
  consumePos (c.fills ts price d s recvTs).1 price (d - (c.tradeBuffer.consume ts price d 0).2.1)
    .orderCancel ts recvTs 0

/-- `processDecrease` as two guarded calls on the book of its side. -/
theorem processDecrease_eq :
    c.processDecrease ts price d s recvTs =
      ({ c with tradeBuffer := (c.tradeBuffer.consume ts price d 0).1 }.setBook s
          (c.cancels ts price d s recvTs).1,
        ((c.fills ts price d s recvTs).2 ++ (c.cancels ts price d s recvTs).2).map fun ev =>
          { ev with side := s }) := rfl

/-- No more is consumed of the buffer than is asked for. -/
theorem consume_le : (c.tradeBuffer.consume ts price d 0).2.1 ≤ d := by
  rw [UInt32.le_iff_toNat_le, TradeBuffer.consume_available]
  exact Nat.min_le_right ..

/-- `processDecrease` takes the decrease from the queue of its side and price. -/
theorem processDecrease_bookFor (hd : 0 < d) (s' : Side) :
    (c.processDecrease ts price d s recvTs).1.bookFor s' =
      if s' = s then ((c.bookFor s).consume price d .orderCancel 0 0 0).1 else c.bookFor s' := by
  rw [processDecrease_eq, bookFor_setBook]
  split
  · exact consumePos_consumePos _ _ _ _ _ _ _ _ (c.consume_le ts price d) hd
  · rfl

/-- The fills are the front of the queue, as far as trades are buffered. -/
theorem fills_lots : (c.fills ts price d s recvTs).2.map L3Event.lot =
    Fifo.take (min (c.tradeBuffer.buffered ts price) d.toNat) (c.lots s price) := by
  rw [fills, consumePos_events, TradeBuffer.consume_available]
  rfl

/-- The cancels come after the fills, for the rest of the decrease. -/
theorem cancels_lots : (c.cancels ts price d s recvTs).2.map L3Event.lot =
    Fifo.take (d.toNat - min (c.tradeBuffer.buffered ts price) d.toNat)
      (Fifo.drop (min (c.tradeBuffer.buffered ts price) d.toNat) (c.lots s price)) := by
  rw [cancels, consumePos_events, fills, consumePos_lots,
    UInt32.toNat_sub_of_le _ _ (c.consume_le ts price d), TradeBuffer.consume_available]
  rfl

end

/-! ## `on_l2_update` -/

/-- A difference that is not negative is cast exactly. -/
theorem ofInt_sub_of_le {q r : Qty} (h : r ≤ q) :
    UInt32.ofInt ((q.toNat : Int) - r.toNat) = q - r := by
  have hle := UInt32.le_iff_toNat_le.1 h
  have hlt := q.toNat_lt
  refine UInt32.toNat_inj.1 ?_
  rw [UInt32.toNat_sub_of_le _ _ h, UInt32.ofInt, UInt32.toNat_ofNat']
  omega

section
variable (c : Correlator) (u : L2Update)

@[simp] theorem flushBefore_bookFor (ts : Timestamp) (s : Side) :
    (c.flushBefore ts).1.bookFor s = c.bookFor s := rfl

/-- The book of the update's side once its report is recorded. -/
def applied : ShadowBook := ((c.bookFor u.side).apply u.action u.price u.newQty).1

/-- The correlator once the update's report is recorded. -/
def recorded : Correlator := (c.flushBefore u.ts).1.setBook u.side (c.applied u)

/-- An update raises its level, lowers it, or neither. -/
theorem onL2Update_cases :
    (c.totalQty u.side u.price < u.reported ∧
      c.onL2Update u = ((c.recorded u).setBook u.side ((c.applied u).addOrder u.price
          (u.reported - c.totalQty u.side u.price)).1, (c.flushBefore u.ts).2,
        [addEvent u (c.nextOrderId u.side) (u.reported - c.totalQty u.side u.price)])) ∨
    (u.reported < c.totalQty u.side u.price ∧
      c.onL2Update u =
        let r := (c.recorded u).processDecrease u.ts u.price
          (c.totalQty u.side u.price - u.reported) u.side u.recvTs
        (r.1, (c.flushBefore u.ts).2, r.2)) ∨
    (u.reported = c.totalQty u.side u.price ∧
      c.onL2Update u = (c.recorded u, (c.flushBefore u.ts).2, [])) := by
  have hdelta := (c.bookFor u.side).apply_delta u.action u.price u.newQty
  rw [← ShadowBook.getQty_eq] at hdelta
  change _ = ((u.reported.toNat : Int) - (c.totalQty u.side u.price).toNat) at hdelta
  unfold onL2Update
  simp only [flushBefore_bookFor, hdelta]
  rcases Nat.lt_trichotomy (c.totalQty u.side u.price).toNat u.reported.toNat with h | h | h
  · have hlt := UInt32.lt_iff_toNat_lt.2 h
    refine .inl ⟨hlt, ?_⟩
    rw [if_pos (by omega), ofInt_sub_of_le (UInt32.le_of_lt hlt)]
    simp [recorded, applied, nextOrderId]
  · refine .inr (.inr ⟨UInt32.toNat_inj.1 h.symm, ?_⟩)
    rw [if_neg (by omega), if_neg (by omega)]
    rfl
  · have hlt := UInt32.lt_iff_toNat_lt.2 h
    refine .inr (.inl ⟨hlt, ?_⟩)
    rw [if_neg (by omega), if_pos (by omega), Int.neg_sub, ofInt_sub_of_le (UInt32.le_of_lt hlt)]
    rfl

/-- A `New` or `Change` reports its quantity. -/
theorem reported_of_ne (h : u.action ≠ .delete) : u.reported = u.newQty := if_neg h

/-- A `Delete` reports zero. -/
theorem reported_of_delete (h : u.action = .delete) : u.reported = 0 := if_pos h

/-- Only the book of the update's side is recorded in. -/
theorem recorded_bookFor (s : Side) :
    (c.recorded u).bookFor s = if s = u.side then c.applied u else c.bookFor s := by
  rw [recorded, bookFor_setBook, flushBefore_bookFor]

/-- A `New` or `Change` leaves the queue as it is. -/
theorem recorded_lots (h : u.action ≠ .delete) :
    (c.recorded u).lots u.side u.price = c.lots u.side u.price := by
  rw [lots, recorded_bookFor, if_pos rfl, applied, ShadowBook.lots, ShadowBook.apply_level,
    if_pos rfl, if_neg h]
  rfl

/-- A `Delete` drops the queue. -/
theorem recorded_lots_of_delete (h : u.action = .delete) :
    (c.recorded u).lots u.side u.price = [] := by
  rw [lots, recorded_bookFor, if_pos rfl, applied, ShadowBook.lots, ShadowBook.apply_level,
    if_pos rfl, if_pos h]
  rfl

/-- A flush before the update's time keeps what is buffered for that time. -/
theorem recorded_entry (p : Price) :
    (c.recorded u).tradeBuffer.entry u.ts p = c.tradeBuffer.entry u.ts p := by
  rw [recorded, setBook_tradeBuffer, flushBefore, TradeBuffer.flushBefore_entry, if_neg]
  exact UInt64.lt_irrefl u.ts

/-- What is buffered at the time of the update stays. -/
theorem recorded_buffered (p : Price) :
    (c.recorded u).tradeBuffer.buffered u.ts p = c.tradeBuffer.buffered u.ts p := by
  rw [TradeBuffer.buffered, recorded_entry, TradeBuffer.buffered]

/-- Recording a report changes one level. -/
theorem recorded_frame : Frame c (c.recorded u) u.side u.price where
  level s p h := by
    rw [level, recorded_bookFor]
    split
    · rename_i hs
      subst hs
      rw [applied, ShadowBook.apply_level, if_neg fun hp => h ⟨rfl, hp⟩]
      rfl
    · rfl
  nextOrderId s h := by rw [nextOrderId, recorded_bookFor, if_neg h, nextOrderId]

/-- No id is given out yet. -/
theorem recorded_nextOrderId :
    (c.recorded u).nextOrderId u.side = c.nextOrderId u.side := by
  rw [nextOrderId, recorded_bookFor, if_pos rfl, applied, ShadowBook.apply_nextOrderId,
    nextOrderId]

/-- The level of the update, once it is recorded. -/
theorem recorded_level : (c.recorded u).level u.side u.price =
    if u.action = .delete then {}
    else { c.level u.side u.price with totalQty := u.newQty } := by
  rw [level, recorded_bookFor, if_pos rfl, applied, ShadowBook.apply_level, if_pos rfl, level]

end

/-- Writing a side's book that differs in one level changes one level. -/
theorem frame_setBook {c : Correlator} {s : Side} {p : Price} {b : ShadowBook}
    (h : ∀ p', p' ≠ p → b.level p' = (c.bookFor s).level p') : Frame c (c.setBook s b) s p where
  level s' p' hne := by
    rw [level, bookFor_setBook]
    split
    · rename_i hs
      subst hs
      exact h p' fun hp => hne ⟨rfl, hp⟩
    · rfl
  nextOrderId s' hne := by rw [nextOrderId, bookFor_setBook, if_neg hne, nextOrderId]

section
variable (c : Correlator) (ts : Timestamp) (price : Price) (d : Qty) (s : Side) (recvTs : UInt64)

/-- A decrease touches its level and its entry only. -/
theorem processDecrease_frame (hd : 0 < d) :
    Frame c (c.processDecrease ts price d s recvTs).1 s price where
  level s' p' hne := by
    rw [level, processDecrease_bookFor c ts price d s recvTs hd]
    split
    · rename_i hs
      subst hs
      rw [ShadowBook.consume_level_of_ne _ _ _ _ _ _ _ fun hp => hne ⟨rfl, hp⟩]
      rfl
    · rfl
  nextOrderId s' hne := by
    rw [nextOrderId, processDecrease_bookFor c ts price d s recvTs hd, if_neg hne, nextOrderId]

end

section
variable (c : Correlator) (u : L2Update)

/-- A level without quantity and orders is the default one. -/
theorem level_eq_default {s : Side} {p : Price} (hq : c.totalQty s p = 0) (hl : c.lots s p = []) :
    c.level s p = {} := by
  rw [totalQty_eq] at hq
  rw [lots_eq, List.map_eq_nil_iff] at hl
  generalize c.level s p = level at hq hl
  cases level
  simp_all

/-- The decrease, as the difference of 32-bit quantities. -/
theorem decrease_eq (hlt : u.reported < c.totalQty u.side u.price) :
    (c.totalQty u.side u.price - u.reported).toNat = c.decrease u := by
  rw [decrease, UInt32.toNat_sub_of_le _ _ (UInt32.le_of_lt hlt)]

/-- The correlator that `processDecrease` leaves, and the events it emits, for the update's
decrease. -/
def lowered : Correlator × List L3Event :=
  (c.recorded u).processDecrease u.ts u.price (c.totalQty u.side u.price - u.reported) u.side
    u.recvTs

/-- The book after a decrease, consumed once instead of twice. -/
theorem lowered_bookFor (hlt : u.reported < c.totalQty u.side u.price) :
    (c.lowered u).1.bookFor u.side = ((c.recorded u).bookFor u.side |>.consume u.price
      (c.totalQty u.side u.price - u.reported) .orderCancel 0 0 0).1 := by
  rw [lowered, processDecrease_bookFor _ _ _ _ _ _ (qty_sub_pos hlt), if_pos rfl]

/-- The queue after a decrease. -/
theorem lowered_lots (hlt : u.reported < c.totalQty u.side u.price) :
    (c.lowered u).1.lots u.side u.price =
      Fifo.drop (c.decrease u) ((c.recorded u).lots u.side u.price) := by
  rw [lots, lowered_bookFor c u hlt, ShadowBook.consume_lots, decrease_eq c u hlt, lots]

/-- The quantity of the level after a decrease. -/
theorem lowered_totalQty (hlt : u.reported < c.totalQty u.side u.price) :
    (c.lowered u).1.totalQty u.side u.price =
      if Fifo.drop (c.decrease u) ((c.recorded u).lots u.side u.price) = [] then 0
      else (c.recorded u).totalQty u.side u.price - (c.totalQty u.side u.price - u.reported) := by
  rw [totalQty_eq (c.lowered u).1, level, lowered_bookFor c u hlt, ShadowBook.consume_totalQty,
    decrease_eq c u hlt, totalQty_eq (c.recorded u), level, lots]

/-- A decrease touches its level only. -/
theorem lowered_frame (hlt : u.reported < c.totalQty u.side u.price) :
    Frame c (c.lowered u).1 u.side u.price :=
  (c.recorded_frame u).trans (processDecrease_frame _ _ _ _ _ _ (qty_sub_pos hlt))

/-- A decrease gives out no id. -/
theorem lowered_nextOrderId (hlt : u.reported < c.totalQty u.side u.price) :
    (c.lowered u).1.nextOrderId u.side = c.nextOrderId u.side := by
  rw [nextOrderId, lowered_bookFor c u hlt, ShadowBook.consume_nextOrderId, ← nextOrderId,
    recorded_nextOrderId]

/-- An update that deletes its level finds no order to report. -/
theorem lowered_deleted (ha : u.action = .delete) (hlt : u.reported < c.totalQty u.side u.price) :
    L2Step c u (c.lowered u).1 (c.lowered u).2 := by
  have hnil := c.recorded_lots_of_delete u ha
  have hevents : (c.lowered u).2 = [] := by
    have hf := fills_lots (c.recorded u) u.ts u.price (c.totalQty u.side u.price - u.reported)
      u.side u.recvTs
    have hc := cancels_lots (c.recorded u) u.ts u.price (c.totalQty u.side u.price - u.reported)
      u.side u.recvTs
    rw [hnil, Fifo.take_nil, List.map_eq_nil_iff] at hf
    rw [hnil, Fifo.drop_nil, Fifo.take_nil, List.map_eq_nil_iff] at hc
    rw [lowered, processDecrease_eq, hf, hc]
    rfl
  rw [hevents]
  refine .deleted ha (c.lowered_frame u hlt) (c.lowered_nextOrderId u hlt)
    (level_eq_default _ ?_ ?_)
  · rw [lowered_totalQty c u hlt, hnil, Fifo.drop_nil, if_pos rfl]
  · rw [lowered_lots c u hlt, hnil, Fifo.drop_nil]

/-- Setting the side of an event keeps its order and quantity. -/
theorem map_lot_withSide (s : Side) (es : List L3Event) :
    (es.map fun ev => { ev with side := s }).map L3Event.lot = es.map L3Event.lot := by
  rw [List.map_map]
  rfl

/-- An update that lowers its level reports the decrease from the front of its queue. -/
theorem lowered_reduced (ha : u.action ≠ .delete) (hlt : u.reported < c.totalQty u.side u.price) :
    L2Step c u (c.lowered u).1 (c.lowered u).2 := by
  have hmatched : min ((c.recorded u).tradeBuffer.buffered u.ts u.price)
      (c.totalQty u.side u.price - u.reported).toNat = c.matched u := by
    rw [recorded_buffered, decrease_eq c u hlt, matched]
  rw [lowered, processDecrease_eq, List.map_append]
  refine .reduced _ _ ⟨ha, ?_, c.lowered_frame u hlt, c.lowered_nextOrderId u hlt, ?_, ?_, ?_, ?_,
    ?_, ?_⟩
  · rwa [reported_of_ne u ha] at hlt
  · exact (c.lowered_lots u hlt).trans (by rw [recorded_lots c u ha])
  · refine (c.lowered_totalQty u hlt).trans ?_
    rw [recorded_lots c u ha, totalQty_eq (c.recorded u), recorded_level, if_neg ha,
      reported_of_ne u ha]
  · rw [map_lot_withSide, fills_lots, hmatched, recorded_lots c u ha]
  · rw [map_lot_withSide, cancels_lots, hmatched, recorded_lots c u ha, decrease_eq c u hlt]
  · intro e he
    obtain ⟨ev, hev, rfl⟩ := List.mem_map.1 he
    rw [consumePos_event_eq _ _ _ _ _ _ _ ev hev, TradeBuffer.consume_tradeId, recorded_entry]
    rfl
  · intro e he
    obtain ⟨ev, hev, rfl⟩ := List.mem_map.1 he
    rw [consumePos_event_eq _ _ _ _ _ _ _ ev hev]
    rfl

/-- **What an L2 update does.** -/
theorem onL2Update_step : L2Step c u (c.onL2Update u).1 (c.onL2Update u).2.2 := by
  rcases c.onL2Update_cases u with ⟨hlt, h⟩ | ⟨hlt, h⟩ | ⟨heq, h⟩
  · have ha : u.action ≠ .delete := fun ha => by
      rw [reported_of_delete u ha] at hlt
      simp [UInt32.lt_iff_toNat_lt] at hlt
    rw [reported_of_ne u ha] at hlt h
    rw [h]
    refine .added ha hlt ?_ ?_ ?_
    · refine (c.recorded_frame u).trans (frame_setBook fun p hp => ?_)
      rw [ShadowBook.addOrder_level, if_neg hp, recorded_bookFor, if_pos rfl]
    · rw [nextOrderId, bookFor_setBook, if_pos rfl, ShadowBook.addOrder_nextOrderId, applied,
        ShadowBook.apply_nextOrderId, nextOrderId]
    · have hl := c.recorded_level u
      rw [level, recorded_bookFor, if_pos rfl, if_neg ha] at hl
      rw [level, bookFor_setBook, if_pos rfl, ShadowBook.addOrder_level, if_pos rfl, hl, applied,
        ShadowBook.apply_nextOrderId]
      rfl
  · rw [h]
    by_cases ha : u.action = .delete
    · exact c.lowered_deleted u ha hlt
    · exact c.lowered_reduced u ha hlt
  · rw [h]
    by_cases ha : u.action = .delete
    · refine .deleted ha (c.recorded_frame u) (c.recorded_nextOrderId u) ?_
      rw [recorded_level, if_pos ha]
    · rw [reported_of_ne u ha] at heq
      refine .kept ha heq (c.recorded_frame u) (c.recorded_nextOrderId u) ?_
      rw [recorded_level, if_neg ha, heq, totalQty_eq]

/-! ## The trade buffer -/

/-- What an update logs as unmatched: everything buffered before its time. -/
theorem onL2Update_flushed : (c.onL2Update u).2.1 = (c.tradeBuffer.flushBefore u.ts).2 := by
  rcases c.onL2Update_cases u with ⟨-, h⟩ | ⟨-, h⟩ | ⟨-, h⟩ <;> rw [h] <;> rfl

/-- Before the decrease the buffer is only flushed. -/
theorem recorded_tradeBuffer :
    (c.recorded u).tradeBuffer = (c.tradeBuffer.flushBefore u.ts).1 := by
  rw [recorded, setBook_tradeBuffer]
  rfl

/-- What an update leaves in the buffer: nothing before its time, and at its time and price what its
decrease does not take. -/
theorem onL2Update_entry (t : Timestamp) (p : Price) :
    (c.onL2Update u).1.tradeBuffer.entry t p =
      if t < u.ts then none
      else if t = u.ts ∧ p = u.price ∧ u.reported < c.totalQty u.side u.price then
        (c.tradeBuffer.entry t p).bind (TradeEntry.less · (c.totalQty u.side u.price - u.reported))
      else c.tradeBuffer.entry t p := by
  rcases c.onL2Update_cases u with ⟨hlt, h⟩ | ⟨hlt, h⟩ | ⟨heq, h⟩
  · have hn : ¬ u.reported < c.totalQty u.side u.price := UInt32.not_lt.2 (UInt32.le_of_lt hlt)
    rw [h, setBook_tradeBuffer, recorded_tradeBuffer, TradeBuffer.flushBefore_entry]
    simp [hn]
  · rw [h, processDecrease_eq, setBook_tradeBuffer, TradeBuffer.consume_entry,
      recorded_tradeBuffer, TradeBuffer.flushBefore_entry, TradeBuffer.flushBefore_entry]
    rcases eq_or_ne t u.ts with rfl | ht
    · by_cases hp : p = u.price <;> simp [hp, hlt, UInt64.lt_irrefl]
    · simp [ht]
  · have hn : ¬ u.reported < c.totalQty u.side u.price := by rw [heq]; exact UInt32.lt_irrefl _
    rw [h, recorded_tradeBuffer, TradeBuffer.flushBefore_entry]
    simp [hn]

end

end Correlator
end MarketDataEngine
