import MarketDataEngine.Lifecycle

/-!
# Trades never influence the books

The trades of a run decide which part of a decrease is reported as filled, and by which trade, and
nothing else. Each book goes through the L2 updates of its side on its own (`onL2Update_bookFor`),
and what an update emits is fixed by its book up to how each unit left (`L2Step.outline_eq`). So two
runs with the same L2 updates agree (`noninterference`).
-/

namespace MarketDataEngine

open History Correlator

/-- The L2 update of a call. -/
def Call.update? : Call → Option L2Update
  | .trade _ => none
  | .l2Update u => some u

/-- The L2 updates of a run. -/
def updates (calls : List Call) : List L2Update := calls.filterMap Call.update?

/-- One unit of an event, less what trades may decide: whether it was filled or cancelled, and the
trade it is attributed to. -/
structure EventUnit where
  isAdd : Bool
  side : Side
  orderId : OrderId
  price : Price
  exchangeTs : Timestamp
  recvTsNs : UInt64
  deriving DecidableEq, Repr

/-- The part of an event that is the same for fills and cancels. -/
def L3Event.unit (e : L3Event) : EventUnit where
  isAdd := e.type = .orderAdd
  side := e.side
  orderId := e.orderId
  price := e.price
  exchangeTs := e.exchangeTs
  recvTsNs := e.recvTsNs

/-- A stream unit by unit. -/
def outline (es : List L3Event) : List EventUnit :=
  es.flatMap fun e => List.replicate e.qty.toNat e.unit

/-- The adds of a stream. -/
def adds (es : List L3Event) : List L3Event := es.filter (·.type = .orderAdd)

/-- Two runs that have left the same books, and streams that differ only in how the decreases are
split into fills and cancels. -/
structure Agree (calls calls' : List Call) : Prop where
  books : ∀ s, (engine.state calls).bookFor s = (engine.state calls').bookFor s
  adds : adds (emitted calls) = adds (emitted calls')
  reduced : ∀ s id, reducedOf id (sideStream s calls) = reducedOf id (sideStream s calls')
  outline : outline (emitted calls) = outline (emitted calls')

@[simp] theorem updates_append (calls calls' : List Call) :
    updates (calls ++ calls') = updates calls ++ updates calls' := by
  simp [updates]

@[simp] theorem outline_append (es es' : List L3Event) :
    outline (es ++ es') = outline es ++ outline es' := by
  simp [outline]

@[simp] theorem adds_append (es es' : List L3Event) : adds (es ++ es') = adds es ++ adds es' := by
  simp [adds]

/-- The units of events that share all but order and quantity. -/
theorem outline_eq_map {es : List L3Event} {f : OrderId → EventUnit}
    (h : ∀ e ∈ es, e.unit = f e.orderId) :
    outline es = (Fifo.units (es.map L3Event.lot)).map f := by
  induction es with
  | nil => rfl
  | cons e es ih =>
    rw [List.forall_mem_cons] at h
    have ih := ih h.2
    rw [outline] at ih ⊢
    simp [ih, h.1, L3Event.lot]

/-- The outline of a stream has what it reduces. -/
theorem reducedOf_eq_countP (s : Side) (id : OrderId) (es : List L3Event) :
    reducedOf id (es.filter (·.side = s)) =
      (outline es).countP fun x => !x.isAdd && x.side = s && x.orderId = id := by
  induction es with
  | nil => rfl
  | cons e es ih =>
    rw [outline, List.flatMap_cons, List.countP_append, ← outline, ← ih, List.countP_replicate,
      List.filter_cons]
    by_cases hs : e.side = s <;> simp [reducedOf, L3Event.unit, hs]

/-! ## The books -/

/-- What an update makes of the book of its side. -/
def ShadowBook.updated (b : ShadowBook) (u : L2Update) : ShadowBook :=
  let q := b.getQty u.price
  let b := (b.apply u.action u.price u.newQty).1
  if q < u.reported then (b.addOrder u.price (u.reported - q)).1
  else if u.reported < q then (b.consume u.price (q - u.reported) .orderCancel 0 0 0).1
  else b

section
variable {c c' : Correlator} {u : L2Update} {es : List L3Event}

/-- **A book's state is a function of the L2 updates of its side.** However the buffered trades cut
a decrease, the book is left as by one cut. -/
theorem Correlator.onL2Update_bookFor (c : Correlator) (u : L2Update) (s : Side) :
    (c.onL2Update u).1.bookFor s =
      if s = u.side then (c.bookFor s).updated u else c.bookFor s := by
  have hT : (c.bookFor u.side).getQty u.price = c.totalQty u.side u.price := rfl
  rcases c.onL2Update_cases u with ⟨hlt, h⟩ | ⟨hlt, h⟩ | ⟨heq, h⟩
  · rw [h, bookFor_setBook, recorded_bookFor]
    split
    · rename_i hs
      rw [hs, ShadowBook.updated, hT]
      exact (if_pos hlt).symm
    · rfl
  · have hn : ¬ c.totalQty u.side u.price < u.reported := UInt32.not_lt.2 (UInt32.le_of_lt hlt)
    rw [h, processDecrease_bookFor _ _ _ _ _ _ (qty_sub_pos hlt), recorded_bookFor,
      recorded_bookFor, if_pos rfl]
    split
    · rename_i hs
      rw [hs, ShadowBook.updated, hT]
      exact ((if_neg hn).trans (if_pos hlt)).symm
    · rfl
  · rw [h, recorded_bookFor]
    split
    · rename_i hs
      rw [hs, ShadowBook.updated, hT, heq]
      exact ((if_neg (UInt32.lt_irrefl _)).trans (if_neg (UInt32.lt_irrefl _))).symm
    · rfl

/-! ## The events -/

/-- The add of an update, by the book of its side. -/
def Correlator.addOf (c : Correlator) (u : L2Update) : List L3Event :=
  if u.action ≠ .delete ∧ c.totalQty u.side u.price < u.newQty then
    [addEvent u (c.nextOrderId u.side) (u.newQty - c.totalQty u.side u.price)]
  else []

/-- The unit of an update's fill or cancel. -/
def L2Update.reducedUnit (u : L2Update) (id : OrderId) : EventUnit where
  isAdd := false
  side := u.side
  orderId := id
  price := u.price
  exchangeTs := u.ts
  recvTsNs := u.recvTs

/-- The units that an update takes from its queue, by the book of its side. -/
def Correlator.takenBy (c : Correlator) (u : L2Update) : List EventUnit :=
  if u.action = .delete then []
  else (Fifo.units (Fifo.take (c.decrease u) (c.lots u.side u.price))).map u.reducedUnit

/-- The adds of an update are fixed by the book of its side. -/
theorem L2Step.adds_eq (h : L2Step c u c' es) : adds es = c.addOf u := by
  unfold Correlator.addOf
  cases h with
  | deleted ha => simp [adds, ha]
  | added ha hlt => simp [adds, ha, hlt, addEvent]
  | kept ha heq =>
    rw [if_neg]
    · rfl
    · rw [heq]
      exact fun h => UInt32.lt_irrefl _ h.2
  | reduced _ _ hr =>
    rw [if_neg fun h => UInt32.lt_irrefl _ (UInt32.lt_trans h.2 hr.lowered)]
    exact hr.no_add

/-- An update that does not lower its level takes nothing from the queue. -/
theorem Correlator.takenBy_eq_nil (h : c.totalQty u.side u.price ≤ u.newQty) :
    c.takenBy u = [] := by
  unfold Correlator.takenBy
  split
  · rfl
  · rename_i ha
    have hle := UInt32.le_iff_toNat_le.1 h
    have hzero : c.decrease u = 0 := by
      rw [decrease, reported_of_ne u ha]
      omega
    rw [hzero, Fifo.take_zero]
    rfl

/-- The units of an update are fixed by the book of its side. -/
theorem L2Step.outline_eq (h : L2Step c u c' es) :
    outline es = outline (c.addOf u) ++ c.takenBy u := by
  have hadds := h.adds_eq
  cases h with
  | deleted ha => simp [outline, Correlator.addOf, Correlator.takenBy, ha]
  | added ha hlt =>
    rw [← hadds, Correlator.takenBy_eq_nil (UInt32.le_of_lt hlt), List.append_nil]
    rfl
  | kept ha heq =>
    rw [← hadds, Correlator.takenBy_eq_nil (heq ▸ UInt32.le_refl _)]
    rfl
  | reduced fills cancels hr =>
    rw [← hadds, adds, hr.no_add, Correlator.takenBy, if_neg hr.action, ← hr.event_units]
    refine outline_eq_map ?_
    intro e he
    obtain ⟨hty, hs, hp, hts, hrecv⟩ := hr.event_fields e he
    simp [L3Event.unit, L2Update.reducedUnit, hty, hs, hp, hts, hrecv]

end

/-! ## Two runs -/

section
variable {c c' : Correlator} (h : ∀ s, c.bookFor s = c'.bookFor s) (u : L2Update)
include h

/-- The same update leaves the same books in the same books, whatever trades are buffered. -/
theorem onL2Update_books (s : Side) :
    (c.onL2Update u).1.bookFor s = (c'.onL2Update u).1.bookFor s := by
  rw [onL2Update_bookFor, onL2Update_bookFor, h]

/-- The same update adds the same orders. -/
theorem onL2Update_adds : adds (c.onL2Update u).2.2 = adds (c'.onL2Update u).2.2 := by
  rw [(c.onL2Update_step u).adds_eq, (c'.onL2Update_step u).adds_eq, Correlator.addOf,
    Correlator.addOf, Correlator.totalQty, Correlator.totalQty, Correlator.nextOrderId,
    Correlator.nextOrderId, h]

/-- The same update reduces the same orders by the same quantities. -/
theorem onL2Update_outline : outline (c.onL2Update u).2.2 = outline (c'.onL2Update u).2.2 := by
  rw [(c.onL2Update_step u).outline_eq, (c'.onL2Update_step u).outline_eq,
    ← (c.onL2Update_step u).adds_eq, ← (c'.onL2Update_step u).adds_eq, onL2Update_adds h u,
    Correlator.takenBy, Correlator.takenBy, decrease, decrease, Correlator.totalQty,
    Correlator.totalQty, Correlator.lots, Correlator.lots, h]

end

/-- The run without its trades. -/
def quiet (calls : List Call) : List Call := (updates calls).map .l2Update

/-- A run agrees with itself without its trades. -/
theorem quiet_run (calls : List Call) :
    (∀ s, (engine.state calls).bookFor s = (engine.state (quiet calls)).bookFor s) ∧
      adds (emitted calls) = adds (emitted (quiet calls)) ∧
      outline (emitted calls) = outline (emitted (quiet calls)) := by
  induction calls using run_induction with
  | nil => exact ⟨fun _ => rfl, rfl, rfl⟩
  | trade calls t ih =>
    have hq : quiet (calls ++ [.trade t]) = quiet calls := by
      simp [quiet, updates, Call.update?]
    rw [hq, emitted_trade, state_trade]
    exact ih
  | l2Update calls u ih =>
    obtain ⟨hbooks, hadds, houtline⟩ := ih
    have hq : quiet (calls ++ [.l2Update u]) = quiet calls ++ [.l2Update u] := by
      simp [quiet, updates, Call.update?]
    rw [hq, emitted_l2Update, emitted_l2Update, state_l2Update, state_l2Update]
    refine ⟨onL2Update_books hbooks u, ?_, ?_⟩
    · rw [adds_append, adds_append, hadds, onL2Update_adds hbooks]
    · rw [outline_append, outline_append, houtline, onL2Update_outline hbooks]

/-- Runs with the same L2 updates agree. -/
theorem agree_of_updates {calls calls' : List Call} (h : updates calls = updates calls') :
    Agree calls calls' := by
  obtain ⟨hbooks, hadds, houtline⟩ := quiet_run calls
  obtain ⟨hbooks', hadds', houtline'⟩ := quiet_run calls'
  have hq : quiet calls = quiet calls' := congrArg (List.map _) h
  rw [hq] at hbooks hadds houtline
  have ho := houtline.trans houtline'.symm
  refine ⟨fun s => (hbooks s).trans (hbooks' s).symm, hadds.trans hadds'.symm, ?_, ho⟩
  intro s id
  rw [sideStream, sideStream, reducedOf_eq_countP, reducedOf_eq_countP, ho]

/-- **Trades never influence the books.** Two runs with the same L2 updates agree after each of
them, whatever trades each run has between them. -/
theorem noninterference (calls calls' : List Call) (h : updates calls = updates calls')
    {pre pre' : List Call} (hpre : pre <+: calls) (hpre' : pre' <+: calls')
    (hlen : (updates pre).length = (updates pre').length) : Agree pre pre' := by
  have hmap : ∀ {l m : List Call}, l <+: m → updates l <+: updates m := by
    rintro l _ ⟨t, rfl⟩
    exact ⟨updates t, (updates_append l t).symm⟩
  exact agree_of_updates
    ((List.prefix_of_prefix_length_le (h ▸ hmap hpre) (hmap hpre') hlen.le).eq_of_length hlen)

/-- With the trade four units are filled, without it they are cancelled. -/
theorem noninterference_example : Agree
    [.l2Update ⟨1, .new, 1000, 10, .bid, 0⟩, .trade ⟨2, 1000, 4, .bid, 7⟩,
      .l2Update ⟨2, .change, 1000, 5, .bid, 0⟩]
    [.l2Update ⟨1, .new, 1000, 10, .bid, 0⟩, .l2Update ⟨2, .change, 1000, 5, .bid, 0⟩] :=
  noninterference
    [.l2Update ⟨1, .new, 1000, 10, .bid, 0⟩, .trade ⟨2, 1000, 4, .bid, 7⟩,
      .l2Update ⟨2, .change, 1000, 5, .bid, 0⟩]
    [.l2Update ⟨1, .new, 1000, 10, .bid, 0⟩, .l2Update ⟨2, .change, 1000, 5, .bid, 0⟩]
    rfl (List.prefix_refl _) (List.prefix_refl _) rfl

end MarketDataEngine
