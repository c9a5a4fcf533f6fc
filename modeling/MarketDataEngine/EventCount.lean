import MarketDataEngine.Levels

/-!
# How many events a feed costs

One L2 update can emit any number of events: a decrease closes as many orders as it takes. Over a
run it evens out, since an update queues one order at most and what a decrease closes was queued by
an update before it. The potential is the number of queued orders (`restingOrders`): an update that
raises its level pays for its add and for the order, and one that lowers it for the two orders that
it can split, one between its fills and its cancels and one that stays (`L2Step.length_le`). So the
stream is at most twice as long as the feed of L2 updates, less what rests (`emitted_length_le`).
-/

namespace MarketDataEngine

open Std History Correlator

variable {c c' : Correlator} {u : L2Update} {es : List L3Event}

/-- The number of orders queued in a book. -/
def ShadowBook.restingOrders (b : ShadowBook) : ℕ :=
  tally (fun kv => kv.2.orders.length) b.levels.toList

/-- The number of orders queued in the two books. -/
def Correlator.restingOrders (c : Correlator) : ℕ :=
  (c.bookFor .bid).restingOrders + (c.bookFor .ask).restingOrders

/-- A lot for each order. -/
theorem Correlator.lots_length (c : Correlator) (s : Side) (p : Price) :
    (c.lots s p).length = (c.level s p).orders.length := by
  rw [lots_eq, List.length_map]

/-- An update changes the number of queued orders by what it changes its own queue by. -/
theorem ShadowBook.updated_restingOrders (b : ShadowBook) (u : L2Update) :
    (b.updated u).restingOrders + (b.level u.price).orders.length =
      b.restingOrders + ((b.updated u).level u.price).orders.length := by
  have hqueue : ∀ b : ShadowBook, (b.level u.price).orders.length =
      (b.levels[u.price]?.map fun level => level.orders.length).getD 0 := by
    intro b
    rw [level_eq_getD]
    cases b.levels[u.price]? <;> rfl
  have hne : ∀ p, p ≠ u.price → b.levels[p]? = (b.updated u).levels[p]? := by
    intro p hp
    rw [updated_levels, if_neg hp]
  rw [hqueue, hqueue]
  exact tally_toList_update hne fun level => level.orders.length

/-- An update changes the number of resting orders by what it does to its level. -/
theorem Correlator.onL2Update_restingOrders (c : Correlator) (u : L2Update) :
    (c.onL2Update u).1.restingOrders + (c.lots u.side u.price).length =
      c.restingOrders + ((c.onL2Update u).1.lots u.side u.price).length := by
  have hbook := (c.bookFor u.side).updated_restingOrders u
  rw [lots_length, lots_length, level, level, restingOrders, restingOrders, onL2Update_bookFor,
    onL2Update_bookFor, onL2Update_bookFor]
  cases hs : u.side <;> simp only [hs, if_true, reduceCtorEq, if_false] at hbook ⊢ <;> omega

/-- The events of an update and the orders it leaves at its level are at most two more than the
orders that were there. -/
theorem L2Step.length_le (h : L2Step c u c' es) :
    es.length + (c'.lots u.side u.price).length ≤ (c.lots u.side u.price).length + 2 := by
  cases h with
  | deleted _ _ _ hl =>
    rw [lots_of_deleted hl]
    simp
  | added _ _ _ _ hl =>
    rw [lots_of_added hl]
    simp
    omega
  | kept _ _ _ _ hl =>
    rw [lots_of_kept hl]
    simp
  | reduced fills cancels hr =>
    have hfills := Fifo.length_take_add_length_drop (c.matched u) (c.lots u.side u.price)
    have hcancels := Fifo.length_take_add_length_drop (c.decrease u - c.matched u)
      (Fifo.drop (c.matched u) (c.lots u.side u.price))
    have hle : c.matched u ≤ c.decrease u := Nat.min_le_right ..
    rw [← hr.fill_lots, List.length_map] at hfills
    rw [← hr.cancel_lots, List.length_map, Fifo.drop_drop, Nat.add_sub_cancel' hle,
      ← hr.lots] at hcancels
    rw [List.length_append]
    omega

/-- **The stream is at most twice as long as the feed.** At every point of a run the events emitted
so far and the orders queued are together at most twice the L2 updates made. -/
theorem emitted_length_le (calls : List Call) :
    (emitted calls).length + (engine.state calls).restingOrders ≤ 2 * (updates calls).length := by
  induction calls using run_induction with
  | nil => decide +kernel
  | trade calls t ih =>
    have hupdates : updates [.trade t] = [] := rfl
    rw [emitted_trade, state_trade, updates_append, hupdates, List.append_nil]
    exact ih
  | l2Update calls u ih =>
    have hresting := (engine.state calls).onL2Update_restingOrders u
    have hlen := ((engine.state calls).onL2Update_step u).length_le
    have hupdates : updates [.l2Update u] = [u] := rfl
    rw [emitted_l2Update, state_l2Update, updates_append, hupdates, List.length_append,
      List.length_append, List.length_singleton]
    omega

end MarketDataEngine
