import MarketDataEngine.Trades
import MarketDataEngine.Lifecycle

/-!
# What a decrease reports

An update that lowers its level should report the whole decrease: fills for the part that the trades
buffered for its time and price explain, then cancels for the rest, and a `Delete` should so close
every order of its level. `splitsExactly_iff` is the exact condition for a `New` or `Change`: the
queue holds the decrease that `apply` returns, which the doubled `total_qty` may exceed. A `Delete`
reports nothing at all (`delete_closes_none`): `apply` has dropped the level with its queue when
`process_decrease` looks for the orders.
-/

namespace MarketDataEngine

open History Correlator

variable {c c' : Correlator} {u : L2Update} {es : List L3Event} {d : ℕ}

/-- The quantity of a list of events. -/
def quantity (es : List L3Event) : ℕ := Fifo.total (es.map L3Event.lot)

/-! ## A level that is lowered -/

/-- The update reports a decrease of `d` exactly: as fills what is buffered for its time and price,
as cancels the rest, and the buffer gives up what was filled. -/
structure SplitsExactly (c : Correlator) (u : L2Update) (d : ℕ) : Prop where
  events : ∃ fills cancels, (c.onL2Update u).2.2 = fills ++ cancels ∧
    (∀ e ∈ fills, e.type = .orderFill) ∧ (∀ e ∈ cancels, e.type = .orderCancel) ∧
    quantity fills = min (c.tradeBuffer.buffered u.ts u.price) d ∧
    quantity cancels = d - min (c.tradeBuffer.buffered u.ts u.price) d
  buffered : (c.onL2Update u).1.tradeBuffer.buffered u.ts u.price =
    c.tradeBuffer.buffered u.ts u.price - min (c.tradeBuffer.buffered u.ts u.price) d

/-- The decrease that `apply` returns for a `New` or `Change` is that of the level. -/
theorem decrease_of_apply (ha : u.action ≠ .delete) (hd : 0 < d)
    (happly : ((c.bookFor u.side).apply u.action u.price u.newQty).2 = -(d : Int)) :
    u.newQty < c.totalQty u.side u.price ∧ c.decrease u = d := by
  rw [ShadowBook.apply_delta, ← ShadowBook.getQty_eq] at happly
  change ((u.reported.toNat : Int) - (c.totalQty u.side u.price).toNat) = -(d : Int) at happly
  rw [UInt32.lt_iff_toNat_lt, decrease]
  rw [reported_of_ne u ha] at happly ⊢
  omega

/-- A lowered level reports its fills and then its cancels, each as far as the queue goes. -/
theorem Reduced.quantities {fills cancels : List L3Event} (h : Reduced c u c' fills cancels) :
    quantity fills = min (c.matched u) (Fifo.total (c.lots u.side u.price)) ∧
      quantity cancels =
        min (c.decrease u - c.matched u) (Fifo.total (c.lots u.side u.price) - c.matched u) := by
  refine ⟨?_, ?_⟩
  · rw [quantity, h.fill_lots, Fifo.total_take]
  · rw [quantity, h.cancel_lots, Fifo.total_take, Fifo.total_drop]

/-- An update whose `apply` returns a decrease lowers its level. -/
theorem L2Step.reduced_of_lt (h : L2Step c u c' es) (ha : u.action ≠ .delete)
    (hlow : u.newQty < c.totalQty u.side u.price) :
    ∃ fills cancels, es = fills ++ cancels ∧ Reduced c u c' fills cancels := by
  cases h with
  | deleted ha' => exact absurd ha' ha
  | added _ hraised => exact absurd (UInt32.lt_trans hlow hraised) (UInt32.lt_irrefl _)
  | kept _ hsame => exact absurd (hsame ▸ hlow) (UInt32.lt_irrefl _)
  | reduced fills cancels hr => exact ⟨fills, cancels, rfl, hr⟩

/-- An update that splits its decrease exactly finds all of it in the queue. -/
theorem SplitsExactly.le_total (h : SplitsExactly c u d) (ha : u.action ≠ .delete)
    (hlow : u.newQty < c.totalQty u.side u.price) (hdec : c.decrease u = d) :
    d ≤ Fifo.total (c.lots u.side u.price) := by
  obtain ⟨fills, cancels, hes, hr⟩ := (c.onL2Update_step u).reduced_of_lt ha hlow
  obtain ⟨fills', cancels', hes', -, -, hfills', hcancels'⟩ := h.events
  obtain ⟨hfills, hcancels⟩ := hr.quantities
  have hmatched : c.matched u ≤ c.decrease u := Nat.min_le_right ..
  have hsum : quantity fills + quantity cancels = quantity fills' + quantity cancels' := by
    rw [quantity, quantity, ← Fifo.total_append, ← List.map_append, ← hes, hes', List.map_append,
      Fifo.total_append, quantity, quantity]
  omega

/-- A queue that holds the decrease reports it exactly. -/
theorem splitsExactly_of_le (ha : u.action ≠ .delete) (hlow : u.newQty < c.totalQty u.side u.price)
    (hdec : c.decrease u = d) (hle : d ≤ Fifo.total (c.lots u.side u.price)) :
    SplitsExactly c u d := by
  obtain ⟨fills, cancels, hes, hr⟩ := (c.onL2Update_step u).reduced_of_lt ha hlow
  obtain ⟨hfills, hcancels⟩ := hr.quantities
  have hmatched : c.matched u = min (c.tradeBuffer.buffered u.ts u.price) d := by
    rw [matched, hdec]
  refine ⟨⟨fills, cancels, hes, ?_, ?_, ?_, ?_⟩, ?_⟩
  · intro e he
    rw [hr.fill_event e he]
    rfl
  · intro e he
    rw [hr.cancel_event e he]
    rfl
  · omega
  · omega
  · rw [onL2Update_buffered, if_neg (UInt64.lt_irrefl _), if_pos ⟨rfl, rfl⟩, hmatched]

/-- **When a decrease is split exactly.** For a `New` or `Change` whose `apply` returns a decrease
of `d`: iff the queue of its level holds at least `d`. -/
theorem splitsExactly_iff (calls : List Call) (u : L2Update) (d : ℕ) (ha : u.action ≠ .delete)
    (hd : 0 < d)
    (happly : (((engine.state calls).bookFor u.side).apply u.action u.price u.newQty).2 =
      -(d : Int)) :
    SplitsExactly (engine.state calls) u d ↔
      d ≤ Fifo.total ((engine.state calls).lots u.side u.price) := by
  obtain ⟨hlow, hdec⟩ := decrease_of_apply ha hd happly
  exact ⟨fun h => h.le_total ha hlow hdec, splitsExactly_of_le ha hlow hdec⟩

/-- A decrease by seven of which a trade explains four. -/
theorem splitsExactly_example :
    SplitsExactly (engine.state [.l2Update ⟨1, .new, 1000, 10, .bid, 0⟩,
        .trade ⟨2, 1000, 4, .bid, 7⟩]) ⟨2, .change, 1000, 13, .bid, 0⟩ 7 ↔
      7 ≤ Fifo.total ((engine.state [.l2Update ⟨1, .new, 1000, 10, .bid, 0⟩,
        .trade ⟨2, 1000, 4, .bid, 7⟩]).lots .bid 1000) :=
  splitsExactly_iff _ _ _ (by decide) (by decide) (by decide +kernel)

/-- A level of ten, whose `total_qty` is twenty, is asked for fifteen when it goes to five. -/
theorem splitsExactly_fails : ¬ ∀ (calls : List Call) (u : L2Update) (d : ℕ), u.action ≠ .delete →
    0 < d →
    (((engine.state calls).bookFor u.side).apply u.action u.price u.newQty).2 = -(d : Int) →
    SplitsExactly (engine.state calls) u d := by
  intro h
  have hd := (h [.l2Update ⟨1, .new, 1000, 10, .bid, 0⟩] ⟨2, .change, 1000, 5, .bid, 0⟩ 15
    (by decide) (by decide) (by decide +kernel)).le_total (by decide) (by decide +kernel)
    (by decide +kernel)
  revert hd
  decide +kernel

/-! ## A level that is deleted -/

/-- The update reports every order of its level for the quantity it has left. -/
def ClosesLevel (c : Correlator) (u : L2Update) : Prop :=
  ∀ o ∈ (c.level u.side u.price).orders, reducedOf o.orderId (c.onL2Update u).2.2 = o.qty.toNat

/-- An update that deletes its level emits nothing. -/
theorem L2Step.of_delete (h : L2Step c u c' es) (ha : u.action = .delete) : es = [] := by
  cases h with
  | deleted | kept => rfl
  | added ha' => exact absurd ha ha'
  | reduced _ _ hr => exact absurd ha hr.action

/-- A queued order that an update does not report stays open downstream. -/
theorem not_closesLevel (hc : Queues c) (ha : u.action = .delete)
    (hne : (c.level u.side u.price).orders ≠ []) : ¬ ClosesLevel c u := by
  intro h
  obtain ⟨o, ho⟩ := List.exists_mem_of_ne_nil _ hne
  have hpos : 0 < o.qty.toNat :=
    hc.pos u.side u.price o.lot (lots_eq c u.side u.price ▸ List.mem_map_of_mem ho)
  have hzero := h o ho
  rw [(c.onL2Update_step u).of_delete ha] at hzero
  exact Nat.ne_of_lt hpos hzero

/-- **A `Delete` closes no order.** In no reachable state a `Delete` of a level with an order
reports what rests there. -/
theorem delete_closes_none (calls : List Call) (u : L2Update) (ha : u.action = .delete)
    (hne : ((engine.state calls).level u.side u.price).orders ≠ []) :
    ¬ ClosesLevel (engine.state calls) u :=
  not_closesLevel (queues_state calls) ha hne

/-- A `Delete` of a level with one order. -/
theorem delete_closes_none_example :
    ¬ ClosesLevel (engine.state [.l2Update ⟨1, .new, 1000, 10, .bid, 0⟩])
      ⟨2, .delete, 1000, 0, .bid, 0⟩ :=
  delete_closes_none _ _ rfl (by decide +kernel)

/-- The order of a deleted level stays open. -/
theorem delete_closes_fails : ¬ ∀ (calls : List Call) (u : L2Update), u.action = .delete →
    ((engine.state calls).level u.side u.price).orders ≠ [] →
    ClosesLevel (engine.state calls) u := fun h =>
  not_closesLevel (queues_state _) rfl (by decide +kernel)
    (h [.l2Update ⟨1, .new, 1000, 10, .bid, 0⟩] ⟨2, .delete, 1000, 0, .bid, 0⟩ rfl
      (by decide +kernel))

end MarketDataEngine
