import MarketDataEngine.L3OrderTracker
import MarketDataEngine.Lib.Commute

/-!
# The accounts of the order tracker

Runs of the tracker on its own, over any events. Events of different orders commute, so a run ends
in a state that each order's own events determine (`ownHistories`). However the events go wrong,
what is accepted is what rests and what was reduced, an order is live until a reduction brings it to
zero, and every event is counted once (`balanced`).
-/

namespace MarketDataEngine

open History L3OrderTracker

/-! ## Every order on its own -/

/-- Events of different orders commute. -/
theorem onEvent_comm (t : L3OrderTracker) {ev ev' : L3Event} (h : ev.orderId ≠ ev'.orderId) :
    (t.onEvent ev).onEvent ev' = (t.onEvent ev').onEvent ev := by
  have hother : (t.onEvent ev).liveOrders[ev'.orderId]? = t.liveOrders[ev'.orderId]? := by
    rw [onEvent_liveOrders, if_neg h.symm]
  have hother' : (t.onEvent ev').liveOrders[ev.orderId]? = t.liveOrders[ev.orderId]? := by
    rw [onEvent_liveOrders, if_neg h]
  refine L3OrderTracker.ext ?_ ?_
  · refine Std.ExtTreeMap.ext_getElem? ?_
    intro id
    rw [onEvent_liveOrders (t.onEvent ev), hother, onEvent_liveOrders (t.onEvent ev'), hother',
      onEvent_liveOrders t, onEvent_liveOrders t]
    rcases eq_or_ne id ev.orderId with rfl | hid
    · rw [if_neg h, if_pos rfl, if_pos rfl]
    · rw [if_neg hid, if_neg hid]
  · rw [onEvent_stats (t.onEvent ev), hother, onEvent_stats (t.onEvent ev'), hother',
      onEvent_stats t, onEvent_stats t, TrackerStats.plus_right_comm]

/-- Events of different ids commute. -/
theorem commuting_onEvent :
    Commute.Commuting (fun _ => True) (fun _ => True) L3OrderTracker.onEvent L3Event.orderId where
  keeps _ _ := trivial
  comm _ _ _ h := onEvent_comm _ h

/-- **An order's own history.** Two runs that have the same events under every id, in the same
order, end in the same state. -/
theorem ownHistories (es es' : List L3Event)
    (h : ∀ id, es.filter (·.orderId = id) = es'.filter (·.orderId = id)) :
    es.foldl L3OrderTracker.onEvent {} = es'.foldl L3OrderTracker.onEvent {} :=
  commuting_onEvent.foldl_eq trivial (fun _ _ => trivial) h

/-- A duplicate add and a fill of order 1 and a cancel of order 2, in two orders. -/
theorem ownHistories_example :
    [⟨.orderAdd, .bid, 1, 100, 5, 0, 0, 0⟩, ⟨.orderAdd, .bid, 1, 100, 5, 0, 0, 0⟩,
        ⟨.orderCancel, .bid, 2, 100, 1, 0, 0, 0⟩, ⟨.orderFill, .bid, 1, 100, 9, 0, 0, 0⟩].foldl
      L3OrderTracker.onEvent {} =
    [⟨.orderCancel, .bid, 2, 100, 1, 0, 0, 0⟩, ⟨.orderAdd, .bid, 1, 100, 5, 0, 0, 0⟩,
        ⟨.orderAdd, .bid, 1, 100, 5, 0, 0, 0⟩, ⟨.orderFill, .bid, 1, 100, 9, 0, 0, 0⟩].foldl
      L3OrderTracker.onEvent {} :=
  ownHistories _ _ fun id => by
    rcases eq_or_ne 1 id with rfl | h1
    · rfl
    · simp [List.filter_cons, h1]

/-! ## The accounts -/

/-- A tracker, from its initial state, and how it receives each event. -/
def tracking : Machine L3OrderTracker L3Event Receipt where
  init := {}
  step t ev := (t.onEvent ev, [receipt ev t.liveOrders[ev.orderId]?])

namespace L3OrderTracker

/-- The total quantity of the live orders. -/
def liveQty (t : L3OrderTracker) : ℕ :=
  tally (fun kv : OrderId × LiveOrder => kv.2.qty.toNat) t.liveOrders.toList

namespace Receipt

/-- The quantity of an accepted add. -/
def acceptedQty : Receipt → ℕ
  | accepted order => order.qty.toNat
  | _ => 0

/-- What a fill or cancel takes from the order it found. -/
def reducedQty : Receipt → ℕ
  | reduced _ qty order => min qty.toNat order.qty.toNat
  | _ => 0

/-- A fill or cancel that brings its order to zero counts one. -/
def closes : Receipt → ℕ
  | reduced _ qty order => if order.qty ≤ qty then 1 else 0
  | _ => 0

end Receipt
end L3OrderTracker

/-- The accounts of a run. -/
structure Balanced (es : List L3Event) : Prop where
  positive : ∀ id : OrderId, ∀ o ∈ (tracking.state es).liveOrders[id]?, 0 < o.qty
  quantity : tally Receipt.acceptedQty (tracking.log es) =
    (tracking.state es).liveQty + tally Receipt.reducedQty (tracking.log es)
  orders : (tracking.state es).stats.totalAdds.toNat =
    (tracking.state es).liveOrders.size + tally Receipt.closes (tracking.log es)
  events : (tracking.state es).stats.totalAdds.toNat +
      (tracking.state es).stats.duplicateAdd.toNat +
      (tracking.state es).stats.unknownOrderId.toNat +
      (tracking.state es).stats.totalCancels.toNat +
      (tracking.state es).stats.totalFills.toNat = es.length

/-- How an event can be received by the order under its id. -/
inductive Received (ev : L3Event) : Option LiveOrder → Receipt → Prop
  | accepted (o : LiveOrder) (qty : o.qty = ev.qty) : Received ev none (.accepted o)
  | unknown : Received ev none .unknown
  | duplicate (o : LiveOrder) : Received ev (some o) (.duplicate o)
  | reduced (o : LiveOrder) : Received ev (some o) (.reduced ev.type ev.qty o)

/-- What the tracker answers is one of the ways to receive an event. -/
theorem received (ev : L3Event) (o : Option LiveOrder) : Received ev o (receipt ev o) := by
  unfold receipt
  cases o with
  | none =>
    dsimp only
    split
    · exact .accepted _ rfl
    · exact .unknown
  | some o =>
    dsimp only
    split
    · exact .duplicate o
    · exact .reduced o

section
variable {ev : L3Event} {o : Option LiveOrder} {r : Receipt}

/-- What is left of the order and what is taken from it was there or is accepted. -/
theorem Received.qty (h : Received ev o r) :
    (r.leaves.map fun o => o.qty.toNat).getD 0 + r.reducedQty =
      (o.map fun o => o.qty.toNat).getD 0 + r.acceptedQty := by
  cases h with
  | accepted | unknown | duplicate =>
    simp [Receipt.leaves, Receipt.reducedQty, Receipt.acceptedQty]
  | reduced o =>
    simp only [Receipt.leaves, Receipt.reducedQty, Receipt.acceptedQty]
    split <;> rename_i h
    · have hle := UInt32.le_iff_toNat_le.1 h
      simp [Nat.min_eq_right hle]
    · have hlt := UInt32.le_of_lt (UInt32.not_le.1 h)
      have hle := UInt32.le_iff_toNat_le.1 hlt
      simp [UInt32.toNat_sub_of_le _ _ hlt, Nat.min_eq_left hle, Nat.sub_add_cancel hle]

/-- The order stays live unless it is closed. -/
theorem Received.live (h : Received ev o r) :
    (r.leaves.map fun _ => 1).getD 0 + r.closes =
      (o.map fun _ => 1).getD 0 + r.counts.totalAdds.toNat := by
  cases h with
  | accepted | unknown | duplicate => simp [Receipt.leaves, Receipt.closes, Receipt.counts]
  | reduced o =>
    simp only [Receipt.leaves, Receipt.closes, Receipt.counts]
    split <;> simp

/-- No order of quantity zero is left. -/
theorem Received.positive (h : Received ev o r) (hev : 0 < ev.qty) (ho : ∀ x ∈ o, 0 < x.qty) :
    ∀ x ∈ r.leaves, 0 < x.qty := by
  cases h with
  | accepted o hqty =>
    rintro _ ⟨⟩
    rwa [hqty]
  | unknown => exact ho
  | duplicate o => exact ho
  | reduced o =>
    intro x hx
    rw [Receipt.leaves, Option.mem_def] at hx
    split at hx <;> rename_i h
    · cases hx
    · obtain rfl := Option.some.inj hx
      exact qty_sub_pos (UInt32.not_le.1 h)

/-- The event is counted once, besides its excess. -/
theorem Received.counted (h : Received ev o r) :
    r.counts.totalAdds.toNat + r.counts.duplicateAdd.toNat + r.counts.unknownOrderId.toNat +
      r.counts.totalCancels.toNat + r.counts.totalFills.toNat = 1 := by
  cases h with
  | accepted | unknown | duplicate => simp [Receipt.counts]
  | reduced o =>
    simp only [Receipt.counts]
    split <;> simp

end

/-- An event changes the weight of the live orders by its own order's. -/
theorem onEvent_weight (t : L3OrderTracker) (ev : L3Event) (w : LiveOrder → ℕ) :
    tally (fun kv => w kv.2) (t.onEvent ev).liveOrders.toList +
        (t.liveOrders[ev.orderId]?.map w).getD 0 =
      tally (fun kv => w kv.2) t.liveOrders.toList +
        ((receipt ev t.liveOrders[ev.orderId]?).leaves.map w).getD 0 := by
  have hother : ∀ id, id ≠ ev.orderId → t.liveOrders[id]? = (t.onEvent ev).liveOrders[id]? :=
    fun id hid => by rw [onEvent_liveOrders, if_neg hid]
  have hupdate := tally_toList_update hother w
  rwa [onEvent_liveOrders, if_pos rfl] at hupdate

/-! ## Runs -/

section
variable {es : List L3Event} {ev : L3Event}

/-- The order that the last event of a run finds under its id. -/
def found (es : List L3Event) (ev : L3Event) : Option LiveOrder :=
  (tracking.state es).liveOrders[ev.orderId]?

/-- The tracker after one more event. -/
theorem tracking_state : tracking.state (es ++ [ev]) = (tracking.state es).onEvent ev :=
  tracking.state_concat es ev

/-- The counters after one more event. -/
theorem tracking_stats : (tracking.state (es ++ [ev])).stats =
    (tracking.state es).stats.plus (receipt ev (found es ev)).counts := by
  rw [tracking_state, onEvent_stats, found]

/-- The receipts after one more event. -/
theorem tracking_log : tracking.log (es ++ [ev]) = tracking.log es ++ [receipt ev (found es ev)] :=
  tracking.log_concat es ev

@[simp] theorem tally_tracking_log (w : Receipt → ℕ) : tally w (tracking.log (es ++ [ev])) =
    tally w (tracking.log es) + w (receipt ev (found es ev)) := by
  rw [tracking_log, tally_append, tally_cons, tally_nil, Nat.add_zero]

/-- Every event is counted once, besides its excess. -/
theorem tally_counts (es : List L3Event) :
    tally (fun r => r.counts.totalAdds.toNat) (tracking.log es) +
        tally (fun r => r.counts.duplicateAdd.toNat) (tracking.log es) +
        tally (fun r => r.counts.unknownOrderId.toNat) (tracking.log es) +
        tally (fun r => r.counts.totalCancels.toNat) (tracking.log es) +
        tally (fun r => r.counts.totalFills.toNat) (tracking.log es) = es.length := by
  induction es using List.reverseRecOn with
  | nil => rfl
  | append_singleton es ev ih =>
    have hone := (received ev (found es ev)).counted
    simp only [tally_tracking_log, List.length_append, List.length_singleton]
    omega

/-- A counter has the number of events that it counts, as long as that fits a word. -/
theorem counter_eq {f : TrackerStats → UInt64} (hinit : f {} = 0)
    (hplus : ∀ s d, f (s.plus d) = f s + f d)
    (hfit : tally (fun r => (f r.counts).toNat) (tracking.log es) < 2 ^ 64) :
    (f (tracking.state es).stats).toNat =
      tally (fun r => (f r.counts).toNat) (tracking.log es) := by
  induction es using List.reverseRecOn with
  | nil => exact congrArg UInt64.toNat hinit
  | append_singleton es ev ih =>
    rw [tally_tracking_log] at hfit ⊢
    have ih := ih (Nat.lt_of_le_of_lt (Nat.le_add_right _ _) hfit)
    rw [tracking_stats, hplus, UInt64.toNat_add, ih, Nat.mod_eq_of_lt hfit]

/-- What is accepted is live or was reduced. -/
theorem tracking_qty (es : List L3Event) : tally Receipt.acceptedQty (tracking.log es) =
    (tracking.state es).liveQty + tally Receipt.reducedQty (tracking.log es) := by
  induction es using List.reverseRecOn with
  | nil =>
    have hempty : (∅ : Std.ExtTreeMap OrderId LiveOrder).toList = [] :=
      List.isEmpty_iff.1 Std.ExtTreeMap.isEmpty_toList
    simp [tracking, liveQty, hempty]
  | append_singleton es ev ih =>
    have hweight := onEvent_weight (tracking.state es) ev fun o => o.qty.toNat
    have hqty := (received ev (found es ev)).qty
    rw [← found] at hweight
    rw [liveQty] at ih
    rw [tally_tracking_log, tally_tracking_log, tracking_state, liveQty]
    omega

/-- An accepted order is live or was closed. -/
theorem tracking_live (es : List L3Event) :
    tally (fun r => r.counts.totalAdds.toNat) (tracking.log es) =
      (tracking.state es).liveOrders.size + tally Receipt.closes (tracking.log es) := by
  have hsize : ∀ t : L3OrderTracker,
      t.liveOrders.size = tally (fun _ => 1) t.liveOrders.toList := by
    intro t
    rw [← Std.ExtTreeMap.length_toList]
    simp [tally]
  induction es using List.reverseRecOn with
  | nil => simp [tracking]
  | append_singleton es ev ih =>
    have hweight := onEvent_weight (tracking.state es) ev fun _ => 1
    have hlive := (received ev (found es ev)).live
    rw [← found] at hweight
    rw [hsize] at ih
    rw [tally_tracking_log, tally_tracking_log, tracking_state, hsize]
    omega

/-- Live orders have a quantity if all events do. -/
theorem tracking_positive (hpos : ∀ ev ∈ es, 0 < ev.qty) :
    ∀ id : OrderId, ∀ o ∈ (tracking.state es).liveOrders[id]?, 0 < o.qty := by
  induction es using List.reverseRecOn with
  | nil => simp [tracking]
  | append_singleton es ev ih =>
    rw [List.forall_mem_append, List.forall_mem_singleton] at hpos
    have ih := ih hpos.1
    intro id
    rw [tracking_state, onEvent_liveOrders]
    split
    · exact (received ev _).positive hpos.2 (ih ev.orderId)
    · exact ih id

/-- **The accounts balance.** -/
theorem balanced (es : List L3Event) (hpos : ∀ ev ∈ es, 0 < ev.qty) (hlen : es.length < 2 ^ 64) :
    Balanced es := by
  have hcounts := tally_counts es
  have hadds : (tracking.state es).stats.totalAdds.toNat = _ :=
    counter_eq rfl (fun _ _ => rfl) (by omega)
  refine ⟨tracking_positive hpos, tracking_qty es, ?_, ?_⟩
  · rw [hadds, tracking_live]
  · rw [hadds, counter_eq (f := TrackerStats.duplicateAdd) rfl (fun _ _ => rfl) (by omega),
      counter_eq (f := TrackerStats.unknownOrderId) rfl (fun _ _ => rfl) (by omega),
      counter_eq (f := TrackerStats.totalCancels) rfl (fun _ _ => rfl) (by omega),
      counter_eq (f := TrackerStats.totalFills) rfl (fun _ _ => rfl) (by omega), hcounts]

/-- Of ten units four are filled and nine more are asked for, after a duplicate and an unknown
id. -/
theorem balanced_example : Balanced
    [⟨.orderAdd, .bid, 1, 100, 10, 0, 0, 0⟩, ⟨.orderAdd, .ask, 1, 101, 5, 0, 0, 0⟩,
      ⟨.orderFill, .bid, 1, 100, 4, 0, 0, 0⟩, ⟨.orderCancel, .bid, 2, 100, 1, 0, 0, 0⟩,
      ⟨.orderCancel, .bid, 1, 100, 9, 0, 0, 0⟩] :=
  balanced _ (by decide) (by decide)

end

end MarketDataEngine
