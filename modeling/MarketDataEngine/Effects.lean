import MarketDataEngine.Run

/-!
# The effects of an update, by side and price

What an update leaves unchanged, which events it emits and how much they add and reduce, read off
`L2Step` once for all the properties of runs. The one invariant that every run has without a
condition is here too: every queued order has a positive quantity, and a level whose queue is empty
has no quantity (`Queues`).
-/

namespace MarketDataEngine

open History Correlator

/-- The quantity added at a side and price. -/
def addedAt (s : Side) (p : Price) (es : List L3Event) : ℕ :=
  qtyOf (fun e => e.type = .orderAdd ∧ e.side = s ∧ e.price = p) es

/-- The quantity filled and cancelled at a side and price. -/
def reducedAt (s : Side) (p : Price) (es : List L3Event) : ℕ :=
  qtyOf (fun e => e.type ≠ .orderAdd ∧ e.side = s ∧ e.price = p) es

@[simp] theorem addedAt_append (s : Side) (p : Price) (es es' : List L3Event) :
    addedAt s p (es ++ es') = addedAt s p es + addedAt s p es' := by
  simp [addedAt]

@[simp] theorem reducedAt_append (s : Side) (p : Price) (es es' : List L3Event) :
    reducedAt s p (es ++ es') = reducedAt s p es + reducedAt s p es' := by
  simp [reducedAt]

section
variable {c c' : Correlator} {u : L2Update} {es : List L3Event}

/-! ## What stays -/

/-- An update touches its level and its entries only. -/
theorem L2Step.frame (h : L2Step c u c' es) : Frame c c' u.side u.price := by
  cases h with
  | deleted _ hf | added _ _ hf | kept _ _ hf => exact hf
  | reduced _ _ hr => exact hr.frame

/-- The queues of other levels stay. -/
theorem Frame.lots {s : Side} {p : Price} (h : Frame c c' s p) {s' : Side} {p' : Price}
    (hne : ¬ (s' = s ∧ p' = p)) : c'.lots s' p' = c.lots s' p' := by
  rw [lots_eq, h.level s' p' hne, lots_eq]

/-- The quantities of other levels stay. -/
theorem Frame.totalQty {s : Side} {p : Price} (h : Frame c c' s p) {s' : Side} {p' : Price}
    (hne : ¬ (s' = s ∧ p' = p)) : c'.totalQty s' p' = c.totalQty s' p' := by
  rw [totalQty_eq, h.level s' p' hne, totalQty_eq]

/-! ## The queue -/

section
variable {s : Side} {p : Price}

/-- A deleted level has no queue. -/
theorem lots_of_deleted (hl : c'.level s p = {}) : c'.lots s p = [] := by
  rw [lots_eq, hl]
  rfl

/-- A level that is kept has its queue. -/
theorem lots_of_kept (hl : c'.level s p = c.level s p) : c'.lots s p = c.lots s p := by
  rw [lots_eq, hl, lots_eq]

/-- A new order is the last lot of its queue. -/
theorem lots_of_added {total qty : Qty} {id : OrderId}
    (hl : c'.level s p =
      { totalQty := total, orders := (c.level s p).orders ++ [⟨id, qty⟩] }) :
    c'.lots s p = c.lots s p ++ [(id, qty.toNat)] := by
  rw [lots_eq, hl, List.map_append, ← lots_eq]
  rfl

/-- A new order is the one change to the queues of the two books. -/
theorem Frame.lots_added (hf : Frame c c' s p) {lot : OrderId × ℕ}
    (hl : c'.lots s p = c.lots s p ++ [lot]) (s' : Side) (p' : Price) :
    c'.lots s' p' = c.lots s' p' ++ if s' = s ∧ p' = p then [lot] else [] := by
  split
  · rename_i hsp
    rw [hsp.1, hsp.2, hl]
  · rename_i hsp
    rw [hf.lots hsp, List.append_nil]

/-- No level has a queue at first. -/
theorem lots_init (s : Side) (p : Price) : engine.init.lots s p = [] :=
  lots_of_deleted (level_init s p)

/-- No level has a quantity at first. -/
theorem totalQty_init (s : Side) (p : Price) : engine.init.totalQty s p = 0 := by
  rw [totalQty_eq, engine, level_init]

end

/-- The orders that a lowered level keeps are the last of its queue. -/
theorem Reduced.labels_suffix {fills cancels : List L3Event} (h : Reduced c u c' fills cancels) :
    (c'.lots u.side u.price).map Prod.fst <:+ (c.lots u.side u.price).map Prod.fst := by
  rw [h.lots]
  exact Fifo.drop_labels_suffix ..

/-! ## The events -/

/-- The events of a decrease have the fields of the update. -/
theorem Reduced.event_fields {fills cancels : List L3Event} (h : Reduced c u c' fills cancels) :
    ∀ e ∈ fills ++ cancels, e.type ≠ .orderAdd ∧ e.side = u.side ∧ e.price = u.price ∧
      e.exchangeTs = u.ts ∧ e.recvTsNs = u.recvTs := by
  intro e he
  rcases List.mem_append.1 he with he | he
  · rw [h.fill_event e he]
    exact ⟨by simp [reduceEvent], rfl, rfl, rfl, rfl⟩
  · rw [h.cancel_event e he]
    exact ⟨by simp [reduceEvent], rfl, rfl, rfl, rfl⟩

/-- A lowered level adds no order. -/
theorem Reduced.no_add {fills cancels : List L3Event} (h : Reduced c u c' fills cancels) :
    (fills ++ cancels).filter (·.type = .orderAdd) = [] :=
  List.filter_eq_nil_iff.2 fun e he => by simpa using (h.event_fields e he).1

/-- Every event of an update carries its side, price and times. -/
theorem L2Step.event_fields (h : L2Step c u c' es) :
    ∀ e ∈ es, e.side = u.side ∧ e.price = u.price ∧ e.exchangeTs = u.ts ∧
      e.recvTsNs = u.recvTs := by
  cases h with
  | deleted | kept => simp
  | added =>
    intro e he
    rw [List.mem_singleton.1 he]
    exact ⟨rfl, rfl, rfl, rfl⟩
  | reduced _ _ hr => exact fun e he => (hr.event_fields e he).2

/-- An update adds nothing elsewhere. -/
theorem L2Step.addedAt_of_ne (h : L2Step c u c' es) {s : Side} {p : Price}
    (hne : ¬ (u.side = s ∧ u.price = p)) : addedAt s p es = 0 := by
  refine qtyOf_eq_zero fun e he hsel => hne ?_
  obtain ⟨hs, hp, -⟩ := h.event_fields e he
  exact ⟨hs ▸ hsel.2.1, hp ▸ hsel.2.2⟩

/-- An update reduces nothing elsewhere. -/
theorem L2Step.reducedAt_of_ne (h : L2Step c u c' es) {s : Side} {p : Price}
    (hne : ¬ (u.side = s ∧ u.price = p)) : reducedAt s p es = 0 := by
  refine qtyOf_eq_zero fun e he hsel => hne ?_
  obtain ⟨hs, hp, -⟩ := h.event_fields e he
  exact ⟨hs ▸ hsel.2.1, hp ▸ hsel.2.2⟩

/-- The events of a lowered level report, unit by unit, the decrease from the front of its queue. -/
theorem Reduced.event_units {fills cancels : List L3Event} (h : Reduced c u c' fills cancels) :
    Fifo.units ((fills ++ cancels).map L3Event.lot) =
      Fifo.units (Fifo.take (c.decrease u) (c.lots u.side u.price)) := by
  have hle : c.matched u ≤ c.decrease u := Nat.min_le_right ..
  rw [List.map_append, h.fill_lots, h.cancel_lots, Fifo.units_append, Fifo.units_take_add,
    Nat.add_sub_cancel' hle]

/-- The units that a lowered level's events report are the first of its queue; the others stay. -/
theorem Reduced.units {fills cancels : List L3Event} (h : Reduced c u c' fills cancels) :
    Fifo.units ((fills ++ cancels).map L3Event.lot) ++ Fifo.units (c'.lots u.side u.price) =
      Fifo.units (c.lots u.side u.price) := by
  rw [h.event_units, h.lots, Fifo.units_take_drop]

/-- An add adds its quantity. -/
theorem addedAt_addEvent (id : OrderId) (qty : Qty) :
    addedAt u.side u.price [addEvent u id qty] = qty.toNat := by
  simp [addedAt, addEvent]

/-- An add reduces nothing. -/
theorem reducedAt_addEvent (id : OrderId) (qty : Qty) :
    reducedAt u.side u.price [addEvent u id qty] = 0 := by
  simp [reducedAt, addEvent]

/-- A decrease adds nothing. -/
theorem Reduced.addedAt_eq_zero {fills cancels : List L3Event} (h : Reduced c u c' fills cancels) :
    addedAt u.side u.price (fills ++ cancels) = 0 :=
  qtyOf_eq_zero fun e he hsel => (h.event_fields e he).1 hsel.1

/-- A lowered level is reduced by its decrease, as far as its queue goes. -/
theorem Reduced.reducedAt_eq {fills cancels : List L3Event} (h : Reduced c u c' fills cancels) :
    reducedAt u.side u.price (fills ++ cancels) =
      min (c.decrease u) (Fifo.total (c.lots u.side u.price)) := by
  have hall : ∀ e ∈ fills ++ cancels,
      e.type ≠ .orderAdd ∧ e.side = u.side ∧ e.price = u.price := fun e he =>
    ⟨(h.event_fields e he).1, (h.event_fields e he).2.1, (h.event_fields e he).2.2.1⟩
  rw [reducedAt, qtyOf_eq_total hall, List.map_append, h.fill_lots, h.cancel_lots,
    Fifo.total_append, Fifo.total_take, Fifo.total_take, Fifo.total_drop]
  have : c.matched u ≤ c.decrease u := Nat.min_le_right ..
  omega

/-! ## Positive queues -/

/-- Every queued order has a positive quantity, and a level without an order no quantity. -/
structure Queues (c : Correlator) : Prop where
  pos : ∀ s p, Fifo.Pos (c.lots s p)
  total : ∀ s p, c.lots s p = [] → c.totalQty s p = 0

/-- Every fill and cancel has a positive quantity. -/
theorem Reduced.pos {fills cancels : List L3Event} (h : Reduced c u c' fills cancels)
    (hc : Queues c) : Fifo.Pos ((fills ++ cancels).map L3Event.lot) := by
  rw [List.map_append, h.fill_lots, h.cancel_lots, Fifo.pos_append]
  exact ⟨(hc.pos _ _).take _, ((hc.pos _ _).drop _).take _⟩

/-- An update keeps the queues. -/
theorem Queues.l2Step (hc : Queues c) (h : L2Step c u c' es) : Queues c' := by
  have key : Fifo.Pos (c'.lots u.side u.price) ∧
      (c'.lots u.side u.price = [] → c'.totalQty u.side u.price = 0) := by
    cases h with
    | deleted _ _ _ hl =>
      rw [lots_of_deleted hl, totalQty_eq, hl]
      exact ⟨Fifo.pos_nil, fun _ => rfl⟩
    | added _ hlt _ _ hl =>
      rw [lots_of_added hl, Fifo.pos_append, Fifo.pos_cons]
      exact ⟨⟨hc.pos u.side u.price, qty_pos_iff.1 (qty_sub_pos hlt), Fifo.pos_nil⟩,
        fun he => absurd he (List.append_ne_nil_of_right_ne_nil _ (List.cons_ne_nil _ _))⟩
    | kept _ _ _ _ hl =>
      rw [lots_of_kept hl, totalQty_eq, hl, ← totalQty_eq]
      exact ⟨hc.pos u.side u.price, hc.total u.side u.price⟩
    | reduced _ _ hr =>
      refine ⟨hr.lots ▸ (hc.pos u.side u.price).drop _, ?_⟩
      intro he
      rw [hr.totalQty, ← hr.lots, if_pos he]
  refine ⟨?_, ?_⟩
  · intro s p
    rcases Decidable.em (s = u.side ∧ p = u.price) with ⟨rfl, rfl⟩ | hsp
    · exact key.1
    · exact h.frame.lots hsp ▸ hc.pos s p
  · intro s p
    rcases Decidable.em (s = u.side ∧ p = u.price) with ⟨rfl, rfl⟩ | hsp
    · exact key.2
    · rw [h.frame.lots hsp, h.frame.totalQty hsp]
      exact hc.total s p

end

/-- **Queued orders are positive.** In every state of every run. -/
theorem queues_state (calls : List Call) : Queues (engine.state calls) := by
  refine engine.state_invariant ?_ ?_ calls
  · exact ⟨fun s p => (lots_init s p).symm ▸ Fifo.pos_nil, fun s p _ => totalQty_init s p⟩
  · intro c call hc
    cases call with
    | trade t => exact ⟨hc.pos, hc.total⟩
    | l2Update u => exact hc.l2Step (c.onL2Update_step u)

end MarketDataEngine
