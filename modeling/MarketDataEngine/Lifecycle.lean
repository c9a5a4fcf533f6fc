import MarketDataEngine.OrderIds

/-!
# Order lifecycles

Read side by side, the event stream is a set of order lifecycles: an order is added once, under an
id above all earlier ones, and then reduced, at the price it was added at, by no more than it was
added with (`lifecycles`). The invariant behind it is a ledger: what rests of a queued order is what
it was added with less what the stream has reduced it by (`Ledger.origin`). It holds whatever
`total_qty` is.
-/

namespace MarketDataEngine

open History Correlator

variable {s : Side} {calls : List Call} {es evs : List L3Event}

/-- The quantity by which a stream of one side reduces an order. -/
def reducedOf (id : OrderId) (es : List L3Event) : ℕ :=
  qtyOf (fun e => e.type ≠ .orderAdd ∧ e.orderId = id) es

/-- What an event of one side has to be after the events `pre` of that side. -/
inductive Lifecycle (pre : List L3Event) (e : L3Event) : Prop
  | added (type : e.type = .orderAdd) (pos : 0 < e.qty)
      (fresh : ∀ id ∈ addedIds pre, id < e.orderId)
  | reduced (type : e.type ≠ .orderAdd) (pos : 0 < e.qty) (a : L3Event) (mem : a ∈ pre)
      (added : a.type = .orderAdd) (orderId : a.orderId = e.orderId) (price : a.price = e.price)
      (within : reducedOf e.orderId (pre ++ [e]) ≤ a.qty.toNat)

@[simp] theorem reducedOf_append (id : OrderId) (es evs : List L3Event) :
    reducedOf id (es ++ evs) = reducedOf id es + reducedOf id evs := by
  simp [reducedOf]

/-- Fills and cancels reduce an order by the units of their lots. -/
theorem reducedOf_eq_held (h : ∀ e ∈ evs, e.type ≠ .orderAdd) (id : OrderId) :
    reducedOf id evs = Fifo.held id (evs.map L3Event.lot) := by
  induction evs with
  | nil => rfl
  | cons e evs ih =>
    rw [List.forall_mem_cons] at h
    have ih := ih h.2
    rw [reducedOf] at ih ⊢
    simp [ih, h.1, L3Event.lot]

/-- An add reduces nothing. -/
theorem reducedOf_add {e : L3Event} (hty : e.type = .orderAdd) (id : OrderId) :
    reducedOf id [e] = 0 := by
  simp [reducedOf, hty]

/-- Under distinct ids an order has one add. -/
theorem add_unique (hnd : (addedIds es).Nodup) {a b : L3Event} (ha : a ∈ es) (hb : b ∈ es)
    (hta : a.type = .orderAdd) (htb : b.type = .orderAdd) (hid : a.orderId = b.orderId) : a = b :=
  List.inj_on_of_nodup_map hnd (List.mem_filter.2 ⟨ha, by simpa using hta⟩)
    (List.mem_filter.2 ⟨hb, by simpa using htb⟩) hid

/-- What the stream of a side says of the orders that rest in its book. -/
structure Ledger (c : Correlator) (s : Side) (es : List L3Event) : Prop where
  known : ∀ e ∈ es, e.orderId ∈ addedIds es
  sorted : ∀ p, ((c.lots s p).map Prod.fst).Pairwise (· < ·)
  origin : ∀ p, ∀ lot ∈ c.lots s p, ∃ a ∈ es, a.type = .orderAdd ∧ a.orderId = lot.1 ∧
    a.price = p ∧ reducedOf lot.1 es + lot.2 = a.qty.toNat

/-- No id rests twice. -/
theorem Ledger.nodup {c : Correlator} (h : Ledger c s es) (p : Price) :
    ((c.lots s p).map Prod.fst).Nodup :=
  (h.sorted p).imp fun hab => UInt64.ne_of_lt hab

section
variable {c : Correlator} {id : OrderId} (hl : Ledger c s es)
  (hfresh : ∀ id' ∈ addedIds es, id' < id)
include hl hfresh

/-- An id above all that a side has added is above all that its stream names. -/
theorem Ledger.lt_fresh {e : L3Event} (he : e ∈ es) : e.orderId < id :=
  hfresh _ (hl.known e he)

/-- Nothing has reduced an order that has still to be added. -/
theorem Ledger.reducedOf_fresh : reducedOf id es = 0 :=
  qtyOf_eq_zero fun _ he hsel => UInt64.lt_irrefl _ (hsel.2 ▸ hl.lt_fresh hfresh he)

/-- An id above all that a side has added is above all that are queued in its book. -/
theorem Ledger.queued_lt_fresh {p : Price} {id' : OrderId}
    (hid : id' ∈ (c.lots s p).map Prod.fst) : id' < id := by
  obtain ⟨lot, hlot, rfl⟩ := List.mem_map.1 hid
  obtain ⟨a, ha, -, hida, -⟩ := hl.origin _ _ hlot
  exact hida ▸ hl.lt_fresh hfresh ha

end

/-- The next id of a side is above all ids it has added, if the counter has not wrapped. -/
theorem Numbered.lt_nextOrderId {c : Correlator} {ids : List OrderId} (h : Numbered c s ids)
    (hlt : ids.length + 1 < 2 ^ 64) : ∀ id ∈ ids, id < c.nextOrderId s := by
  have hsorted := firstIds_sorted hlt
  rw [firstIds_succ, ← h.ids_eq, List.pairwise_append] at hsorted
  intro id hid
  rw [h.nextOrderId]
  exact hsorted.2.2 id hid _ (List.mem_singleton_self _)

/-! ## One update of the side -/

section
variable {c c' : Correlator} {u : L2Update}

/-- The order of a fill or cancel was queued at the level. -/
theorem Reduced.queued {fills cancels : List L3Event} (h : Reduced c u c' fills cancels)
    (hc : Queues c) {e : L3Event} (he : e ∈ fills ++ cancels) :
    ∃ q, (e.orderId, q) ∈ c.lots u.side u.price := by
  have hunit : e.orderId ∈ Fifo.units ((fills ++ cancels).map L3Event.lot) :=
    Fifo.mem_units.2 ⟨e.lot, List.mem_map_of_mem he, rfl, h.pos hc _ (List.mem_map_of_mem he)⟩
  obtain ⟨⟨id, q⟩, hlot, rfl, -⟩ :=
    Fifo.mem_units.1 (h.units ▸ List.mem_append_left _ hunit)
  exact ⟨q, hlot⟩

/-- What a lowered level's events take from an order and what rests of it is what rested of it. -/
theorem Reduced.reducedOf_add_held {fills cancels : List L3Event}
    (h : Reduced c u c' fills cancels) (id : OrderId) :
    reducedOf id (fills ++ cancels) + Fifo.held id (c'.lots u.side u.price) =
      Fifo.held id (c.lots u.side u.price) := by
  rw [reducedOf_eq_held fun e he => (h.event_fields e he).1, Fifo.held, Fifo.held, Fifo.held,
    ← List.count_append, h.units]

/-- The fills and cancels of an update continue the lifecycles of the queued orders. -/
theorem Ledger.always_reduced (hl : Ledger c u.side es) (hc : Queues c)
    {fills cancels : List L3Event} (h : Reduced c u c' fills cancels) :
    Always (fun pre e => Lifecycle (es ++ pre) e) (fills ++ cancels) := by
  intro pre e post hsplit
  have he : e ∈ fills ++ cancels := by simp [hsplit]
  obtain ⟨hty, -, hprice, -⟩ := h.event_fields e he
  obtain ⟨q, hlot⟩ := h.queued hc he
  obtain ⟨a, ha, hta, hid, hp, hq⟩ := hl.origin _ _ hlot
  refine .reduced hty (qty_pos_iff.2 (h.pos hc _ (List.mem_map_of_mem he))) a
    (List.mem_append_left _ ha) hta hid (hp.trans hprice.symm) ?_
  have hheld : Fifo.held e.orderId (c.lots u.side u.price) = q :=
    Fifo.held_of_mem (hl.nodup u.price) hlot
  have htotal := h.reducedOf_add_held e.orderId
  rw [hsplit, ← List.singleton_append, ← List.append_assoc, reducedOf_append] at htotal
  rw [List.append_assoc, reducedOf_append]
  dsimp only at hq
  omega

/-- An order added at another price is not reduced by the update. -/
theorem Ledger.reducedOf_eq_zero (hl : Ledger c u.side es) (hc : Queues c)
    (hnd : (addedIds es).Nodup) (h : L2Step c u c' evs) {a : L3Event} (ha : a ∈ es)
    (hta : a.type = .orderAdd) (hp : a.price ≠ u.price) : reducedOf a.orderId evs = 0 := by
  refine qtyOf_eq_zero ?_
  intro e he hsel
  cases h with
  | deleted | kept => cases he
  | added => exact hsel.1 (by rw [List.mem_singleton.1 he]; rfl)
  | reduced _ _ hr =>
    obtain ⟨q, hq⟩ := hr.queued hc he
    obtain ⟨b, hb, htb, hid, hpb, -⟩ := hl.origin _ _ hq
    refine hp ?_
    rw [add_unique hnd ha hb hta htb (hsel.2.symm.trans hid.symm), hpb]

/-- A decrease keeps the ledger. -/
theorem Ledger.reduced (hl : Ledger c u.side es) (hc : Queues c) (hnd : (addedIds es).Nodup)
    {fills cancels : List L3Event} (h : Reduced c u c' fills cancels) :
    Ledger c' u.side (es ++ (fills ++ cancels)) := by
  have hsuf := h.labels_suffix
  have hsorted : ((c'.lots u.side u.price).map Prod.fst).Pairwise (· < ·) :=
    (hl.sorted u.price).sublist hsuf.sublist
  refine ⟨?_, ?_, ?_⟩
  · intro e he
    rw [addedIds_append, h.addedIds_eq_nil, List.append_nil]
    rcases List.mem_append.1 he with he | he
    · exact hl.known e he
    · obtain ⟨q, hlot⟩ := h.queued hc he
      obtain ⟨a, ha, hta, hid, -⟩ := hl.origin _ _ hlot
      have hmem := mem_addedIds ha hta
      rwa [hid] at hmem
  · intro p
    rcases eq_or_ne p u.price with rfl | hp
    · exact hsorted
    · rw [h.frame.lots fun hsp => hp hsp.2]
      exact hl.sorted p
  · intro p lot hlot
    rcases eq_or_ne p u.price with rfl | hp
    · obtain ⟨⟨id, q⟩, hmem, hid⟩ := List.mem_map.1 (hsuf.subset (List.mem_map_of_mem hlot))
      obtain ⟨a, ha, hta, hida, hpa, hq⟩ := hl.origin _ _ hmem
      refine ⟨a, List.mem_append_left _ ha, hta, hida.trans hid, hpa, ?_⟩
      have hheld := Fifo.held_of_mem (hl.nodup u.price) hmem
      have hheld' := Fifo.held_of_mem (hsorted.imp fun hab => UInt64.ne_of_lt hab) hlot
      have htotal := h.reducedOf_add_held lot.1
      dsimp only at hid hheld hq
      rw [hid] at hheld hq
      rw [reducedOf_append]
      omega
    · rw [h.frame.lots fun hsp => hp hsp.2] at hlot
      obtain ⟨a, ha, hta, hida, hpa, hq⟩ := hl.origin _ _ hlot
      refine ⟨a, List.mem_append_left _ ha, hta, hida, hpa, ?_⟩
      have hzero := hl.reducedOf_eq_zero hc hnd (.reduced _ _ h) ha hta (hpa ▸ hp)
      rw [reducedOf_append, ← hida, hzero, Nat.add_zero, hida, hq]

/-- A queue that is gone or unchanged, with no event, keeps the ledger. -/
theorem Ledger.of_sublist (hl : Ledger c u.side es) (hf : Frame c c' u.side u.price)
    (hlots : (c'.lots u.side u.price).Sublist (c.lots u.side u.price)) : Ledger c' u.side es := by
  have hsub : ∀ p, (c'.lots u.side p).Sublist (c.lots u.side p) := by
    intro p
    rcases eq_or_ne p u.price with rfl | hp
    · exact hlots
    · rw [hf.lots fun hsp => hp hsp.2]
  exact ⟨hl.known, fun p => (hl.sorted p).sublist ((hsub p).map _),
    fun p lot hlot => hl.origin p lot ((hsub p).subset hlot)⟩

/-- A new order under an id above all earlier ones keeps the ledger. -/
theorem Ledger.added (hl : Ledger c u.side es) (hf : Frame c c' u.side u.price) {e : L3Event}
    (hty : e.type = .orderAdd) (hprice : e.price = u.price)
    (hlots : c'.lots u.side u.price = c.lots u.side u.price ++ [e.lot])
    (hfresh : ∀ id ∈ addedIds es, id < e.orderId) : Ledger c' u.side (es ++ [e]) := by
  have hlots := hf.lots_added hlots
  have hadd : addedIds [e] = [e.orderId] := by simp [addedIds, hty]
  refine ⟨?_, ?_, ?_⟩
  · intro e' he'
    rw [addedIds_append, hadd]
    rcases List.mem_append.1 he' with he' | he'
    · exact List.mem_append_left _ (hl.known e' he')
    · rw [List.mem_singleton.1 he']
      exact List.mem_append_right _ (List.mem_singleton_self _)
  · intro p
    rw [hlots, List.map_append, List.pairwise_append]
    split
    · refine ⟨hl.sorted p, List.pairwise_singleton .., ?_⟩
      intro id hid id' hid'
      rw [List.mem_singleton.1 hid']
      exact hl.queued_lt_fresh hfresh hid
    · exact ⟨hl.sorted p, List.Pairwise.nil, fun _ _ _ hid' => absurd hid' List.not_mem_nil⟩
  · intro p lot hlot
    rw [hlots] at hlot
    simp only [reducedOf_append, reducedOf_add hty, Nat.add_zero]
    rcases List.mem_append.1 hlot with hlot | hlot
    · obtain ⟨a, ha, hrest⟩ := hl.origin p lot hlot
      exact ⟨a, List.mem_append_left _ ha, hrest⟩
    · -- the new order itself: nothing has reduced it
      obtain ⟨⟨-, rfl⟩, hnew⟩ := List.mem_ite_nil_right.1 hlot
      rw [List.mem_singleton.1 hnew]
      refine ⟨e, List.mem_append_right _ (List.mem_singleton_self _), hty, rfl, hprice, ?_⟩
      exact (congrArg (· + e.qty.toNat) (hl.reducedOf_fresh hfresh)).trans (Nat.zero_add _)

/-- **One update of the side** keeps the ledger, and its events continue the lifecycles. -/
theorem Ledger.l2Step (hl : Ledger c u.side es) (hc : Queues c)
    (hn : Numbered c u.side (addedIds es)) (hlt : (addedIds (es ++ evs)).length < 2 ^ 64)
    (h : L2Step c u c' evs) :
    Ledger c' u.side (es ++ evs) ∧ Always (fun pre e => Lifecycle (es ++ pre) e) evs := by
  cases h with
  | deleted _ hf _ hlevel =>
    rw [List.append_nil]
    exact ⟨hl.of_sublist hf (lots_of_deleted hlevel ▸ List.nil_sublist _), always_nil _⟩
  | kept _ _ hf _ hlevel =>
    rw [List.append_nil]
    exact ⟨hl.of_sublist hf (lots_of_kept hlevel ▸ List.Sublist.refl _), always_nil _⟩
  | added _ hraised hf _ hlevel =>
    have hlen : (addedIds es).length + 1 < 2 ^ 64 := by
      simpa [addedIds_append, addedIds, addEvent] using hlt
    have hfresh := hn.lt_nextOrderId hlen
    refine ⟨hl.added hf rfl rfl (lots_of_added hlevel) hfresh, ?_⟩
    rw [← List.nil_append [addEvent ..], always_concat]
    exact ⟨always_nil _, .added rfl (qty_sub_pos hraised) (by rw [List.append_nil]; exact hfresh)⟩
  | reduced _ _ hr =>
    rw [addedIds_append, hr.addedIds_eq_nil, List.append_nil] at hlt
    exact ⟨hl.reduced hc (hn.nodup hlt) hr, hl.always_reduced hc hr⟩

end

/-! ## Runs -/

/-- The ledger of a side, in every state of every run that has not wrapped its counter. -/
theorem ledger_run (hlt : (addedIds (sideStream s calls)).length < 2 ^ 64) :
    Ledger (engine.state calls) s (sideStream s calls) ∧
      Always Lifecycle (sideStream s calls) := by
  induction calls using run_induction with
  | nil =>
    exact ⟨⟨by simp, by simp [lots_init], by simp [lots_init]⟩, always_nil _⟩
  | trade calls t ih =>
    rw [sideStream_trade] at hlt ⊢
    obtain ⟨hl, halways⟩ := ih hlt
    exact ⟨by simpa using ⟨hl.known, hl.sorted, hl.origin⟩, halways⟩
  | l2Update calls u ih =>
    have hstep := (engine.state calls).onL2Update_step u
    rw [sideStream_l2Update] at hlt ⊢
    have hpre : (addedIds (sideStream s calls)).length < 2 ^ 64 := by
      rw [addedIds_append, List.length_append] at hlt
      omega
    obtain ⟨hl, halways⟩ := ih hpre
    rw [state_l2Update]
    by_cases hs : u.side = s
    · subst hs
      rw [if_pos rfl] at hlt ⊢
      obtain ⟨hl', halways'⟩ := hl.l2Step (queues_state calls) (numbered_state _ calls) hlt hstep
      exact ⟨hl', always_append.2 ⟨halways, halways'⟩⟩
    · rw [if_neg hs, List.append_nil]
      have hlots : ∀ p, ((engine.state calls).onL2Update u).1.lots s p =
          (engine.state calls).lots s p := fun p => hstep.frame.lots fun hsp => hs hsp.1.symm
      exact ⟨⟨hl.known, fun p => hlots p ▸ hl.sorted p, fun p => hlots p ▸ hl.origin p⟩, halways⟩

/-- **The event stream of a side is a set of valid order lifecycles**, as long as the side adds
fewer than 2^64 orders. -/
theorem lifecycles (s : Side) (calls : List Call)
    (hlt : (addedIds (sideStream s calls)).length < 2 ^ 64) :
    Always Lifecycle (sideStream s calls) :=
  (ledger_run hlt).2

/-- An order that is added, filled in part and then cancelled in full. -/
theorem lifecycles_example :
    (addedIds (sideStream .bid [.l2Update ⟨1, .new, 1000, 10, .bid, 0⟩,
      .trade ⟨2, 1000, 4, .bid, 7⟩, .l2Update ⟨2, .change, 1000, 0, .bid, 0⟩])).length < 2 ^ 64 ∧
    Always Lifecycle (sideStream .bid [.l2Update ⟨1, .new, 1000, 10, .bid, 0⟩,
      .trade ⟨2, 1000, 4, .bid, 7⟩, .l2Update ⟨2, .change, 1000, 0, .bid, 0⟩]) :=
  ⟨by decide +kernel, lifecycles _ _ (by decide +kernel)⟩

end MarketDataEngine
