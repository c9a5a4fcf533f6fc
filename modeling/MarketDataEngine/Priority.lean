import MarketDataEngine.Lifecycle

/-!
# Time priority

At every level the oldest order is reduced first. As long as a side's counter has not wrapped, the
fills and cancels of a level come in the order of their ids, and an order is reduced only when every
order added before it at the level was reduced to zero or dropped by a `Delete`
(`timePriority`). Once the counter wraps, newer orders get smaller ids (`timePriority_fails`).
-/

namespace MarketDataEngine

open History Correlator

/-- The fills and cancels of a side's stream at a price. -/
def reductionsAt (p : Price) (es : List L3Event) : List L3Event :=
  es.filter fun e => e.type ≠ .orderAdd ∧ e.price = p

/-- The adds of a side's stream at a price. -/
def addsAt (p : Price) (es : List L3Event) : List L3Event :=
  (es.filter (·.type = .orderAdd)).filter (·.price = p)

/-- The order was added and rested at the level when a `Delete` arrived there. -/
def Dropped (s : Side) (p : Price) (a : L3Event) (calls : List Call) : Prop :=
  ∃ pre u, pre ++ [.l2Update u] <+: calls ∧ u.action = .delete ∧ u.side = s ∧ u.price = p ∧
    a ∈ emitted pre ∧ a.orderId ∈ ((engine.state pre).lots s p).map Prod.fst

/-- Every order added at the level before the one that `e` reduces was dropped, or reduced to zero
by the events before `e`: those of the calls `pre`, and `out` of the call that emits `e`. -/
def Served (s : Side) (p : Price) (pre : List Call) (out : List L3Event) (e : L3Event) : Prop :=
  ∃ before b after, addsAt p (sideStream s pre) = before ++ b :: after ∧ b.orderId = e.orderId ∧
    ∀ a ∈ before, Dropped s p a pre ∨
      reducedOf a.orderId (sideStream s pre ++ out) = a.qty.toNat

/-- The orders of a level are reduced oldest first. -/
structure TimePriority (s : Side) (p : Price) (calls : List Call) : Prop where
  ordered : ((reductionsAt p (sideStream s calls)).map L3Event.orderId).Pairwise (· ≤ ·)
  served : Always (fun pre call => Always (fun out e =>
    e.type ≠ .orderAdd → e.side = s → e.price = p → Served s p pre out e)
    (emittedBy pre call)) calls

/-- What the stream of a side and its book say of the orders added at a level. -/
structure InOrder (s : Side) (p : Price) (calls : List Call) (c : Correlator)
    (es : List L3Event) : Prop where
  ordered : ((reductionsAt p es).map L3Event.orderId).Pairwise (· ≤ ·)
  floor : ∀ e ∈ reductionsAt p es, ∀ id ∈ (c.lots s p).map Prod.fst, e.orderId ≤ id
  account : ∀ a ∈ addsAt p es, Dropped s p a calls ∨
    reducedOf a.orderId es + Fifo.held a.orderId (c.lots s p) = a.qty.toNat

@[simp] theorem reductionsAt_append (p : Price) (es evs : List L3Event) :
    reductionsAt p (es ++ evs) = reductionsAt p es ++ reductionsAt p evs := by
  simp [reductionsAt]

@[simp] theorem addsAt_append (p : Price) (es evs : List L3Event) :
    addsAt p (es ++ evs) = addsAt p es ++ addsAt p evs := by
  simp [addsAt]

/-- The reductions of a level. -/
theorem mem_reductionsAt {p : Price} {es : List L3Event} {e : L3Event} :
    e ∈ reductionsAt p es ↔ e ∈ es ∧ e.type ≠ .orderAdd ∧ e.price = p := by
  simp [reductionsAt]

/-- The adds of a level. -/
theorem mem_addsAt {p : Price} {es : List L3Event} {e : L3Event} :
    e ∈ addsAt p es ↔ e ∈ es ∧ e.type = .orderAdd ∧ e.price = p := by
  simp only [addsAt, List.mem_filter, decide_eq_true_eq, and_assoc]

variable {s : Side} {p : Price} {calls : List Call} {c c' : Correlator} {u : L2Update}
  {es evs : List L3Event}

/-- What was dropped stays dropped. -/
theorem Dropped.mono {a : L3Event} {calls' : List Call} (h : Dropped s p a calls)
    (hpre : calls <+: calls') : Dropped s p a calls' := by
  obtain ⟨pre, u, hu, h⟩ := h
  exact ⟨pre, u, hu.trans hpre, h⟩

/-- A lowered level's events, and then the orders it keeps, come in the order of their ids. -/
theorem Reduced.pairwise {fills cancels : List L3Event} (h : Reduced c u c' fills cancels)
    (hc : Queues c) (hs : ((c.lots u.side u.price).map Prod.fst).Pairwise (· < ·)) :
    ((fills ++ cancels).map L3Event.orderId ++
      (c'.lots u.side u.price).map Prod.fst).Pairwise (· ≤ ·) := by
  have hunits := Fifo.pairwise_units UInt64.le_refl (hs.imp UInt64.le_of_lt)
  rw [← h.units] at hunits
  have hids : (fills ++ cancels).map L3Event.orderId =
      ((fills ++ cancels).map L3Event.lot).map Prod.fst := by
    rw [List.map_map]
    rfl
  have hkept : Fifo.Pos (c'.lots u.side u.price) := h.lots ▸ (hc.pos u.side u.price).drop _
  rw [hids]
  exact hunits.sublist ((h.pos hc).labels_sublist_units.append hkept.labels_sublist_units)

/-- The adds of a level come in the order of their ids. -/
theorem addsAt_pairwise (hs : (addedIds es).Pairwise (· < ·)) (p : Price) :
    ((addsAt p es).map L3Event.orderId).Pairwise (· < ·) :=
  hs.sublist (List.filter_sublist.map _)

/-- The events of a lowered level are all fills and cancels at its price. -/
theorem Reduced.reductionsAt_eq {fills cancels : List L3Event} (h : Reduced c u c' fills cancels) :
    reductionsAt u.price (fills ++ cancels) = fills ++ cancels :=
  List.filter_eq_self.2 fun e he => by
    simpa using ⟨(h.event_fields e he).1, (h.event_fields e he).2.2.1⟩

/-- An order is reduced when the orders before it at its level are gone. -/
theorem InOrder.served (h : InOrder u.side u.price calls c es) (hl : Ledger c u.side es)
    (hc : Queues c) (hs : (addedIds es).Pairwise (· < ·)) {fills cancels : List L3Event}
    (hr : Reduced c u c' fills cancels) {out post : List L3Event} {e : L3Event}
    (hsplit : fills ++ cancels = out ++ e :: post) :
    ∃ before b after, addsAt u.price es = before ++ b :: after ∧ b.orderId = e.orderId ∧
      ∀ a ∈ before, Dropped u.side u.price a calls ∨
        reducedOf a.orderId (es ++ out) = a.qty.toNat := by
  have he : e ∈ fills ++ cancels := by simp [hsplit]
  obtain ⟨q, hq⟩ := hr.queued hc he
  obtain ⟨b, hb, htb, (hidb : b.orderId = e.orderId), hpb, -⟩ := hl.origin _ _ hq
  obtain ⟨before, after, hadds⟩ := List.append_of_mem (mem_addsAt.2 ⟨hb, htb, hpb⟩)
  refine ⟨before, b, after, hadds, hidb, ?_⟩
  intro a ha
  refine (h.account a (by simp [hadds, ha])).imp_right ?_
  intro hacc
  have hlt : a.orderId < e.orderId := by
    have hpair := addsAt_pairwise hs u.price
    rw [hadds, List.map_append, List.pairwise_append] at hpair
    exact hidb ▸ hpair.2.2 _ (List.mem_map_of_mem ha) _ (by simp)
  -- what comes at or after `e` has ids from `e`'s on, so nothing of `a` is left there
  have hpair := hr.pairwise hc (hl.sorted u.price)
  rw [hsplit, List.map_append, List.append_assoc, List.pairwise_append, List.map_cons,
    List.cons_append, List.pairwise_cons] at hpair
  have hrest : reducedOf a.orderId (e :: post) = 0 := by
    refine qtyOf_eq_zero ?_
    intro e' he' hsel
    have hle : e.orderId ≤ e'.orderId := by
      rcases List.mem_cons.1 he' with rfl | he'
      · exact UInt64.le_refl _
      · exact hpair.2.1.1 _ (List.mem_append_left _ (List.mem_map_of_mem he'))
    rw [hsel.2] at hle
    exact UInt64.not_lt.2 hle hlt
  have hkept : Fifo.held a.orderId (c'.lots u.side u.price) = 0 := by
    refine Fifo.held_eq_zero ?_
    intro hmem
    exact UInt64.not_lt.2 (hpair.2.1.1 _ (List.mem_append_right _ hmem)) hlt
  have htotal := hr.reducedOf_add_held a.orderId
  rw [hsplit, reducedOf_append] at htotal
  rw [reducedOf_append]
  omega

/-! ## One update of the level -/

/-- A level that a `Delete` clears drops the orders that rest there. -/
theorem InOrder.deleted
    (h : InOrder u.side u.price calls (engine.state calls) (sideStream u.side calls))
    (ha : u.action = .delete) (hnil : c'.lots u.side u.price = []) :
    InOrder u.side u.price (calls ++ [.l2Update u]) c' (sideStream u.side calls) := by
  refine ⟨h.ordered, by simp [hnil], ?_⟩
  intro a hadd
  rcases h.account a hadd with hdrop | hacc
  · exact .inl (hdrop.mono (List.prefix_append _ _))
  rcases Decidable.em (a.orderId ∈ ((engine.state calls).lots u.side u.price).map Prod.fst) with
    hmem | hmem
  · have hemit : a ∈ emitted calls := List.mem_of_mem_filter (mem_addsAt.1 hadd).1
    exact .inl ⟨calls, u, List.prefix_refl _, ha, rfl, rfl, hemit, hmem⟩
  · rw [Fifo.held_eq_zero hmem] at hacc
    exact .inr (hnil ▸ hacc)

/-- A new order, under an id above all earlier ones, is the last of its level. -/
theorem InOrder.added (h : InOrder u.side u.price calls c es) (hl : Ledger c u.side es)
    {e : L3Event} (hty : e.type = .orderAdd)
    (hlots : c'.lots u.side u.price = c.lots u.side u.price ++ [e.lot])
    (hfresh : ∀ id ∈ addedIds es, id < e.orderId) :
    InOrder u.side u.price (calls ++ [.l2Update u]) c' (es ++ [e]) := by
  have hred : reductionsAt u.price [e] = [] := by simp [reductionsAt, hty]
  have hheld : ∀ id, Fifo.held id (c'.lots u.side u.price) =
      Fifo.held id (c.lots u.side u.price) + if e.orderId = id then e.qty.toNat else 0 := by
    intro id
    rw [hlots, Fifo.held_append, Fifo.held_cons, Fifo.held_nil, Nat.add_zero]
    rfl
  refine ⟨?_, ?_, ?_⟩
  · rw [reductionsAt_append, hred, List.append_nil]
    exact h.ordered
  · intro e' he' id hid
    rw [reductionsAt_append, hred, List.append_nil] at he'
    rw [hlots, List.map_append] at hid
    rcases List.mem_append.1 hid with hid | hid
    · exact h.floor e' he' id hid
    · rw [List.mem_singleton.1 hid]
      exact UInt64.le_of_lt (hl.lt_fresh hfresh (mem_reductionsAt.1 he').1)
  · intro a ha
    rw [addsAt_append] at ha
    rw [hheld, reducedOf_append, reducedOf_add hty, Nat.add_zero]
    rcases List.mem_append.1 ha with ha | ha
    · have hne : e.orderId ≠ a.orderId := fun he =>
        UInt64.lt_irrefl _ (he ▸ hl.lt_fresh hfresh (mem_addsAt.1 ha).1)
      refine (h.account a ha).imp (·.mono (List.prefix_append _ _)) ?_
      intro hacc
      rw [if_neg hne]
      exact hacc
    · -- the new order itself: all of it rests
      rw [List.mem_singleton.1 (mem_addsAt.1 ha).1]
      have hunqueued : Fifo.held e.orderId (c.lots u.side u.price) = 0 :=
        Fifo.held_eq_zero fun hmem => UInt64.lt_irrefl _ (hl.queued_lt_fresh hfresh hmem)
      rw [hl.reducedOf_fresh hfresh, hunqueued, if_pos rfl, Nat.zero_add, Nat.zero_add]
      exact .inr rfl

/-- The events of a lowered level go on in the order of ids. -/
theorem InOrder.reduced (h : InOrder u.side u.price calls c es) (hl : Ledger c u.side es)
    (hc : Queues c) {fills cancels : List L3Event} (hr : Reduced c u c' fills cancels) :
    InOrder u.side u.price (calls ++ [.l2Update u]) c' (es ++ (fills ++ cancels)) := by
  have hpair := hr.pairwise hc (hl.sorted u.price)
  rw [List.pairwise_append] at hpair
  have hred := hr.reductionsAt_eq
  have hadds : addsAt u.price (fills ++ cancels) = [] := by
    rw [addsAt, hr.no_add, List.filter_nil]
  refine ⟨?_, ?_, ?_⟩
  · rw [reductionsAt_append, hred, List.map_append, List.pairwise_append]
    refine ⟨h.ordered, hpair.1, ?_⟩
    intro id hid id' hid'
    obtain ⟨e, he, rfl⟩ := List.mem_map.1 hid
    obtain ⟨e', he', rfl⟩ := List.mem_map.1 hid'
    obtain ⟨q, hq⟩ := hr.queued hc he'
    exact h.floor e he _ (List.mem_map_of_mem hq)
  · intro e he id hid
    rw [reductionsAt_append, hred] at he
    rcases List.mem_append.1 he with he | he
    · exact h.floor e he id (hr.labels_suffix.subset hid)
    · exact hpair.2.2 _ (List.mem_map_of_mem he) id hid
  · intro a ha
    rw [addsAt_append, hadds, List.append_nil] at ha
    refine (h.account a ha).imp (·.mono (List.prefix_append _ _)) ?_
    intro hacc
    have htotal := hr.reducedOf_add_held a.orderId
    rw [reducedOf_append]
    omega

/-- What leaves a level's queue and orders alone keeps them in order. -/
theorem InOrder.mono (h : InOrder s p calls c es) {calls' : List Call} (hcalls : calls <+: calls')
    (hlots : c'.lots s p = c.lots s p) (hred : reductionsAt p evs = []) (hadds : addsAt p evs = [])
    (hnone : ∀ a ∈ addsAt p es, reducedOf a.orderId evs = 0) :
    InOrder s p calls' c' (es ++ evs) := by
  refine ⟨?_, ?_, ?_⟩
  · rw [reductionsAt_append, hred, List.append_nil]
    exact h.ordered
  · rw [reductionsAt_append, hred, List.append_nil, hlots]
    exact h.floor
  · intro a ha
    rw [addsAt_append, hadds, List.append_nil] at ha
    rw [hlots, reducedOf_append, hnone a ha, Nat.add_zero]
    exact (h.account a ha).imp_left (·.mono hcalls)

/-- One update of the level keeps its orders in order, and serves them so. -/
theorem InOrder.l2Step
    (h : InOrder u.side u.price calls (engine.state calls) (sideStream u.side calls))
    (hlt : (addedIds (sideStream u.side calls ++ evs)).length < 2 ^ 64)
    (hstep : L2Step (engine.state calls) u c' evs) :
    InOrder u.side u.price (calls ++ [.l2Update u]) c' (sideStream u.side calls ++ evs) ∧
      Always (fun out e => e.type ≠ .orderAdd → Served u.side u.price calls out e) evs := by
  have hpre := List.prefix_append calls [.l2Update u]
  rw [addedIds_append, List.length_append] at hlt
  have hlt' := Nat.lt_of_le_of_lt (Nat.le_add_right _ _) hlt
  have hl := (ledger_run hlt').1
  have hn := numbered_state u.side calls
  cases hstep with
  | deleted ha _ _ hlevel =>
    rw [List.append_nil]
    exact ⟨h.deleted ha (lots_of_deleted hlevel), always_nil _⟩
  | kept _ _ _ _ hlevel =>
    exact ⟨h.mono hpre (lots_of_kept hlevel) rfl rfl fun _ _ => rfl, always_nil _⟩
  | added _ _ _ _ hlevel =>
    refine ⟨h.added hl rfl (lots_of_added hlevel) (hn.lt_nextOrderId hlt), ?_⟩
    intro out e post hsplit hty
    have he : e ∈ out ++ e :: post := by simp
    rw [← hsplit, List.mem_singleton] at he
    exact absurd (congrArg L3Event.type he) hty
  | reduced fills cancels hr =>
    exact ⟨h.reduced hl (queues_state calls) hr, fun out e post hsplit _ =>
      h.served hl (queues_state calls) (hn.sorted hlt') hr hsplit⟩

/-! ## Runs -/

/-- An update of another level keeps the level's orders in order. -/
theorem InOrder.other (h : InOrder s p calls (engine.state calls) (sideStream s calls))
    (hlt : (addedIds (sideStream s calls)).length < 2 ^ 64)
    (hstep : L2Step (engine.state calls) u c' evs) (hsp : ¬ (s = u.side ∧ p = u.price)) :
    InOrder s p (calls ++ [.l2Update u]) c'
      (sideStream s calls ++ if u.side = s then evs else []) := by
  have hprice := fun e he => (hstep.event_fields e he).2.1
  have hpre := List.prefix_append calls [.l2Update u]
  have hlots := hstep.frame.lots hsp
  split
  · rename_i hs
    subst hs
    have hp : u.price ≠ p := fun hp => hsp ⟨rfl, hp.symm⟩
    refine h.mono hpre hlots ?_ ?_ ?_
    · refine List.eq_nil_iff_forall_not_mem.2 fun e he => hp ?_
      exact (hprice e (mem_reductionsAt.1 he).1).symm.trans (mem_reductionsAt.1 he).2.2
    · refine List.eq_nil_iff_forall_not_mem.2 fun e he => hp ?_
      exact (hprice e (mem_addsAt.1 he).1).symm.trans (mem_addsAt.1 he).2.2
    · intro a ha
      obtain ⟨hmem, hta, hpa⟩ := mem_addsAt.1 ha
      have hnd := (numbered_state u.side calls).nodup hlt
      exact (ledger_run hlt).1.reducedOf_eq_zero (queues_state calls) hnd hstep hmem hta
        fun hpu => hp (hpu.symm.trans hpa)
  · exact h.mono hpre hlots rfl rfl fun _ _ => rfl

/-- In every run the orders of a level are served in the order of their adds. -/
theorem inOrder_run (p : Price) (hlt : (addedIds (sideStream s calls)).length < 2 ^ 64) :
    InOrder s p calls (engine.state calls) (sideStream s calls) ∧
      Always (fun pre call => Always (fun out e =>
        e.type ≠ .orderAdd → e.side = s → e.price = p → Served s p pre out e)
        (emittedBy pre call)) calls := by
  induction calls using run_induction with
  | nil =>
    rw [sideStream_nil]
    exact ⟨⟨List.Pairwise.nil, fun _ he => absurd he List.not_mem_nil,
      fun _ ha => absurd ha List.not_mem_nil⟩, always_nil _⟩
  | trade calls t ih =>
    rw [sideStream_trade] at hlt ⊢
    obtain ⟨h, halways⟩ := ih hlt
    rw [always_concat, state_trade, ← List.append_nil (sideStream s calls)]
    refine ⟨?_, halways, by rw [emittedBy_trade]; exact always_nil _⟩
    exact h.mono (List.prefix_append ..) rfl rfl rfl fun _ _ => rfl
  | l2Update calls u ih =>
    have hstep := (engine.state calls).onL2Update_step u
    rw [sideStream_l2Update] at hlt ⊢
    have hpre : (addedIds (sideStream s calls)).length < 2 ^ 64 := by
      rw [addedIds_append, List.length_append] at hlt
      omega
    obtain ⟨h, halways⟩ := ih hpre
    rw [always_concat, state_l2Update, emittedBy_l2Update]
    rcases Decidable.em (s = u.side ∧ p = u.price) with ⟨rfl, rfl⟩ | hsp
    · rw [if_pos rfl] at hlt ⊢
      obtain ⟨h', hserved⟩ := h.l2Step hlt hstep
      exact ⟨h', halways, hserved.mono fun out e he hty _ _ => he hty⟩
    · refine ⟨h.other hpre hstep hsp, halways, fun out e post hsplit _ hs hp => absurd ?_ hsp⟩
      obtain ⟨hside, hprice, -⟩ := hstep.event_fields e (by rw [hsplit]; simp)
      exact ⟨hs.symm.trans hside, hp.symm.trans hprice⟩

/-- **Time priority at a level**, as long as its side adds fewer than 2^64 orders. -/
theorem timePriority (s : Side) (p : Price) (calls : List Call)
    (hlt : (addedIds (sideStream s calls)).length < 2 ^ 64) : TimePriority s p calls :=
  ⟨(inOrder_run p hlt).1.ordered, (inOrder_run p hlt).2⟩

/-- Of two orders of ten the first is cancelled in full, the second in part. -/
theorem timePriority_example : TimePriority .bid 1000
    [.l2Update ⟨1, .new, 1000, 10, .bid, 0⟩, .l2Update ⟨2, .change, 1000, 30, .bid, 0⟩,
      .l2Update ⟨3, .change, 1000, 25, .bid, 0⟩] :=
  timePriority _ _ _ (by decide +kernel)

/-! ## A counter that wraps -/

/-- An order of one unit. -/
def opens : L2Update := ⟨1, .new, 1000, 1, .bid, 0⟩

/-- The end of the order. -/
def closes : L2Update := ⟨1, .change, 1000, 0, .bid, 0⟩

/-- An order is opened and closed, again and again. -/
def cycles : ℕ → List Call
  | 0 => []
  | k + 1 => cycles k ++ [.l2Update opens] ++ [.l2Update closes]

/-- Opening adds one order of one unit to an empty level. -/
theorem L2Step.of_opens (h : L2Step c opens c' es) (hlevel : c.level .bid 1000 = {}) :
    c'.lots .bid 1000 = [(c.nextOrderId .bid, 1)] ∧ c'.totalQty .bid 1000 = 2 ∧
      c'.nextOrderId .bid = c.nextOrderId .bid + 1 ∧ reductionsAt 1000 es = [] := by
  have hlevel' : c.level opens.side opens.price = {} := hlevel
  have hzero : c.totalQty opens.side opens.price = 0 := by rw [totalQty_eq, hlevel']
  cases h with
  | deleted ha => cases ha
  | added _ _ _ hid hl =>
    rw [hzero, hlevel'] at hl
    refine ⟨?_, ?_, hid, rfl⟩
    · exact (lots_eq ..).trans (congrArg (fun l => l.orders.map SyntheticOrder.lot) hl)
    · exact (totalQty_eq ..).trans (congrArg LevelState.totalQty hl)
  | kept _ heq =>
    rw [hzero] at heq
    cases heq
  | reduced _ _ hr =>
    have hlt := hr.lowered
    rw [hzero] at hlt
    exact absurd hlt (by decide)

/-- Closing takes the one order out of its level. -/
theorem L2Step.of_closes (h : L2Step c closes c' es) (hc : Queues c) {id : OrderId}
    (hlots : c.lots .bid 1000 = [(id, 1)]) (hqty : c.totalQty .bid 1000 = 2) :
    c'.level .bid 1000 = {} ∧ c'.nextOrderId .bid = c.nextOrderId .bid ∧
      (reductionsAt 1000 es).map L3Event.orderId = [id] := by
  have hlots' : c.lots closes.side closes.price = [(id, 1)] := hlots
  have hqty' : c.totalQty closes.side closes.price = 2 := hqty
  cases h with
  | deleted ha => cases ha
  | added _ hlt =>
    rw [hqty'] at hlt
    exact absurd hlt (by decide)
  | kept _ heq =>
    rw [hqty'] at heq
    cases heq
  | reduced fills cancels hr =>
    have hd : c.decrease closes = 2 := by
      rw [decrease, hqty']
      rfl
    have hdrop := hr.lots
    have htotal := hr.totalQty
    rw [hd, hlots'] at hdrop htotal
    refine ⟨level_eq_default _ (htotal.trans (if_pos rfl)) hdrop, hr.nextOrderId, ?_⟩
    have hred : reductionsAt 1000 (fills ++ cancels) = fills ++ cancels := hr.reductionsAt_eq
    -- the only unit of the queue is the only unit of the events
    have hunits := hr.event_units
    rw [hd, hlots'] at hunits
    have hsub := (hr.pos hc).labels_sublist_units
    rw [hunits] at hsub
    rcases List.sublist_singleton.1 hsub with hnil | hone
    · rw [List.map_eq_nil_iff.1 hnil] at hunits
      cases hunits
    · rw [hred, ← hone, List.map_map]
      rfl

/-- Every cycle reduces the next id of the counter. -/
theorem cycles_run (k : ℕ) :
    (engine.state (cycles k)).level .bid 1000 = {} ∧
      (engine.state (cycles k)).nextOrderId .bid = .ofNat (k + 1) ∧
      (reductionsAt 1000 (sideStream .bid (cycles k))).map L3Event.orderId = firstIds k := by
  induction k with
  | zero => exact ⟨level_init .bid 1000, rfl, rfl⟩
  | succ k ih =>
    obtain ⟨hlevel, hid, hids⟩ := ih
    obtain ⟨hlots, hqty, hid', hnone⟩ :=
      ((engine.state (cycles k)).onL2Update_step opens).of_opens hlevel
    rw [← state_l2Update] at hlots hqty hid'
    obtain ⟨hlevel', hid'', hone⟩ :=
      ((engine.state (cycles k ++ [Call.l2Update opens])).onL2Update_step closes).of_closes
        (queues_state _) hlots hqty
    rw [← state_l2Update] at hlevel' hid''
    refine ⟨hlevel', hid''.trans (hid'.trans ?_), ?_⟩
    · rw [hid, UInt64.ofNat_add (k + 1) 1]
      rfl
    · have hopens : opens.side = .bid := rfl
      have hcloses : closes.side = .bid := rfl
      rw [cycles, sideStream_l2Update, if_pos hcloses, sideStream_l2Update, if_pos hopens,
        reductionsAt_append, reductionsAt_append, List.map_append, List.map_append, firstIds_succ,
        hids, hnone, hone, hid, List.map_nil, List.append_nil]

/-- The ids of a counter that has come back to 0 are not in order. -/
theorem cycles_unordered {k : ℕ} (hk : k ≠ 0) (hwrap : UInt64.ofNat (k + 1) = 0) :
    ¬ TimePriority .bid 1000 (cycles (k + 1)) := by
  intro h
  have hordered := h.ordered
  rw [(cycles_run (k + 1)).2.2, firstIds_succ, hwrap, List.pairwise_append] at hordered
  exact absurd (hordered.2.2 1 (one_mem_firstIds hk) 0 (List.mem_singleton_self _)) (by decide)

/-- After 2^64 orders the counter is back at 0, and the newest order is the smallest. -/
theorem timePriority_fails : ¬ ∀ s p calls, TimePriority s p calls := fun h =>
  cycles_unordered (by decide) (by decide) (h .bid 1000 (cycles (2 ^ 64 - 1 + 1)))

end MarketDataEngine
