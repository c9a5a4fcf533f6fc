import MarketDataEngine.Effects
import MarketDataEngine.L3OrderTracker

/-!
# The tracker mirrors the books

`MarketDataHandler` feeds every event of its correlator to its tracker
(`src/utils/market_data_handler.cpp`). The tracker should then hold exactly the orders that rest in
the two books, and find no anomaly. Two things break this (`mirrors_fails`): the two books number
their orders independently while the tracker knows an order by its id alone, and a `Delete` drops
the orders of its level without an event. `mirrors_iff` is the exact condition: no `Delete` meets a
resting order, and no new order gets the id of an order that rests in either book.
-/

namespace MarketDataEngine

open History Correlator

/-- The part of the handler that the event callback connects. -/
structure MarketDataHandler where
  correlator : Correlator := {}
  tracker : L3OrderTracker := {}

/-- A call on the handler's correlator, whose callback is the tracker's `onEvent`. -/
def MarketDataHandler.step (h : MarketDataHandler) (call : Call) :
    MarketDataHandler × List Entry :=
  let (correlator, out) := h.correlator.step call
  ({ correlator := correlator, tracker := (events out).foldl L3OrderTracker.onEvent h.tracker },
    out)

/-- The handler over calls: the correlator, and the tracker on its events. -/
def handler : Machine MarketDataHandler Call Entry where
  init := {}
  step := MarketDataHandler.step

/-- The handler's correlator runs as one on its own. -/
theorem handler_correlator (calls : List Call) :
    (handler.state calls).correlator = engine.state calls := by
  induction calls using List.reverseRecOn with
  | nil => rfl
  | append_singleton calls call ih =>
    rw [Machine.state_concat, Machine.state_concat, ← ih]
    rfl

/-- A trade leaves the tracker as it is. -/
@[simp] theorem handler_tracker_trade (calls : List Call) (t : Trade) :
    (handler.state (calls ++ [.trade t])).tracker = (handler.state calls).tracker := by
  rw [Machine.state_concat]
  rfl

/-- The tracker gets the events of an update. -/
@[simp] theorem handler_tracker_l2Update (calls : List Call) (u : L2Update) :
    (handler.state (calls ++ [.l2Update u])).tracker =
      ((engine.state calls).onL2Update u).2.2.foldl L3OrderTracker.onEvent
        (handler.state calls).tracker := by
  rw [Machine.state_concat, ← handler_correlator]
  exact congrArg (List.foldl _ _) (events_l2Update _ u)

/-- The tracker holds exactly the orders resting in the books, each once, and saw no anomaly. -/
structure Mirrors (c : Correlator) (t : L3OrderTracker) : Prop where
  live_iff : ∀ id s p q, t.live id = some (s, p, q) ↔ (id, q) ∈ c.lots s p
  nodup : ∀ s p, ((c.lots s p).map Prod.fst).Nodup
  anomalies : t.anomalies = (0, 0, 0)

/-- A call after which the tracker still mirrors the books. -/
def Mirrorable (c : Correlator) : Call → Prop
  | .trade _ => True
  | .l2Update u =>
    (u.action = .delete → c.lots u.side u.price = []) ∧
      (u.action ≠ .delete → c.totalQty u.side u.price < u.newQty →
        ∀ s p, c.nextOrderId u.side ∉ (c.lots s p).map Prod.fst)

/-! ## Reductions -/

section
variable {t : L3OrderTracker} {s : Side} {p : Price}

/-- The lots of a queue are live at its side and price. -/
def LiveAt (t : L3OrderTracker) (s : Side) (p : Price) (q : List (OrderId × ℕ)) : Prop :=
  ∀ lot ∈ q, t.live lot.1 = some (s, p, lot.2)

/-- What a tracker keeps when it sees the events that take a queue `q` down to `q'`. -/
structure Taken (t t' : L3OrderTracker) (s : Side) (p : Price) (q q' : List (OrderId × ℕ)) :
    Prop where
  anomalies : t'.anomalies = t.anomalies
  frame : ∀ id, id ∉ q.map Prod.fst → t'.live id = t.live id
  live : LiveAt t' s p q'
  gone : ∀ id ∈ q.map Prod.fst, id ∉ q'.map Prod.fst → t'.live id = none

/-- What is taken in two steps is taken. -/
theorem Taken.trans {t' t'' : L3OrderTracker} {q q' q'' : List (OrderId × ℕ)}
    (h : Taken t t' s p q q') (h' : Taken t' t'' s p q' q'')
    (hq : ∀ id ∈ q'.map Prod.fst, id ∈ q.map Prod.fst) : Taken t t'' s p q q'' where
  anomalies := h'.anomalies.trans h.anomalies
  frame id hid := (h'.frame id fun hm => hid (hq id hm)).trans (h.frame id hid)
  live := h'.live
  gone id hid hid'' := by
    by_cases hm : id ∈ q'.map Prod.fst
    · exact h'.gone id hm hid''
    · rw [h'.frame id hm]
      exact h.gone id hid hm

section
variable {q : List (OrderId × ℕ)} {e : L3Event} (hty : e.type ≠ .orderAdd)
  (hid : e.orderId ∉ q.map Prod.fst)
include hty hid

/-- The event that closes the first order of a queue. -/
theorem taken_close (hlive : LiveAt t s p ((e.orderId, e.qty.toNat) :: q)) :
    Taken t (t.onEvent e) s p ((e.orderId, e.qty.toNat) :: q) q := by
  obtain ⟨hhead, hrest⟩ := List.forall_mem_cons.1 hlive
  obtain ⟨hanom, hlv⟩ := L3OrderTracker.onEvent_reduce hty hhead le_rfl
  rw [if_pos rfl] at hlv
  refine ⟨hanom, ?_, ?_, ?_⟩
  · intro id hmem
    rw [List.map_cons, List.mem_cons, not_or] at hmem
    exact (hlv id).trans (if_neg hmem.1)
  · intro lot hm
    have hne : lot.1 ≠ e.orderId := fun he => hid (he ▸ List.mem_map_of_mem hm)
    exact ((hlv lot.1).trans (if_neg hne)).trans (hrest lot hm)
  · intro id hmem hnot
    obtain rfl : id = e.orderId := (List.mem_cons.1 hmem).resolve_right hnot
    exact (hlv e.orderId).trans (if_pos rfl)

/-- The event that shortens the first order of a queue. -/
theorem taken_shorten {k : ℕ} (hk : e.qty.toNat < k)
    (hlive : LiveAt t s p ((e.orderId, k) :: q)) :
    Taken t (t.onEvent e) s p ((e.orderId, k) :: q) ((e.orderId, k - e.qty.toNat) :: q) := by
  obtain ⟨hhead, hrest⟩ := List.forall_mem_cons.1 hlive
  obtain ⟨hanom, hlv⟩ := L3OrderTracker.onEvent_reduce hty hhead hk.le
  rw [if_neg hk.ne] at hlv
  refine ⟨hanom, ?_, List.forall_mem_cons.2 ⟨?_, ?_⟩, fun id hmem hnot => absurd hmem hnot⟩
  · intro id hmem
    rw [List.map_cons, List.mem_cons, not_or] at hmem
    exact (hlv id).trans (if_neg hmem.1)
  · exact (hlv e.orderId).trans (if_pos rfl)
  · intro lot hm
    have hne : lot.1 ≠ e.orderId := fun he => hid (he ▸ List.mem_map_of_mem hm)
    exact ((hlv lot.1).trans (if_neg hne)).trans (hrest lot hm)

end

/-- The events that take `n` units from the front of a queue take the tracker's orders down to what
stays. -/
theorem taken_foldl (q : List (OrderId × ℕ)) (hnd : (q.map Prod.fst).Nodup) (hpos : Fifo.Pos q)
    (hlive : LiveAt t s p q) (n : ℕ) (es : List L3Event) (hty : ∀ e ∈ es, e.type ≠ .orderAdd)
    (hes : es.map L3Event.lot = Fifo.take n q) :
    Taken t (es.foldl L3OrderTracker.onEvent t) s p q (Fifo.drop n q) := by
  induction q generalizing t n es with
  | nil =>
    obtain rfl := List.map_eq_nil_iff.1 hes
    exact ⟨rfl, fun _ _ => rfl, hlive, by simp⟩
  | cons lot q ih =>
    obtain ⟨a, k⟩ := lot
    simp only [List.map_cons, List.nodup_cons] at hnd
    rcases eq_or_ne n 0 with rfl | hn
    · rw [Fifo.take_zero, List.map_eq_nil_iff] at hes
      subst hes
      rw [Fifo.drop_zero]
      exact ⟨rfl, fun _ _ => rfl, hlive, fun id hid hid' => absurd hid hid'⟩
    by_cases hkn : k ≤ n
    · -- the first order is closed, and the rest of the events meet the rest of the queue
      rw [Fifo.take, if_neg hn, if_pos hkn] at hes
      obtain ⟨e, es, rfl, hel, hrest⟩ := List.map_eq_cons_iff.1 hes
      obtain ⟨rfl, rfl⟩ : e.orderId = a ∧ e.qty.toNat = k := by simpa [L3Event.lot] using hel
      obtain ⟨hte, htes⟩ := List.forall_mem_cons.1 hty
      have hclose := taken_close hte hnd.1 hlive
      have htk := ih hnd.2 (Fifo.pos_cons.1 hpos).2 hclose.live (n - e.qty.toNat) es htes hrest
      rw [Fifo.drop, if_neg hn, if_pos hkn]
      exact hclose.trans htk fun id hid => List.mem_cons_of_mem _ hid
    · -- the first order is shortened, and the request met
      rw [Fifo.take, if_neg hn, if_neg hkn] at hes
      obtain ⟨e, rfl, hel⟩ := List.map_eq_singleton_iff.1 hes
      obtain ⟨rfl, rfl⟩ : e.orderId = a ∧ e.qty.toNat = n := by simpa [L3Event.lot] using hel
      rw [Fifo.drop, if_neg hn, if_neg hkn]
      exact taken_shorten (hty e (List.mem_singleton_self _)) hnd.1 (Nat.lt_of_not_le hkn) hlive

end

/-! ## One call -/

section
variable {c c' : Correlator} {t : L3OrderTracker} {u : L2Update} {es : List L3Event}

/-- A tracker that mirrors the books has each level live. -/
theorem Mirrors.liveAt (h : Mirrors c t) (s : Side) (p : Price) : LiveAt t s p (c.lots s p) :=
  fun lot hlot => (h.live_iff lot.1 s p lot.2).2 hlot

/-- An id that is live rests in one queue only. -/
theorem Mirrors.eq_of_mem (h : Mirrors c t) {id : OrderId} {s s' : Side} {p p' : Price} {q q' : ℕ}
    (hm : (id, q) ∈ c.lots s p) (hm' : (id, q') ∈ c.lots s' p') : s' = s ∧ p' = p ∧ q' = q := by
  have heq := ((h.live_iff id s p q).2 hm).symm.trans ((h.live_iff id s' p' q').2 hm')
  simp only [Option.some.injEq, Prod.mk.injEq] at heq
  exact ⟨heq.1.symm, heq.2.1.symm, heq.2.2.symm⟩

/-- An id is free in the tracker iff no order in the books has it. -/
theorem Mirrors.live_eq_none_iff (h : Mirrors c t) (id : OrderId) :
    t.live id = none ↔ ∀ s p, id ∉ (c.lots s p).map Prod.fst := by
  refine ⟨?_, ?_⟩
  · intro hn s p hm
    obtain ⟨⟨id', q⟩, hmem, rfl⟩ := List.mem_map.1 hm
    rw [(h.live_iff id' s p q).2 hmem] at hn
    cases hn
  · intro hn
    cases hl : t.live id with
    | none => rfl
    | some r =>
      obtain ⟨s, p, q⟩ := r
      exact absurd (List.mem_map_of_mem ((h.live_iff id s p q).1 hl)) (hn s p)

/-- What takes orders from the front of one queue, in the books and in the tracker, keeps the
mirror. -/
theorem Mirrors.of_taken (h : Mirrors c t) {t' : L3OrderTracker} {s : Side} {p : Price}
    (hf : Frame c c' s p) (htk : Taken t t' s p (c.lots s p) (c'.lots s p))
    (hsuf : (c'.lots s p).map Prod.fst <:+ (c.lots s p).map Prod.fst) : Mirrors c' t' := by
  refine ⟨fun id s' p' q => ⟨?_, ?_⟩, ?_, htk.anomalies.trans h.anomalies⟩
  · intro hl
    by_cases hid : id ∈ (c.lots s p).map Prod.fst
    · by_cases hid' : id ∈ (c'.lots s p).map Prod.fst
      · obtain ⟨⟨id', q'⟩, hmem, rfl⟩ := List.mem_map.1 hid'
        have heq := (htk.live _ hmem).symm.trans hl
        simp only [Option.some.injEq, Prod.mk.injEq] at heq
        obtain ⟨rfl, rfl, rfl⟩ := heq
        exact hmem
      · rw [htk.gone id hid hid'] at hl
        cases hl
    · rw [htk.frame id hid] at hl
      have hmem := (h.live_iff id s' p' q).1 hl
      have hne : ¬ (s' = s ∧ p' = p) := by
        rintro ⟨rfl, rfl⟩
        exact hid (List.mem_map_of_mem hmem)
      exact hf.lots hne ▸ hmem
  · intro hm
    rcases Decidable.em (s' = s ∧ p' = p) with ⟨rfl, rfl⟩ | hsp
    · exact htk.live _ hm
    · rw [hf.lots hsp] at hm
      rw [htk.frame id fun hid => ?_]
      · exact (h.live_iff id s' p' q).2 hm
      · obtain ⟨⟨id', q'⟩, hmem, rfl⟩ := List.mem_map.1 hid
        obtain ⟨rfl, rfl, -⟩ := h.eq_of_mem hmem hm
        exact hsp ⟨rfl, rfl⟩
  · intro s' p'
    rcases Decidable.em (s' = s ∧ p' = p) with ⟨rfl, rfl⟩ | hsp
    · exact hsuf.sublist.nodup (h.nodup _ _)
    · exact hf.lots hsp ▸ h.nodup s' p'

/-- A lowered level leaves the tracker mirroring the books. -/
theorem Mirrors.reduced (h : Mirrors c t) (hc : Queues c) {fills cancels : List L3Event}
    (hr : Reduced c u c' fills cancels) :
    Mirrors c' ((fills ++ cancels).foldl L3OrderTracker.onEvent t) := by
  have hty : ∀ e ∈ fills ++ cancels, e.type ≠ .orderAdd := fun e he => (hr.event_fields e he).1
  have hfills := taken_foldl _ (h.nodup _ _) (hc.pos _ _) (h.liveAt u.side u.price) (c.matched u)
    fills (fun e he => hty e (List.mem_append_left _ he)) hr.fill_lots
  have hsuf := Fifo.drop_labels_suffix (c.matched u) (c.lots u.side u.price)
  have hcancels := taken_foldl _ (hsuf.sublist.nodup (h.nodup _ _)) ((hc.pos _ _).drop _)
    hfills.live (c.decrease u - c.matched u) cancels
    (fun e he => hty e (List.mem_append_right _ he)) hr.cancel_lots
  have hle : c.matched u ≤ c.decrease u := Nat.min_le_right ..
  have htk := hfills.trans hcancels fun id hid => hsuf.subset hid
  rw [Fifo.drop_drop, Nat.add_sub_cancel' hle, ← hr.lots, ← List.foldl_append] at htk
  exact h.of_taken hr.frame htk hr.labels_suffix

/-- A new order under a free id keeps the mirror. -/
theorem Mirrors.added (h : Mirrors c t) {ev : L3Event} (hty : ev.type = .orderAdd)
    (hfree : t.live ev.orderId = none) (hf : Frame c c' ev.side ev.price)
    (hl : c'.lots ev.side ev.price = c.lots ev.side ev.price ++ [ev.lot]) :
    Mirrors c' (t.onEvent ev) := by
  obtain ⟨hanom, hlive⟩ := L3OrderTracker.onEvent_add hty hfree
  have hnew := (h.live_eq_none_iff ev.orderId).1 hfree
  have hlots := hf.lots_added hl
  refine ⟨?_, ?_, hanom.trans h.anomalies⟩
  · intro id s p q
    rw [hlive, hlots, List.mem_append, ← h.live_iff]
    rcases eq_or_ne id ev.orderId with rfl | hid
    · simp only [if_true, hfree, Option.some.injEq, Prod.mk.injEq, reduceCtorEq, false_or]
      split <;> rename_i hsp <;> simp [L3Event.lot, eq_comm] <;> grind
    · rw [if_neg hid]
      split <;> simp [L3Event.lot, hid]
  · intro s p
    rw [hlots, List.map_append]
    split
    · refine List.nodup_append.2 ⟨h.nodup s p, by simp, ?_⟩
      rintro a ha _ hb rfl
      obtain rfl : a = ev.orderId := by simpa [L3Event.lot] using hb
      exact hnew s p ha
    · simpa using h.nodup s p

/-- A queue that is emptied without an event was empty, if the tracker still mirrors the books. -/
theorem Mirrors.lots_eq_nil (h : Mirrors c t) (h' : Mirrors c' t) {s : Side} {p : Price}
    (hnil : c'.lots s p = []) : c.lots s p = [] := by
  refine List.eq_nil_iff_forall_not_mem.2 ?_
  intro lot hlot
  have hlot' := (h'.live_iff ..).1 (h.liveAt s p lot hlot)
  rw [hnil] at hlot'
  exact List.not_mem_nil hlot'

/-- A new order under an id that is live already is counted as a duplicate. -/
theorem Mirrors.live_eq_none (h : Mirrors c t) {ev : L3Event} (hty : ev.type = .orderAdd)
    (h' : Mirrors c' (t.onEvent ev)) : t.live ev.orderId = none := by
  by_contra hlive
  have hdup := L3OrderTracker.onEvent_duplicate hty hlive
  have h0 := congrArg (fun r => r.2.2) h.anomalies
  have h0' := congrArg (fun r => r.2.2) h'.anomalies
  simp only [L3OrderTracker.anomalies] at h0 h0'
  simp [hdup, h0] at h0'

/-- An update keeps the tracker mirroring the books iff it is `Mirrorable`. -/
theorem Mirrors.l2Step (h : Mirrors c t) (hc : Queues c) (hstep : L2Step c u c' es) :
    Mirrors c' (es.foldl L3OrderTracker.onEvent t) ↔ Mirrorable c (.l2Update u) := by
  cases hstep with
  | deleted ha hf _ hl =>
    have hnil := lots_of_deleted hl
    refine ⟨fun h' => ⟨fun _ => h.lots_eq_nil h' hnil, fun hna => absurd ha hna⟩, ?_⟩
    intro hm
    have hempty := hm.1 ha
    refine h.of_taken hf ⟨rfl, fun _ _ => rfl, ?_, ?_⟩ ?_
    · simp [LiveAt, hnil]
    · simp [hempty]
    · simp [hnil]
  | added ha hlt hf _ hl =>
    have hmirrorable : Mirrorable c (.l2Update u) ↔ t.live (c.nextOrderId u.side) = none := by
      rw [h.live_eq_none_iff]
      exact ⟨fun hm => hm.2 ha hlt, fun hm => ⟨fun hd => absurd hd ha, fun _ _ => hm⟩⟩
    have hty : (addEvent u (c.nextOrderId u.side)
        (u.newQty - c.totalQty u.side u.price)).type = .orderAdd := rfl
    rw [hmirrorable, List.foldl_cons, List.foldl_nil]
    exact ⟨fun h' => h.live_eq_none hty h',
      fun hfree => h.added hty hfree hf (lots_of_added hl)⟩
  | kept ha heq hf _ hl =>
    have hlots := lots_of_kept hl
    refine iff_of_true ?_ ⟨fun hd => absurd hd ha, ?_⟩
    · refine h.of_taken hf ⟨rfl, fun _ _ => rfl, ?_, ?_⟩ ?_
      · exact hlots ▸ h.liveAt u.side u.price
      · intro id hid hid'
        exact absurd (hlots ▸ hid) hid'
      · rw [hlots]
    · intro _ hlt
      rw [heq] at hlt
      exact absurd hlt (UInt32.lt_irrefl _)
  | reduced _ _ hr =>
    exact iff_of_true (h.reduced hc hr) ⟨fun hd => absurd hd hr.action,
      fun _ hlt => absurd hlt (UInt32.not_lt.2 (UInt32.le_of_lt hr.lowered))⟩

end

/-! ## Runs -/

/-- A new tracker mirrors the new books. -/
theorem mirrors_init : Mirrors (handler.state []).correlator (handler.state []).tracker := by
  have hlots : ∀ s p, handler.init.correlator.lots s p = [] := lots_init
  have hlive : ∀ id, handler.init.tracker.live id = none := fun id => by
    simp [L3OrderTracker.live, handler]
  rw [Machine.state_nil]
  exact ⟨by simp [hlots, hlive], by simp [hlots], rfl⟩

variable {pre : List Call}

/-- One call keeps the mirror iff it is `Mirrorable`. -/
theorem mirrors_step (h : Mirrors (handler.state pre).correlator (handler.state pre).tracker)
    (call : Call) :
    Mirrors (handler.state (pre ++ [call])).correlator (handler.state (pre ++ [call])).tracker ↔
      Mirrorable (engine.state pre) call := by
  rw [handler_correlator] at h ⊢
  cases call with
  | trade t =>
    rw [state_trade, handler_tracker_trade]
    exact iff_of_true ⟨h.live_iff, h.nodup, h.anomalies⟩ trivial
  | l2Update u =>
    rw [state_l2Update, handler_tracker_l2Update]
    exact h.l2Step (queues_state pre) ((engine.state pre).onL2Update_step u)

/-- After calls that are all `Mirrorable` the tracker mirrors the books. -/
theorem mirrorable_run (h : Always (fun pre call => Mirrorable (engine.state pre) call) pre) :
    Mirrors (handler.state pre).correlator (handler.state pre).tracker := by
  induction pre using List.reverseRecOn with
  | nil => exact mirrors_init
  | append_singleton pre call ih =>
    obtain ⟨hpre, hcall⟩ := always_concat.1 h
    exact (mirrors_step (ih hpre) call).2 hcall

/-- **The tracker mirrors the books** throughout a run iff every call is `Mirrorable`. -/
theorem mirrors_iff (calls : List Call) :
    (∀ pre, pre <+: calls →
        Mirrors (handler.state pre).correlator (handler.state pre).tracker) ↔
      Always (fun pre call => Mirrorable (engine.state pre) call) calls :=
  forall_prefix_iff_always mirrors_init
    (fun _ call hpre => mirrors_step (mirrorable_run hpre) call) calls

/-- The first order of either book has the id 1, so the second of the two is a duplicate. -/
theorem mirrors_fails : ¬ ∀ calls, Mirrors (handler.state calls).correlator
    (handler.state calls).tracker := by
  intro h
  have hanom := (h [.l2Update ⟨1, .new, 1000, 10, .bid, 0⟩,
    .l2Update ⟨2, .new, 1001, 10, .ask, 0⟩]).anomalies
  revert hanom
  decide +kernel

end MarketDataEngine
