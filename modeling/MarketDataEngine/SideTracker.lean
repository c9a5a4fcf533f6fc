import MarketDataEngine.Mirror
import MarketDataEngine.Lifecycle

/-!
# A tracker for one side

The tracker confuses the two books, since they number their orders alike. A tracker that is given
the events of one side only has one defect left: it never hears of the orders that a `Delete` drops.
So after any run it holds exactly the orders that rest in the book of its side and those that a
`Delete` has dropped there, as they were when they were dropped, and it has seen no anomaly
(`sideTracker_live`); while nothing is quoted on the other side, it is the handler's own tracker
(`handler_tracker_eq`). In quantities: what the stream has added and not reduced again at a price is
what rests there and what was dropped there (`stream_balance`).
-/

namespace MarketDataEngine

open History Correlator

variable {s : Side} {p : Price} {c c' : Correlator} {u : L2Update} {es : List L3Event}

/-- The orders of a side, with their price, that a call drops without an event. -/
def Correlator.orphanedBy (c : Correlator) (s : Side) : Call → List (Price × OrderId × ℕ)
  | .trade _ => []
  | .l2Update u =>
    if u.side = s ∧ u.action = .delete then (c.lots s u.price).map (Prod.mk u.price) else []

/-- The engine, with the orders that it drops without an event as its outputs. -/
def orphaning (s : Side) : Machine Correlator Call (Price × OrderId × ℕ) where
  init := {}
  step c call := ((c.step call).1, c.orphanedBy s call)

/-- The orders of a side that a run has dropped without an event, oldest first. -/
def orphans (s : Side) (calls : List Call) : List (Price × OrderId × ℕ) := (orphaning s).log calls

/-- The tracker that is given the events of one side. -/
def sideTracker (s : Side) (calls : List Call) : L3OrderTracker :=
  (sideStream s calls).foldl L3OrderTracker.onEvent {}

/-- The state of the engine, beside the orders that are orphaned. -/
theorem orphaning_state (calls : List Call) : (orphaning s).state calls = engine.state calls :=
  rfl

@[simp] theorem orphans_concat (calls : List Call) (call : Call) :
    orphans s (calls ++ [call]) = orphans s calls ++ (engine.state calls).orphanedBy s call := by
  rw [orphans, Machine.log_concat, orphaning_state]
  rfl

/-- The tracker holds what rests in the book of its side and what was dropped there, under ids of
the side, and saw no anomaly. -/
structure Tracks (s : Side) (c : Correlator) (ids : List OrderId)
    (gone : List (Price × OrderId × ℕ)) (t : L3OrderTracker) : Prop where
  live_iff : ∀ id s' p q, t.live id = some (s', p, q) ↔
    s' = s ∧ ((id, q) ∈ c.lots s p ∨ (p, id, q) ∈ gone)
  nodup : ∀ p, ((c.lots s p).map Prod.fst).Nodup
  apart : ∀ p, ∀ id ∈ (c.lots s p).map Prod.fst, ∀ p' q, (p', id, q) ∉ gone
  known : ∀ id, t.live id ≠ none → id ∈ ids
  anomalies : t.anomalies = (0, 0, 0)

/-! ## One update of the side -/

section
variable {ids : List OrderId} {gone : List (Price × OrderId × ℕ)} {t t' : L3OrderTracker}

/-- The resting orders of a level are live. -/
theorem Tracks.liveAt (h : Tracks s c ids gone t) (p : Price) : LiveAt t s p (c.lots s p) :=
  fun lot hlot => (h.live_iff lot.1 s p lot.2).2 ⟨rfl, .inl hlot⟩

/-- An id rests at one price only. -/
theorem Tracks.price_eq (h : Tracks s c ids gone t) {id : OrderId} {p' : Price} {q q' : ℕ}
    (hm : (id, q) ∈ c.lots s p) (hm' : (id, q') ∈ c.lots s p') : p' = p := by
  have heq := (h.liveAt p (id, q) hm).symm.trans (h.liveAt p' (id, q') hm')
  simp only [Option.some.injEq, Prod.mk.injEq] at heq
  exact heq.2.1.symm

/-- An order of another price is not among the orders of a price. -/
theorem Tracks.not_mem_labels (h : Tracks s c ids gone t) {lot : OrderId × ℕ} {p' : Price}
    (hlot : lot ∈ c.lots s p') (hp : p' ≠ p) : lot.1 ∉ (c.lots s p).map Prod.fst := by
  intro hid
  obtain ⟨⟨id, q⟩, hm, rfl⟩ := List.mem_map.1 hid
  exact hp (h.price_eq hm hlot)

/-- A queue that is unchanged in both keeps what the tracker holds. -/
theorem Tracks.congr (h : Tracks s c ids gone t) (hlots : ∀ p, c'.lots s p = c.lots s p) :
    Tracks s c' ids gone t where
  live_iff id s' p q := by rw [hlots]; exact h.live_iff id s' p q
  nodup p := by rw [hlots]; exact h.nodup p
  apart p := by rw [hlots]; exact h.apart p
  known := h.known
  anomalies := h.anomalies

/-- Orders that are dropped without an event stay in the tracker. -/
theorem Tracks.dropped (h : Tracks s c ids gone t) (hf : Frame c c' s p)
    (hnil : c'.lots s p = []) :
    Tracks s c' ids (gone ++ (c.lots s p).map (Prod.mk p)) t := by
  have hother : ∀ {p'}, p' ≠ p → c'.lots s p' = c.lots s p' := fun hp =>
    hf.lots fun hsp => hp hsp.2
  refine ⟨?_, ?_, ?_, h.known, h.anomalies⟩
  · intro id s' p' q
    rw [h.live_iff]
    refine and_congr_right fun _ => ?_
    rw [List.mem_append, List.mem_map]
    rcases eq_or_ne p' p with rfl | hp
    · simp [hnil, or_comm]
    · simp [hother hp, Ne.symm hp]
  · intro p'
    rcases eq_or_ne p' p with rfl | hp
    · simp [hnil]
    · exact hother hp ▸ h.nodup p'
  · intro p' id hid
    rcases eq_or_ne p' p with rfl | hp
    · simp [hnil] at hid
    rw [hother hp] at hid
    intro p'' q hgone
    rcases List.mem_append.1 hgone with hgone | hgone
    · exact h.apart p' id hid p'' q hgone
    · obtain ⟨lot, hlot, heq⟩ := List.mem_map.1 hgone
      obtain ⟨lot', hlot', rfl⟩ := List.mem_map.1 hid
      obtain ⟨-, rfl⟩ := Prod.mk.inj heq
      exact h.not_mem_labels hlot' hp (List.mem_map.2 ⟨_, hlot, rfl⟩)

/-- The tracker sees what is taken from the front of a queue. -/
theorem Tracks.taken (h : Tracks s c ids gone t) (hf : Frame c c' s p)
    (htk : Taken t t' s p (c.lots s p) (c'.lots s p))
    (hsuf : (c'.lots s p).map Prod.fst <:+ (c.lots s p).map Prod.fst) :
    Tracks s c' ids gone t' := by
  have hother : ∀ {p'}, p' ≠ p → c'.lots s p' = c.lots s p' := fun hp =>
    hf.lots fun hsp => hp hsp.2
  have hlabels : ∀ p', (c'.lots s p').map Prod.fst ⊆ (c.lots s p').map Prod.fst := by
    intro p'
    rcases eq_or_ne p' p with rfl | hp
    · exact hsuf.subset
    · rw [hother hp]
      exact List.Subset.refl _
  refine ⟨fun id s' p' q => ⟨?_, ?_⟩, ?_, fun p' id hid => h.apart p' id (hlabels p' hid), ?_,
    htk.anomalies.trans h.anomalies⟩
  · intro hl
    by_cases hid : id ∈ (c.lots s p).map Prod.fst
    · by_cases hid' : id ∈ (c'.lots s p).map Prod.fst
      · obtain ⟨⟨id', q'⟩, hmem, rfl⟩ := List.mem_map.1 hid'
        have heq := (htk.live _ hmem).symm.trans hl
        simp only [Option.some.injEq, Prod.mk.injEq] at heq
        obtain ⟨rfl, rfl, rfl⟩ := heq
        exact ⟨rfl, .inl hmem⟩
      · rw [htk.gone id hid hid'] at hl
        cases hl
    · rw [htk.frame id hid] at hl
      obtain ⟨rfl, hmem⟩ := (h.live_iff id s' p' q).1 hl
      refine ⟨rfl, hmem.imp_left fun hm => ?_⟩
      have hp : p' ≠ p := by
        rintro rfl
        exact hid (List.mem_map_of_mem hm)
      rwa [hother hp]
  · rintro ⟨rfl, hm | hm⟩
    · rcases eq_or_ne p' p with rfl | hp
      · exact htk.live _ hm
      · rw [hother hp] at hm
        rw [htk.frame id (h.not_mem_labels hm hp)]
        exact h.liveAt p' _ hm
    · rw [htk.frame id fun hid => h.apart p id hid p' q hm]
      exact (h.live_iff id s' p' q).2 ⟨rfl, .inr hm⟩
  · intro p'
    rcases eq_or_ne p' p with rfl | hp
    · exact hsuf.sublist.nodup (h.nodup p')
    · exact hother hp ▸ h.nodup p'
  · intro id hl
    by_cases hid : id ∈ (c.lots s p).map Prod.fst
    · obtain ⟨lot, hlot, rfl⟩ := List.mem_map.1 hid
      exact h.known _ (by simp [h.liveAt p lot hlot])
    · rw [htk.frame id hid] at hl
      exact h.known id hl

/-- The events of a lowered level, in the tracker. -/
theorem Reduced.taken {fills cancels : List L3Event} (hr : Reduced c u c' fills cancels)
    (hnd : ((c.lots u.side u.price).map Prod.fst).Nodup) (hpos : Fifo.Pos (c.lots u.side u.price))
    (hlive : LiveAt t u.side u.price (c.lots u.side u.price)) :
    Taken t ((fills ++ cancels).foldl L3OrderTracker.onEvent t) u.side u.price
      (c.lots u.side u.price) (c'.lots u.side u.price) := by
  have hty : ∀ e ∈ fills ++ cancels, e.type ≠ .orderAdd := fun e he => (hr.event_fields e he).1
  have hfills := taken_foldl _ hnd hpos hlive (c.matched u) fills
    (fun e he => hty e (List.mem_append_left _ he)) hr.fill_lots
  have hsuf := Fifo.drop_labels_suffix (c.matched u) (c.lots u.side u.price)
  have hcancels := taken_foldl _ (hsuf.sublist.nodup hnd) (hpos.drop _) hfills.live
    (c.decrease u - c.matched u) cancels (fun e he => hty e (List.mem_append_right _ he))
    hr.cancel_lots
  have hle : c.matched u ≤ c.decrease u := Nat.min_le_right ..
  have htk := hfills.trans hcancels fun id hid => hsuf.subset hid
  rwa [Fifo.drop_drop, Nat.add_sub_cancel' hle, ← hr.lots, ← List.foldl_append] at htk

/-- A new order under an id above all that the side has added. -/
theorem Tracks.added (h : Tracks s c ids gone t) {ev : L3Event} (hty : ev.type = .orderAdd)
    (hside : ev.side = s) (hfresh : ev.orderId ∉ ids) (hf : Frame c c' s ev.price)
    (hl : c'.lots s ev.price = c.lots s ev.price ++ [ev.lot]) :
    Tracks s c' (ids ++ [ev.orderId]) gone (t.onEvent ev) := by
  have hfree : t.live ev.orderId = none := Decidable.byContradiction fun hne =>
    hfresh (h.known _ hne)
  have hlots := hf.lots_added hl s
  have hgone : ∀ p q, (p, ev.orderId, q) ∉ gone := fun p q hm =>
    hfresh (h.known _ (by simp [(h.live_iff _ s p q).2 ⟨rfl, .inr hm⟩]))
  have hnew : ∀ p, ev.orderId ∉ (c.lots s p).map Prod.fst := by
    intro p hid
    obtain ⟨lot, hlot, hid⟩ := List.mem_map.1 hid
    have hlive := h.liveAt p lot hlot
    rw [hid, hfree] at hlive
    cases hlive
  obtain ⟨hanom, hlive⟩ := L3OrderTracker.onEvent_add hty hfree
  refine ⟨?_, ?_, ?_, ?_, hanom.trans h.anomalies⟩
  · intro id s' p q
    rw [hlive, hlots, List.mem_append]
    rcases eq_or_ne id ev.orderId with rfl | hid
    · have hold : (ev.orderId, q) ∉ c.lots s p := fun hm => hnew p (List.mem_map_of_mem hm)
      simp only [if_true, hside, hold, hgone, or_false, false_or, Option.some.injEq,
        Prod.mk.injEq, true_and]
      split <;> rename_i hp <;> simp [L3Event.lot, eq_comm] <;> grind
    · rw [if_neg hid, h.live_iff]
      split <;> simp [L3Event.lot, hid]
  · intro p
    rw [hlots, List.map_append]
    split
    · refine List.nodup_append.2 ⟨h.nodup p, by simp, ?_⟩
      rintro a ha _ hb rfl
      obtain rfl : a = ev.orderId := by simpa [L3Event.lot] using hb
      exact hnew p ha
    · simpa using h.nodup p
  · intro p id hid p' q
    rw [hlots, List.map_append, List.mem_append] at hid
    rcases hid with hid | hid
    · exact h.apart p id hid p' q
    · split at hid
      · obtain rfl : id = ev.orderId := by simpa [L3Event.lot] using hid
        exact hgone p' q
      · simp at hid
  · intro id hne
    rw [hlive] at hne
    split at hne <;> rename_i hid
    · exact List.mem_append_right _ (List.mem_singleton.2 hid)
    · exact List.mem_append_left _ (h.known id hne)

/-- **One update of the side.** -/
theorem Tracks.l2Step (h : Tracks u.side c ids gone t) (hc : Queues c)
    (hn : Numbered c u.side ids) (hlt : (ids ++ addedIds es).length < 2 ^ 64)
    (hstep : L2Step c u c' es) :
    Tracks u.side c' (ids ++ addedIds es) (gone ++ c.orphanedBy u.side (.l2Update u))
      (es.foldl L3OrderTracker.onEvent t) := by
  have hkept : u.action ≠ .delete → c.orphanedBy u.side (.l2Update u) = [] := fun ha =>
    if_neg fun h => ha h.2
  cases hstep with
  | deleted ha hf _ hl =>
    have hgone : c.orphanedBy u.side (.l2Update u) =
        (c.lots u.side u.price).map (Prod.mk u.price) := if_pos ⟨rfl, ha⟩
    rw [hgone, addedIds_nil, List.append_nil]
    exact h.dropped hf (lots_of_deleted hl)
  | added ha hraised hf _ hl =>
    have hlen : ids.length + 1 < 2 ^ 64 := by
      simpa [addedIds, addEvent] using hlt
    rw [hkept ha, List.append_nil]
    exact h.added rfl rfl (fun hid => UInt64.lt_irrefl _ (hn.lt_nextOrderId hlen _ hid)) hf
      (lots_of_added hl)
  | kept ha _ hf _ hl =>
    rw [hkept ha, addedIds_nil, List.append_nil, List.append_nil]
    refine h.congr fun p => ?_
    rcases eq_or_ne p u.price with rfl | hp
    · exact lots_of_kept hl
    · exact hf.lots fun hsp => hp hsp.2
  | reduced _ _ hr =>
    rw [hkept hr.action, hr.addedIds_eq_nil, List.append_nil, List.append_nil]
    exact h.taken hr.frame (hr.taken (h.nodup _) (hc.pos _ _) (h.liveAt _)) hr.labels_suffix

end

/-! ## Runs -/

@[simp] theorem sideTracker_trade (calls : List Call) (t : Trade) :
    sideTracker s (calls ++ [.trade t]) = sideTracker s calls := by
  rw [sideTracker, sideStream_trade, sideTracker]

/-- The tracker of a side gets the events of the updates of its side. -/
theorem sideTracker_l2Update (calls : List Call) (u : L2Update) :
    sideTracker s (calls ++ [.l2Update u]) =
      (if u.side = s then ((engine.state calls).onL2Update u).2.2 else []).foldl
        L3OrderTracker.onEvent (sideTracker s calls) := by
  rw [sideTracker, sideStream_l2Update, List.foldl_append, sideTracker]

/-- In every run below the wrap the tracker of a side tracks it. -/
theorem tracks_run (calls : List Call) (hlt : (addedIds (sideStream s calls)).length < 2 ^ 64) :
    Tracks s (engine.state calls) (addedIds (sideStream s calls)) (orphans s calls)
      (sideTracker s calls) := by
  induction calls using run_induction with
  | nil =>
    have hlive : ∀ id, (sideTracker s []).live id = none := fun id => by
      simp [L3OrderTracker.live, sideTracker]
    have hgone : orphans s [] = [] := rfl
    rw [Machine.state_nil]
    exact ⟨by simp [hlive, lots_init, hgone], by simp [lots_init], by simp [lots_init],
      by simp [hlive], rfl⟩
  | trade calls t ih =>
    have hgone : (engine.state calls).orphanedBy s (.trade t) = [] := rfl
    rw [sideStream_trade] at hlt ⊢
    rw [orphans_concat, hgone, List.append_nil, sideTracker_trade, state_trade]
    exact (ih hlt).congr fun p => onTrade_lots ..
  | l2Update calls u ih =>
    have hstep := (engine.state calls).onL2Update_step u
    rw [sideStream_l2Update, addedIds_append] at hlt ⊢
    have hpre : (addedIds (sideStream s calls)).length < 2 ^ 64 := by
      rw [List.length_append] at hlt
      omega
    rw [orphans_concat, sideTracker_l2Update, state_l2Update]
    rcases eq_or_ne u.side s with rfl | hs
    · rw [if_pos rfl] at hlt ⊢
      exact (ih hpre).l2Step (queues_state calls) (numbered_state _ calls) hlt hstep
    · have hgone : (engine.state calls).orphanedBy s (.l2Update u) = [] :=
        if_neg fun h => hs h.1
      rw [if_neg hs, hgone, addedIds_nil, List.append_nil, List.append_nil]
      exact (ih hpre).congr fun p => hstep.frame.lots fun hsp => hs hsp.1.symm

/-- **What a tracker of one side holds.** As long as the side has added fewer than 2^64 orders, it
holds the orders that rest in the book of the side and those that were dropped there without an
event, and has counted no anomaly. -/
theorem sideTracker_live (s : Side) (calls : List Call)
    (hlt : (addedIds (sideStream s calls)).length < 2 ^ 64) :
    (sideTracker s calls).anomalies = (0, 0, 0) ∧
      ∀ id s' p q, (sideTracker s calls).live id = some (s', p, q) ↔
        s' = s ∧ ((id, q) ∈ (engine.state calls).lots s p ∨ (p, id, q) ∈ orphans s calls) :=
  ⟨(tracks_run calls hlt).anomalies, (tracks_run calls hlt).live_iff⟩

/-- One order is dropped, and one that is added later at its price rests. -/
theorem sideTracker_example :
    let calls : List Call := [.l2Update ⟨1, .new, 1000, 10, .bid, 0⟩,
      .l2Update ⟨2, .delete, 1000, 0, .bid, 0⟩, .l2Update ⟨3, .new, 1000, 4, .bid, 0⟩]
    (addedIds (sideStream .bid calls)).length < 2 ^ 64 ∧
      (sideTracker .bid calls).anomalies = (0, 0, 0) ∧
      ∀ id s' p q, (sideTracker .bid calls).live id = some (s', p, q) ↔
        s' = .bid ∧
          ((id, q) ∈ (engine.state calls).lots .bid p ∨ (p, id, q) ∈ orphans .bid calls) :=
  ⟨by decide +kernel, sideTracker_live .bid _ (by decide +kernel)⟩

/-- While the other side is not quoted, this is the handler's tracker. -/
theorem handler_tracker_eq {s' : Side} (hne : s' ≠ s) (calls : List Call)
    (hquiet : ¬ Raises s' calls) : (handler.state calls).tracker = sideTracker s calls := by
  have hstream : (handler.state calls).tracker =
      (emitted calls).foldl L3OrderTracker.onEvent {} := by
    induction calls using run_induction with
    | nil => rfl
    | trade calls t ih =>
      rw [handler_tracker_trade, emitted_trade]
      exact ih (by rwa [raises_trade] at hquiet)
    | l2Update calls u ih =>
      rw [raises_l2Update, not_or] at hquiet
      rw [handler_tracker_l2Update, emitted_l2Update, List.foldl_append, ih hquiet.1]
  have hids : addedIds (sideStream s' calls) = [] := addedIds_eq_nil_iff.2 hquiet
  have hfew : (addedIds (sideStream s' calls)).length < 2 ^ 64 := by
    rw [hids]
    decide
  have hknown := (ledger_run hfew).1.known
  rw [hstream, sideTracker, sideStream, List.filter_eq_self.2]
  intro e he
  rw [decide_eq_true_eq]
  by_contra hs
  have hside : e.side = s' := by
    revert hs hne
    cases e.side <;> cases s <;> cases s' <;> simp
  have hmem := hknown e (List.mem_filter.2 ⟨he, by simpa using hside⟩)
  rw [hids] at hmem
  exact List.not_mem_nil hmem

/-! ## Quantities -/

/-- The quantity dropped at a price without an event. -/
def orphanedAt (p : Price) (gone : List (Price × OrderId × ℕ)) : ℕ :=
  tally (fun o => if o.1 = p then o.2.2 else 0) gone

/-- What a price drops is all that rests there. -/
theorem orphanedAt_lots (p p' : Price) (q : List (OrderId × ℕ)) :
    orphanedAt p (q.map (Prod.mk p')) = if p' = p then Fifo.total q else 0 := by
  rw [orphanedAt, tally_map]
  split
  · rfl
  · exact tally_eq_zero fun _ _ => rfl

/-- What an update adds is reduced by it, rests or is dropped, with what rested before. -/
theorem L2Step.balance (h : L2Step c u c' es) :
    addedAt u.side u.price es + Fifo.total (c.lots u.side u.price) =
      reducedAt u.side u.price es + Fifo.total (c'.lots u.side u.price) +
        orphanedAt u.price (c.orphanedBy u.side (.l2Update u)) := by
  have hkept : u.action ≠ .delete → c.orphanedBy u.side (.l2Update u) = [] := fun ha =>
    if_neg fun h => ha h.2
  cases h with
  | deleted ha _ _ hl =>
    have hgone : c.orphanedBy u.side (.l2Update u) =
        (c.lots u.side u.price).map (Prod.mk u.price) := if_pos ⟨rfl, ha⟩
    rw [hgone, orphanedAt_lots, if_pos rfl, lots_of_deleted hl]
    simp [addedAt, reducedAt]
  | added ha _ _ _ hl =>
    rw [hkept ha, lots_of_added hl, addedAt_addEvent, reducedAt_addEvent, Fifo.total_append]
    simp [orphanedAt]
    omega
  | kept ha _ _ _ hl =>
    rw [hkept ha, lots_of_kept hl]
    simp [addedAt, reducedAt, orphanedAt]
  | reduced _ _ hr =>
    rw [hkept hr.action, hr.addedAt_eq_zero, hr.reducedAt_eq, hr.lots, Fifo.total_drop]
    simp only [orphanedAt, tally_nil]
    omega

/-- **What the stream leaves open.** At every point of every run, what the stream has added at a
side and price and not reduced again is what rests there and what was dropped there without an
event. -/
theorem stream_balance (s : Side) (p : Price) (calls : List Call) :
    addedAt s p (emitted calls) = reducedAt s p (emitted calls) +
      Fifo.total ((engine.state calls).lots s p) + orphanedAt p (orphans s calls) := by
  induction calls using run_induction with
  | nil =>
    rw [Machine.state_nil, lots_init]
    rfl
  | trade calls t ih =>
    have hgone : (engine.state calls).orphanedBy s (.trade t) = [] := rfl
    rw [emitted_trade, state_trade, orphans_concat, hgone, List.append_nil]
    exact ih
  | l2Update calls u ih =>
    have hstep := (engine.state calls).onL2Update_step u
    rw [emitted_l2Update, state_l2Update, orphans_concat, addedAt_append, reducedAt_append,
      orphanedAt, tally_append, ← orphanedAt, ← orphanedAt]
    by_cases hsp : u.side = s ∧ u.price = p
    · obtain ⟨rfl, rfl⟩ := hsp
      have hbalance := hstep.balance
      omega
    · have hps : ¬ (s = u.side ∧ p = u.price) := fun h => hsp ⟨h.1.symm, h.2.symm⟩
      have hgone : orphanedAt p ((engine.state calls).orphanedBy s (.l2Update u)) = 0 := by
        rw [orphanedBy]
        split <;> rename_i hs
        · rw [orphanedAt_lots, if_neg fun hp => hsp ⟨hs.1, hp⟩]
        · rfl
      rw [hstep.addedAt_of_ne hsp, hstep.reducedAt_of_ne hsp, hgone, hstep.frame.lots hps]
      omega

end MarketDataEngine
