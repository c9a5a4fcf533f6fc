import MarketDataEngine.Noninterference
import MarketDataEngine.Lib.Commute

/-!
# The two sides of a book message

The updates of one message have one time. Bid and ask updates share the trade buffer, but at
different prices they read and write different entries of it, and what an update emits is fixed by
the book of its side and by its own entry (`onL2Update_events_congr`). So updates of different sides
and prices commute (`Outcome.update_comm`), and the order in which a message's bids and asks are
interleaved does not matter (`interleavings`).
-/

namespace MarketDataEngine

open Correlator

/-- What the public operations can reach. -/
inductive Correlator.Reachable : Correlator → Prop
  | init : Reachable {}
  | onTrade {c : Correlator} (h : Reachable c) (t : Trade) : Reachable (c.onTrade t)
  | onL2Update {c : Correlator} (h : Reachable c) (u : L2Update) : Reachable (c.onL2Update u).1
  | flushBefore {c : Correlator} (h : Reachable c) (ts : Timestamp) :
    Reachable (c.flushBefore ts).1

/-- What a list of updates ends with: the correlator, what it has logged as unmatched and what it
has emitted for each side. -/
@[ext]
structure Outcome where
  correlator : Correlator
  flushed : List FlushedEntry := []
  emitted : Side → List L3Event := fun _ => []

/-- One more update. -/
def Outcome.update (o : Outcome) (u : L2Update) : Outcome :=
  let r := o.correlator.onL2Update u
  { correlator := r.1
    flushed := o.flushed ++ r.2.1
    emitted := fun s => o.emitted s ++ r.2.2.filter (·.side = s) }

/-- What the updates end with from a correlator. -/
def Correlator.outcome (c : Correlator) (us : List L2Update) : Outcome :=
  us.foldl Outcome.update { correlator := c }

namespace Correlator

/-! ## Reachable buffers -/

/-- An update keeps the buffer compact. -/
theorem onL2Update_compact {c : Correlator} (h : c.tradeBuffer.Compact) (u : L2Update) :
    (c.onL2Update u).1.tradeBuffer.Compact := by
  have hflush := h.flushBefore u.ts
  rcases c.onL2Update_cases u with ⟨-, hu⟩ | ⟨-, hu⟩ | ⟨-, hu⟩
  · rw [hu, setBook_tradeBuffer, recorded_tradeBuffer]
    exact hflush
  · rw [hu, processDecrease_eq, setBook_tradeBuffer, recorded_tradeBuffer]
    exact hflush.consume _ _ _ _
  · rw [hu, recorded_tradeBuffer]
    exact hflush

/-- No reachable buffer has an empty price map. -/
theorem Reachable.compact {c : Correlator} (h : c.Reachable) : c.tradeBuffer.Compact := by
  induction h with
  | init => exact TradeBuffer.compact_init
  | onTrade _ t ih => exact ih.add t.ts t.price t.qty t.tradeId
  | onL2Update _ u ih => exact onL2Update_compact ih u
  | flushBefore _ ts ih => exact ih.flushBefore ts

/-- A correlator is its two books and its buffer. -/
theorem ext_bookFor {c c' : Correlator} (hbooks : ∀ s, c.bookFor s = c'.bookFor s)
    (hbuffer : c.tradeBuffer = c'.tradeBuffer) : c = c' := by
  have hbid := hbooks .bid
  have hask := hbooks .ask
  cases c
  cases c'
  simp_all [bookFor]

/-! ## What an update reads -/

section
variable {c c' : Correlator} {u : L2Update}

/-- What a decrease emits is fixed by the book of its side and by its entry. -/
theorem processDecrease_events_congr (ts : Timestamp) (price : Price) (d : Qty) (s : Side)
    (recvTs : UInt64) (hbook : c.bookFor s = c'.bookFor s)
    (hentry : c.tradeBuffer.entry ts price = c'.tradeBuffer.entry ts price) :
    (c.processDecrease ts price d s recvTs).2 = (c'.processDecrease ts price d s recvTs).2 := by
  have htaken :
      (c.tradeBuffer.consume ts price d 0).2 = (c'.tradeBuffer.consume ts price d 0).2 := by
    refine Prod.ext (UInt32.toNat_inj.1 ?_) ?_
    · rw [TradeBuffer.consume_available, TradeBuffer.consume_available, TradeBuffer.buffered,
        TradeBuffer.buffered, hentry]
    · rw [TradeBuffer.consume_tradeId, TradeBuffer.consume_tradeId, hentry]
  rw [processDecrease_eq, processDecrease_eq, cancels, cancels, fills, fills, htaken, hbook]

/-- What an update emits: an add, a decrease or nothing. -/
theorem onL2Update_events (c : Correlator) (u : L2Update) : (c.onL2Update u).2.2 =
    if c.totalQty u.side u.price < u.reported then
      [addEvent u (c.nextOrderId u.side) (u.reported - c.totalQty u.side u.price)]
    else if u.reported < c.totalQty u.side u.price then (c.lowered u).2
    else [] := by
  rcases c.onL2Update_cases u with ⟨hlt, hu⟩ | ⟨hlt, hu⟩ | ⟨heq, hu⟩
  · rw [hu, if_pos hlt]
  · rw [hu, if_neg (UInt32.not_lt.2 (UInt32.le_of_lt hlt)), if_pos hlt]
    rfl
  · rw [hu, heq, if_neg (UInt32.lt_irrefl _), if_neg (UInt32.lt_irrefl _)]

/-- What an update emits is fixed by the book of its side and by its entry. -/
theorem onL2Update_events_congr (hbook : c.bookFor u.side = c'.bookFor u.side)
    (hentry : c.tradeBuffer.entry u.ts u.price = c'.tradeBuffer.entry u.ts u.price) :
    (c.onL2Update u).2.2 = (c'.onL2Update u).2.2 := by
  have hlowered : (c.lowered u).2 = (c'.lowered u).2 := by
    rw [lowered, lowered, totalQty, totalQty, hbook]
    refine processDecrease_events_congr _ _ _ _ _ ?_ ?_
    · rw [recorded_bookFor, recorded_bookFor, applied, applied, hbook]
    · rw [recorded_entry, recorded_entry, hentry]
  rw [onL2Update_events, onL2Update_events, hlowered, totalQty, totalQty, nextOrderId, nextOrderId,
    hbook]

/-- The entries that an update of another price leaves at its time. -/
theorem onL2Update_entry_of_ne (c : Correlator) {u : L2Update} {p : Price} (hp : p ≠ u.price) :
    (c.onL2Update u).1.tradeBuffer.entry u.ts p = c.tradeBuffer.entry u.ts p := by
  rw [onL2Update_entry, if_neg (UInt64.lt_irrefl _), if_neg fun h => hp h.2.1]

/-- After an update nothing before its time is buffered. -/
theorem onL2Update_flush_twice (c : Correlator) (u : L2Update) :
    ((c.onL2Update u).1.tradeBuffer.flushBefore u.ts).2 = [] := by
  refine List.eq_nil_iff_forall_not_mem.2 fun f hf => ?_
  obtain ⟨hlt, he⟩ := (TradeBuffer.mem_flushBefore ..).1 hf
  rw [onL2Update_entry, if_pos hlt] at he
  cases he

/-- An update emits nothing for the other side. -/
theorem onL2Update_filter_of_ne (c : Correlator) {u : L2Update} {s : Side} (hs : s ≠ u.side) :
    (c.onL2Update u).2.2.filter (·.side = s) = [] := by
  refine List.filter_eq_nil_iff.2 fun e he => ?_
  have hside := ((c.onL2Update_step u).event_fields e he).1
  rw [hside]
  simpa using hs.symm

end

/-! ## Two updates -/

section
variable {c : Correlator} {u v : L2Update}

/-- Updates of one time and of different sides and prices leave the same correlator in both
orders. -/
theorem onL2Update_comm (hc : c.tradeBuffer.Compact) (hts : u.ts = v.ts) (hside : u.side ≠ v.side)
    (hprice : u.price ≠ v.price) :
    ((c.onL2Update u).1.onL2Update v).1 = ((c.onL2Update v).1.onL2Update u).1 := by
  have hqty : (c.onL2Update u).1.totalQty v.side v.price = c.totalQty v.side v.price := by
    rw [totalQty, totalQty, onL2Update_bookFor, if_neg hside.symm]
  have hqty' : (c.onL2Update v).1.totalQty u.side u.price = c.totalQty u.side u.price := by
    rw [totalQty, totalQty, onL2Update_bookFor, if_neg hside]
  refine ext_bookFor ?_ ?_
  · intro s
    simp only [onL2Update_bookFor]
    rcases eq_or_ne s u.side with rfl | hs
    · simp [hside]
    · simp [hs]
  · refine (onL2Update_compact (onL2Update_compact hc u) v).ext
      (onL2Update_compact (onL2Update_compact hc v) u) ?_
    intro t p
    rw [onL2Update_entry, onL2Update_entry, onL2Update_entry, onL2Update_entry, hqty, hqty', hts]
    split
    · rfl
    rcases eq_or_ne p u.price with rfl | hp
    · simp [hprice]
    · simp [hp]

end

end Correlator

namespace Outcome

/-- **Updates of the two sides commute.** -/
theorem update_comm {o : Outcome} (hc : o.correlator.tradeBuffer.Compact) {u v : L2Update}
    (hts : u.ts = v.ts) (hside : u.side ≠ v.side) (hprice : u.price ≠ v.price) :
    (o.update u).update v = (o.update v).update u := by
  have hevents : ((o.correlator.onL2Update u).1.onL2Update v).2.2 =
      (o.correlator.onL2Update v).2.2 := by
    refine onL2Update_events_congr ?_ ?_
    · rw [onL2Update_bookFor, if_neg hside.symm]
    · rw [← hts, onL2Update_entry_of_ne _ hprice.symm]
  have hevents' : ((o.correlator.onL2Update v).1.onL2Update u).2.2 =
      (o.correlator.onL2Update u).2.2 := by
    refine onL2Update_events_congr ?_ ?_
    · rw [onL2Update_bookFor, if_neg hside]
    · rw [hts, onL2Update_entry_of_ne _ hprice]
  refine Outcome.ext ?_ ?_ ?_
  · exact onL2Update_comm hc hts hside hprice
  · have hflushed := o.correlator.onL2Update_flush_twice u
    have hflushed' := o.correlator.onL2Update_flush_twice v
    rw [hts] at hflushed
    rw [← hts] at hflushed'
    simp only [update, onL2Update_flushed, hts, hflushed]
    rw [← hts, hflushed']
  · funext s
    simp only [update, hevents, hevents', List.append_assoc]
    rcases eq_or_ne s u.side with rfl | hs
    · rw [onL2Update_filter_of_ne _ hside, List.nil_append, List.append_nil]
    · rw [onL2Update_filter_of_ne _ hs, List.nil_append, List.append_nil]

/-- The updates of one message: all at one time, each list of its own side and no price in both. -/
structure Message (ts : Timestamp) (bids asks : List L2Update) : Prop where
  bid : ∀ u ∈ bids, u.ts = ts ∧ u.side = .bid
  ask : ∀ u ∈ asks, u.ts = ts ∧ u.side = .ask
  prices : ∀ u ∈ bids, ∀ v ∈ asks, u.price ≠ v.price

/-- The updates of one message commute across the sides. -/
theorem Message.commuting {ts : Timestamp} {bids asks : List L2Update}
    (h : Message ts bids asks) :
    Commute.Commuting (fun o : Outcome => o.correlator.tradeBuffer.Compact)
      (fun u => u ∈ bids ∨ u ∈ asks) Outcome.update L2Update.side where
  keeps := by
    intro o u hc _
    exact onL2Update_compact hc u
  comm := by
    intro o u v hc hu hv hside
    rcases hu with hu | hu <;> rcases hv with hv | hv
    · exact absurd ((h.bid u hu).2.trans (h.bid v hv).2.symm) hside
    · exact update_comm hc ((h.bid u hu).1.trans (h.ask v hv).1.symm) hside (h.prices u hu v hv)
    · exact update_comm hc ((h.ask u hu).1.trans (h.bid v hv).1.symm) hside
        (h.prices v hv u hu).symm
    · exact absurd ((h.ask u hu).2.trans (h.ask v hv).2.symm) hside

end Outcome

/-- **The order of the two sides does not matter.** From a reachable correlator, all interleavings
of a message's bid updates and ask updates end with the same books, buffer, events of each side and
unmatched trades. -/
theorem interleavings {c : Correlator} (hc : c.Reachable) {ts : Timestamp}
    {bids asks : List L2Update} (h : Outcome.Message ts bids asks) {us us' : List L2Update}
    (hus : Commute.Interleaving bids asks us) (hus' : Commute.Interleaving bids asks us') :
    c.outcome us = c.outcome us' := by
  have hsides : Side.bid ≠ Side.ask := by decide
  have hsame := hus.sameByKey hsides (fun u hu => (h.bid u hu).2) (fun u hu => (h.ask u hu).2)
  have hsame' := hus'.sameByKey hsides (fun u hu => (h.bid u hu).2) (fun u hu => (h.ask u hu).2)
  have hmem : ∀ u ∈ us, u ∈ bids ∨ u ∈ asks := fun u hu =>
    List.mem_append.1 ((hsame.mem_iff u).1 hu)
  exact h.commuting.foldl_eq hc.compact hmem (hsame.trans hsame'.symm)

/-- Two bids, the second of which a trade matches, and an ask between them. -/
theorem interleavings_example :
    let c := (({} : Correlator).onTrade ⟨2, 1000, 4, .bid, 7⟩).onL2Update
      ⟨1, .new, 1000, 10, .bid, 0⟩ |>.1
    c.outcome [⟨2, .change, 1000, 5, .bid, 0⟩, ⟨2, .new, 1001, 3, .ask, 0⟩,
        ⟨2, .new, 999, 1, .bid, 0⟩] =
      c.outcome [⟨2, .change, 1000, 5, .bid, 0⟩, ⟨2, .new, 999, 1, .bid, 0⟩,
        ⟨2, .new, 1001, 3, .ask, 0⟩] :=
  interleavings (.onL2Update (.onTrade .init _) _)
    (⟨by decide, by decide, by decide⟩ : Outcome.Message 2
      [⟨2, .change, 1000, 5, .bid, 0⟩, ⟨2, .new, 999, 1, .bid, 0⟩] [⟨2, .new, 1001, 3, .ask, 0⟩])
    (.left (.right (.left .nil))) (Commute.interleaving_append _ _)

end MarketDataEngine
