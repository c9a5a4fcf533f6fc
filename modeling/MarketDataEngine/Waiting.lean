import MarketDataEngine.Trades

/-!
# How long a trade waits

A trade waits for an L2 update of its timestamp and price, until the feed goes past that timestamp.
Whatever is buffered, filled or logged as unmatched is under the id of the last trade of its
timestamp and price, and no update of a later time has come after that trade (`matched_in_time`).
And a trade that no update of its timestamp and price follows is not forgotten: the first update of
a later time logs it, once and with all its quantity (`unmatched_logged`).
-/

namespace MarketDataEngine

open History Correlator

variable {calls : List Call} {t t' : Trade} {u : L2Update} {ts : Timestamp} {p : Price}

/-- The trade is the last one of its timestamp and price, and no update after it is later than it.
-/
def Waits (calls : List Call) (t : Trade) : Prop :=
  ∃ pre post, calls = pre ++ .trade t :: post ∧
    (∀ t', .trade t' ∈ post → ¬ (t'.ts = t.ts ∧ t'.price = t.price)) ∧
    ∀ u, .l2Update u ∈ post → u.ts ≤ t.ts

/-- A trade that was just made waits. -/
theorem waits_trade (calls : List Call) (t : Trade) : Waits (calls ++ [.trade t]) t :=
  ⟨calls, [], rfl, by simp, by simp⟩

/-- A trade waits on while others are traded. -/
theorem Waits.trade (h : Waits calls t) (hne : ¬ (t'.ts = t.ts ∧ t'.price = t.price)) :
    Waits (calls ++ [.trade t']) t := by
  obtain ⟨pre, post, rfl, htrades, hupdates⟩ := h
  refine ⟨pre, post ++ [.trade t'], by simp, ?_, ?_⟩
  · intro x hx
    rcases List.mem_append.1 hx with hx | hx
    · exact htrades x hx
    · obtain rfl := Call.trade.inj (List.mem_singleton.1 hx)
      exact hne
  · intro u hu
    exact hupdates u (by simpa using hu)

/-- A trade waits on while the feed is not past it. -/
theorem Waits.l2Update (h : Waits calls t) (hle : u.ts ≤ t.ts) :
    Waits (calls ++ [.l2Update u]) t := by
  obtain ⟨pre, post, rfl, htrades, hupdates⟩ := h
  refine ⟨pre, post ++ [.l2Update u], by simp, ?_, ?_⟩
  · intro x hx
    exact htrades x (by simpa using hx)
  · intro x hx
    rcases List.mem_append.1 hx with hx | hx
    · exact hupdates x hx
    · obtain rfl := Call.l2Update.inj (List.mem_singleton.1 hx)
      exact hle

/-! ## What is buffered waits -/

/-- What an update leaves of an entry is not before its time, and keeps its id. -/
theorem entry_of_onL2Update {c : Correlator} {e : TradeEntry}
    (h : (c.onL2Update u).1.tradeBuffer.entry ts p = some e) :
    u.ts ≤ ts ∧ ∃ e', c.tradeBuffer.entry ts p = some e' ∧ e'.tradeId = e.tradeId := by
  rw [onL2Update_entry] at h
  split at h
  · cases h
  rename_i hlt
  refine ⟨UInt64.not_lt.1 hlt, ?_⟩
  split at h
  · obtain ⟨e', he', hless⟩ := Option.bind_eq_some_iff.1 h
    refine ⟨e', he', ?_⟩
    unfold TradeEntry.less at hless
    split at hless
    · cases hless
    · obtain rfl := Option.some.inj hless
      rfl
  · exact ⟨e, h, rfl⟩

/-- What is buffered is under the id of a trade that waits. -/
theorem waits_entry {e : TradeEntry} (h : (engine.state calls).tradeBuffer.entry ts p = some e) :
    ∃ t, Waits calls t ∧ t.ts = ts ∧ t.price = p ∧ t.tradeId = e.tradeId := by
  induction calls using run_induction generalizing e with
  | nil => simp [engine, TradeBuffer.entry] at h
  | trade calls t ih =>
    rw [state_trade, onTrade, TradeBuffer.add_entry] at h
    split at h <;> rename_i hat
    · obtain rfl := Option.some.inj h
      exact ⟨t, waits_trade calls t, hat.1.symm, hat.2.symm, rfl⟩
    · obtain ⟨x, hwaits, rfl, rfl, hid⟩ := ih h
      exact ⟨x, hwaits.trade fun h => hat ⟨h.1.symm, h.2.symm⟩, rfl, rfl, hid⟩
  | l2Update calls u ih =>
    rw [state_l2Update] at h
    obtain ⟨hle, e', he', hid⟩ := entry_of_onL2Update h
    obtain ⟨x, hwaits, rfl, rfl, hid'⟩ := ih he'
    exact ⟨x, hwaits.l2Update hle, rfl, rfl, hid'.trans hid⟩

/-- The entries that a call logs as unmatched. -/
def flushedBy (calls : List Call) : Call → List FlushedEntry
  | .trade _ => []
  | .l2Update u => ((engine.state calls).onL2Update u).2.1

/-- **A trade is matched in time, or logged as soon as it is past.** Whatever a call fills or logs
as unmatched is under the id of a trade that still waited: the last of its timestamp and price, with
no update of a later time after it. -/
theorem matched_in_time (calls : List Call) (call : Call) :
    (∀ e ∈ emittedBy calls call, e.type = .orderFill → ∃ t, Waits calls t ∧ OfTrade t e) ∧
      ∀ f ∈ flushedBy calls call, ∃ t, Waits calls t ∧
        t.ts = f.ts ∧ t.price = f.price ∧ t.tradeId = f.tradeId := by
  cases call with
  | trade t => exact ⟨by simp, List.forall_mem_nil _⟩
  | l2Update u =>
    have hstep := (engine.state calls).onL2Update_step u
    refine ⟨?_, ?_⟩
    · intro e he hty
      rw [emittedBy_l2Update] at he
      obtain ⟨b, hb, -, hid, -⟩ := hstep.fill_entry he hty
      obtain ⟨t, hwaits, hts, hp, hid'⟩ := waits_entry hb
      obtain ⟨-, hprice, hets, -⟩ := hstep.event_fields e he
      exact ⟨t, hwaits, hts.trans hets.symm, hp.trans hprice.symm, hid'.trans hid.symm⟩
    · intro f hf
      rw [flushedBy, onL2Update_flushed] at hf
      exact waits_entry ((TradeBuffer.mem_flushBefore _ _ _).1 hf).2

/-! ## What no update matches is logged -/

/-- The call is no trade and no update of the timestamp and price, and no update past it. -/
def PassesBy (ts : Timestamp) (p : Price) : Call → Prop
  | .trade t => ¬ (t.ts = ts ∧ t.price = p)
  | .l2Update u => ¬ (u.ts = ts ∧ u.price = p) ∧ u.ts ≤ ts

instance (ts : Timestamp) (p : Price) (call : Call) : Decidable (PassesBy ts p call) := by
  cases call <;> unfold PassesBy <;> infer_instance

/-- Calls that pass by leave an entry as it is. -/
theorem entry_of_passesBy (pre : List Call) {post : List Call}
    (h : ∀ call ∈ post, PassesBy ts p call) :
    (engine.state (pre ++ post)).tradeBuffer.entry ts p =
      (engine.state pre).tradeBuffer.entry ts p := by
  induction post using run_induction with
  | nil => rw [List.append_nil]
  | trade post t ih =>
    have hpost : ∀ call ∈ post, PassesBy ts p call := fun call hcall =>
      h call (List.mem_append_left _ hcall)
    have hne : ¬ (t.ts = ts ∧ t.price = p) :=
      h (.trade t) (List.mem_append_right _ (List.mem_singleton_self _))
    rw [← List.append_assoc, state_trade, onTrade, TradeBuffer.add_entry, if_neg, ih hpost]
    exact fun h => hne ⟨h.1.symm, h.2.symm⟩
  | l2Update post u ih =>
    have hpost : ∀ call ∈ post, PassesBy ts p call := fun call hcall =>
      h call (List.mem_append_left _ hcall)
    obtain ⟨hne, hle⟩ : ¬ (u.ts = ts ∧ u.price = p) ∧ u.ts ≤ ts :=
      h (.l2Update u) (List.mem_append_right _ (List.mem_singleton_self _))
    rw [← List.append_assoc, state_l2Update, onL2Update_entry, if_neg (UInt64.not_lt.2 hle),
      if_neg, ih hpost]
    exact fun h => hne ⟨h.1.symm, h.2.1.symm⟩

/-- A flush lists an entry before its time once. -/
theorem TradeBuffer.flushBefore_filter (b : TradeBuffer) (ts t : Timestamp) (p : Price)
    (hlt : t < ts) : (b.flushBefore ts).2.filter (fun f => f.ts = t ∧ f.price = p) =
      (b.entry t p).toList.map fun e => ⟨t, p, e.qty, e.tradeId⟩ := by
  have hmem : ∀ f ∈ (b.flushBefore ts).2.filter (fun f => f.ts = t ∧ f.price = p),
      b.entry t p = some ⟨f.qty, f.tradeId⟩ ∧ f = ⟨t, p, f.qty, f.tradeId⟩ := by
    intro f hmem
    obtain ⟨hf, hat⟩ := List.mem_filter.1 hmem
    obtain ⟨-, hentry⟩ := (b.mem_flushBefore ts f).1 hf
    obtain ⟨rfl, rfl⟩ := of_decide_eq_true hat
    exact ⟨hentry, rfl⟩
  cases he : b.entry t p with
  | none =>
    refine List.eq_nil_iff_forall_not_mem.2 fun f hf => ?_
    rw [he] at hmem
    exact nomatch (hmem f hf).1
  | some e =>
    have hall : ∀ f ∈ (b.flushBefore ts).2.filter (fun f => f.ts = t ∧ f.price = p),
        f = ⟨t, p, e.qty, e.tradeId⟩ := by
      intro f hf
      obtain ⟨hentry, hf⟩ := hmem f hf
      obtain rfl := Option.some.inj (he.symm.trans hentry)
      exact hf
    have hnodup : ((b.flushBefore ts).2.filter (fun f => f.ts = t ∧ f.price = p)).Nodup := by
      refine ((b.flushBefore_pairwise ts).imp ?_).filter _
      rintro f _ (hlt | ⟨-, hlt⟩) rfl <;> exact UInt64.lt_irrefl _ hlt
    have hin : (⟨t, p, e.qty, e.tradeId⟩ : FlushedEntry) ∈
        (b.flushBefore ts).2.filter (fun f => f.ts = t ∧ f.price = p) :=
      List.mem_filter.2 ⟨(b.mem_flushBefore ts _).2 ⟨hlt, he⟩, by simp⟩
    have hlen := List.eq_replicate_of_mem hall
    rw [hlen, List.nodup_replicate] at hnodup
    have hpos := List.length_pos_of_mem hin
    rw [hlen, Nat.le_antisymm hnodup hpos]
    rfl

/-- **A trade that nothing matches is logged.** When no trade and no update of its timestamp and
price follows a trade, the first update of a later time logs it once, under its id and with all that
was buffered for its timestamp and price. -/
theorem unmatched_logged (pre post : List Call) (t : Trade) (u : L2Update)
    (hpost : ∀ call ∈ post, PassesBy t.ts t.price call) (hlt : t.ts < u.ts) :
    (flushedBy (pre ++ .trade t :: post) (.l2Update u)).filter
        (fun f => f.ts = t.ts ∧ f.price = t.price) =
      [⟨t.ts, t.price, (((engine.state pre).tradeBuffer.entry t.ts t.price).map
        TradeEntry.qty).getD 0 + t.qty, t.tradeId⟩] := by
  have hentry := entry_of_passesBy (pre ++ [.trade t]) hpost
  rw [state_trade, onTrade, TradeBuffer.add_entry, if_pos ⟨rfl, rfl⟩, ← List.append_cons] at hentry
  rw [flushedBy, onL2Update_flushed, TradeBuffer.flushBefore_filter _ _ _ _ hlt, hentry]
  rfl

/-- Between the trade and the update that logs it, another price is reduced and traded. -/
theorem unmatched_logged_example :
    (flushedBy ([.l2Update ⟨1, .new, 1000, 10, .bid, 0⟩] ++ .trade ⟨2, 1001, 4, .bid, 7⟩ ::
        [.l2Update ⟨2, .change, 1000, 5, .bid, 0⟩, .trade ⟨2, 1000, 1, .bid, 8⟩])
      (.l2Update ⟨3, .delete, 999, 0, .ask, 0⟩)).filter (fun f => f.ts = 2 ∧ f.price = 1001) =
        [⟨2, 1001, (((engine.state [.l2Update ⟨1, .new, 1000, 10, .bid, 0⟩]).tradeBuffer.entry 2
          1001).map TradeEntry.qty).getD 0 + 4, 7⟩] :=
  unmatched_logged [.l2Update ⟨1, .new, 1000, 10, .bid, 0⟩]
    [.l2Update ⟨2, .change, 1000, 5, .bid, 0⟩, .trade ⟨2, 1000, 1, .bid, 8⟩]
    ⟨2, 1001, 4, .bid, 7⟩ ⟨3, .delete, 999, 0, .ask, 0⟩ (by decide) (by decide)

end MarketDataEngine
