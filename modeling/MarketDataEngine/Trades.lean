import MarketDataEngine.Effects

/-!
# What becomes of the traded quantity

A traded quantity is buffered under its timestamp and price until an update lowers that price at
that time, which takes it out of the buffer and fills orders, or until a later update flushes it.
No quantity is filled that was not traded there (`filled_le_traded`, `fill_of_trade`). The converse
fails (`accounted_fails`): the buffer gives up the quantity before the book is asked for the fills,
and the queue may hold less, or nothing after a `Delete`. `accounted_iff` is the exact condition.
-/

namespace MarketDataEngine

open History Correlator

/-! ## Quantities of a log -/

/-- The quantity an entry trades at a timestamp and price. -/
def Entry.tradedAt (ts : Timestamp) (p : Price) : Entry → ℕ
  | .call (.trade t) => if ts = t.ts ∧ p = t.price then t.qty.toNat else 0
  | _ => 0

/-- The quantity an entry fills at a timestamp and price. -/
def Entry.filledAt (ts : Timestamp) (p : Price) : Entry → ℕ
  | .event e => if e.type = .orderFill ∧ e.exchangeTs = ts ∧ e.price = p then e.qty.toNat else 0
  | _ => 0

/-- The quantity an entry logs as unmatched at a timestamp and price. -/
def Entry.flushedAt (ts : Timestamp) (p : Price) : Entry → ℕ
  | .anomaly f => f.qtyAt ts p
  | _ => 0

/-- The quantity that a log trades at a timestamp and price. -/
def traded (ts : Timestamp) (p : Price) (l : List Entry) : ℕ := tally (Entry.tradedAt ts p) l

/-- The quantity that a log fills at a timestamp and price. -/
def filled (ts : Timestamp) (p : Price) (l : List Entry) : ℕ := tally (Entry.filledAt ts p) l

/-- The quantity that a log flushes at a timestamp and price. -/
def flushed (ts : Timestamp) (p : Price) (l : List Entry) : ℕ := tally (Entry.flushedAt ts p) l

variable {ts : Timestamp} {p : Price} {c c' : Correlator} {u : L2Update} {es : List L3Event}
variable {calls : List Call}

@[simp] theorem traded_append (l m : List Entry) :
    traded ts p (l ++ m) = traded ts p l + traded ts p m :=
  tally_append ..

@[simp] theorem filled_append (l m : List Entry) :
    filled ts p (l ++ m) = filled ts p l + filled ts p m :=
  tally_append ..

@[simp] theorem flushed_append (l m : List Entry) :
    flushed ts p (l ++ m) = flushed ts p l + flushed ts p m :=
  tally_append ..

/-! ## One call -/

/-- The quantity of an update's fills at a timestamp and price. -/
def fillsAt (ts : Timestamp) (p : Price) (es : List L3Event) : ℕ :=
  qtyOf (fun e => e.type = .orderFill ∧ e.exchangeTs = ts ∧ e.price = p) es

/-- Only a trade trades. -/
theorem traded_step (c : Correlator) (call : Call) :
    traded ts p (c.step call).2 = Entry.tradedAt ts p (.call call) := by
  cases call with
  | trade t => exact Nat.add_zero _
  | l2Update u =>
    simp [traded, Correlator.step, tally_map, Entry.tradedAt, tally_eq_zero]

/-- What a log trades is what its calls trade. -/
theorem traded_log (calls : List Call) : traded ts p (engine.log calls) =
    tally (fun call => Entry.tradedAt ts p (.call call)) calls := by
  induction calls using List.reverseRecOn with
  | nil => rfl
  | append_singleton calls call ih =>
    rw [Machine.log_concat, traded_append, ih, tally_append, tally_cons, tally_nil, Nat.add_zero]
    exact congrArg _ (traded_step _ call)

/-- What a call fills is what its events fill. -/
theorem filled_step (c : Correlator) (call : Call) :
    filled ts p (c.step call).2 = fillsAt ts p (events (c.step call).2) := by
  cases call with
  | trade t => rfl
  | l2Update u =>
    rw [events_l2Update]
    simp [filled, Correlator.step, tally_map, Entry.filledAt, tally_eq_zero, fillsAt, qtyOf]

/-- A trade flushes nothing. -/
theorem flushed_trade (c : Correlator) (t : Trade) :
    flushed ts p (c.step (.trade t)).2 = 0 := rfl

/-- An update logs what is buffered before its time. -/
theorem flushed_l2Update (c : Correlator) (u : L2Update) :
    flushed ts p (c.step (.l2Update u)).2 =
      if ts < u.ts then c.tradeBuffer.buffered ts p else 0 := by
  rw [← TradeBuffer.flushBefore_flushed, ← c.onL2Update_flushed u]
  simp [flushed, Correlator.step, tally_map, Entry.flushedAt, tally_eq_zero]

/-- A trade adds to what is buffered at its timestamp and price, modulo 2^32. -/
theorem onTrade_buffered (c : Correlator) (t : Trade) :
    (c.onTrade t).tradeBuffer.buffered ts p =
      if ts = t.ts ∧ p = t.price then (c.tradeBuffer.buffered ts p + t.qty.toNat) % 2 ^ 32
      else c.tradeBuffer.buffered ts p := by
  change (c.tradeBuffer.add t.ts t.price t.qty t.tradeId).buffered ts p = _
  rw [TradeBuffer.add_buffered]
  split <;> rename_i h
  · rw [h.1, h.2]
  · rfl

/-- An update that does not lower its level matches nothing. -/
theorem matched_eq_zero (h : ¬ u.reported < c.totalQty u.side u.price) : c.matched u = 0 := by
  have hle := UInt32.le_iff_toNat_le.1 (UInt32.not_lt.1 h)
  rw [matched, decrease, Nat.sub_eq_zero_of_le hle, Nat.min_zero]

/-- An update leaves in the buffer what it neither flushes nor matches. -/
theorem onL2Update_buffered (c : Correlator) (u : L2Update) :
    (c.onL2Update u).1.tradeBuffer.buffered ts p =
      if ts < u.ts then 0
      else if ts = u.ts ∧ p = u.price then c.tradeBuffer.buffered ts p - c.matched u
      else c.tradeBuffer.buffered ts p := by
  rw [TradeBuffer.buffered, onL2Update_entry]
  by_cases hlt : ts < u.ts
  · simp [hlt]
  rw [if_neg hlt, if_neg hlt]
  split <;> rename_i h
  · obtain ⟨rfl, rfl, hlow⟩ := h
    rw [TradeEntry.less_qty, ← TradeBuffer.buffered, if_pos ⟨rfl, rfl⟩, matched, decrease,
      UInt32.toNat_sub_of_le _ _ (UInt32.le_of_lt hlow)]
    omega
  · rw [← TradeBuffer.buffered]
    split <;> rename_i hu
    · rw [matched_eq_zero fun hlow => h ⟨hu.1, hu.2, hlow⟩, Nat.sub_zero]
    · rfl

/-- What an update fills: what it matches, as far as the queue goes, and nothing on a `Delete`. -/
theorem L2Step.fillsAt_eq (h : L2Step c u c' es) : fillsAt ts p es =
    if ts = u.ts ∧ p = u.price then
      min (c.matched u) (if u.action = .delete then 0 else Fifo.total (c.lots u.side u.price))
    else 0 := by
  cases h with
  | deleted ha =>
    rw [if_pos ha, Nat.min_zero, ite_self]
    rfl
  | added ha hlt =>
    rw [matched_eq_zero (by rw [reported_of_ne u ha]; exact UInt32.not_lt.2 (UInt32.le_of_lt hlt)),
      Nat.zero_min, ite_self]
    rfl
  | kept ha heq =>
    rw [matched_eq_zero (by rw [reported_of_ne u ha, heq]; exact UInt32.lt_irrefl _),
      Nat.zero_min, ite_self]
    rfl
  | reduced fills cancels hr =>
    have hfill : ∀ e ∈ fills, e.type = .orderFill ∧ e.exchangeTs = u.ts ∧ e.price = u.price :=
      fun e he => by rw [hr.fill_event e he]; exact ⟨rfl, rfl, rfl⟩
    have hcancel : fillsAt ts p cancels = 0 := qtyOf_eq_zero fun e he hsel => by
      rw [hr.cancel_event e he] at hsel
      simp [reduceEvent] at hsel
    rw [fillsAt, qtyOf_append, ← fillsAt,
      ← fillsAt, hcancel, Nat.add_zero, if_neg hr.action]
    split <;> rename_i h
    · obtain ⟨rfl, rfl⟩ := h
      rw [fillsAt, qtyOf_eq_total hfill, hr.fill_lots, Fifo.total_take]
    · refine qtyOf_eq_zero fun e he hsel => h ?_
      rw [← (hfill e he).2.1, ← (hfill e he).2.2]
      exact ⟨hsel.2.1.symm, hsel.2.2.symm⟩

/-! ## No phantom fills -/

/-- Nothing is buffered at first. -/
theorem buffered_init : engine.init.tradeBuffer.buffered ts p = 0 := by
  simp [TradeBuffer.buffered, TradeBuffer.entry, engine]

/-- What is filled and what is buffered for a timestamp and price was traded there. -/
def Backed (ts : Timestamp) (p : Price) (c : Correlator) (l : List Entry) : Prop :=
  filled ts p l + c.tradeBuffer.buffered ts p ≤ traded ts p l

/-- One call keeps the quantities backed. -/
theorem Backed.step {l : List Entry} (h : Backed ts p c l) (call : Call) :
    Backed ts p (c.step call).1 (l ++ (c.step call).2) := by
  unfold Backed at h ⊢
  rw [traded_append, filled_append, traded_step, filled_step]
  cases call with
  | trade t =>
    change filled ts p l + 0 + (c.onTrade t).tradeBuffer.buffered ts p ≤
      traded ts p l + if ts = t.ts ∧ p = t.price then t.qty.toNat else 0
    rw [onTrade_buffered]
    split
    · have := Nat.mod_le (c.tradeBuffer.buffered ts p + t.qty.toNat) (2 ^ 32)
      omega
    · omega
  | l2Update u =>
    rw [events_l2Update, (c.onL2Update_step u).fillsAt_eq]
    change _ + (c.onL2Update u).1.tradeBuffer.buffered ts p ≤ traded ts p l + 0
    rw [onL2Update_buffered]
    rcases Decidable.em (ts = u.ts ∧ p = u.price) with ⟨rfl, rfl⟩ | hu
    · have hle : c.matched u ≤ c.tradeBuffer.buffered u.ts u.price := Nat.min_le_left ..
      simp only [and_self, if_true, UInt64.lt_irrefl, if_false]
      omega
    · simp only [hu, if_false]
      split <;> omega

/-- In every run the quantities are backed. -/
theorem backed_run (ts : Timestamp) (p : Price) (calls : List Call) :
    Backed ts p (engine.state calls) (engine.log calls) := by
  refine engine.log_invariant ?_ (fun c l call h => h.step call) calls
  exact Nat.le_of_eq (congrArg (0 + ·) buffered_init)

/-- At no point of a run more is filled for a timestamp and price than was traded there before. -/
theorem filled_le_traded (ts : Timestamp) (p : Price) (calls : List Call) :
    ∀ l, l <+: engine.log calls → filled ts p l ≤ traded ts p l := by
  induction calls using List.reverseRecOn with
  | nil =>
    intro l hl
    rw [List.prefix_nil.1 hl]
    exact Nat.le_refl 0
  | append_singleton calls call ih =>
    intro l hl
    rw [Machine.log_concat] at hl
    rcases List.prefix_or_prefix_of_prefix hl (List.prefix_append _ _) with hl' | ⟨m, rfl⟩
    · exact ih l hl'
    have hm := (List.prefix_append_right_inj _).1 hl
    have hbefore := backed_run ts p calls
    have hafter := (backed_run ts p calls).step call
    have hfilled : filled ts p m ≤ filled ts p ((engine.state calls).step call).2 :=
      tally_prefix_le _ hm
    unfold Backed at hbefore hafter
    rw [traded_append, filled_append] at hafter ⊢
    -- a call either fills nothing or trades nothing
    cases call with
    | trade t =>
      rw [filled_step] at hfilled
      change _ ≤ 0 at hfilled
      omega
    | l2Update u =>
      rw [traded_step] at hafter
      change _ ≤ _ + 0 at hafter
      omega

/-- The event is a fill of the trade: of its time and price, and under its id. -/
def OfTrade (t : Trade) (e : L3Event) : Prop :=
  t.ts = e.exchangeTs ∧ t.price = e.price ∧ t.tradeId = e.tradeId

/-- What is buffered for a timestamp and price is under the id of a trade made there. -/
theorem entry_traded {e : TradeEntry}
    (h : (engine.state calls).tradeBuffer.entry ts p = some e) :
    ∃ t, .trade t ∈ calls ∧ t.ts = ts ∧ t.price = p ∧ t.tradeId = e.tradeId := by
  induction calls using List.reverseRecOn generalizing e with
  | nil => simp [engine, TradeBuffer.entry] at h
  | append_singleton calls call ih =>
    have hold : ∀ {e}, (engine.state calls).tradeBuffer.entry ts p = some e →
        ∃ t, .trade t ∈ calls ++ [call] ∧ t.ts = ts ∧ t.price = p ∧ t.tradeId = e.tradeId := by
      intro e he
      obtain ⟨t, ht, h⟩ := ih he
      exact ⟨t, List.mem_append_left _ ht, h⟩
    cases call with
    | trade t =>
      rw [state_trade, onTrade, TradeBuffer.add_entry] at h
      split at h
      · rename_i hat
        obtain ⟨rfl, rfl⟩ := hat
        obtain rfl := Option.some.inj h
        exact ⟨t, by simp, rfl, rfl, rfl⟩
      · exact hold h
    | l2Update u =>
      rw [state_l2Update, onL2Update_entry] at h
      split at h
      · cases h
      split at h
      · obtain ⟨e', he', hless⟩ := Option.bind_eq_some_iff.1 h
        obtain ⟨t, ht, hts, hp, hid⟩ := hold he'
        refine ⟨t, ht, hts, hp, hid.trans ?_⟩
        unfold TradeEntry.less at hless
        split at hless
        · cases hless
        · obtain rfl := Option.some.inj hless
          rfl
      · exact hold h

/-- Something is buffered as soon as something is matched. -/
theorem entry_of_matched (h : c.matched u ≠ 0) :
    ∃ b, c.tradeBuffer.entry u.ts u.price = some b ∧ 0 < b.qty := by
  rw [matched, TradeBuffer.buffered] at h
  cases hb : c.tradeBuffer.entry u.ts u.price with
  | none => simp [hb] at h
  | some b =>
    refine ⟨b, rfl, qty_pos_iff.2 (Nat.pos_of_ne_zero fun hz => h ?_)⟩
    simp [hb, hz]

/-- A fill of an update is under the id of what is buffered for its time and price. -/
theorem L2Step.fill_entry (h : L2Step c u c' es) {e : L3Event} (he : e ∈ es)
    (hty : e.type = .orderFill) : ∃ b, c.tradeBuffer.entry u.ts u.price = some b ∧ 0 < b.qty ∧
      e.tradeId = b.tradeId ∧ u.action ≠ .delete ∧ u.newQty < c.totalQty u.side u.price := by
  cases h with
  | deleted | kept => cases he
  | added =>
    rw [List.mem_singleton.1 he] at hty
    cases hty
  | reduced fills cancels hr =>
    rcases List.mem_append.1 he with he | he
    · have hmatched : c.matched u ≠ 0 := fun hz => by
        have hnil := hr.fill_lots
        rw [hz, Fifo.take_zero, List.map_eq_nil_iff] at hnil
        rw [hnil] at he
        cases he
      obtain ⟨b, hb, hpos⟩ := entry_of_matched hmatched
      refine ⟨b, hb, hpos, ?_, hr.action, hr.lowered⟩
      rw [hr.fill_event e he, hb]
      rfl
    · rw [hr.cancel_event e he] at hty
      cases hty

/-- Every fill is of a trade made before. -/
theorem fill_of_trade (pre : List Call) (call : Call) : ∀ e ∈ emittedBy pre call,
    e.type = .orderFill → ∃ t, .trade t ∈ pre ∧ OfTrade t e := by
  intro e he hty
  cases call with
  | trade t => cases he
  | l2Update u =>
    rw [emittedBy_l2Update] at he
    have hstep := (engine.state pre).onL2Update_step u
    obtain ⟨b, hb, -, hid, -⟩ := hstep.fill_entry he hty
    obtain ⟨t, ht, hts, hp, hid'⟩ := entry_traded hb
    obtain ⟨-, hprice, hets, -⟩ := hstep.event_fields e he
    exact ⟨t, ht, hts.trans hets.symm, hp.trans hprice.symm, hid'.trans hid.symm⟩

/-- **No phantom fills.** At every point of a run what is filled for a timestamp and price was
traded there before, and every fill is under the id of a trade made there before. -/
theorem no_phantom_fills (calls : List Call) :
    (∀ ts p l, l <+: engine.log calls → filled ts p l ≤ traded ts p l) ∧
      Always (fun pre call => ∀ e ∈ emittedBy pre call, e.type = .orderFill →
        ∃ t, .trade t ∈ pre ∧ OfTrade t e) calls :=
  ⟨fun ts p => filled_le_traded ts p calls, fun pre call _ _ => fill_of_trade pre call⟩

/-! ## Lost trades -/

/-- What was filled for a timestamp and price, logged as unmatched or is still buffered. -/
def accountedFor (ts : Timestamp) (p : Price) (calls : List Call) : ℕ :=
  filled ts p (engine.log calls) + flushed ts p (engine.log calls) +
    (engine.state calls).tradeBuffer.buffered ts p

/-- No traded quantity is lost. -/
def Accounted (ts : Timestamp) (p : Price) (calls : List Call) : Prop :=
  traded ts p (engine.log calls) ≤ accountedFor ts p calls

/-- A call that fills what it takes from the buffer for a timestamp and price: a `Delete` of its
level finds nothing buffered or nothing to lower, and another update finds enough in the queue. -/
def Covered (ts : Timestamp) (p : Price) (c : Correlator) : Call → Prop
  | .trade _ => True
  | .l2Update u => ts = u.ts ∧ p = u.price →
    min (c.tradeBuffer.buffered ts p) ((c.totalQty u.side p).toNat - u.reported.toNat) ≤
      if u.action = .delete then 0 else Fifo.total (c.lots u.side p)

/-- What a call takes from the buffer for a timestamp and price and does not fill. -/
def lostBy (ts : Timestamp) (p : Price) (c : Correlator) : Call → ℕ
  | .trade _ => 0
  | .l2Update u =>
    if ts = u.ts ∧ p = u.price then
      c.matched u - if u.action = .delete then 0 else Fifo.total (c.lots u.side u.price)
    else 0

/-- A call loses nothing iff it is covered. -/
theorem lostBy_eq_zero_iff {call : Call} : lostBy ts p c call = 0 ↔ Covered ts p c call := by
  cases call with
  | trade t => simp [lostBy, Covered]
  | l2Update u =>
    simp only [lostBy, Covered]
    split <;> rename_i h
    · obtain ⟨rfl, rfl⟩ := h
      rw [Nat.sub_eq_zero_iff_le, matched, decrease]
      simp
    · simp [h]

/-- One call accounts for what it trades, less what it loses, as long as the buffered sum does not
wrap. -/
theorem accountedFor_concat {call : Call}
    (hlt : traded ts p (engine.log (calls ++ [call])) < 2 ^ 32) :
    accountedFor ts p (calls ++ [call]) + lostBy ts p (engine.state calls) call =
      accountedFor ts p calls + Entry.tradedAt ts p (.call call) := by
  have hbacked := backed_run ts p calls
  unfold Backed at hbacked
  rw [traded_log, tally_append, tally_cons, tally_nil, Nat.add_zero, ← traded_log] at hlt
  unfold accountedFor
  rw [Machine.log_concat, filled_append, flushed_append]
  change filled ts p _ + filled ts p ((engine.state calls).step call).2 +
    (flushed ts p _ + flushed ts p ((engine.state calls).step call).2) + _ + _ = _
  rw [filled_step]
  cases call with
  | trade t =>
    have hfills : fillsAt ts p (events ((engine.state calls).step (.trade t)).2) = 0 := rfl
    rw [flushed_trade, hfills, state_trade, onTrade_buffered]
    simp only [Entry.tradedAt, lostBy] at hlt ⊢
    rcases Decidable.em (ts = t.ts ∧ p = t.price) with ⟨rfl, rfl⟩ | h
    · simp only [and_self, if_true] at hlt ⊢
      rw [Nat.mod_eq_of_lt (by omega)]
      omega
    · simp only [h, if_false]
      omega
  | l2Update u =>
    have hstep := (engine.state calls).onL2Update_step u
    rw [events_l2Update, hstep.fillsAt_eq, flushed_l2Update, state_l2Update, onL2Update_buffered]
    simp only [Entry.tradedAt, lostBy]
    rcases Decidable.em (ts = u.ts ∧ p = u.price) with ⟨rfl, rfl⟩ | hu
    · have hle : (engine.state calls).matched u ≤
        (engine.state calls).tradeBuffer.buffered u.ts u.price := Nat.min_le_left ..
      simp only [and_self, if_true, UInt64.lt_irrefl, if_false]
      omega
    · simp only [hu, if_false]
      split <;> omega

/-- **When no traded quantity is lost.** As long as the quantity traded for a timestamp and price is
below 2^32, all of it is accounted for iff every call is `Covered`. -/
theorem accounted_iff (ts : Timestamp) (p : Price) (calls : List Call)
    (hlt : traded ts p (engine.log calls) < 2 ^ 32) :
    Accounted ts p calls ↔ Always (fun pre call => Covered ts p (engine.state pre) call) calls := by
  have key : accountedFor ts p calls ≤ traded ts p (engine.log calls) ∧ (Accounted ts p calls ↔
      Always (fun pre call => Covered ts p (engine.state pre) call) calls) := by
    induction calls using List.reverseRecOn with
    | nil =>
      refine ⟨Nat.le_of_eq (congrArg (0 + ·) buffered_init), iff_of_true ?_ (always_nil _)⟩
      exact Nat.zero_le _
    | append_singleton calls call ih =>
      have hconcat := accountedFor_concat hlt
      have htraded : traded ts p (engine.log (calls ++ [call])) =
          traded ts p (engine.log calls) + Entry.tradedAt ts p (.call call) := by
        rw [traded_log, traded_log, tally_append, tally_cons, tally_nil, Nat.add_zero]
      obtain ⟨hle, hiff⟩ := ih (by omega)
      refine ⟨by omega, ?_⟩
      rw [always_concat, ← hiff, ← lostBy_eq_zero_iff, Accounted, Accounted]
      omega
  exact key.2

/-- A trade that a decrease matches in part and a later update flushes is accounted for. -/
theorem accounted_example :
    traded 2 1000 (engine.log [.l2Update ⟨1, .new, 1000, 10, .bid, 0⟩,
      .trade ⟨2, 1000, 9, .bid, 7⟩, .l2Update ⟨2, .change, 1000, 13, .bid, 0⟩,
      .l2Update ⟨3, .new, 1001, 5, .bid, 0⟩]) < 2 ^ 32 ∧
    (Accounted 2 1000 [.l2Update ⟨1, .new, 1000, 10, .bid, 0⟩,
      .trade ⟨2, 1000, 9, .bid, 7⟩, .l2Update ⟨2, .change, 1000, 13, .bid, 0⟩,
      .l2Update ⟨3, .new, 1001, 5, .bid, 0⟩] ↔
    Always (fun pre call => Covered 2 1000 (engine.state pre) call)
      [.l2Update ⟨1, .new, 1000, 10, .bid, 0⟩,
        .trade ⟨2, 1000, 9, .bid, 7⟩, .l2Update ⟨2, .change, 1000, 13, .bid, 0⟩,
        .l2Update ⟨3, .new, 1001, 5, .bid, 0⟩]) :=
  ⟨by decide +kernel, accounted_iff _ _ _ (by decide +kernel)⟩

instance (ts : Timestamp) (p : Price) (calls : List Call) : Decidable (Accounted ts p calls) :=
  inferInstanceAs (Decidable (_ ≤ _))

/-- A `Delete` takes the trade out of the buffer when its level is gone already. -/
theorem accounted_fails : ¬ ∀ calls, (∀ ts p, traded ts p (engine.log calls) < 2 ^ 32) →
    ∀ ts p, Accounted ts p calls := by
  intro h
  have hlost := h [.l2Update ⟨1, .new, 1000, 10, .bid, 0⟩, .trade ⟨2, 1000, 4, .bid, 7⟩,
    .l2Update ⟨2, .delete, 1000, 0, .bid, 0⟩] ?_ 2 1000
  · revert hlost
    decide +kernel
  · intro ts p
    rw [traded_log]
    simp only [tally_cons, tally_nil, Entry.tradedAt]
    split <;> decide

end MarketDataEngine
