import MarketDataEngine.TradeBuffer

/-!
# What becomes of what is buffered

Runs of the trade buffer on its own, over `add`, `consume` and `flush_before` in any order. As long
as no entry wraps, what is added under a timestamp and price is returned, flushed or still buffered
(`conserved`). An entry keeps one trade id for all that it has merged, the last, so an id may be
credited with more than it traded (`credited_fails`). `credited_balance` has the quantities that an
entry passes on from one id to the next: without them an id is credited with at most what it traded.
-/

namespace MarketDataEngine

open History

/-- A call of the buffer, with its arguments. -/
inductive BufferCall
  | add (ts : Timestamp) (price : Price) (qty : Qty) (tradeId : UInt64)
  | consume (ts : Timestamp) (price : Price) (qty : Qty) (outTradeId : UInt64)
  | flushBefore (ts : Timestamp)
  deriving DecidableEq, Repr

/-- An entry of the log of a run. -/
inductive BufferEntry
  /-- A trade, and the entry that it was merged with. -/
  | added (ts : Timestamp) (price : Price) (qty : Qty) (tradeId : UInt64)
      (merged : Option TradeEntry)
  | returned (ts : Timestamp) (price : Price) (qty : Qty) (tradeId : UInt64)
  | flushed (f : FlushedEntry)
  deriving DecidableEq, Repr

/-- A call, and what it logs. -/
def TradeBuffer.step (b : TradeBuffer) : BufferCall → TradeBuffer × List BufferEntry
  | .add ts price qty tradeId =>
    (b.add ts price qty tradeId, [.added ts price qty tradeId (b.entry ts price)])
  | .consume ts price qty outTradeId =>
    let taken := b.consume ts price qty outTradeId
    (taken.1, [.returned ts price taken.2.1 taken.2.2])
  | .flushBefore ts =>
    let dropped := b.flushBefore ts
    (dropped.1, dropped.2.map .flushed)

/-- A trade buffer, from its initial state. -/
def buffering : Machine TradeBuffer BufferCall BufferEntry where
  init := {}
  step := TradeBuffer.step

/-- The steps of the machine are the calls. -/
theorem buffering_step (b : TradeBuffer) (call : BufferCall) :
    buffering.step b call = b.step call :=
  rfl

/-- The sum that the call makes fits. -/
def BufferCall.Fits (b : TradeBuffer) : BufferCall → Prop
  | .add ts price qty _ => b.buffered ts price + qty.toNat < 2 ^ 32
  | _ => True

instance (b : TradeBuffer) (call : BufferCall) : Decidable (call.Fits b) := by
  cases call <;> unfold BufferCall.Fits <;> infer_instance

/-- The quantity that a call adds. -/
def BufferCall.addedQty : BufferCall → ℕ
  | .add _ _ qty _ => qty.toNat
  | _ => 0

/-! ## Quantities under some ids -/

/-- The quantity of the entry, if it is under one of the ids. -/
def TradeEntry.under (ids : UInt64 → Bool) (e : TradeEntry) : ℕ :=
  if ids e.tradeId then e.qty.toNat else 0

/-- The quantity that a buffer holds for a timestamp and price under some ids. -/
def TradeBuffer.held (ids : UInt64 → Bool) (ts : Timestamp) (p : Price) (b : TradeBuffer) : ℕ :=
  ((b.entry ts p).map (·.under ids)).getD 0

/-- The quantity of the entry that a trade takes over from other ids. -/
def TradeEntry.gainedBy (ids : UInt64 → Bool) (tradeId : UInt64) (e : TradeEntry) : ℕ :=
  if ids tradeId ∧ ¬ ids e.tradeId then e.qty.toNat else 0

/-- The quantity of the entry that a trade under another id takes over. -/
def TradeEntry.lostTo (ids : UInt64 → Bool) (tradeId : UInt64) (e : TradeEntry) : ℕ :=
  if ids e.tradeId ∧ ¬ ids tradeId then e.qty.toNat else 0

namespace BufferEntry

variable (ids : UInt64 → Bool) (ts : Timestamp) (p : Price)

/-- The quantity that is added under ids of the set. -/
def addedUnder : BufferEntry → ℕ
  | .added t q qty id _ => if t = ts ∧ q = p ∧ ids id then qty.toNat else 0
  | _ => 0

/-- The quantity that is returned under ids of the set. -/
def returnedUnder : BufferEntry → ℕ
  | .returned t q qty id => if t = ts ∧ q = p ∧ ids id then qty.toNat else 0
  | _ => 0

/-- The quantity that is flushed under ids of the set. -/
def flushedUnder : BufferEntry → ℕ
  | .flushed f => if f.ts = ts ∧ f.price = p then TradeEntry.under ids ⟨f.qty, f.tradeId⟩ else 0
  | _ => 0

/-- The quantity that comes under ids of the set when an entry gets a new id. -/
def gainedUnder : BufferEntry → ℕ
  | .added t q _ id merged =>
    if t = ts ∧ q = p then (merged.map (·.gainedBy ids id)).getD 0 else 0
  | _ => 0

/-- The quantity that leaves the ids of the set when an entry gets a new id. -/
def lostUnder : BufferEntry → ℕ
  | .added t q _ id merged =>
    if t = ts ∧ q = p then (merged.map (·.lostTo ids id)).getD 0 else 0
  | _ => 0

end BufferEntry

section
variable (ids : UInt64 → Bool) (ts : Timestamp) (p : Price) (calls : List BufferCall)

/-- The quantity that a run adds for a timestamp and price under some ids. -/
def addedUnder : ℕ := tally (BufferEntry.addedUnder ids ts p) (buffering.log calls)

/-- The quantity that `consume` returns for them. -/
def returnedUnder : ℕ := tally (BufferEntry.returnedUnder ids ts p) (buffering.log calls)

/-- The quantity that `flush_before` reports for them. -/
def flushedUnder : ℕ := tally (BufferEntry.flushedUnder ids ts p) (buffering.log calls)

/-- The quantity that their trades were merged with, buffered under other ids. -/
def gainedUnder : ℕ := tally (BufferEntry.gainedUnder ids ts p) (buffering.log calls)

/-- The quantity buffered under them that trades under other ids were merged with. -/
def lostUnder : ℕ := tally (BufferEntry.lostUnder ids ts p) (buffering.log calls)

/-- The quantity still buffered under them. -/
def bufferedUnder : ℕ := (buffering.state calls).held ids ts p

end

/-- All ids. -/
def anyId : UInt64 → Bool := fun _ => true

/-- One id. -/
def only (tradeId : UInt64) : UInt64 → Bool := fun id => id = tradeId

/-! ## One call -/

section
variable (ids : UInt64 → Bool) (ts : Timestamp) (p : Price) (b : TradeBuffer)

/-- What is consumed of an entry leaves its id. -/
theorem TradeEntry.less_under (e : TradeEntry) (qty : Qty) :
    ((e.less qty).map (·.under ids)).getD 0 +
      (if ids e.tradeId then min e.qty.toNat qty.toNat else 0) = e.under ids := by
  unfold less under
  split <;> rename_i h
  · have hle := UInt32.le_iff_toNat_le.1 h
    simp [Nat.min_eq_left hle]
  · have hlt := UInt32.le_of_lt (UInt32.not_le.1 h)
    have hle := UInt32.le_iff_toNat_le.1 hlt
    simp only [Option.map_some, Option.getD_some, UInt32.toNat_sub_of_le _ _ hlt,
      Nat.min_eq_right hle]
    split <;> omega

/-- What `add` buffers is under the new id: the trade, and what it is merged with. -/
theorem TradeBuffer.add_held (t : Timestamp) (q : Price) (qty : Qty) (id : UInt64)
    (hfit : b.buffered t q + qty.toNat < 2 ^ 32) :
    BufferEntry.addedUnder ids ts p (.added t q qty id (b.entry t q)) +
        BufferEntry.gainedUnder ids ts p (.added t q qty id (b.entry t q)) + b.held ids ts p =
      BufferEntry.lostUnder ids ts p (.added t q qty id (b.entry t q)) +
        (b.add t q qty id).held ids ts p := by
  simp only [BufferEntry.addedUnder, BufferEntry.gainedUnder, BufferEntry.lostUnder, held,
    add_entry]
  rcases Decidable.em (t = ts ∧ q = p) with ⟨rfl, rfl⟩ | hne
  · rw [buffered] at hfit
    cases hb : b.entry t q with
    | none => simp [TradeEntry.under]
    | some e =>
      rw [hb, Option.map_some, Option.getD_some] at hfit
      have hsum : (e.qty + qty).toNat = e.qty.toNat + qty.toNat := by
        rw [UInt32.toNat_add, Nat.mod_eq_of_lt hfit]
      simp only [TradeEntry.under, TradeEntry.gainedBy, TradeEntry.lostTo, Option.map_some,
        Option.getD_some, hsum, and_self, true_and, if_true]
      cases ids id <;> cases ids e.tradeId <;> simp <;> omega
  · have hne' : ¬ (ts = t ∧ p = q) := fun h => hne ⟨h.1.symm, h.2.symm⟩
    rw [if_neg fun h => hne ⟨h.1, h.2.1⟩, if_neg hne, if_neg hne, if_neg hne', Nat.zero_add]

/-- What `consume` returns is taken from the entry, under its id. -/
theorem TradeBuffer.consume_held (t : Timestamp) (q : Price) (qty : Qty) (out : UInt64) :
    BufferEntry.returnedUnder ids ts p
        (.returned t q (b.consume t q qty out).2.1 (b.consume t q qty out).2.2) +
      (b.consume t q qty out).1.held ids ts p = b.held ids ts p := by
  simp only [BufferEntry.returnedUnder, held, consume_entry, consume_available, consume_tradeId]
  rcases Decidable.em (t = ts ∧ q = p) with ⟨rfl, rfl⟩ | hne
  · rw [buffered]
    cases hb : b.entry t q with
    | none => simp
    | some e =>
      have hless := e.less_under ids qty
      simp only [Option.map_some, Option.getD_some, Option.bind_some, and_self, true_and, if_true]
      omega
  · have hne' : ¬ (ts = t ∧ p = q) := fun h => hne ⟨h.1.symm, h.2.symm⟩
    rw [if_neg fun h => hne ⟨h.1, h.2.1⟩, if_neg hne', Nat.zero_add]

/-- What `flush_before` drops it reports. -/
theorem TradeBuffer.flushBefore_held (t : Timestamp) :
    tally (BufferEntry.flushedUnder ids ts p) ((b.flushBefore t).2.map .flushed) +
      (b.flushBefore t).1.held ids ts p = b.held ids ts p := by
  rw [tally_map, held, flushBefore_entry]
  change tally (fun f : FlushedEntry => if f.ts = ts ∧ f.price = p then
    TradeEntry.under ids ⟨f.qty, f.tradeId⟩ else 0) (b.flushBefore t).2 + _ = _
  rw [b.flushBefore_tally, held]
  split
  · simp
  · simp

/-- **One call.** What is added and taken over is returned, flushed, given up or held. -/
theorem TradeBuffer.step_held (call : BufferCall) (hfit : call.Fits b) :
    tally (BufferEntry.addedUnder ids ts p) (b.step call).2 +
        tally (BufferEntry.gainedUnder ids ts p) (b.step call).2 + b.held ids ts p =
      tally (BufferEntry.returnedUnder ids ts p) (b.step call).2 +
        tally (BufferEntry.flushedUnder ids ts p) (b.step call).2 +
        tally (BufferEntry.lostUnder ids ts p) (b.step call).2 + (b.step call).1.held ids ts p := by
  cases call with
  | add t q qty id =>
    have h := b.add_held ids ts p t q qty id hfit
    simp only [step, tally_cons, tally_nil, BufferEntry.returnedUnder, BufferEntry.flushedUnder]
    omega
  | consume t q qty out =>
    have h := b.consume_held ids ts p t q qty out
    simp only [step, tally_cons, tally_nil, BufferEntry.addedUnder, BufferEntry.gainedUnder,
      BufferEntry.flushedUnder, BufferEntry.lostUnder]
    omega
  | flushBefore t =>
    have h := b.flushBefore_held ids ts p t
    have hzero : ∀ w : BufferEntry → ℕ, (∀ f, w (.flushed f) = 0) →
        tally w ((b.flushBefore t).2.map .flushed) = 0 := by
      intro w hw
      rw [tally_map]
      exact tally_eq_zero fun f _ => hw f
    simp only [step]
    rw [hzero (BufferEntry.addedUnder ids ts p) fun _ => rfl,
      hzero (BufferEntry.gainedUnder ids ts p) fun _ => rfl,
      hzero (BufferEntry.returnedUnder ids ts p) fun _ => rfl,
      hzero (BufferEntry.lostUnder ids ts p) fun _ => rfl]
    omega

end

/-- What `flush_before` does: it reports what is buffered before its time, each entry once and by
timestamp and price, and drops just that. -/
structure TradeBuffer.Flushes (b : TradeBuffer) (ts : Timestamp) : Prop where
  reports : ∀ f, f ∈ (b.flushBefore ts).2 ↔
    f.ts < ts ∧ b.entry f.ts f.price = some ⟨f.qty, f.tradeId⟩
  ordered : (b.flushBefore ts).2.Pairwise FlushedEntry.Before
  keeps : ∀ t p, (b.flushBefore ts).1.entry t p = if t < ts then none else b.entry t p

/-- `flush_before` flushes what is before its time, and nothing else. -/
theorem TradeBuffer.flushes (b : TradeBuffer) (ts : Timestamp) : b.Flushes ts where
  reports := b.mem_flushBefore ts
  ordered := b.flushBefore_pairwise ts
  keeps := b.flushBefore_entry ts

/-! ## Runs -/

section
variable {calls : List BufferCall} {ts : Timestamp} {p : Price}

/-- **Nothing is lost.** What a run adds and takes over is returned, flushed, given up or still
buffered, as long as no sum wraps. -/
theorem balance (h : Always (fun pre call => call.Fits (buffering.state pre)) calls)
    (ids : UInt64 → Bool) (ts : Timestamp) (p : Price) :
    addedUnder ids ts p calls + gainedUnder ids ts p calls =
      returnedUnder ids ts p calls + flushedUnder ids ts p calls + lostUnder ids ts p calls +
        bufferedUnder ids ts p calls := by
  induction calls using List.reverseRecOn with
  | nil => simp [addedUnder, gainedUnder, returnedUnder, flushedUnder, lostUnder, bufferedUnder,
      TradeBuffer.held, TradeBuffer.entry, buffering]
  | append_singleton calls call ih =>
    obtain ⟨hcalls, hcall⟩ := always_concat.1 h
    have hstep := (buffering.state calls).step_held ids ts p call hcall
    have ih := ih hcalls
    unfold addedUnder gainedUnder returnedUnder flushedUnder lostUnder bufferedUnder at ih ⊢
    simp only [Machine.log_concat, Machine.state_concat, tally_append, buffering_step]
    omega

/-- Under all ids nothing is taken over. -/
theorem gainedUnder_anyId : gainedUnder anyId ts p calls = 0 :=
  tally_eq_zero fun e _ => by
    cases e with
    | added t q qty id merged =>
      cases merged <;> simp [BufferEntry.gainedUnder, TradeEntry.gainedBy, anyId]
    | _ => rfl

/-- Nothing leaves the set of all ids. -/
theorem lostUnder_anyId : lostUnder anyId ts p calls = 0 :=
  tally_eq_zero fun e _ => by
    cases e with
    | added t q qty id merged =>
      cases merged <;> simp [BufferEntry.lostUnder, TradeEntry.lostTo, anyId]
    | _ => rfl

/-- All that is buffered is under some id. -/
theorem bufferedUnder_anyId :
    bufferedUnder anyId ts p calls = (buffering.state calls).buffered ts p := rfl

/-- No sum wraps as long as what is added for a timestamp and price fits a word. -/
theorem fits_of_added (h : ∀ ts p, addedUnder anyId ts p calls < 2 ^ 32) :
    Always (fun pre call => call.Fits (buffering.state pre)) calls := by
  induction calls using List.reverseRecOn with
  | nil => exact always_nil _
  | append_singleton calls call ih =>
    have hadded : ∀ ts p, addedUnder anyId ts p (calls ++ [call]) =
        addedUnder anyId ts p calls +
          tally (BufferEntry.addedUnder anyId ts p) ((buffering.state calls).step call).2 := by
      intro ts p
      rw [addedUnder, Machine.log_concat, tally_append, buffering_step, addedUnder]
    have hcalls := ih fun ts p => Nat.lt_of_le_of_lt (Nat.le_add_right _ _) (hadded ts p ▸ h ts p)
    refine always_concat.2 ⟨hcalls, ?_⟩
    cases call with
    | add t q qty id =>
      have hsum := hadded t q ▸ h t q
      have hbal := balance hcalls anyId t q
      rw [gainedUnder_anyId, lostUnder_anyId, bufferedUnder_anyId] at hbal
      have hadd : tally (BufferEntry.addedUnder anyId t q)
          ((buffering.state calls).step (.add t q qty id)).2 = qty.toNat := by
        simp [TradeBuffer.step, BufferEntry.addedUnder, anyId]
      change (buffering.state calls).buffered t q + qty.toNat < 2 ^ 32
      omega
    | consume | flushBefore => trivial

/-- No more is added for a timestamp and price than is added at all. -/
theorem addedUnder_le_total (ids : UInt64 → Bool) (ts : Timestamp) (p : Price) :
    addedUnder ids ts p calls ≤ tally BufferCall.addedQty calls := by
  induction calls using List.reverseRecOn with
  | nil => exact Nat.le_refl 0
  | append_singleton calls call ih =>
    rw [addedUnder, Machine.log_concat, tally_append, tally_append, tally_cons, tally_nil]
    refine Nat.add_le_add ih ?_
    cases call with
    | add t q qty id =>
      change BufferEntry.addedUnder ids ts p (.added t q qty id _) + 0 ≤ qty.toNat + 0
      rw [BufferEntry.addedUnder]
      split <;> omega
    | consume t q qty out => exact Nat.zero_le _
    | flushBefore t =>
      refine Nat.le_of_eq (tally_eq_zero fun e he => ?_)
      obtain ⟨f, -, rfl⟩ := List.mem_map.1 he
      rfl

/-- A run in which the trades of `t` for a timestamp and price are merged with its own only. -/
theorem gainedUnder_eq_zero {t : UInt64} (h : ∀ pre qty, pre ++ [.add ts p qty t] <+: calls →
    ∀ e ∈ (buffering.state pre).entry ts p, e.tradeId = t) :
    gainedUnder (only t) ts p calls = 0 := by
  induction calls using List.reverseRecOn with
  | nil => rfl
  | append_singleton calls call ih =>
    have ih := ih fun pre qty hpre => h pre qty (hpre.trans (List.prefix_append ..))
    rw [gainedUnder, Machine.log_concat, tally_append, ← gainedUnder, ih, Nat.zero_add]
    refine tally_eq_zero fun e he => ?_
    cases call with
    | add ts' p' qty id =>
      obtain rfl := List.mem_singleton.1 he
      rw [BufferEntry.gainedUnder, ite_eq_right_iff]
      rintro ⟨rfl, rfl⟩
      cases hb : (buffering.state calls).entry ts' p' with
      | none => rfl
      | some e =>
        rw [Option.map_some, Option.getD_some, TradeEntry.gainedBy, ite_eq_right_iff]
        rintro ⟨hid, hother⟩
        obtain rfl : id = t := of_decide_eq_true hid
        exact absurd (decide_eq_true (h calls qty (List.prefix_refl _) e hb)) hother
    | consume ts' p' qty out =>
      obtain rfl := List.mem_singleton.1 he
      rfl
    | flushBefore ts' =>
      obtain ⟨f, -, rfl⟩ := List.mem_map.1 he
      rfl

/-- No run leaves an empty map behind. -/
theorem compact_run (calls : List BufferCall) : (buffering.state calls).Compact := by
  refine buffering.state_invariant TradeBuffer.compact_init ?_ calls
  intro b call h
  cases call with
  | add ts p qty id => exact h.add ts p qty id
  | consume ts p qty out => exact h.consume ts p qty out
  | flushBefore ts => exact h.flushBefore ts

/-- **The buffer conserves quantity.** If what is added for each timestamp and price fits a word, it
is returned, flushed or still buffered; a flush reports what is buffered before its time and leaves
the rest alone; and no timestamp ever keeps an empty price map. -/
theorem conserved (calls : List BufferCall) (h : ∀ ts p, addedUnder anyId ts p calls < 2 ^ 32) :
    (∀ ts p, addedUnder anyId ts p calls =
        returnedUnder anyId ts p calls + flushedUnder anyId ts p calls +
          (buffering.state calls).buffered ts p) ∧
      ∀ pre, pre <+: calls →
        (∀ ts, (buffering.state pre).Flushes ts) ∧ (buffering.state pre).Compact := by
  refine ⟨?_, ?_⟩
  · intro ts p
    have hbal := balance (fits_of_added h) anyId ts p
    rwa [gainedUnder_anyId, lostUnder_anyId, bufferedUnder_anyId, Nat.add_zero,
      Nat.add_zero] at hbal
  · exact fun pre _ => ⟨fun ts => TradeBuffer.flushes _ ts, compact_run pre⟩

/-- Three units are merged with five, six returned and two flushed, at another time than a seventh
that stays. -/
theorem conserved_example :
    let calls : List BufferCall := [.add 1 100 5 7, .add 1 100 3 8, .consume 1 100 6 0,
      .add 3 100 1 9, .flushBefore 2]
    (∀ ts p, addedUnder anyId ts p calls =
        returnedUnder anyId ts p calls + flushedUnder anyId ts p calls +
          (buffering.state calls).buffered ts p) ∧
      ∀ pre, pre <+: calls →
        (∀ ts, (buffering.state pre).Flushes ts) ∧ (buffering.state pre).Compact :=
  conserved _ fun ts p => Nat.lt_of_le_of_lt (addedUnder_le_total anyId ts p) (by decide)

/-! ## Credits -/

/-- **Credits balance.** What is credited to a trade id, still buffered under it or taken over from
it is what was traded under it and what its trades took over from other ids. An id whose trades
were merged with nothing of another id is credited with at most what it traded. -/
theorem credited_balance (calls : List BufferCall)
    (h : Always (fun pre call => call.Fits (buffering.state pre)) calls) (ts : Timestamp)
    (p : Price) (t : UInt64) :
    returnedUnder (only t) ts p calls + flushedUnder (only t) ts p calls +
          bufferedUnder (only t) ts p calls + lostUnder (only t) ts p calls =
        addedUnder (only t) ts p calls + gainedUnder (only t) ts p calls ∧
      ((∀ pre qty, pre ++ [.add ts p qty t] <+: calls →
          ∀ e ∈ (buffering.state pre).entry ts p, e.tradeId = t) →
        returnedUnder (only t) ts p calls + flushedUnder (only t) ts p calls ≤
          addedUnder (only t) ts p calls) := by
  have hbal := balance h (only t) ts p
  refine ⟨by omega, ?_⟩
  intro hown
  have hgain := gainedUnder_eq_zero hown
  omega

/-- Two trades under two ids, merged and partly consumed. -/
theorem credited_balance_example :
    let calls : List BufferCall := [.add 1 100 5 7, .add 1 100 3 8, .consume 1 100 6 0]
    returnedUnder (only 8) 1 100 calls + flushedUnder (only 8) 1 100 calls +
          bufferedUnder (only 8) 1 100 calls + lostUnder (only 8) 1 100 calls =
        addedUnder (only 8) 1 100 calls + gainedUnder (only 8) 1 100 calls ∧
      ((∀ pre qty, pre ++ [.add 1 100 qty 8] <+: calls →
          ∀ e ∈ (buffering.state pre).entry 1 100, e.tradeId = 8) →
        returnedUnder (only 8) 1 100 calls + flushedUnder (only 8) 1 100 calls ≤
          addedUnder (only 8) 1 100 calls) :=
  credited_balance [.add 1 100 5 7, .add 1 100 3 8, .consume 1 100 6 0]
    (fits_of_added fun ts p => Nat.lt_of_le_of_lt (addedUnder_le_total anyId ts p) (by decide))
    1 100 8

/-- An id may be credited with more than it traded: eight units with the three of trade 8. -/
theorem credited_fails : ¬ ∀ calls,
    Always (fun pre call => call.Fits (buffering.state pre)) calls → ∀ ts p t,
      returnedUnder (only t) ts p calls + flushedUnder (only t) ts p calls ≤
        addedUnder (only t) ts p calls := by
  intro h
  have hcredited := h [.add 1 100 5 7, .add 1 100 3 8, .consume 1 100 8 0] ?_ 1 100 8
  · revert hcredited
    decide +kernel
  · refine fits_of_added fun ts p => ?_
    exact Nat.lt_of_le_of_lt (addedUnder_le_total anyId ts p) (by decide)

end

end MarketDataEngine
