import MarketDataEngine.Effects

/-!
# Replaying the stream to the L2 book

The quantity that the emitted stream leaves at a side and price should be the quantity last reported
there by the L2 feed, and so should the book's own `total_qty` and the sum of its queued orders.
Neither holds of every run: `apply` already writes the reported quantity into `total_qty` when
`add_order` and `consume` change it once more, so an added level counts double
(`replaysToL2_fails`, `consistent_fails`), and a deleted level is dropped without cancels.

`replaysToL2_iff` is the exact condition for the stream: a level may be reported as anything once it
is empty, and otherwise only as empty, by a `New` or `Change` to zero, before its double count
wraps.
`consistent_iff` is the exact condition for the books: no level is ever reported with a quantity.
-/

namespace MarketDataEngine

open History Correlator

variable {s : Side} {p : Price} {c c' : Correlator} {u : L2Update} {es : List L3Event}

/-- Adds less fills and cancels leave the quantity last reported. -/
def ReplaysToL2 (s : Side) (p : Price) (calls : List Call) : Prop :=
  (addedAt s p (emitted calls) : Int) - reducedAt s p (emitted calls) =
    (lastReported s p calls).toNat

/-- A call that keeps the stream of a side and price true to the L2 book. -/
def Replayable (s : Side) (p : Price) (pre : List Call) : Call → Prop
  | .trade _ => True
  | .l2Update u => u.side = s ∧ u.price = p → lastReported s p pre = 0 ∨
      (u.action ≠ .delete ∧ u.newQty = 0 ∧ (lastReported s p pre).toNat < 2 ^ 31)

/-- The level after calls that are all `Replayable`: its queue holds the quantity last reported, and
its `total_qty` is twice that. -/
structure Doubled (c : Correlator) (s : Side) (p : Price) (q : Qty) : Prop where
  totalQty : c.totalQty s p = q + q
  lots : Fifo.total (c.lots s p) = q.toNat

/-- A level that is reported empty has no queue. -/
theorem Doubled.lots_nil (h : Doubled c s p 0) (hc : Queues c) : c.lots s p = [] :=
  (hc.pos s p).total_eq_zero.1 h.lots

/-- An empty level is doubled whatever it is reported as. -/
theorem Doubled.of_empty (h : Doubled c u.side u.price 0) (hc : Queues c)
    (hstep : L2Step c u c' es) : Doubled c' u.side u.price u.reported := by
  have hnil := h.lots_nil hc
  have htotal : c.totalQty u.side u.price = 0 := by rw [h.totalQty, UInt32.add_zero]
  cases hstep with
  | deleted ha _ _ hl =>
    rw [reported_of_delete u ha]
    exact ⟨by rw [totalQty_eq, hl]; rfl, by rw [lots_of_deleted hl]; rfl⟩
  | added ha _ _ _ hl =>
    rw [htotal, UInt32.sub_zero] at hl
    rw [reported_of_ne u ha]
    exact ⟨by rw [totalQty_eq, hl], by rw [lots_of_added hl, hnil]; simp⟩
  | kept ha hsame _ _ hl =>
    rw [reported_of_ne u ha, hsame, htotal]
    exact ⟨by rw [totalQty_eq, hl, ← totalQty_eq, h.totalQty], by rw [lots_of_kept hl, h.lots]⟩
  | reduced _ _ hr =>
    have hlt := UInt32.lt_iff_toNat_lt.1 hr.lowered
    rw [htotal] at hlt
    exact absurd hlt (Nat.not_lt_zero _)

/-- Reported as zero before its double count wraps, a doubled level loses its whole queue. -/
theorem Doubled.of_zero {q : Qty} (h : Doubled c u.side u.price q) (hc : Queues c)
    (hstep : L2Step c u c' es) (ha : u.action ≠ .delete) (hz : u.newQty = 0)
    (hq : q.toNat < 2 ^ 31) : Doubled c' u.side u.price 0 := by
  have htotal : (c.totalQty u.side u.price).toNat = q.toNat + q.toNat := by
    rw [h.totalQty, UInt32.toNat_add]
    omega
  cases hstep with
  | deleted ha' => exact absurd ha' ha
  | added _ hlt =>
    rw [hz] at hlt
    exact absurd (UInt32.lt_iff_toNat_lt.1 hlt) (Nat.not_lt_zero _)
  | kept _ hsame _ _ hl =>
    rw [← hsame, hz] at htotal
    have hq0 : q = 0 := UInt32.toNat_inj.1 (by simp at htotal ⊢; omega)
    refine ⟨?_, ?_⟩
    · rw [totalQty_eq, hl, ← totalQty_eq, h.totalQty, hq0]
    · rw [lots_of_kept hl, h.lots, hq0]
  | reduced _ _ hr =>
    have hd : c.decrease u = q.toNat + q.toNat := by
      rw [decrease, htotal, reported_of_ne u ha, hz]
      rfl
    have hnil : Fifo.drop (c.decrease u) (c.lots u.side u.price) = [] := by
      rw [(hc.pos _ _).drop_eq_nil, h.lots, hd]
      omega
    refine ⟨?_, ?_⟩
    · rw [hr.totalQty, if_pos hnil]
      rfl
    · rw [hr.lots, hnil]
      rfl

/-- What an update of a doubled level emits adds up to the report iff the level was empty or is
reported as zero before its double count wraps. -/
theorem Doubled.net_iff {q : Qty} (h : Doubled c u.side u.price q) (hstep : L2Step c u c' es) :
    (q.toNat : Int) + addedAt u.side u.price es - reducedAt u.side u.price es =
        u.reported.toNat ↔
      q = 0 ∨ (u.action ≠ .delete ∧ u.newQty = 0 ∧ q.toNat < 2 ^ 31) := by
  have hlt := q.toNat_lt
  have htotal : (c.totalQty u.side u.price).toNat = (q.toNat + q.toNat) % 2 ^ 32 := by
    rw [h.totalQty, UInt32.toNat_add]
  rw [← UInt32.toNat_inj, ← UInt32.toNat_inj, UInt32.toNat_zero]
  cases hstep with
  | deleted ha =>
    simp [reported_of_delete u ha, ha, addedAt, reducedAt]
  | added ha hraised =>
    have hraised := UInt32.lt_iff_toNat_lt.1 hraised
    rw [addedAt_addEvent, reducedAt_addEvent, reported_of_ne u ha,
      UInt32.toNat_sub_of_le _ _ (UInt32.le_iff_toNat_le.2 hraised.le)]
    simp only [ha, ne_eq, not_false_eq_true, true_and]
    omega
  | kept ha hsame =>
    rw [← UInt32.toNat_inj] at hsame
    simp only [reported_of_ne u ha, addedAt, reducedAt, qtyOf_nil, ha, ne_eq, not_false_eq_true,
      true_and]
    omega
  | reduced _ _ hr =>
    have hlow := UInt32.lt_iff_toNat_lt.1 hr.lowered
    rw [hr.addedAt_eq_zero, hr.reducedAt_eq, h.lots, reported_of_ne u hr.action, decrease,
      reported_of_ne u hr.action]
    simp only [hr.action, ne_eq, not_false_eq_true, true_and]
    omega

variable {pre : List Call}

/-- One call keeps the level doubled. -/
theorem doubled_step (hd : Doubled (engine.state pre) s p (lastReported s p pre)) (call : Call)
    (hcall : Replayable s p pre call) :
    Doubled (engine.state (pre ++ [call])) s p (lastReported s p (pre ++ [call])) := by
  cases call with
  | trade t => simpa using ⟨hd.totalQty, hd.lots⟩
  | l2Update u =>
    have hstep := (engine.state pre).onL2Update_step u
    rw [state_l2Update, lastReported_l2Update]
    rcases Decidable.em (u.side = s ∧ u.price = p) with ⟨rfl, rfl⟩ | hsp
    · rw [if_pos ⟨rfl, rfl⟩]
      rcases hcall ⟨rfl, rfl⟩ with hz | ⟨ha, hz, hq⟩
      · exact (hz ▸ hd).of_empty (queues_state pre) hstep
      · rw [reported_of_ne u ha, hz]
        exact hd.of_zero (queues_state pre) hstep ha hz hq
    · have hps : ¬ (s = u.side ∧ p = u.price) := fun h => hsp ⟨h.1.symm, h.2.symm⟩
      rw [if_neg hsp]
      exact ⟨(hstep.frame.totalQty hps).trans hd.totalQty,
        (congrArg Fifo.total (hstep.frame.lots hps)).trans hd.lots⟩

/-- One call keeps the stream true iff it is `Replayable`. -/
theorem replaysToL2_step (hd : Doubled (engine.state pre) s p (lastReported s p pre))
    (hr : ReplaysToL2 s p pre) (call : Call) :
    ReplaysToL2 s p (pre ++ [call]) ↔ Replayable s p pre call := by
  cases call with
  | trade t => simpa [ReplaysToL2, Replayable] using hr
  | l2Update u =>
    have hstep := (engine.state pre).onL2Update_step u
    unfold ReplaysToL2 at hr ⊢
    rw [emitted_l2Update, addedAt_append, reducedAt_append, lastReported_l2Update]
    rcases Decidable.em (u.side = s ∧ u.price = p) with ⟨rfl, rfl⟩ | hsp
    · simp only [Replayable, and_self, forall_const, if_true]
      rw [← hd.net_iff hstep]
      omega
    · simp only [Replayable, hsp, false_imp_iff, if_false, hstep.addedAt_of_ne hsp,
        hstep.reducedAt_of_ne hsp]
      simpa using hr

/-- At first both books are empty. -/
theorem replaysToL2_nil (s : Side) (p : Price) : ReplaysToL2 s p [] := rfl

/-- After calls that are all `Replayable` the level is doubled and the stream true. -/
theorem replayable_run (h : Always (Replayable s p) pre) :
    Doubled (engine.state pre) s p (lastReported s p pre) ∧ ReplaysToL2 s p pre := by
  induction pre using List.reverseRecOn with
  | nil =>
    exact ⟨⟨totalQty_init s p, congrArg Fifo.total (lots_init s p)⟩, replaysToL2_nil s p⟩
  | append_singleton pre call ih =>
    obtain ⟨hpre, hcall⟩ := always_concat.1 h
    obtain ⟨hd, hr⟩ := ih hpre
    exact ⟨doubled_step hd call hcall, (replaysToL2_step hd hr call).2 hcall⟩

/-- **The stream replays to the L2 book** at a side and price throughout a run iff every call is
`Replayable`. -/
theorem replaysToL2_iff (s : Side) (p : Price) (calls : List Call) :
    (∀ pre, pre <+: calls → ReplaysToL2 s p pre) ↔ Always (Replayable s p) calls :=
  forall_prefix_iff_always (replaysToL2_nil s p) (fun _ call hpre =>
    replaysToL2_step (replayable_run hpre).1 (replayable_run hpre).2 call) calls

instance (s : Side) (p : Price) (calls : List Call) : Decidable (ReplaysToL2 s p calls) :=
  inferInstanceAs (Decidable (_ = _))

/-- Reported as ten and then as ten again, a level has its only order cancelled. -/
theorem replaysToL2_fails : ¬ ReplaysToL2 .bid 1000
    [.l2Update ⟨1, .new, 1000, 10, .bid, 0⟩, .l2Update ⟨2, .change, 1000, 10, .bid, 0⟩] := by
  decide +kernel

/-! ## The books -/

/-- The book's `total_qty`, its queued orders and the quantity last reported agree. -/
def Consistent (s : Side) (p : Price) (calls : List Call) : Prop :=
  ((engine.state calls).totalQty s p).toNat = Fifo.total ((engine.state calls).lots s p) ∧
    (engine.state calls).totalQty s p = lastReported s p calls

instance (s : Side) (p : Price) (calls : List Call) : Decidable (Consistent s p calls) :=
  inferInstanceAs (Decidable (_ ∧ _))

/-- A call that reports no quantity at a side and price. -/
def ReportsNothing (s : Side) (p : Price) : Call → Prop
  | .trade _ => True
  | .l2Update u => u.side = s ∧ u.price = p → u.action = .delete ∨ u.newQty = 0

/-- Zero is reported by a `Delete` or with the quantity zero. -/
theorem reported_eq_zero_iff (u : L2Update) :
    u.reported = 0 ↔ u.action = .delete ∨ u.newQty = 0 := by
  unfold L2Update.reported reportedQty
  split <;> simp_all

/-- On a level reported as empty, one call leaves the report at zero iff it reports nothing. -/
theorem lastReported_concat_eq_zero (h : lastReported s p pre = 0) (call : Call) :
    lastReported s p (pre ++ [call]) = 0 ↔ ReportsNothing s p call := by
  cases call with
  | trade t => simpa [ReportsNothing] using h
  | l2Update u =>
    rw [lastReported_l2Update, ReportsNothing, ← reported_eq_zero_iff]
    split <;> simp_all

/-- A doubled level is consistent iff it is reported as empty. -/
theorem Doubled.consistent_iff_reported
    (hd : Doubled (engine.state pre) s p (lastReported s p pre)) :
    Consistent s p pre ↔ lastReported s p pre = 0 := by
  have hlt := (lastReported s p pre).toNat_lt
  rw [Consistent, hd.totalQty, hd.lots, ← UInt32.toNat_inj, ← UInt32.toNat_inj, UInt32.toNat_add,
    UInt32.toNat_zero]
  omega

/-- Any call keeps a level that is reported empty. -/
theorem doubled_of_reported_zero (hd : Doubled (engine.state pre) s p (lastReported s p pre))
    (hz : lastReported s p pre = 0) (call : Call) :
    Doubled (engine.state (pre ++ [call])) s p (lastReported s p (pre ++ [call])) :=
  doubled_step hd call (by cases call <;> simp [Replayable, hz])

/-- While nothing is reported for it, a level stays empty. -/
theorem reportsNothing_run (h : Always (fun _ call => ReportsNothing s p call) pre) :
    Doubled (engine.state pre) s p (lastReported s p pre) ∧ lastReported s p pre = 0 := by
  induction pre using List.reverseRecOn with
  | nil => exact ⟨(replayable_run (always_nil _)).1, rfl⟩
  | append_singleton pre call ih =>
    obtain ⟨hpre, hcall⟩ := always_concat.1 h
    obtain ⟨hd, hz⟩ := ih hpre
    exact ⟨doubled_of_reported_zero hd hz call, (lastReported_concat_eq_zero hz call).2 hcall⟩

/-- **The books are consistent** at a side and price throughout a run iff no call reports a quantity
there. -/
theorem consistent_iff (s : Side) (p : Price) (calls : List Call) :
    (∀ pre, pre <+: calls → Consistent s p pre) ↔ ∀ call ∈ calls, ReportsNothing s p call := by
  rw [← always_mem]
  refine forall_prefix_iff_always ?_ ?_ calls
  · exact (replayable_run (always_nil _)).1.consistent_iff_reported.2 rfl
  · intro pre call hpre
    obtain ⟨hd, hz⟩ := reportsNothing_run hpre
    rw [(doubled_of_reported_zero hd hz call).consistent_iff_reported,
      lastReported_concat_eq_zero hz]

/-- The first report of a quantity already counts double. -/
theorem consistent_fails : ¬ Consistent .bid 1000 [.l2Update ⟨1, .new, 1000, 10, .bid, 0⟩] := by
  decide +kernel

end MarketDataEngine
