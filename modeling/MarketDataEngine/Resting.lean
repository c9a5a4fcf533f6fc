import MarketDataEngine.Effects

/-!
# What rests after a report

The engine holds neither what the feed reported last nor a wrong copy that grows without bound.
`apply` writes the report into `total_qty` before `add_order` and `consume` change it by the same
difference again, so as long as reports stay below 2^31 a level's `total_qty` is twice what rests
there, and a report leaves what it exceeds the resting quantity by (`restingLaw`). A report that is
repeated is therefore not settled by the first one: unless it is twice what rests, the feed can
repeat it as often as it likes and each repetition adds or takes orders (`repeats_settle_iff`).
-/

namespace MarketDataEngine

open History Correlator

variable {s : Side} {p : Price} {c c' : Correlator} {u : L2Update} {es : List L3Event}
variable {calls : List Call}

/-- The quantity that the reports for a side and price leave resting there: each one leaves what it
exceeds the quantity by that was resting before. -/
def resting (s : Side) (p : Price) (calls : List Call) : ℕ :=
  calls.foldl (fun q call =>
    match call with
    | .trade _ => q
    | .l2Update u => if u.side = s ∧ u.price = p then u.reported.toNat - q else q) 0

/-- All reports for a side and price are below 2^31, so that twice of one fits a word. -/
def SmallReports (s : Side) (p : Price) (calls : List Call) : Prop :=
  ∀ u, .l2Update u ∈ calls → u.side = s → u.price = p → u.reported.toNat < 2 ^ 31

/-- The level holds the quantity in its queue, and twice that in its `total_qty`. -/
structure Rests (c : Correlator) (s : Side) (p : Price) (q : ℕ) : Prop where
  lots : Fifo.total (c.lots s p) = q
  totalQty : (c.totalQty s p).toNat = 2 * q

/-- What an update to a level adds and takes, by the quantity that rests there. -/
structure Responds (u : L2Update) (q : ℕ) (es : List L3Event) : Prop where
  added : addedAt u.side u.price es = if u.action = .delete then 0 else u.newQty.toNat - 2 * q
  reduced : reducedAt u.side u.price es =
    if u.action = .delete then 0 else min (2 * q - u.newQty.toNat) q

@[simp] theorem resting_nil : resting s p [] = 0 := rfl

@[simp] theorem resting_trade (t : Trade) :
    resting s p (calls ++ [.trade t]) = resting s p calls := by
  simp [resting]

/-- What rests after an update of the level, and after any other. -/
@[simp] theorem resting_l2Update (u : L2Update) :
    resting s p (calls ++ [.l2Update u]) =
      if u.side = s ∧ u.price = p then u.reported.toNat - resting s p calls
      else resting s p calls := by
  simp [resting]

/-- Small reports are small without the last one. -/
theorem SmallReports.of_concat {call : Call} (h : SmallReports s p (calls ++ [call])) :
    SmallReports s p calls :=
  fun u hu => h u (List.mem_append_left _ hu)

/-! ## One update -/

/-- A report leaves what it exceeds the resting quantity by. -/
theorem Rests.l2Step {q : ℕ} (h : Rests c u.side u.price q) (hc : Queues c)
    (hstep : L2Step c u c' es) (hsmall : u.reported.toNat < 2 ^ 31) :
    Rests c' u.side u.price (u.reported.toNat - q) := by
  have htotal := h.totalQty
  cases hstep with
  | deleted ha _ _ hl =>
    rw [reported_of_delete u ha, UInt32.toNat_zero, Nat.zero_sub]
    exact ⟨by rw [lots_of_deleted hl]; rfl, by rw [totalQty_eq, hl]; rfl⟩
  | added ha hlt _ _ hl =>
    rw [reported_of_ne u ha] at hsmall ⊢
    have hraised := UInt32.lt_iff_toNat_lt.1 hlt
    have hdelta : (u.newQty - c.totalQty u.side u.price).toNat = u.newQty.toNat - 2 * q := by
      rw [UInt32.toNat_sub_of_le _ _ (UInt32.le_of_lt hlt), htotal]
    refine ⟨?_, ?_⟩
    · rw [lots_of_added hl, Fifo.total_append, h.lots, hdelta]
      simp
      omega
    · rw [totalQty_eq, hl, UInt32.toNat_add, hdelta]
      omega
  | kept ha hsame _ _ hl =>
    rw [reported_of_ne u ha, hsame, htotal]
    refine ⟨?_, ?_⟩
    · rw [lots_of_kept hl, h.lots]
      omega
    · rw [totalQty_eq, hl, ← totalQty_eq, htotal]
      omega
  | reduced _ _ hr =>
    have hlow := UInt32.lt_iff_toNat_lt.1 hr.lowered
    rw [reported_of_ne u hr.action] at hsmall ⊢
    have hd : c.decrease u = 2 * q - u.newQty.toNat := by
      rw [decrease, reported_of_ne u hr.action, htotal]
    have hnil := (hc.pos u.side u.price).drop_eq_nil (c.decrease u)
    rw [h.lots, hd] at hnil
    refine ⟨?_, ?_⟩
    · rw [hr.lots, Fifo.total_drop, h.lots, hd]
      omega
    · rw [hr.totalQty, hd]
      split <;> rename_i hdrop
      · have hle := hnil.1 hdrop
        rw [UInt32.toNat_zero]
        omega
      · have hlt := mt hnil.2 hdrop
        have hsub := UInt32.toNat_sub_of_le _ _ (UInt32.le_of_lt hr.lowered)
        have hle : c.totalQty u.side u.price - u.newQty ≤ u.newQty := by
          rw [UInt32.le_iff_toNat_le, hsub, htotal]
          omega
        rw [UInt32.toNat_sub_of_le _ _ hle, hsub, htotal]
        omega

/-- What an update emits for its level. -/
theorem Rests.responds {q : ℕ} (h : Rests c u.side u.price q) (hstep : L2Step c u c' es) :
    Responds u q es := by
  have htotal := h.totalQty
  cases hstep with
  | deleted ha => exact ⟨by rw [if_pos ha]; rfl, by rw [if_pos ha]; rfl⟩
  | added ha hlt =>
    have hraised := UInt32.lt_iff_toNat_lt.1 hlt
    refine ⟨?_, ?_⟩
    · rw [if_neg ha, addedAt_addEvent, UInt32.toNat_sub_of_le _ _ (UInt32.le_of_lt hlt), htotal]
    · rw [if_neg ha, reducedAt_addEvent]
      omega
  | kept ha hsame =>
    rw [← hsame] at htotal
    refine ⟨?_, ?_⟩
    · rw [if_neg ha, addedAt, qtyOf_nil]
      omega
    · rw [if_neg ha, reducedAt, qtyOf_nil]
      omega
  | reduced _ _ hr =>
    have hlow := UInt32.lt_iff_toNat_lt.1 hr.lowered
    refine ⟨?_, ?_⟩
    · rw [if_neg hr.action, hr.addedAt_eq_zero]
      omega
    · rw [if_neg hr.action, hr.reducedAt_eq, h.lots, decrease, reported_of_ne u hr.action, htotal]

/-- An update emits nothing iff its report is twice what rests. -/
theorem Rests.emits_nothing_iff {q : ℕ} (h : Rests c u.side u.price q) (hstep : L2Step c u c' es)
    (ha : u.action ≠ .delete) : es = [] ↔ 2 * q = u.newQty.toNat := by
  have hresponds := h.responds hstep
  have hadded := hresponds.added
  have hreduced := hresponds.reduced
  have htotal := h.totalQty
  rw [if_neg ha] at hadded hreduced
  refine ⟨?_, ?_⟩
  · rintro rfl
    rw [addedAt, qtyOf_nil] at hadded
    rw [reducedAt, qtyOf_nil] at hreduced
    omega
  · intro heq
    rw [heq] at htotal
    cases hstep with
    | deleted | kept => rfl
    | added _ hlt =>
      have hraised := UInt32.lt_iff_toNat_lt.1 hlt
      omega
    | reduced _ _ hr =>
      have hlow := UInt32.lt_iff_toNat_lt.1 hr.lowered
      omega

/-! ## Runs -/

/-- In every run with small reports each level rests as the law says. -/
theorem rests_run (h : SmallReports s p calls) :
    Rests (engine.state calls) s p (resting s p calls) := by
  induction calls using run_induction with
  | nil => exact ⟨congrArg Fifo.total (lots_init s p), congrArg UInt32.toNat (totalQty_init s p)⟩
  | trade calls t ih =>
    rw [state_trade, resting_trade]
    exact ⟨(ih h.of_concat).lots, (ih h.of_concat).totalQty⟩
  | l2Update calls u ih =>
    have hrests := ih h.of_concat
    have hstep := (engine.state calls).onL2Update_step u
    rw [state_l2Update, resting_l2Update]
    rcases Decidable.em (u.side = s ∧ u.price = p) with ⟨rfl, rfl⟩ | hsp
    · rw [if_pos ⟨rfl, rfl⟩]
      exact hrests.l2Step (queues_state calls) hstep
        (h u (List.mem_append_right _ (List.mem_singleton_self _)) rfl rfl)
    · have hps : ¬ (s = u.side ∧ p = u.price) := fun h => hsp ⟨h.1.symm, h.2.symm⟩
      rw [if_neg hsp]
      exact ⟨(congrArg Fifo.total (hstep.frame.lots hps)).trans hrests.lots,
        (congrArg UInt32.toNat (hstep.frame.totalQty hps)).trans hrests.totalQty⟩

/-- **The law of a level.** At every point of a run whose reports are below 2^31, the level holds
what its reports leave resting and counts it twice, and the next report for it adds what it exceeds
that double count by, or takes what it falls short of it by, as far as the queue goes. -/
theorem restingLaw (s : Side) (p : Price) (calls : List Call) (h : SmallReports s p calls) :
    ∀ pre, pre <+: calls → Rests (engine.state pre) s p (resting s p pre) ∧
      ∀ u, u.side = s → u.price = p →
        Responds u (resting s p pre) (emittedBy pre (.l2Update u)) := by
  rintro pre ⟨post, rfl⟩
  have hrests : Rests (engine.state pre) s p (resting s p pre) :=
    rests_run fun u hu => h u (List.mem_append_left _ hu)
  refine ⟨hrests, ?_⟩
  rintro u rfl rfl
  rw [emittedBy_l2Update]
  exact hrests.responds ((engine.state pre).onL2Update_step u)

/-- A level with one order, which a smaller report empties. -/
theorem restingLaw_example :
    let calls : List Call := [.l2Update ⟨1, .new, 1000, 10, .bid, 0⟩,
      .l2Update ⟨2, .change, 1000, 7, .bid, 0⟩]
    ∀ pre, pre <+: calls → Rests (engine.state pre) .bid 1000 (resting .bid 1000 pre) ∧
      ∀ u, u.side = .bid → u.price = 1000 →
        Responds u (resting .bid 1000 pre) (emittedBy pre (.l2Update u)) :=
  restingLaw .bid 1000 [.l2Update ⟨1, .new, 1000, 10, .bid, 0⟩,
    .l2Update ⟨2, .change, 1000, 7, .bid, 0⟩] fun u hu _ _ => by
      rcases List.mem_pair.1 hu with heq | heq <;> obtain rfl := Call.l2Update.inj heq <;> decide

/-! ## Repeated reports -/

/-- Repetitions of a report leave it twice what rests iff it was. -/
theorem resting_replicate (n : ℕ) (hside : u.side = s) (hprice : u.price = p)
    (hq : 0 < u.reported.toNat) :
    2 * resting s p (calls ++ List.replicate n (.l2Update u)) = u.reported.toNat ↔
      2 * resting s p calls = u.reported.toNat := by
  induction n with
  | zero => rw [List.replicate_zero, List.append_nil]
  | succ n ih =>
    rw [List.replicate_succ', ← List.append_assoc, resting_l2Update, if_pos ⟨hside, hprice⟩, ← ih]
    omega

/-- **Repeating a report settles nothing.** However often the feed repeats a positive report below
2^31, every repetition emits an event, unless the report was twice what rested when it first came:
then none does. -/
theorem repeats_settle_iff (calls : List Call) (u : L2Update)
    (hsmall : SmallReports u.side u.price (calls ++ [.l2Update u])) (ha : u.action ≠ .delete)
    (hq : 0 < u.newQty) (n : ℕ) :
    emittedBy (calls ++ List.replicate n (.l2Update u)) (.l2Update u) = [] ↔
      2 * resting u.side u.price calls = u.newQty.toNat := by
  have hpre : SmallReports u.side u.price (calls ++ List.replicate n (.l2Update u)) := by
    intro v hv
    refine hsmall v ?_
    rcases List.mem_append.1 hv with hv | hv
    · exact List.mem_append_left _ hv
    · exact List.mem_append_right _ (List.mem_singleton.2 (List.eq_of_mem_replicate hv))
  have hrepeat := @resting_replicate u.side u.price u calls n rfl rfl
  rw [reported_of_ne u ha] at hrepeat
  rw [emittedBy_l2Update, ← hrepeat (qty_pos_iff.1 hq)]
  exact (rests_run hpre).emits_nothing_iff ((engine.state _).onL2Update_step u) ha

/-- Ten are reported again and again. -/
theorem repeats_settle_example :
    emittedBy (List.replicate 4 (.l2Update ⟨1, .new, 1000, 10, .bid, 0⟩))
        (.l2Update ⟨1, .new, 1000, 10, .bid, 0⟩) = [] ↔
      2 * resting .bid 1000 [] = (10 : Qty).toNat :=
  repeats_settle_iff [] ⟨1, .new, 1000, 10, .bid, 0⟩
    (fun u hu _ _ => by
      obtain rfl := Call.l2Update.inj (List.mem_singleton.1 hu)
      decide) (by decide) (by decide) 4

end MarketDataEngine
