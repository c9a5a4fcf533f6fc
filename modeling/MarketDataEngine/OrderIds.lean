import Mathlib.Data.List.Perm.Lattice
import MarketDataEngine.Effects

/-!
# The ids of new orders

A shadow book numbers its orders by a counter of its own, from 1. The ids that one side adds are
therefore 1, 2, 3, … (`numbered_state`), and they are distinct as long as the counter does not wrap.
Both books start from 1, so the ids of the whole stream are distinct only when one of the sides adds
nothing (`orderIds_nodup_iff`): the first order of each book has the id 1 (`orderIds_repeat`).
-/

namespace MarketDataEngine

open History Correlator

variable {s : Side} {calls : List Call}

/-- The events of one side, oldest first. -/
def sideStream (s : Side) (calls : List Call) : List L3Event :=
  (emitted calls).filter (·.side = s)

/-- The ids that a stream adds, oldest first. -/
def addedIds (es : List L3Event) : List OrderId :=
  (es.filter (·.type = .orderAdd)).map L3Event.orderId

@[simp] theorem sideStream_nil (s : Side) : sideStream s [] = [] := rfl

/-- A trade adds nothing to the stream of a side. -/
@[simp] theorem sideStream_trade (s : Side) (calls : List Call) (t : Trade) :
    sideStream s (calls ++ [.trade t]) = sideStream s calls := by
  rw [sideStream, emitted_trade, sideStream]

/-- An update's events are all of its side. -/
@[simp] theorem sideStream_l2Update (s : Side) (calls : List Call) (u : L2Update) :
    sideStream s (calls ++ [.l2Update u]) = sideStream s calls ++
      if u.side = s then ((engine.state calls).onL2Update u).2.2 else [] := by
  have hfields := ((engine.state calls).onL2Update_step u).event_fields
  rw [sideStream, emitted_l2Update, List.filter_append, sideStream]
  congr 1
  split
  · rename_i hs
    exact List.filter_eq_self.2 fun e he => by simp [(hfields e he).1, hs]
  · rename_i hs
    exact List.filter_eq_nil_iff.2 fun e he => by simp [(hfields e he).1, hs]

@[simp] theorem addedIds_nil : addedIds [] = [] := rfl

@[simp] theorem addedIds_append (es es' : List L3Event) :
    addedIds (es ++ es') = addedIds es ++ addedIds es' := by
  simp [addedIds]

/-- An add adds its id. -/
theorem mem_addedIds {es : List L3Event} {e : L3Event} (he : e ∈ es) (hty : e.type = .orderAdd) :
    e.orderId ∈ addedIds es :=
  List.mem_map_of_mem (List.mem_filter.2 ⟨he, by simpa using hty⟩)

/-! ## One update -/

section
variable {c c' : Correlator} {u : L2Update} {es : List L3Event}

/-- A decrease adds no id. -/
theorem Reduced.addedIds_eq_nil {fills cancels : List L3Event} (h : Reduced c u c' fills cancels) :
    addedIds (fills ++ cancels) = [] := by
  rw [addedIds, h.no_add, List.map_nil]

/-- An update adds the next id of its side or none, and raises a level above its `total_qty` iff it
adds one. -/
theorem L2Step.addedIds_cases (h : L2Step c u c' es) :
    (addedIds es = [c.nextOrderId u.side] ∧ c'.nextOrderId u.side = c.nextOrderId u.side + 1 ∧
      u.action ≠ .delete ∧ c.totalQty u.side u.price < u.newQty) ∨
    (addedIds es = [] ∧ c'.nextOrderId u.side = c.nextOrderId u.side ∧
      (u.action ≠ .delete → u.newQty ≤ c.totalQty u.side u.price)) := by
  cases h with
  | deleted ha _ hid => exact .inr ⟨rfl, hid, fun hne => absurd ha hne⟩
  | added ha hlt _ hid => exact .inl ⟨rfl, hid, ha, hlt⟩
  | kept _ heq _ hid => exact .inr ⟨rfl, hid, fun _ => heq ▸ UInt32.le_refl _⟩
  | reduced _ _ hr =>
    exact .inr ⟨hr.addedIds_eq_nil, hr.nextOrderId, fun _ => UInt32.le_of_lt hr.lowered⟩

end

/-! ## The counter of a side -/

/-- The ids that the counter of a side gives out first. -/
def firstIds (k : ℕ) : List OrderId := (List.range k).map fun i => .ofNat (i + 1)

/-- A side has given out the first ids, and its counter stands at the one after them. -/
structure Numbered (c : Correlator) (s : Side) (ids : List OrderId) : Prop where
  ids_eq : ids = firstIds ids.length
  nextOrderId : c.nextOrderId s = .ofNat (ids.length + 1)

/-- The next id of a counter. -/
theorem firstIds_succ (k : ℕ) : firstIds (k + 1) = firstIds k ++ [.ofNat (k + 1)] := by
  simp [firstIds, List.range_succ]

/-- An update keeps the numbering of both sides. -/
theorem Numbered.l2Step {c c' : Correlator} {u : L2Update} {es : List L3Event}
    {ids : List OrderId} (hn : Numbered c s ids) (h : L2Step c u c' es) :
    Numbered c' s (ids ++ if u.side = s then addedIds es else []) := by
  split
  · rename_i hs
    subst hs
    rcases h.addedIds_cases with ⟨hadd, hid, -⟩ | ⟨hadd, hid, -⟩
    · rw [hadd]
      refine ⟨?_, ?_⟩
      · rw [List.length_append, List.length_singleton, firstIds_succ, ← hn.ids_eq, hn.nextOrderId]
      · rw [hid, hn.nextOrderId, List.length_append, List.length_singleton,
          UInt64.ofNat_add (_ + 1) 1]
        rfl
    · rw [hadd, List.append_nil]
      exact ⟨hn.ids_eq, hid.trans hn.nextOrderId⟩
  · rename_i hs
    rw [List.append_nil]
    exact ⟨hn.ids_eq, (h.frame.nextOrderId s (Ne.symm hs)).trans hn.nextOrderId⟩

/-- **A side numbers its orders 1, 2, 3, ….** In every state of every run. -/
theorem numbered_state (s : Side) (calls : List Call) :
    Numbered (engine.state calls) s (addedIds (sideStream s calls)) := by
  induction calls using run_induction with
  | nil => exact ⟨rfl, by cases s <;> rfl⟩
  | trade calls t ih => simpa using ⟨ih.ids_eq, ih.nextOrderId⟩
  | l2Update calls u ih =>
    have h := ih.l2Step ((engine.state calls).onL2Update_step u)
    rw [state_l2Update, sideStream_l2Update, addedIds_append]
    split at h
    · rwa [if_pos (by assumption)]
    · rwa [if_neg (by assumption)]

/-- The first ids are 1, 2, 3, … below the wrap. -/
theorem firstIds_toNat {k : ℕ} (hk : k < 2 ^ 64) :
    (firstIds k).map UInt64.toNat = (List.range k).map (· + 1) := by
  rw [firstIds, List.map_map]
  refine List.map_congr_left ?_
  intro i hi
  have := List.mem_range.1 hi
  simp only [Function.comp_apply, UInt64.toNat_ofNat']
  omega

/-- Below the wrap of the counter its ids go up. -/
theorem firstIds_sorted {k : ℕ} (hk : k < 2 ^ 64) : (firstIds k).Pairwise (· < ·) := by
  have h : ((firstIds k).map UInt64.toNat).Pairwise (· < ·) := by
    rw [firstIds_toNat hk, List.pairwise_map]
    exact List.pairwise_lt_range.imp fun hij => Nat.add_lt_add_right hij 1
  exact (List.pairwise_map.1 h).imp UInt64.lt_iff_toNat_lt.2

/-- Below the wrap of the counter its ids are distinct. -/
theorem firstIds_nodup {k : ℕ} (hk : k < 2 ^ 64) : (firstIds k).Nodup :=
  (firstIds_sorted hk).imp fun hab => UInt64.ne_of_lt hab

/-- The ids of a side go up. -/
theorem Numbered.sorted {c : Correlator} {ids : List OrderId} (h : Numbered c s ids)
    (hlt : ids.length < 2 ^ 64) : ids.Pairwise (· < ·) :=
  h.ids_eq ▸ firstIds_sorted hlt

/-- The ids of a side are distinct. -/
theorem Numbered.nodup {c : Correlator} {ids : List OrderId} (h : Numbered c s ids)
    (hlt : ids.length < 2 ^ 64) : ids.Nodup :=
  h.ids_eq ▸ firstIds_nodup hlt

/-- Every counter that has given out an id has given out 1. -/
theorem one_mem_firstIds {k : ℕ} (hk : k ≠ 0) : 1 ∈ firstIds k :=
  List.mem_map.2 ⟨0, List.mem_range.2 (Nat.pos_of_ne_zero hk), rfl⟩

/-- The ids of two counters are distinct iff one of them has given out none. -/
theorem firstIds_append_nodup {k m : ℕ} (hk : k < 2 ^ 64) (hm : m < 2 ^ 64) :
    (firstIds k ++ firstIds m).Nodup ↔ k = 0 ∨ m = 0 := by
  refine ⟨?_, ?_⟩
  · intro h
    by_contra hne
    rw [not_or] at hne
    exact (List.nodup_append.1 h).2.2 1 (one_mem_firstIds hne.1) 1 (one_mem_firstIds hne.2) rfl
  · rintro (rfl | rfl)
    · exact firstIds_nodup hm
    · exact (List.append_nil (firstIds k)).symm ▸ firstIds_nodup hk

/-! ## The ids of both sides -/

/-- Some `New` or `Change` reports a quantity on the side. -/
def Raises (s : Side) (calls : List Call) : Prop :=
  ∃ u, .l2Update u ∈ calls ∧ u.side = s ∧ u.action ≠ .delete ∧ 0 < u.newQty

@[simp] theorem raises_trade (t : Trade) : Raises s (calls ++ [.trade t]) ↔ Raises s calls := by
  simp [Raises]

/-- An update raises its side if it reports a quantity on it. -/
@[simp] theorem raises_l2Update (u : L2Update) : Raises s (calls ++ [.l2Update u]) ↔
    Raises s calls ∨ (u.side = s ∧ u.action ≠ .delete ∧ 0 < u.newQty) := by
  simp only [Raises, List.mem_append, List.mem_singleton, Call.l2Update.injEq]
  refine ⟨?_, ?_⟩
  · rintro ⟨u', hm | rfl, h⟩
    · exact .inl ⟨u', hm, h⟩
    · exact .inr h
  · rintro (⟨u', hm, h⟩ | h)
    · exact ⟨u', .inl hm, h⟩
    · exact ⟨u, .inr rfl, h⟩

/-- An update that adds nothing leaves an empty level empty. -/
theorem L2Step.totalQty_eq_zero {c c' : Correlator} {u : L2Update} {es : List L3Event}
    (h : L2Step c u c' es) (hadd : addedIds es = []) (hz : c.totalQty u.side u.price = 0) :
    c'.totalQty u.side u.price = 0 := by
  cases h with
  | deleted _ _ _ hl => rw [totalQty_eq, hl]
  | added => simp [addedIds, addEvent] at hadd
  | kept _ _ _ _ hl => rw [totalQty_eq, hl, ← totalQty_eq, hz]
  | reduced _ _ hr =>
    have hlt := UInt32.lt_iff_toNat_lt.1 hr.lowered
    rw [hz] at hlt
    exact absurd hlt (Nat.not_lt_zero _)

/-- A side that has added no order has no quantity at any level. -/
theorem totalQty_of_no_order (h : addedIds (sideStream s calls) = []) (p : Price) :
    (engine.state calls).totalQty s p = 0 := by
  induction calls using run_induction with
  | nil => exact totalQty_init s p
  | trade calls t ih =>
    rw [state_trade]
    exact ih (by rwa [sideStream_trade] at h)
  | l2Update calls u ih =>
    have hstep := (engine.state calls).onL2Update_step u
    rw [sideStream_l2Update, addedIds_append, List.append_eq_nil_iff] at h
    rw [state_l2Update]
    rcases Decidable.em (s = u.side ∧ p = u.price) with ⟨rfl, rfl⟩ | hsp
    · rw [if_pos rfl] at h
      exact hstep.totalQty_eq_zero h.2 (ih h.1)
    · rw [hstep.frame.totalQty hsp]
      exact ih h.1

/-- A side adds an order as soon as a quantity is reported on it. -/
theorem addedIds_eq_nil_iff : addedIds (sideStream s calls) = [] ↔ ¬ Raises s calls := by
  induction calls using run_induction with
  | nil => simp [Raises]
  | trade calls t ih => rw [sideStream_trade, raises_trade, ih]
  | l2Update calls u ih =>
    rw [sideStream_l2Update, addedIds_append, List.append_eq_nil_iff, raises_l2Update, not_or,
      ← ih]
    refine and_congr_right ?_
    intro hnil
    split
    · rename_i hs
      subst hs
      have hzero := totalQty_of_no_order hnil u.price
      rcases ((engine.state calls).onL2Update_step u).addedIds_cases with
        ⟨hadd, -, ha, hlt⟩ | ⟨hadd, -, hle⟩
      · rw [hzero] at hlt
        simp [hadd, ha, hlt]
      · rw [hzero] at hle
        simp only [hadd, true_iff, not_and]
        exact fun _ ha => UInt32.not_lt.2 (hle ha)
    · rename_i hs
      simp [hs]

/-- The ids of the stream are those of its two sides. -/
theorem addedIds_perm (calls : List Call) : (addedIds (emitted calls)).Perm
    (addedIds (sideStream .bid calls) ++ addedIds (sideStream .ask calls)) := by
  have hask : sideStream .ask calls = (emitted calls).filter fun e => !decide (e.side = .bid) := by
    refine List.filter_congr ?_
    intro e _
    cases e.side <;> rfl
  rw [← addedIds_append, hask]
  exact ((List.filter_append_perm (fun e : L3Event => e.side = .bid) _).symm.filter _).map _

/-- **When order ids are unique.** Below the wrap of the counters no two orders of the stream have
one id iff at most one side is ever reported with a quantity. -/
theorem orderIds_nodup_iff (calls : List Call) (hlt : (addedIds (emitted calls)).length < 2 ^ 64) :
    (addedIds (emitted calls)).Nodup ↔ ¬ (Raises .bid calls ∧ Raises .ask calls) := by
  have hperm := addedIds_perm calls
  have hlen := hperm.length_eq
  rw [List.length_append] at hlen
  rw [hperm.nodup_iff, (numbered_state .bid calls).ids_eq, (numbered_state .ask calls).ids_eq,
    firstIds_append_nodup (by omega) (by omega), List.length_eq_zero_iff, List.length_eq_zero_iff,
    addedIds_eq_nil_iff, addedIds_eq_nil_iff, not_and_or]

/-- Both sides are updated and only bids are reported with a quantity, so the ids of the three adds
are distinct; another ask order repeats the first of them. -/
theorem orderIds_nodup_example :
    let calls : List Call := [.l2Update ⟨1, .new, 1000, 10, .bid, 0⟩,
      .l2Update ⟨1, .delete, 1002, 0, .ask, 0⟩, .l2Update ⟨1, .new, 999, 5, .bid, 0⟩,
      .trade ⟨2, 1000, 4, .bid, 7⟩, .l2Update ⟨2, .change, 1000, 15, .bid, 0⟩,
      .l2Update ⟨2, .change, 1001, 0, .ask, 0⟩, .l2Update ⟨3, .change, 999, 30, .bid, 0⟩]
    let raised := calls ++ [.l2Update ⟨3, .new, 1001, 10, .ask, 0⟩]
    addedIds (emitted calls) = [1, 2, 3] ∧ (addedIds (emitted calls)).Nodup ∧
      addedIds (emitted raised) = [1, 2, 3, 1] ∧ ¬ (addedIds (emitted raised)).Nodup := by
  intro calls raised
  refine ⟨by decide +kernel, (orderIds_nodup_iff calls (by decide +kernel)).2 ?_,
    by decide +kernel, fun h => (orderIds_nodup_iff raised (by decide +kernel)).1 h ?_⟩
  · simp [Raises, calls, or_and_right, exists_or]
  · simp [Raises, raised, calls, or_and_right, exists_or]

/-- The first orders of the two books have the same id. -/
theorem orderIds_repeat : ¬ ∀ calls, (addedIds (emitted calls)).length < 2 ^ 64 →
    (addedIds (emitted calls)).Nodup := by
  intro h
  have hnd := h [.l2Update ⟨1, .new, 1000, 10, .bid, 0⟩, .l2Update ⟨1, .new, 1001, 10, .ask, 0⟩]
    (by decide +kernel)
  revert hnd
  decide +kernel

end MarketDataEngine
