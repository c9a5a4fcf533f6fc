import Std.Data.ExtTreeMap
import MarketDataEngine.Types
import MarketDataEngine.Lib.MapWeight

/-!
# The trade buffer

`TradeBuffer` holds, for every timestamp and price, the traded quantity that no L2 decrease has
matched yet, under the id of the last trade (`src/utils/trade_buffer.cpp`). `entry` is the view its
callers have of it, and each operation is described by what it does to the entries. No operation
leaves an empty price map behind (`Compact`), so a buffer is known by its entries (`Compact.ext`).
-/

open Std

namespace MarketDataEngine

open History

/-- What is buffered for one timestamp and price. -/
structure TradeEntry where
  qty : Qty
  tradeId : UInt64
  deriving DecidableEq, Repr

/-- A trade that was dropped from the buffer before an L2 update matched it. -/
structure FlushedEntry where
  ts : Timestamp
  price : Price
  qty : Qty
  tradeId : UInt64
  deriving DecidableEq, Repr

/-- The quantity of the entry if it is one of the timestamp and price. -/
def FlushedEntry.qtyAt (ts : Timestamp) (price : Price) (f : FlushedEntry) : ℕ :=
  if f.ts = ts ∧ f.price = price then f.qty.toNat else 0

/-- The order of timestamps, and of prices under a timestamp. -/
def FlushedEntry.Before (f g : FlushedEntry) : Prop :=
  f.ts < g.ts ∨ f.ts = g.ts ∧ f.price < g.price

/-- What an entry becomes when `qty` of it is asked for. -/
def TradeEntry.less (e : TradeEntry) (qty : Qty) : Option TradeEntry :=
  if e.qty ≤ qty then none else some { e with qty := e.qty - qty }

/-- Of an entry of which `qty` is asked for the rest stays. -/
theorem TradeEntry.less_qty (e : Option TradeEntry) (qty : Qty) :
    ((e.bind (less · qty)).map fun e => e.qty.toNat).getD 0 =
      (e.map fun e => e.qty.toNat).getD 0 - qty.toNat := by
  cases e with
  | none => simp
  | some e =>
    simp only [Option.bind_some, less]
    split <;> rename_i h
    · have := UInt32.le_iff_toNat_le.1 h
      simp
      omega
    · have hle := UInt32.le_of_lt (UInt32.not_le.1 h)
      simp [UInt32.toNat_sub_of_le _ _ hle]

/-- The entries by their timestamp and price. -/
structure TradeBuffer where
  buffer : ExtTreeMap Timestamp (ExtTreeMap Price TradeEntry) := ∅

namespace TradeBuffer

/-- Adds a trade to the entry of its timestamp and price, which takes over the trade's id. -/
def add (b : TradeBuffer) (ts : Timestamp) (price : Price) (qty : Qty) (tradeId : UInt64) :
    TradeBuffer :=
  let priceMap := b.buffer.getD ts ∅
  let entry : TradeEntry :=
    match priceMap[price]? with
    | none => { qty := qty, tradeId := tradeId }
    | some entry => { qty := entry.qty + qty, tradeId := tradeId }
  { buffer := b.buffer.insert ts (priceMap.insert price entry) }

/-- Takes up to `qty` of what is buffered for `ts` and `price`: the quantity taken and the id of the
entry. `outTradeId` is what the caller's variable holds before the call. -/
def consume (b : TradeBuffer) (ts : Timestamp) (price : Price) (qty : Qty) (outTradeId : UInt64) :
    TradeBuffer × Qty × UInt64 :=
  match b.buffer[ts]? with
  | none => (b, 0, outTradeId)
  | some priceMap =>
    match priceMap[price]? with
    | none => (b, 0, outTradeId)
    | some entry =>
      let available := min entry.qty qty
      let entry' := { entry with qty := entry.qty - available }
      let priceMap' :=
        if entry'.qty = 0 then priceMap.erase price else priceMap.insert price entry'
      ({ buffer := if priceMap'.isEmpty then b.buffer.erase ts else b.buffer.insert ts priceMap' },
        available, entry.tradeId)

/-- Drops everything strictly before `ts`, and lists it in the order of the maps. -/
def flushBefore (b : TradeBuffer) (ts : Timestamp) : TradeBuffer × List FlushedEntry :=
  ({ buffer := b.buffer.filter fun t _ => ts ≤ t },
    (b.buffer.filter fun t _ => t < ts).toList.flatMap fun (t, priceMap) =>
      priceMap.toList.map fun (price, entry) => ⟨t, price, entry.qty, entry.tradeId⟩)

/-- `empty`: nothing is buffered. -/
def empty (b : TradeBuffer) : Bool := b.buffer.isEmpty

/-! ## The view of a buffer -/

/-- What is buffered for a timestamp and a price. -/
def entry (b : TradeBuffer) (ts : Timestamp) (price : Price) : Option TradeEntry :=
  b.buffer[ts]?.bind (·[price]?)

/-- The quantity buffered for a timestamp and a price. -/
def buffered (b : TradeBuffer) (ts : Timestamp) (price : Price) : ℕ :=
  ((b.entry ts price).map fun e => e.qty.toNat).getD 0

/-- `add` writes one entry: the sum of the quantities, under the new id. -/
theorem add_entry (b : TradeBuffer) (ts : Timestamp) (price : Price) (qty : Qty) (tradeId : UInt64)
    (t : Timestamp) (p : Price) :
    (b.add ts price qty tradeId).entry t p =
      if t = ts ∧ p = price then
        some { qty := ((b.entry ts price).map TradeEntry.qty).getD 0 + qty, tradeId := tradeId }
      else b.entry t p := by
  unfold add entry
  rw [ExtTreeMap.getD_eq_getD_getElem?]
  rcases eq_or_ne t ts with rfl | ht
  · rcases eq_or_ne p price with rfl | hp
    · cases hb : b.buffer[t]? with
      | none => simp
      | some m => cases hm : m[p]? <;> simp [hm]
    · cases hb : b.buffer[t]? <;> simp [hp, Ne.symm hp, ExtTreeMap.getElem?_insert]
  · simp [ht, Ne.symm ht, ExtTreeMap.getElem?_insert]

/-- The quantity `consume` takes: what is asked for, up to what is buffered. -/
theorem consume_available (b : TradeBuffer) (ts : Timestamp) (price : Price) (qty : Qty)
    (out : UInt64) :
    (b.consume ts price qty out).2.1.toNat = min (b.buffered ts price) qty.toNat := by
  unfold consume buffered entry
  cases hb : b.buffer[ts]? with
  | none => simp
  | some m => cases hm : m[price]? <;> simp [hm, qty_min_toNat]

/-- The trade id `consume` hands out: the entry's, if there is one. -/
theorem consume_tradeId (b : TradeBuffer) (ts : Timestamp) (price : Price) (qty : Qty)
    (out : UInt64) :
    (b.consume ts price qty out).2.2 = ((b.entry ts price).map TradeEntry.tradeId).getD out := by
  unfold consume entry
  cases hb : b.buffer[ts]? with
  | none => simp
  | some m => cases hm : m[price]? <;> simp [hm]

/-- The price map `consume` leaves, as entries. -/
theorem consume_priceMap (m : ExtTreeMap Price TradeEntry) (price p : Price) (e : TradeEntry)
    (qty : Qty) :
    (if e.qty - min e.qty qty = 0 then m.erase price
      else m.insert price { e with qty := e.qty - min e.qty qty })[p]? =
      if p = price then e.less qty else m[p]? := by
  by_cases hle : e.qty ≤ qty
  · have hmin : min e.qty qty = e.qty := UInt32.toNat_inj.1 (by
      rw [qty_min_toNat]; exact Nat.min_eq_left (UInt32.le_iff_toNat_le.1 hle))
    simp only [hmin, UInt32.sub_self, if_true, TradeEntry.less, hle]
    by_cases hp : p = price
    · simp [hp]
    · simp [hp, Ne.symm hp, ExtTreeMap.getElem?_erase]
  · have hlt : qty.toNat < e.qty.toNat := by rw [UInt32.le_iff_toNat_le] at hle; omega
    have hmin : min e.qty qty = qty := UInt32.toNat_inj.1 (by
      rw [qty_min_toNat]; exact Nat.min_eq_right hlt.le)
    have hne : e.qty - qty ≠ 0 := fun h => by
      have hz := congrArg UInt32.toNat h
      rw [UInt32.toNat_sub_of_le _ _ (UInt32.le_iff_toNat_le.2 hlt.le)] at hz
      simp at hz
      omega
    simp only [hmin, hne, if_false, TradeEntry.less, hle]
    by_cases hp : p = price
    · simp [hp]
    · simp [hp, Ne.symm hp, ExtTreeMap.getElem?_insert]

/-- `consume` reduces one entry, and drops it when nothing is left. -/
theorem consume_entry (b : TradeBuffer) (ts : Timestamp) (price : Price) (qty : Qty)
    (out : UInt64) (t : Timestamp) (p : Price) :
    (b.consume ts price qty out).1.entry t p =
      if t = ts ∧ p = price then (b.entry ts price).bind (TradeEntry.less · qty)
      else b.entry t p := by
  unfold consume
  cases hb : b.buffer[ts]? with
  | none =>
    by_cases h : t = ts ∧ p = price
    · simp [entry, h, hb]
    · simp [h]
  | some m =>
    cases hm : m[price]? with
    | none =>
      by_cases h : t = ts ∧ p = price
      · simp [entry, h, hb, hm]
      · simp [h, hm]
    | some e =>
      have hpm := consume_priceMap m price p e qty
      simp only [hm, entry, hb, Option.bind_some]
      revert hpm
      generalize (if e.qty - min e.qty qty = 0 then m.erase price
        else m.insert price { e with qty := e.qty - min e.qty qty }) = m'
      intro hpm
      rcases eq_or_ne t ts with rfl | ht
      · by_cases he : m' = ∅
        · subst he
          simpa [hb] using hpm
        · have he' : m'.isEmpty = false := ExtTreeMap.isEmpty_eq_false_iff.2 he
          simp [he', hb, hpm]
      · cases m'.isEmpty <;>
          simp [ht, Ne.symm ht, ExtTreeMap.getElem?_insert, ExtTreeMap.getElem?_erase]

/-- `flushBefore` drops the entries before `ts`. -/
theorem flushBefore_entry (b : TradeBuffer) (ts t : Timestamp) (p : Price) :
    (b.flushBefore ts).1.entry t p = if t < ts then none else b.entry t p := by
  simp only [flushBefore, entry, ExtTreeMap.getElem?_filter']
  by_cases h : t < ts
  · simp [h, not_le_of_gt h]
  · cases hb : b.buffer[t]? <;> simp [h, not_lt.1 h, Option.filter]

/-- `flushBefore` lists the entries before `ts`. -/
theorem mem_flushBefore (b : TradeBuffer) (ts : Timestamp) (f : FlushedEntry) :
    f ∈ (b.flushBefore ts).2 ↔ f.ts < ts ∧ b.entry f.ts f.price = some ⟨f.qty, f.tradeId⟩ := by
  simp only [flushBefore, List.mem_flatMap, List.mem_map, Prod.exists,
    ExtTreeMap.mem_toList_iff_getElem?_eq_some, ExtTreeMap.getElem?_filter',
    Option.filter_eq_some_iff, entry, Option.bind_eq_some_iff]
  refine ⟨?_, ?_⟩
  · rintro ⟨t, m, ⟨hm, hlt⟩, p, e, he, rfl⟩
    exact ⟨of_decide_eq_true hlt, m, hm, he⟩
  · rintro ⟨hlt, m, hm, he⟩
    exact ⟨f.ts, m, ⟨hm, decide_eq_true hlt⟩, f.price, ⟨f.qty, f.tradeId⟩, he, rfl⟩

/-- `flushBefore` lists by timestamp and price, each entry once. -/
theorem flushBefore_pairwise (b : TradeBuffer) (ts : Timestamp) :
    (b.flushBefore ts).2.Pairwise FlushedEntry.Before := by
  rw [flushBefore, List.pairwise_flatMap]
  refine ⟨?_, ?_⟩
  · intro kv _
    rw [List.pairwise_map]
    refine (ExtTreeMap.ordered_keys_toList (t := kv.2)).imp ?_
    intro a b hlt
    exact .inr ⟨rfl, Std.compare_eq_lt.1 hlt⟩
  · refine ExtTreeMap.ordered_keys_toList.imp ?_
    intro a b hlt x hx y hy
    obtain ⟨e, -, rfl⟩ := List.mem_map.1 hx
    obtain ⟨e', -, rfl⟩ := List.mem_map.1 hy
    exact .inl (Std.compare_eq_lt.1 hlt)

/-! ## Quantities -/

/-- `add` adds to what is buffered at one timestamp and price, modulo 2^32. -/
theorem add_buffered (b : TradeBuffer) (ts : Timestamp) (price : Price) (qty : Qty)
    (tradeId : UInt64) (t : Timestamp) (p : Price) :
    (b.add ts price qty tradeId).buffered t p =
      if t = ts ∧ p = price then (b.buffered ts price + qty.toNat) % 2 ^ 32
      else b.buffered t p := by
  rw [buffered, add_entry]
  split
  · rw [buffered]
    cases b.entry ts price with
    | none => simp [Nat.mod_eq_of_lt qty.toNat_lt]
    | some e => simp
  · rw [buffered]

/-- `flushBefore` lists what it drops: before `ts` every entry, from `ts` on none. -/
theorem flushBefore_tally (w : TradeEntry → ℕ) (b : TradeBuffer) (ts t : Timestamp) (p : Price) :
    tally (fun f : FlushedEntry => if f.ts = t ∧ f.price = p then w ⟨f.qty, f.tradeId⟩ else 0)
        (b.flushBefore ts).2 =
      if t < ts then ((b.entry t p).map w).getD 0 else 0 := by
  have hrow : ∀ kv : Timestamp × ExtTreeMap Price TradeEntry,
      tally (fun f : FlushedEntry => if f.ts = t ∧ f.price = p then w ⟨f.qty, f.tradeId⟩ else 0)
          (kv.2.toList.map fun pe => ⟨kv.1, pe.1, pe.2.qty, pe.2.tradeId⟩) =
        if kv.1 = t then ((kv.2[p]?).map w).getD 0 else 0 := by
    intro kv
    rw [tally_map]
    rcases eq_or_ne kv.1 t with ht | ht
    · simp only [ht, true_and, if_true]
      exact tally_toList kv.2 p w
    · simp [ht, tally_eq_zero]
  have hsum := tally_toList (b.buffer.filter fun t _ => t < ts) t
    fun m : ExtTreeMap Price TradeEntry => ((m[p]?).map w).getD 0
  simp only [flushBefore]
  rw [tally_flatMap, tally_congr fun kv _ => hrow kv, hsum, ExtTreeMap.getElem?_filter']
  by_cases h : t < ts
  · cases hb : b.buffer[t]? <;> simp [h, entry, hb, Option.filter]
  · cases hb : b.buffer[t]? <;> simp [h, Option.filter]

/-- The quantities that `flushBefore` lists. -/
theorem flushBefore_flushed (b : TradeBuffer) (ts t : Timestamp) (p : Price) :
    tally (FlushedEntry.qtyAt t p) (b.flushBefore ts).2 = if t < ts then b.buffered t p else 0 :=
  b.flushBefore_tally (fun e => e.qty.toNat) ts t p

/-! ## Buffers without empty price maps -/

/-- No timestamp has an empty price map. -/
def Compact (b : TradeBuffer) : Prop := ∀ (ts : Timestamp) m, b.buffer[ts]? = some m → m ≠ ∅

/-- A new buffer is compact. -/
theorem compact_init : ({} : TradeBuffer).Compact := by
  intro ts m h
  simp at h

/-- `add` keeps the buffer compact. -/
theorem Compact.add {b : TradeBuffer} (h : b.Compact) (ts : Timestamp) (price : Price) (qty : Qty)
    (tradeId : UInt64) : (b.add ts price qty tradeId).Compact := by
  intro t m hm
  simp only [TradeBuffer.add, ExtTreeMap.getElem?_insert] at hm
  split at hm
  · obtain rfl := Option.some.inj hm
    exact ExtTreeMap.insert_ne_empty
  · exact h t m hm

/-- A price map is put back unless it is empty. -/
theorem Compact.put {b : TradeBuffer} (h : b.Compact) (ts : Timestamp)
    (m' : ExtTreeMap Price TradeEntry) :
    Compact { buffer := if m'.isEmpty then b.buffer.erase ts else b.buffer.insert ts m' } := by
  intro t m hm
  dsimp only at hm
  split at hm <;> rename_i hempty
  · rw [ExtTreeMap.getElem?_erase] at hm
    split at hm
    · cases hm
    · exact h t m hm
  · rw [ExtTreeMap.getElem?_insert] at hm
    split at hm
    · obtain rfl := Option.some.inj hm
      exact fun he => hempty (ExtTreeMap.isEmpty_iff.2 he)
    · exact h t m hm

/-- `consume` keeps the buffer compact. -/
theorem Compact.consume {b : TradeBuffer} (h : b.Compact) (ts : Timestamp) (price : Price)
    (qty : Qty) (out : UInt64) : (b.consume ts price qty out).1.Compact := by
  unfold TradeBuffer.consume
  split
  · exact h
  split
  · exact h
  · exact h.put ts _

/-- `flush_before` keeps the buffer compact. -/
theorem Compact.flushBefore {b : TradeBuffer} (h : b.Compact) (ts : Timestamp) :
    (b.flushBefore ts).1.Compact := by
  intro t m hm
  simp only [TradeBuffer.flushBefore, ExtTreeMap.getElem?_filter', Option.filter_eq_some_iff] at hm
  exact h t m hm.1

/-- A timestamp of a compact buffer has an entry. -/
theorem Compact.exists_entry {b : TradeBuffer} (h : b.Compact) {ts : Timestamp}
    {m : ExtTreeMap Price TradeEntry} (hm : b.buffer[ts]? = some m) :
    ∃ p e, b.entry ts p = some e := by
  by_contra hnone
  refine h ts m hm (ExtTreeMap.eq_empty_iff_forall_not_mem.2 ?_)
  intro p hp
  refine hnone ⟨p, m[p], ?_⟩
  rw [entry, hm, Option.bind_some, ExtTreeMap.getElem?_eq_some_getElem hp]

/-- Compact buffers with the same entries are the same. -/
theorem Compact.ext {b b' : TradeBuffer} (h : b.Compact) (h' : b'.Compact)
    (heq : ∀ ts p, b.entry ts p = b'.entry ts p) : b = b' := by
  have hbuffer : b.buffer = b'.buffer := by
    refine ExtTreeMap.ext_getElem? ?_
    intro ts
    have hts := heq ts
    cases hm : b.buffer[ts]? with
    | none =>
      cases hm' : b'.buffer[ts]? with
      | none => rfl
      | some m' =>
        obtain ⟨p, e, he⟩ := h'.exists_entry hm'
        rw [← hts p, entry, hm] at he
        cases he
    | some m =>
      cases hm' : b'.buffer[ts]? with
      | none =>
        obtain ⟨p, e, he⟩ := h.exists_entry hm
        rw [hts p, entry, hm'] at he
        cases he
      | some m' =>
        simp only [entry, hm, hm', Option.bind_some] at hts
        exact congrArg some (ExtTreeMap.ext_getElem? hts)
  cases b
  cases b'
  exact congrArg mk hbuffer

/-- A compact buffer is empty iff nothing is buffered. -/
theorem Compact.empty_iff {b : TradeBuffer} (h : b.Compact) :
    b.empty ↔ ∀ ts p, b.entry ts p = none := by
  unfold empty
  rw [ExtTreeMap.isEmpty_iff]
  refine ⟨?_, ?_⟩
  · intro he ts p
    simp [entry, he]
  · intro hnone
    have hinit : b = {} := h.ext compact_init fun ts p => by rw [hnone ts p]; simp [entry]
    rw [hinit]

end TradeBuffer
end MarketDataEngine
