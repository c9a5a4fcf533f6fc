import Mathlib.Data.Nat.Notation

/-!
# The engine's data types

`include/types.hpp`: prices, quantities, identifiers and timestamps are fixed-width unsigned
integers, and an `L3Event` is what the engine emits downstream.
-/

namespace MarketDataEngine

/-- A price in tenths of the quoted unit. -/
abbrev Price := UInt64

/-- A quantity. -/
abbrev Qty := UInt32

/-- The id of a synthetic order. -/
abbrev OrderId := UInt64

/-- A time of the exchange. -/
abbrev Timestamp := UInt64

/-- A side of the market. -/
inductive Side
  | bid
  | ask
  deriving DecidableEq, Repr

/-- What an L2 update does to its level. -/
inductive L2Action
  | new
  | change
  | delete
  deriving DecidableEq, Repr

/-- What becomes of an order. -/
inductive L3EventType
  | orderAdd
  | orderCancel
  | orderFill
  deriving DecidableEq, Repr

/-- One event of the synthetic order flow. -/
structure L3Event where
  type : L3EventType
  side : Side
  orderId : OrderId
  price : Price
  qty : Qty
  exchangeTs : Timestamp
  recvTsNs : UInt64
  tradeId : UInt64
  deriving DecidableEq, Repr

/-! ## Quantities as numbers -/

/-- A quantity is positive iff its number is. -/
theorem qty_pos_iff {q : Qty} : 0 < q ↔ 0 < q.toNat := by
  simp [UInt32.lt_iff_toNat_lt]

/-- A quantity that is not positive is zero. -/
theorem qty_eq_zero {q : Qty} (h : ¬ 0 < q) : q = 0 := by
  refine UInt32.toNat_inj.1 ?_
  have := mt qty_pos_iff.2 h
  simp
  omega

/-- What is above something exceeds it by a positive quantity. -/
theorem qty_sub_pos {q r : Qty} (h : r < q) : 0 < q - r := by
  rw [qty_pos_iff, UInt32.toNat_sub_of_le _ _ (UInt32.le_of_lt h)]
  have := UInt32.lt_iff_toNat_lt.1 h
  omega

/-- The smaller of two quantities is the smaller of their numbers. -/
theorem qty_min_toNat (q r : Qty) : (min q r).toNat = min q.toNat r.toNat := by
  show (if q ≤ r then q else r).toNat = _
  split <;> rename_i h <;> rw [UInt32.le_iff_toNat_le] at h <;> omega

end MarketDataEngine
