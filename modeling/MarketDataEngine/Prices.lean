import Mathlib.Data.Rat.Floor
import MarketDataEngine.Lib.Rounding
import MarketDataEngine.Lib.Json.Decimal
import MarketDataEngine.OnMessage

/-!
# Prices and quantities of literals

`to_price` multiplies a double by ten and casts it (`include/utils/market_data_handler.hpp`), so a
price is a number of tenths; a quantity is a double that is cast. `Doubles.binary64` is the
arithmetic of IEEE doubles: `get_double` and the product round to the nearest of them, and a cast
drops the fraction. What a cast of a double that is out of range gives is a parameter, as the
language leaves it undefined.

The price of a decimal number that is not negative and has few enough digits is then the number of
whole tenths in it (`toPrice_floor`): it is exact to the tenth, and the further digits are dropped,
neither rounded nor off by one.
-/

namespace MarketDataEngine

open Json Rounding

/-- The double that is nearest to a number. -/
def toDouble (x : ℚ) : ℚ := fround 53 (-1074) x

/-- A cast to an unsigned integer below the bound, where that is defined. -/
def truncate? (bound : ℕ) (x : ℚ) : Option ℕ :=
  if -1 < x ∧ x < bound then some ⌊x⌋.toNat else none

/-- What the casts of doubles that are out of range give. -/
structure UndefinedCasts where
  price : ℚ → Price
  qty : ℚ → Qty

/-- A double is the number that it stands for; the sign of zero has no part in what is computed. -/
def Doubles.binary64 (undefined : UndefinedCasts) : Doubles where
  Double := ℚ
  ofLiteral lit := (decimal? lit).bind fun x =>
    if |toDouble x| < 2 ^ 1024 then some (toDouble x) else none
  toPrice d := ((truncate? (2 ^ 64) (toDouble (d * 10))).map .ofNat).getD (undefined.price d)
  toQty d := ((truncate? (2 ^ 32) d).map .ofNat).getD (undefined.qty d)

variable {undefined : UndefinedCasts} {lit : List Char} {N d : ℕ}

/-- A number whose whole part is in range is cast to it. -/
theorem truncate?_of_floor {bound n : ℕ} {x : ℚ} (h : ⌊x⌋ = n) (hn : n < bound) :
    truncate? bound x = some n := by
  obtain ⟨hle, hlt⟩ := Int.floor_eq_iff.1 h
  have hnat : (0 : ℚ) ≤ n := Nat.cast_nonneg n
  have hbound : (n : ℚ) + 1 ≤ bound := by exact_mod_cast hn
  push_cast at hle hlt
  rw [truncate?, if_pos ⟨by linarith, by linarith⟩, h, Int.toNat_natCast]

/-- A fraction with a small numerator is read as the double next to it. -/
theorem ofLiteral_binary64 (hlit : decimal? lit = some (N / d : ℚ)) (hd : 0 < d) (hN : N < 2 ^ 52) :
    (Doubles.binary64 undefined).ofLiteral lit = some (toDouble (N / d)) := by
  have hfloor : ⌊toDouble (N / d : ℚ)⌋ = (N / d : ℕ) :=
    floor_fround_div (by decide) (by decide) hd hN
  have hsmall : N / d < 2 ^ 52 := (Nat.div_le_self N d).trans_lt hN
  have hcast : ((N / d : ℕ) : ℚ) + 1 ≤ 2 ^ 52 := by exact_mod_cast hsmall
  have hnonneg : 0 ≤ toDouble (N / d : ℚ) := fround_nonneg (by positivity)
  have hlt := (Int.floor_eq_iff.1 hfloor).2
  have hfinite : |toDouble (N / d : ℚ)| < 2 ^ 1024 := by
    rw [abs_of_nonneg hnonneg]
    rw [Int.cast_natCast] at hlt
    calc toDouble (N / d : ℚ) < 2 ^ 52 := by linarith
      _ ≤ 2 ^ 1024 := pow_le_pow_right₀ one_le_two (by decide)
  show (decimal? lit).bind _ = _
  rw [hlit, Option.bind_some, if_pos hfinite]

/-- The product with ten is rounded once more, and has the tenths of the number that was read. -/
theorem toPrice_toDouble (hd : 0 < d) (hN : N < 2 ^ 51) :
    (Doubles.binary64 undefined).toPrice (toDouble (N / (10 * d : ℕ))) = .ofNat (N / d) := by
  have hfloor : ⌊toDouble (toDouble (N / (10 * d : ℕ) : ℚ) * 10)⌋ = (N / d : ℕ) := by
    rw [mul_comm (toDouble _), Nat.cast_mul, Nat.cast_ofNat]
    exact floor_fround_ten_mul (by decide) (by decide) hd hN
  have hlt : N / d < 2 ^ 64 := (Nat.div_le_self N _).trans_lt (by omega)
  show ((truncate? _ _).map _).getD _ = _
  rw [truncate?_of_floor hfloor hlt]
  rfl

/-- The quantity of the double of a fraction is its whole part. -/
theorem toQty_toDouble (hd : 0 < d) (hN : N < 2 ^ 52) (hlt : N / d < 2 ^ 32) :
    (Doubles.binary64 undefined).toQty (toDouble (N / d)) = .ofNat (N / d) := by
  have hfloor : ⌊toDouble (N / d : ℚ)⌋ = (N / d : ℕ) :=
    floor_fround_div (by decide) (by decide) hd hN
  show ((truncate? _ _).map _).getD _ = _
  rw [truncate?_of_floor hfloor hlt]
  rfl

/-- **A price is a number of whole tenths.** A literal that stands for `N / 10 ^ (k + 1)`, however it
is spelled, has the price `N / 10 ^ k` of the whole tenths in it, if `N` is below 2^51. -/
theorem toPrice_floor (undefined : UndefinedCasts) (lit : List Char) (N k : ℕ)
    (hlit : decimal? lit = some (N / 10 ^ (k + 1) : ℚ)) (hN : N < 2 ^ 51) :
    ∃ x, (Doubles.binary64 undefined).ofLiteral lit = some x ∧
      (Doubles.binary64 undefined).toPrice x = .ofNat (N / 10 ^ k) := by
  have hlit' : decimal? lit = some (N / (10 * 10 ^ k : ℕ) : ℚ) := by
    rw [hlit, pow_succ']
    push_cast
    rfl
  exact ⟨toDouble _, ofLiteral_binary64 hlit' (by positivity) (by omega),
    toPrice_toDouble (Nat.pow_pos (by decide)) hN⟩

/-- The price 1234.57 has 12345 whole tenths. -/
theorem toPrice_floor_example :
    ∃ x, (Doubles.binary64 ⟨fun _ => 0, fun _ => 0⟩).ofLiteral "1234.57".toList = some x ∧
      (Doubles.binary64 ⟨fun _ => 0, fun _ => 0⟩).toPrice x = .ofNat (123457 / 10 ^ 1) := by
  have hlit : "1234.57".toList = fixed 2 123457 := by decide +kernel
  exact toPrice_floor _ _ 123457 1 (hlit ▸ decimal?_fixed (by decide) 123457) (by decide)

end MarketDataEngine
