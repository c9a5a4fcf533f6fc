import Mathlib.Data.Int.Log
import Mathlib.Algebra.Order.Round
import Mathlib.Algebra.Order.Ring.Int
import Mathlib.Data.Nat.Cast.Order.Field
import Mathlib.Tactic.Linarith
import Mathlib.Tactic.FieldSimp
import Mathlib.Tactic.Ring

/-!
# Binary floating point by rounding

A floating-point operation gives the exact result, rounded to the nearest number with `p` binary
digits, and to the one with an even last digit if two are nearest. `fround` is this rounding in any
field with a floor, so a float is an element of the field that is its own rounding, and an operation
on floats is one on the field followed by `fround`. No number is too large; the least exponent of
the last digit is `emin`.

The unit in the last place of `x` is `ulp p emin x`: rounding moves a number by half of it at most
(`abs_fround_sub_le`), and leaves the multiples of it that need no more digits
(`fround_eq_of_near`). So a number divided by ten and multiplied by ten is a whole number again, if
it was one with fewer than `p` digits (`fround_ten_mul_fround_div_ten`), although neither step is
exact.
-/

namespace Rounding

variable {K : Type*} [Field K] [LinearOrder K] [IsStrictOrderedRing K] [FloorRing K]

/-! ## The nearest integer -/

/-- The nearest integer, the even one if two are nearest. -/
def nearestEven (x : K) : ℤ :=
  if x - ⌊x⌋ < 1 / 2 ∨ x - ⌊x⌋ = 1 / 2 ∧ Even ⌊x⌋ then ⌊x⌋ else ⌊x⌋ + 1

/-- The nearest integer is at most one half away. -/
theorem abs_nearestEven_sub_le (x : K) : |(nearestEven x : K) - x| ≤ 1 / 2 := by
  have hlow := Int.floor_le x
  have hhigh := Int.lt_floor_add_one x
  unfold nearestEven
  rw [abs_le]
  split <;> rename_i h
  · have hle : x - ⌊x⌋ ≤ 1 / 2 := h.elim le_of_lt fun h => h.1.le
    constructor <;> linarith
  · have hge : 1 / 2 ≤ x - ⌊x⌋ := not_lt.1 fun hlt => h (.inl hlt)
    push_cast
    constructor <;> linarith

/-- Two integers that are nearest to a number, or as near as one, differ by one at most. -/
theorem nearestEven_eq_of_lt {x : K} {n : ℤ} (h : |x - n| < 1 / 2) : nearestEven x = n := by
  have hle := abs_le.1 (abs_nearestEven_sub_le x)
  obtain ⟨hlow, hhigh⟩ := abs_lt.1 h
  have hlt : |(nearestEven x : K) - n| < 1 := by
    rw [abs_lt]
    constructor <;> linarith [hle.1, hle.2]
  have hint : |nearestEven x - n| < 1 := by exact_mod_cast hlt
  exact sub_eq_zero.1 (Int.abs_lt_one_iff.1 hint)

/-- An even integer that is one half away at most is the nearest one. -/
theorem nearestEven_eq_of_even {x : K} {n : ℤ} (h : |x - n| ≤ 1 / 2) (hn : Even n) :
    nearestEven x = n := by
  rcases h.lt_or_eq with hlt | heq
  · exact nearestEven_eq_of_lt hlt
  rcases eq_or_eq_neg_of_abs_eq heq with hx | hx
  · -- `n` is below
    have hfloor : ⌊x⌋ = n := Int.floor_eq_iff.2 ⟨by linarith, by linarith⟩
    rw [nearestEven, hfloor, if_pos (.inr ⟨hx, hn⟩)]
  · -- `n` is above, and the integer below is odd
    have hfloor : ⌊x⌋ = n - 1 :=
      Int.floor_eq_iff.2 ⟨by push_cast; linarith, by push_cast; linarith⟩
    have hhalf : x - ((n - 1 : ℤ) : K) = 1 / 2 := by
      push_cast
      linarith
    have hodd : ¬ Even (n - 1) := Int.not_even_iff_odd.2 (hn.sub_odd odd_one)
    rw [nearestEven, hfloor, if_neg, sub_add_cancel]
    rintro (h | h)
    · exact absurd h (not_lt.2 hhalf.ge)
    · exact hodd h.2

@[simp] theorem nearestEven_intCast (n : ℤ) : nearestEven (n : K) = n :=
  nearestEven_eq_of_lt (by simp)

@[simp] theorem nearestEven_zero : nearestEven (0 : K) = 0 := by
  simpa using nearestEven_intCast (K := K) 0

/-- The nearest integer is monotone. -/
theorem nearestEven_mono {x y : K} (h : x ≤ y) : nearestEven x ≤ nearestEven y := by
  have hfloor := Int.floor_le_floor h
  rcases hfloor.lt_or_eq with hlt | heq
  · have hx : nearestEven x ≤ ⌊x⌋ + 1 := by
      unfold nearestEven
      split <;> omega
    have hy : ⌊y⌋ ≤ nearestEven y := by
      unfold nearestEven
      split <;> omega
    omega
  · unfold nearestEven
    rw [← heq]
    split <;> rename_i hx <;> split <;> rename_i hy
    · exact le_refl _
    · omega
    · refine absurd ?_ hx
      have hle : x - ⌊x⌋ ≤ y - ⌊x⌋ := sub_le_sub_right h _
      rcases hy with hy | hy
      · exact .inl (hle.trans_lt hy)
      · exact (hy.1 ▸ hle).lt_or_eq.imp_right fun hx => ⟨hx, hy.2⟩
    · exact le_refl _

/-! ## The unit in the last place -/

/-- The exponent of the last of `p` binary digits of a number, `emin` at least. -/
def exponent (p : ℕ) (emin : ℤ) (x : K) : ℤ := max (Int.log 2 |x| + 1 - p) emin

/-- The unit in the last place. -/
def ulp (p : ℕ) (emin : ℤ) (x : K) : K := 2 ^ exponent p emin x

/-- The nearest number with `p` binary digits. -/
def fround (p : ℕ) (emin : ℤ) (x : K) : K := nearestEven (x / ulp p emin x) * ulp p emin x

variable {p : ℕ} {emin : ℤ} {x : K}

/-- A unit is positive. -/
theorem ulp_pos : 0 < ulp p emin x := zpow_pos two_pos _

/-- The unit of a number with a given magnitude. -/
theorem ulp_eq {a : ℤ} (ha : emin ≤ a) (hlow : (2 : K) ^ (a + p - 1) ≤ |x|)
    (hhigh : |x| < 2 ^ (a + p)) : ulp p emin x = 2 ^ a := by
  have hx : 0 < |x| := (zpow_pos two_pos _).trans_le hlow
  have hlog : Int.log 2 |x| = a + p - 1 := by
    refine le_antisymm ?_ ((Int.zpow_le_iff_le_log (by decide) hx).1 (by exact_mod_cast hlow))
    have hlt := (Int.lt_zpow_iff_log_lt (b := 2) (by decide) hx).1 (by exact_mod_cast hhigh)
    omega
  rw [ulp, exponent, hlog, max_eq_left (by omega)]
  congr 1
  omega

/-- A power of two above a number is above its unit in the last place by all its digits. -/
theorem exponent_le {a : ℤ} (ha : emin ≤ a) (hhigh : |x| < 2 ^ (a + p)) (hx : x ≠ 0) :
    exponent p emin x ≤ a := by
  have hlt := (Int.lt_zpow_iff_log_lt (b := 2) (by decide) (abs_pos.2 hx)).1
    (by exact_mod_cast hhigh)
  exact max_le (by omega) ha

/-- The unit in the last place is small beside a number that is not small itself. -/
theorem ulp_le (hx : (2 : K) ^ (emin + p - 1) ≤ |x|) : ulp p emin x * 2 ^ ((p : ℤ) - 1) ≤ |x| := by
  have hpos : 0 < |x| := (zpow_pos two_pos _).trans_le hx
  have hlog : emin + p - 1 ≤ Int.log 2 |x| :=
    (Int.zpow_le_iff_le_log (by decide) hpos).1 (by exact_mod_cast hx)
  have hself := Int.zpow_log_le_self (b := 2) (by decide) hpos
  rw [ulp, exponent, max_eq_left (by omega), ← zpow_add₀ two_pos.ne']
  refine le_trans (le_of_eq ?_) hself
  push_cast
  congr 1
  omega

/-! ## Rounding -/

variable (p emin x) in
/-- Rounding moves a number by half a unit in the last place at most. -/
theorem abs_fround_sub_le : |fround p emin x - x| ≤ ulp p emin x / 2 := by
  have hu : 0 < ulp p emin x := ulp_pos
  have hx : fround p emin x - x =
      ((nearestEven (x / ulp p emin x) : K) - x / ulp p emin x) * ulp p emin x := by
    rw [fround, sub_mul, div_mul_cancel₀ _ hu.ne']
  rw [hx, abs_mul, abs_of_pos hu]
  have hle := mul_le_mul_of_nonneg_right (abs_nearestEven_sub_le (x / ulp p emin x)) hu.le
  linarith

/-- A multiple of the unit in the last place that is nearest, or even and as near as any, is the
rounding. -/
theorem fround_eq_of_near {n : ℤ} (h : |x - n * ulp p emin x| < ulp p emin x / 2 ∨
    |x - n * ulp p emin x| ≤ ulp p emin x / 2 ∧ Even n) :
    fround p emin x = n * ulp p emin x := by
  have hu : 0 < ulp p emin x := ulp_pos
  have hx : |x / ulp p emin x - n| = |x - n * ulp p emin x| / ulp p emin x := by
    rw [← abs_of_pos hu, ← abs_div, abs_of_pos hu, sub_div, mul_div_cancel_right₀ _ hu.ne']
  have hn : nearestEven (x / ulp p emin x) = n := by
    rcases h with h | ⟨h, heven⟩
    · refine nearestEven_eq_of_lt ?_
      rw [hx, div_lt_iff₀ hu]
      linarith
    · refine nearestEven_eq_of_even ?_ heven
      rw [hx, div_le_iff₀ hu]
      linarith
  rw [fround, hn]

/-- Rounding stays on the same side of the multiples of the unit in the last place. -/
theorem le_fround {n : ℤ} (h : n * ulp p emin x ≤ x) : n * ulp p emin x ≤ fround p emin x := by
  have hu : 0 < ulp p emin x := ulp_pos
  have hle := nearestEven_mono ((le_div_iff₀ hu).2 h)
  rw [nearestEven_intCast] at hle
  exact mul_le_mul_of_nonneg_right (by exact_mod_cast hle) hu.le

/-- Rounding does not pass a multiple of the unit that is above. -/
theorem fround_le {n : ℤ} (h : x ≤ n * ulp p emin x) : fround p emin x ≤ n * ulp p emin x := by
  have hu : 0 < ulp p emin x := ulp_pos
  have hle := nearestEven_mono ((div_le_iff₀ hu).2 h)
  rw [nearestEven_intCast] at hle
  exact mul_le_mul_of_nonneg_right (by exact_mod_cast hle) hu.le

@[simp] theorem fround_zero : fround p emin (0 : K) = 0 := by simp [fround]

/-- What is not negative is rounded to what is not negative. -/
theorem fround_nonneg (hx : 0 ≤ x) : 0 ≤ fround p emin x := by
  have hzero : ((0 : ℤ) : K) * ulp p emin x = 0 := by simp
  exact hzero.symm.le.trans (le_fround (hzero.le.trans hx))

/-- A power of two that is not below the unit in the last place is a multiple of it. -/
theorem zpow_eq_mul_ulp {a : ℤ} (ha : exponent p emin x ≤ a) :
    (2 : K) ^ a = ((2 ^ (a - exponent p emin x).toNat : ℤ) : K) * ulp p emin x := by
  have hsub : ((a - exponent p emin x).toNat : ℤ) = a - exponent p emin x :=
    Int.toNat_of_nonneg (sub_nonneg.2 ha)
  push_cast
  rw [ulp, ← zpow_natCast (2 : K), ← zpow_add₀ two_pos.ne', hsub, sub_add_cancel]

/-- A multiple of a power of two with no more than `p` digits needs no rounding. -/
theorem fround_eq_self {n a : ℤ} (ha : emin ≤ a) (hx : x = n * 2 ^ a) (hn : |n| < 2 ^ p) :
    fround p emin x = x := by
  rcases eq_or_ne x 0 with rfl | hne
  · exact fround_zero
  have hhigh : |x| < 2 ^ (a + p) := by
    have hcast : |(n : K)| < 2 ^ p := by exact_mod_cast hn
    have hpow : (0 : K) < 2 ^ a := zpow_pos two_pos a
    rw [hx, abs_mul, abs_of_pos hpow, add_comm, zpow_add₀ two_pos.ne', zpow_natCast]
    exact mul_lt_mul_of_pos_right hcast hpow
  obtain ⟨k, hk⟩ : ∃ k : ℤ, x = k * ulp p emin x := by
    have hmul := zpow_eq_mul_ulp (K := K) (exponent_le ha hhigh hne)
    refine ⟨n * 2 ^ (a - exponent p emin x).toNat, ?_⟩
    rw [Int.cast_mul, mul_assoc, ← hmul, ← hx]
  exact le_antisymm ((fround_le hk.le).trans hk.ge) (hk.le.trans (le_fround hk.ge))

variable (emin) in
/-- Rounding keeps the order. -/
theorem fround_mono {y : K} (hp : 0 < p) (hx : 0 ≤ x) (h : x ≤ y) :
    fround p emin x ≤ fround p emin y := by
  rcases hx.eq_or_lt with rfl | hx
  · rw [fround_zero]
    exact fround_nonneg h
  have hy : 0 < y := hx.trans_le h
  have hlog : Int.log 2 |x| ≤ Int.log 2 |y| := by
    rw [abs_of_pos hx, abs_of_pos hy]
    exact Int.log_mono_right hx h
  have hexp : exponent p emin x ≤ exponent p emin y := max_le_max_right _ (by omega)
  rcases hexp.eq_or_lt with heq | hlt
  · have hulp : ulp p emin x = ulp p emin y := congrArg (2 ^ ·) heq
    have hu : 0 < ulp p emin y := ulp_pos
    have hle := nearestEven_mono ((div_le_div_iff_of_pos_right hu).2 h)
    rw [fround, fround, hulp]
    exact mul_le_mul_of_nonneg_right (by exact_mod_cast hle) hu.le
  · -- a power of two is between the numbers, and between their roundings
    have hexpx : Int.log 2 |x| + 1 - p ≤ exponent p emin x := le_max_left _ _
    have hexpy : exponent p emin y = Int.log 2 |y| + 1 - p :=
      max_eq_left (le_of_lt ((lt_max_iff.1 ((le_max_right _ _).trans_lt hlt)).resolve_right
        (lt_irrefl _)))
    have hbelow : x ≤ 2 ^ Int.log 2 |y| := by
      have hsucc : |x| < (2 : K) ^ (Int.log 2 |x| + 1) := by
        exact_mod_cast Int.lt_zpow_succ_log_self (b := 2) (by decide) |x|
      refine (le_abs_self x).trans (hsucc.le.trans ?_)
      exact zpow_le_zpow_right₀ one_le_two (by omega)
    have habove : (2 : K) ^ Int.log 2 |y| ≤ y := by
      rw [abs_of_pos hy]
      exact_mod_cast Int.zpow_log_le_self (b := 2) (by decide) hy
    have hmulx := zpow_eq_mul_ulp (show exponent p emin x ≤ Int.log 2 |y| by omega)
    have hmuly := zpow_eq_mul_ulp (show exponent p emin y ≤ Int.log 2 |y| by omega)
    calc fround p emin x ≤ _ := fround_le (hbelow.trans hmulx.le)
      _ = _ := hmulx.symm.trans hmuly
      _ ≤ fround p emin y := le_fround (hmuly.ge.trans habove)

/-! ## Tenths -/

/-- A power of two, cut at a natural exponent. -/
theorem zpow_add_nat (a : ℤ) (k : ℕ) : (2 : K) ^ (a + k) = 2 ^ k * 2 ^ a := by
  rw [add_comm, zpow_add₀ two_pos.ne', zpow_natCast]

/-- A precision with room for a positive number has two digits at least. -/
theorem one_lt_of_lt_two_pow {m : ℕ} (hm : 0 < m) (hlt : m < 2 ^ (p - 1)) : 1 < p := by
  by_contra hp
  have hzero : p - 1 = 0 := by omega
  rw [hzero] at hlt
  omega

/-- Where the tenth of a whole number has the last of its digits. -/
theorem exists_ulp_tenth {m : ℕ} (hm : 0 < m) (hlt : m < 2 ^ (p - 1)) (hemin : emin ≤ -3 - p) :
    ∃ a : ℤ, emin ≤ a ∧ a ≤ -4 ∧ (2 : K) ^ (a + p - 1) ≤ m / 10 ∧ (m / 10 : K) < 2 ^ (a + p) := by
  have hm' : (1 : K) ≤ m := by exact_mod_cast hm
  have hx : 0 < (m / 10 : K) := by positivity
  have hself := Int.zpow_log_le_self (b := 2) (by decide) hx
  have hsucc := Int.lt_zpow_succ_log_self (b := 2) (by decide) (m / 10 : K)
  have hge : -4 ≤ Int.log 2 (m / 10 : K) := by
    refine (Int.zpow_le_iff_le_log (b := 2) (by decide) hx).1 ?_
    norm_num
    linarith
  have hle : Int.log 2 (m / 10 : K) < p - 4 := by
    refine (Int.lt_zpow_iff_log_lt (b := 2) (by decide) hx).1 ?_
    have hcast : (m : K) < 2 ^ (p - 1) := by exact_mod_cast hlt
    have hpow : (2 : K) ^ (p - 1) = 8 * 2 ^ ((p : ℤ) - 4) := by
      have hp := one_lt_of_lt_two_pow hm hlt
      have hexp : ((p - 1 : ℕ) : ℤ) = (p : ℤ) - 4 + (3 : ℕ) := by omega
      rw [← zpow_natCast, hexp, zpow_add_nat]
      norm_num
    have hpos : (0 : K) < 2 ^ ((p : ℤ) - 4) := zpow_pos two_pos _
    push_cast
    linarith
  refine ⟨Int.log 2 (m / 10 : K) + 1 - p, by omega, by omega, ?_, ?_⟩
  · have hexp : Int.log 2 (m / 10 : K) + 1 - p + p - 1 = Int.log 2 (m / 10 : K) := by omega
    rw [hexp]
    exact_mod_cast hself
  · rw [sub_add_cancel]
    exact_mod_cast hsucc

/-- A whole number is a multiple of a power of two that is no more than one. -/
theorem exists_eq_mul_zpow (m : ℕ) {a : ℤ} (ha : a ≤ 0) : ∃ k : ℤ, (m : K) = k * 2 ^ a := by
  refine ⟨m * 2 ^ (-a).toNat, ?_⟩
  have hneg : ((-a).toNat : ℤ) = -a := Int.toNat_of_nonneg (by omega)
  push_cast
  rw [mul_assoc, ← zpow_natCast (2 : K), hneg, ← zpow_add₀ two_pos.ne']
  simp

/-- Ten times the rounding of a tenth is off by four units in the last place of the tenth at most:
it is off by five at most, and by an even number of them. -/
theorem abs_ten_mul_fround_sub_le {m : ℕ} {a : ℤ} (ha : a ≤ -4)
    (hulp : ulp p emin (m / 10 : K) = 2 ^ a) :
    |10 * fround p emin (m / 10 : K) - m| ≤ 4 * 2 ^ a := by
  have hu : (0 : K) < 2 ^ a := zpow_pos two_pos a
  obtain ⟨n, hn⟩ : ∃ n : ℤ, fround p emin (m / 10 : K) = n * 2 ^ a := by
    rw [fround, hulp]
    exact ⟨_, rfl⟩
  have hfive : |10 * fround p emin (m / 10 : K) - m| ≤ 5 * 2 ^ a := by
    have hle := abs_fround_sub_le p emin (m / 10 : K)
    have hten : 10 * fround p emin (m / 10 : K) - m =
        10 * (fround p emin (m / 10 : K) - m / 10) := by ring
    rw [hten, abs_mul, abs_of_pos (by norm_num : (0 : K) < 10)]
    rw [hulp] at hle
    linarith
  obtain ⟨d, hd⟩ : ∃ d : ℤ, 10 * fround p emin (m / 10 : K) - m = (2 * d : ℤ) * 2 ^ a := by
    obtain ⟨k, hk⟩ := exists_eq_mul_zpow (K := K) m (a := a + (1 : ℕ)) (by push_cast; omega)
    refine ⟨5 * n - k, ?_⟩
    rw [hn, hk, zpow_add_nat]
    push_cast
    ring
  rw [hd, abs_mul, abs_of_pos hu] at hfive ⊢
  have hfour : |2 * d| ≤ 4 := by
    have hcast : |((2 * d : ℤ) : K)| ≤ 5 := le_of_mul_le_mul_right hfive hu
    have hint : |2 * d| ≤ 5 := by exact_mod_cast hcast
    rw [abs_le] at hint ⊢
    omega
  exact mul_le_mul_of_nonneg_right (by exact_mod_cast hfour) hu.le

/-- **A whole number is ten times its tenth**, also in floating point: dividing by ten and
multiplying by ten both round, but the second rounding goes back to the number. -/
theorem fround_ten_mul_fround_div_ten {m : ℕ} (hlt : m < 2 ^ (p - 1)) (hemin : emin ≤ -3 - p) :
    fround p emin (10 * fround p emin (m / 10 : K)) = m := by
  rcases m.eq_zero_or_pos with rfl | hm
  · simp
  obtain ⟨a, hae, ha, hlow, hhigh⟩ := exists_ulp_tenth (K := K) hm hlt hemin
  have habs : |(m / 10 : K)| = m / 10 := abs_of_nonneg (by positivity)
  have hnear := abs_ten_mul_fround_sub_le ha
    (ulp_eq hae (habs.symm ▸ hlow) (habs.symm ▸ hhigh))
  obtain ⟨y, hy⟩ : ∃ y, y = 10 * fround p emin (m / 10 : K) := ⟨_, rfl⟩
  rw [← hy] at hnear ⊢
  obtain ⟨w, hw⟩ : ∃ w, w = (2 : K) ^ (a + p - 1) := ⟨_, rfl⟩
  have hpow : ∀ j : ℕ, (2 : K) ^ (a + p - 1 + j) = 2 ^ j * w := fun j => hw ▸ zpow_add_nat _ j
  have hwa : 2 * 2 ^ a ≤ w := by
    have hone := one_lt_of_lt_two_pow hm hlt
    have hle : (2 : K) ^ (a + (1 : ℕ)) ≤ 2 ^ (a + p - 1) :=
      zpow_le_zpow_right₀ one_le_two (by push_cast; omega)
    rw [zpow_add_nat, ← hw] at hle
    linarith
  have hhigh' : (m / 10 : K) < 2 * w := by
    have hexp : a + p = a + p - 1 + (1 : ℕ) := by push_cast; omega
    rw [hexp, hpow] at hhigh
    linarith
  rw [← hw] at hlow
  obtain ⟨hbelow, habove⟩ := abs_le.1 hnear
  have hulp : ∀ j : ℕ, 2 ^ j * w ≤ y → y < 2 ^ (j + 1) * w → ulp p emin y = 2 ^ j * 2 ^ a := by
    intro j hlow hhigh
    have hypos : |y| = y := abs_of_nonneg (by linarith)
    have hexp : a + j + p - 1 = a + p - 1 + j := by omega
    have hexp' : a + j + p = a + p - 1 + (j + 1 : ℕ) := by push_cast; omega
    rw [← zpow_add_nat]
    refine ulp_eq (by omega) ?_ ?_
    · rwa [hexp, hpow, hypos]
    · rwa [hexp', hpow, hypos]
  obtain ⟨k, hk⟩ := exists_eq_mul_zpow (K := K) m (a := a + (4 : ℕ)) (by push_cast; omega)
  rw [zpow_add_nat] at hk
  have hu : (0 : K) < 2 ^ a := zpow_pos two_pos a
  have hlow8 : 2 ^ 3 * w ≤ y := by linarith
  have hhigh32 : y < 2 ^ 5 * w := by linarith
  rcases lt_or_ge y (2 ^ 4 * w) with h16 | h16
  · -- a unit of `y` is eight of the tenth's: `m` is an even number of them
    have hy := hulp 3 hlow8 h16
    have hm : (m : K) = (2 * k : ℤ) * ulp p emin y := by
      rw [hy, hk]
      push_cast
      ring
    rw [hm]
    refine fround_eq_of_near (.inr ⟨?_, even_two_mul k⟩)
    rw [← hm, hy]
    linarith
  · -- a unit of `y` is sixteen of them, and `m` is near
    have hy := hulp 4 h16 hhigh32
    have hm : (m : K) = k * ulp p emin y := by rw [hy, hk]
    rw [hm]
    refine fround_eq_of_near (.inl ?_)
    rw [← hm, hy]
    linarith

/-! ## Fractions -/

/-- A sixteenth is its own rounding. -/
theorem fround_sixteenth (hp : 0 < p) (hemin : emin ≤ -3 - p) :
    fround p emin ((2 : K) ^ (-4 : ℤ)) = 2 ^ (-4 : ℤ) :=
  fround_eq_self (n := 1) (a := -4) (by omega) (by simp) (one_lt_pow₀ (by decide) hp.ne')

/-- The unit in the last place of a fraction is no more than what its denominator divides one into,
when its numerator has few digits. -/
theorem ulp_le_of_le (hemin : emin ≤ -3 - p) {N t : K} (hx : 2 ^ (-4 : ℤ) ≤ x) (ht : 0 ≤ t)
    (hxt : x ≤ N * t) (hN : N ≤ 2 ^ ((p : ℤ) - 1)) : ulp p emin x ≤ t := by
  have hpos : 0 < x := (zpow_pos two_pos _).trans_le hx
  have hnormal : (2 : K) ^ (emin + p - 1) ≤ |x| := by
    rw [abs_of_pos hpos]
    exact (zpow_le_zpow_right₀ one_le_two (by omega)).trans hx
  have hulp := ulp_le hnormal
  rw [abs_of_pos hpos] at hulp
  have hpow : (0 : K) < 2 ^ ((p : ℤ) - 1) := zpow_pos two_pos _
  refine le_of_mul_le_mul_right ?_ hpow
  calc ulp p emin x * 2 ^ ((p : ℤ) - 1) ≤ N * t := hulp.trans hxt
    _ ≤ t * 2 ^ ((p : ℤ) - 1) := by
      rw [mul_comm]
      exact mul_le_mul_of_nonneg_left hN ht

/-- A fraction is at least its whole part, and below the next integer by `1 / d` at least. -/
theorem natCast_div_le (N : ℕ) {d : ℕ} (hd : 0 < d) :
    ((N / d : ℕ) : K) ≤ N / d ∧ (N / d : K) ≤ (N / d : ℕ) + 1 - 1 / d := by
  have hd' : (0 : K) < d := by exact_mod_cast hd
  refine ⟨Nat.cast_div_le, ?_⟩
  have hlt : N + 1 ≤ d * (N / d) + d := Nat.lt_mul_div_succ N hd
  have hcast : (N : K) + 1 ≤ d * (N / d : ℕ) + d := by exact_mod_cast hlt
  have hsum : (N / d : K) + 1 / d ≤ (N / d : ℕ) + 1 := by
    rw [← add_div, div_le_iff₀ hd']
    linarith
  linarith

/-- A whole number with few digits is its own rounding. -/
theorem fround_natCast (hemin : emin ≤ 0) {n : ℕ} (hn : n < 2 ^ p) :
    fround p emin (n : K) = n := by
  refine fround_eq_self (n := n) (a := 0) hemin (by simp) ?_
  rw [Nat.abs_cast]
  exact_mod_cast hn

/-- **The whole part of a fraction** is not changed by rounding. -/
theorem floor_fround_div (hp : 3 ≤ p) (hemin : emin ≤ -3 - p) {N d : ℕ} (hd : 0 < d)
    (hN : N < 2 ^ (p - 1)) : ⌊fround p emin (N / d : K)⌋ = (N / d : ℕ) := by
  have hx : 0 ≤ (N / d : K) := by positivity
  obtain ⟨hlow, hhigh⟩ := natCast_div_le (K := K) N hd
  refine Int.floor_eq_iff.2 ⟨?_, ?_⟩
  · have hlt : N / d < 2 ^ p :=
      (Nat.div_le_self N d).trans_lt (hN.trans_le (Nat.pow_le_pow_right two_pos (by omega)))
    have hle := fround_mono emin (show 0 < p by omega) (by positivity) hlow
    rw [fround_natCast (by omega) hlt] at hle
    exact_mod_cast hle
  · rw [Int.cast_natCast]
    have hnat : (0 : K) ≤ (N / d : ℕ) := Nat.cast_nonneg _
    rcases le_total (N / d : K) (2 ^ (-4 : ℤ)) with hsmall | hlarge
    · have hle := fround_mono emin (show 0 < p by omega) hx hsmall
      rw [fround_sixteenth (by omega) hemin] at hle
      norm_num at hle
      linarith
    · have ht : (0 : K) < 1 / d := by positivity
      have hcast : (N : K) ≤ 2 ^ ((p : ℤ) - 1) := by
        have hexp : (p : ℤ) - 1 = (p - 1 : ℕ) := by omega
        rw [hexp, zpow_natCast]
        exact_mod_cast hN.le
      have hulp := ulp_le_of_le (p := p) hemin hlarge ht.le (by rw [mul_one_div]) hcast
      have habs := abs_le.1 (abs_fround_sub_le p emin (N / d : K))
      linarith [habs.2]

/-- What the two roundings add to ten times a fraction: the first a quarter of what its denominator
divides one into, and the second a half. -/
theorem fround_ten_mul_le (hp : 0 < p) (hemin : emin ≤ -3 - p) {N t : K} (ht : 0 ≤ t)
    (hx : 2 ^ (-4 : ℤ) ≤ x) (hxt : 10 * x = N * t) (hN : N + 1 ≤ 2 ^ ((p : ℤ) - 1) / 2) :
    fround p emin (10 * fround p emin x) ≤ 10 * x + t * (3 / 4) := by
  have hge := fround_mono emin hp (by positivity) hx
  rw [fround_sixteenth hp hemin] at hge
  have hfirst : 10 * fround p emin x ≤ 10 * x + t / 4 := by
    have hulp : ulp p emin x ≤ t / 20 := by
      refine ulp_le_of_le (N := 2 * N) hemin hx (by linarith) (by linarith) ?_
      linarith
    linarith [(abs_le.1 (abs_fround_sub_le p emin x)).2]
  have hpos : (0 : K) < 2 ^ (-4 : ℤ) := zpow_pos two_pos _
  have hulp : ulp p emin (10 * fround p emin x) ≤ t := by
    refine ulp_le_of_le (N := N + 1) hemin (by linarith) ht (by linarith) ?_
    have hpow : (0 : K) < 2 ^ ((p : ℤ) - 1) := zpow_pos two_pos _
    linarith
  linarith [(abs_le.1 (abs_fround_sub_le p emin (10 * fround p emin x))).2]

/-- **The whole part of ten times a fraction** is the same in floating point, where the fraction is
rounded and its product with ten is rounded again. -/
theorem floor_fround_ten_mul (hp : 3 ≤ p) (hemin : emin ≤ -3 - p) {N d : ℕ} (hd : 0 < d)
    (hN : N < 2 ^ (p - 2)) :
    ⌊fround p emin (10 * fround p emin (N / (10 * d) : K))⌋ = (N / d : ℕ) := by
  obtain ⟨x, hx⟩ : ∃ x : K, x = N / (10 * d) := ⟨_, rfl⟩
  have hd' : (0 : K) < d := by exact_mod_cast hd
  have hx0 : 0 ≤ x := hx ▸ by positivity
  have hten : 10 * x = N / d := by
    rw [hx]
    field_simp
  obtain ⟨hlow, hhigh⟩ := natCast_div_le (K := K) N hd
  rw [← hx]
  rw [← hten] at hlow hhigh
  refine Int.floor_eq_iff.2 ⟨?_, ?_⟩
  · -- below are a tenth of the whole part and ten times that
    have hlt : N / d < 2 ^ (p - 1) :=
      (Nat.div_le_self N d).trans_lt (hN.trans_le (Nat.pow_le_pow_right two_pos (by omega)))
    have htenth := fround_ten_mul_fround_div_ten (K := K) hlt hemin
    have hle : fround p emin ((N / d : ℕ) / 10 : K) ≤ fround p emin x :=
      fround_mono emin (by omega) (by positivity) (by linarith)
    have hle' := fround_mono emin (show 0 < p by omega)
      (mul_nonneg (by norm_num) (fround_nonneg (by positivity)))
      (mul_le_mul_of_nonneg_left hle (by norm_num : (0 : K) ≤ 10))
    rw [htenth] at hle'
    exact_mod_cast hle'
  · rw [Int.cast_natCast]
    have hnat : (0 : K) ≤ (N / d : ℕ) := Nat.cast_nonneg _
    rcases le_total x (2 ^ (-4 : ℤ)) with hsmall | hlarge
    · have hle := fround_mono emin (show 0 < p by omega) hx0 hsmall
      rw [fround_sixteenth (by omega) hemin] at hle
      have hself : fround p emin (10 * 2 ^ (-4 : ℤ) : K) = 10 * 2 ^ (-4 : ℤ) := by
        refine fround_eq_self (n := 5) (a := -3) (by omega) (by norm_num) ?_
        calc |(5 : ℤ)| < 2 ^ 3 := by decide
          _ ≤ 2 ^ p := pow_le_pow_right₀ (by decide) hp
      have hle' := fround_mono emin (show 0 < p by omega)
        (mul_nonneg (by norm_num) (fround_nonneg hx0))
        (mul_le_mul_of_nonneg_left hle (by norm_num : (0 : K) ≤ 10))
      rw [hself] at hle'
      norm_num at hle'
      linarith
    · have ht : (0 : K) < 1 / d := by positivity
      have hcast : (N : K) + 1 ≤ 2 ^ ((p : ℤ) - 1) / 2 := by
        have hexp : (p : ℤ) - 1 = (p - 2 : ℕ) + (1 : ℕ) := by omega
        have hle : (N : K) + 1 ≤ 2 ^ (p - 2) := by exact_mod_cast hN
        rw [hexp, zpow_add_nat, zpow_natCast]
        linarith
      have hle := fround_ten_mul_le (p := p) (by omega) hemin ht.le hlarge
        (by rw [hten, mul_one_div]) hcast
      linarith

end Rounding
