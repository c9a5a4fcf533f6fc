import Mathlib.Data.Nat.Digits.Defs
import Mathlib.Data.Rat.Defs
import Mathlib.Algebra.Order.Ring.Rat
import Mathlib.Tactic.FieldSimp
import MarketDataEngine.Lib.Json.Write

/-!
# Decimal numbers

A literal of a JSON document spells a rational number, `decimal?`. `fixed k N` is the literal of
`N / 10 ^ k` with `k` digits after the point, and it is read back (`decimal?_fixed`).
-/

namespace Json

/-! ## The number of a literal -/

/-- The exponent at the end of a literal. -/
def exponentOf : List Char → ℤ
  | [] => 0
  | _ :: '-' :: ds => -Nat.ofDigitChars 10 ds 0
  | _ :: '+' :: ds | _ :: ds => Nat.ofDigitChars 10 ds 0

/-- The digits after the point, and what follows them. -/
def fractionOf : List Char → List Char × List Char
  | '.' :: r => (r.takeWhile Char.isDigit, r.dropWhile Char.isDigit)
  | r => ([], r)

/-- The number of a literal without its sign. -/
def unsignedOf (r : List Char) : ℚ :=
  let (frac, exponent) := fractionOf (r.dropWhile Char.isDigit)
  Nat.ofDigitChars 10 (r.takeWhile Char.isDigit ++ frac) 0 *
    10 ^ (exponentOf exponent - frac.length)

/-- The number that a literal spells. -/
def decimal? (lit : List Char) : Option ℚ :=
  if isNumber lit then
    match lit with
    | '-' :: r => some (-unsignedOf r)
    | r => some (unsignedOf r)
  else none

/-! ## Numbers with a point -/

/-- The literal of `N / 10 ^ k` with `k` digits after the point. -/
def fixed (k N : ℕ) : List Char :=
  Nat.toDigits 10 (N / 10 ^ k) ++ '.' :: (Nat.toDigits 10 (N % 10 ^ k)).leftpad k '0'

/-- What is no digit does not start the digits of a number. -/
theorem digits_ne_cons (n : ℕ) {c : Char} (hc : ¬ c.isDigit) (ds : List Char) :
    Nat.toDigits 10 n ≠ c :: ds := fun h =>
  hc (digits_isDigit n c (h ▸ List.mem_cons_self ..))

/-- Digits end where no digit follows. -/
theorem takeWhile_isDigit {ds r : List Char} (hds : ∀ c ∈ ds, c.isDigit)
    (hr : r.head?.any Char.isDigit = false) :
    (ds ++ r).takeWhile Char.isDigit = ds ∧ (ds ++ r).dropWhile Char.isDigit = r := by
  rw [List.takeWhile_append_of_pos hds, List.dropWhile_append_of_pos hds]
  cases r with
  | nil => simp
  | cons c r =>
    have hc : c.isDigit = false := hr
    simp [hc]

/-- Digits that do not start with an idle zero start a number, whatever it goes on with. -/
theorem isNumber_digits (n : ℕ) {r : List Char} (hr : r.head?.any Char.isDigit = false) :
    isNumber (Nat.toDigits 10 n ++ r) = isFraction r := by
  rcases n.eq_zero_or_pos with rfl | hn
  · rfl
  obtain ⟨c, ds, hds⟩ := List.exists_cons_of_ne_nil (Nat.toDigits_ne_nil (n := n) (b := 10))
  have hdigits := digits_isDigit n
  have hhead := head?_digits hn
  rw [hds] at hdigits hhead ⊢
  obtain ⟨hc, hdigits⟩ := List.forall_mem_cons.1 hdigits
  have hminus : c ≠ '-' := by
    rintro rfl
    exact Bool.noConfusion hc
  have hzero : c ≠ '0' := fun h => hhead (congrArg some h)
  rw [List.cons_append, isNumber, isUnsigned, hc, (takeWhile_isDigit hdigits hr).2, Bool.true_and]
  · exact hzero
  · rintro _ h
    exact hminus (List.cons.inj h).1

/-- The digits before the point are read first. -/
theorem decimal?_digits (n : ℕ) {r : List Char} (hr : r.head?.any Char.isDigit = false)
    (hf : isFraction r) : decimal? (Nat.toDigits 10 n ++ r) =
      some ((Nat.ofDigitChars 10 (Nat.toDigits 10 n ++ (fractionOf r).1) 0 : ℚ) *
        10 ^ (exponentOf (fractionOf r).2 - (fractionOf r).1.length)) := by
  obtain ⟨htake, hdrop⟩ := takeWhile_isDigit (digits_isDigit n) hr
  rw [decimal?.eq_def, isNumber_digits n hr, if_pos hf]
  split
  · rename_i r' heq
    obtain ⟨c, ds, hds⟩ := List.exists_cons_of_ne_nil (Nat.toDigits_ne_nil (n := n) (b := 10))
    rw [hds, List.cons_append] at heq
    exact absurd (hds.trans (congrArg (· :: ds) (List.cons.inj heq).1)) (digits_ne_minus n ds)
  · rw [unsignedOf, htake, hdrop]

/-- The digits after the point of a number. -/
theorem fraction_digits {k n : ℕ} (hk : 0 < k) (hn : n < 10 ^ k) :
    ((Nat.toDigits 10 n).leftpad k '0').length = k ∧
      (∀ c ∈ (Nat.toDigits 10 n).leftpad k '0', c.isDigit) ∧
        Nat.ofDigitChars 10 ((Nat.toDigits 10 n).leftpad k '0') 0 = n := by
  have hlen : (Nat.toDigits 10 n).length ≤ k := Nat.toDigits_length 10 n k hk hn
  refine ⟨by rw [List.length_leftpad, max_eq_left hlen], ?_, ?_⟩
  · intro c hc
    rcases List.mem_append.1 hc with hc | hc
    · rw [List.eq_of_mem_replicate hc]
      rfl
    · exact digits_isDigit n c hc
  · rw [List.leftpad, Nat.ofDigitChars_append, Nat.ofDigitChars_replicate_zero, Nat.mul_zero,
      Nat.ofDigitChars_ten_toDigits]

/-- A point and digits are a fraction. -/
theorem isFraction_point {ds : List Char} (hne : ds ≠ []) (hds : ∀ c ∈ ds, c.isDigit) :
    isFraction ('.' :: ds) ∧ fractionOf ('.' :: ds) = (ds, []) := by
  obtain ⟨htake, hdrop⟩ := takeWhile_isDigit (r := []) hds rfl
  rw [List.append_nil] at htake hdrop
  obtain ⟨c, ds', rfl⟩ := List.exists_cons_of_ne_nil hne
  have hc : c.isDigit := hds c (List.mem_cons_self ..)
  refine ⟨?_, by rw [fractionOf, htake, hdrop]⟩
  rw [isFraction, hdrop, List.head?_cons, Option.any_some, hc]
  rfl

/-- A number with a point is a JSON number. -/
theorem isNumber_fixed {k : ℕ} (hk : 0 < k) (N : ℕ) : isNumber (fixed k N) := by
  obtain ⟨hlen, hdigits, -⟩ := fraction_digits hk (Nat.mod_lt N (Nat.pow_pos (n := k) (by decide)))
  rw [fixed, isNumber_digits _ rfl]
  exact (isFraction_point (List.ne_nil_of_length_pos (hk.trans_eq hlen.symm)) hdigits).1

/-- **A number with a point is read back.** -/
theorem decimal?_fixed {k : ℕ} (hk : 0 < k) (N : ℕ) :
    decimal? (fixed k N) = some (N / 10 ^ k : ℚ) := by
  obtain ⟨hlen, hdigits, hval⟩ :=
    fraction_digits hk (Nat.mod_lt N (Nat.pow_pos (n := k) (by decide)))
  obtain ⟨hf, hfrac⟩ :=
    isFraction_point (List.ne_nil_of_length_pos (hk.trans_eq hlen.symm)) hdigits
  have hN : 10 ^ k * (N / 10 ^ k) + N % 10 ^ k = N := Nat.div_add_mod N (10 ^ k)
  rw [fixed, decimal?_digits _ rfl hf, hfrac, Nat.ofDigitChars_append,
    Nat.ofDigitChars_ten_toDigits, Nat.ofDigitChars_eq_ofDigitChars_zero, hval, hlen, hN,
    exponentOf, zero_sub, zpow_neg, zpow_natCast, div_eq_mul_inv]

end Json
