import Alicerce.Py.Text
import Mathlib.Algebra.Order.Ring.Nat
import Mathlib.Data.Rat.Defs
import Mathlib.Order.WithBotTop

/-!
# Numbers of either kind

An argument that may be an `int` or a `float` is compared as it is and then converted.  A `float`
has 53 binary digits and an exponent that ends, so that the conversion of an `int` rounds, and fails
on one that is too large.

* `Py.PyFloat` is a `float`, and `Py.Numeric` an `int` or a `float`.
* `Py.roundInt` rounds to 53 binary digits: the number it picks is a closest one, which
  `two_mul_dist_roundInt_le` says.
* `Py.Numeric.toFloat` is `float(value)`, which fails exactly on what `toFloat_eq_none_iff` says.
-/

set_option autoImplicit false

namespace Py

/-- A `float`: a number or an infinity, or else NaN. -/
inductive PyFloat
  | nan
  | number (x : WithBotTop ℚ)
deriving DecidableEq

/-- An `int` or a `float`. -/
inductive Numeric
  | int (n : ℤ)
  | float (x : PyFloat)
deriving DecidableEq

/-- `value < 0`, which no NaN is. -/
def Numeric.isNegative : Numeric → Bool
  | int n => n < 0
  | float .nan => false
  | float (.number x) => x < 0

/-- `sys.float_info.max_exp`: every float is below that power of two. -/
def maxExp : ℕ := 1024

/-- What the last of the 53 binary digits of a float close to `n` stands for. -/
def lastDigit (n : ℕ) : ℕ := 2 ^ (n.log2 - 52)

/-- The float closest to `n`, and of two the one with an even last digit, however large. -/
def roundInt (n : ℕ) : ℕ :=
  let digits := n / lastDigit n
  let rest := n % lastDigit n
  if lastDigit n < 2 * rest ∨ lastDigit n = 2 * rest ∧ digits % 2 = 1 then
    (digits + 1) * lastDigit n
  else digits * lastDigit n

/-- `float(value)`; `none` is `OverflowError`. -/
def Numeric.toFloat : Numeric → Option PyFloat
  | float x => some x
  | int n =>
    if roundInt n.natAbs < 2 ^ maxExp then
      some (.number ((n.sign * roundInt n.natAbs : ℤ) : ℚ))
    else none

/-! ## Rounding -/

theorem lastDigit_pos (n : ℕ) : 0 < lastDigit n := Nat.two_pow_pos _

/-- Rounding goes to one of the two neighbours, and not to the one that is farther. -/
theorem roundInt_cases (n : ℕ) :
    (roundInt n = n / lastDigit n * lastDigit n ∧ 2 * (n % lastDigit n) ≤ lastDigit n) ∨
      roundInt n = (n / lastDigit n + 1) * lastDigit n ∧ lastDigit n ≤ 2 * (n % lastDigit n) := by
  rw [roundInt]
  split_ifs with h
  · exact .inr ⟨rfl, by omega⟩
  · exact .inl ⟨rfl, by omega⟩

/-- **Rounding is to a closest float.** -/
theorem two_mul_dist_roundInt_le (n : ℕ) :
    2 * (n - roundInt n) ≤ lastDigit n ∧ 2 * (roundInt n - n) ≤ lastDigit n := by
  have hsplit := Nat.div_add_mod' n (lastDigit n)
  have hlt := Nat.mod_lt n (lastDigit_pos n)
  rcases roundInt_cases n with ⟨h, hrest⟩ | ⟨h, hrest⟩
  · rw [h]
    omega
  · rw [h, Nat.add_one_mul (n / lastDigit n)]
    omega

theorem le_roundInt (n : ℕ) : n / lastDigit n * lastDigit n ≤ roundInt n := by
  rcases roundInt_cases n with ⟨h, -⟩ | ⟨h, -⟩
  · exact h.ge
  · exact h ▸ Nat.mul_le_mul_right _ (Nat.le_succ _)

/-! ## Overflow -/

/-- Rounding a number of more than 53 binary digits reaches the next power of two exactly from half
of its last digit below that power on. -/
theorem roundInt_lt_iff_of_log2 {n k : ℕ} (hlog : n.log2 = k + 53) :
    roundInt n < 2 ^ (k + 54) ↔ n < 2 ^ (k + 54) - 2 ^ k := by
  have hunit : lastDigit n = 2 * 2 ^ k := by
    rw [lastDigit, hlog, show k + 53 - 52 = k + 1 by omega, pow_succ, mul_comm]
  have hpow : 2 ^ (k + 54) = 2 ^ 53 * (2 * 2 ^ k) := by ring
  have hlt : n < 2 ^ 53 * (2 * 2 ^ k) := by
    rw [← hpow, show k + 54 = n.log2 + 1 by omega]
    exact Nat.lt_log2_self
  rw [roundInt, hunit, hpow]
  have hpos : 0 < 2 ^ k := Nat.two_pow_pos k
  generalize 2 ^ k = half at hlt hpos
  have hsplit := Nat.div_add_mod' n (2 * half)
  have hrest := Nat.mod_lt n (show 0 < 2 * half by omega)
  have hdigits : n / (2 * half) < 2 ^ 53 := Nat.div_lt_of_lt_mul (by rwa [mul_comm] at hlt)
  generalize n / (2 * half) = digits at *
  generalize n % (2 * half) = rest at *
  rw [← hsplit]
  have hlast : digits + 1 < 2 ^ 53 ∨ digits = 2 ^ 53 - 1 := by omega
  rcases hlast with hlast | rfl
  · have hbound : (digits + 2) * (2 * half) ≤ 2 ^ 53 * (2 * half) :=
      Nat.mul_le_mul_right _ (by omega)
    rw [Nat.add_mul] at hbound
    refine iff_of_true ?_ (by omega)
    split_ifs
    · rw [Nat.add_one_mul]
      omega
    · omega
  · split_ifs with h
    · exact iff_of_false (by omega) (by omega)
    · exact iff_of_true (by omega) (by omega)

theorem roundInt_le_two_mul (n : ℕ) : roundInt n ≤ 2 * n := by
  have hsplit := Nat.div_add_mod' n (lastDigit n)
  rcases roundInt_cases n with ⟨h, -⟩ | ⟨h, hrest⟩
  · omega
  · rw [Nat.add_one_mul] at h
    omega

/-- **Which numbers are too large**: rounding takes them to a power of two, or beyond it. -/
theorem roundInt_lt_iff (n k : ℕ) : roundInt n < 2 ^ (k + 54) ↔ n < 2 ^ (k + 54) - 2 ^ k := by
  have hdouble : 2 ^ (k + 54) = 2 * 2 ^ (k + 53) := pow_succ' 2 (k + 53)
  have hle : 2 ^ k ≤ 2 ^ (k + 53) := Nat.pow_le_pow_right (by decide) (by omega)
  rcases Nat.lt_trichotomy n.log2 (k + 53) with hlog | hlog | hlog
  · have hlt : n < 2 ^ (k + 53) := Nat.lt_log2_self.trans_le (Nat.pow_le_pow_right (by decide) hlog)
    have htwo := roundInt_le_two_mul n
    exact iff_of_true (by omega) (by omega)
  · exact roundInt_lt_iff_of_log2 hlog
  · have hn : n ≠ 0 := by
      rintro rfl
      exact absurd hlog (by simp)
    have hunit : 2 ^ 52 * lastDigit n = 2 ^ n.log2 := by
      rw [lastDigit, ← pow_add, Nat.add_sub_cancel' (by omega)]
    have hdigits : 2 ^ 52 ≤ n / lastDigit n := by
      rw [Nat.le_div_iff_mul_le (lastDigit_pos n), hunit]
      exact Nat.log2_self_le hn
    have hlarge : 2 ^ (k + 54) ≤ 2 ^ n.log2 := Nat.pow_le_pow_right (by decide) hlog
    refine iff_of_false (not_lt.mpr ?_) (not_lt.mpr ?_)
    · calc 2 ^ (k + 54) ≤ 2 ^ 52 * lastDigit n := hlarge.trans hunit.ge
        _ ≤ n / lastDigit n * lastDigit n := Nat.mul_le_mul_right _ hdigits
        _ ≤ roundInt n := le_roundInt n
    · exact (Nat.sub_le _ _).trans (hlarge.trans (Nat.log2_self_le hn))

/-- **When `float(value)` fails.** -/
theorem toFloat_eq_none_iff {value : Numeric} :
    value.toFloat = none ↔ ∃ n : ℤ, value = .int n ∧ 2 ^ maxExp - 2 ^ (maxExp - 54) ≤ n.natAbs := by
  cases value with
  | float x => simp [Numeric.toFloat]
  | int n =>
    have hiff := roundInt_lt_iff n.natAbs (maxExp - 54)
    rw [show maxExp - 54 + 54 = maxExp from rfl] at hiff
    rw [Numeric.toFloat, ite_eq_right_iff]
    simp only [reduceCtorEq, imp_false, hiff, not_lt, Numeric.int.injEq, exists_eq_left']

example : (Numeric.int (2 ^ 53 + 1)).toFloat = some (.number ((2 ^ 53 : ℕ) : ℚ)) := by
  decide +kernel

end Py
