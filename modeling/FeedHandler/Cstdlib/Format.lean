import FeedHandler.Foundation.Binary64
import FeedHandler.Foundation.Json
import FeedHandler.Python.Basic
import Mathlib.Algebra.Order.Group.Abs
import Mathlib.Algebra.Order.Ring.Abs
import Mathlib.Tactic.Linarith
import Mathlib.Tactic.NormNum
import Mathlib.Tactic.Ring

/-!
# Numbers printed by the C++ library

`std::to_string` of a `double` prints six decimals, the value taken to be exact.  The text is a number of JSON.  The
decimal that is printed (`sixDecimals`) is the value itself when six decimals are enough (`sixDecimals_eq`), and never
further from it than half a millionth (`abs_sixDecimals_sub_le`); a reader of the text takes the double next to it.
-/

namespace FeedHandler

open Python

namespace Cstdlib

/-- The millionths that are printed. -/
def millionths (x : ℚ) : Nat := (roundHalfEven (10 ^ 6 * |x|)).toNat

/-- `std::to_string(x)` for a `double` -/
def toStringDouble (x : ℚ) : List Char :=
  Json.signPart (x < 0) ++ Nat.toDigits 10 (millionths x / 10 ^ 6) ++ '.' :: Numeral.fixedDigits 6 (millionths x)

/-- The number that is printed. -/
def sixDecimals (x : ℚ) : ℚ := if x < 0 then -((millionths x : ℚ) / 10 ^ 6) else millionths x / 10 ^ 6

theorem writes_toStringDouble (x : ℚ) :
    Json.Writes (toStringDouble x) (.num (Binary64.nearest (sixDecimals x))) := by
  have hdigits : Numeral.fixedDigits 6 (millionths x) ≠ [] := by
    rw [← List.length_pos_iff, Numeral.length_fixedDigits]
    decide
  have hwrites := Json.writes_decimal (x < 0) (millionths x / 10 ^ 6)
    (Or.inr ⟨rfl, hdigits, Numeral.all_isDigit_fixedDigits 6 (millionths x)⟩)
  have hvalue : Nat.ofDigitChars 10 (Numeral.fixedDigits 6 (millionths x)) (millionths x / 10 ^ 6) = millionths x := by
    rw [Numeral.ofDigitChars_fixedDigits]
    exact Nat.div_add_mod ..
  unfold Json.decimal at hwrites
  rw [hvalue, Numeral.length_fixedDigits] at hwrites
  unfold toStringDouble sixDecimals
  simpa only [decide_eq_true_eq] using hwrites

theorem roundHalfEven_sub_le (q : ℚ) : |(roundHalfEven q : ℚ) - q| ≤ 1 / 2 := Binary64.abs_nearestEven_sub_le_half q

theorem roundHalfEven_nonneg {q : ℚ} (h : 0 ≤ q) : 0 ≤ roundHalfEven q := by
  have hfloor := Int.floor_nonneg.2 h
  unfold roundHalfEven
  dsimp only
  split <;> omega

theorem cast_millionths (x : ℚ) : (millionths x : ℚ) = roundHalfEven (10 ^ 6 * |x|) := by
  have hnonneg : 0 ≤ roundHalfEven (10 ^ 6 * |x|) := roundHalfEven_nonneg (by positivity)
  unfold millionths
  exact_mod_cast Int.toNat_of_nonneg hnonneg

/-- The text is off by half a unit of its last digit at most. -/
theorem abs_sixDecimals_sub_le (x : ℚ) : |sixDecimals x - x| ≤ 1 / 2 / 10 ^ 6 := by
  have hround := roundHalfEven_sub_le (10 ^ 6 * |x|)
  rw [← cast_millionths, abs_le] at hround
  unfold sixDecimals
  split
  · rename_i hneg
    rw [abs_of_neg hneg] at hround
    rw [abs_le]
    constructor <;> linarith
  · rename_i hpos
    rw [abs_of_nonneg (not_lt.1 hpos)] at hround
    rw [abs_le]
    constructor <;> linarith

/-- A number of millionths is printed as it is. -/
theorem sixDecimals_eq {x : ℚ} {k : ℤ} (h : 10 ^ 6 * x = k) : sixDecimals x = x := by
  have habs : 10 ^ 6 * |x| = ((|k| : ℤ) : ℚ) := by
    rw [Int.cast_abs, ← h, abs_mul, abs_of_nonneg (by norm_num : (0 : ℚ) ≤ 10 ^ 6)]
  have hround := roundHalfEven_sub_le (10 ^ 6 * |x|)
  have hcast := cast_millionths x
  rw [habs] at hround hcast
  generalize roundHalfEven _ = n at hround hcast
  rw [← Int.cast_sub, ← Int.cast_abs] at hround
  have hlt : ((abs (n - |k|) : ℤ) : ℚ) < 1 := by linarith
  have hzero : n - |k| = 0 := Int.abs_lt_one_iff.1 (by exact_mod_cast hlt)
  rw [sub_eq_zero.1 hzero, ← habs] at hcast
  unfold sixDecimals
  rw [hcast, mul_div_cancel_left₀ _ (by norm_num)]
  split
  · rename_i hneg
    rw [abs_of_neg hneg, neg_neg]
  · rename_i hpos
    exact abs_of_nonneg (not_lt.1 hpos)

end Cstdlib

end FeedHandler
