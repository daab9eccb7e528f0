import Mathlib.Algebra.Order.Field.Power
import Mathlib.Data.Int.Log
import Mathlib.Data.Rat.Floor
import Mathlib.Tactic.Linarith
import Mathlib.Tactic.NormNum
import Mathlib.Tactic.Positivity
import Mathlib.Tactic.Ring

/-!
# Numbers in double precision

A number of double precision is an integer of 53 binary digits times a power of two (`Representable`); the largest
finite one and the sign of a zero are not modelled.  `nearest q` is the one that a rational is rounded to, to even
between two (`abs_nearest_sub_le`).  A number that is representable stays as it is (`nearest_eq`), and so do the
integers up to `2 ^ 53` (`nearest_intCast`) and the halves of them (`nearest_half`).
-/

namespace Binary64

/-- The nearest integer, the even one of two. -/
def nearestEven (q : ℚ) : ℤ :=
  if 2 * (q - ⌊q⌋) < 1 ∨ 2 * (q - ⌊q⌋) = 1 ∧ ⌊q⌋ % 2 = 0 then ⌊q⌋ else ⌊q⌋ + 1

/-- The place of the last of 53 binary digits; no number has digits behind the last place of the smallest one. -/
def lastPlace (q : ℚ) : ℤ := max (Int.log 2 |q| - 52) (-1074)

def nearest (q : ℚ) : ℚ := nearestEven (q / 2 ^ lastPlace q) * 2 ^ lastPlace q

def Representable (x : ℚ) : Prop := ∃ m e : ℤ, |m| ≤ 2 ^ 53 ∧ -1074 ≤ e ∧ x = m * 2 ^ e

example : nearest (2 ^ 53 + 1) = 2 ^ 53 ∧ nearest (2 ^ 53 + 3) = 2 ^ 53 + 4 := by decide +kernel

theorem abs_nearestEven_sub_le_half (q : ℚ) : |(nearestEven q : ℚ) - q| ≤ 1 / 2 := by
  have hle := Int.floor_le q
  have hlt := Int.lt_floor_add_one q
  unfold nearestEven
  split
  · rename_i h
    have hhalf : 2 * (q - ⌊q⌋) ≤ 1 := by
      rcases h with h | h
      · exact h.le
      · exact h.1.le
    rw [abs_le]
    constructor <;> linarith
  · rename_i h
    have hhalf : 1 ≤ 2 * (q - ⌊q⌋) := le_of_not_gt fun hlt => h (Or.inl hlt)
    rw [Int.cast_add, Int.cast_one, abs_le]
    constructor <;> linarith

/-- No integer is nearer. -/
theorem abs_nearestEven_sub_le (q : ℚ) (k : ℤ) : |(nearestEven q : ℚ) - q| ≤ |k - q| := by
  have hhalf := abs_nearestEven_sub_le_half q
  by_cases hk : k = nearestEven q
  · rw [hk]
  · have hone : (1 : ℚ) ≤ |(k : ℚ) - nearestEven q| := by
      exact_mod_cast Int.one_le_abs (sub_ne_zero.2 hk)
    have htriangle : |(k : ℚ) - nearestEven q| ≤ |k - q| + |nearestEven q - q| := by
      rw [abs_sub_comm (nearestEven q : ℚ) q]
      exact abs_sub_le _ _ _
    linarith

/-- No multiple of the last place is nearer. -/
theorem abs_nearest_sub_le_mul (q : ℚ) (k : ℤ) : |nearest q - q| ≤ |k * 2 ^ lastPlace q - q| := by
  have hpos : (0 : ℚ) < 2 ^ lastPlace q := by positivity
  have hscale (n : ℤ) : |n * 2 ^ lastPlace q - q| = |n - q / 2 ^ lastPlace q| * 2 ^ lastPlace q := by
    rw [← abs_of_pos hpos, ← abs_mul, sub_mul, abs_of_pos hpos, div_mul_cancel₀ _ hpos.ne']
  unfold nearest
  rw [hscale, hscale]
  exact mul_le_mul_of_nonneg_right (abs_nearestEven_sub_le _ k) hpos.le

/-- A number of fewer places than `q` has is below the leading digit of `q`. -/
theorem exists_between {q : ℚ} {m e : ℤ} (hm : |m| ≤ 2 ^ 53) (he : -1074 ≤ e) (hlt : e < lastPlace q) :
    ∃ k : ℤ, |k * 2 ^ lastPlace q - q| ≤ |m * 2 ^ e - q| := by
  rcases eq_or_ne q 0 with rfl | hq
  · refine ⟨0, ?_⟩
    rw [Int.cast_zero, zero_mul, sub_self, abs_zero]
    exact abs_nonneg _
  have hplace : lastPlace q = Int.log 2 |q| - 52 := by
    unfold lastPlace at hlt ⊢
    exact max_eq_left (by omega)
  -- the leading digit of `q` is a multiple of the last place
  have hlead : (2 ^ 52 : ℚ) * 2 ^ lastPlace q ≤ |q| := by
    have hlog := Int.zpow_log_le_self (b := 2) Nat.one_lt_two (abs_pos.2 hq)
    have hsplit : Int.log 2 |q| = 52 + lastPlace q := by omega
    rw [hsplit, Nat.cast_ofNat, zpow_add₀ (by norm_num)] at hlog
    exact_mod_cast hlog
  have hother : |(m : ℚ) * 2 ^ e| ≤ 2 ^ 52 * 2 ^ lastPlace q := by
    have hpow : (2 : ℚ) ^ (e + 1) ≤ 2 ^ lastPlace q := zpow_le_zpow_right₀ (by norm_num) hlt
    have hm' : |(m : ℚ)| ≤ 2 ^ 53 := by exact_mod_cast hm
    have hpos : (0 : ℚ) < 2 ^ e := by positivity
    rw [zpow_add_one₀ (by norm_num)] at hpow
    calc |(m : ℚ) * 2 ^ e| = |(m : ℚ)| * 2 ^ e := by rw [abs_mul, abs_of_pos hpos]
      _ ≤ 2 ^ 53 * 2 ^ e := mul_le_mul_of_nonneg_right hm' hpos.le
      _ = 2 ^ 52 * (2 ^ e * 2) := by ring
      _ ≤ 2 ^ 52 * 2 ^ lastPlace q := mul_le_mul_of_nonneg_left hpow (by norm_num)
  rw [abs_le] at hother
  rcases lt_or_ge q 0 with hneg | hnonneg
  · refine ⟨-2 ^ 52, ?_⟩
    rw [abs_of_neg hneg] at hlead
    push_cast
    rw [abs_of_nonneg (by linarith), abs_of_nonneg (by linarith)]
    linarith
  · refine ⟨2 ^ 52, ?_⟩
    rw [abs_of_nonneg hnonneg] at hlead
    push_cast
    rw [abs_of_nonpos (by linarith), abs_of_nonpos (by linarith)]
    linarith

/-- No number of double precision is nearer. -/
theorem abs_nearest_sub_le (q : ℚ) {x : ℚ} (h : Representable x) : |nearest q - q| ≤ |x - q| := by
  obtain ⟨m, e, hm, he, rfl⟩ := h
  rcases lt_or_ge e (lastPlace q) with hlt | hge
  · obtain ⟨k, hk⟩ := exists_between hm he hlt
    exact (abs_nearest_sub_le_mul q k).trans hk
  · have hmul : (m : ℚ) * 2 ^ e = ((m * 2 ^ (e - lastPlace q).toNat : ℤ) : ℚ) * 2 ^ lastPlace q := by
      push_cast
      rw [mul_assoc, ← zpow_natCast, ← zpow_add₀ (by norm_num), Int.toNat_of_nonneg (by omega), sub_add_cancel]
    rw [hmul]
    exact abs_nearest_sub_le_mul q _

theorem nearest_eq {x : ℚ} (h : Representable x) : nearest x = x := by
  have hle := abs_nearest_sub_le x h
  rw [sub_self, abs_zero] at hle
  exact sub_eq_zero.1 (abs_nonpos_iff.1 hle)

theorem nearest_intCast {i : ℤ} (h : |i| ≤ 2 ^ 53) : nearest i = i :=
  nearest_eq ⟨i, 0, h, by decide, by rw [zpow_zero, mul_one]⟩

theorem nearest_half {i : ℤ} (h : |i| ≤ 2 ^ 53) : nearest (i / 2) = i / 2 :=
  nearest_eq ⟨i, -1, h, by decide, by rw [zpow_neg_one, div_eq_mul_inv]⟩

end Binary64
