import Mathlib.Algebra.Order.Floor.Semiring
import Mathlib.Algebra.Order.Field.Basic
import Mathlib.Order.Interval.Set.Defs
import Mathlib.Tactic.Linarith
import Mathlib.Tactic.Ring

/-!
# Linear interpolation between the entries of a sequence

`value a r` reads the sequence `a` at a rank `r` that need not be whole: between the entries at the two whole ranks
around it, in proportion.  For a non-decreasing sequence the value lies between these entries (`le_value`,
`value_le`) and is non-decreasing in the rank (`value_mono`).
-/

namespace Interpolation

variable {K : Type*} [Field K] [LinearOrder K] [FloorSemiring K]

/-- The entry of `a` at the rank `r`, interpolated. -/
def value (a : ℕ → K) (r : K) : K := a ⌊r⌋₊ * (1 - (r - ⌊r⌋₊)) + a ⌈r⌉₊ * (r - ⌊r⌋₊)

theorem value_eq (a : ℕ → K) (r : K) : value a r = a ⌊r⌋₊ + (a ⌈r⌉₊ - a ⌊r⌋₊) * (r - ⌊r⌋₊) := by
  unfold value
  ring

variable [IsStrictOrderedRing K] {a : ℕ → K} {n : ℕ} {r r' : K}

private theorem weight_nonneg (hr : 0 ≤ r) : 0 ≤ r - ⌊r⌋₊ := sub_nonneg.2 (Nat.floor_le hr)

private theorem weight_le_one (r : K) : r - ⌊r⌋₊ ≤ 1 := by
  have := Nat.lt_floor_add_one r
  linarith

private theorem step_nonneg (ha : MonotoneOn a (Set.Iic n)) (hn : ⌈r⌉₊ ≤ n) : 0 ≤ a ⌈r⌉₊ - a ⌊r⌋₊ := by
  have hle := Nat.floor_le_ceil r
  exact sub_nonneg.2 (ha (hle.trans hn) hn hle)

theorem le_value (ha : MonotoneOn a (Set.Iic n)) (hr : 0 ≤ r) (hn : ⌈r⌉₊ ≤ n) : a ⌊r⌋₊ ≤ value a r := by
  have hprod := mul_nonneg (step_nonneg ha hn) (weight_nonneg hr)
  rw [value_eq]
  linarith

theorem value_le (ha : MonotoneOn a (Set.Iic n)) (hn : ⌈r⌉₊ ≤ n) : value a r ≤ a ⌈r⌉₊ := by
  have hprod := mul_le_of_le_one_right (step_nonneg ha hn) (weight_le_one r)
  rw [value_eq]
  linarith

/-- Between two neighbouring whole ranks the value is linear. -/
private theorem value_mono_of_floor_eq (ha : MonotoneOn a (Set.Iic n)) (hr : 0 ≤ r) (hle : r ≤ r') (hn : ⌈r'⌉₊ ≤ n)
    (hfloor : ⌊r⌋₊ = ⌊r'⌋₊) : value a r ≤ value a r' := by
  rcases (Nat.floor_le hr).eq_or_lt with hwhole | hlt
  · -- `r` is whole, so its value is an entry
    have hvalue : value a r = a ⌊r⌋₊ := by
      rw [value_eq, hwhole, sub_self, mul_zero, add_zero]
    rw [hvalue, hfloor]
    exact le_value ha (hr.trans hle) hn
  · have hceil : ∀ x : K, (⌊x⌋₊ : K) < x → ⌈x⌉₊ = ⌊x⌋₊ + 1 := by
      intro x hx
      have hlow := Nat.lt_ceil.2 hx
      have hhigh := Nat.ceil_le_floor_add_one x
      omega
    have hlt' : (⌊r'⌋₊ : K) < r' := by
      rw [← hfloor]
      exact hlt.trans_le hle
    have hstep := step_nonneg ha hn
    have hsame : ⌈r⌉₊ = ⌈r'⌉₊ := by rw [hceil r hlt, hceil r' hlt', hfloor]
    rw [value_eq, value_eq, hsame, hfloor]
    have hprod := mul_le_mul_of_nonneg_left (sub_le_sub_right hle (⌊r'⌋₊ : K)) hstep
    linarith

theorem value_mono (ha : MonotoneOn a (Set.Iic n)) (hr : 0 ≤ r) (hle : r ≤ r') (hn : ⌈r'⌉₊ ≤ n) :
    value a r ≤ value a r' := by
  rcases (Nat.floor_le_floor hle).eq_or_lt with hfloor | hlt
  · exact value_mono_of_floor_eq ha hr hle hn hfloor
  · -- a whole rank lies between the two
    have hceil := Nat.ceil_le_floor_add_one r
    have hfc := Nat.floor_le_ceil r'
    have hbetween : ⌈r⌉₊ ≤ ⌊r'⌋₊ := by omega
    have hfn : ⌊r'⌋₊ ≤ n := hfc.trans hn
    calc value a r ≤ a ⌈r⌉₊ := value_le ha (hbetween.trans hfn)
      _ ≤ a ⌊r'⌋₊ := ha (hbetween.trans hfn) hfn hbetween
      _ ≤ value a r' := le_value ha (hr.trans hle) hn

end Interpolation
