import Mathlib.Algebra.Ring.Int.Defs

/-!
# 32-bit arithmetic read over the integers

`Int32` arithmetic wraps modulo `2^32`.  While the exact result lies in the range of the type the wrapped
operation is the exact one; a sum of two positive numbers that leaves the range is negative.
-/

namespace Int32

/-- The integer is one of the type. -/
def InRange (x : ℤ) : Prop := -2 ^ 31 ≤ x ∧ x < 2 ^ 31

instance (x : ℤ) : Decidable (InRange x) := inferInstanceAs (Decidable (_ ∧ _))

theorem pos_iff_toInt (a : Int32) : 0 < a ↔ 0 < a.toInt := by
  rw [Int32.lt_iff_toInt_lt]; simp

theorem nonpos_iff_toInt (a : Int32) : a ≤ 0 ↔ a.toInt ≤ 0 := by
  rw [Int32.le_iff_toInt_le]; simp

theorem nonneg_iff_toInt (a : Int32) : 0 ≤ a ↔ 0 ≤ a.toInt := by
  rw [Int32.le_iff_toInt_le]; simp

theorem toInt_add_of_range {a b : Int32} (h : -2 ^ 31 ≤ a.toInt + b.toInt) (h' : a.toInt + b.toInt < 2 ^ 31) :
    (a + b).toInt = a.toInt + b.toInt := by
  rw [Int32.toInt_add, Int.bmod_eq_of_le] <;> omega

theorem toInt_sub_of_range {a b : Int32} (h : -2 ^ 31 ≤ a.toInt - b.toInt) (h' : a.toInt - b.toInt < 2 ^ 31) :
    (a - b).toInt = a.toInt - b.toInt := by
  rw [Int32.toInt_sub, Int.bmod_eq_of_le] <;> omega

theorem toInt_neg_of_pos {a : Int32} (h : 0 < a.toInt) : (-a).toInt = -a.toInt := by
  have := a.toInt_lt
  rw [Int32.toInt_neg, Int.bmod_eq_of_le] <;> omega

/-- The quotient of nonnegative numbers is that of the integers. -/
theorem toInt_div_of_nonneg {a b : Int32} (ha : 0 ≤ a.toInt) (hb : 0 < b.toInt) :
    (a / b).toInt = a.toInt / b.toInt := by
  have hle := Int.ediv_le_self b.toInt ha
  have hnonneg : 0 ≤ a.toInt / b.toInt := Int.ediv_nonneg ha (Int.le_of_lt hb)
  have hlt := a.toInt_lt
  rw [Int32.toInt_div, Int.tdiv_eq_ediv_of_nonneg ha, Int.bmod_eq_of_le] <;> omega

/-- A sum of positive numbers past the top of the range wraps below zero. -/
theorem add_nonpos_of_overflow {a b : Int32} (h : 2 ^ 31 ≤ a.toInt + b.toInt) : (a + b).toInt ≤ 0 := by
  have ha := a.toInt_lt
  have hb := b.toInt_lt
  rw [Int32.toInt_add, Int.bmod_def]
  omega

/-- A sum of positive numbers is positive exactly when it stays in range. -/
theorem add_pos_iff {a b : Int32} (ha : 0 < a.toInt) (hb : 0 < b.toInt) :
    0 < a + b ↔ a.toInt + b.toInt < 2 ^ 31 := by
  rw [pos_iff_toInt]
  constructor
  · intro hpos
    by_contra hno
    have := add_nonpos_of_overflow (a := a) (b := b) (by omega)
    omega
  · intro hlt
    rw [toInt_add_of_range] <;> omega

/-! ### Narrowing -/

/-- The low 32 bits of the integer, read as a number of the type, are positive. -/
def LowPositive (x : ℤ) : Prop := 0 < x % 2 ^ 32 ∧ x % 2 ^ 32 < 2 ^ 31

instance (x : ℤ) : Decidable (LowPositive x) := inferInstanceAs (Decidable (_ ∧ _))

theorem ofInt_pos_iff (x : ℤ) : 0 < Int32.ofInt x ↔ LowPositive x := by
  have hsize : ((Int32.size : ℕ) : ℤ) = 2 ^ 32 := rfl
  rw [pos_iff_toInt, Int32.toInt_ofInt, Int.bmod_def, hsize]
  unfold LowPositive
  split <;> omega

/-- A number that saturates at 64 bits is not positive when it is narrowed. -/
theorem ofIntClamp_pos_iff (x : ℤ) :
    0 < (Int64.ofIntClamp x).toInt32 ↔ (-2 ^ 63 ≤ x ∧ x < 2 ^ 63) ∧ LowPositive x := by
  by_cases hlower : -2 ^ 63 ≤ x
  · by_cases hupper : x < 2 ^ 63
    · rw [Int64.toInt32_ofIntClamp hlower hupper, ofInt_pos_iff, and_iff_right ⟨hlower, hupper⟩]
    · -- the greatest number of 64 bits becomes -1
      have hmax : Int64.ofIntClamp x = Int64.maxValue := by
        have hmaxValue : Int64.maxValue.toInt = 2 ^ 63 - 1 := rfl
        have hminValue : Int64.minValue.toInt = -2 ^ 63 := rfl
        unfold Int64.ofIntClamp
        rw [dif_pos (by omega), dif_neg (by omega)]
      rw [hmax]
      exact iff_of_false (by decide) fun h => hupper h.1.2
  · -- the least one becomes 0
    have hmin : Int64.ofIntClamp x = Int64.minValue := by
      have hminValue : Int64.minValue.toInt = -2 ^ 63 := rfl
      unfold Int64.ofIntClamp
      rw [dif_neg (by omega)]
    rw [hmin]
    exact iff_of_false (by decide) fun h => hlower h.1.1

end Int32
