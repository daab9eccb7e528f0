import Mathlib.Algebra.Order.Field.Basic
import Mathlib.Tactic.FieldSimp
import Mathlib.Tactic.Linarith
import Mathlib.Tactic.Ring

/-!
# Average cost accounting

An account has cash, a signed position (negative when short) with the average price at which it was entered, and the
profit realized so far.  A fill of `d` units at a price, negative when selling, closes what it can of the position
(`closing`) and opens the rest: the closed part realizes its profit at the old average, the rest enters the average.
Both parts keep the value of the account at cost, less the profit realized (`basis_reduce`, `basis_extend`), so every
fill does (`basis_fill`).
-/

namespace AverageCost

@[ext]
structure Account (K : Type*) where
  cash : K
  position : K
  average : K
  realized : K

namespace Account

variable {K : Type*} [Field K] (a : Account K) (c o d x : K)

/-- The cash, with the position at cost, less the profit realized. -/
def basis : K := a.cash + a.position * a.average - a.realized

/-- Trades `c` units that close a part of the position. -/
def reduce : Account K :=
  { a with cash := a.cash - x * c, position := a.position + c, realized := a.realized + (a.average - x) * c }

/-- Trades `o` units that add to the position.  A flat account has the average 0, by the division. -/
def extend : Account K :=
  { a with
    cash := a.cash - x * o
    position := a.position + o
    average := (a.position * a.average + x * o) / (a.position + o) }

theorem basis_reduce : (a.reduce c x).basis = a.basis := by
  unfold reduce basis
  ring

variable {a c o d x}

theorem basis_extend (h : a.position + o = 0 → a.position = 0) : (a.extend o x).basis = a.basis := by
  by_cases hzero : a.position + o = 0
  · -- flat before and after
    have hpos := h hzero
    have ho : o = 0 := by rwa [hpos, zero_add] at hzero
    simp [extend, basis, hpos, ho]
  · unfold extend basis
    dsimp only
    rw [mul_div_cancel₀ _ hzero]
    ring

/-- A flat account has the average 0. -/
theorem average_extend (h : (a.extend o x).position = 0) : (a.extend o x).average = 0 := by
  change a.position + o = 0 at h
  simp [extend, h]

@[simp] theorem reduce_zero : a.reduce 0 x = a := by simp [reduce]

theorem extend_zero (h : a.position ≠ 0) : a.extend 0 x = a := by
  simp [extend, h]

/-- A flat account that opens a position has the price as its average. -/
theorem extend_of_flat (h : a.position = 0) (ho : o ≠ 0) :
    a.extend o x = { a with cash := a.cash - x * o, position := o, average := x } := by
  simp [extend, h, ho]

/-! ### Fills -/

variable [LinearOrder K]

/-- The part of a fill of `d` units that closes the position `p`. -/
def closing (p d : K) : K := if 0 < p then max (min d 0) (-p) else min (max d 0) (-p)

variable (a d x) in
/-- A fill of `d` units at the price `x`. -/
def fill : Account K := (a.reduce (closing a.position d) x).extend (d - closing a.position d) x

theorem fill_adding (h : closing a.position d = 0) : a.fill d x = a.extend d x := by
  unfold fill
  rw [h, reduce_zero, sub_zero]

theorem fill_closing (h : closing a.position d = d) (hopen : a.position + d ≠ 0) : a.fill d x = a.reduce d x := by
  unfold fill
  rw [h, sub_self]
  exact extend_zero hopen

theorem fill_flat (h : closing a.position d = d) (hflat : a.position + d = 0) :
    a.fill d x = { a.reduce d x with average := 0 } := by
  unfold fill
  rw [h, sub_self]
  simp [extend, reduce, hflat]

/-- A fill that closes the position and opens one with the other sign. -/
theorem fill_turning (h : closing a.position d = -a.position) (hopen : a.position + d ≠ 0) :
    a.fill d x = ⟨a.cash - x * d, a.position + d, x, a.realized + (x - a.average) * a.position⟩ := by
  have hflat : (a.reduce (-a.position) x).position = 0 := add_neg_cancel a.position
  have hrest : d - -a.position ≠ 0 := by
    rw [sub_neg_eq_add, add_comm]
    exact hopen
  unfold fill
  rw [h, extend_of_flat hflat hrest]
  unfold reduce
  dsimp only
  congr 1 <;> ring

theorem average_fill (h : (a.fill d x).position = 0) : (a.fill d x).average = 0 := average_extend h

section Order

variable {p : K}

theorem closing_short_buy (hp : p < 0) (hd : 0 ≤ d) : closing p d = min d (-p) := by
  unfold closing
  rw [if_neg hp.not_gt, max_eq_left hd]

theorem closing_long_sell (hp : 0 < p) (hd : d ≤ 0) : closing p d = max d (-p) := by
  unfold closing
  rw [if_pos hp, min_eq_left hd]

variable [IsStrictOrderedRing K]

theorem closing_long_buy (hp : 0 ≤ p) (hd : 0 ≤ d) : closing p d = 0 := by
  unfold closing
  rw [min_eq_right hd, max_eq_left hd]
  split
  · exact max_eq_left (neg_nonpos.2 hp)
  · next hneg =>
    obtain rfl : p = 0 := le_antisymm (not_lt.1 hneg) hp
    rw [neg_zero, min_eq_right hd]

theorem closing_short_sell (hp : p ≤ 0) (hd : d ≤ 0) : closing p d = 0 := by
  unfold closing
  rw [if_neg (not_lt.2 hp), max_eq_right hd, min_eq_left (neg_nonneg.2 hp)]

/-- After its closing part a fill is spent, the position is flat, or the rest has the sign of the position. -/
theorem closing_spec (p d : K) : d - closing p d = 0 ∨ p + closing p d = 0 ∨
    0 < p + closing p d ∧ 0 < d - closing p d ∨ p + closing p d < 0 ∧ d - closing p d < 0 := by
  rcases le_total 0 d with hd | hd
  · rcases le_or_gt 0 p with hp | hp
    · rw [closing_long_buy hp hd, add_zero, sub_zero]
      rcases hd.eq_or_lt with hd | hd
      · exact Or.inl hd.symm
      · rcases hp.eq_or_lt with hp | hp
        · exact Or.inr (Or.inl hp.symm)
        · exact Or.inr (Or.inr (Or.inl ⟨hp, hd⟩))
    · rw [closing_short_buy hp hd]
      rcases min_choice d (-p) with h | h
      · exact Or.inl (by rw [h, sub_self])
      · exact Or.inr (Or.inl (by rw [h, add_neg_cancel]))
  · rcases le_or_gt p 0 with hp | hp
    · rw [closing_short_sell hp hd, add_zero, sub_zero]
      rcases hd.eq_or_lt with hd | hd
      · exact Or.inl hd
      · rcases hp.eq_or_lt with hp | hp
        · exact Or.inr (Or.inl hp)
        · exact Or.inr (Or.inr (Or.inr ⟨hp, hd⟩))
    · rw [closing_long_sell hp hd]
      rcases max_choice d (-p) with h | h
      · exact Or.inl (by rw [h, sub_self])
      · exact Or.inr (Or.inl (by rw [h, add_neg_cancel]))

end Order

/-- A fill keeps the value at cost, less the profit realized. -/
theorem basis_fill [IsStrictOrderedRing K] : (a.fill d x).basis = a.basis := by
  unfold fill
  rw [basis_extend, basis_reduce]
  intro hzero
  change a.position + closing a.position d + (d - closing a.position d) = 0 at hzero
  show a.position + closing a.position d = 0
  rcases closing_spec a.position d with hspent | hflat | ⟨hpos, hrest⟩ | ⟨hpos, hrest⟩
  · rwa [hspent, add_zero] at hzero
  · exact hflat
  · exact absurd hzero (add_pos hpos hrest).ne'
  · exact absurd hzero (add_neg hpos hrest).ne

end Account

end AverageCost
