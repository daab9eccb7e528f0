import Mathlib.Data.List.Sort

/-!
# Order statistics

In a list in ascending order the elements up to a bound come first, so the element at a position is within the bound
exactly when the position is below the number of those elements (`getElem_le_iff`).
-/

namespace OrderStatistics

variable {α : Type*} [LinearOrder α] {l : List α}

theorem getElem_mono (h : l.Pairwise (· ≤ ·)) {i j : ℕ} (hij : i ≤ j) (hj : j < l.length) : l[i] ≤ l[j] := by
  rcases Nat.lt_or_eq_of_le hij with hlt | rfl
  · exact List.pairwise_iff_getElem.1 h i j _ hj hlt
  · exact le_refl _

/-- No element behind one above the bound is within it. -/
theorem countP_eq_zero {a b : α} (h : (a :: l).Pairwise (· ≤ ·)) (ha : b < a) :
    (a :: l).countP (· ≤ b) = 0 := by
  rw [List.countP_eq_zero]
  intro x hx
  have hax : a ≤ x := by
    rcases List.mem_cons.1 hx with rfl | hx
    · exact le_refl _
    · exact (List.pairwise_cons.1 h).1 x hx
  simpa using ha.trans_le hax

theorem getElem_le_iff (h : l.Pairwise (· ≤ ·)) {i : ℕ} (hi : i < l.length) (b : α) :
    l[i] ≤ b ↔ i < l.countP (· ≤ b) := by
  induction l generalizing i with
  | nil => cases hi
  | cons a l ih =>
    by_cases ha : a ≤ b
    · rw [List.countP_cons_of_pos (by simpa using ha)]
      cases i with
      | zero => simpa using ha
      | succ i =>
        rw [List.getElem_cons_succ, ih (List.pairwise_cons.1 h).2]
        omega
    · rw [countP_eq_zero h (not_le.1 ha)]
      have hle : (a :: l)[0] ≤ (a :: l)[i] := getElem_mono h (Nat.zero_le i) hi
      refine iff_of_false (fun hb => ha ?_) (Nat.not_lt_zero i)
      exact hle.trans hb

end OrderStatistics
