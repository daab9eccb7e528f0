import Mathlib.Algebra.BigOperators.Group.List.Basic
import Mathlib.Data.List.AList
import Mathlib.Tactic.Abel

/-!
# Totals over a container

How a sum over all entries changes when one entry does, for lists under `List.set` and for the finite maps
`AList` under `insert` and `erase`.  The equations are written without subtraction, so that they serve counts and
signed sums alike.
-/

namespace Totals

variable {α κ M : Type*} [AddCommMonoid M]

/-- Overwriting one entry of a list trades its share of the sum. -/
theorem sum_map_set (f : α → M) {l : List α} {i : Nat} (h : i < l.length) (a : α) :
    ((l.set i a).map f).sum + f l[i] = (l.map f).sum + f a := by
  induction l generalizing i with
  | nil => simp at h
  | cons x l ih =>
    cases i with
    | zero =>
      simp only [List.set_cons_zero, List.map_cons, List.sum_cons, List.getElem_cons_zero]
      abel
    | succ i =>
      simp only [List.set_cons_succ, List.map_cons, List.sum_cons, List.getElem_cons_succ]
      rw [add_assoc, ih (by simpa using h), add_assoc]

/-- The total of `f` over a finite map. -/
def total (f : κ → α → M) (s : AList fun _ : κ => α) : M := (s.entries.map fun e => f e.1 e.2).sum

/-- Counting is summing ones. -/
theorem countP_entries (p : κ → α → Bool) (s : AList fun _ : κ => α) :
    s.entries.countP (fun e => p e.1 e.2) = total (fun k a => (p k a).toNat) s := by
  unfold total
  induction s.entries with
  | nil => rfl
  | cons e l ih =>
    rw [List.countP_cons, ih, List.map_cons, List.sum_cons, Nat.add_comm]
    dsimp only
    cases p e.1 e.2 <;> rfl

theorem length_entries (s : AList fun _ : κ => α) : s.entries.length = total (fun _ _ => 1) s := by
  simp [total]

variable [DecidableEq κ]

private theorem sum_kerase (f : κ → α → M) (k : κ) (l : List (Σ _ : κ, α)) :
    ((List.kerase k l).map fun e => f e.1 e.2).sum + (l.dlookup k).elim 0 (f k) =
      (l.map fun e => f e.1 e.2).sum := by
  induction l with
  | nil => simp
  | cons e l ih =>
    obtain ⟨k', a⟩ := e
    by_cases h : k = k'
    · subst h
      simp [add_comm]
    · rw [List.kerase_cons_ne h, List.dlookup_cons_ne _ _ h]
      simp only [List.map_cons, List.sum_cons]
      rw [add_assoc, ih]

theorem total_erase (f : κ → α → M) (k : κ) (s : AList fun _ : κ => α) :
    total f (s.erase k) + (s.lookup k).elim 0 (f k) = total f s := sum_kerase f k s.entries

theorem total_insert (f : κ → α → M) (k : κ) (a : α) (s : AList fun _ : κ => α) :
    total f (s.insert k a) + (s.lookup k).elim 0 (f k) = total f s + f k a := by
  have h : total f (s.insert k a) = f k a + total f (s.erase k) := by
    unfold total
    rw [AList.entries_insert, List.map_cons, List.sum_cons]
    rfl
  rw [h, ← total_erase f k s]
  abel

end Totals
