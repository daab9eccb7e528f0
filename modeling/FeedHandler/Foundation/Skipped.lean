import Mathlib.Data.List.Induction
import Mathlib.Data.Set.Card
import Mathlib.Order.Interval.Finset.Nat

/-!
# Skipped numbers

Numbers from one on arrive in any order.  A number is skipped when a greater one arrives before it does; a message that
arrives skips exactly the numbers between the highest one so far and its own (`mem_skipped_append`).
-/

namespace SequenceNumbers

/-- The numbers before which a greater one arrives. -/
def skipped (arrivals : List ℕ) : Set ℕ :=
  {n | 1 ≤ n ∧ ∃ pre s post, arrivals = pre ++ s :: post ∧ n < s ∧ n ∉ pre}

/-- The highest number so far; zero before the first one. -/
def highest (arrivals : List ℕ) : ℕ := arrivals.foldl max 0

@[simp] theorem highest_append (arrivals : List ℕ) (s : ℕ) : highest (arrivals ++ [s]) = max (highest arrivals) s := by
  simp [highest]

theorem le_highest {arrivals : List ℕ} {s : ℕ} (h : s ∈ arrivals) : s ≤ highest arrivals := by
  induction arrivals using List.reverseRecOn with
  | nil => cases h
  | append_singleton arrivals t ih =>
    rw [List.mem_append, List.mem_singleton] at h
    rw [highest_append]
    rcases h with h | rfl
    · have hle := ih h
      omega
    · omega

theorem highest_mem {arrivals : List ℕ} (h : highest arrivals ≠ 0) : highest arrivals ∈ arrivals := by
  induction arrivals using List.reverseRecOn with
  | nil => exact absurd rfl h
  | append_singleton arrivals t ih =>
    rw [highest_append] at h ⊢
    rw [List.mem_append, List.mem_singleton]
    rcases Nat.le_total (highest arrivals) t with hle | hle
    · exact Or.inr (max_eq_right hle)
    · rw [max_eq_left hle] at h ⊢
      exact Or.inl (ih h)

/-- The highest number is the last one when none before it is greater. -/
theorem highest_append_eq_iff {arrivals : List ℕ} {s : ℕ} :
    highest (arrivals ++ [s]) = s ↔ ∀ x ∈ arrivals, x ≤ s := by
  rw [highest_append]
  constructor
  · intro h x hx
    have hle := le_highest hx
    omega
  · intro h
    by_cases hzero : highest arrivals = 0
    · omega
    · have hle := h _ (highest_mem hzero)
      omega

theorem lt_highest_of_mem_skipped {arrivals : List ℕ} {n : ℕ} (h : n ∈ skipped arrivals) : n < highest arrivals := by
  obtain ⟨-, pre, s, post, rfl, hlt, -⟩ := h
  have hle : s ≤ highest (pre ++ s :: post) := le_highest (by simp)
  omega

/-- Where a split of a list with a last element cuts it. -/
theorem split_append {α : Type*} {l pre post : List α} {a b : α} (h : l ++ [a] = pre ++ b :: post) :
    (pre = l ∧ b = a) ∨ ∃ post', post = post' ++ [a] ∧ l = pre ++ b :: post' := by
  rcases List.eq_nil_or_concat post with rfl | ⟨post', c, rfl⟩
  · obtain ⟨rfl, hlast⟩ := List.append_inj' h rfl
    exact Or.inl ⟨rfl, (List.singleton_inj.1 hlast).symm⟩
  · rw [List.concat_eq_append, ← List.cons_append, ← List.append_assoc] at h
    obtain ⟨rfl, hlast⟩ := List.append_inj' h rfl
    obtain rfl := List.singleton_inj.1 hlast
    exact Or.inr ⟨post', List.concat_eq_append, rfl⟩

/-- An arrival skips what lies between the highest number so far and its own. -/
theorem mem_skipped_append {arrivals : List ℕ} {s n : ℕ} :
    n ∈ skipped (arrivals ++ [s]) ↔ n ∈ skipped arrivals ∨ highest arrivals < n ∧ n < s := by
  constructor
  · rintro ⟨hone, pre, t, post, hsplit, hlt, hnew⟩
    rcases split_append hsplit with ⟨rfl, rfl⟩ | ⟨post', -, harrivals⟩
    · -- the last arrival is the greater number
      by_cases hhigh : highest pre < n
      · exact Or.inr ⟨hhigh, hlt⟩
      · have hmem : highest pre ∈ pre := highest_mem (by omega)
        have hne : n ≠ highest pre := by
          rintro rfl
          exact hnew hmem
        obtain ⟨start, rest, hpre⟩ := List.append_of_mem hmem
        refine Or.inl ⟨hone, start, highest pre, rest, hpre, by omega, fun hn => hnew ?_⟩
        rw [hpre]
        exact List.mem_append_left _ hn
    · exact Or.inl ⟨hone, pre, t, post', harrivals, hlt, hnew⟩
  · rintro (⟨hone, pre, t, post, rfl, hlt, hnew⟩ | ⟨hhigh, hlt⟩)
    · exact ⟨hone, pre, t, post ++ [s], by simp, hlt, hnew⟩
    · refine ⟨by omega, arrivals, s, [], rfl, hlt, fun hn => ?_⟩
      have hle := le_highest hn
      omega

theorem skipped_nil : skipped [] = ∅ := by
  ext n
  refine iff_of_false ?_ (by simp)
  rintro ⟨-, pre, s, post, hsplit, -⟩
  simp at hsplit

theorem finite_skipped (arrivals : List ℕ) : (skipped arrivals).Finite :=
  (Set.finite_Iio (highest arrivals)).subset fun _ => lt_highest_of_mem_skipped

/-- How many numbers an arrival skips. -/
theorem ncard_skipped_append (arrivals : List ℕ) (s : ℕ) :
    (skipped (arrivals ++ [s])).ncard = (skipped arrivals).ncard + (s - highest arrivals - 1) := by
  have hunion : skipped (arrivals ++ [s]) = skipped arrivals ∪ ↑(Finset.Ioo (highest arrivals) s) := by
    ext n
    rw [mem_skipped_append]
    simp
  have hdisjoint : Disjoint (skipped arrivals) ↑(Finset.Ioo (highest arrivals) s) := by
    rw [Set.disjoint_left]
    intro n hn hnew
    have hlt := lt_highest_of_mem_skipped hn
    rw [Finset.coe_Ioo, Set.mem_Ioo] at hnew
    omega
  rw [hunion, Set.ncard_union_eq hdisjoint (finite_skipped arrivals) (Finset.finite_toSet _), Set.ncard_coe_finset,
    Nat.card_Ioo]

theorem ncard_skipped_le (arrivals : List ℕ) : (skipped arrivals).ncard ≤ highest arrivals := by
  induction arrivals using List.reverseRecOn with
  | nil => simp [skipped_nil]
  | append_singleton arrivals s ih =>
    rw [ncard_skipped_append, highest_append]
    omega

end SequenceNumbers
