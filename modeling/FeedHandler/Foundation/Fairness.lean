import Mathlib.Data.Nat.Notation
import Mathlib.Tactic.ByContra

/-!
# Fair schedules

A system of threads takes one step of one thread at a time; a schedule is fair when every thread is scheduled again and
again.  `reaches` is the rule for progress under fair schedules: in every state that is not yet at the goal one thread
helps, its step brings the state closer, and the steps of the other threads do no harm, so that the thread is still the
one that helps when its turn comes.
-/

namespace Fairness

variable {σ ι : Type*}

/-- The states of a run. -/
def trace (step : σ → ι → σ) (s : σ) (schedule : ℕ → ι) : ℕ → σ
  | 0 => s
  | n + 1 => step (trace step s schedule n) (schedule n)

/-- Every thread is scheduled after every moment. -/
def Fair (schedule : ℕ → ι) : Prop := ∀ i n, ∃ m, n ≤ m ∧ schedule m = i

variable {step : σ → ι → σ} {I : σ → Prop} {s : σ} {schedule : ℕ → ι}

theorem trace_eq_foldl (step : σ → ι → σ) (s : σ) (schedule : ℕ → ι) (n : ℕ) :
    trace step s schedule n = ((List.range n).map schedule).foldl step s := by
  induction n with
  | zero => rfl
  | succ n ih => rw [List.range_succ, List.map_append, List.foldl_append, ← ih]; rfl

/-- A run goes on from each of its states. -/
theorem trace_add (step : σ → ι → σ) (s : σ) (schedule : ℕ → ι) (n d : ℕ) :
    trace step s schedule (n + d) = trace step (trace step s schedule n) (fun k => schedule (n + k)) d := by
  induction d with
  | zero => rfl
  | succ d ih =>
    show step (trace step s schedule (n + d)) (schedule (n + d)) = _
    rw [ih]
    rfl

theorem Fair.shift (h : Fair schedule) (n : ℕ) : Fair fun k => schedule (n + k) := fun i k => by
  obtain ⟨m, hle, hturn⟩ := h i (n + k)
  have hshift : n + (m - n) = m := Nat.add_sub_cancel' (by omega)
  exact ⟨m - n, by omega, (congrArg schedule hshift).trans hturn⟩

theorem trace_invariant (hI : ∀ s i, I s → I (step s i)) (h0 : I s) (schedule : ℕ → ι) (n : ℕ) :
    I (trace step s schedule n) := by
  induction n with
  | zero => exact h0
  | succ n ih => exact hI _ _ ih

/-- What the threads do in a state that is not at the goal. -/
structure Helpful (step : σ → ι → σ) (goal : σ → Prop) (rank : σ → ℕ) (helper : σ → ι) (s : σ) : Prop where
  helps : goal (step s (helper s)) ∨ rank (step s (helper s)) < rank s
  harmless : ∀ i, goal (step s i) ∨ rank (step s i) < rank s ∨
    rank (step s i) = rank s ∧ helper (step s i) = helper s

variable {goal : σ → Prop} {rank : σ → ℕ} {helper : σ → ι}

/-- Up to the next turn of the thread that helps, the rank drops or nothing is lost. -/
private theorem closer_or_waits (hI : ∀ s i, I s → I (step s i)) (h0 : I s)
    (hhelp : ∀ s, I s → ¬goal s → Helpful step goal rank helper s) {n : ℕ}
    (hgoal : ∀ m, ¬goal (trace step s schedule m)) (d : ℕ) :
    (∃ m, rank (trace step s schedule m) < rank (trace step s schedule n)) ∨
      rank (trace step s schedule (n + d)) = rank (trace step s schedule n) ∧
        helper (trace step s schedule (n + d)) = helper (trace step s schedule n) := by
  induction d with
  | zero => exact Or.inr ⟨rfl, rfl⟩
  | succ d ih =>
    rcases ih with hcloser | ⟨hrank, hhelper⟩
    · exact Or.inl hcloser
    · have hstate := hhelp _ (trace_invariant hI h0 schedule (n + d)) (hgoal _)
      rcases hstate.harmless (schedule (n + d)) with hdone | hless | ⟨heq, hsame⟩
      · exact absurd hdone (hgoal (n + d + 1))
      · exact Or.inl ⟨n + d + 1, by rw [← hrank]; exact hless⟩
      · exact Or.inr ⟨heq.trans hrank, hsame.trans hhelper⟩

/-- Every fair schedule reaches the goal. -/
theorem reaches (hI : ∀ s i, I s → I (step s i)) (h0 : I s)
    (hhelp : ∀ s, I s → ¬goal s → Helpful step goal rank helper s) (hfair : Fair schedule) :
    ∃ n, goal (trace step s schedule n) := by
  by_contra hnever
  have hgoal : ∀ m, ¬goal (trace step s schedule m) := fun m hm => hnever ⟨m, hm⟩
  -- there is no least rank on the way
  have hsmaller : ∀ n, ∃ m, rank (trace step s schedule m) < rank (trace step s schedule n) := by
    intro n
    obtain ⟨m, hle, hturn⟩ := hfair (helper (trace step s schedule n)) n
    obtain ⟨d, rfl⟩ := Nat.exists_eq_add_of_le hle
    rcases closer_or_waits hI h0 hhelp hgoal d with hcloser | ⟨hrank, hhelper⟩
    · exact hcloser
    · have hstate := hhelp _ (trace_invariant hI h0 schedule (n + d)) (hgoal _)
      rcases hstate.helps with hdone | hless
      · rw [hhelper, ← hturn] at hdone
        exact absurd hdone (hgoal (n + d + 1))
      · rw [hhelper, ← hturn, hrank] at hless
        exact ⟨n + d + 1, hless⟩
  have hno : ∀ r n, ¬rank (trace step s schedule n) ≤ r := by
    intro r
    induction r with
    | zero =>
      intro n hle
      obtain ⟨m, hm⟩ := hsmaller n
      omega
    | succ r ih =>
      intro n hle
      obtain ⟨m, hm⟩ := hsmaller n
      exact ih m (by omega)
  exact hno _ 0 (Nat.le_refl _)

end Fairness
