import FeedHandler.Foundation.Interpolation
import FeedHandler.Foundation.Runs
import FeedHandler.LatencyTracker.Basic
import Mathlib.Data.List.GetD
import Mathlib.Data.List.Induction

/-!
# Percentiles and the `sorted_` flag

`percentile` sorts the samples when `sorted_` is false and sets it; `recordNs` and `reset` do not clear it.  So the
samples are sorted once, at the first query of a non-empty tracker, and stay as they are recorded from then on
(`exec_of_sorted`).  A query reads a sorted vector exactly when every sample recorded since the last reset, after that
first query, is at least as large as the samples before it (`query_correct_iff`).
-/

namespace FeedHandler

namespace LatencyTracker

variable {t : LatencyTracker} {calls : List Call}

/-! ### The lazy sort -/

theorem sortSamples_perm (t : LatencyTracker) : t.sortSamples.samplesNs.Perm t.samplesNs := by
  unfold sortSamples
  split
  · exact List.perm_insertionSort _ _
  · exact List.Perm.refl _

theorem sortSamples_of_sorted (h : t.sorted = true) : t.sortSamples = t := by
  simp [sortSamples, h]

/-- The vector that `percentile` indexes is sorted when the flag is not set, or when the samples are in order. -/
theorem sortSamples_pairwise (h : t.sorted = true → t.samplesNs.Pairwise (· ≤ ·)) :
    t.sortSamples.samplesNs.Pairwise (· ≤ ·) := by
  cases hs : t.sorted with
  | true =>
    rw [sortSamples_of_sorted hs]
    exact h hs
  | false =>
    simp only [sortSamples, hs, Bool.not_false, if_true]
    exact List.pairwise_insertionSort _ _

theorem sortSamples_ne_nil (h : t.samplesNs ≠ []) : t.sortSamples.samplesNs ≠ [] := by
  intro hnil
  have hperm := sortSamples_perm t
  rw [hnil] at hperm
  exact h hperm.nil_eq.symm

theorem percentile_snd (t : LatencyTracker) (p : ℚ) :
    (t.percentile p).2 = if t.samplesNs = [] then t else t.sortSamples := by
  unfold percentile
  by_cases h : t.samplesNs = []
  · simp [h]
  · simp only [List.isEmpty_iff, h, if_false]
    split
    · rfl
    · split <;> rfl

/-! ### Reading a sorted vector -/

theorem percentile_fst (h : t.samplesNs ≠ []) {p : ℚ} (h0 : 0 < p) (h100 : p < 100) :
    (t.percentile p).1 = Interpolation.value t.sortSamples.sample (t.sortSamples.rank p) := by
  unfold percentile
  simp only [List.isEmpty_iff, h, if_false, if_neg (not_le.2 h0), if_neg (not_le.2 h100), ge_iff_le]
  rfl

/-- `rank` runs from the first index to the last one. -/
theorem rank_bounds (h : t.samplesNs ≠ []) {p : ℚ} (h0 : 0 < p) (h100 : p < 100) :
    0 ≤ t.rank p ∧ t.upper p ≤ t.samplesNs.length - 1 := by
  have hlen : 1 ≤ t.samplesNs.length := List.length_pos_iff.2 h
  have hlast : (t.samplesNs.length : ℚ) - 1 = ((t.samplesNs.length - 1 : Nat) : ℚ) := by
    rw [Nat.cast_sub hlen, Nat.cast_one]
  have hnonneg : (0 : ℚ) ≤ ((t.samplesNs.length - 1 : Nat) : ℚ) := Nat.cast_nonneg _
  have hp : 0 ≤ p / 100 := by linarith
  have hp1 : p / 100 ≤ 1 := by linarith
  unfold upper rank
  rw [hlast]
  exact ⟨mul_nonneg hp hnonneg, Nat.ceil_le.2 (mul_le_of_le_one_left hnonneg hp1)⟩

theorem sample_monotone (h : t.samplesNs.Pairwise (· ≤ ·)) :
    MonotoneOn t.sample (Set.Iic (t.samplesNs.length - 1)) := by
  intro i _ j hj hij
  have hj' : j ≤ t.samplesNs.length - 1 := hj
  rcases hij.eq_or_lt with rfl | hlt
  · exact le_refl _
  · have hlen : j < t.samplesNs.length := by omega
    unfold sample
    rw [List.getD_eq_getElem _ _ hlen, List.getD_eq_getElem _ _ (by omega), Int.cast_le]
    exact List.pairwise_iff_getElem.1 h i j (by omega) hlen hlt

/-- `minNs()` is the sample below the others, wherever it is. -/
theorem minNs_eq {x : ℤ} (hx : x ∈ t.samplesNs) (hle : ∀ y ∈ t.samplesNs, x ≤ y) : t.minNs = x := by
  have hmin : t.samplesNs.min? = some x := List.min?_eq_some_iff.2 ⟨hx, hle⟩
  rw [minNs, hmin]

theorem maxNs_eq {x : ℤ} (hx : x ∈ t.samplesNs) (hle : ∀ y ∈ t.samplesNs, y ≤ x) : t.maxNs = x := by
  have hmax : t.samplesNs.max? = some x := List.max?_eq_some_iff.2 ⟨hx, hle⟩
  rw [maxNs, hmax]

/-! ### What a query promises -/

/-- What `percentile p` promises when it indexes the vector: the vector is sorted and holds the samples `samples`, the
ends are the least and the greatest sample, the indices are in range and the value does not decrease in `p`. -/
structure QueryCorrect (t : LatencyTracker) (samples : List ℤ) (p : ℚ) : Prop where
  sorted : (t.percentile p).2.samplesNs.Pairwise (· ≤ ·)
  perm : (t.percentile p).2.samplesNs.Perm samples
  front : p ≤ 0 → (t.percentile p).1 = t.minNs
  back : 100 ≤ p → (t.percentile p).1 = t.maxNs
  inRange : 0 < p → p < 100 → (t.percentile p).2.lower p < (t.percentile p).2.samplesNs.length ∧
    (t.percentile p).2.upper p < (t.percentile p).2.samplesNs.length
  mono : ∀ q, 0 < p → p ≤ q → q < 100 → (t.percentile p).1 ≤ (t.percentile q).1

private theorem sample_zero_eq_minNs (h : t.samplesNs ≠ []) (hs : t.sortSamples.samplesNs.Pairwise (· ≤ ·)) :
    t.sortSamples.sample 0 = t.minNs := by
  obtain ⟨x, l, hl⟩ := List.exists_cons_of_ne_nil (sortSamples_ne_nil h)
  rw [hl, List.pairwise_cons] at hs
  have hmem : ∀ y, y ∈ t.samplesNs ↔ y = x ∨ y ∈ l := fun y => by
    rw [← (sortSamples_perm t).mem_iff, hl, List.mem_cons]
  rw [minNs_eq ((hmem x).2 (Or.inl rfl)) fun y hy => ?_]
  · simp [sample, hl]
  · rcases (hmem y).1 hy with rfl | hy'
    · exact le_refl _
    · exact hs.1 y hy'

private theorem sample_last_eq_maxNs (h : t.samplesNs ≠ []) (hs : t.sortSamples.samplesNs.Pairwise (· ≤ ·)) :
    t.sortSamples.sample (t.sortSamples.samplesNs.length - 1) = t.maxNs := by
  obtain ⟨l, x, hl⟩ := (List.eq_nil_or_concat t.sortSamples.samplesNs).resolve_left (sortSamples_ne_nil h)
  rw [List.concat_eq_append] at hl
  rw [hl, List.pairwise_append] at hs
  have hmem : ∀ y, y ∈ t.samplesNs ↔ y ∈ l ∨ y = x := fun y => by
    rw [← (sortSamples_perm t).mem_iff, hl, List.mem_append, List.mem_singleton]
  rw [maxNs_eq ((hmem x).2 (Or.inr rfl)) fun y hy => ?_]
  · simp [sample, hl]
  · rcases (hmem y).1 hy with hy' | rfl
    · exact hs.2.2 y hy' x (List.mem_singleton_self x)
    · exact le_refl _

/-- A query keeps its promises when it finds the vector sorted. -/
theorem queryCorrect_of_pairwise {samples : List ℤ} (h : t.samplesNs ≠ []) (hperm : t.samplesNs.Perm samples)
    (hs : t.sortSamples.samplesNs.Pairwise (· ≤ ·)) (p : ℚ) : QueryCorrect t samples p := by
  have hsnd : (t.percentile p).2 = t.sortSamples := by rw [percentile_snd, if_neg h]
  have hne := sortSamples_ne_nil h
  have hpos := List.length_pos_iff.2 hne
  refine ⟨hsnd ▸ hs, hsnd ▸ (sortSamples_perm t).trans hperm, fun hp => ?_, fun hp => ?_, fun h0 h100 => ?_,
    fun q h0 hq h100 => ?_⟩
  · rw [← sample_zero_eq_minNs h hs]
    simp [percentile, h, hp]
  · have hp0 : ¬p ≤ 0 := by linarith
    rw [← sample_last_eq_maxNs h hs]
    simp [percentile, h, hp, hp0]
  · rw [hsnd]
    have hupper := (rank_bounds hne h0 h100).2
    have hle : t.sortSamples.lower p ≤ t.sortSamples.upper p := Nat.floor_le_ceil _
    omega
  · -- the rank grows with `p` and stays among the indices, where the samples do not decrease
    have hp := rank_bounds hne h0 (hq.trans_lt h100)
    have hr := rank_bounds hne (h0.trans_le hq) h100
    rw [percentile_fst h h0 (hq.trans_lt h100), percentile_fst h (h0.trans_le hq) h100]
    refine Interpolation.value_mono (sample_monotone hs) hp.1 ?_ hr.2
    have hlast : (0 : ℚ) ≤ (t.sortSamples.samplesNs.length : ℚ) - 1 := by
      have hone : (1 : ℚ) ≤ (t.sortSamples.samplesNs.length : ℚ) := by exact_mod_cast hpos
      linarith
    exact mul_le_mul_of_nonneg_right (by linarith) hlast

/-! ### The samples and the flag over a history of calls -/

theorem run_concat (calls : List Call) (call : Call) : run (calls ++ [call]) = (run calls).exec call := by
  simp [run, List.foldl_append]

/-- The vector holds the samples recorded since the last reset, in some order. -/
theorem run_perm (calls : List Call) : (run calls).samplesNs.Perm (recorded calls) := by
  refine Runs.foldl_simulates (R := fun (t : LatencyTracker) (l : List ℤ) => t.samplesNs.Perm l)
    (fun t l call h => ?_) (List.Perm.refl _) calls
  cases call with
  | recordNs nanoseconds => exact h.append_right [nanoseconds]
  | percentile p =>
    show (t.percentile p).2.samplesNs.Perm l
    rw [percentile_snd]
    split
    · exact h
    · exact (sortSamples_perm t).trans h
  | reset => exact List.Perm.refl _

theorem run_eq_nil_iff (calls : List Call) : (run calls).samplesNs = [] ↔ recorded calls = [] :=
  ⟨fun h => (h ▸ run_perm calls).nil_eq.symm, fun h => (h ▸ run_perm calls).eq_nil⟩

/-- A query has been made when there were samples. -/
def Asked (calls : List Call) : Prop :=
  ∃ before p after, calls = before ++ .percentile p :: after ∧ recorded before ≠ []

theorem asked_concat (calls : List Call) (call : Call) :
    Asked (calls ++ [call]) ↔ Asked calls ∨ (∃ p, call = .percentile p) ∧ recorded calls ≠ [] := by
  constructor
  · rintro ⟨before, p, after, he, hne⟩
    rcases List.eq_nil_or_concat after with rfl | ⟨after, last, rfl⟩
    · obtain ⟨rfl, hcall⟩ := List.append_inj' he rfl
      exact Or.inr ⟨⟨p, List.singleton_inj.1 hcall⟩, hne⟩
    · rw [List.concat_eq_append, ← List.cons_append, ← List.append_assoc] at he
      exact Or.inl ⟨before, p, after, (List.append_inj' he rfl).1, hne⟩
  · rintro (⟨before, p, after, rfl, hne⟩ | ⟨⟨p, rfl⟩, hne⟩)
    · exact ⟨before, p, after ++ [call], by simp, hne⟩
    · exact ⟨calls, p, [], rfl, hne⟩

/-- The flag is set once and for all by the first query that finds samples. -/
theorem sorted_iff_asked (calls : List Call) : (run calls).sorted = true ↔ Asked calls := by
  induction calls using List.reverseRecOn with
  | nil =>
    refine iff_of_false (by decide) ?_
    rintro ⟨before, p, after, he, -⟩
    simp at he
  | append_singleton calls call ih =>
    rw [run_concat, asked_concat, ← ih]
    cases call with
    | recordNs nanoseconds => simp [exec, recordNs]
    | percentile p =>
      show ((run calls).percentile p).2.sorted = true ↔ _
      rw [percentile_snd]
      by_cases hnil : (run calls).samplesNs = []
      · -- the early return leaves the flag as it is
        rw [if_pos hnil]
        simp [(run_eq_nil_iff calls).1 hnil]
      · rw [if_neg hnil]
        have hrec : recorded calls ≠ [] := fun h => hnil ((run_eq_nil_iff calls).2 h)
        cases hs : (run calls).sorted <;> simp [sortSamples, hs, hrec]
    | reset => simp [exec, reset]

/-- Since the last reset, no sample that came after a query of a non-empty tracker is below a sample before it. -/
def Rising (calls : List Call) : Prop :=
  ∀ before nanoseconds after, calls = before ++ .recordNs nanoseconds :: after → Call.reset ∉ after → Asked before →
    ∀ x ∈ recorded before, x ≤ nanoseconds

theorem Rising.of_concat {call : Call} (h : Rising (calls ++ [call])) (hcall : call ≠ .reset) : Rising calls := by
  intro before nanoseconds after he hreset hasked
  refine h before nanoseconds (after ++ [call]) (by simp [he]) ?_ hasked
  simpa [hreset] using Ne.symm hcall

/-- Samples that rise stay in order once the flag is set. -/
theorem Rising.pairwise (h : Rising calls) (hs : (run calls).sorted = true) :
    (run calls).samplesNs.Pairwise (· ≤ ·) := by
  induction calls using List.reverseRecOn with
  | nil => exact List.Pairwise.nil
  | append_singleton calls call ih =>
    rw [run_concat] at hs ⊢
    cases call with
    | recordNs nanoseconds =>
      have hs' : (run calls).sorted = true := hs
      refine List.pairwise_append.2 ⟨ih (h.of_concat (by simp)) hs', List.pairwise_singleton _ _, ?_⟩
      intro x hx y hy
      obtain rfl : y = nanoseconds := by simpa using hy
      exact h calls y [] rfl (by simp) ((sorted_iff_asked calls).1 hs') x ((run_perm calls).mem_iff.1 hx)
    | percentile p =>
      show ((run calls).percentile p).2.samplesNs.Pairwise _
      rw [percentile_snd]
      split
      · rename_i hnil
        rw [hnil]
        exact List.Pairwise.nil
      · exact sortSamples_pairwise (ih (h.of_concat (by simp)))
    | reset => exact List.Pairwise.nil

/-- With the flag set and no reset the calls only add to the vector. -/
theorem exec_of_sorted (hs : t.sorted = true) {more : List Call} (hreset : Call.reset ∉ more) :
    (more.foldl exec t).sorted = true ∧ t.samplesNs <+: (more.foldl exec t).samplesNs := by
  induction more generalizing t with
  | nil => exact ⟨hs, List.prefix_refl _⟩
  | cons call more ih =>
    have hmore : Call.reset ∉ more := fun h => hreset (List.mem_cons_of_mem _ h)
    have hone : (t.exec call).sorted = true ∧ t.samplesNs <+: (t.exec call).samplesNs := by
      cases call with
      | recordNs nanoseconds => exact ⟨hs, List.prefix_append _ _⟩
      | percentile p =>
        have hsame : t.exec (.percentile p) = t := by
          show (t.percentile p).2 = t
          rw [percentile_snd, sortSamples_of_sorted hs, ite_self]
        rw [hsame]
        exact ⟨hs, List.prefix_refl _⟩
      | reset => exact absurd List.mem_cons_self hreset
    obtain ⟨hs', hprefix⟩ := ih hone.1 hmore
    exact ⟨hs', hone.2.trans hprefix⟩

/-- A vector that is sorted when it is read has risen since the flag was set. -/
theorem rising_of_pairwise (h : (run calls).sortSamples.samplesNs.Pairwise (· ≤ ·)) : Rising calls := by
  rintro before nanoseconds after rfl hreset hasked x hx
  have hs : ((run before).recordNs nanoseconds).sorted = true := (sorted_iff_asked before).2 hasked
  have hrun : run (before ++ .recordNs nanoseconds :: after) =
      after.foldl exec ((run before).recordNs nanoseconds) := by
    simp only [run, List.foldl_append, List.foldl_cons]
    rfl
  obtain ⟨hsorted, hprefix⟩ := exec_of_sorted hs hreset
  rw [hrun, sortSamples_of_sorted hsorted] at h
  have hpair := h.sublist hprefix.sublist
  exact (List.pairwise_append.1 hpair).2.2 x ((run_perm before).mem_iff.2 hx) nanoseconds (by simp)

/-- After any sequence of calls, a query of a non-empty tracker keeps its promises exactly when the samples recorded
since the last reset rise from the first query of a non-empty tracker on. -/
theorem query_correct_iff (calls : List Call) (p : ℚ) :
    (recorded calls ≠ [] → QueryCorrect (run calls) (recorded calls) p) ↔ Rising calls := by
  constructor
  · intro h
    by_cases hrec : recorded calls = []
    · -- nothing was recorded since the last reset
      have hnil := (run_eq_nil_iff calls).2 hrec
      refine rising_of_pairwise ?_
      have hperm := sortSamples_perm (run calls)
      rw [hnil] at hperm
      rw [hperm.eq_nil]
      exact List.Pairwise.nil
    · have hne : (run calls).samplesNs ≠ [] := fun h => hrec ((run_eq_nil_iff calls).1 h)
      have hsorted := (h hrec).sorted
      rw [percentile_snd, if_neg hne] at hsorted
      exact rising_of_pairwise hsorted
  · intro h hrec
    have hne : (run calls).samplesNs ≠ [] := fun hnil => hrec ((run_eq_nil_iff calls).1 hnil)
    exact queryCorrect_of_pairwise hne (run_perm calls) (sortSamples_pairwise h.pairwise) p

/-- The sample 3 comes after a query, below the sample 5: the 0th percentile is 5 and `minNs()` is 3. -/
theorem query_correct_late_sample :
    ¬ ∀ (calls : List Call) (p : ℚ), recorded calls ≠ [] → QueryCorrect (run calls) (recorded calls) p := by
  intro h
  have hcorrect := h [.recordNs 5, .percentile 0, .recordNs 3] 0 (by decide)
  have hfront := hcorrect.front (le_refl 0)
  have hmin : (run [.recordNs 5, .percentile 0, .recordNs 3]).minNs = 3 := by
    refine minNs_eq ?_ ?_ <;> decide
  rw [hmin] at hfront
  exact absurd hfront (by decide)

end LatencyTracker

end FeedHandler
