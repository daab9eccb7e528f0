import FeedHandler.Foundation.OrderStatistics
import FeedHandler.StreamServer.Histogram
import Mathlib.Algebra.Order.BigOperators.Group.List
import Mathlib.Algebra.Order.Floor.Semiring
import Mathlib.Data.List.GetD
import Mathlib.Data.Rat.Floor
import Mathlib.Tactic.Linarith
import Mathlib.Tactic.NormNum

/-!
# The figures of a snapshot (`stream_server.cpp`)

Beside the histogram a snapshot has the least, the greatest and the mean latency, five percentiles and a throughput.
Percentiles and histogram come from one sorted copy of the window and agree with each other: a percentile is within the
bound of a bucket exactly when the bucket counts more samples than its rank (`figures_agree`).  The throughput is the
number of messages processed since the last snapshot, over the time since then, or less if a `RESET` came in between
(`throughput_integral`).  Times, throughputs and the figures of the latencies are `double`s in the source; here they
are exact.
-/

namespace FeedHandler

namespace StreamServer

open Telemetry

/-- The figures of the section `latency`. -/
structure LatencyFigures where
  minNs : ℚ := 0
  meanNs : ℚ := 0
  p50 : ℚ := 0
  p90 : ℚ := 0
  p95 : ℚ := 0
  p99 : ℚ := 0
  p999 : ℚ := 0
  maxNs : ℚ := 0
deriving DecidableEq, Repr

/-- The index that `getPct(p)` computes, for this number of samples. -/
def pctIndex (size : Nat) (p : ℚ) : Nat := ⌊p / 100 * ((size : ℚ) - 1)⌋₊

/-- `getPct(p)` -/
def getPct (latCopy : List ℤ) (p : ℚ) : ℚ := (latCopy.getD (pctIndex latCopy.length p) 0 : ℤ)

/-- Calculate latency percentiles. -/
def latencyFigures (latencySamples : List ℤ) : LatencyFigures :=
  let latCopy := latencySamples.insertionSort (· ≤ ·)
  if latCopy.isEmpty then
    {}
  else
    { minNs := (latCopy.headD 0 : ℤ)
      maxNs := (latCopy.getLastD 0 : ℤ)
      meanNs := (latCopy.sum : ℤ) / (latCopy.length : ℚ)
      p50 := getPct latCopy 50
      p90 := getPct latCopy 90
      p95 := getPct latCopy 95
      p99 := getPct latCopy 99
      p999 := getPct latCopy (999 / 10) }

/-- `deltaProcessed` -/
def deltaProcessed (currentProcessed lastProcessedCount : UInt64) : UInt64 :=
  if currentProcessed ≥ lastProcessedCount then currentProcessed - lastProcessedCount else 0

/-- `currentThroughput`, as an exact quotient -/
def currentThroughput (currentProcessed lastProcessedCount : UInt64) (dtSec : ℚ) : ℚ :=
  if dtSec > 0 then (deltaProcessed currentProcessed lastProcessedCount).toNat / dtSec else 0

/-! ### Percentiles -/

theorem pctIndex_mono {size : Nat} (hsize : 0 < size) {p q : ℚ} (h : p ≤ q) : pctIndex size p ≤ pctIndex size q := by
  have hone : (1 : ℚ) ≤ size := by exact_mod_cast hsize
  refine Nat.floor_le_floor ?_
  exact mul_le_mul_of_nonneg_right (by linarith) (by linarith)

theorem pctIndex_hundred {size : Nat} (hsize : 0 < size) : pctIndex size 100 = size - 1 := by
  unfold pctIndex
  rw [div_self (by norm_num), one_mul, ← Nat.cast_one, ← Nat.cast_sub hsize, Nat.floor_natCast]

theorem pctIndex_lt {size : Nat} (hsize : 0 < size) {p : ℚ} (hp : p ≤ 100) : pctIndex size p < size := by
  have hle := pctIndex_mono hsize hp
  rw [pctIndex_hundred hsize] at hle
  omega

theorem pctIndex_zero (size : Nat) : pctIndex size 0 = 0 := by simp [pctIndex]

section Sorted

variable {latCopy : List ℤ}

theorem getPct_eq {p : ℚ} (hlt : pctIndex latCopy.length p < latCopy.length) :
    getPct latCopy p = (latCopy[pctIndex latCopy.length p] : ℤ) := by
  unfold getPct
  rw [List.getD_eq_getElem _ _ hlt]

theorem getPct_mono (hsorted : latCopy.Pairwise (· ≤ ·)) (hne : 0 < latCopy.length) {p q : ℚ} (hpq : p ≤ q)
    (hq : q ≤ 100) : getPct latCopy p ≤ getPct latCopy q := by
  rw [getPct_eq (pctIndex_lt hne (hpq.trans hq)), getPct_eq (pctIndex_lt hne hq)]
  exact_mod_cast OrderStatistics.getElem_mono hsorted (pctIndex_mono hne hpq) (pctIndex_lt hne hq)

/-- A percentile against a bound. -/
theorem getPct_le_iff (hsorted : latCopy.Pairwise (· ≤ ·)) (hne : 0 < latCopy.length) {p : ℚ} (hp : p ≤ 100) (b : ℤ) :
    getPct latCopy p ≤ b ↔ pctIndex latCopy.length p < latCopy.countP (· ≤ b) := by
  rw [getPct_eq (pctIndex_lt hne hp), ← OrderStatistics.getElem_le_iff hsorted (pctIndex_lt hne hp)]
  exact_mod_cast Iff.rfl

theorem front_eq (hne : 0 < latCopy.length) : ((latCopy.headD 0 : ℤ) : ℚ) = getPct latCopy 0 := by
  cases latCopy with
  | nil => cases hne
  | cons ns latCopy => rw [getPct, pctIndex_zero]; rfl

theorem back_eq (hne : 0 < latCopy.length) : ((latCopy.getLastD 0 : ℤ) : ℚ) = getPct latCopy 100 := by
  rw [getPct, pctIndex_hundred hne, List.getLastD_eq_getLast?, List.getLast?_eq_getElem?,
    List.getD_eq_getElem?_getD]

/-- The mean lies between the least and the greatest sample. -/
theorem mean_within (hsorted : latCopy.Pairwise (· ≤ ·)) (hne : 0 < latCopy.length) :
    getPct latCopy 0 ≤ (latCopy.sum : ℤ) / (latCopy.length : ℚ) ∧
      (latCopy.sum : ℤ) / (latCopy.length : ℚ) ≤ getPct latCopy 100 := by
  have hlength : (0 : ℚ) < latCopy.length := by exact_mod_cast hne
  have hzero := pctIndex_lt hne (by norm_num : (0 : ℚ) ≤ 100)
  have hhundred := pctIndex_lt hne (le_refl (100 : ℚ))
  have hleast : ∀ ns ∈ latCopy, latCopy[pctIndex latCopy.length 0] ≤ ns := by
    intro ns hns
    obtain ⟨i, hi, rfl⟩ := List.getElem_of_mem hns
    exact OrderStatistics.getElem_mono hsorted (by rw [pctIndex_zero]; exact Nat.zero_le i) hi
  have hgreatest : ∀ ns ∈ latCopy, ns ≤ latCopy[pctIndex latCopy.length 100] := by
    intro ns hns
    obtain ⟨i, hi, rfl⟩ := List.getElem_of_mem hns
    exact OrderStatistics.getElem_mono hsorted (by rw [pctIndex_hundred hne]; omega) hhundred
  rw [getPct_eq hzero, getPct_eq hhundred, le_div_iff₀ hlength, div_le_iff₀ hlength]
  have hlow := List.card_nsmul_le_sum latCopy _ hleast
  have hhigh := List.sum_le_card_nsmul latCopy _ hgreatest
  rw [nsmul_eq_mul] at hlow hhigh
  constructor
  · rw [mul_comm]
    exact_mod_cast hlow
  · rw [mul_comm]
    exact_mod_cast hhigh

end Sorted

/-- The percentiles with their figures. -/
def LatencyFigures.percentiles (f : LatencyFigures) : List (ℚ × ℚ) :=
  [(50, f.p50), (90, f.p90), (95, f.p95), (99, f.p99), (999 / 10, f.p999)]

theorem latencyFigures_eq {latencySamples : List ℤ} (hne : latencySamples ≠ []) :
    let latCopy := latencySamples.insertionSort (· ≤ ·)
    latencyFigures latencySamples =
      { minNs := getPct latCopy 0
        maxNs := getPct latCopy 100
        meanNs := (latCopy.sum : ℤ) / (latCopy.length : ℚ)
        p50 := getPct latCopy 50
        p90 := getPct latCopy 90
        p95 := getPct latCopy 95
        p99 := getPct latCopy 99
        p999 := getPct latCopy (999 / 10) } := by
  intro latCopy
  have hlength : 0 < latCopy.length := by
    rw [List.length_insertionSort]
    exact List.length_pos_iff.2 hne
  have hempty : ¬ latCopy.isEmpty = true := by
    rw [List.isEmpty_iff, ← List.length_eq_zero_iff]
    omega
  unfold latencyFigures
  rw [if_neg hempty, front_eq hlength, back_eq hlength]

/-- The figures of a snapshot are in order, and each percentile is within the bound of a bucket exactly when the bucket
of the histogram published with it counts more samples than its rank. -/
theorem figures_agree (steps : List TelemetryStep) (currentProcessed : UInt64)
    (hne : (run steps).latencySamples ≠ []) :
    let f := latencyFigures (run steps).latencySamples
    let payload := buildMetricsPayload (snapshotThreadFunc currentProcessed (run steps).latencySamples)
    [f.minNs, f.p50, f.p90, f.p95, f.p99, f.p999, f.maxNs].Pairwise (· ≤ ·) ∧ f.minNs ≤ f.meanNs ∧ f.meanNs ≤ f.maxNs ∧
      ∀ pct ∈ f.percentiles, List.Forall₂ (fun le bucket => le.1 = bucket.1 ∧ (pct.2 ≤ le.2 ↔
        pctIndex (run steps).latencySamples.length pct.1 < bucket.2.toNat)) leBounds payload.buckets.dropLast := by
  have hlength := length_latencySamples steps
  generalize (run steps).latencySamples = latencySamples at hne hlength ⊢
  intro f payload
  have hf : f = _ := latencyFigures_eq hne
  have hsorted := List.pairwise_insertionSort (· ≤ ·) latencySamples
  have hperm := List.perm_insertionSort (· ≤ ·) latencySamples
  have hpos : 0 < (latencySamples.insertionSort (· ≤ ·)).length := by
    rw [hperm.length_eq]
    exact List.length_pos_iff.2 hne
  refine ⟨?_, ?_, ?_, ?_⟩
  · have hps : ([0, 50, 90, 95, 99, 999 / 10, 100] : List ℚ).Pairwise fun p q => p ≤ q ∧ q ≤ 100 := by decide +kernel
    rw [hf]
    show (([0, 50, 90, 95, 99, 999 / 10, 100] : List ℚ).map (getPct _)).Pairwise (· ≤ ·)
    rw [List.pairwise_map]
    exact hps.imp fun h => getPct_mono hsorted hpos h.1 h.2
  · rw [hf]
    exact (mean_within hsorted hpos).1
  · rw [hf]
    exact (mean_within hsorted hpos).2
  · intro pct hpct
    have hget : pct.1 ≤ 100 ∧ pct.2 = getPct (latencySamples.insertionSort (· ≤ ·)) pct.1 := by
      rw [hf] at hpct
      simp only [LatencyFigures.percentiles, List.mem_cons, List.not_mem_nil, or_false] at hpct
      rcases hpct with rfl | rfl | rfl | rfl | rfl <;> exact ⟨by norm_num, rfl⟩
    have hbuckets : payload.buckets.dropLast =
        leBounds.map fun b => (b.1, UInt64.ofNat (latencySamples.countP (· ≤ b.2))) := by
      show (buildMetricsPayload _).buckets.dropLast = _
      rw [buckets_snapshot, List.dropLast_concat]
    rw [hbuckets, List.forall₂_map_right_iff, List.forall₂_same]
    intro le _
    have hcount : latencySamples.countP (· ≤ le.2) ≤ latencySamples.length := List.countP_le_length
    refine ⟨rfl, ?_⟩
    rw [hget.2, getPct_le_iff hsorted hpos hget.1, hperm.countP_eq, hperm.length_eq,
      UInt64.toNat_ofNat_of_lt' (by have hword : UInt64.size = 2 ^ 64 := rfl; omega)]

/-- The latencies of 1000 messages, from 0 to 199800 ns in mixed order. -/
def mixedBatch : List ℤ := (List.range 1000).map fun i => ((371 * i % 1000 * 200 : ℕ) : ℤ)

theorem figures_agree_batch :
    let f := latencyFigures (run (mixedBatch.map .process)).latencySamples
    [f.minNs, f.p50, f.p90, f.p95, f.p99, f.p999, f.maxNs].Pairwise (· ≤ ·) ∧ f.minNs ≤ f.meanNs ∧
      f.meanNs ≤ f.maxNs := by
  obtain ⟨hfigures, hmin, hmax, -⟩ := figures_agree (mixedBatch.map .process) 1000 fun hempty => by
    have hlength := length_latencySamples (mixedBatch.map .process)
    unfold batchesSinceClear at hlength
    rw [hempty, latencies_map_process, clearedAt_map_process, mixedBatch, List.length_map, List.length_range] at hlength
    cases hlength
  exact ⟨hfigures, hmin, hmax⟩

/-! ### Throughput -/

/-- The counter of the consumer, and the variables of `snapshotThreadFunc`. -/
structure Snapshotter where
  telemetry : Telemetry := {}
  /-- in seconds -/
  lastSnapshotTime : ℚ
  lastProcessedCount : UInt64 := 0
  /-- `dtSec` and `currentThroughput` of the rounds so far -/
  published : List (ℚ × ℚ) := []

inductive SnapshotterStep where
  /-- a step of the other threads -/
  | other (a : TelemetryStep)
  /-- a round of `snapshotThreadFunc` -/
  | snapshot (now : ℚ)
deriving DecidableEq, Repr

namespace Snapshotter

def step (s : Snapshotter) : SnapshotterStep → Snapshotter
  | .other a => { s with telemetry := s.telemetry.step a }
  | .snapshot now =>
    let dtSec := now - s.lastSnapshotTime
    let currentProcessed := s.telemetry.totalProcessed
    { s with
      lastSnapshotTime := now
      lastProcessedCount := currentProcessed
      published := s.published ++ [(dtSec, currentThroughput currentProcessed s.lastProcessedCount dtSec)] }

def run (start : ℚ) (steps : List SnapshotterStep) : Snapshotter := steps.foldl step { lastSnapshotTime := start }

/-- The throughputs, each over the time that it stands for. -/
def integral (s : Snapshotter) : ℚ := (s.published.map fun r => r.1 * r.2).sum

/-- The messages processed in a step. -/
def processedIn : SnapshotterStep → Nat
  | .other (.process _) => 1
  | _ => 0

/-- The messages processed in a run. -/
def processed (steps : List SnapshotterStep) : Nat := (steps.map processedIn).sum

theorem run_append_singleton (start : ℚ) (steps : List SnapshotterStep) (a : SnapshotterStep) :
    run start (steps ++ [a]) = (run start steps).step a := by
  unfold run
  rw [List.foldl_append]
  rfl

theorem processed_append_singleton (steps : List SnapshotterStep) (a : SnapshotterStep) :
    processed (steps ++ [a]) = processed steps + processedIn a := by
  unfold processed
  rw [List.map_append, List.sum_append, List.map_singleton, List.sum_singleton]

theorem toNat_deltaProcessed (currentProcessed lastProcessedCount : UInt64) :
    (deltaProcessed currentProcessed lastProcessedCount).toNat =
      currentProcessed.toNat - lastProcessedCount.toNat := by
  unfold deltaProcessed
  split
  · rename_i hle
    exact UInt64.toNat_sub_of_le _ _ hle
  · rename_i hlt
    have hnat : ¬ lastProcessedCount.toNat ≤ currentProcessed.toNat := fun h => hlt (UInt64.le_iff_toNat_le.2 h)
    show 0 = _
    omega

/-- The throughput over its time is what it counts, unless no time has passed. -/
theorem mul_currentThroughput (currentProcessed lastProcessedCount : UInt64) (dtSec : ℚ) :
    dtSec * currentThroughput currentProcessed lastProcessedCount dtSec =
      if dtSec > 0 then ((currentProcessed.toNat - lastProcessedCount.toNat : ℕ) : ℚ) else 0 := by
  unfold currentThroughput
  split
  · rename_i hpos
    rw [toNat_deltaProcessed, mul_div_cancel₀ _ (ne_of_gt hpos)]
  · exact mul_zero _

theorem integral_snapshot (s : Snapshotter) (now : ℚ) :
    (s.step (.snapshot now)).integral = s.integral +
      if now - s.lastSnapshotTime > 0 then
        ((s.telemetry.totalProcessed.toNat - s.lastProcessedCount.toNat : ℕ) : ℚ) else 0 := by
  unfold integral step
  rw [List.map_append, List.sum_append, List.map_singleton, List.sum_singleton, mul_currentThroughput]

/-- What was published and what the next round would publish were processed. -/
theorem integral_add_le (start : ℚ) (steps : List SnapshotterStep) :
    (run start steps).integral +
        ((run start steps).telemetry.totalProcessed.toNat - (run start steps).lastProcessedCount.toNat : ℕ) ≤
      (processed steps : ℚ) := by
  induction steps using List.reverseRecOn with
  | nil => exact le_of_eq (by simp [run, integral, processed])
  | append_singleton steps a ih =>
    rw [run_append_singleton, processed_append_singleton, Nat.cast_add]
    generalize run start steps = s at ih ⊢
    cases a with
    | other a =>
      have hsame : (s.step (.other a)).integral = s.integral := rfl
      have hlast : (s.step (.other a)).lastProcessedCount = s.lastProcessedCount := rfl
      have hgrows : (s.step (.other a)).telemetry.totalProcessed.toNat - s.lastProcessedCount.toNat ≤
          s.telemetry.totalProcessed.toNat - s.lastProcessedCount.toNat + processedIn (.other a) := by
        cases a with
        | process elapsedNs =>
          have hcount : (s.step (.other (.process elapsedNs))).telemetry.totalProcessed.toNat =
              (s.telemetry.totalProcessed.toNat + 1) % 2 ^ 64 := by
            show (s.telemetry.process elapsedNs).totalProcessed.toNat = _
            rw [Telemetry.totalProcessed_process]
            exact UInt64.toNat_add _ _
          have hone : processedIn (.other (.process elapsedNs)) = 1 := rfl
          have hmod := Nat.mod_le (s.telemetry.totalProcessed.toNat + 1) (2 ^ 64)
          omega
        | clearSamples => exact Nat.le_add_right ..
        | zeroProcessed =>
          have hzero : (s.step (.other .zeroProcessed)).telemetry.totalProcessed.toNat = 0 := rfl
          omega
      have hcast : (((s.step (.other a)).telemetry.totalProcessed.toNat - s.lastProcessedCount.toNat : ℕ) : ℚ) ≤
          ((s.telemetry.totalProcessed.toNat - s.lastProcessedCount.toNat : ℕ) : ℚ) + processedIn (.other a) := by
        exact_mod_cast hgrows
      rw [hsame, hlast]
      linarith
    | snapshot now =>
      have hlast : (s.step (.snapshot now)).lastProcessedCount =
          (s.step (.snapshot now)).telemetry.totalProcessed := rfl
      have hnone : ((processedIn (.snapshot now) : ℕ) : ℚ) = 0 := Nat.cast_zero
      have hnonneg : (0 : ℚ) ≤ (s.telemetry.totalProcessed.toNat - s.lastProcessedCount.toNat : ℕ) := Nat.cast_nonneg _
      rw [integral_snapshot, hlast, Nat.sub_self, hnone, Nat.cast_zero, add_zero, add_zero]
      split <;> linarith

/-- Without a `RESET` every message is published once. -/
theorem integral_add_eq (start : ℚ) (steps : List SnapshotterStep) (hreset : .other .zeroProcessed ∉ steps)
    (htime : ∀ r ∈ (run start steps).published, 0 < r.1) (hcount : processed steps < 2 ^ 64) :
    (run start steps).telemetry.totalProcessed.toNat = processed steps ∧
      (run start steps).lastProcessedCount.toNat ≤ processed steps ∧
        (run start steps).integral = (run start steps).lastProcessedCount.toNat := by
  induction steps using List.reverseRecOn with
  | nil => exact ⟨rfl, le_refl _, rfl⟩
  | append_singleton steps a ih =>
    rw [processed_append_singleton] at hcount
    rw [run_append_singleton] at htime
    rw [run_append_singleton, processed_append_singleton]
    rw [List.mem_append, not_or] at hreset
    have hpublished : ∀ r ∈ (run start steps).published, 0 < r.1 := by
      intro r hr
      refine htime r ?_
      cases a with
      | other a => exact hr
      | snapshot now => exact List.mem_append_left _ hr
    obtain ⟨htotal, hlast, hintegral⟩ := ih hreset.1 hpublished (by omega)
    generalize run start steps = s at htime htotal hlast hintegral ⊢
    cases a with
    | other a =>
      refine ⟨?_, Nat.le_trans hlast (Nat.le_add_right ..), hintegral⟩
      cases a with
      | process elapsedNs =>
        have hone : processedIn (.other (.process elapsedNs)) = 1 := rfl
        show (s.telemetry.process elapsedNs).totalProcessed.toNat = _
        rw [Telemetry.totalProcessed_process, UInt64.toNat_add, htotal]
        exact Nat.mod_eq_of_lt hcount
      | clearSamples => exact htotal
      | zeroProcessed => exact absurd (List.mem_singleton_self _) hreset.2
    | snapshot now =>
      have hdt : now - s.lastSnapshotTime > 0 :=
        htime (_, _) (List.mem_append_right _ (List.mem_singleton_self _))
      refine ⟨htotal, le_of_eq htotal, ?_⟩
      rw [integral_snapshot, if_pos hdt, hintegral, htotal, ← Nat.cast_add]
      show ((s.lastProcessedCount.toNat + (processed steps - s.lastProcessedCount.toNat) : ℕ) : ℚ) =
        (s.telemetry.totalProcessed.toNat : ℕ)
      rw [htotal, Nat.add_sub_cancel' hlast]

/-- The throughputs of all snapshots, each over the time that it stands for, never add up to more messages than were
processed, whatever `RESET`s come in between.  Without one they add up to the messages processed before the last
snapshot.  This is about the quotients themselves: rounded to `double`s, or to the decimals that are printed, they add
up to this only nearly. -/
theorem throughput_integral (start : ℚ) (steps : List SnapshotterStep) :
    (run start steps).integral ≤ processed steps ∧
      ∀ now, .other .zeroProcessed ∉ steps → (∀ r ∈ (run start (steps ++ [.snapshot now])).published, 0 < r.1) →
        processed steps < 2 ^ 64 → (run start (steps ++ [.snapshot now])).integral = processed steps := by
  constructor
  · have hle := integral_add_le start steps
    have hnonneg : (0 : ℚ) ≤ ((run start steps).telemetry.totalProcessed.toNat -
        (run start steps).lastProcessedCount.toNat : ℕ) := Nat.cast_nonneg _
    linarith
  · intro now hreset htime hcount
    have hprocessed : processed (steps ++ [.snapshot now]) = processed steps := processed_append_singleton ..
    have hmem : .other .zeroProcessed ∉ steps ++ [.snapshot now] := by
      rw [List.mem_append, not_or]
      exact ⟨hreset, by simp⟩
    obtain ⟨htotal, -, hintegral⟩ := integral_add_eq start _ hmem htime (by rw [hprocessed]; exact hcount)
    rw [hprocessed] at htotal
    have hlast : (run start (steps ++ [.snapshot now])).lastProcessedCount =
        (run start (steps ++ [.snapshot now])).telemetry.totalProcessed := by
      rw [run_append_singleton]
      rfl
    rw [hintegral, hlast, htotal]

/-- Two messages between two snapshots. -/
theorem throughput_integral_second :
    (run 0 ([.snapshot 1, .other (.process 50), .other (.process 70)] ++ [.snapshot 3])).integral = 2 :=
  (throughput_integral 0 [.snapshot 1, .other (.process 50), .other (.process 70)]).2 3 (by decide)
    (by decide +kernel) (by decide)

end Snapshotter

end StreamServer

end FeedHandler
