import FeedHandler.StreamServer.Telemetry
import Mathlib.Algebra.Ring.Nat
import Mathlib.Data.List.TakeWhile

/-!
# The exported histogram

Every bucket of the payload is the number of samples in the window up to its bound (`buckets_snapshot`), so the buckets
never decrease in `le`.  The line `_count` is another counter: it agrees with the `+Inf` bucket only while the batch of
the consumer is empty and the window has dropped nothing (`wellFormed_iff`).  As the window drops old samples, a bucket
may also fall from one snapshot to the next (`buckets_monotone_iff`).
-/

namespace FeedHandler

namespace StreamServer

open Telemetry

/-! ### The buckets -/

/-- The labels of the finite buckets and their bounds. -/
def leBounds : List (String × ℤ) :=
  [("100", 100), ("250", 250), ("500", 500), ("1000", 1000), ("2500", 2500), ("5000", 5000), ("10000", 10000),
    ("25000", 25000), ("50000", 50000), ("100000", 100000)]

/-- The finite buckets of the metrics. -/
def MetricsData.finite (d : MetricsData) : List UInt64 :=
  [d.bucket_100ns, d.bucket_250ns, d.bucket_500ns, d.bucket_1us, d.bucket_2_5us, d.bucket_5us, d.bucket_10us,
    d.bucket_25us, d.bucket_50us, d.bucket_100us]

theorem MetricsData.finite_countSample (d : MetricsData) (ns : ℤ) :
    (d.countSample ns).finite = List.zipWith (fun b n => if ns ≤ b.2 then n + 1 else n) leBounds d.finite := rfl

private theorem zipWith_zipWith {α β : Type*} (f g : α → β → β) (l : List α) (m : List β) :
    List.zipWith f l (List.zipWith g l m) = List.zipWith (fun a b => f a (g a b)) l m := by
  induction l generalizing m with
  | nil => simp
  | cons a l ih =>
    cases m with
    | nil => simp
    | cons b m => simp [ih]

/-- Counting some samples adds to each bucket the number of those up to its bound. -/
theorem MetricsData.finite_foldl (samples : List ℤ) (d : MetricsData) :
    (samples.foldl MetricsData.countSample d).finite =
      List.zipWith (fun b n => n + UInt64.ofNat (samples.countP (· ≤ b.2))) leBounds d.finite := by
  induction samples generalizing d with
  | nil => simp [finite, leBounds]
  | cons ns samples ih =>
    rw [List.foldl_cons, ih, finite_countSample, zipWith_zipWith]
    congr 1
    funext b n
    rw [List.countP_cons]
    by_cases hle : ns ≤ b.2
    · simp [hle, UInt64.ofNat_add, UInt64.add_assoc, UInt64.add_comm 1]
    · simp [hle]

theorem MetricsData.bucket_inf_foldl (samples : List ℤ) (d : MetricsData) :
    (samples.foldl MetricsData.countSample d).bucket_inf = d.bucket_inf + UInt64.ofNat samples.length := by
  induction samples generalizing d with
  | nil => simp
  | cons ns samples ih =>
    rw [List.foldl_cons, ih, List.length_cons, UInt64.ofNat_add, ← UInt64.add_assoc, UInt64.add_assoc d.bucket_inf,
      UInt64.add_comm (UInt64.ofNat samples.length), ← UInt64.add_assoc]
    rfl

theorem buckets_eq (d : MetricsData) :
    (buildMetricsPayload d).buckets = (leBounds.map (·.1)).zip d.finite ++ [("+Inf", d.bucket_inf)] := rfl

/-- The buckets of a snapshot count the samples of the window. -/
theorem buckets_snapshot (currentProcessed : UInt64) (latencySamples : List ℤ) :
    (buildMetricsPayload (snapshotThreadFunc currentProcessed latencySamples)).buckets =
      leBounds.map (fun b => (b.1, UInt64.ofNat (latencySamples.countP (· ≤ b.2)))) ++
        [("+Inf", UInt64.ofNat latencySamples.length)] := by
  have hperm := List.perm_insertionSort (· ≤ ·) latencySamples
  have hfinite : (snapshotThreadFunc currentProcessed latencySamples).finite =
      leBounds.map fun b => UInt64.ofNat (latencySamples.countP (· ≤ b.2)) := by
    have hfoldl := MetricsData.finite_foldl (latencySamples.insertionSort (· ≤ ·)) {}
    simp only [hperm.countP_eq] at hfoldl
    exact hfoldl.trans (by simp [MetricsData.finite, leBounds])
  have hinf : (snapshotThreadFunc currentProcessed latencySamples).bucket_inf = UInt64.ofNat latencySamples.length := by
    have hfoldl := MetricsData.bucket_inf_foldl (latencySamples.insertionSort (· ≤ ·)) {}
    rw [hperm.length_eq] at hfoldl
    exact hfoldl.trans (UInt64.zero_add _)
  rw [buckets_eq, hfinite, hinf]
  simp [leBounds]

theorem count_snapshot (currentProcessed : UInt64) (latencySamples : List ℤ) :
    (buildMetricsPayload (snapshotThreadFunc currentProcessed latencySamples)).count = currentProcessed := rfl

theorem ofNat_le_ofNat {m n : ℕ} (h : m ≤ n) (hn : n < 2 ^ 64) : UInt64.ofNat m ≤ UInt64.ofNat n := by
  have hword : UInt64.size = 2 ^ 64 := rfl
  rw [UInt64.le_iff_toNat_le, UInt64.toNat_ofNat_of_lt' (by omega), UInt64.toNat_ofNat_of_lt' (by omega)]
  exact h

/-! ### One snapshot -/

/-- What Prometheus asks of a histogram: the buckets are cumulative and the last one, `+Inf`, is the count. -/
structure HistogramLines.WellFormed (h : HistogramLines) : Prop where
  cumulative : (h.buckets.map (·.2)).Pairwise (· ≤ ·)
  infEqCount : h.buckets.getLast? = some ("+Inf", h.count)

/-- The buckets of a snapshot never decrease in `le`. -/
theorem cumulative_snapshot (currentProcessed : UInt64) {latencySamples : List ℤ}
    (hlength : latencySamples.length < 2 ^ 64) :
    ((buildMetricsPayload (snapshotThreadFunc currentProcessed latencySamples)).buckets.map (·.2)).Pairwise
      (· ≤ ·) := by
  have hbounds : (leBounds.map (·.2)).Pairwise (· ≤ ·) := by decide
  rw [List.pairwise_map] at hbounds
  rw [buckets_snapshot, List.map_append, List.map_map, List.pairwise_append]
  refine ⟨?_, List.pairwise_singleton .., ?_⟩
  · rw [List.pairwise_map]
    refine hbounds.imp fun {b c} hle => ofNat_le_ofNat ?_ (Nat.lt_of_le_of_lt List.countP_le_length hlength)
    apply List.countP_mono_left
    intro ns _ hns
    have hns' : ns ≤ b.2 := by simpa using hns
    simpa using hns'.trans hle
  · intro v hv w hw
    obtain ⟨b, -, rfl⟩ := List.mem_map.1 hv
    obtain rfl : w = UInt64.ofNat latencySamples.length := by simpa using hw
    exact ofNat_le_ofNat List.countP_le_length hlength

theorem infEqCount_snapshot_iff (currentProcessed : UInt64) (latencySamples : List ℤ) :
    (buildMetricsPayload (snapshotThreadFunc currentProcessed latencySamples)).buckets.getLast? =
        some ("+Inf", (buildMetricsPayload (snapshotThreadFunc currentProcessed latencySamples)).count) ↔
      UInt64.ofNat latencySamples.length = currentProcessed := by
  rw [buckets_snapshot, count_snapshot, List.getLast?_concat]
  simp

/-- For every history and a snapshot that loads the counter after `pre` and copies the window then, or after more steps
of other threads: the histogram is well formed exactly when the number of messages processed since the counter was last
zeroed is the number of samples in the batches completed since the window was last cleared, 201 batches at most. -/
theorem wellFormed_iff (pre mid : List TelemetryStep) :
    (buildMetricsPayload
        (snapshotThreadFunc (run pre).totalProcessed (run (pre ++ mid)).latencySamples)).WellFormed ↔
      processedSince .zeroProcessed pre % 2 ^ 64 = min (1000 * batchesSinceClear (pre ++ mid)) 201000 := by
  have hlength := length_latencySamples (pre ++ mid)
  have hbound : (run (pre ++ mid)).latencySamples.length < 2 ^ 64 := by omega
  have hcount : UInt64.ofNat (run (pre ++ mid)).latencySamples.length = (run pre).totalProcessed ↔
      processedSince .zeroProcessed pre % 2 ^ 64 = min (1000 * batchesSinceClear (pre ++ mid)) 201000 := by
    rw [totalProcessed_run, ← UInt64.toNat_inj, UInt64.toNat_ofNat', UInt64.toNat_ofNat']
    omega
  rw [← hcount, ← infEqCount_snapshot_iff]
  constructor
  · exact HistogramLines.WellFormed.infEqCount
  · exact fun hinf => ⟨cumulative_snapshot _ hbound, hinf⟩

/-- One message was processed: its latency waits in the batch of the consumer and is in no bucket. -/
theorem count_ahead_of_buckets :
    ¬ ∀ steps : List TelemetryStep,
      (buildMetricsPayload (snapshotThreadFunc (run steps).totalProcessed (run steps).latencySamples)).WellFormed := by
  intro h
  have hinf := (h [.process 50]).infEqCount
  revert hinf
  decide

/-! ### Successive snapshots -/

/-- The payload of a snapshot after messages that took these times, without a `RESET`. -/
def payloadAfter (elapsed : List ℤ) : HistogramLines :=
  buildMetricsPayload (snapshotThreadFunc (run (elapsed.map .process)).totalProcessed
    (run (elapsed.map .process)).latencySamples)

/-- No bucket is smaller than before. -/
def NoBucketFalls (old new : HistogramLines) : Prop :=
  List.Forall₂ (fun b b' => b.1 = b'.1 ∧ b.2 ≤ b'.2) old.buckets new.buckets

theorem latencies_map_process (elapsed : List ℤ) : latencies (elapsed.map .process) = elapsed := by
  induction elapsed with
  | nil => rfl
  | cons ns elapsed ih =>
    show ns :: latencies (elapsed.map .process) = _
    rw [ih]

theorem clearedAt_map_process (elapsed : List ℤ) : clearedAt (elapsed.map .process) = 0 := by
  have hall : since .clearSamples (elapsed.map .process) = elapsed.map .process := by
    unfold since
    rw [List.takeWhile_eq_self_iff.2, List.reverse_reverse]
    intro a ha
    obtain ⟨ns, -, rfl⟩ := List.mem_map.1 (List.mem_reverse.1 ha)
    rfl
  unfold clearedAt processedSince
  rw [hall, Nat.sub_self]

/-- Without a `RESET` the window holds the last 201 complete batches. -/
theorem latencySamples_map_process (elapsed : List ℤ) :
    (run (elapsed.map .process)).latencySamples =
      BatchedWindow.content 1000 200 elapsed (elapsed.length / 1000) := by
  have hfollows := run_follows (elapsed.map .process)
  rw [clearedAt_map_process, latencies_map_process] at hfollows
  exact hfollows.window_eq

theorem length_latencySamples_le (elapsed : List ℤ) :
    (run (elapsed.map .process)).latencySamples.length ≤ 201000 := by
  rw [length_latencySamples]
  exact Nat.min_le_right ..

/-- The buckets of two snapshots are compared by counting the samples of their windows. -/
theorem noBucketFalls_iff (elapsed elapsed' : List ℤ) :
    NoBucketFalls (payloadAfter elapsed) (payloadAfter elapsed') ↔
      (∀ b ∈ leBounds, (run (elapsed.map .process)).latencySamples.countP (· ≤ b.2) ≤
          (run (elapsed'.map .process)).latencySamples.countP (· ≤ b.2)) ∧
        (run (elapsed.map .process)).latencySamples.length ≤ (run (elapsed'.map .process)).latencySamples.length := by
  have hlength := length_latencySamples_le elapsed
  have hlength' := length_latencySamples_le elapsed'
  have hofNat : ∀ m n, m ≤ 201000 → n ≤ 201000 → (UInt64.ofNat m ≤ UInt64.ofNat n ↔ m ≤ n) := by
    intro m n hm hn
    have hword : UInt64.size = 2 ^ 64 := rfl
    rw [UInt64.le_iff_toNat_le, UInt64.toNat_ofNat_of_lt' (by omega), UInt64.toNat_ofNat_of_lt' (by omega)]
  unfold NoBucketFalls payloadAfter
  rw [buckets_snapshot, buckets_snapshot]
  have happend : ∀ (f f' : String × ℤ → String × UInt64) (c c' : String × UInt64),
      List.Forall₂ (fun b b' => b.1 = b'.1 ∧ b.2 ≤ b'.2) (leBounds.map f ++ [c]) (leBounds.map f' ++ [c']) ↔
        (∀ b ∈ leBounds, (f b).1 = (f' b).1 ∧ (f b).2 ≤ (f' b).2) ∧ c.1 = c'.1 ∧ c.2 ≤ c'.2 := by
    intro f f' c c'
    simp [leBounds, and_assoc]
  rw [happend]
  refine and_congr (forall₂_congr fun b _ => ?_) ?_
  · exact (and_iff_right rfl).trans (hofNat _ _ (List.countP_le_length.trans hlength)
      (List.countP_le_length.trans hlength'))
  · exact (and_iff_right rfl).trans (hofNat _ _ hlength hlength')

/-- The samples of a snapshot on the way. -/
theorem latencySamples_part {pre elapsed : List ℤ} (h : pre <+: elapsed) :
    (run (pre.map .process)).latencySamples = BatchedWindow.content 1000 200 elapsed (pre.length / 1000) := by
  obtain ⟨rest, rfl⟩ := h
  rw [latencySamples_map_process, BatchedWindow.content_append (Nat.mul_div_le ..)]

/-- A batch with fewer samples of a kind than the batch it drives out makes their number fall; if there is none, the
number never falls. -/
theorem countP_monotone_iff (elapsed : List ℤ) (p : ℤ → Bool) :
    (∀ pre mid, pre ++ mid <+: elapsed →
        (run (pre.map .process)).latencySamples.countP p ≤
          (run ((pre ++ mid).map .process)).latencySamples.countP p) ↔
      ∀ q, 201 ≤ q → 1000 * (q + 1) ≤ elapsed.length →
        (BatchedWindow.batchAt 1000 elapsed (q - 201)).countP p ≤ (BatchedWindow.batchAt 1000 elapsed q).countP p := by
  rw [← BatchedWindow.countP_content_mono_iff 1000 200 elapsed p]
  constructor
  · intro h q q' hle hlen
    have hpre : elapsed.take (1000 * q) ++ (elapsed.take (1000 * q')).drop (1000 * q) = elapsed.take (1000 * q') := by
      have hsplit := List.take_append_drop (1000 * q) (elapsed.take (1000 * q'))
      rwa [List.take_take, Nat.min_eq_left (by omega)] at hsplit
    have hstep := h (elapsed.take (1000 * q)) ((elapsed.take (1000 * q')).drop (1000 * q))
      (by rw [hpre]; exact List.take_prefix ..)
    rw [hpre, latencySamples_part (List.take_prefix ..), latencySamples_part (List.take_prefix ..),
      List.length_take, List.length_take, Nat.min_eq_left (by omega), Nat.min_eq_left hlen,
      Nat.mul_div_cancel_left q (by omega), Nat.mul_div_cancel_left q' (by omega)] at hstep
    exact hstep
  · intro h pre mid hpre
    have hlen := hpre.length_le
    rw [latencySamples_part hpre, latencySamples_part ((List.prefix_append pre mid).trans hpre)]
    rw [List.length_append] at hlen ⊢
    apply h
    · exact Nat.div_le_div_right (Nat.le_add_right ..)
    · exact (Nat.mul_div_le ..).trans hlen

theorem length_latencySamples_mono (pre mid : List ℤ) :
    (run (pre.map .process)).latencySamples.length ≤ (run ((pre ++ mid).map .process)).latencySamples.length := by
  have hle : pre.length / 1000 ≤ (pre ++ mid).length / 1000 := by
    rw [List.length_append]
    omega
  rw [latencySamples_map_process, latencySamples_map_process, BatchedWindow.length_content (Nat.mul_div_le ..),
    BatchedWindow.length_content (Nat.mul_div_le ..)]
  omega

/-- In a run without a `RESET` no bucket ever falls from one snapshot to a later one, exactly when no batch of 1000
latencies, from the 202nd on, has fewer latencies up to one of the bounds than the batch 201 before it, which it drives
out of the window. -/
theorem buckets_monotone_iff (elapsed : List ℤ) :
    (∀ pre mid, pre ++ mid <+: elapsed → NoBucketFalls (payloadAfter pre) (payloadAfter (pre ++ mid))) ↔
      ∀ q, 201 ≤ q → 1000 * (q + 1) ≤ elapsed.length → ∀ b ∈ leBounds,
        (BatchedWindow.batchAt 1000 elapsed (q - 201)).countP (· ≤ b.2) ≤
          (BatchedWindow.batchAt 1000 elapsed q).countP (· ≤ b.2) := by
  constructor
  · intro h q hq hlen b hb
    refine (countP_monotone_iff elapsed (· ≤ b.2)).1 (fun pre mid hpre => ?_) q hq hlen
    exact ((noBucketFalls_iff pre (pre ++ mid)).1 (h pre mid hpre)).1 b hb
  · intro h pre mid hpre
    rw [noBucketFalls_iff]
    refine ⟨fun b hb => ?_, length_latencySamples_mono pre mid⟩
    exact (countP_monotone_iff elapsed (· ≤ b.2)).2 (fun q hq hlen => h q hq hlen b hb) pre mid hpre

private theorem batchAt_first (n : ℕ) (x : ℤ) (rest : List ℤ) :
    BatchedWindow.batchAt n (List.replicate n x ++ rest) 0 = List.replicate n x := by
  unfold BatchedWindow.batchAt
  rw [Nat.mul_zero, List.drop_zero]
  exact List.take_left' List.length_replicate

private theorem batchAt_later (n q : ℕ) (x y : ℤ) :
    BatchedWindow.batchAt n (List.replicate n x ++ List.replicate (n * (q + 1)) y) (q + 1) = List.replicate n y := by
  have hdrop : n * (q + 1) = (List.replicate n x).length + n * q := by
    rw [List.length_replicate, Nat.mul_succ, Nat.add_comm]
  have hrest : n * (q + 1) - n * q = n := by
    rw [Nat.mul_succ, Nat.add_sub_cancel_left]
  unfold BatchedWindow.batchAt
  nth_rewrite 1 [hdrop]
  rw [List.drop_length_add_append, List.drop_replicate, hrest, List.take_replicate, Nat.min_self]

/-- 1000 messages of 50 ns and 201000 of 200 ns: the batch of the first ones is dropped in the end, and with it all
samples in the bucket of 100 ns. -/
theorem bucket_falls :
    ¬ ∀ pre mid : List ℤ, NoBucketFalls (payloadAfter pre) (payloadAfter (pre ++ mid)) := by
  intro h
  have hmono := (countP_monotone_iff (List.replicate 1000 50 ++ List.replicate (1000 * (200 + 1)) 200) (· ≤ 100)).1
    (fun pre mid _ => ((noBucketFalls_iff pre (pre ++ mid)).1 (h pre mid)).1 ("100", 100) (by decide)) (200 + 1)
    (by omega) (by rw [List.length_append, List.length_replicate, List.length_replicate])
  rw [batchAt_later, Nat.sub_self, batchAt_first, List.countP_replicate, List.countP_replicate] at hmono
  exact absurd hmono (by decide)

end StreamServer

end FeedHandler
