import FeedHandler.Foundation.BatchedWindow
import Mathlib.Data.List.Induction
import Mathlib.Data.List.Sort

/-!
# Latency telemetry (`stream_server.cpp`, `metrics_exporter.hpp`)

The consumer collects the latencies of its messages in batches of 1000 and hands each batch to the window of the
snapshot thread, which counts the window into the buckets of a histogram.  A round of the consumer is one step: `RESET`
clears the window and zeroes the counter in two steps of the command thread, and either of them in the middle of a
round has the effect that it has before or after it.  A latency is an integer, and the sum, a `double`, is taken to be
exact.
-/

namespace FeedHandler

namespace StreamServer

/-- `LATENCY_WINDOW` -/
def latencyWindow : Nat := 200000

/-- `localLatencyBuffer` of the consumer, `g_latencySamples` and `g_totalProcessed`. -/
structure Telemetry where
  localLatencyBuffer : List ℤ := []
  latencySamples : List ℤ := []
  totalProcessed : UInt64 := 0
deriving DecidableEq, Repr

inductive TelemetryStep where
  /-- the round of `consumerThreadFunc` for a message that took `elapsedNs` -/
  | process (elapsedNs : ℤ)
  /-- `RESET`: `g_latencySamples.clear()` -/
  | clearSamples
  /-- `RESET`: `g_totalProcessed.store(0)` -/
  | zeroProcessed
deriving DecidableEq, Repr

namespace Telemetry

/-- A round of the consumer. -/
def process (t : Telemetry) (elapsedNs : ℤ) : Telemetry :=
  let localLatencyBuffer := t.localLatencyBuffer ++ [elapsedNs]
  let totalProcessed := t.totalProcessed + 1
  if localLatencyBuffer.length ≥ 1000 then
    let latencySamples :=
      if t.latencySamples.length > latencyWindow then t.latencySamples.drop localLatencyBuffer.length
      else t.latencySamples
    { localLatencyBuffer := [], latencySamples := latencySamples ++ localLatencyBuffer, totalProcessed }
  else
    { t with localLatencyBuffer, totalProcessed }

def step (t : Telemetry) : TelemetryStep → Telemetry
  | .process elapsedNs => t.process elapsedNs
  | .clearSamples => { t with latencySamples := [] }
  | .zeroProcessed => { t with totalProcessed := 0 }

def run (steps : List TelemetryStep) : Telemetry := steps.foldl step {}

end Telemetry

/-- The metrics of the exporter that the histogram is made of. -/
structure MetricsData where
  totalProcessed : UInt64 := 0
  bucket_100ns : UInt64 := 0
  bucket_250ns : UInt64 := 0
  bucket_500ns : UInt64 := 0
  bucket_1us : UInt64 := 0
  bucket_2_5us : UInt64 := 0
  bucket_5us : UInt64 := 0
  bucket_10us : UInt64 := 0
  bucket_25us : UInt64 := 0
  bucket_50us : UInt64 := 0
  bucket_100us : UInt64 := 0
  bucket_inf : UInt64 := 0
  latency_sum_ns : ℤ := 0
deriving DecidableEq, Repr

/-- One sample of the loop that computes the buckets. -/
def MetricsData.countSample (metrics : MetricsData) (ns : ℤ) : MetricsData :=
  { metrics with
    bucket_100ns := if ns ≤ 100 then metrics.bucket_100ns + 1 else metrics.bucket_100ns
    bucket_250ns := if ns ≤ 250 then metrics.bucket_250ns + 1 else metrics.bucket_250ns
    bucket_500ns := if ns ≤ 500 then metrics.bucket_500ns + 1 else metrics.bucket_500ns
    bucket_1us := if ns ≤ 1000 then metrics.bucket_1us + 1 else metrics.bucket_1us
    bucket_2_5us := if ns ≤ 2500 then metrics.bucket_2_5us + 1 else metrics.bucket_2_5us
    bucket_5us := if ns ≤ 5000 then metrics.bucket_5us + 1 else metrics.bucket_5us
    bucket_10us := if ns ≤ 10000 then metrics.bucket_10us + 1 else metrics.bucket_10us
    bucket_25us := if ns ≤ 25000 then metrics.bucket_25us + 1 else metrics.bucket_25us
    bucket_50us := if ns ≤ 50000 then metrics.bucket_50us + 1 else metrics.bucket_50us
    bucket_100us := if ns ≤ 100000 then metrics.bucket_100us + 1 else metrics.bucket_100us
    bucket_inf := metrics.bucket_inf + 1
    latency_sum_ns := metrics.latency_sum_ns + ns }

/-- The histogram that a round of `snapshotThreadFunc` hands to the exporter, from the counter it loads first and its
copy of the window. -/
def snapshotThreadFunc (currentProcessed : UInt64) (latencySamples : List ℤ) : MetricsData :=
  let latCopy := latencySamples.insertionSort (· ≤ ·)
  { latCopy.foldl MetricsData.countSample {} with totalProcessed := currentProcessed }

/-- The lines of a histogram: `_bucket` with the label `le`, `_sum` and `_count`. -/
structure HistogramLines where
  buckets : List (String × UInt64)
  sum : ℤ
  count : UInt64
deriving DecidableEq, Repr

/-- The lines of `feed_handler_latency_nanoseconds` in the payload. -/
def buildMetricsPayload (d : MetricsData) : HistogramLines where
  buckets :=
    [("100", d.bucket_100ns), ("250", d.bucket_250ns), ("500", d.bucket_500ns), ("1000", d.bucket_1us),
      ("2500", d.bucket_2_5us), ("5000", d.bucket_5us), ("10000", d.bucket_10us), ("25000", d.bucket_25us),
      ("50000", d.bucket_50us), ("100000", d.bucket_100us), ("+Inf", d.bucket_inf)]
  sum := d.latency_sum_ns
  count := d.totalProcessed

/-! ### The window -/

namespace Telemetry

/-- The two buffers as a window that is filled in batches. -/
def window (t : Telemetry) : BatchedWindow.State ℤ where
  pending := t.localLatencyBuffer
  window := t.latencySamples

theorem window_process (t : Telemetry) (elapsedNs : ℤ) :
    (t.process elapsedNs).window = t.window.push 1000 latencyWindow elapsedNs := by
  unfold process BatchedWindow.State.push window
  dsimp only
  split <;> rfl

theorem totalProcessed_process (t : Telemetry) (elapsedNs : ℤ) :
    (t.process elapsedNs).totalProcessed = t.totalProcessed + 1 := by
  unfold process
  dsimp only
  split <;> rfl

/-- The latencies of the messages processed. -/
def latencies (steps : List TelemetryStep) : List ℤ :=
  steps.filterMap fun
    | .process elapsedNs => some elapsedNs
    | .clearSamples => none
    | .zeroProcessed => none

/-- What came after the last step of a kind. -/
def since (a : TelemetryStep) (steps : List TelemetryStep) : List TelemetryStep :=
  (steps.reverse.takeWhile (· ≠ a)).reverse

/-- The number of messages processed since the last step of a kind. -/
def processedSince (a : TelemetryStep) (steps : List TelemetryStep) : Nat := (latencies (since a steps)).length

/-- The number of messages processed until the window was last cleared. -/
def clearedAt (steps : List TelemetryStep) : Nat := (latencies steps).length - processedSince .clearSamples steps

/-- The number of batches completed since the window was last cleared. -/
def batchesSinceClear (steps : List TelemetryStep) : Nat :=
  (latencies steps).length / 1000 - clearedAt steps / 1000

theorem latencies_append (steps steps' : List TelemetryStep) :
    latencies (steps ++ steps') = latencies steps ++ latencies steps' := List.filterMap_append

theorem since_append (a b : TelemetryStep) (steps : List TelemetryStep) :
    since a (steps ++ [b]) = if b = a then [] else since a steps ++ [b] := by
  unfold since
  rw [List.reverse_append, List.reverse_singleton, List.singleton_append, List.takeWhile_cons]
  by_cases h : b = a
  · simp [h]
  · simp [h]

theorem processedSince_append (a b : TelemetryStep) (steps : List TelemetryStep) :
    processedSince a (steps ++ [b]) = if b = a then 0 else processedSince a steps + (latencies [b]).length := by
  unfold processedSince
  rw [since_append]
  split
  · rfl
  · rw [latencies_append, List.length_append]

theorem processedSince_le (a : TelemetryStep) (steps : List TelemetryStep) :
    processedSince a steps ≤ (latencies steps).length := by
  induction steps using List.reverseRecOn with
  | nil => exact le_refl 0
  | append_singleton steps b ih =>
    rw [processedSince_append, latencies_append, List.length_append]
    split
    · exact Nat.zero_le _
    · omega

theorem run_append (steps : List TelemetryStep) (a : TelemetryStep) : run (steps ++ [a]) = (run steps).step a := by
  unfold run
  rw [List.foldl_append]
  rfl

/-- After any history the buffers are a window over the latencies. -/
theorem run_follows (steps : List TelemetryStep) :
    BatchedWindow.Follows 1000 200 (clearedAt steps) (run steps).window (latencies steps) := by
  induction steps using List.reverseRecOn with
  | nil => exact BatchedWindow.follows_nil 1000 200
  | append_singleton steps a ih =>
    have hle := processedSince_le .clearSamples steps
    rw [run_append]
    cases a with
    | process elapsedNs =>
      have hcleared : clearedAt (steps ++ [.process elapsedNs]) = clearedAt steps := by
        unfold clearedAt
        rw [processedSince_append, latencies_append, List.length_append, if_neg (by simp)]
        omega
      rw [hcleared, latencies_append]
      show BatchedWindow.Follows 1000 200 _ ((run steps).process elapsedNs).window _
      rw [window_process]
      exact ih.push (by omega) elapsedNs
    | clearSamples =>
      have hcleared : clearedAt (steps ++ [.clearSamples]) = (latencies steps).length := by
        unfold clearedAt
        rw [processedSince_append, latencies_append, List.length_append, if_pos rfl]
        rfl
      rw [hcleared, latencies_append]
      show BatchedWindow.Follows 1000 200 _ (run steps).window.clear (latencies steps ++ [])
      rw [List.append_nil]
      exact ih.clear
    | zeroProcessed =>
      have hcleared : clearedAt (steps ++ [.zeroProcessed]) = clearedAt steps := by
        unfold clearedAt
        rw [processedSince_append, latencies_append, List.length_append, if_neg (by simp)]
        omega
      rw [hcleared, latencies_append]
      show BatchedWindow.Follows 1000 200 _ (run steps).window (latencies steps ++ [])
      rw [List.append_nil]
      exact ih

/-- The window holds the batches since the last clear, 201 at most. -/
theorem length_latencySamples (steps : List TelemetryStep) :
    (run steps).latencySamples.length = min (1000 * batchesSinceClear steps) 201000 := by
  have hlength := (run_follows steps).length_window
  unfold BatchedWindow.first at hlength
  unfold batchesSinceClear
  have hwindow : (run steps).window.window = (run steps).latencySamples := rfl
  rw [hwindow] at hlength
  omega

/-- The counter holds what was processed since it was last zeroed, modulo `2^64`. -/
theorem totalProcessed_run (steps : List TelemetryStep) :
    (run steps).totalProcessed = UInt64.ofNat (processedSince .zeroProcessed steps) := by
  induction steps using List.reverseRecOn with
  | nil => rfl
  | append_singleton steps a ih =>
    rw [run_append, processedSince_append]
    cases a with
    | process elapsedNs =>
      show ((run steps).process elapsedNs).totalProcessed = _
      rw [totalProcessed_process, ih, if_neg (by simp), UInt64.ofNat_add]
      rfl
    | clearSamples =>
      rw [if_neg (by simp)]
      exact ih
    | zeroProcessed => rw [if_pos rfl]; rfl

end Telemetry

end StreamServer

end FeedHandler
