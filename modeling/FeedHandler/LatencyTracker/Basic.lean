import Mathlib.Algebra.Order.Floor.Semiring
import Mathlib.Data.List.Sort
import Mathlib.Data.Rat.Floor

/-!
# The latency tracker (`latency_tracker.hpp`)

The samples are a vector of `int64_t`; they are only compared and converted, so an integer stands for one.  A `double`
is a rational number here: the arithmetic of `percentile` is taken to be exact.
-/

namespace FeedHandler

structure LatencyTracker where
  samplesNs : List ℤ := []
  sorted : Bool := false
deriving DecidableEq, Repr

namespace LatencyTracker

def reset (t : LatencyTracker) : LatencyTracker := { t with samplesNs := [] }

def recordNs (t : LatencyTracker) (nanoseconds : ℤ) : LatencyTracker :=
  { t with samplesNs := t.samplesNs ++ [nanoseconds] }

def minNs (t : LatencyTracker) : ℚ :=
  match t.samplesNs.min? with
  | none => 0
  | some least => least

def maxNs (t : LatencyTracker) : ℚ :=
  match t.samplesNs.max? with
  | none => 0
  | some greatest => greatest

/-- The lazy sort in front of the indexing of `percentile`. -/
def sortSamples (t : LatencyTracker) : LatencyTracker :=
  if !t.sorted then { samplesNs := t.samplesNs.insertionSort (· ≤ ·), sorted := true } else t

def rank (t : LatencyTracker) (p : ℚ) : ℚ := p / 100 * ((t.samplesNs.length : ℚ) - 1)

def lower (t : LatencyTracker) (p : ℚ) : Nat := ⌊t.rank p⌋₊

def upper (t : LatencyTracker) (p : ℚ) : Nat := ⌈t.rank p⌉₊

/-- `static_cast<double>(samplesNs_[i])` -/
def sample (t : LatencyTracker) (i : Nat) : ℚ := ((t.samplesNs.getD i 0 : ℤ) : ℚ)

/-- Computes percentile (0.0 to 100.0) after sorting. -/
def percentile (t : LatencyTracker) (p : ℚ) : ℚ × LatencyTracker :=
  if t.samplesNs.isEmpty then
    (0, t)
  else
    let t := t.sortSamples
    if p ≤ 0 then
      (t.sample 0, t)
    else if p ≥ 100 then
      (t.sample (t.samplesNs.length - 1), t)
    else
      let weight := t.rank p - t.lower p
      (t.sample (t.lower p) * (1 - weight) + t.sample (t.upper p) * weight, t)

/-- A call of the interface that can change the tracker. -/
inductive Call where
  | recordNs (nanoseconds : ℤ)
  | percentile (p : ℚ)
  | reset
deriving DecidableEq, Repr

def exec (t : LatencyTracker) : Call → LatencyTracker
  | .recordNs nanoseconds => t.recordNs nanoseconds
  | .percentile p => (t.percentile p).2
  | .reset => t.reset

/-- The tracker after a sequence of calls, from its constructor on. -/
def run (calls : List Call) : LatencyTracker := calls.foldl exec {}

/-- The samples since the last reset, after one more call. -/
def recordCall (samples : List ℤ) : Call → List ℤ
  | .recordNs nanoseconds => samples ++ [nanoseconds]
  | .percentile _ => samples
  | .reset => []

/-- The samples recorded since the last reset, in the order of the calls. -/
def recorded (calls : List Call) : List ℤ := calls.foldl recordCall []

end LatencyTracker

end FeedHandler
