import Mathlib.Algebra.Order.Ring.Rat
import Mathlib.Data.List.Basic
import Mathlib.Order.Interval.Set.Defs
import Mathlib.Tactic.Linarith
import Mathlib.Tactic.Positivity

/-!
# The rate limiter (`TokenBucketRateLimiter` of `bridge.py`)

The arithmetic of the bucket is taken to be exact, and the clock is an argument: `allow` receives the value that
`time.monotonic()` returns.

Every call admitted takes a token, and tokens come in at `rate`; so the calls admitted in a window and the tokens left
at its end come to at most a full bucket and what flowed in meanwhile (`window_bound`).
-/

namespace FeedHandler

structure TokenBucketRateLimiter where
  rate : ℚ
  capacity : ℚ
  tokens : ℚ
  lastUpdate : ℚ
deriving DecidableEq, Repr

namespace TokenBucketRateLimiter

/-- The constructor, at time `now`. -/
def init (rate capacity now : ℚ) : TokenBucketRateLimiter where
  rate := rate
  capacity := capacity
  tokens := capacity
  lastUpdate := now

/-- The first half of `allow`: the tokens that came in since the last call. -/
def refill (b : TokenBucketRateLimiter) (now : ℚ) : TokenBucketRateLimiter :=
  let elapsed := now - b.lastUpdate
  { b with lastUpdate := now, tokens := min b.capacity (b.tokens + elapsed * b.rate) }

def allow (b : TokenBucketRateLimiter) (now cost : ℚ) : Bool × TokenBucketRateLimiter :=
  let b := b.refill now
  if b.tokens ≥ cost then (true, { b with tokens := b.tokens - cost }) else (false, b)

/-- The limiter after calls of cost 1 at these times. -/
def run (b : TokenBucketRateLimiter) (times : List ℚ) : TokenBucketRateLimiter :=
  times.foldl (fun b now => (b.allow now 1).2) b

/-- What these calls return. -/
def allows (b : TokenBucketRateLimiter) : List ℚ → List Bool
  | [] => []
  | now :: times => (b.allow now 1).1 :: (b.allow now 1).2.allows times

variable {b : TokenBucketRateLimiter} {now : ℚ} {times : List ℚ}

/-! ### One call -/

/-- The tokens are within the bucket, and the rate is no drain. -/
structure Within (b : TokenBucketRateLimiter) : Prop where
  rate : 0 ≤ b.rate
  nonneg : 0 ≤ b.tokens
  le : b.tokens ≤ b.capacity

theorem Within.refill (h : b.Within) (hnow : b.lastUpdate ≤ now) : (b.refill now).Within := by
  have hin : 0 ≤ (now - b.lastUpdate) * b.rate := mul_nonneg (sub_nonneg.2 hnow) h.rate
  have htok := h.nonneg
  exact ⟨h.rate, le_min (htok.trans h.le) (by linarith), min_le_left _ _⟩

@[simp] theorem allow_rate (b : TokenBucketRateLimiter) (now cost : ℚ) : (b.allow now cost).2.rate = b.rate := by
  unfold allow
  dsimp only
  split <;> rfl

@[simp] theorem allow_capacity (b : TokenBucketRateLimiter) (now cost : ℚ) :
    (b.allow now cost).2.capacity = b.capacity := by
  unfold allow
  dsimp only
  split <;> rfl

@[simp] theorem allow_lastUpdate (b : TokenBucketRateLimiter) (now cost : ℚ) :
    (b.allow now cost).2.lastUpdate = now := by
  unfold allow
  dsimp only
  split <;> rfl

/-- An admitted call takes its token out of the refilled bucket. -/
theorem allow_tokens (b : TokenBucketRateLimiter) (now : ℚ) :
    ((b.allow now 1).1.toNat : ℚ) + (b.allow now 1).2.tokens = (b.refill now).tokens := by
  unfold allow
  dsimp only
  split
  · simp
  · simp

theorem Within.allow (h : b.Within) (hnow : b.lastUpdate ≤ now) : (b.allow now 1).2.Within := by
  have hfill := h.refill hnow
  unfold TokenBucketRateLimiter.allow
  dsimp only
  split
  · rename_i hcost
    have hle := hfill.le
    exact ⟨hfill.rate, sub_nonneg.2 hcost, by dsimp only; linarith⟩
  · exact hfill

/-! ### A sequence of calls -/

@[simp] theorem run_nil (b : TokenBucketRateLimiter) : b.run [] = b := rfl

@[simp] theorem run_cons (b : TokenBucketRateLimiter) (now : ℚ) (times : List ℚ) :
    b.run (now :: times) = (b.allow now 1).2.run times := rfl

theorem run_append (b : TokenBucketRateLimiter) (times more : List ℚ) :
    b.run (times ++ more) = (b.run times).run more := List.foldl_append

theorem allows_take (b : TokenBucketRateLimiter) (times : List ℚ) (n : Nat) :
    (b.allows times).take n = b.allows (times.take n) := by
  induction times generalizing b n with
  | nil => simp [allows]
  | cons now times ih =>
    cases n with
    | zero => rfl
    | succ n => simp [allows, ih]

theorem allows_drop (b : TokenBucketRateLimiter) (times : List ℚ) (n : Nat) :
    (b.allows times).drop n = (b.run (times.take n)).allows (times.drop n) := by
  induction times generalizing b n with
  | nil => simp [allows]
  | cons now times ih =>
    cases n with
    | zero => rfl
    | succ n => simp [allows, ih]

theorem count_allows_cons (b : TokenBucketRateLimiter) (now : ℚ) (times : List ℚ) :
    ((b.allows (now :: times)).count true : ℚ) =
      ((b.allow now 1).1.toNat : ℚ) + (((b.allow now 1).2.allows times).count true : ℚ) := by
  cases hout : (b.allow now 1).1 <;> simp [allows, hout, add_comm]

/-- Times that do not decrease, from the last update on. -/
def Later (b : TokenBucketRateLimiter) (times : List ℚ) : Prop := (b.lastUpdate :: times).Pairwise (· ≤ ·)

theorem Later.head (h : b.Later (now :: times)) : b.lastUpdate ≤ now :=
  (List.pairwise_cons.1 h).1 now List.mem_cons_self

theorem Later.tail (h : b.Later (now :: times)) : (b.allow now 1).2.Later times := by
  unfold Later
  rw [allow_lastUpdate]
  exact (List.pairwise_cons.1 h).2

theorem Within.run (h : b.Within) (hl : b.Later times) : (b.run times).Within := by
  induction times generalizing b with
  | nil => exact h
  | cons now times ih => exact ih (h.allow hl.head) hl.tail

theorem Later.run {more : List ℚ} (h : b.Later (times ++ more)) : (b.run times).Later more := by
  induction times generalizing b with
  | nil => exact h
  | cons now times ih => exact ih (Later.tail h)

@[simp] theorem run_capacity (b : TokenBucketRateLimiter) (times : List ℚ) : (b.run times).capacity = b.capacity := by
  induction times generalizing b with
  | nil => rfl
  | cons now times ih => simp [ih]

@[simp] theorem run_rate (b : TokenBucketRateLimiter) (times : List ℚ) : (b.run times).rate = b.rate := by
  induction times generalizing b with
  | nil => rfl
  | cons now times ih => simp [ih]

/-- The calls admitted so far and the tokens left come to at most the tokens at the start and the inflow. -/
theorem admitted_add_tokens_le (b : TokenBucketRateLimiter) (times : List ℚ) :
    ((b.allows times).count true : ℚ) + (b.run times).tokens ≤
      b.tokens + b.rate * ((b.run times).lastUpdate - b.lastUpdate) := by
  induction times generalizing b with
  | nil => simp [allows]
  | cons now times ih =>
    have hrest := ih (b.allow now 1).2
    have hone := allow_tokens b now
    have hfill : (b.refill now).tokens ≤ b.tokens + (now - b.lastUpdate) * b.rate := min_le_right _ _
    rw [count_allows_cons, run_cons]
    rw [allow_rate, allow_lastUpdate] at hrest
    linarith

/-- The window that a call opens: after its refill the bucket is at most full. -/
theorem window_le (h : b.Within) (hl : b.Later (now :: times)) :
    ((b.allows (now :: times)).count true : ℚ) ≤
      b.capacity + b.rate * ((b.run (now :: times)).lastUpdate - now) := by
  have hrest := admitted_add_tokens_le (b.allow now 1).2 times
  have hleft := ((h.allow hl.head).run hl.tail).nonneg
  have hone := allow_tokens b now
  have hfull := (h.refill hl.head).le
  have hcap : (b.refill now).capacity = b.capacity := rfl
  rw [count_allows_cons, run_cons]
  rw [allow_rate, allow_lastUpdate] at hrest
  linarith

/-- The clock of the limiter stands at the last call. -/
private theorem lastUpdate_run_take (b : TokenBucketRateLimiter) {n : Nat} (hn : n < times.length) :
    (b.run (times.take (n + 1))).lastUpdate = times[n] := by
  rw [List.take_succ_eq_append_getElem hn, run_append, run_cons, run_nil, allow_lastUpdate]

/-- A limiter with rate `r ≥ 0` and capacity `C ≥ 0`, called at times that do not decrease: the tokens stay in
`[0, C]`, in the middle of a call too, and the calls `i` to `j` admit at most `C + r * (tj - ti)`. -/
theorem window_bound (rate capacity start : ℚ) (times : List ℚ) (hrate : 0 ≤ rate) (hcap : 0 ≤ capacity)
    (htimes : (start :: times).Pairwise (· ≤ ·)) :
    let limiter := init rate capacity start
    (∀ n, (limiter.run (times.take n)).tokens ∈ Set.Icc 0 capacity) ∧
    (∀ n (_ : n < times.length), ((limiter.run (times.take n)).refill times[n]).tokens ∈ Set.Icc 0 capacity) ∧
    ∀ i j (_ : i ≤ j) (_ : j < times.length),
      ((((limiter.allows times).drop i).take (j + 1 - i)).count true : ℚ) ≤
        capacity + rate * (times[j] - times[i]) := by
  intro limiter
  have hstart : limiter.Within := ⟨hrate, hcap, le_refl capacity⟩
  have hsplit : ∀ n, limiter.Later (times.take n ++ times.drop n) := fun n => by
    rw [List.take_append_drop]
    exact htimes
  have hwithin : ∀ n, (limiter.run (times.take n)).Within := fun n =>
    hstart.run (htimes.sublist ((List.take_sublist n times).cons_cons start))
  have hbounds : ∀ c : TokenBucketRateLimiter, c.Within → c.capacity = capacity → c.tokens ∈ Set.Icc 0 capacity :=
    fun c hc he => ⟨hc.nonneg, he ▸ hc.le⟩
  refine ⟨fun n => hbounds _ (hwithin n) (run_capacity _ _), fun n hn => ?_, fun i j hij hj => ?_⟩
  · have hl := (hsplit n).run
    rw [List.drop_eq_getElem_cons hn] at hl
    exact hbounds _ ((hwithin n).refill hl.head) (run_capacity _ _)
  · -- the window starts with call `i` at the limiter that the calls before it have left
    have hi : i < times.length := by omega
    have hwindow : (times.drop i).take (j + 1 - i) = times[i] :: (times.drop (i + 1)).take (j - i) := by
      rw [List.drop_eq_getElem_cons hi, show j + 1 - i = (j - i) + 1 by omega, List.take_succ_cons]
    have hjoin : times.take i ++ (times.drop i).take (j + 1 - i) = times.take (j + 1) := by
      rw [← List.take_add, show i + (j + 1 - i) = j + 1 by omega]
    have hl : (limiter.run (times.take i)).Later (times[i] :: (times.drop (i + 1)).take (j - i)) := by
      rw [← hwindow]
      refine Later.run ?_
      rw [hjoin]
      exact htimes.sublist ((List.take_sublist _ times).cons_cons start)
    have hle := window_le (hwithin i) hl
    rw [← hwindow, ← run_append, hjoin, lastUpdate_run_take limiter hj, run_capacity, run_rate] at hle
    rw [allows_drop, allows_take]
    exact hle

/-- Two tokens a second into a bucket of two, four calls within a second: at most four go through. -/
theorem window_bound_second :
    ((((init 2 2 0).allows [0, 0, 0, 1]).drop 0).take 4).count true ≤ (2 : ℚ) + 2 * (1 - 0) :=
  (window_bound 2 2 0 [0, 0, 0, 1] (by decide) (by decide) (by decide)).2.2 0 3 (by decide) (by decide)

end TokenBucketRateLimiter

end FeedHandler
