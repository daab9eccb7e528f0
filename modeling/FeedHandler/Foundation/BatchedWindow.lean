import Mathlib.Data.List.Basic

/-!
# A sliding window that is filled in batches

Values arrive one at a time and are collected in a pending batch.  A full batch goes to the window; when the window is
longer than `limit` by then, its oldest batch is dropped first.  With `limit` a multiple of the batch size, the window
is a piece of the stream of values: it ends with the last complete batch and starts at the last clear, or
`limit / batch + 1` batches back (`Follows`).
-/

namespace BatchedWindow

structure State (α : Type*) where
  pending : List α := []
  window : List α := []

variable {α : Type*} {batch limit keep start : ℕ} {s : State α} {xs : List α}

def State.push (batch limit : ℕ) (s : State α) (x : α) : State α :=
  let pending := s.pending ++ [x]
  if pending.length ≥ batch then
    { pending := []
      window := (if s.window.length > limit then s.window.drop pending.length else s.window) ++ pending }
  else
    { s with pending }

def State.clear (s : State α) : State α := { s with window := [] }

/-- The first batch of the stream that is in the window, when it was last cleared after `start` values. -/
def first (batch keep start n : ℕ) : ℕ := max (start / batch) (n / batch - (keep + 1))

/-- The state after the values `xs`, cleared last after the first `start` of them. -/
structure Follows (batch keep start : ℕ) (s : State α) (xs : List α) : Prop where
  start_le : start ≤ xs.length
  pending : s.pending = xs.drop (batch * (xs.length / batch))
  window : s.window = (xs.take (batch * (xs.length / batch))).drop (batch * first batch keep start xs.length)

theorem follows_nil (batch keep : ℕ) : Follows batch keep 0 ({} : State α) [] where
  start_le := Nat.le_refl 0
  pending := by simp
  window := by simp

theorem Follows.length_window (h : Follows batch keep start s xs) :
    s.window.length = batch * (xs.length / batch - first batch keep start xs.length) := by
  have hle := Nat.mul_div_le xs.length batch
  rw [h.window, List.length_drop, List.length_take, Nat.min_eq_left hle, Nat.mul_sub]

theorem Follows.length_pending (h : Follows batch keep start s xs) : s.pending.length = xs.length % batch := by
  rw [h.pending, List.length_drop, ← Nat.mod_eq_sub_mul_div]

theorem Follows.clear (h : Follows batch keep start s xs) : Follows batch keep xs.length s.clear xs where
  start_le := Nat.le_refl _
  pending := h.pending
  window := by
    symm
    apply List.drop_eq_nil_of_le
    rw [List.length_take]
    exact Nat.le_trans (Nat.min_le_left ..) (Nat.mul_le_mul_left batch (Nat.le_max_left ..))

/-- A value that does not complete a batch. -/
theorem Follows.push_pending (h : Follows batch keep start s xs) (x : α)
    (hlt : xs.length % batch + 1 < batch) : Follows batch keep start (s.push batch limit x) (xs ++ [x]) := by
  have hle := Nat.mul_div_le xs.length batch
  have hdiv : (xs.length + 1) / batch = xs.length / batch := by
    rw [Nat.add_div (by omega), Nat.mod_eq_of_lt (by omega : 1 < batch), Nat.div_eq_of_lt (by omega : 1 < batch),
      if_neg (by omega)]
    rfl
  have hpending : (s.pending ++ [x]).length = xs.length % batch + 1 := by
    rw [List.length_append, List.length_singleton, h.length_pending]
  have hpush : s.push batch limit x = { s with pending := s.pending ++ [x] } := if_neg (by omega)
  have hlen : (xs ++ [x]).length = xs.length + 1 := List.length_append
  rw [hpush]
  refine ⟨?_, ?_, ?_⟩
  · rw [hlen]
    exact Nat.le_succ_of_le h.start_le
  · rw [hlen, hdiv, List.drop_append_of_le_length hle, ← h.pending]
  · unfold first
    rw [hlen, hdiv, List.take_append_of_le_length hle]
    exact h.window

/-- The value behind an incomplete batch that lacks one. -/
private theorem succ_eq_mul {n : ℕ} (hfull : n % batch + 1 = batch) : n + 1 = batch * (n / batch + 1) := by
  have hsplit := Nat.div_add_mod n batch
  rw [Nat.mul_succ]
  omega

/-- The window that a full batch is appended to starts one batch later when its first batch is dropped. -/
private theorem Follows.trimmed (h : Follows batch keep start s xs) (hbatch : 0 < batch) :
    (if s.window.length > batch * keep then s.window.drop batch else s.window) =
      (xs.take (batch * (xs.length / batch))).drop
        (batch * max (start / batch) (xs.length / batch + 1 - (keep + 1))) := by
  have hstart : start / batch ≤ xs.length / batch := Nat.div_le_div_right h.start_le
  obtain ⟨m, hm⟩ : ∃ m, first batch keep start xs.length = m := ⟨_, rfl⟩
  have hfirst : max (start / batch) (xs.length / batch - (keep + 1)) = m := hm
  rw [h.length_window, hm]
  by_cases hlong : xs.length / batch - m > keep
  · have hnext : max (start / batch) (xs.length / batch + 1 - (keep + 1)) = m + 1 := by omega
    rw [if_pos (Nat.mul_lt_mul_of_pos_left hlong hbatch), h.window, hm, List.drop_drop, hnext, Nat.mul_succ]
  · have hsame : max (start / batch) (xs.length / batch + 1 - (keep + 1)) = m := by omega
    have hshort : ¬ batch * (xs.length / batch - m) > batch * keep :=
      Nat.not_lt.2 (Nat.mul_le_mul_left batch (Nat.not_lt.1 hlong))
    rw [if_neg hshort, h.window, hm, hsame]

/-- A value that completes a batch. -/
theorem Follows.push_flush (h : Follows batch keep start s xs) (x : α) (hfull : xs.length % batch + 1 = batch) :
    Follows batch keep start (s.push batch (batch * keep) x) (xs ++ [x]) := by
  have hbatch : 0 < batch := by omega
  have hle := Nat.mul_div_le xs.length batch
  have hmul := succ_eq_mul hfull
  have hlen : (xs ++ [x]).length = xs.length + 1 := List.length_append
  have hdiv : (xs.length + 1) / batch = xs.length / batch + 1 := by rw [hmul, Nat.mul_div_cancel_left _ hbatch]
  have hstart : start / batch ≤ xs.length / batch := Nat.div_le_div_right h.start_le
  have hpush : s.push batch (batch * keep) x =
      { pending := []
        window := (if s.window.length > batch * keep then s.window.drop batch else s.window) ++
          (s.pending ++ [x]) } := by
    have hpending : (s.pending ++ [x]).length = batch := by
      rw [List.length_append, List.length_singleton, h.length_pending, hfull]
    unfold State.push
    dsimp only
    rw [hpending, if_pos (Nat.le_refl _)]
  rw [hpush, h.trimmed hbatch]
  refine ⟨?_, ?_, ?_⟩
  · rw [hlen]
    exact Nat.le_succ_of_le h.start_le
  · rw [hlen, hdiv, ← hmul]
    simp
  · unfold first
    obtain ⟨m, hm⟩ : ∃ m, max (start / batch) (xs.length / batch + 1 - (keep + 1)) = m := ⟨_, rfl⟩
    have hmle : batch * m ≤ batch * (xs.length / batch) := by
      rw [← hm, Nat.add_sub_add_right]
      exact Nat.mul_le_mul_left batch (Nat.max_le.2 ⟨hstart, Nat.sub_le ..⟩)
    have hbound : batch * m ≤ (xs.take (batch * (xs.length / batch))).length := by
      rwa [List.length_take, Nat.min_eq_left hle]
    rw [hlen, hdiv, hm, ← hmul, List.take_of_length_le (Nat.le_of_eq hlen), h.pending]
    calc (xs.take (batch * (xs.length / batch))).drop (batch * m) ++ (xs.drop (batch * (xs.length / batch)) ++ [x])
        = (xs.take (batch * (xs.length / batch)) ++ xs.drop (batch * (xs.length / batch))).drop (batch * m) ++ [x] := by
          rw [List.drop_append_of_le_length hbound, List.append_assoc]
      _ = (xs ++ [x]).drop (batch * m) := by
          rw [List.take_append_drop, List.drop_append_of_le_length (Nat.le_trans hmle hle)]

/-- One more value. -/
theorem Follows.push (hbatch : 0 < batch) (h : Follows batch keep start s xs) (x : α) :
    Follows batch keep start (s.push batch (batch * keep) x) (xs ++ [x]) := by
  have hlt := Nat.mod_lt xs.length hbatch
  rcases Nat.lt_or_ge (xs.length % batch + 1) batch with hopen | hfull
  · exact h.push_pending x hopen
  · exact h.push_flush x (by omega)

/-! ### Without a clear -/

/-- The batch number `q` of the stream. -/
def batchAt (batch : ℕ) (xs : List α) (q : ℕ) : List α := (xs.drop (batch * q)).take batch

/-- The window after `q` batches. -/
def content (batch keep : ℕ) (xs : List α) (q : ℕ) : List α :=
  (xs.take (batch * q)).drop (batch * (q - (keep + 1)))

theorem Follows.window_eq (h : Follows batch keep 0 s xs) :
    s.window = content batch keep xs (xs.length / batch) := by
  have hfirst : first batch keep 0 xs.length = xs.length / batch - (keep + 1) := by
    unfold first
    rw [Nat.zero_div, Nat.zero_max]
  rw [h.window, hfirst]
  rfl

/-- The window does not depend on what comes later. -/
theorem content_append {q : ℕ} (hq : batch * q ≤ xs.length) (ys : List α) :
    content batch keep (xs ++ ys) q = content batch keep xs q := by
  unfold content
  rw [List.take_append_of_le_length hq]

theorem length_content {q : ℕ} (hq : batch * q ≤ xs.length) :
    (content batch keep xs q).length = batch * min q (keep + 1) := by
  have hmin : q - (q - (keep + 1)) = min q (keep + 1) := by omega
  unfold content
  rw [List.length_drop, List.length_take, Nat.min_eq_left hq, ← Nat.mul_sub, hmin]

theorem take_succ_batch (q : ℕ) : xs.take (batch * (q + 1)) = xs.take (batch * q) ++ batchAt batch xs q := by
  rw [Nat.mul_succ, List.take_add]
  rfl

/-- A window that is not full keeps its batches and takes the next one. -/
theorem content_succ_of_lt {q : ℕ} (hq : q < keep + 1) :
    content batch keep xs (q + 1) = content batch keep xs q ++ batchAt batch xs q := by
  have hzero : q + 1 - (keep + 1) = 0 ∧ q - (keep + 1) = 0 := by omega
  unfold content
  rw [hzero.1, hzero.2, Nat.mul_zero, List.drop_zero, List.drop_zero, take_succ_batch]

/-- A full window loses its oldest batch for the next one. -/
theorem content_succ_of_le {q : ℕ} (hq : keep + 1 ≤ q) (hlen : batch * q ≤ xs.length) :
    ∃ common, content batch keep xs q = batchAt batch xs (q - (keep + 1)) ++ common ∧
      content batch keep xs (q + 1) = common ++ batchAt batch xs q := by
  obtain ⟨d, rfl⟩ : ∃ d, q = d + (keep + 1) := ⟨q - (keep + 1), by omega⟩
  have hnext : d + (keep + 1) + 1 - (keep + 1) = d + 1 := by omega
  have hbound : batch * (d + 1) ≤ (xs.take (batch * (d + (keep + 1)))).length := by
    rw [List.length_take, Nat.min_eq_left hlen]
    exact Nat.mul_le_mul_left batch (by omega)
  refine ⟨(xs.take (batch * (d + (keep + 1)))).drop (batch * (d + 1)), ?_, ?_⟩
  · unfold content batchAt
    rw [Nat.add_sub_cancel]
    have hsplit := List.take_append_drop batch ((xs.take (batch * (d + (keep + 1)))).drop (batch * d))
    have htake : ((xs.take (batch * (d + (keep + 1)))).drop (batch * d)).take batch =
        (xs.drop (batch * d)).take batch := by
      have hroom : batch ≤ batch * (d + (keep + 1)) - batch * d := by
        rw [← Nat.mul_sub, Nat.add_sub_cancel_left]
        exact Nat.le_mul_of_pos_right batch (Nat.succ_pos keep)
      rw [List.drop_take, List.take_take, Nat.min_eq_left hroom]
    rw [htake, List.drop_drop] at hsplit
    rw [Nat.mul_succ]
    exact hsplit.symm
  · show (xs.take (batch * (d + (keep + 1) + 1))).drop (batch * (d + (keep + 1) + 1 - (keep + 1))) = _
    rw [hnext, take_succ_batch, List.drop_append_of_le_length hbound]

/-- The number of elements of a kind in the window never falls exactly when no batch has fewer of them than the batch
it drives out. -/
theorem countP_content_mono_iff (batch keep : ℕ) (xs : List α) (p : α → Bool) :
    (∀ q q', q ≤ q' → batch * q' ≤ xs.length →
        (content batch keep xs q).countP p ≤ (content batch keep xs q').countP p) ↔
      ∀ q, keep + 1 ≤ q → batch * (q + 1) ≤ xs.length →
        (batchAt batch xs (q - (keep + 1))).countP p ≤ (batchAt batch xs q).countP p := by
  constructor
  · intro h q hq hlen
    have hstep := h q (q + 1) (Nat.le_succ q) hlen
    obtain ⟨common, hold, hnew⟩ :=
      content_succ_of_le hq (Nat.le_trans (Nat.mul_le_mul_left batch (Nat.le_succ q)) hlen)
    rw [hold, hnew, List.countP_append, List.countP_append] at hstep
    omega
  · intro h q q' hle
    induction hle with
    | refl => exact fun _ => Nat.le_refl _
    | @step q' hle ih =>
      intro hlen
      have hlen' := Nat.le_trans (Nat.mul_le_mul_left batch (Nat.le_succ q')) hlen
      refine Nat.le_trans (ih hlen') ?_
      rcases Nat.lt_or_ge q' (keep + 1) with hlt | hge
      · rw [content_succ_of_lt hlt, List.countP_append]
        exact Nat.le_add_right ..
      · have hbatch := h q' hge hlen
        obtain ⟨common, hold, hnew⟩ := content_succ_of_le hge hlen'
        rw [hold, hnew, List.countP_append, List.countP_append]
        omega

end BatchedWindow
