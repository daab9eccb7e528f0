import FeedHandler.FeedArbitrator.Basic
import FeedHandler.Foundation.RingIndex
import Mathlib.Data.List.Induction

/-!
# What the arbitrator puts out

Over any interleaving of calls the messages put out are numbered `1, 2, 3, …` without gap or repetition, and each of
them was passed to `ingest`.  The buffer may hold stale messages and numbers put out already; they stay there, because
a message leaves the buffer only under the number expected next.
-/

namespace FeedHandler

namespace DualFeedArbitrator

variable {MaxBufferedGaps : Nat}

/-- The messages passed to `ingest`. -/
def ingested (calls : List Call) : List WireMessage :=
  calls.filterMap fun
    | .ingest _ msg => some msg
    | .tryDrainBuffered => none

/-- After some calls: the numbers put out are those below the expected one, and what is put out or buffered was
ingested. -/
structure Emitted (s : DualFeedArbitrator MaxBufferedGaps × List WireMessage) (seen : List WireMessage) : Prop where
  numbers : s.2.map (·.seqNo.toNat) = List.range' 1 (s.1.expectedSeqNo.toNat - 1)
  expected : 1 ≤ s.1.expectedSeqNo.toNat
  put_out : ∀ m ∈ s.2, m ∈ seen
  buffered : ∀ e ∈ s.1.gapBuffer.toList, e.active = true → e.msg ∈ seen

theorem emitted_reset (MaxBufferedGaps : Nat) : Emitted (reset MaxBufferedGaps, []) [] where
  numbers := rfl
  expected := le_refl 1
  put_out m hm := by cases hm
  buffered e he hact := by
    obtain rfl : e = {} := by simpa [reset] using List.eq_of_mem_replicate (by simpa [reset] using he)
    cases hact

private theorem mem_setIfInBounds {α : Type*} {n : Nat} {v : Vector α n} {i : Nat} {a x : α}
    (hx : x ∈ (v.setIfInBounds i a).toList) : x ∈ v.toList ∨ x = a := by
  rw [Vector.toList_setIfInBounds] at hx
  exact List.mem_or_eq_of_mem_set hx

/-- Putting out the message with the expected number. -/
private theorem Emitted.emit {s : DualFeedArbitrator MaxBufferedGaps × List WireMessage} {seen : List WireMessage}
    (h : Emitted s seen) {a : DualFeedArbitrator MaxBufferedGaps} {m : WireMessage}
    (ha : a.expectedSeqNo = s.1.expectedSeqNo + 1) (hseq : m.seqNo = s.1.expectedSeqNo)
    (hlt : m.seqNo.toNat < 2 ^ 64 - 1) (hm : m ∈ seen)
    (hbuf : ∀ e ∈ a.gapBuffer.toList, e.active = true → e.msg ∈ seen) : Emitted (a, s.2 ++ [m]) seen := by
  rw [hseq] at hlt
  have hone := h.expected
  -- the counter does not wrap, as the number put out is below `2^64 - 1`
  have hnext : a.expectedSeqNo.toNat = s.1.expectedSeqNo.toNat + 1 := by
    rw [ha, RingIndex.toNat_succ (by omega)]
  refine ⟨?_, ?_, fun x hx => ?_, hbuf⟩
  · show (s.2 ++ [m]).map _ = List.range' 1 (a.expectedSeqNo.toNat - 1)
    have hlen : s.1.expectedSeqNo.toNat + 1 - 1 = s.1.expectedSeqNo.toNat - 1 + 1 := by omega
    rw [List.map_append, h.numbers, hnext, hlen, List.range'_1_concat, List.map_singleton, hseq]
    congr 2
    omega
  · show 1 ≤ a.expectedSeqNo.toNat
    omega
  · rcases List.mem_append.1 hx with hx | hx
    · exact h.put_out x hx
    · obtain rfl : x = m := by simpa using hx
      exact hm

/-- A call that puts nothing out and leaves the expected number. -/
private theorem Emitted.keep {s : DualFeedArbitrator MaxBufferedGaps × List WireMessage} {seen : List WireMessage}
    (h : Emitted s seen) {a : DualFeedArbitrator MaxBufferedGaps} (ha : a.expectedSeqNo = s.1.expectedSeqNo)
    (hbuf : ∀ e ∈ a.gapBuffer.toList, e.active = true → e.msg ∈ seen) : Emitted (a, s.2 ++ []) seen := by
  refine ⟨?_, ?_, ?_, hbuf⟩
  · rw [List.append_nil, ha]
    exact h.numbers
  · rw [ha]
    exact h.expected
  · rw [List.append_nil]
    exact h.put_out

theorem Emitted.mono {s : DualFeedArbitrator MaxBufferedGaps × List WireMessage} {seen seen' : List WireMessage}
    (h : Emitted s seen) (hsub : ∀ m ∈ seen, m ∈ seen') : Emitted s seen' :=
  ⟨h.numbers, h.expected, fun m hm => hsub m (h.put_out m hm), fun e he hact => hsub _ (h.buffered e he hact)⟩

theorem Emitted.ingest {s : DualFeedArbitrator MaxBufferedGaps × List WireMessage} {seen : List WireMessage}
    (h : Emitted s seen) (source : FeedSource) {msg : WireMessage} (hlt : msg.seqNo.toNat < 2 ^ 64 - 1)
    (hm : msg ∈ seen) : Emitted (step s (.ingest source msg)) seen := by
  unfold step call DualFeedArbitrator.ingest
  dsimp only
  by_cases hdup : msg.seqNo < s.1.expectedSeqNo
  · rw [if_pos hdup]
    exact h.keep rfl h.buffered
  · rw [if_neg hdup]
    by_cases hnext : msg.seqNo = s.1.expectedSeqNo
    · rw [if_pos hnext]
      exact h.emit rfl hnext hlt hm h.buffered
    · rw [if_neg hnext]
      refine h.keep rfl fun e he hact => ?_
      rcases mem_setIfInBounds he with he | rfl
      · exact h.buffered e he hact
      · exact hm

theorem getElem!_mem {v : Vector GapBufferEntry MaxBufferedGaps} {i : Nat} (hact : v[i]!.active = true) :
    v[i]! ∈ v.toList := by
  by_cases hi : i < MaxBufferedGaps
  · rw [getElem!_pos v i hi]
    simp
  · rw [getElem!_neg v i hi] at hact
    cases hact

theorem Emitted.drain {s : DualFeedArbitrator MaxBufferedGaps × List WireMessage} {seen : List WireMessage}
    (h : Emitted s seen) (hlt : ∀ m ∈ seen, m.seqNo.toNat < 2 ^ 64 - 1) :
    Emitted (step s .tryDrainBuffered) seen := by
  unfold step call DualFeedArbitrator.tryDrainBuffered
  dsimp only
  split
  · rename_i hready
    rw [Bool.and_eq_true, decide_eq_true_eq] at hready
    obtain ⟨hact, hseq⟩ := hready
    have hm := h.buffered _ (getElem!_mem hact) hact
    -- the slot is marked inactive: nothing new is buffered
    refine h.emit rfl hseq (hlt _ hm) hm fun e he hact' => ?_
    rcases mem_setIfInBounds he with he | rfl
    · exact h.buffered e he hact'
    · cases hact'
  · exact h.keep rfl h.buffered

/-- The invariant of a run. -/
theorem run_emitted (MaxBufferedGaps : Nat) (calls : List Call)
    (hlt : ∀ m ∈ ingested calls, m.seqNo.toNat < 2 ^ 64 - 1) :
    Emitted (run MaxBufferedGaps calls) (ingested calls) := by
  induction calls using List.reverseRecOn with
  | nil => exact emitted_reset MaxBufferedGaps
  | append_singleton calls c ih =>
    have hsplit : ingested (calls ++ [c]) = ingested calls ++ ingested [c] := List.filterMap_append
    have hrun : run MaxBufferedGaps (calls ++ [c]) = step (run MaxBufferedGaps calls) c := by
      simp [run, List.foldl_append]
    have hold : ∀ m ∈ ingested calls, m ∈ ingested (calls ++ [c]) := fun m hm => by
      rw [hsplit]
      exact List.mem_append_left _ hm
    have h := (ih fun m hm => hlt m (hold m hm)).mono hold
    rw [hrun]
    cases c with
    | ingest source msg =>
      have hm : msg ∈ ingested (calls ++ [.ingest source msg]) := by simp [ingested]
      exact h.ingest source (hlt msg hm) hm
    | tryDrainBuffered => exact h.drain hlt

/-- For every interleaving of `ingest` and `tryDrainBuffered` calls on a fresh arbitrator, the messages put out carry
the numbers `1, 2, …, expectedSeqNo - 1` in this order, and what was put out by any time was passed to `ingest` by
then. -/
theorem emission_order (MaxBufferedGaps : Nat) (calls : List Call)
    (hlt : ∀ m ∈ ingested calls, m.seqNo.toNat < 2 ^ 64 - 1) :
    (run MaxBufferedGaps calls).2.map (·.seqNo.toNat) =
        List.range' 1 ((run MaxBufferedGaps calls).1.expectedSeqNo.toNat - 1) ∧
      ∀ pre post, calls = pre ++ post → ∀ m ∈ (run MaxBufferedGaps pre).2, m ∈ ingested pre := by
  refine ⟨(run_emitted MaxBufferedGaps calls hlt).numbers, fun pre post he => ?_⟩
  refine (run_emitted MaxBufferedGaps pre fun m hm => hlt m ?_).put_out
  rw [he, ingested, List.filterMap_append]
  exact List.mem_append_left _ hm

/-- Two feeds, one ahead of the other: message 2 is buffered, 1 passes twice, then 2 is drained. -/
theorem emission_order_two_feeds :
    (run 4 [.ingest .FeedA (.ofCancel ⟨'X'.toUInt8, 2, 0, 7, 3⟩), .ingest .FeedB (.ofCancel ⟨'X'.toUInt8, 1, 0, 7, 4⟩),
        .ingest .FeedA (.ofCancel ⟨'X'.toUInt8, 1, 0, 7, 4⟩), .tryDrainBuffered, .tryDrainBuffered]).2.map
          (·.seqNo.toNat) = [1, 2] :=
  (emission_order 4 _ (by decide)).1.trans (by decide)

end DualFeedArbitrator

end FeedHandler
