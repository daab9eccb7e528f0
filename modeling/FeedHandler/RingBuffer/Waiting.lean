import FeedHandler.RingBuffer.Threads
import Mathlib.Logic.Function.Iterate

/-!
# What waits in the ring

The items between the tail and the head are those pushed and not yet popped, in order (`popped_append_waiting`).  The
popping thread, left alone, pops them all (`exists_popped_eq_pushed`): each of its steps brings it closer to the next
item, also when it works on a cached head that is out of date.
-/

namespace FeedHandler

open RingIndex SPSCRingBuffer

namespace RingThreads

variable {ι T : Type} {Capacity : RingCapacity} {index : UInt64} {s : RingThreads ι T Capacity}

/-- The items between the tail and the head. -/
def waiting (s : RingThreads ι T Capacity) : List T :=
  (List.range (s.ring.head - s.ring.tail).toNat).map fun k => s.ring.read (nth s.ring.tail k)

/-- Every item whose push returned `true` was popped once or waits in the ring, and nothing else does. -/
theorem Inv.popped_append_waiting (h : Inv index s) : s.popped ++ s.waiting = s.pushed := by
  have hroom := h.room
  have hcap := Capacity.le
  have horder := h.order.length_le
  have hlen : (s.ring.head - s.ring.tail).toNat = s.pushed.length - s.popped.length := by
    rw [h.head, h.tail]
    exact toNat_sub horder (by omega)
  have hwaiting : s.waiting = s.pushed.drop s.popped.length := by
    unfold waiting
    rw [hlen]
    apply List.ext_getElem
    · rw [List.length_map, List.length_range, List.length_drop]
    · intro k hk hk'
      rw [List.length_drop] at hk'
      rw [List.getElem_map, List.getElem_range, List.getElem_drop, h.tail, nth_nth]
      exact h.contents _ _ (Nat.le_add_right ..) (List.getElem?_eq_getElem (by omega))
  calc s.popped ++ s.waiting
      = s.pushed.take s.popped.length ++ s.pushed.drop s.popped.length := by
        rw [hwaiting, ← List.prefix_iff_eq_take.1 h.order]
    _ = s.pushed := List.take_append_drop ..

/-- The steps that `tryPop` still takes before it pops an item, when there is one. -/
def stepsToPop (cachedHead : UInt64) : TryPop T → Nat
  | .storeTail _ _ => 1
  | .readSlot _ => 2
  | .reloadCachedHead t => if t = cachedHead then 9 else 3
  | .storeCachedHead t h => if t = h then 10 else 4
  | .loadHead _ => 5
  | .loadCachedHead _ => 6
  | .loadTail => 7
  | .idle => 8

/-- While an item waits, each step of the popping thread pops it or comes closer to it. -/
theorem Inv.popStep_progress (h : Inv index s) (hlt : s.popped.length < s.pushed.length) :
    s.popStep.popped.length = s.popped.length + 1 ∨ s.popStep.popped = s.popped ∧
      stepsToPop s.popStep.ring.cachedHead s.popStep.popping < stepsToPop s.ring.cachedHead s.popping := by
  have hok := h.popOk
  have hroom := h.room
  have hcap := Capacity.le
  unfold RingThreads.popStep
  cases hcall : s.popping with
  | idle =>
    refine Or.inr ⟨rfl, ?_⟩
    show 7 < 8
    decide
  | loadTail =>
    refine Or.inr ⟨List.append_nil _, ?_⟩
    show 6 < 7
    decide
  | loadCachedHead t =>
    right
    dsimp only [TryPop.step]
    split
    · refine ⟨List.append_nil _, ?_⟩
      show 5 < 6
      decide
    · refine ⟨List.append_nil _, ?_⟩
      show 2 < 6
      decide
  | loadHead t =>
    rw [hcall] at hok
    have hne : t ≠ s.ring.head := by
      intro he
      rw [hok, h.head] at he
      have heq := nth_inj (Nat.le_of_lt hlt) (by omega) he
      omega
    refine Or.inr ⟨List.append_nil _, ?_⟩
    show (if t = s.ring.head then 10 else 4) < 5
    rw [if_neg hne]
    decide
  | storeCachedHead t h =>
    refine Or.inr ⟨List.append_nil _, ?_⟩
    show (if t = h then 9 else 3) < if t = h then 10 else 4
    by_cases he : t = h
    · rw [if_pos he, if_pos he]
      decide
    · rw [if_neg he, if_neg he]
      decide
  | reloadCachedHead t =>
    right
    by_cases he : t = s.ring.cachedHead
    · have hstep : TryPop.step s.ring (.reloadCachedHead t) = (s.ring, .idle, .returnedFalse) := if_pos he
      dsimp only
      rw [hstep]
      refine ⟨List.append_nil _, ?_⟩
      show 8 < if t = s.ring.cachedHead then 9 else 3
      rw [if_pos he]
      decide
    · have hstep : TryPop.step s.ring (.reloadCachedHead t) = (s.ring, .readSlot t, .running) := if_neg he
      dsimp only
      rw [hstep]
      refine ⟨List.append_nil _, ?_⟩
      show 2 < if t = s.ring.cachedHead then 9 else 3
      rw [if_neg he]
      decide
  | readSlot t =>
    refine Or.inr ⟨List.append_nil _, ?_⟩
    show 1 < 2
    decide
  | storeTail t item => exact Or.inl List.length_append

/-- The popping thread leaves what the pushing threads work on. -/
theorem popStep_frame (s : RingThreads ι T Capacity) :
    s.popStep.pushing = s.pushing ∧ s.popStep.pushed = s.pushed ∧
      s.popStep.pushedAtHeadLoad = s.pushedAtHeadLoad ∧ s.popStep.unreleasedAtTailLoad = s.unreleasedAtTailLoad ∧
      s.popStep.ring.cachedTail = s.ring.cachedTail ∧ s.popStep.ring.buffer = s.ring.buffer ∧
      s.popped.length ≤ s.popStep.popped.length := by
  unfold popStep
  cases s.popping with
  | idle => exact ⟨rfl, rfl, rfl, rfl, rfl, rfl, le_refl _⟩
  | _ =>
    dsimp only [TryPop.step]
    try split
    all_goals exact ⟨rfl, rfl, rfl, rfl, rfl, rfl, by rw [List.length_append]; omega⟩

/-- The popping thread alone pops an item that waits. -/
theorem Inv.exists_pop {n : Nat} (h : Inv index s) (hlt : s.popped.length < s.pushed.length)
    (hn : stepsToPop s.ring.cachedHead s.popping ≤ n) :
    ∃ k, Inv index (RingThreads.popStep^[k] s) ∧ (RingThreads.popStep^[k] s).pushed = s.pushed ∧
      (RingThreads.popStep^[k] s).popped.length = s.popped.length + 1 := by
  induction n generalizing s with
  | zero =>
    rcases h.popStep_progress hlt with hpop | ⟨-, hless⟩
    · exact ⟨1, h.popStep, (popStep_frame s).2.1, hpop⟩
    · omega
  | succ n ih =>
    rcases h.popStep_progress hlt with hpop | ⟨hpopped, hless⟩
    · exact ⟨1, h.popStep, (popStep_frame s).2.1, hpop⟩
    · have hpushed := (popStep_frame s).2.1
      obtain ⟨k, hinv, hpushed', hlen⟩ := ih h.popStep (by rw [hpopped, hpushed]; exact hlt) (by omega)
      rw [hpushed] at hpushed'
      rw [hpopped] at hlen
      exact ⟨k + 1, hinv, hpushed', hlen⟩

/-- The popping thread alone pops everything that waits. -/
theorem Inv.exists_popped_eq_pushed (h : Inv index s) : ∃ k, (RingThreads.popStep^[k] s).popped = s.pushed := by
  obtain ⟨d, hd⟩ : ∃ d, s.pushed.length - s.popped.length = d := ⟨_, rfl⟩
  induction d generalizing s with
  | zero => exact ⟨0, h.order.eq_of_length_le (by omega)⟩
  | succ d ih =>
    obtain ⟨k, hinv, hpushed, hlen⟩ := h.exists_pop (by omega) (le_refl _)
    obtain ⟨k', hk'⟩ := ih hinv (by rw [hpushed, hlen]; omega)
    refine ⟨k' + k, ?_⟩
    rw [Function.iterate_add_apply, hk', hpushed]

end RingThreads

end FeedHandler
