import FeedHandler.RingBuffer.Spsc

/-!
# Progress of the two threads

While an item waits, the popping thread comes closer to it with every step (`Inv.popStep_progress`).  In the same way
the only pushing thread comes closer to a push while the ring is not full, also when it works on a cached tail that is
out of date (`pushStep_progress`).  On an empty ring a call of `tryPop` comes closer to its end (`popStep_empty`).
-/

namespace FeedHandler

open RingIndex SPSCRingBuffer

/-- The item of a call in progress. -/
def TryPush.item {T : Type} : TryPush T → Option T
  | .idle => none
  | .loadHead item | .loadCachedTail item _ | .loadTail item _ | .storeCachedTail item _ _
  | .reloadCachedTail item _ | .writeSlot item _ | .storeHead item _ => some item

/-- A call pushes its own item, or goes on with it, or ends. -/
theorem TryPush.step_item {T : Type} {Capacity : RingCapacity} (ring : SPSCRingBuffer T Capacity) (call : TryPush T) :
    (∀ x ∈ (call.step ring).2.2.items, call.item = some x) ∧
      (∀ x, (call.step ring).2.1.item = some x → call.item = some x) := by
  cases call with
  | loadCachedTail x h =>
    dsimp only [TryPush.step]
    split <;> simp [Outcome.items, item]
  | reloadCachedTail x h =>
    dsimp only [TryPush.step]
    split <;> simp [Outcome.items, item]
  | _ => simp [TryPush.step, Outcome.items, item]

namespace RingThreads

variable {T : Type} {Capacity : RingCapacity} {index : UInt64}

/-! ### What a step leaves alone -/

theorem pushed_pushStep (s : RingThreads Unit T Capacity) (item : T) :
    (s.pushStep () item).pushed = s.pushed ++ ((s.pushing ()).step s.ring).2.2.items := by
  unfold pushStep
  cases s.pushing () with
  | idle => exact (List.append_nil _).symm
  | _ => rfl

theorem popped_popStep {ι : Type} (s : RingThreads ι T Capacity) :
    s.popStep.popped = s.popped ++ (s.popping.step s.ring).2.2.items := by
  unfold popStep
  cases s.popping with
  | idle => exact (List.append_nil _).symm
  | _ => rfl

/-- A call of `tryPop` that returns is over. -/
theorem popping_popStep {ι : Type} {s : RingThreads ι T Capacity} (h : (s.popping.step s.ring).2.2 ≠ .running) :
    s.popStep.popping = .idle := by
  unfold popStep
  cases hcall : s.popping with
  | storeTail t x => rfl
  | loadCachedHead t =>
    rw [hcall] at h
    dsimp only [TryPop.step] at h
    split at h <;> exact absurd rfl h
  | reloadCachedHead t =>
    rw [hcall] at h
    dsimp only [TryPop.step] at h ⊢
    split at h
    · rename_i heq
      rw [if_pos heq]
    · exact absurd rfl h
  | _ =>
    rw [hcall] at h
    exact absurd rfl h

/-- The call that a pushing thread is in after a step. -/
theorem item_pushStep {s : RingThreads Unit T Capacity} {item x : T}
    (h : ((s.pushStep () item).pushing ()).item = some x) :
    x = item ∧ s.pushing () = .idle ∨ (s.pushing ()).item = some x := by
  unfold pushStep at h
  cases hcall : s.pushing () with
  | idle =>
    rw [hcall] at h
    dsimp only at h
    rw [Function.update_self] at h
    exact Or.inl ⟨(Option.some.inj h).symm, rfl⟩
  | _ =>
    rw [hcall] at h
    dsimp only at h
    rw [Function.update_self] at h
    exact Or.inr ((TryPush.step_item s.ring _).2 x h)

/-- A push that completes ends its call. -/
theorem idle_of_items {s : RingThreads Unit T Capacity} (h : ((s.pushing ()).step s.ring).2.2.items ≠ []) (item : T) :
    (s.pushStep () item).pushing () = .idle := by
  unfold pushStep
  cases hcall : s.pushing () with
  | storeHead x currentHead =>
    dsimp only [TryPush.step]
    rw [Function.update_self]
  | loadCachedTail x currentHead =>
    rw [hcall] at h
    dsimp only [TryPush.step] at h
    split at h <;> exact absurd rfl h
  | reloadCachedTail x currentHead =>
    rw [hcall] at h
    dsimp only [TryPush.step] at h
    split at h <;> exact absurd rfl h
  | _ =>
    rw [hcall] at h
    exact absurd rfl h

/-- The pushing thread leaves what the popping thread works on. -/
theorem pushStep_frame (s : RingThreads Unit T Capacity) (item : T) :
    (s.pushStep () item).popping = s.popping ∧ (s.pushStep () item).popped = s.popped ∧
      (s.pushStep () item).ring.tail = s.ring.tail ∧
      (s.pushStep () item).ring.cachedHead = s.ring.cachedHead := by
  unfold pushStep
  cases s.pushing () with
  | idle => exact ⟨rfl, rfl, rfl, rfl⟩
  | loadCachedTail x h =>
    dsimp only [TryPush.step]
    split <;> exact ⟨rfl, rfl, rfl, rfl⟩
  | reloadCachedTail x h =>
    dsimp only [TryPush.step]
    split <;> exact ⟨rfl, rfl, rfl, rfl⟩
  | _ => exact ⟨rfl, rfl, rfl, rfl⟩

/-! ### Pushing -/

/-- The steps that `tryPush` still takes before it pushes its item, when there is room. -/
def stepsToPush (Capacity : RingCapacity) (cachedTail : UInt64) : TryPush T → Nat
  | .storeHead _ _ => 1
  | .writeSlot _ _ => 2
  | .reloadCachedTail _ h => if h - cachedTail ≥ UInt64.ofNat Capacity.val then 9 else 3
  | .storeCachedTail _ h t => if h - t ≥ UInt64.ofNat Capacity.val then 10 else 4
  | .loadTail _ _ => 5
  | .loadCachedTail _ _ => 6
  | .loadHead _ => 7
  | .idle => 8

theorem stepsToPush_le (Capacity : RingCapacity) (cachedTail : UInt64) (call : TryPush T) :
    stepsToPush Capacity cachedTail call ≤ 10 := by
  unfold stepsToPush
  split <;> first | omega | (split <;> omega)

theorem stepsToPop_le (cachedHead : UInt64) (call : TryPop T) : stepsToPop cachedHead call ≤ 10 := by
  unfold stepsToPop
  split <;> first | omega | (split <;> omega)

/-- While the ring is not full, each step of the only pushing thread pushes its item or comes closer to it. -/
theorem Alone.pushStep_progress {s : RingThreads Unit T Capacity} (halone : Alone index s) (h : Inv index s)
    (hroom : s.pushed.length < s.popped.length + Capacity.val) (item : T) :
    (s.pushStep () item).pushed.length = s.pushed.length + 1 ∨ (s.pushStep () item).pushed = s.pushed ∧
      stepsToPush Capacity (s.pushStep () item).ring.cachedTail ((s.pushStep () item).pushing ()) <
        stepsToPush Capacity s.ring.cachedTail (s.pushing ()) := by
  have hok := h.pushOk ()
  have horder := h.order.length_le
  have hcap := Capacity.le
  unfold Alone at halone
  unfold RingThreads.pushStep
  cases hcall : s.pushing () with
  | idle =>
    refine Or.inr ⟨rfl, ?_⟩
    dsimp only
    rw [Function.update_self]
    show 7 < 8
    decide
  | loadHead x =>
    refine Or.inr ⟨List.append_nil _, ?_⟩
    dsimp only [TryPush.step]
    rw [Function.update_self]
    show 6 < 7
    decide
  | loadCachedTail x currentHead =>
    right
    dsimp only [TryPush.step]
    split
    · refine ⟨List.append_nil _, ?_⟩
      dsimp only
      rw [Function.update_self]
      show 5 < 6
      decide
    · refine ⟨List.append_nil _, ?_⟩
      dsimp only
      rw [Function.update_self]
      show 2 < 6
      decide
  | loadTail x currentHead =>
    rw [hcall] at halone hok
    have hspace : ¬ currentHead - s.ring.tail ≥ UInt64.ofNat Capacity.val := by
      rw [hok halone, h.tail, full_iff horder (by omega)]
      omega
    refine Or.inr ⟨List.append_nil _, ?_⟩
    dsimp only [TryPush.step]
    rw [Function.update_self]
    show (if currentHead - s.ring.tail ≥ UInt64.ofNat Capacity.val then 10 else 4) < 5
    rw [if_neg hspace]
    decide
  | storeCachedTail x currentHead loadedTail =>
    refine Or.inr ⟨List.append_nil _, ?_⟩
    dsimp only [TryPush.step]
    rw [Function.update_self]
    show (if currentHead - loadedTail ≥ UInt64.ofNat Capacity.val then 9 else 3) <
      if currentHead - loadedTail ≥ UInt64.ofNat Capacity.val then 10 else 4
    split <;> decide
  | reloadCachedTail x currentHead =>
    right
    by_cases hfull : currentHead - s.ring.cachedTail ≥ UInt64.ofNat Capacity.val
    · have hstep : TryPush.step s.ring (.reloadCachedTail x currentHead) = (s.ring, .idle, .returnedFalse) :=
        if_pos hfull
      dsimp only
      rw [hstep]
      refine ⟨List.append_nil _, ?_⟩
      dsimp only
      rw [Function.update_self]
      show 8 < if currentHead - s.ring.cachedTail ≥ UInt64.ofNat Capacity.val then 9 else 3
      rw [if_pos hfull]
      decide
    · have hstep : TryPush.step s.ring (.reloadCachedTail x currentHead) =
          (s.ring, .writeSlot x currentHead, .running) := if_neg hfull
      dsimp only
      rw [hstep]
      refine ⟨List.append_nil _, ?_⟩
      dsimp only
      rw [Function.update_self]
      show 2 < if currentHead - s.ring.cachedTail ≥ UInt64.ofNat Capacity.val then 9 else 3
      rw [if_neg hfull]
      decide
  | writeSlot x currentHead =>
    refine Or.inr ⟨List.append_nil _, ?_⟩
    dsimp only [TryPush.step]
    rw [Function.update_self]
    show 1 < 2
    decide
  | storeHead x currentHead => exact Or.inl List.length_append

/-! ### Popping from an empty ring -/

/-- The steps that a call of `tryPop` still takes before it returns `false`, when nothing waits. -/
def stepsToFail : TryPop T → Nat
  | .reloadCachedHead _ => 1
  | .storeCachedHead _ _ => 2
  | .loadHead _ => 3
  | .loadCachedHead _ => 4
  | .loadTail => 5
  | .idle => 6
  | .readSlot _ => 7
  | .storeTail _ _ => 8

theorem stepsToFail_range (call : TryPop T) : 1 ≤ stepsToFail call ∧ stepsToFail call ≤ 8 := by
  unfold stepsToFail
  split <;> omega

/-- On an empty ring each step of the popping thread ends its call with `false` or comes closer to that. -/
theorem Inv.popStep_empty {ι : Type} {s : RingThreads ι T Capacity} (h : Inv index s)
    (hempty : s.pushed.length ≤ s.popped.length) :
    s.popStep.popped = s.popped ∧
      ((s.popping.step s.ring).2.2 = .returnedFalse ∧ s.popStep.popping = .idle ∨
        (s.popping.step s.ring).2.2 = .running ∧ stepsToFail s.popStep.popping < stepsToFail s.popping) := by
  have hok := h.popOk
  unfold RingThreads.popStep
  cases hcall : s.popping with
  | idle => exact ⟨rfl, Or.inr ⟨rfl, (by decide : 5 < 6)⟩⟩
  | loadTail => exact ⟨List.append_nil _, Or.inr ⟨rfl, (by decide : 4 < 5)⟩⟩
  | loadCachedHead t =>
    rw [hcall] at hok
    obtain ⟨n, hn, hle, hcached⟩ := h.cachedHead
    obtain rfl : n = s.popped.length := by omega
    have hstep : TryPop.step s.ring (.loadCachedHead t) = (s.ring, .loadHead t, .running) :=
      if_pos (hok.trans hcached.symm)
    dsimp only
    rw [hstep]
    exact ⟨List.append_nil _, Or.inr ⟨rfl, (by decide : 3 < 4)⟩⟩
  | loadHead t => exact ⟨List.append_nil _, Or.inr ⟨rfl, (by decide : 2 < 3)⟩⟩
  | storeCachedHead t x => exact ⟨List.append_nil _, Or.inr ⟨rfl, (by decide : 1 < 2)⟩⟩
  | reloadCachedHead t =>
    rw [hcall] at hok
    obtain ⟨ht, n, hn, hle, hcached, -⟩ := hok
    obtain rfl : n = s.popped.length := by omega
    have hstep : TryPop.step s.ring (.reloadCachedHead t) = (s.ring, .idle, .returnedFalse) :=
      if_pos (ht.trans hcached.symm)
    dsimp only
    rw [hstep]
    exact ⟨List.append_nil _, Or.inl ⟨rfl, rfl⟩⟩
  | readSlot t =>
    rw [hcall] at hok
    obtain ⟨-, n, hn, hle, -⟩ := hok
    omega
  | storeTail t x =>
    rw [hcall] at hok
    obtain ⟨-, -, n, hn, hle, -⟩ := hok
    omega

end RingThreads

end FeedHandler
