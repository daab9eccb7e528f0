import FeedHandler.OrderBook.Basic
import FeedHandler.RingBuffer.Waiting

/-!
# One producer, one consumer

A single pushing thread is never disturbed: nobody else completes a push or writes a slot during its calls (`Alone`).
So the ring is right under every interleaving of the two threads, from every common value of the indices on.
-/

namespace FeedHandler

open RingIndex SPSCRingBuffer

namespace RingThreads

variable {T : Type} {Capacity : RingCapacity} {index : UInt64} {s : RingThreads Unit T Capacity}

/-- What the only pushing thread knows: what it has loaded is still right, and it remembers how many items were
unreleased when it loaded `tail_`. -/
def Alone (index : UInt64) (s : RingThreads Unit T Capacity) : Prop :=
  match s.pushing () with
  | .idle | .loadHead _ => True
  | .loadCachedTail _ _ | .loadTail _ _ | .writeSlot _ _ => s.pushedAtHeadLoad () = s.pushed.length
  | .storeCachedTail _ _ t =>
    s.pushedAtHeadLoad () = s.pushed.length ∧ ∃ n ≤ s.popped.length, s.pushed.length ≤ n + Capacity.val ∧
      t = nth index n ∧ s.unreleasedAtTailLoad () = s.pushed.length - n
  | .reloadCachedTail _ _ =>
    s.pushedAtHeadLoad () = s.pushed.length ∧ ∃ n ≤ s.popped.length, s.pushed.length ≤ n + Capacity.val ∧
      s.ring.cachedTail = nth index n ∧ s.unreleasedAtTailLoad () = s.pushed.length - n
  | .storeHead item currentHead => s.pushedAtHeadLoad () = s.pushed.length ∧ s.ring.read currentHead = item

theorem Alone.undisturbed (h : Alone index s) (a : ThreadStep Unit T) : Undisturbed s a := by
  cases a with
  | pop => trivial
  | push i item =>
    cases i
    unfold Alone at h
    dsimp only [Undisturbed]
    cases hcall : s.pushing () with
    | idle => trivial
    | loadHead => trivial
    | loadCachedTail => trivial
    | loadTail => trivial
    | reloadCachedTail => trivial
    | storeCachedTail =>
      rw [hcall] at h
      have hcap := Capacity.le
      show s.pushed.length + Capacity.val + 1 < s.pushedAtHeadLoad () + 2 ^ 64
      rw [h.1]
      omega
    | writeSlot =>
      rw [hcall] at h
      exact h
    | storeHead =>
      rw [hcall] at h
      exact h

theorem Alone.pushStep (h : Alone index s) (hinv : Inv index s) (item : T) : Alone index (s.pushStep () item) := by
  unfold Alone at h
  unfold RingThreads.pushStep
  cases hcall : s.pushing () with
  | idle =>
    unfold Alone
    dsimp only
    rw [Function.update_self]
    trivial
  | loadHead item =>
    unfold Alone
    dsimp only [TryPush.step, Outcome.items]
    rw [Function.update_self, List.append_nil]
    exact Function.update_self ..
  | loadCachedTail item currentHead =>
    rw [hcall] at h
    dsimp only [TryPush.step]
    split
    all_goals
      unfold Alone
      dsimp only [Outcome.items]
      rw [Function.update_self, List.append_nil]
      exact h
  | loadTail item currentHead =>
    rw [hcall] at h
    unfold Alone
    dsimp only [TryPush.step, Outcome.items]
    rw [Function.update_self, List.append_nil]
    exact ⟨h, s.popped.length, le_refl _, hinv.room, hinv.tail, Function.update_self ..⟩
  | storeCachedTail item currentHead loadedTail =>
    rw [hcall] at h
    unfold Alone
    dsimp only [TryPush.step, Outcome.items]
    rw [Function.update_self, List.append_nil]
    exact h
  | reloadCachedTail item currentHead =>
    rw [hcall] at h
    dsimp only [TryPush.step]
    split
    · unfold Alone
      dsimp only
      rw [Function.update_self]
      trivial
    · unfold Alone
      dsimp only [Outcome.items]
      rw [Function.update_self, List.append_nil]
      exact h.1
  | writeSlot item currentHead =>
    rw [hcall] at h
    unfold Alone
    dsimp only [TryPush.step, Outcome.items]
    rw [Function.update_self, List.append_nil]
    exact ⟨h, by rw [read_write, if_pos rfl]⟩
  | storeHead item currentHead =>
    unfold Alone
    dsimp only [TryPush.step]
    rw [Function.update_self]
    trivial

theorem Alone.popStep (h : Alone index s) : Alone index s.popStep := by
  obtain ⟨hpushing, hpushed, hloaded, hunreleased, hcached, hbuffer, hpops⟩ := popStep_frame s
  have hread : s.popStep.ring.read = s.ring.read := by
    unfold SPSCRingBuffer.read
    rw [hbuffer]
  unfold Alone at h ⊢
  rw [hpushing, hpushed, hloaded, hunreleased, hcached, hread]
  cases hcall : s.pushing () with
  | idle => trivial
  | loadHead => trivial
  | storeCachedTail =>
    rw [hcall] at h
    obtain ⟨hfresh, n, hn, hrest⟩ := h
    exact ⟨hfresh, n, hn.trans hpops, hrest⟩
  | reloadCachedTail =>
    rw [hcall] at h
    obtain ⟨hfresh, n, hn, hrest⟩ := h
    exact ⟨hfresh, n, hn.trans hpops, hrest⟩
  | _ =>
    rw [hcall] at h
    exact h

/-- The invariant of every run with one pushing thread. -/
theorem inv_run_alone (index : UInt64) (buffer : Vector T Capacity.val) (schedule : List (ThreadStep Unit T)) :
    Inv index (run index buffer schedule) ∧ Alone index (run index buffer schedule) := by
  have hstep : ∀ (s : RingThreads Unit T Capacity) (a : ThreadStep Unit T),
      Inv index s ∧ Alone index s → Inv index (s.step a) ∧ Alone index (s.step a) := by
    rintro s a ⟨hinv, halone⟩
    cases a with
    | push i item => exact ⟨hinv.pushStep i item (halone.undisturbed _), halone.pushStep hinv item⟩
    | pop => exact ⟨hinv.popStep, halone.popStep⟩
  exact Runs.foldl_invariant hstep ⟨inv_start index buffer, trivial⟩ schedule

/-- A push fails only when the ring was full when it loaded `tail_`. -/
theorem Alone.unreleased_of_false (h : Alone index s) (hinv : Inv index s)
    (hfalse : ((s.pushing ()).step s.ring).2.2 = .returnedFalse) : s.unreleasedAtTailLoad () = Capacity.val := by
  have hok := hinv.pushOk ()
  unfold Alone at h
  cases hcall : s.pushing () with
  | reloadCachedTail item currentHead =>
    rw [hcall] at h hok hfalse
    obtain ⟨hfresh, n, hn, hroom, hcached, hunreleased⟩ := h
    have horder := hinv.order.length_le
    have hcap := Capacity.le
    have hfull : currentHead - s.ring.cachedTail ≥ UInt64.ofNat Capacity.val := by
      by_contra hspace
      dsimp only [TryPush.step] at hfalse
      rw [if_neg hspace] at hfalse
      cases hfalse
    rw [hok hfresh, hcached, full_iff (hn.trans horder) (by omega)] at hfull
    omega
  | loadCachedTail =>
    rw [hcall] at hfalse
    dsimp only [TryPush.step] at hfalse
    split at hfalse <;> cases hfalse
  | _ =>
    rw [hcall] at hfalse
    cases hfalse

/-- A pop fails only when the ring was empty when it loaded `head_`. -/
theorem Inv.unpopped_of_false {ι : Type} {s : RingThreads ι T Capacity} (hinv : Inv index s)
    (hfalse : (s.popping.step s.ring).2.2 = .returnedFalse) : s.unpoppedAtHeadLoad = 0 := by
  have hok := hinv.popOk
  cases hcall : s.popping with
  | reloadCachedHead currentTail =>
    rw [hcall] at hok hfalse
    obtain ⟨htail, n, hn, hle, hcached, hunpopped⟩ := hok
    have hroom := hinv.room
    have hcap := Capacity.le
    have hempty : currentTail = s.ring.cachedHead := by
      by_contra hne
      dsimp only [TryPop.step] at hfalse
      rw [if_neg hne] at hfalse
      cases hfalse
    rw [htail, hcached] at hempty
    have heq := nth_inj hn (by omega) hempty
    omega
  | loadCachedHead =>
    rw [hcall] at hfalse
    dsimp only [TryPop.step] at hfalse
    split at hfalse <;> cases hfalse
  | _ =>
    rw [hcall] at hfalse
    cases hfalse

/-- One producer and one consumer, under every interleaving of their steps, from every common value of the indices
on: the items popped are a prefix of those pushed; the producer writes no slot that holds an item not yet released;
a push fails only when the ring was full when it loaded `tail_`, a pop only when it was empty when it loaded
`head_`; and a book that is fed the popped messages is one fed a prefix of the pushed ones. -/
theorem spsc_correct (index : UInt64) (buffer : Vector T Capacity.val) (schedule : List (ThreadStep Unit T)) :
    let s := run index buffer schedule
    s.popped <+: s.pushed ∧
    (∀ item currentHead, s.pushing () = .writeSlot item currentHead →
      ∀ n x, s.popped.length ≤ n → s.pushed[n]? = some x →
        s.ring.read (nth index n) = x ∧ slot Capacity (nth index n) ≠ slot Capacity currentHead) ∧
    (((s.pushing ()).step s.ring).2.2 = .returnedFalse → s.unreleasedAtTailLoad () = Capacity.val) ∧
    ((s.popping.step s.ring).2.2 = .returnedFalse → s.unpoppedAtHeadLoad = 0) ∧
    ∀ (wire : T → WireMessage) (Depth : Nat) (TableCapacity : Pow2),
      LimitOrderBook.run Depth TableCapacity (s.popped.map wire) =
        LimitOrderBook.run Depth TableCapacity ((s.pushed.take s.popped.length).map wire) := by
  intro s
  obtain ⟨hinv, halone⟩ : Inv index s ∧ Alone index s := inv_run_alone index buffer schedule
  refine ⟨hinv.order, fun item currentHead hcall n x hn hx => ⟨hinv.contents n x hn hx, fun he => ?_⟩,
    halone.unreleased_of_false hinv, hinv.unpopped_of_false, fun wire Depth TableCapacity => ?_⟩
  · have hok := hinv.pushOk ()
    have hfresh := halone
    unfold Alone at hfresh
    rw [hcall] at hok hfresh
    obtain ⟨rfl, hspace⟩ := hok hfresh
    have hlt := (List.getElem?_eq_some_iff.1 hx).1
    have heq := SPSCRingBuffer.slot_inj (Nat.le_of_lt hlt) (by omega) he
    omega
  · rw [← List.prefix_iff_eq_take.1 hinv.order]

end RingThreads

end FeedHandler
