import FeedHandler.Foundation.Runs
import FeedHandler.RingBuffer.Basic
import Mathlib.Logic.Function.Basic

/-!
# Threads on a ring buffer

Any number of threads `ι` call `tryPush` and one thread calls `tryPop`, and a schedule says who takes the next step.
The ring is made for one pushing thread; with several of them it works as long as none is disturbed (`Undisturbed`):
no other push completes between a call's load of `head_` and its stores, and the slot still holds its item when it
stores `head_`.

The invariant `Inv` speaks of the numbers of completed pushes and pops, which do not wrap.  What a call in progress
has loaded is known to be right only while no other push has completed since it loaded `head_`.
-/

namespace FeedHandler

open RingIndex SPSCRingBuffer

/-- A ring with its threads, the items of the completed pushes and pops, and what the threads saw. -/
structure RingThreads (ι T : Type) (Capacity : RingCapacity) where
  ring : SPSCRingBuffer T Capacity
  pushing : ι → TryPush T
  popping : TryPop T
  /-- the items whose push returned `true` -/
  pushed : List T
  popped : List T
  /-- the number of completed pushes when the thread last loaded `head_` -/
  pushedAtHeadLoad : ι → Nat
  /-- the number of items pushed and not yet released when the thread last loaded `tail_` in `tryPush` -/
  unreleasedAtTailLoad : ι → Nat
  /-- the number of items pushed and not yet popped when `head_` was last loaded in `tryPop` -/
  unpoppedAtHeadLoad : Nat

/-- The next step is taken by a pushing thread (which calls `tryPush(item)` when it is in no call) or by the popping
thread. -/
inductive ThreadStep (ι T : Type) where
  | push (i : ι) (item : T)
  | pop
deriving DecidableEq, Repr

namespace RingThreads

variable {ι T : Type} {Capacity : RingCapacity}

/-- No thread is in a call, the indices have a common value. -/
def start (index : UInt64) (buffer : Vector T Capacity.val) : RingThreads ι T Capacity where
  ring := { head := index, cachedTail := index, tail := index, cachedHead := index, buffer }
  pushing _ := .idle
  popping := .idle
  pushed := []
  popped := []
  pushedAtHeadLoad _ := 0
  unreleasedAtTailLoad _ := 0
  unpoppedAtHeadLoad := 0

section Run

variable [DecidableEq ι]

def pushStep (s : RingThreads ι T Capacity) (i : ι) (item : T) : RingThreads ι T Capacity :=
  match s.pushing i with
  | .idle => { s with pushing := Function.update s.pushing i (.loadHead item) }
  | call =>
    { s with
      ring := (call.step s.ring).1
      pushing := Function.update s.pushing i (call.step s.ring).2.1
      pushed := s.pushed ++ (call.step s.ring).2.2.items
      pushedAtHeadLoad :=
        match call with
        | .loadHead _ => Function.update s.pushedAtHeadLoad i s.pushed.length
        | _ => s.pushedAtHeadLoad
      unreleasedAtTailLoad :=
        match call with
        | .loadTail _ _ => Function.update s.unreleasedAtTailLoad i (s.pushed.length - s.popped.length)
        | _ => s.unreleasedAtTailLoad }

def popStep (s : RingThreads ι T Capacity) : RingThreads ι T Capacity :=
  match s.popping with
  | .idle => { s with popping := .loadTail }
  | call =>
    { s with
      ring := (call.step s.ring).1
      popping := (call.step s.ring).2.1
      popped := s.popped ++ (call.step s.ring).2.2.items
      unpoppedAtHeadLoad :=
        match call with
        | .loadHead _ => s.pushed.length - s.popped.length
        | _ => s.unpoppedAtHeadLoad }

def step (s : RingThreads ι T Capacity) : ThreadStep ι T → RingThreads ι T Capacity
  | .push i item => s.pushStep i item
  | .pop => s.popStep

def run (index : UInt64) (buffer : Vector T Capacity.val) (schedule : List (ThreadStep ι T)) :
    RingThreads ι T Capacity :=
  schedule.foldl step (start index buffer)

end Run

/-- The stores of a call come before any other push has completed since the call loaded `head_` (the store of
`cachedTail_` may come later, but not a whole turn of the counter), and the slot holds its item when `head_` is
stored. -/
def CallUndisturbed (s : RingThreads ι T Capacity) (i : ι) : TryPush T → Prop
  | .storeCachedTail _ _ _ => s.pushed.length + Capacity.val + 1 < s.pushedAtHeadLoad i + 2 ^ 64
  | .writeSlot _ _ => s.pushedAtHeadLoad i = s.pushed.length
  | .storeHead item currentHead => s.pushedAtHeadLoad i = s.pushed.length ∧ s.ring.read currentHead = item
  | _ => True

/-- The step is not one of a disturbed call. -/
def Undisturbed (s : RingThreads ι T Capacity) : ThreadStep ι T → Prop
  | .push i _ => s.CallUndisturbed i (s.pushing i)
  | .pop => True

instance [DecidableEq T] (s : RingThreads ι T Capacity) (i : ι) : ∀ call, Decidable (s.CallUndisturbed i call)
  | .storeCachedTail _ _ _ => inferInstanceAs (Decidable (_ < _))
  | .writeSlot _ _ => inferInstanceAs (Decidable (_ = _))
  | .storeHead _ _ => inferInstanceAs (Decidable (_ ∧ _))
  | .idle | .loadHead _ | .loadCachedTail _ _ | .loadTail _ _ | .reloadCachedTail _ _ =>
    inferInstanceAs (Decidable True)

instance [DecidableEq T] (s : RingThreads ι T Capacity) : ∀ a, Decidable (s.Undisturbed a)
  | .push i _ => inferInstanceAs (Decidable (s.CallUndisturbed i (s.pushing i)))
  | .pop => inferInstanceAs (Decidable True)

/-! ### The invariant -/

/-- What a call of `tryPush` knows: `pushes` and `pops` have completed, `loaded` pushes when it loaded `head_`. -/
def PushOk (Capacity : RingCapacity) (index : UInt64) (pushes pops loaded : Nat) : TryPush T → Prop
  | .idle | .loadHead _ => True
  | .loadCachedTail _ h | .loadTail _ h | .reloadCachedTail _ h => loaded = pushes → h = nth index pushes
  | .storeCachedTail _ h t =>
    (loaded = pushes → h = nth index pushes) ∧ ∃ n ≤ pops, loaded ≤ n + Capacity.val ∧ t = nth index n
  | .writeSlot _ h | .storeHead _ h => loaded = pushes → h = nth index pushes ∧ pushes < pops + Capacity.val

/-- The call is past the check for space. -/
def Writing : TryPush T → Prop
  | .writeSlot _ _ | .storeHead _ _ => True
  | _ => False

/-- What a call of `tryPop` knows. -/
def PopOk (index : UInt64) (pushed : List T) (pops : Nat) (cachedHead : UInt64) (unpopped : Nat) : TryPop T → Prop
  | .idle | .loadTail => True
  | .loadCachedHead t | .loadHead t => t = nth index pops
  | .storeCachedHead t h =>
    t = nth index pops ∧ ∃ n, pops ≤ n ∧ n ≤ pushed.length ∧ h = nth index n ∧ unpopped = n - pops
  | .reloadCachedHead t =>
    t = nth index pops ∧ ∃ n, pops ≤ n ∧ n ≤ pushed.length ∧ cachedHead = nth index n ∧ unpopped = n - pops
  | .readSlot t => t = nth index pops ∧ ∃ n, pops < n ∧ n ≤ pushed.length ∧ cachedHead = nth index n
  | .storeTail t item =>
    t = nth index pops ∧ pushed[pops]? = some item ∧
      ∃ n, pops < n ∧ n ≤ pushed.length ∧ cachedHead = nth index n

/-- The invariant of a run that starts at `index`. -/
structure Inv (index : UInt64) (s : RingThreads ι T Capacity) : Prop where
  order : s.popped <+: s.pushed
  room : s.pushed.length ≤ s.popped.length + Capacity.val
  head : s.ring.head = nth index s.pushed.length
  tail : s.ring.tail = nth index s.popped.length
  cachedTail : ∃ n ≤ s.popped.length, s.ring.cachedTail = nth index n ∧ s.pushed.length < n + 2 ^ 64 ∧
    ∀ i, Writing (s.pushing i) → s.pushedAtHeadLoad i = s.pushed.length → s.pushed.length + 1 < n + 2 ^ 64
  cachedHead : ∃ n, s.popped.length ≤ n ∧ n ≤ s.pushed.length ∧ s.ring.cachedHead = nth index n
  contents : ∀ n item, s.popped.length ≤ n → s.pushed[n]? = some item → s.ring.read (nth index n) = item
  loaded : ∀ i, s.pushedAtHeadLoad i ≤ s.pushed.length
  pushOk : ∀ i, PushOk Capacity index s.pushed.length s.popped.length (s.pushedAtHeadLoad i) (s.pushing i)
  popOk : PopOk index s.pushed s.popped.length s.ring.cachedHead s.unpoppedAtHeadLoad s.popping

theorem inv_start (index : UInt64) (buffer : Vector T Capacity.val) :
    Inv index (start index buffer : RingThreads ι T Capacity) where
  order := List.nil_prefix
  room := Nat.zero_le _
  head := (nth_zero index).symm
  tail := (nth_zero index).symm
  cachedTail := ⟨0, le_refl 0, (nth_zero index).symm, Nat.two_pow_pos 64, fun _ hw _ => hw.elim⟩
  cachedHead := ⟨0, le_refl 0, le_refl 0, (nth_zero index).symm⟩
  contents n item _ h := by cases h
  loaded _ := le_refl 0
  pushOk _ := trivial
  popOk := trivial

/-! ### Steps of `tryPush` -/

variable {index : UInt64} {s : RingThreads ι T Capacity}

/-- The check for space, by a cached tail that is less than a turn of the counter behind. -/
theorem full_iff {pushes n : Nat} (hle : n ≤ pushes) (hlt : pushes < n + 2 ^ 64) :
    nth index pushes - nth index n ≥ UInt64.ofNat Capacity.val ↔ n + Capacity.val ≤ pushes := by
  have hcap : (UInt64.ofNat Capacity.val).toNat = Capacity.val := by
    rw [UInt64.toNat_ofNat']
    exact Nat.mod_eq_of_lt Capacity.size_t
  rw [ge_iff_le, UInt64.le_iff_toNat_le, hcap, toNat_sub hle (by omega)]
  omega

/-- More pops leave what a call knows. -/
theorem PushOk.mono {pushes pops pops' loaded : Nat} {call : TryPush T} (hle : pops ≤ pops')
    (h : PushOk Capacity index pushes pops loaded call) : PushOk Capacity index pushes pops' loaded call := by
  cases call with
  | idle => trivial
  | loadHead => trivial
  | loadCachedTail => exact h
  | loadTail => exact h
  | storeCachedTail =>
    obtain ⟨hhead, n, hn, hrest⟩ := h
    exact ⟨hhead, n, hn.trans hle, hrest⟩
  | reloadCachedTail => exact h
  | writeSlot =>
    intro hfresh
    obtain ⟨hhead, hroom⟩ := h hfresh
    exact ⟨hhead, by omega⟩
  | storeHead =>
    intro hfresh
    obtain ⟨hhead, hroom⟩ := h hfresh
    exact ⟨hhead, by omega⟩

/-- A completed push makes what the other calls have loaded stale. -/
theorem PushOk.stale {pushes pops loaded : Nat} {call : TryPush T} (hle : loaded ≤ pushes)
    (h : PushOk Capacity index pushes pops loaded call) : PushOk Capacity index (pushes + 1) pops loaded call := by
  cases call with
  | idle => trivial
  | loadHead => trivial
  | storeCachedTail =>
    obtain ⟨-, hrest⟩ := h
    exact ⟨fun hfresh => absurd hfresh (by omega), hrest⟩
  | loadCachedTail => exact fun hfresh => absurd hfresh (by omega)
  | loadTail => exact fun hfresh => absurd hfresh (by omega)
  | reloadCachedTail => exact fun hfresh => absurd hfresh (by omega)
  | writeSlot => exact fun hfresh => absurd hfresh (by omega)
  | storeHead => exact fun hfresh => absurd hfresh (by omega)

/-- A completed push leaves what a call of `tryPop` knows. -/
theorem PopOk.push {pushed : List T} {pops unpopped : Nat} {cachedHead : UInt64} {call : TryPop T}
    (h : PopOk index pushed pops cachedHead unpopped call) (item : T) :
    PopOk index (pushed ++ [item]) pops cachedHead unpopped call := by
  have hlen : (pushed ++ [item]).length = pushed.length + 1 := List.length_append
  cases call with
  | idle => trivial
  | loadTail => trivial
  | loadCachedHead => exact h
  | loadHead => exact h
  | storeCachedHead =>
    obtain ⟨htail, n, hn, hle, hrest⟩ := h
    exact ⟨htail, n, hn, by omega, hrest⟩
  | reloadCachedHead =>
    obtain ⟨htail, n, hn, hle, hrest⟩ := h
    exact ⟨htail, n, hn, by omega, hrest⟩
  | readSlot =>
    obtain ⟨htail, n, hn, hle, hcached⟩ := h
    exact ⟨htail, n, hn, by omega, hcached⟩
  | storeTail =>
    obtain ⟨htail, hget, n, hn, hle, hcached⟩ := h
    have hlt := (List.getElem?_eq_some_iff.1 hget).1
    refine ⟨htail, ?_, n, hn, by omega, hcached⟩
    rw [List.getElem?_append_left hlt]
    exact hget

/-- A step that only moves a call on. -/
theorem Inv.move [DecidableEq ι] (h : Inv index s) (i : ι) {call : TryPush T} {loaded unreleased : ι → Nat}
    (hothers : ∀ j, j ≠ i → loaded j = s.pushedAtHeadLoad j) (hle : loaded i ≤ s.pushed.length)
    (hok : PushOk Capacity index s.pushed.length s.popped.length (loaded i) call)
    (hwriting : Writing call → loaded i = s.pushed.length → ∀ n ≤ s.popped.length,
      s.ring.cachedTail = nth index n → s.pushed.length < n + 2 ^ 64 → s.pushed.length + 1 < n + 2 ^ 64) :
    Inv index { s with
      pushing := Function.update s.pushing i call
      pushedAtHeadLoad := loaded
      unreleasedAtTailLoad := unreleased } := by
  refine ⟨h.order, h.room, h.head, h.tail, ?_, h.cachedHead, h.contents, fun j => ?_, fun j => ?_, h.popOk⟩
  · obtain ⟨n, hn, htail, hturn, hothers'⟩ := h.cachedTail
    refine ⟨n, hn, htail, hturn, fun j hj hfresh => ?_⟩
    by_cases hji : j = i
    · subst hji
      dsimp only at hj
      rw [Function.update_self] at hj
      exact hwriting hj hfresh n hn htail hturn
    · dsimp only at hj hfresh
      rw [Function.update_of_ne hji] at hj
      rw [hothers j hji] at hfresh
      exact hothers' j hj hfresh
  · by_cases hji : j = i
    · subst hji
      exact hle
    · show loaded j ≤ _
      rw [hothers j hji]
      exact h.loaded j
  · by_cases hji : j = i
    · subst hji
      dsimp only
      rw [Function.update_self]
      exact hok
    · dsimp only
      rw [Function.update_of_ne hji, hothers j hji]
      exact h.pushOk j

/-- The check for space succeeds: the call may write, if no other push has completed. -/
theorem Inv.check (h : Inv index s) {i : ι} (item : T) {currentHead : UInt64}
    (hhead : s.pushedAtHeadLoad i = s.pushed.length → currentHead = nth index s.pushed.length)
    (hspace : ¬ currentHead - s.ring.cachedTail ≥ UInt64.ofNat Capacity.val) :
    PushOk Capacity index s.pushed.length s.popped.length (s.pushedAtHeadLoad i) (.writeSlot item currentHead) ∧
      (s.pushedAtHeadLoad i = s.pushed.length → ∀ n ≤ s.popped.length,
        s.ring.cachedTail = nth index n → s.pushed.length < n + 2 ^ 64 → s.pushed.length + 1 < n + 2 ^ 64) := by
  have horder := h.order.length_le
  have hroom : s.pushedAtHeadLoad i = s.pushed.length → ∀ n ≤ s.popped.length,
      s.ring.cachedTail = nth index n → s.pushed.length < n + 2 ^ 64 → s.pushed.length < n + Capacity.val := by
    intro hfresh n hn htail hturn
    rw [hhead hfresh, htail, full_iff (hn.trans horder) hturn] at hspace
    omega
  have hcap := Capacity.le
  refine ⟨fun hfresh => ⟨hhead hfresh, ?_⟩, fun hfresh n hn htail hturn => ?_⟩
  · obtain ⟨n, hn, htail, hturn, -⟩ := h.cachedTail
    have hlt := hroom hfresh n hn htail hturn
    omega
  · have hlt := hroom hfresh n hn htail hturn
    omega

/-- One call moves on, the others know what they knew. -/
theorem Inv.pushOk_update [DecidableEq ι] (h : Inv index s) {i : ι} (call : TryPush T)
    (hok : PushOk Capacity index s.pushed.length s.popped.length (s.pushedAtHeadLoad i) call) :
    ∀ j, PushOk Capacity index s.pushed.length s.popped.length (s.pushedAtHeadLoad j)
      (Function.update s.pushing i call j) :=
  (Function.forall_update_iff s.pushing
    (p := fun j => PushOk Capacity index s.pushed.length s.popped.length (s.pushedAtHeadLoad j))).2
    ⟨hok, fun j _ => h.pushOk j⟩

/-- `cachedTail_ = …` -/
theorem Inv.storeCachedTail [DecidableEq ι] (h : Inv index s) {i : ι} {item : T} {currentHead loadedTail : UInt64}
    (hcall : s.pushing i = .storeCachedTail item currentHead loadedTail)
    (hturn : s.pushed.length + Capacity.val + 1 < s.pushedAtHeadLoad i + 2 ^ 64) :
    Inv index { s with
      ring := { s.ring with cachedTail := loadedTail }
      pushing := Function.update s.pushing i (.reloadCachedTail item currentHead) } := by
  have hok := h.pushOk i
  rw [hcall] at hok
  obtain ⟨hhead, n, hn, hloaded, rfl⟩ := hok
  refine ⟨h.order, h.room, h.head, h.tail, ?_, h.cachedHead, h.contents, h.loaded, fun j => ?_, h.popOk⟩
  · exact ⟨n, hn, rfl, by dsimp only; omega, fun _ _ _ => by dsimp only; omega⟩
  · exact h.pushOk_update (.reloadCachedTail item currentHead) hhead j

/-- `buffer_[currentHead & MASK] = item`: the slot of the next push holds no item that is still to be popped. -/
theorem Inv.writeSlot [DecidableEq ι] (h : Inv index s) {i : ι} {item : T} {currentHead : UInt64}
    (hcall : s.pushing i = .writeSlot item currentHead) (hfresh : s.pushedAtHeadLoad i = s.pushed.length) :
    Inv index { s with
      ring := s.ring.write currentHead item
      pushing := Function.update s.pushing i (.storeHead item currentHead) } := by
  have hok := h.pushOk i
  rw [hcall] at hok
  obtain ⟨rfl, hspace⟩ := hok hfresh
  refine ⟨h.order, h.room, h.head, h.tail, ?_, h.cachedHead, fun n x hn hx => ?_, h.loaded, fun j => ?_, h.popOk⟩
  · obtain ⟨n, hn, htail, hturn, hwriting⟩ := h.cachedTail
    refine ⟨n, hn, htail, hturn, fun j hj hjfresh => ?_⟩
    by_cases hji : j = i
    · exact hwriting i (by rw [hcall]; trivial) hfresh
    · dsimp only at hj
      rw [Function.update_of_ne hji] at hj
      exact hwriting j hj hjfresh
  · have hlt : n < s.pushed.length := (List.getElem?_eq_some_iff.1 hx).1
    have hn : s.popped.length ≤ n := hn
    have hslot : slot Capacity (nth index s.pushed.length) ≠ slot Capacity (nth index n) := by
      intro he
      have heq := SPSCRingBuffer.slot_inj (Nat.le_of_lt hlt) (by omega) he.symm
      omega
    show (s.ring.write _ item).read (nth index n) = x
    rw [read_write, if_neg hslot]
    exact h.contents n x hn hx
  · exact h.pushOk_update (.storeHead item (nth index s.pushed.length)) (fun _ => ⟨rfl, hspace⟩) j

/-- `head_.store(currentHead + 1)`: the push completes, and what the other calls have loaded is stale. -/
theorem Inv.storeHead [DecidableEq ι] (h : Inv index s) {i : ι} {item : T} {currentHead : UInt64}
    (hcall : s.pushing i = .storeHead item currentHead) (hfresh : s.pushedAtHeadLoad i = s.pushed.length)
    (hslot : s.ring.read currentHead = item) :
    Inv index { s with
      ring := { s.ring with head := currentHead + 1 }
      pushing := Function.update s.pushing i .idle
      pushed := s.pushed ++ [item] } := by
  have hok := h.pushOk i
  rw [hcall] at hok
  obtain ⟨rfl, hspace⟩ := hok hfresh
  have hlen : (s.pushed ++ [item]).length = s.pushed.length + 1 := List.length_append
  refine ⟨h.order.trans (List.prefix_append ..), ?_, ?_, h.tail, ?_, ?_, fun n x hn hx => ?_, fun j => ?_,
    fun j => ?_, ?_⟩
  · show (s.pushed ++ [item]).length ≤ s.popped.length + Capacity.val
    omega
  · show nth index s.pushed.length + 1 = nth index (s.pushed ++ [item]).length
    rw [nth_succ, hlen]
  · obtain ⟨n, hn, htail, hturn, hwriting⟩ := h.cachedTail
    have hnext := hwriting i (by rw [hcall]; trivial) hfresh
    refine ⟨n, hn, htail, by dsimp only; omega, fun j _ hjfresh => ?_⟩
    -- no call has loaded the new head yet
    have hj := h.loaded j
    dsimp only at hjfresh
    omega
  · obtain ⟨n, hn, hle, hcached⟩ := h.cachedHead
    exact ⟨n, hn, by dsimp only; omega, hcached⟩
  · show s.ring.read (nth index n) = x
    dsimp only at hx
    by_cases hlt : n < s.pushed.length
    · rw [List.getElem?_append_left hlt] at hx
      exact h.contents n x hn hx
    · obtain ⟨hbound, hget⟩ := List.getElem?_eq_some_iff.1 hx
      obtain rfl : n = s.pushed.length := by omega
      rw [hslot, ← hget, List.getElem_concat_length rfl]
  · show s.pushedAtHeadLoad j ≤ (s.pushed ++ [item]).length
    have hj := h.loaded j
    omega
  · show PushOk Capacity index (s.pushed ++ [item]).length s.popped.length _ _
    rw [hlen]
    by_cases hji : j = i
    · subst hji
      dsimp only
      rw [Function.update_self]
      trivial
    · dsimp only
      rw [Function.update_of_ne hji]
      exact (h.pushOk j).stale (h.loaded j)
  · exact h.popOk.push item

/-- Every step of a pushing thread that is not disturbed. -/
theorem Inv.pushStep [DecidableEq ι] (h : Inv index s) (i : ι) (item : T) (hu : Undisturbed s (.push i item)) :
    Inv index (s.pushStep i item) := by
  have hok := h.pushOk i
  dsimp only [Undisturbed] at hu
  unfold RingThreads.pushStep
  cases hcall : s.pushing i with
  | idle => exact h.move i (fun _ _ => rfl) (h.loaded i) trivial fun hw => hw.elim
  | loadHead item =>
    dsimp only [TryPush.step, Outcome.items]
    rw [List.append_nil]
    refine h.move i (fun j hji => Function.update_of_ne hji _ _) ?_ ?_ fun hw => hw.elim
    · rw [Function.update_self]
    · exact fun _ => h.head
  | loadCachedTail item currentHead =>
    rw [hcall] at hok
    dsimp only [TryPush.step]
    by_cases hfull : currentHead - s.ring.cachedTail ≥ UInt64.ofNat Capacity.val
    · rw [if_pos hfull]
      dsimp only [Outcome.items]
      rw [List.append_nil]
      exact h.move i (fun _ _ => rfl) (h.loaded i) hok fun hw => hw.elim
    · rw [if_neg hfull]
      dsimp only [Outcome.items]
      rw [List.append_nil]
      obtain ⟨hwrite, hwriting⟩ := h.check item hok hfull
      exact h.move i (fun _ _ => rfl) (h.loaded i) hwrite fun _ => hwriting
  | loadTail item currentHead =>
    rw [hcall] at hok
    dsimp only [TryPush.step, Outcome.items]
    rw [List.append_nil]
    refine h.move i (fun _ _ => rfl) (h.loaded i) ⟨hok, s.popped.length, le_refl _, ?_, h.tail⟩ fun hw => hw.elim
    exact (h.loaded i).trans h.room
  | storeCachedTail item currentHead loadedTail =>
    rw [hcall] at hu
    dsimp only [TryPush.step, Outcome.items]
    rw [List.append_nil]
    exact h.storeCachedTail hcall hu
  | reloadCachedTail item currentHead =>
    rw [hcall] at hok
    dsimp only [TryPush.step]
    by_cases hfull : currentHead - s.ring.cachedTail ≥ UInt64.ofNat Capacity.val
    · rw [if_pos hfull]
      dsimp only [Outcome.items]
      rw [List.append_nil]
      exact h.move i (fun _ _ => rfl) (h.loaded i) trivial fun hw => hw.elim
    · rw [if_neg hfull]
      dsimp only [Outcome.items]
      rw [List.append_nil]
      obtain ⟨hwrite, hwriting⟩ := h.check item hok hfull
      exact h.move i (fun _ _ => rfl) (h.loaded i) hwrite fun _ => hwriting
  | writeSlot item currentHead =>
    rw [hcall] at hu
    dsimp only [TryPush.step, Outcome.items]
    rw [List.append_nil]
    exact h.writeSlot hcall hu
  | storeHead item currentHead =>
    rw [hcall] at hu
    exact h.storeHead hcall hu.1 hu.2

/-! ### Steps of `tryPop` -/

/-- A step that only moves the call on. -/
theorem Inv.movePop (h : Inv index s) {call : TryPop T} {unpopped : Nat}
    (hok : PopOk index s.pushed s.popped.length s.ring.cachedHead unpopped call) :
    Inv index { s with popping := call, unpoppedAtHeadLoad := unpopped } :=
  { h with popOk := hok }

/-- The item at the tail is a pushed one, when a cached head is ahead. -/
theorem Inv.head_item (h : Inv index s) (hlt : s.popped.length < s.pushed.length) :
    s.pushed[s.popped.length]? = some (s.ring.read (nth index s.popped.length)) := by
  have hget := List.getElem?_eq_getElem hlt
  rw [hget, h.contents _ _ (le_refl _) hget]

/-- The check for an item succeeds: the cached head is ahead of the tail. -/
theorem Inv.readable (h : Inv index s) {currentTail : UInt64} (htail : currentTail = nth index s.popped.length)
    (hne : ¬ currentTail = s.ring.cachedHead) (unpopped : Nat) :
    PopOk index s.pushed s.popped.length s.ring.cachedHead unpopped (.readSlot currentTail : TryPop T) := by
  obtain ⟨n, hn, hle, hcached⟩ := h.cachedHead
  refine ⟨htail, n, Nat.lt_of_le_of_ne hn fun he => hne ?_, hle, hcached⟩
  rw [htail, hcached, he]

/-- `tail_.store(currentTail + 1)`: the pop completes. -/
theorem Inv.storeTail (h : Inv index s) {item : T} {currentTail : UInt64}
    (hcall : s.popping = .storeTail currentTail item) :
    Inv index { s with
      ring := { s.ring with tail := currentTail + 1 }
      popping := .idle
      popped := s.popped ++ [item] } := by
  have hok := h.popOk
  rw [hcall] at hok
  obtain ⟨rfl, hitem, m, hlt, hle, hcached⟩ := hok
  have hlen : (s.popped ++ [item]).length = s.popped.length + 1 := List.length_append
  refine ⟨?_, ?_, h.head, ?_, ?_, ⟨m, by dsimp only; omega, hle, hcached⟩, fun n x hn hx => ?_, h.loaded,
    fun j => ?_, trivial⟩
  · show s.popped ++ [item] <+: s.pushed
    obtain ⟨rest, hrest⟩ := h.order
    rw [← hrest, List.getElem?_append_right (le_refl _), Nat.sub_self] at hitem
    cases rest with
    | nil => cases hitem
    | cons x rest =>
      obtain rfl : x = item := by simpa using hitem
      exact ⟨rest, by rw [← hrest, List.append_assoc]; rfl⟩
  · have hroom := h.room
    dsimp only
    omega
  · show nth index s.popped.length + 1 = nth index (s.popped ++ [item]).length
    rw [nth_succ, hlen]
  · obtain ⟨n, hn, hrest⟩ := h.cachedTail
    exact ⟨n, by dsimp only; omega, hrest⟩
  · refine h.contents n x ?_ hx
    dsimp only at hn
    omega
  · refine (h.pushOk j).mono ?_
    dsimp only
    omega

/-- Every step of the popping thread. -/
theorem Inv.popStep (h : Inv index s) : Inv index s.popStep := by
  have hok := h.popOk
  unfold RingThreads.popStep
  cases hcall : s.popping with
  | idle => exact h.movePop trivial
  | loadTail =>
    dsimp only [TryPop.step, Outcome.items]
    rw [List.append_nil]
    exact h.movePop h.tail
  | loadCachedHead currentTail =>
    rw [hcall] at hok
    dsimp only [TryPop.step]
    by_cases hempty : currentTail = s.ring.cachedHead
    · rw [if_pos hempty]
      dsimp only [Outcome.items]
      rw [List.append_nil]
      exact h.movePop hok
    · rw [if_neg hempty]
      dsimp only [Outcome.items]
      rw [List.append_nil]
      exact h.movePop (h.readable hok hempty _)
  | loadHead currentTail =>
    rw [hcall] at hok
    dsimp only [TryPop.step, Outcome.items]
    rw [List.append_nil]
    exact h.movePop ⟨hok, s.pushed.length, h.order.length_le, le_refl _, h.head, rfl⟩
  | storeCachedHead currentTail loadedHead =>
    rw [hcall] at hok
    obtain ⟨htail, n, hn, hle, rfl, hunpopped⟩ := hok
    dsimp only [TryPop.step, Outcome.items]
    rw [List.append_nil]
    exact { h with
      cachedHead := ⟨n, hn, hle, rfl⟩
      popOk := ⟨htail, n, hn, hle, rfl, hunpopped⟩ }
  | reloadCachedHead currentTail =>
    rw [hcall] at hok
    dsimp only [TryPop.step]
    by_cases hempty : currentTail = s.ring.cachedHead
    · rw [if_pos hempty]
      dsimp only [Outcome.items]
      rw [List.append_nil]
      exact h.movePop trivial
    · rw [if_neg hempty]
      dsimp only [Outcome.items]
      rw [List.append_nil]
      exact h.movePop (h.readable hok.1 hempty _)
  | readSlot currentTail =>
    rw [hcall] at hok
    obtain ⟨rfl, n, hlt, hle, hcached⟩ := hok
    dsimp only [TryPop.step, Outcome.items]
    rw [List.append_nil]
    exact h.movePop ⟨rfl, h.head_item (by omega), n, hlt, hle, hcached⟩
  | storeTail currentTail item => exact h.storeTail hcall

/-- The invariant of a run in which no call is disturbed. -/
theorem inv_run [DecidableEq ι] (index : UInt64) (buffer : Vector T Capacity.val) (schedule : List (ThreadStep ι T))
    (h : Runs.Along step Undisturbed (start index buffer) schedule) : Inv index (run index buffer schedule) := by
  have hstep : ∀ (s : RingThreads ι T Capacity) (a : ThreadStep ι T), Inv index s → Undisturbed s a →
      Inv index (s.step a) := by
    intro s a hs hu
    cases a with
    | push i item => exact hs.pushStep i item hu
    | pop => exact hs.popStep
  exact (h.always hstep (inv_start index buffer)).last

end RingThreads

end FeedHandler
