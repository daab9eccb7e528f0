import FeedHandler.Foundation.RingIndex
import FeedHandler.Foundation.VectorSlots
import FeedHandler.OrderTable.Basic

/-!
# The ring buffer (`ring_buffer.hpp`)

`tryPush` and `tryPop` run in different threads.  A call is a sequence of steps, each of which loads or stores one of
`head_`, `tail_`, `cachedTail_`, `cachedHead_` or reads or writes one slot; between two steps the other threads may
take any steps of theirs.  A call in progress is the point it has reached, with the values of its local variables.

`tryEmplace(args...)` takes the same steps as `tryPush`; its item is `T{args...}`.
-/

namespace FeedHandler

/-- A template argument of the ring buffer: `static_assert(Capacity >= 2)` besides the power of two. -/
structure RingCapacity extends Pow2 where
  atLeastTwo : 2 ≤ val

theorem RingCapacity.eq_two_pow (Capacity : RingCapacity) : ∃ k ≤ 63, Capacity.val = 2 ^ k :=
  Capacity.toPow2.eq_two_pow (by have := Capacity.atLeastTwo; omega)

theorem RingCapacity.le (Capacity : RingCapacity) : Capacity.val ≤ 2 ^ 63 := by
  obtain ⟨k, hk, hval⟩ := Capacity.eq_two_pow
  rw [hval]
  exact Nat.pow_le_pow_right (by decide) hk

structure SPSCRingBuffer (T : Type) (Capacity : RingCapacity) where
  head : UInt64
  cachedTail : UInt64
  tail : UInt64
  cachedHead : UInt64
  buffer : Vector T Capacity.val

namespace SPSCRingBuffer

variable {T : Type} {Capacity : RingCapacity}

def MASK (Capacity : RingCapacity) : UInt64 := UInt64.ofNat (Capacity.val - 1)

theorem toNat_MASK (Capacity : RingCapacity) : (MASK Capacity).toNat = Capacity.val - 1 := by
  have hlt := Capacity.size_t
  unfold MASK
  rw [UInt64.toNat_ofNat']
  exact Nat.mod_eq_of_lt (by omega)

/-- `index & MASK` -/
def slot (Capacity : RingCapacity) (index : UInt64) : Fin Capacity.val :=
  ⟨(index &&& MASK Capacity).toNat, by
    have hle := Nat.and_le_right (n := index.toNat) (m := (MASK Capacity).toNat)
    have htwo := Capacity.atLeastTwo
    rw [toNat_MASK] at hle
    rw [UInt64.toNat_and, toNat_MASK]
    omega⟩

/-- Indices less than `Capacity` apart have different slots. -/
theorem slot_inj {start : UInt64} {m n : Nat} (hle : m ≤ n) (hlt : n < m + Capacity.val)
    (h : slot Capacity (RingIndex.nth start m) = slot Capacity (RingIndex.nth start n)) : m = n := by
  obtain ⟨k, hk, hval⟩ := Capacity.eq_two_pow
  rw [hval] at hlt
  apply RingIndex.slot_inj (Nat.le_trans hk (by decide)) hle hlt
  have hslot := congrArg Fin.val h
  rw [← hval]
  exact UInt64.toNat_inj.1 hslot

/-- `buffer_[index & MASK]` -/
def read (ring : SPSCRingBuffer T Capacity) (index : UInt64) : T := ring.buffer.get (slot Capacity index)

/-- `buffer_[index & MASK] = item` -/
def write (ring : SPSCRingBuffer T Capacity) (index : UInt64) (item : T) : SPSCRingBuffer T Capacity :=
  { ring with buffer := ring.buffer.setIfInBounds (slot Capacity index) item }

section Write

variable (ring : SPSCRingBuffer T Capacity) (i : UInt64) (item : T)

@[simp] theorem head_write : (ring.write i item).head = ring.head := rfl

@[simp] theorem cachedTail_write : (ring.write i item).cachedTail = ring.cachedTail := rfl

@[simp] theorem tail_write : (ring.write i item).tail = ring.tail := rfl

@[simp] theorem cachedHead_write : (ring.write i item).cachedHead = ring.cachedHead := rfl

/-- The indices do not matter to a slot. -/
@[simp] theorem read_mk (head cachedTail tail cachedHead : UInt64) :
    read ⟨head, cachedTail, tail, cachedHead, ring.buffer⟩ i = ring.read i := rfl

end Write

theorem read_write (ring : SPSCRingBuffer T Capacity) (i j : UInt64) (item : T) :
    (ring.write i item).read j = if slot Capacity i = slot Capacity j then item else ring.read j :=
  VectorSlots.get_set ring.buffer (slot Capacity i) (slot Capacity j) item

end SPSCRingBuffer

/-- What a step of a call returns: nothing yet, `true` (with the item pushed or popped) or `false`. -/
inductive Outcome (T : Type) where
  | running
  | returnedTrue (item : T)
  | returnedFalse
deriving DecidableEq, Repr

/-- The item of a call that returns `true`. -/
def Outcome.items {T : Type} : Outcome T → List T
  | .returnedTrue item => [item]
  | _ => []

/-- A thread at `tryPush(item)`: outside of it, or before the step that the constructor names. -/
inductive TryPush (T : Type) where
  | idle
  | loadHead (item : T)
  | loadCachedTail (item : T) (currentHead : UInt64)
  | loadTail (item : T) (currentHead : UInt64)
  | storeCachedTail (item : T) (currentHead loadedTail : UInt64)
  | reloadCachedTail (item : T) (currentHead : UInt64)
  | writeSlot (item : T) (currentHead : UInt64)
  | storeHead (item : T) (currentHead : UInt64)
deriving DecidableEq, Repr

/-- A thread at `tryPop(item)`: outside of it, or before the step that the constructor names. -/
inductive TryPop (T : Type) where
  | idle
  | loadTail
  | loadCachedHead (currentTail : UInt64)
  | loadHead (currentTail : UInt64)
  | storeCachedHead (currentTail loadedHead : UInt64)
  | reloadCachedHead (currentTail : UInt64)
  | readSlot (currentTail : UInt64)
  | storeTail (currentTail : UInt64) (item : T)
deriving DecidableEq, Repr

section Steps

variable {T : Type} {Capacity : RingCapacity}

/-- Pushes an item into the queue (Producer thread only): one step. -/
def TryPush.step (ring : SPSCRingBuffer T Capacity) :
    TryPush T → SPSCRingBuffer T Capacity × TryPush T × Outcome T
  | .idle => (ring, .idle, .running)
  | .loadHead item => (ring, .loadCachedTail item ring.head, .running)
  -- space by the cached tail?
  | .loadCachedTail item currentHead =>
    if currentHead - ring.cachedTail ≥ UInt64.ofNat Capacity.val then
      (ring, .loadTail item currentHead, .running)
    else
      (ring, .writeSlot item currentHead, .running)
  | .loadTail item currentHead => (ring, .storeCachedTail item currentHead ring.tail, .running)
  | .storeCachedTail item currentHead loadedTail =>
    ({ ring with cachedTail := loadedTail }, .reloadCachedTail item currentHead, .running)
  | .reloadCachedTail item currentHead =>
    if currentHead - ring.cachedTail ≥ UInt64.ofNat Capacity.val then
      (ring, .idle, .returnedFalse) -- genuinely full
    else
      (ring, .writeSlot item currentHead, .running)
  | .writeSlot item currentHead => (ring.write currentHead item, .storeHead item currentHead, .running)
  | .storeHead item currentHead => ({ ring with head := currentHead + 1 }, .idle, .returnedTrue item)

/-- Pops an item from the queue (Consumer thread only): one step. -/
def TryPop.step (ring : SPSCRingBuffer T Capacity) :
    TryPop T → SPSCRingBuffer T Capacity × TryPop T × Outcome T
  | .idle => (ring, .idle, .running)
  | .loadTail => (ring, .loadCachedHead ring.tail, .running)
  -- elements available by the cached head?
  | .loadCachedHead currentTail =>
    if currentTail = ring.cachedHead then
      (ring, .loadHead currentTail, .running)
    else
      (ring, .readSlot currentTail, .running)
  | .loadHead currentTail => (ring, .storeCachedHead currentTail ring.head, .running)
  | .storeCachedHead currentTail loadedHead =>
    ({ ring with cachedHead := loadedHead }, .reloadCachedHead currentTail, .running)
  | .reloadCachedHead currentTail =>
    if currentTail = ring.cachedHead then
      (ring, .idle, .returnedFalse) -- empty
    else
      (ring, .readSlot currentTail, .running)
  | .readSlot currentTail => (ring, .storeTail currentTail (ring.read currentTail), .running)
  | .storeTail currentTail item => ({ ring with tail := currentTail + 1 }, .idle, .returnedTrue item)

end Steps

end FeedHandler
