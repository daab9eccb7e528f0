import FeedHandler.RingBuffer.Waiting
import FeedHandler.Protocol

/-!
# The ingestion of the stream server (`stream_server.cpp`)

The burst generator (`producerThreadFunc`) and the command thread (`commandThreadFunc`, with `loadFileIntoEngine` and
`CROSS`) both hand their messages to `pushWireMessage`, which calls `tryPush` on one and the same ring until it
returns `true`.  The ring is made for a single producer: when two calls overlap, both may write the slot of the same
head, and one message is lost (`message_lost`).  As long as no call is disturbed by the other thread, every message
is popped exactly once (`ingestion_lossless`).
-/

namespace FeedHandler

namespace StreamServer

/-- The threads that push. -/
inductive Pusher where
  | producerThread
  | commandThread
deriving DecidableEq, Repr

/-- The ring with its three threads, and the message of the `pushWireMessage` call that each pushing thread is in. -/
structure Ingestion (Capacity : RingCapacity) where
  threads : RingThreads Pusher WireMessage Capacity
  inCall : Pusher → Option WireMessage

/-- The next step is taken by a pushing thread (which calls `pushWireMessage(msg)` when it is in no call) or by the
consumer thread. -/
inductive IngestionStep where
  | pusher (i : Pusher) (msg : WireMessage)
  | consumer
deriving DecidableEq, Repr

/-- `SPSCRingBuffer<WireMessage, 65536>` -/
def ringCapacity : RingCapacity where
  val := 65536
  staticAssert := by decide
  size_t := by decide
  atLeastTwo := by decide

/-- The slots of `g_ringBuffer`, which is static. -/
def zeroed : Vector WireMessage ringCapacity.val := Vector.replicate _ ⟨Vector.replicate 34 0⟩

variable {Capacity : RingCapacity}

namespace Ingestion

def start (buffer : Vector WireMessage Capacity.val) : Ingestion Capacity where
  threads := RingThreads.start 0 buffer
  inCall _ := none

/-- `while (!g_ringBuffer.tryPush(msg)) { pause }`: one step. -/
def pushWireMessage (s : Ingestion Capacity) (i : Pusher) (msg : WireMessage) : Ingestion Capacity :=
  match s.inCall i with
  | none => { s with inCall := Function.update s.inCall i (some msg) }
  | some msg =>
    { threads := s.threads.pushStep i msg
      inCall :=
        match ((s.threads.pushing i).step s.threads.ring).2.2 with
        | .returnedTrue _ => Function.update s.inCall i none
        | _ => s.inCall }

/-- The `tryPop` loop of `consumerThreadFunc`: one step. -/
def consume (s : Ingestion Capacity) : Ingestion Capacity := { s with threads := s.threads.popStep }

def step (s : Ingestion Capacity) : IngestionStep → Ingestion Capacity
  | .pusher i msg => s.pushWireMessage i msg
  | .consumer => s.consume

def run (buffer : Vector WireMessage Capacity.val) (schedule : List IngestionStep) : Ingestion Capacity :=
  schedule.foldl step (start buffer)

/-- The step is not one of a `tryPush` that the other thread has disturbed. -/
def Undisturbed (s : Ingestion Capacity) : IngestionStep → Prop
  | .pusher i _ => s.inCall i = none ∨ s.threads.CallUndisturbed i (s.threads.pushing i)
  | .consumer => True

instance (s : Ingestion Capacity) : ∀ a, Decidable (s.Undisturbed a)
  | .pusher _ _ => inferInstanceAs (Decidable (_ ∨ _))
  | .consumer => inferInstanceAs (Decidable True)

/-- Every message whose `pushWireMessage` returned was popped once or waits in the ring, nothing else does, and the
consumer pops what waits. -/
def Lossless (s : Ingestion Capacity) : Prop :=
  s.threads.popped ++ s.threads.waiting = s.threads.pushed ∧
    ∃ k, ((List.replicate k IngestionStep.consumer).foldl step s).threads.popped = s.threads.pushed

theorem foldl_consumer (s : Ingestion Capacity) (k : Nat) :
    ((List.replicate k IngestionStep.consumer).foldl step s).threads = RingThreads.popStep^[k] s.threads := by
  induction k generalizing s with
  | zero => rfl
  | succ k ih => exact ih s.consume

theorem inv_step {index : UInt64} {s : Ingestion Capacity} {a : IngestionStep} (h : s.threads.Inv index)
    (hu : s.Undisturbed a) : (s.step a).threads.Inv index := by
  cases a with
  | consumer => exact h.popStep
  | pusher i msg =>
    show (s.pushWireMessage i msg).threads.Inv index
    unfold pushWireMessage
    cases hcall : s.inCall i with
    | none => exact h
    | some msg =>
      have hcalling : s.inCall i ≠ none := by simp [hcall]
      exact h.pushStep i msg (hu.resolve_left hcalling)

/-- In a run in which no call is disturbed, every state is lossless. -/
theorem ingestion_lossless (buffer : Vector WireMessage Capacity.val) (schedule : List IngestionStep)
    (h : Runs.Along step Undisturbed (start buffer) schedule) : Runs.Always step Lossless (start buffer) schedule := by
  have hstep : ∀ (s : Ingestion Capacity) (a : IngestionStep), s.threads.Inv 0 → s.Undisturbed a →
      (s.step a).threads.Inv 0 := fun s a => inv_step
  refine (h.always hstep (RingThreads.inv_start 0 buffer)).mono fun s hs => ⟨hs.popped_append_waiting, ?_⟩
  obtain ⟨k, hk⟩ := hs.exists_popped_eq_pushed
  exact ⟨k, by rw [foldl_consumer, hk]⟩

/-- Both threads push, one after the other, and the consumer pops both messages. -/
theorem ingestion_lossless_in_turn :
    Runs.Always step Lossless
      (start (Vector.replicate 2 ⟨Vector.replicate 34 0⟩) : Ingestion ⟨⟨2, by decide, by decide⟩, by decide⟩)
      (List.replicate 6 (.pusher .commandThread (.ofCancel ⟨'X'.toUInt8, 1, 0, 7, 4⟩)) ++
        List.replicate 6 (.pusher .producerThread (.ofCancel ⟨'X'.toUInt8, 2, 0, 8, 4⟩)) ++
        List.replicate 16 .consumer) := by
  apply ingestion_lossless
  decide +kernel

/-- Two calls of `pushWireMessage` that overlap from their load of `head_` on, then one `tryPop`. -/
def overlap (m₁ m₂ : WireMessage) : List IngestionStep :=
  List.replicate 4 (.pusher .commandThread m₁) ++ List.replicate 4 (.pusher .producerThread m₂) ++
    [.pusher .commandThread m₁, .pusher .producerThread m₂, .pusher .commandThread m₁, .pusher .producerThread m₂] ++
    List.replicate 8 .consumer

theorem overlap_loses (buffer : Vector WireMessage Capacity.val) (m₁ m₂ : WireMessage) :
    (run buffer (overlap m₁ m₂)).threads.pushed = [m₁, m₂] ∧ (run buffer (overlap m₁ m₂)).threads.popped = [m₂] ∧
      (run buffer (overlap m₁ m₂)).threads.waiting = [] := by
  have hspace : ¬ UInt64.ofNat Capacity.val = 0 := by
    intro he
    have hlt := Capacity.size_t
    have htwo := Capacity.atLeastTwo
    have hval := congrArg UInt64.toNat he
    rw [UInt64.toNat_ofNat', Nat.mod_eq_of_lt hlt] at hval
    have hzero : (0 : UInt64).toNat = 0 := rfl
    omega
  simp [run, overlap, start, RingThreads.start, step, pushWireMessage, consume, RingThreads.pushStep,
    RingThreads.popStep, TryPush.step, TryPop.step, Outcome.items, hspace, List.replicate, Function.update,
    SPSCRingBuffer.read_write, RingThreads.waiting]

/-- Two messages are pushed, one from each thread, both calls return, and the first message is never popped. -/
theorem message_lost :
    (run zeroed (overlap (.ofCancel ⟨'X'.toUInt8, 1, 0, 7, 4⟩) (.ofCancel ⟨'X'.toUInt8, 2, 0, 8, 4⟩))).threads.pushed =
        [.ofCancel ⟨'X'.toUInt8, 1, 0, 7, 4⟩, .ofCancel ⟨'X'.toUInt8, 2, 0, 8, 4⟩] ∧
      (run zeroed (overlap (.ofCancel ⟨'X'.toUInt8, 1, 0, 7, 4⟩)
        (.ofCancel ⟨'X'.toUInt8, 2, 0, 8, 4⟩))).threads.popped = [.ofCancel ⟨'X'.toUInt8, 2, 0, 8, 4⟩] ∧
      (run zeroed (overlap (.ofCancel ⟨'X'.toUInt8, 1, 0, 7, 4⟩)
        (.ofCancel ⟨'X'.toUInt8, 2, 0, 8, 4⟩))).threads.waiting = [] :=
  overlap_loses _ _ _

end Ingestion

end StreamServer

end FeedHandler
