import FeedHandler.Foundation.RecentValues
import FeedHandler.Foundation.VectorSlots
import FeedHandler.Protocol

/-!
# The tape of recent packets (`stream_server.cpp`)

The consumer writes each message it has processed to a circular array of 30 packets, `RESET` empties the array, and the
snapshot lists it from the newest packet back.  All three hold `g_tapeMutex` while they do so; what the consumer writes
and what `RESET` does are therefore one step each.  The indices are of type `size_t`, with 64 bits.

After `n` packets since the last `RESET` the snapshot lists the last `min (n % 2^64) 30` (`snapshot_run`): all of
the last 30, as long as `g_tapeHead` has not wrapped.
-/

namespace FeedHandler

namespace StreamServer

structure PacketRecord where
  type : UInt8 := 0
  seqNo : UInt64 := 0
  timestampNs : UInt64 := 0
  orderId : UInt64 := 0
  side : UInt8 := 0
  price : Int32 := 0
  quantity : Int32 := 0
deriving DecidableEq, Repr, Inhabited

/-- `RECENT_TAPE_SIZE` -/
def recentTapeSize : UInt64 := 30

/-- `g_recentTape` and `g_tapeHead`. -/
structure Tape where
  recentTape : Vector PacketRecord 30
  tapeHead : UInt64
deriving DecidableEq, Repr

/-- The packet that the consumer records for a message. -/
def PacketRecord.ofMessage (msg : WireMessage) : PacketRecord :=
  let pkt : PacketRecord := { type := msg.msgType, seqNo := msg.seqNo, timestampNs := msg.timestampNs }
  if msg.msgType = 'A'.toUInt8 then
    { pkt with
      orderId := msg.add.orderId
      side := msg.add.side
      price := msg.add.price
      quantity := msg.add.quantity }
  else if msg.msgType = 'X'.toUInt8 then
    { pkt with
      orderId := msg.cancel.orderId
      side := 'X'.toUInt8
      price := 0
      quantity := msg.cancel.quantity }
  else if msg.msgType = 'E'.toUInt8 then
    { pkt with
      orderId := msg.exec.orderId
      side := 'E'.toUInt8
      price := msg.exec.matchPrice
      quantity := msg.exec.execQuantity }
  else
    pkt

inductive TapeStep where
  /-- the round of `consumerThreadFunc` for `msg` -/
  | process (msg : WireMessage)
  /-- `RESET` -/
  | reset
deriving DecidableEq, Repr

namespace Tape

/-- The tape at the start, and after `g_recentTape.fill(PacketRecord{})`. -/
def empty : Tape where
  recentTape := Vector.replicate 30 {}
  tapeHead := 0

/-- The index at which the consumer writes. -/
def writeIndex (t : Tape) : UInt64 := t.tapeHead % recentTapeSize

def record (t : Tape) (pkt : PacketRecord) : Tape where
  recentTape := t.recentTape.setIfInBounds t.writeIndex.toNat pkt
  tapeHead := t.tapeHead + 1

def step (t : Tape) : TapeStep → Tape
  | .process msg => t.record (.ofMessage msg)
  | .reset => empty

def run (steps : List TapeStep) : Tape := steps.foldl step empty

/-- The values of `idx` in the loop of the snapshot. -/
def readIndices (t : Tape) : List UInt64 :=
  let head := t.tapeHead
  let count := if head < recentTapeSize then head else recentTapeSize
  (List.range count.toNat).map fun i => (head - 1 - UInt64.ofNat i) % recentTapeSize

/-- The packets of the section `tape`. -/
def snapshot (t : Tape) : List PacketRecord := t.readIndices.map fun idx => t.recentTape[idx.toNat]!

/-- The packets recorded since the last `RESET`, the newest first. -/
def sinceReset (steps : List TapeStep) : List PacketRecord :=
  steps.foldl
    (fun packets step =>
      match step with
      | .process msg => .ofMessage msg :: packets
      | .reset => [])
    []

/-! ### The tape as a circular array of values -/

open RecentValues

theorem toNat_index (index : UInt64) : (index % recentTapeSize).toNat = slot 30 index := UInt64.toNat_mod ..

theorem readIndices_eq (t : Tape) : t.readIndices = (latest 30 t.tapeHead).map (· % recentTapeSize) := by
  have hcount :
      (if t.tapeHead < recentTapeSize then t.tapeHead else recentTapeSize).toNat = min t.tapeHead.toNat 30 := by
    by_cases hlt : t.tapeHead < recentTapeSize
    · have hnat : t.tapeHead.toNat < 30 := UInt64.lt_iff_toNat_lt.1 hlt
      rw [if_pos hlt]
      omega
    · have hnat : ¬t.tapeHead.toNat < 30 := fun h => hlt (UInt64.lt_iff_toNat_lt.2 h)
      have hsize : recentTapeSize.toNat = 30 := rfl
      rw [if_neg hlt]
      omega
  unfold readIndices latest
  rw [List.map_map]
  dsimp only
  rw [hcount]
  rfl

theorem snapshot_eq (t : Tape) : t.snapshot = recent t.recentTape.get t.tapeHead := by
  unfold snapshot recent
  rw [readIndices_eq, List.map_map]
  apply List.map_congr_left
  intro index _
  show t.recentTape[(index % recentTapeSize).toNat]! = t.recentTape.get (slot 30 index)
  rw [toNat_index]
  exact getElem!_pos t.recentTape _ (slot 30 index).isLt

theorem recentTape_record (t : Tape) (pkt : PacketRecord) :
    (t.record pkt).recentTape.get = Function.update t.recentTape.get (slot 30 t.tapeHead) pkt := by
  rw [← VectorSlots.get_set_eq_update, ← toNat_index]
  rfl

/-! ### Runs -/

/-- Messages without a `RESET` in between all stay since the last. -/
theorem sinceReset_append_map (steps : List TapeStep) (msgs : List WireMessage) :
    sinceReset (steps ++ msgs.map .process) = (msgs.map .ofMessage).reverse ++ sinceReset steps := by
  induction msgs generalizing steps with
  | nil => simp
  | cons msg msgs ih =>
    have hstep : sinceReset (steps ++ [.process msg]) = .ofMessage msg :: sinceReset steps := by simp [sinceReset]
    rw [List.map_cons, ← List.singleton_append, ← List.append_assoc, ih, hstep]
    simp

theorem sinceReset_reset_cons (steps : List TapeStep) (msgs : List WireMessage) :
    sinceReset (steps ++ .reset :: msgs.map .process) = (msgs.map .ofMessage).reverse := by
  have hreset : sinceReset (steps ++ [.reset]) = [] := by simp [sinceReset]
  rw [← List.singleton_append, ← List.append_assoc, sinceReset_append_map, hreset, List.append_nil]

/-- The slots hold the packets since the last `RESET`. -/
theorem follows_run (steps : List TapeStep) :
    Follows (run steps).recentTape.get (run steps).tapeHead (sinceReset steps) := by
  induction steps using List.reverseRecOn with
  | nil => exact follows_nil _
  | append_singleton steps a ih =>
    unfold run sinceReset at ih ⊢
    rw [List.foldl_append, List.foldl_append]
    cases a with
    | process msg =>
      have hwrite := ih.write (.ofMessage msg)
      rw [← recentTape_record] at hwrite
      exact hwrite
    | reset => exact follows_nil _

/-- No packet of the array is listed twice. -/
theorem readIndices_nodup (t : Tape) : t.readIndices.Nodup := by
  have hslot : ∀ index, slot 30 (index % recentTapeSize) = slot 30 index := by
    intro index
    apply Fin.ext
    show (index % recentTapeSize).toNat % 30 = index.toNat % 30
    rw [UInt64.toNat_mod]
    exact Nat.mod_mod ..
  have hnodup : (t.readIndices.map (slot 30)).Nodup := by
    rw [readIndices_eq, List.map_map]
    exact (List.map_congr_left fun index _ => hslot index) ▸ slots_nodup 30 t.tapeHead
  exact hnodup.of_map

theorem index_lt (index : UInt64) : (index % recentTapeSize).toNat < 30 := by
  rw [toNat_index]
  exact (slot 30 index).isLt

theorem readIndices_lt (t : Tape) : ∀ idx ∈ t.readIndices, idx.toNat < 30 := by
  intro idx hidx
  obtain ⟨i, -, rfl⟩ := List.mem_map.1 hidx
  exact index_lt _

/-- What the snapshot lists after any run.  It is all of the last 30 packets unless `g_tapeHead` has wrapped and fewer
than 30 have come since. -/
theorem snapshot_run (steps : List TapeStep) :
    (run steps).snapshot = (sinceReset steps).take (min ((sinceReset steps).length % 2 ^ 64) 30) ∧
      ((run steps).snapshot = (sinceReset steps).take 30 ↔
        (sinceReset steps).length < 2 ^ 64 ∨ 30 ≤ (sinceReset steps).length % 2 ^ 64) ∧
      (run steps).readIndices.Nodup ∧ (∀ idx ∈ (run steps).readIndices, idx.toNat < 30) ∧
      (run steps).writeIndex.toNat < 30 := by
  have hfollows := follows_run steps
  refine ⟨?_, ?_, readIndices_nodup _, readIndices_lt _, index_lt _⟩
  · rw [snapshot_eq]
    exact hfollows.recent_eq
  · rw [snapshot_eq]
    exact hfollows.recent_eq_take_iff

/-- `2^64` messages without a `RESET`. -/
def uninterrupted : List TapeStep :=
  List.replicate 18446744073709551616 (.process (.ofAdd ⟨'A'.toUInt8, 1, 0, 7, 'B'.toUInt8, 100, 5⟩))

/-- After `2^64` messages `g_tapeHead` is zero, and the snapshot lists nothing. -/
theorem snapshot_uninterrupted : ¬(run uninterrupted).snapshot = (sinceReset uninterrupted).take 30 := by
  have hlength : (sinceReset uninterrupted).length = 18446744073709551616 := by
    unfold uninterrupted
    generalize 18446744073709551616 = n
    rw [← List.map_replicate, ← List.nil_append (List.map _ _), sinceReset_append_map]
    simp [sinceReset]
  rw [snapshot_eq, (follows_run _).recent_eq_take_iff, hlength]
  omega

end Tape

end StreamServer

end FeedHandler
