import FeedHandler.OrderBook.Basic
import FeedHandler.StreamServer.Ingestion

/-!
# `RESET` (`stream_server.cpp`)

The engine of the stream server as a state: the messages that wait in the ring, the book, the number for the next
message of a user, and two totals.  A step is taken by a thread: a message is pushed, a message is popped and
processed, or the command thread carries out `RESET`.  `RESET` leaves the ring as it is, so the messages that wait in it
are processed afterwards (`transfers_foldl`), and what came before is forgotten exactly when none waited
(`reset_asFresh_iff`).
-/

namespace FeedHandler

namespace StreamServer

structure Engine (Depth : Nat) (TableCapacity : Pow2) where
  /-- what waits in `g_ringBuffer` -/
  ring : List WireMessage
  orderBook : LimitOrderBook Depth TableCapacity
  userSeqNo : UInt64
  totalIngested : UInt64
  totalProcessed : UInt64

inductive EngineStep where
  /-- the round of `pushWireMessage(msg)` in which `tryPush` returns `true` -/
  | push (msg : WireMessage)
  /-- `g_userSeqNo.fetch_add(1)` -/
  | takeSeqNo
  /-- a round of `consumerThreadFunc` -/
  | consume
  /-- the command `RESET` -/
  | reset
deriving DecidableEq, Repr

variable {Depth : Nat} {TableCapacity : Pow2}

namespace Engine

/-- A freshly started engine. -/
def start (Depth : Nat) (TableCapacity : Pow2) : Engine Depth TableCapacity where
  ring := []
  orderBook := .reset Depth TableCapacity
  userSeqNo := 1
  totalIngested := 0
  totalProcessed := 0

def step (s : Engine Depth TableCapacity) : EngineStep → Engine Depth TableCapacity
  | .push msg =>
    if s.ring.length < ringCapacity.val then
      { s with ring := s.ring ++ [msg], totalIngested := s.totalIngested + 1 }
    else
      s -- the ring is full: `pushWireMessage` waits
  | .takeSeqNo => { s with userSeqNo := s.userSeqNo + 1 }
  | .consume =>
    match s.ring with
    | [] => s
    | msg :: ring =>
      { s with ring, orderBook := s.orderBook.processMessage msg, totalProcessed := s.totalProcessed + 1 }
  | .reset =>
    { s with
      orderBook := .reset Depth TableCapacity
      totalIngested := 0
      totalProcessed := 0
      userSeqNo := 1 }

def run (Depth : Nat) (TableCapacity : Pow2) (steps : List EngineStep) : Engine Depth TableCapacity :=
  steps.foldl step (start Depth TableCapacity)

/-- The message that a step puts into the ring. -/
def pushedBy (s : Engine Depth TableCapacity) : EngineStep → List WireMessage
  | .push msg => if s.ring.length < ringCapacity.val then [msg] else []
  | _ => []

/-- The messages that are put into the ring on the way. -/
def pushed : Engine Depth TableCapacity → List EngineStep → List WireMessage
  | _, [] => []
  | s, a :: steps => s.pushedBy a ++ pushed (s.step a) steps

/-- The book and the totals are those of an engine that was given `msgs` after its start. -/
structure AsFresh (s : Engine Depth TableCapacity) (msgs : List WireMessage) : Prop where
  orderBook : s.orderBook = .run Depth TableCapacity msgs
  totalIngested : s.totalIngested = UInt64.ofNat msgs.length
  totalProcessed : s.totalProcessed = UInt64.ofNat msgs.length

theorem ring_length_le {steps : List EngineStep} :
    (run Depth TableCapacity steps).ring.length ≤ ringCapacity.val := by
  apply Runs.foldl_invariant (I := fun s : Engine Depth TableCapacity => s.ring.length ≤ ringCapacity.val)
  · intro s a h
    cases a with
    | push msg =>
      unfold step
      dsimp only
      split
      · rw [List.length_append]
        exact ‹s.ring.length < _›
      · exact h
    | takeSeqNo => exact h
    | consume =>
      unfold step
      dsimp only
      split
      · exact h
      · rename_i hring
        rw [hring, List.length_cons] at h
        exact Nat.le_of_succ_le h
    | reset => exact h
  · exact Nat.zero_le _

/-- From `s` to `t`, messages were put into the ring and others were popped and processed. -/
structure Transfers (s t : Engine Depth TableCapacity) (pushed processed : List WireMessage) : Prop where
  ring : processed ++ t.ring = s.ring ++ pushed
  orderBook : t.orderBook = processed.foldl LimitOrderBook.processMessage s.orderBook
  totalIngested : t.totalIngested = s.totalIngested + UInt64.ofNat pushed.length
  totalProcessed : t.totalProcessed = s.totalProcessed + UInt64.ofNat processed.length

theorem Transfers.refl (s : Engine Depth TableCapacity) : Transfers s s [] [] :=
  ⟨by simp, rfl, by simp, by simp⟩

theorem Transfers.trans {s t u : Engine Depth TableCapacity} {pushed pushed' processed processed' : List WireMessage}
    (h : Transfers s t pushed processed) (h' : Transfers t u pushed' processed') :
    Transfers s u (pushed ++ pushed') (processed ++ processed') where
  ring := by rw [List.append_assoc, h'.ring, ← List.append_assoc, h.ring, List.append_assoc]
  orderBook := by rw [h'.orderBook, h.orderBook, List.foldl_append]
  totalIngested := by
    rw [h'.totalIngested, h.totalIngested, List.length_append, UInt64.ofNat_add, UInt64.add_assoc]
  totalProcessed := by
    rw [h'.totalProcessed, h.totalProcessed, List.length_append, UInt64.ofNat_add, UInt64.add_assoc]

theorem transfers_step (s : Engine Depth TableCapacity) {a : EngineStep} (ha : a ≠ .reset) :
    ∃ processed, Transfers s (s.step a) (s.pushedBy a) processed := by
  cases a with
  | push msg =>
    refine ⟨[], ?_⟩
    unfold step pushedBy
    dsimp only
    split
    · exact ⟨rfl, rfl, rfl, (UInt64.add_zero _).symm⟩
    · exact .refl s
  | takeSeqNo => exact ⟨[], by simp [step, pushedBy], rfl, by simp [step, pushedBy], by simp [step]⟩
  | consume =>
    cases hring : s.ring with
    | nil =>
      have hs : s.step .consume = s := by simp [step, hring]
      rw [hs]
      exact ⟨[], .refl s⟩
    | cons msg ring =>
      refine ⟨[msg], ?_, ?_, ?_, ?_⟩
      all_goals simp [step, pushedBy, hring]
  | reset => exact absurd rfl ha

/-- Between two resets, the consumer processes what waits and what is pushed, in that order. -/
theorem transfers_foldl {steps : List EngineStep} (hreset : EngineStep.reset ∉ steps) (s : Engine Depth TableCapacity) :
    ∃ processed, Transfers s (steps.foldl step s) (pushed s steps) processed := by
  induction steps generalizing s with
  | nil => exact ⟨[], .refl s⟩
  | cons a steps ih =>
    rw [List.mem_cons, not_or] at hreset
    obtain ⟨processed, hstep⟩ := s.transfers_step (Ne.symm hreset.1)
    obtain ⟨processed', hrest⟩ := ih hreset.2 (s.step a)
    exact ⟨processed ++ processed', hstep.trans hrest⟩

/-- Once the ring is empty, everything that waited and was pushed has been processed. -/
theorem Transfers.of_ring_eq_nil {s t : Engine Depth TableCapacity} {pushed processed : List WireMessage}
    (h : Transfers s t pushed processed) (hempty : t.ring = []) : Transfers s t pushed (s.ring ++ pushed) := by
  have hring := h.ring
  rw [hempty, List.append_nil] at hring
  rwa [← hring]

/-- An engine that is started, given messages and left until its ring is empty. -/
theorem start_asFresh {steps : List EngineStep} (hreset : EngineStep.reset ∉ steps)
    (hempty : (run Depth TableCapacity steps).ring = []) :
    (run Depth TableCapacity steps).AsFresh (pushed (start Depth TableCapacity) steps) := by
  obtain ⟨processed, h⟩ := transfers_foldl hreset (start Depth TableCapacity)
  replace h := h.of_ring_eq_nil hempty
  exact ⟨h.orderBook, h.totalIngested.trans (UInt64.zero_add _), h.totalProcessed.trans (UInt64.zero_add _)⟩

/-- After a reset, messages and enough rounds of the consumer to empty the ring, the engine is as one that was freshly
started and given these messages, exactly when no message waited at the reset. -/
theorem reset_asFresh_iff (past : List EngineStep) {steps : List EngineStep} (hreset : EngineStep.reset ∉ steps)
    (hempty : (run Depth TableCapacity (past ++ .reset :: steps)).ring = []) :
    (run Depth TableCapacity (past ++ .reset :: steps)).AsFresh
        (pushed (run Depth TableCapacity (past ++ [.reset])) steps) ↔ (run Depth TableCapacity past).ring = [] := by
  have hle : (run Depth TableCapacity past).ring.length ≤ ringCapacity.val := ring_length_le
  have hrun : run Depth TableCapacity (past ++ .reset :: steps) =
      steps.foldl step ((run Depth TableCapacity past).step .reset) := List.foldl_append ..
  have hpast : run Depth TableCapacity (past ++ [.reset]) = (run Depth TableCapacity past).step .reset :=
    List.foldl_append ..
  rw [hrun] at hempty ⊢
  rw [hpast]
  generalize run Depth TableCapacity past = s at hle hempty ⊢
  obtain ⟨processed, h⟩ := transfers_foldl hreset (s.step .reset)
  replace h : Transfers _ _ _ (s.ring ++ _) := h.of_ring_eq_nil hempty
  constructor
  · -- the messages that waited are counted as processed, and not as ingested
    intro hfresh
    have hcount := h.totalProcessed.symm.trans hfresh.totalProcessed
    have hzero : (s.step .reset).totalProcessed = 0 := rfl
    rw [hzero, UInt64.zero_add, List.length_append, UInt64.ofNat_add] at hcount
    have hlength : UInt64.ofNat s.ring.length = 0 := by simpa using hcount
    have hnat := congrArg UInt64.toNat hlength
    have hcapacity : ringCapacity.val = 65536 := rfl
    rw [UInt64.toNat_ofNat', Nat.mod_eq_of_lt (by omega)] at hnat
    exact List.length_eq_zero_iff.1 hnat
  · intro hnil
    rw [hnil, List.nil_append] at h
    exact ⟨h.orderBook, h.totalIngested.trans (UInt64.zero_add _), h.totalProcessed.trans (UInt64.zero_add _)⟩

/-- A bid is processed before the reset and another one after it. -/
theorem reset_asFresh_of_quiet_iff :
    (run 1 ⟨4, by decide, by decide⟩
        ([.push (.ofAdd ⟨'A'.toUInt8, 1, 0, 7, 'B'.toUInt8, 100, 50⟩), .consume] ++
          .reset :: [.push (.ofAdd ⟨'A'.toUInt8, 1, 0, 8, 'B'.toUInt8, 101, 50⟩), .consume])).AsFresh
        [.ofAdd ⟨'A'.toUInt8, 1, 0, 8, 'B'.toUInt8, 101, 50⟩] ↔
      (run 1 ⟨4, by decide, by decide⟩
        [.push (.ofAdd ⟨'A'.toUInt8, 1, 0, 7, 'B'.toUInt8, 100, 50⟩), .consume]).ring = [] :=
  reset_asFresh_iff _ (by decide) rfl

/-- A bid that waits at the reset is processed after it: it stands in the book, and one message more was processed than
ingested. -/
theorem queued_message_survives_reset :
    (¬ ∀ past steps : List EngineStep, EngineStep.reset ∉ steps →
      (run 5 ⟨2097152, by decide, by decide⟩ (past ++ .reset :: steps)).ring = [] →
        (run 5 ⟨2097152, by decide, by decide⟩ (past ++ .reset :: steps)).AsFresh
          (pushed (run 5 ⟨2097152, by decide, by decide⟩ (past ++ [.reset])) steps)) ∧
      (run 1 ⟨4, by decide, by decide⟩
        [.push (.ofAdd ⟨'A'.toUInt8, 1, 0, 7, 'B'.toUInt8, 100, 50⟩), .reset, .consume]).orderBook.hasBids = true := by
  constructor
  · intro h
    have hfresh := h [.push (.ofAdd ⟨'A'.toUInt8, 1, 0, 7, 'B'.toUInt8, 100, 50⟩)] [.consume] (by decide) rfl
    exact absurd hfresh.totalProcessed (by decide)
  · decide

end Engine

end StreamServer

end FeedHandler
