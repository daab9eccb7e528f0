import FeedHandler.Protocol

/-!
# The dual feed arbitrator (`feed_arbitrator.hpp`)

Two feeds carry the same sequence of messages.  The arbitrator passes on the message it expects, drops what it has
passed on already, and keeps a message from the future in the slot of its number modulo `MaxBufferedGaps`.  A call
that returns `true` writes its message to `outMsg`; here a call returns the message or `none`.
-/

namespace FeedHandler

inductive FeedSource where
  | FeedA
  | FeedB
deriving DecidableEq, Repr

structure GapBufferEntry where
  msg : WireMessage := ⟨Vector.replicate 34 0⟩
  active : Bool := false
deriving DecidableEq, Repr, Inhabited

structure DualFeedArbitrator (MaxBufferedGaps : Nat) where
  expectedSeqNo : UInt64
  duplicatesDropped : UInt64
  sequenceGapsDetected : UInt64
  retransmitRequests : UInt64
  gapBuffer : Vector GapBufferEntry MaxBufferedGaps

namespace DualFeedArbitrator

variable {MaxBufferedGaps : Nat}

/-- The arbitrator after its constructor, and after `reset()`. -/
def reset (MaxBufferedGaps : Nat) : DualFeedArbitrator MaxBufferedGaps where
  expectedSeqNo := 1
  duplicatesDropped := 0
  sequenceGapsDetected := 0
  retransmitRequests := 0
  gapBuffer := Vector.replicate MaxBufferedGaps {}

/-- Ingests a message from either feed. -/
def ingest (a : DualFeedArbitrator MaxBufferedGaps) (_source : FeedSource) (msg : WireMessage) :
    Option WireMessage × DualFeedArbitrator MaxBufferedGaps :=
  let seq := msg.seqNo
  if seq < a.expectedSeqNo then
    (none, { a with duplicatesDropped := a.duplicatesDropped + 1 })
  else if seq = a.expectedSeqNo then
    (some msg, { a with expectedSeqNo := a.expectedSeqNo + 1 })
  else
    -- out of order: buffer the message and request the fill
    let gap := seq - a.expectedSeqNo
    (none,
      { a with
        sequenceGapsDetected := a.sequenceGapsDetected + gap
        retransmitRequests := a.retransmitRequests + 1
        gapBuffer := a.gapBuffer.setIfInBounds (seq.toNat % MaxBufferedGaps) { msg, active := true } })

/-- Drains the next message from the buffer, when it is there. -/
def tryDrainBuffered (a : DualFeedArbitrator MaxBufferedGaps) :
    Option WireMessage × DualFeedArbitrator MaxBufferedGaps :=
  let slot := a.expectedSeqNo.toNat % MaxBufferedGaps
  if a.gapBuffer[slot]!.active && a.gapBuffer[slot]!.msg.seqNo = a.expectedSeqNo then
    (some a.gapBuffer[slot]!.msg,
      { a with
        gapBuffer := a.gapBuffer.setIfInBounds slot { a.gapBuffer[slot]! with active := false }
        expectedSeqNo := a.expectedSeqNo + 1 })
  else
    (none, a)

/-- A call of the interface. -/
inductive Call where
  | ingest (source : FeedSource) (msg : WireMessage)
  | tryDrainBuffered
deriving DecidableEq, Repr

def call (a : DualFeedArbitrator MaxBufferedGaps) : Call → Option WireMessage × DualFeedArbitrator MaxBufferedGaps
  | .ingest source msg => a.ingest source msg
  | .tryDrainBuffered => a.tryDrainBuffered

/-- A call, with the messages put out so far. -/
def step (s : DualFeedArbitrator MaxBufferedGaps × List WireMessage) (c : Call) :
    DualFeedArbitrator MaxBufferedGaps × List WireMessage :=
  ((s.1.call c).2, s.2 ++ (s.1.call c).1.toList)

/-- A fresh arbitrator after a sequence of calls, and what they put out. -/
def run (MaxBufferedGaps : Nat) (calls : List Call) : DualFeedArbitrator MaxBufferedGaps × List WireMessage :=
  calls.foldl step (reset MaxBufferedGaps, [])

end DualFeedArbitrator

end FeedHandler
