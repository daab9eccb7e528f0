import FeedHandler.OrderBook.Basic
import FeedHandler.ParserValidator.UserLine
import FeedHandler.StreamServer.Tape
import FeedHandler.Workload.Orderly

/-!
# The messages of the stream server (`stream_server.cpp`)

A message gets into the ring in one of three ways: a line of text was parsed, the burst generator made it, or the
command thread answered `CROSS` (`Produced`).  Each of them is an Add, an X or an E (`Produced.cases`), so the packets
that the consumer records have only a few letters as their type and side (`Produced.lettered`).
-/

namespace FeedHandler

open WireParserValidator

namespace StreamServer

variable {Depth : Nat} {TableCapacity : Pow2}

/-- The crossed user order that `CROSS` injects, for the book as it is then. -/
def crossOrder (orderBook : LimitOrderBook Depth TableCapacity) (seqNo nowNs : UInt64) : WireMessage :=
  .ofAdd {
    msgType := 'A'.toUInt8
    seqNo
    timestampNs := nowNs
    orderId := 9999999
    side := 'B'.toUInt8
    price := if orderBook.hasAsks then orderBook.bestAskPrice else 10000
    quantity := 500 }

/-- A message that a thread of the engine hands to `pushWireMessage`. -/
inductive Produced (hundredths : List Char → Int64) : WireMessage → Prop where
  /-- a line of a file or of the input, which `parseUserLine` accepts -/
  | line {text : List Char} {seqNo nowNs : UInt64} {m : WireMessage}
      (h : parseUserLine hundredths text seqNo nowNs = some m) : Produced hundredths m
  /-- a round of the burst generator -/
  | burst (r : Round) (activeOrders : List UInt64) (orderId seqNo : UInt64) :
      Produced hundredths (r.generate .burst activeOrders orderId seqNo).1
  | cross {Depth : Nat} {TableCapacity : Pow2} (orderBook : LimitOrderBook Depth TableCapacity)
      (seqNo nowNs : UInt64) : Produced hundredths (crossOrder orderBook seqNo nowNs)

/-- The letters of a packet that the consumer records for an Add, an X or an E. -/
def PacketRecord.Lettered (p : PacketRecord) : Prop :=
  p.type ∈ ['A'.toUInt8, 'X'.toUInt8, 'E'.toUInt8] ∧ p.side ∈ ['B'.toUInt8, 'S'.toUInt8, 'X'.toUInt8, 'E'.toUInt8]

variable {hundredths : List Char → Int64} {m : WireMessage}

/-- An Add has one of the two sides; every other message is an X or an E. -/
theorem Produced.cases (h : Produced hundredths m) :
    m.msgType = 'A'.toUInt8 ∧ (m.add.side = 'B'.toUInt8 ∨ m.add.side = 'S'.toUInt8) ∨
      m.msgType = 'X'.toUInt8 ∨ m.msgType = 'E'.toUInt8 := by
  cases h with
  | line h =>
    obtain ⟨cols, -, hmessage⟩ := parseUserLine_eq_some.1 h
    cases cols with
    | add orderId side price qty =>
      obtain ⟨⟨hside, -⟩, rfl⟩ := message_add.1 hmessage
      refine Or.inl ⟨WireMessage.msgType_ofAdd _, ?_⟩
      rw [WireMessage.add_ofAdd]
      exact hside.imp (congrArg Char.toUInt8) (congrArg Char.toUInt8)
    | cancel orderId newQty =>
      obtain rfl := message_cancel.1 hmessage
      exact Or.inr (Or.inl (WireMessage.msgType_ofCancel _))
    | execute orderId matchPrice execQty =>
      obtain ⟨-, rfl⟩ := message_execute.1 hmessage
      exact Or.inr (Or.inr (WireMessage.msgType_ofExec _))
  | burst r activeOrders orderId seqNo =>
    unfold Round.generate
    split
    · refine Or.inl ⟨r.msgType_addMessage .., ?_⟩
      rw [Round.addMessage, WireMessage.add_ofAdd]
      exact r.addSide_cases
    · dsimp only
      split
      · exact Or.inr (Or.inl (r.msgType_cancelMessage ..))
      · exact Or.inr (Or.inr (r.msgType_execMessage ..))
  | cross orderBook seqNo nowNs =>
    refine Or.inl ⟨WireMessage.msgType_ofAdd _, Or.inl ?_⟩
    rw [crossOrder, WireMessage.add_ofAdd]

theorem Produced.lettered (h : Produced hundredths m) : (PacketRecord.ofMessage m).Lettered := by
  unfold PacketRecord.ofMessage
  dsimp only
  obtain ⟨hA, hside⟩ | hX | hE := h.cases
  · rw [if_pos hA]
    exact ⟨by simp [hA], by rcases hside with hside | hside <;> simp [hside]⟩
  · have hA : m.msgType ≠ 'A'.toUInt8 := by rw [hX]; decide
    rw [if_neg hA, if_pos hX]
    exact ⟨by simp [hX], by simp⟩
  · have hA : m.msgType ≠ 'A'.toUInt8 := by rw [hE]; decide
    have hX : m.msgType ≠ 'X'.toUInt8 := by rw [hE]; decide
    rw [if_neg hA, if_neg hX, if_pos hE]
    exact ⟨by simp [hE], by simp⟩

/-- The packets since the last `RESET` are those of messages processed. -/
theorem Tape.mem_sinceReset {steps : List TapeStep} {p : PacketRecord} (hp : p ∈ sinceReset steps) :
    ∃ msg, .process msg ∈ steps ∧ p = .ofMessage msg := by
  induction steps using List.reverseRecOn with
  | nil => cases hp
  | append_singleton steps a ih =>
    unfold sinceReset at hp ih
    rw [List.foldl_append] at hp
    cases a with
    | process msg =>
      rcases List.mem_cons.1 hp with rfl | hp
      · exact ⟨msg, List.mem_append_right _ (List.mem_singleton_self _), rfl⟩
      · obtain ⟨msg', hmem, he⟩ := ih hp
        exact ⟨msg', List.mem_append_left _ hmem, he⟩
    | reset => cases hp

/-- The packets that a snapshot lists. -/
theorem Tape.lettered_snapshot {steps : List TapeStep} (h : ∀ msg, .process msg ∈ steps → Produced hundredths msg) :
    ∀ p ∈ (run steps).snapshot, p.Lettered := by
  intro p hp
  rw [snapshot_eq, (follows_run steps).recent_eq] at hp
  obtain ⟨msg, hmem, rfl⟩ := mem_sinceReset (List.mem_of_mem_take hp)
  exact (h msg hmem).lettered

end StreamServer

end FeedHandler
