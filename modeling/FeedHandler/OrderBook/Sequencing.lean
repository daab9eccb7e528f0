import FeedHandler.OrderBook.Basic

/-!
# What a book reads of a message

The counters `totalMessagesProcessed`, `expectedSeqNo` and `sequenceGapsDetected` follow the sequence numbers of the
messages, whatever the handlers do (`sameHeader_processMessage`), and the handlers read none of them
(`SameContents.processMessage`).  Two messages of one type that agree in the fields their handler reads have the same
effect on every book (`processMessage_congr`).
-/

namespace FeedHandler

namespace LimitOrderBook

variable {Depth : Nat} {TableCapacity : Pow2}

theorem run_append_singleton (Depth : Nat) (TableCapacity : Pow2) (msgs : List WireMessage) (m : WireMessage) :
    run Depth TableCapacity (msgs ++ [m]) = (run Depth TableCapacity msgs).processMessage m := by
  unfold run
  rw [List.foldl_append]
  rfl

/-- The counters that only `sequence` moves are the same. -/
structure SameHeader (book book' : LimitOrderBook Depth TableCapacity) : Prop where
  totalMessagesProcessed : book'.totalMessagesProcessed = book.totalMessagesProcessed
  expectedSeqNo : book'.expectedSeqNo = book.expectedSeqNo
  sequenceGapsDetected : book'.sequenceGapsDetected = book.sequenceGapsDetected

theorem sameHeader_applySide (book : LimitOrderBook Depth TableCapacity) (side : UInt8)
    (price qtyDelta orderDelta : Int32) : SameHeader book (book.applySide side price qtyDelta orderDelta) := by
  unfold applySide
  split <;> exact ⟨rfl, rfl, rfl⟩

theorem sameHeader_processAdd (book : LimitOrderBook Depth TableCapacity) (msg : AddOrderMsg) :
    SameHeader book (book.processAdd msg) := by
  unfold processAdd
  split
  · exact ⟨rfl, rfl, rfl⟩
  · rename_i orderTable _
    obtain ⟨htotal, hexpected, hgaps⟩ := sameHeader_applySide { book with orderTable } msg.side msg.price msg.quantity 1
    exact ⟨htotal, hexpected, hgaps⟩

theorem sameHeader_processCancel (book : LimitOrderBook Depth TableCapacity) (msg : CancelOrderMsg) :
    SameHeader book (book.processCancel msg) := by
  unfold processCancel
  split
  · exact ⟨rfl, rfl, rfl⟩
  · dsimp only
    split
    · exact ⟨rfl, rfl, rfl⟩
    · obtain ⟨htotal, hexpected, hgaps⟩ := book.sameHeader_applySide _ _ _ _
      exact ⟨htotal, hexpected, hgaps⟩

theorem sameHeader_processExecute (book : LimitOrderBook Depth TableCapacity) (msg : ExecuteOrderMsg) :
    SameHeader book (book.processExecute msg) := by
  unfold processExecute
  dsimp only
  split
  · exact ⟨rfl, rfl, rfl⟩
  · split
    · exact ⟨rfl, rfl, rfl⟩
    · obtain ⟨htotal, hexpected, hgaps⟩ := sameHeader_applySide
        { book with tradesExecutedCount := book.tradesExecutedCount + 1 } _ _ _ _
      exact ⟨htotal, hexpected, hgaps⟩

/-- The handlers leave the counters of the header as `sequence` set them. -/
theorem sameHeader_processMessage (book : LimitOrderBook Depth TableCapacity) (msg : WireMessage) :
    SameHeader (book.sequence msg.seqNo) (book.processMessage msg) := by
  unfold processMessage
  dsimp only
  split
  · exact sameHeader_processAdd ..
  · split
    · exact sameHeader_processCancel ..
    · split
      · exact sameHeader_processExecute ..
      · exact ⟨rfl, rfl, rfl⟩

theorem totalMessagesProcessed_sequence (book : LimitOrderBook Depth TableCapacity) (seqNo : UInt64) :
    (book.sequence seqNo).totalMessagesProcessed = book.totalMessagesProcessed + 1 := by
  unfold sequence
  dsimp only
  split <;> rfl

/-- A book that expects a sequence number expects the next one then, whichever came. -/
theorem expectedSeqNo_sequence {book : LimitOrderBook Depth TableCapacity} (h : 0 < book.expectedSeqNo)
    (seqNo : UInt64) : (book.sequence seqNo).expectedSeqNo = seqNo + 1 := by
  unfold sequence
  by_cases hseq : seqNo = book.expectedSeqNo
  · simp [hseq]
  · simp [h, hseq]

/-- A book that is fed consecutive numbers, from the one it expects on, detects no gap. -/
theorem foldl_sequenceGapsDetected {msgs : List WireMessage} (book : LimitOrderBook Depth TableCapacity) {k n : Nat}
    (hexpected : book.expectedSeqNo = UInt64.ofNat k)
    (hmsgs : msgs.map (·.seqNo) = (List.range' k n).map UInt64.ofNat) :
    (msgs.foldl processMessage book).sequenceGapsDetected = book.sequenceGapsDetected := by
  induction msgs generalizing book k n with
  | nil => rfl
  | cons msg msgs ih =>
    cases n with
    | zero => cases hmsgs
    | succ n =>
      rw [List.map_cons, List.range'_succ, List.map_cons] at hmsgs
      obtain ⟨hmsg, hmsgs⟩ := List.cons.inj hmsgs
      have hsequence : book.sequence msg.seqNo =
          { book with
            totalMessagesProcessed := book.totalMessagesProcessed + 1
            expectedSeqNo := book.expectedSeqNo + 1 } := by
        unfold sequence
        simp [hmsg, hexpected]
      have hheader := book.sameHeader_processMessage msg
      rw [hsequence] at hheader
      rw [List.foldl_cons, ih (book.processMessage msg) (k := k + 1) _ hmsgs]
      · exact hheader.sequenceGapsDetected
      · rw [hheader.expectedSeqNo, UInt64.ofNat_add, ← hexpected]
        rfl

theorem totalMessagesProcessed_foldl (book : LimitOrderBook Depth TableCapacity) (msgs : List WireMessage) :
    (msgs.foldl processMessage book).totalMessagesProcessed =
      book.totalMessagesProcessed + UInt64.ofNat msgs.length := by
  induction msgs generalizing book with
  | nil => simp
  | cons msg msgs ih =>
    have hheader := book.sameHeader_processMessage msg
    rw [List.foldl_cons, ih, hheader.totalMessagesProcessed, totalMessagesProcessed_sequence, List.length_cons,
      UInt64.ofNat_add, UInt64.add_assoc, UInt64.add_comm 1]
    rfl

/-- The book counts its messages. -/
theorem totalMessagesProcessed_run (Depth : Nat) (TableCapacity : Pow2) (msgs : List WireMessage) :
    (run Depth TableCapacity msgs).totalMessagesProcessed = UInt64.ofNat msgs.length := by
  unfold run
  rw [totalMessagesProcessed_foldl]
  exact UInt64.zero_add _

/-! ### The contents of a book -/

/-- Two books agree in what the handlers read and write. -/
structure SameContents (book book' : LimitOrderBook Depth TableCapacity) : Prop where
  orderTable : book'.orderTable = book.orderTable
  bids : book'.bids = book.bids
  asks : book'.asks = book.asks
  tradesExecutedCount : book'.tradesExecutedCount = book.tradesExecutedCount

namespace SameContents

variable {book book' : LimitOrderBook Depth TableCapacity}

theorem refl (book : LimitOrderBook Depth TableCapacity) : SameContents book book := ⟨rfl, rfl, rfl, rfl⟩

theorem trans {book'' : LimitOrderBook Depth TableCapacity} (h : SameContents book book')
    (h' : SameContents book' book'') : SameContents book book'' where
  orderTable := h'.orderTable.trans h.orderTable
  bids := h'.bids.trans h.bids
  asks := h'.asks.trans h.asks
  tradesExecutedCount := h'.tradesExecutedCount.trans h.tradesExecutedCount

theorem sequence (book : LimitOrderBook Depth TableCapacity) (seqNo : UInt64) :
    SameContents book (book.sequence seqNo) := by
  unfold LimitOrderBook.sequence
  dsimp only
  split <;> exact ⟨rfl, rfl, rfl, rfl⟩

theorem applySide (h : SameContents book book') (side : UInt8) (price qtyDelta orderDelta : Int32) :
    SameContents (book.applySide side price qtyDelta orderDelta) (book'.applySide side price qtyDelta orderDelta) := by
  unfold LimitOrderBook.applySide
  by_cases hside : side = 'B'.toUInt8
  · rw [if_pos hside, if_pos hside]
    exact ⟨h.orderTable, by rw [h.bids], h.asks, h.tradesExecutedCount⟩
  · rw [if_neg hside, if_neg hside]
    exact ⟨h.orderTable, h.bids, by rw [h.asks], h.tradesExecutedCount⟩

theorem withTable (h : SameContents book book') (orderTable : OrderTable TableCapacity) :
    SameContents { book with orderTable } { book' with orderTable } :=
  ⟨rfl, h.bids, h.asks, h.tradesExecutedCount⟩

theorem processAdd (h : SameContents book book') (msg : AddOrderMsg) :
    SameContents (book.processAdd msg) (book'.processAdd msg) := by
  unfold LimitOrderBook.processAdd
  rw [h.orderTable]
  cases book.orderTable.insert msg.orderId msg.side msg.price msg.quantity msg.timestampNs with
  | none => exact h
  | some inserted => exact (h.withTable inserted.2).applySide ..

theorem processCancel (h : SameContents book book') (msg : CancelOrderMsg) :
    SameContents (book.processCancel msg) (book'.processCancel msg) := by
  unfold LimitOrderBook.processCancel
  rw [h.orderTable]
  cases book.orderTable.lookup msg.orderId with
  | none => exact h
  | some idx =>
    dsimp only
    by_cases hdead : (book.orderTable.table.get idx).cancelled = true
    · rw [if_pos hdead, if_pos hdead]
      exact h
    · rw [if_neg hdead, if_neg hdead]
      have happly := h.applySide (book.orderTable.table.get idx).side (book.orderTable.table.get idx).price
        (msg.quantity - (book.orderTable.table.get idx).quantity) (if msg.quantity ≤ 0 then -1 else 0)
      rw [happly.orderTable]
      exact happly.withTable _

theorem processExecute (h : SameContents book book') (msg : ExecuteOrderMsg) :
    SameContents (book.processExecute msg) (book'.processExecute msg) := by
  have hcount : SameContents { book with tradesExecutedCount := book.tradesExecutedCount + 1 }
      { book' with orderTable := book.orderTable, tradesExecutedCount := book'.tradesExecutedCount + 1 } :=
    ⟨rfl, h.bids, h.asks, by rw [h.tradesExecutedCount]⟩
  unfold LimitOrderBook.processExecute
  dsimp only
  rw [h.orderTable]
  cases book.orderTable.lookup msg.orderId with
  | none => exact hcount
  | some idx =>
    dsimp only
    by_cases hdead : (book.orderTable.table.get idx).cancelled = true
    · rw [if_pos hdead, if_pos hdead]
      exact hcount
    · rw [if_neg hdead, if_neg hdead]
      have happly := hcount.applySide (book.orderTable.table.get idx).side (book.orderTable.table.get idx).price
        (-msg.execQuantity)
        (if (if (book.orderTable.table.get idx).quantity > msg.execQuantity then
          (book.orderTable.table.get idx).quantity - msg.execQuantity else 0) = 0 then -1 else 0)
      rw [happly.orderTable]
      exact happly.withTable _

/-- One message, whatever the counters are. -/
theorem processMessage (h : SameContents book book') (msg : WireMessage) :
    SameContents (book.processMessage msg) (book'.processMessage msg) := by
  have hsequence : SameContents (book.sequence msg.seqNo) (book'.sequence msg.seqNo) := by
    have hleft := sequence book msg.seqNo
    have hright := h.trans (sequence book' msg.seqNo)
    exact ⟨hright.orderTable.trans hleft.orderTable.symm, hright.bids.trans hleft.bids.symm,
      hright.asks.trans hleft.asks.symm, hright.tradesExecutedCount.trans hleft.tradesExecutedCount.symm⟩
  unfold LimitOrderBook.processMessage
  dsimp only
  split
  · exact hsequence.processAdd msg.add
  · split
    · exact hsequence.processCancel msg.cancel
    · split
      · exact hsequence.processExecute msg.exec
      · exact hsequence

/-- A message of an unknown type. -/
theorem processMessage_unknown (book : LimitOrderBook Depth TableCapacity) {msg : WireMessage}
    (hA : msg.msgType ≠ 'A'.toUInt8) (hX : msg.msgType ≠ 'X'.toUInt8) (hE : msg.msgType ≠ 'E'.toUInt8) :
    SameContents book (book.processMessage msg) := by
  unfold LimitOrderBook.processMessage
  dsimp only
  rw [if_neg hA, if_neg hX, if_neg hE]
  exact sequence book msg.seqNo

end SameContents

/-! ### The fields of a message -/

/-- The handler of the type reads the same: all of an add, order and quantity of a cancel or a fill. -/
def SameFields (m m' : WireMessage) : Prop :=
  if m.msgType = 'A'.toUInt8 then
    m'.add = m.add
  else if m.msgType = 'X'.toUInt8 then
    m'.orderId = m.orderId ∧ m'.cancel.quantity = m.cancel.quantity
  else
    m'.orderId = m.orderId ∧ m'.exec.execQuantity = m.exec.execQuantity

instance (m m' : WireMessage) : Decidable (SameFields m m') := by
  unfold SameFields
  infer_instance

theorem processCancel_congr (book : LimitOrderBook Depth TableCapacity) {msg msg' : CancelOrderMsg}
    (horderId : msg'.orderId = msg.orderId) (hquantity : msg'.quantity = msg.quantity) :
    book.processCancel msg' = book.processCancel msg := by
  unfold processCancel
  rw [horderId, hquantity]

theorem processExecute_congr (book : LimitOrderBook Depth TableCapacity) {msg msg' : ExecuteOrderMsg}
    (horderId : msg'.orderId = msg.orderId) (hexecQuantity : msg'.execQuantity = msg.execQuantity) :
    book.processExecute msg' = book.processExecute msg := by
  unfold processExecute
  rw [horderId, hexecQuantity]

/-- Messages that agree in the fields read have the same effect. -/
theorem processMessage_congr (book : LimitOrderBook Depth TableCapacity) {m m' : WireMessage}
    (htype : m'.msgType = m.msgType) (hseqNo : m'.seqNo = m.seqNo) (hfields : SameFields m m') :
    book.processMessage m' = book.processMessage m := by
  unfold SameFields at hfields
  unfold processMessage
  rw [htype, hseqNo]
  dsimp only
  split
  · rename_i hA
    rw [if_pos hA] at hfields
    rw [hfields]
  · rename_i hA
    rw [if_neg hA] at hfields
    split
    · rename_i hX
      rw [if_pos hX] at hfields
      exact processCancel_congr _ hfields.1 hfields.2
    · rename_i hX
      rw [if_neg hX] at hfields
      split
      · exact processExecute_congr _ hfields.1 hfields.2
      · rfl

end LimitOrderBook

end FeedHandler
