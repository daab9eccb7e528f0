import FeedHandler.OrderBook.Records

/-!
# An exhausted table

Once every slot is taken, an id that is not stored finds no slot and never will: no message frees one.  An Add with
such an id is dropped as a whole, and so is every later message for it (`exhausted_add_dropped`).
-/

namespace FeedHandler

namespace LimitOrderBook

variable {Depth : Nat} {TableCapacity : Pow2} {book : LimitOrderBook Depth TableCapacity} {msg : WireMessage}
  {orderId : UInt64}

/-- No slot of the table is free, and none holds the id. -/
structure ShutOut (t : OrderTable TableCapacity) (orderId : UInt64) : Prop where
  wellFormed : t.WellFormed
  full : t.storedCount = TableCapacity.val
  absent : t.find orderId = none

namespace ShutOut

/-- The condition read at the slots. -/
theorem of_slots {t : OrderTable TableCapacity} (h : t.WellFormed) (hfull : ∀ i, (t.table.get i).occupied = true)
    (hnew : ∀ i, (t.table.get i).orderId ≠ orderId) : ShutOut t orderId := by
  refine ⟨h, OrderTable.storedCount_eq_capacity.2 hfull, Option.eq_none_iff_forall_ne_some.2 fun r hr => ?_⟩
  obtain ⟨i, rfl, -, hid⟩ := h.find_iff.1 hr
  exact hnew i hid

theorem lookup_eq_none {t : OrderTable TableCapacity} (h : ShutOut t orderId) : t.lookup orderId = none := by
  have habsent := h.absent
  rwa [OrderTable.find, Option.map_eq_none_iff] at habsent

theorem insert_eq_none {t : OrderTable TableCapacity} (h : ShutOut t orderId) (side : UInt8) (price quantity : Int32)
    (ts : UInt64) : t.insert orderId side price quantity ts = none :=
  h.wellFormed.insert_none.2 ⟨h.absent, h.full⟩

/-- A message for an id that is shut out changes neither the table nor the sides. -/
theorem same (h : ShutOut book.orderTable msg.orderId) : Same book (book.processMessage msg) := by
  rcases processMessage_effect book msg with ⟨-, -, -, hsame⟩ | ⟨-, -, hsame⟩ | ⟨-, -, hsame⟩ | ⟨-, i, hs, -⟩ |
    ⟨-, i, hf, -, -⟩ | ⟨-, i, hf, -, -⟩
  · exact hsame
  · exact hsame
  · exact hsame
  · -- the probe of an Add would have stopped at a slot
    have hnone := h.insert_eq_none msg.add.side msg.add.price msg.add.quantity msg.timestampNs
    rw [OrderTable.insert_eq, hs] at hnone
    cases hnone
  · rw [h.lookup_eq_none] at hf
    cases hf
  · rw [h.lookup_eq_none] at hf
    cases hf

/-- No message makes room for the id. -/
theorem step (h : ShutOut book.orderTable orderId) (msg : WireMessage) :
    ShutOut (book.processMessage msg).orderTable orderId := by
  by_cases hid : orderId = msg.orderId
  · subst hid
    rw [h.same.orderTable]
    exact h
  · have hw := processMessage_writes h.wellFormed msg
    have hmore := hw.storedCount
    have hle := (book.processMessage msg).orderTable.storedCount_le
    have hfull := h.full
    refine ⟨hw.wellFormed, by omega, ?_⟩
    rw [hw.find, if_neg hid]
    exact h.absent

theorem foldl (h : ShutOut book.orderTable orderId) (more : List WireMessage) :
    ShutOut (more.foldl processMessage book).orderTable orderId :=
  Runs.foldl_invariant (I := fun b : LimitOrderBook Depth TableCapacity => ShutOut b.orderTable orderId)
    (fun _ m hb => hb.step m) h more

end ShutOut

/-- The Add that a table without room refuses moves the counters of `sequence` and nothing else. -/
theorem processMessage_refused (hA : msg.msgType = 'A'.toUInt8) (h : ShutOut book.orderTable msg.orderId) :
    book.processMessage msg = book.sequence msg.seqNo := by
  have hnone := h.insert_eq_none msg.add.side msg.add.price msg.add.quantity msg.timestampNs
  rw [← orderTable_sequence book msg.seqNo] at hnone
  unfold processMessage processAdd
  simp only [hA, if_true]
  rw [show msg.add.orderId = msg.orderId from rfl, show msg.add.timestampNs = msg.timestampNs from rfl, hnone]

theorem tradesExecutedCount_sequence (book : LimitOrderBook Depth TableCapacity) (seqNo : UInt64) :
    (book.sequence seqNo).tradesExecutedCount = book.tradesExecutedCount := by
  unfold sequence
  dsimp only
  split <;> rfl

theorem Same.bids_asks {book' : LimitOrderBook Depth TableCapacity} (h : Same book book') :
    book'.bids = book.bids ∧ book'.asks = book.asks := ⟨h.levels .bid, h.levels .ask⟩

/-- In a reachable book whose table is exhausted, an Add with an id that is not in the table leaves the table, the
sides and the count of trades as they are; and so does, for the table and the sides, every X or E for that id later,
whatever came between. -/
theorem exhausted_add_dropped (Depth : Nat) (TableCapacity : Pow2) (msgs : List WireMessage) (msg : WireMessage)
    (hA : msg.msgType = 'A'.toUInt8)
    (hfull : ∀ i, ((run Depth TableCapacity msgs).orderTable.table.get i).occupied = true)
    (hnew : ∀ i, ((run Depth TableCapacity msgs).orderTable.table.get i).orderId ≠ msg.orderId) :
    let book := run Depth TableCapacity msgs
    let book' := book.processMessage msg
    (book'.orderTable = book.orderTable ∧ book'.bids = book.bids ∧ book'.asks = book.asks ∧
      book'.tradesExecutedCount = book.tradesExecutedCount) ∧
    ∀ (more : List WireMessage) (late : WireMessage),
      late.msgType = 'X'.toUInt8 ∨ late.msgType = 'E'.toUInt8 → late.orderId = msg.orderId →
        let later := more.foldl processMessage book'
        (later.processMessage late).orderTable = later.orderTable ∧ (later.processMessage late).bids = later.bids ∧
          (later.processMessage late).asks = later.asks := by
  intro book book'
  have hout : ShutOut book.orderTable msg.orderId :=
    .of_slots (run_wellFormed Depth TableCapacity msgs) hfull hnew
  constructor
  · refine ⟨hout.same.orderTable, hout.same.bids_asks.1, hout.same.bids_asks.2, ?_⟩
    show (book.processMessage msg).tradesExecutedCount = _
    rw [processMessage_refused hA hout, tradesExecutedCount_sequence]
  · intro more late _ hid later
    have hlater : ShutOut later.orderTable late.orderId := by
      rw [hid]
      exact (hout.step msg).foldl more
    exact ⟨hlater.same.orderTable, hlater.same.bids_asks⟩

/-- Two orders fill a table of two slots; the third is dropped, and cancelling the first makes no room for it. -/
theorem exhausted_add_dropped_third :
    let book := run 1 ⟨2, by decide, by decide⟩
      [.ofAdd ⟨'A'.toUInt8, 1, 0, 1, 'B'.toUInt8, 100, 5⟩, .ofAdd ⟨'A'.toUInt8, 2, 0, 2, 'S'.toUInt8, 110, 5⟩]
    let book' := book.processMessage (.ofAdd ⟨'A'.toUInt8, 3, 0, 3, 'B'.toUInt8, 105, 7⟩)
    let later := [WireMessage.ofCancel ⟨'X'.toUInt8, 4, 0, 1, 0⟩,
      .ofAdd ⟨'A'.toUInt8, 5, 0, 3, 'B'.toUInt8, 105, 7⟩].foldl processMessage book'
    book'.bids = book.bids ∧ (later.processMessage (.ofExec ⟨'E'.toUInt8, 6, 0, 3, 7, 105⟩)).asks = later.asks :=
  have h := exhausted_add_dropped 1 ⟨2, by decide, by decide⟩
    [.ofAdd ⟨'A'.toUInt8, 1, 0, 1, 'B'.toUInt8, 100, 5⟩, .ofAdd ⟨'A'.toUInt8, 2, 0, 2, 'S'.toUInt8, 110, 5⟩]
    (.ofAdd ⟨'A'.toUInt8, 3, 0, 3, 'B'.toUInt8, 105, 7⟩) (by decide) (by decide) (by decide)
  ⟨h.1.2.1, (h.2 _ _ (Or.inr (by decide)) (by decide)).2.2⟩

end LimitOrderBook

end FeedHandler
