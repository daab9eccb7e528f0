import FeedHandler.OrderBook.Records
import FeedHandler.OrderBook.Sequencing

/-!
# Messages that books tell apart

Of two messages of one type, the second has the effect of the first on every book that has processed `n` messages
exactly when the sequence numbers agree and the fields that the handler reads (`sameEffect_iff`).  After no message at
all there is no order to cancel or fill, so there the fields of these two types do not matter.  The books that tell
messages apart are small: one slot in the table, and one order, added `n` times.
-/

namespace FeedHandler

open OrderTable

namespace LimitOrderBook

variable {Depth : Nat} {TableCapacity : Pow2} {book : LimitOrderBook Depth TableCapacity} {m m' : WireMessage}

/-- The fields by which some book that has processed `n` messages tells `m'` from `m`. -/
def FieldsKept (n : Nat) (m m' : WireMessage) : Prop :=
  m'.seqNo = m.seqNo ∧ (m.msgType ≠ 'A'.toUInt8 ∧ n = 0 ∨ SameFields m m')

instance (n : Nat) (m m' : WireMessage) : Decidable (FieldsKept n m m') := inferInstanceAs (Decidable (_ ∧ _))

/-! ### Fields kept, effect kept -/

/-- On a fresh book a message that is no add only counts. -/
theorem processMessage_reset_congr (hA : m.msgType ≠ 'A'.toUInt8) (htype : m'.msgType = m.msgType)
    (hseqNo : m'.seqNo = m.seqNo) :
    (reset Depth TableCapacity).processMessage m' = (reset Depth TableCapacity).processMessage m := by
  have hlookup : ∀ orderId, ((reset Depth TableCapacity).sequence m.seqNo).orderTable.lookup orderId = none := by
    intro orderId
    have hfind := find_clear TableCapacity orderId
    unfold find at hfind
    rw [Option.map_eq_none_iff] at hfind
    have htable : ((reset Depth TableCapacity).sequence m.seqNo).orderTable = OrderTable.clear TableCapacity := by
      unfold sequence
      dsimp only
      split <;> rfl
    rw [htable]
    exact hfind
  unfold processMessage
  rw [htype, hseqNo]
  dsimp only
  rw [if_neg hA, if_neg hA]
  split
  · simp only [processCancel, hlookup]
  · split
    · simp only [processExecute, hlookup]
    · rfl

/-- Messages that agree in the fields kept have the same effect. -/
theorem FieldsKept.run_eq {msgs : List WireMessage} (h : FieldsKept msgs.length m m') (htype : m'.msgType = m.msgType)
    (Depth : Nat) (TableCapacity : Pow2) :
    run Depth TableCapacity (msgs ++ [m']) = run Depth TableCapacity (msgs ++ [m]) := by
  rw [run_append_singleton, run_append_singleton]
  obtain ⟨hseqNo, ⟨hA, hlen⟩ | hfields⟩ := h
  · rw [List.length_eq_zero_iff] at hlen
    rw [hlen]
    exact processMessage_reset_congr hA htype hseqNo
  · exact processMessage_congr _ htype hseqNo hfields

/-! ### Effect kept, fields kept -/

/-- Two messages with the same effect write the same record, if it was not there before. -/
theorem written_of_eq (hwf : book.orderTable.WellFormed) (h : book.processMessage m' = book.processMessage m)
    {r : OrderRecord} (hr : written book.orderTable m = some r) (hnew : book.orderTable.find m.orderId ≠ some r) :
    m'.orderId = m.orderId ∧ written book.orderTable m' = some r := by
  have hfind := (processMessage_writes hwf m).find m.orderId
  have hfind' := (processMessage_writes hwf m').find m.orderId
  rw [if_pos rfl, hr, Option.some_or] at hfind
  rw [h, hfind] at hfind'
  split at hfind'
  · rename_i hid
    cases hw : written book.orderTable m' with
    | none =>
      rw [hw, Option.none_or] at hfind'
      exact absurd hfind'.symm hnew
    | some r' =>
      rw [hw, Option.some_or] at hfind'
      exact ⟨hid.symm, hfind'.symm⟩
  · exact absurd hfind'.symm hnew

theorem seqNo_of_eq (hexpected : 0 < book.expectedSeqNo) (h : book.processMessage m' = book.processMessage m) :
    m'.seqNo = m.seqNo := by
  have hnext := (book.sameHeader_processMessage m).expectedSeqNo
  have hnext' := (book.sameHeader_processMessage m').expectedSeqNo
  rw [expectedSeqNo_sequence hexpected] at hnext hnext'
  rw [h, hnext] at hnext'
  exact ((UInt64.add_left_inj 1).1 hnext').symm

/-- An add that the book takes and does not know yet. -/
theorem add_of_eq (hwf : book.orderTable.WellFormed) (htype : m'.msgType = m.msgType)
    (hA : m.msgType = 'A'.toUInt8) (hexpected : 0 < book.expectedSeqNo)
    (h : book.processMessage m' = book.processMessage m)
    (hroom : book.orderTable.insert m.orderId m.add.side m.add.price m.add.quantity m.timestampNs ≠ none)
    (hnew : book.orderTable.find m.orderId ≠
      some (record m.orderId m.add.side m.add.price m.add.quantity m.timestampNs)) : m'.add = m.add := by
  obtain ⟨x, hx⟩ := Option.ne_none_iff_exists'.1 hroom
  have hw : written book.orderTable m =
      some (record m.orderId m.add.side m.add.price m.add.quantity m.timestampNs) := by
    rw [written, if_pos hA, hx]
    rfl
  obtain ⟨horderId, hw'⟩ := written_of_eq hwf h hw hnew
  rw [written, if_pos (htype.trans hA), Option.map_eq_some_iff] at hw'
  obtain ⟨-, -, hrecord⟩ := hw'
  have hside : m'.add.side = m.add.side := congrArg OrderRecord.side hrecord
  have hprice : m'.add.price = m.add.price := congrArg OrderRecord.price hrecord
  have hquantity : m'.add.quantity = m.add.quantity := congrArg OrderRecord.quantity hrecord
  have htimestamp : m'.timestampNs = m.timestampNs := congrArg OrderRecord.timestamp hrecord
  have hseqNo : m'.add.seqNo = m.add.seqNo := seqNo_of_eq hexpected h
  show AddOrderMsg.mk .. = AddOrderMsg.mk ..
  rw [AddOrderMsg.mk.injEq]
  exact ⟨htype, hseqNo, htimestamp, horderId, hside, hprice, hquantity⟩

/-- A cancel of a live order that changes its quantity. -/
theorem cancel_of_eq (hwf : book.orderTable.WellFormed) (htype : m'.msgType = m.msgType)
    (hX : m.msgType = 'X'.toUInt8) (h : book.processMessage m' = book.processMessage m) {r : OrderRecord}
    (hlive : book.orderTable.liveOrder m.orderId = some r) (hnew : m.cancel.quantity ≠ r.quantity) :
    m'.orderId = m.orderId ∧ m'.cancel.quantity = m.cancel.quantity := by
  have hA : m.msgType ≠ 'A'.toUInt8 := by
    rw [hX]
    decide
  have hfind : book.orderTable.find m.orderId = some r := (Option.filter_eq_some_iff.1 hlive).1
  have hw : written book.orderTable m = some (r.reduce m.cancel.quantity (m.cancel.quantity ≤ 0)) := by
    rw [written, if_neg hA, if_pos hX, hlive]
    rfl
  obtain ⟨horderId, hw'⟩ := written_of_eq hwf h hw (by
    rw [hfind]
    intro heq
    exact hnew (congrArg OrderRecord.quantity (Option.some.inj heq)).symm)
  rw [written, htype, if_neg hA, if_pos hX, horderId, hlive, Option.map_some] at hw'
  exact ⟨horderId, congrArg OrderRecord.quantity (Option.some.inj hw')⟩

/-- A fill of an order with the greatest quantity leaves the difference. -/
theorem newQty_maxValue {r : OrderRecord} (hmax : r.quantity = Int32.maxValue) (execQuantity : Int32) :
    r.newQty execQuantity = Int32.maxValue - execQuantity := by
  unfold OrderRecord.newQty
  rw [hmax]
  split
  · rfl
  · rename_i hle
    have hmax' : execQuantity = Int32.maxValue := by
      rw [gt_iff_lt, Int32.not_lt] at hle
      exact Int32.le_antisymm (Int32.le_iff_toInt_le.2 execQuantity.toInt_le) hle
    rw [hmax', Int32.sub_self]

/-- A fill of a live order with the greatest quantity. -/
theorem exec_of_eq (hwf : book.orderTable.WellFormed) (htype : m'.msgType = m.msgType)
    (hE : m.msgType = 'E'.toUInt8) (h : book.processMessage m' = book.processMessage m) {r : OrderRecord}
    (hlive : book.orderTable.liveOrder m.orderId = some r) (hmax : r.quantity = Int32.maxValue)
    (hpos : 0 < m.exec.execQuantity) :
    m'.orderId = m.orderId ∧ m'.exec.execQuantity = m.exec.execQuantity := by
  have hA : m.msgType ≠ 'A'.toUInt8 := by
    rw [hE]
    decide
  have hX : m.msgType ≠ 'X'.toUInt8 := by
    rw [hE]
    decide
  have hfind : book.orderTable.find m.orderId = some r := (Option.filter_eq_some_iff.1 hlive).1
  have hw : written book.orderTable m =
      some (r.reduce (r.newQty m.exec.execQuantity) (r.newQty m.exec.execQuantity = 0)) := by
    rw [written, if_neg hA, if_neg hX, if_pos hE, hlive]
    rfl
  have hnewQty := newQty_maxValue hmax
  obtain ⟨horderId, hw'⟩ := written_of_eq hwf h hw (by
    rw [hfind]
    intro heq
    have hquantity : r.quantity = r.newQty m.exec.execQuantity := congrArg OrderRecord.quantity (Option.some.inj heq)
    rw [hnewQty, hmax] at hquantity
    have hzero : m.exec.execQuantity = 0 := by
      rw [← Int32.sub_right_inj Int32.maxValue, Int32.sub_zero]
      exact hquantity.symm
    rw [hzero] at hpos
    exact absurd hpos (by decide))
  rw [written, htype, if_neg hA, if_neg hX, if_pos hE, horderId, hlive, Option.map_some] at hw'
  have hquantity : r.newQty m'.exec.execQuantity = r.newQty m.exec.execQuantity :=
    congrArg OrderRecord.quantity (Option.some.inj hw')
  rw [hnewQty, hnewQty] at hquantity
  exact ⟨horderId, (Int32.sub_right_inj _).1 hquantity⟩

/-! ### Books with one order -/

/-- A table with one slot. -/
def oneSlot : Pow2 where
  val := 1
  staticAssert := by decide
  size_t := by decide

/-- A book with one slot that no order but `a` was added to. -/
structure OnlyAdded (a : AddOrderMsg) (book : LimitOrderBook 1 oneSlot) : Prop where
  wellFormed : book.orderTable.WellFormed
  expectedSeqNo : book.expectedSeqNo = 1
  room : book.orderTable.find a.orderId = none → book.orderTable.storedCount = 0

theorem onlyAdded_reset (a : AddOrderMsg) : OnlyAdded a (reset 1 oneSlot) where
  wellFormed := wellFormed_clear oneSlot
  expectedSeqNo := rfl
  room _ := storedCount_clear oneSlot

variable {a : AddOrderMsg} {book : LimitOrderBook 1 oneSlot}

theorem OnlyAdded.insert_ne_none (h : OnlyAdded a book) (side : UInt8) (price quantity : Int32) (ts : UInt64) :
    book.orderTable.insert a.orderId side price quantity ts ≠ none := by
  intro hnone
  obtain ⟨hfind, hfull⟩ := h.wellFormed.insert_none.1 hnone
  rw [h.room hfind] at hfull
  cases hfull

/-- Adding the order once more binds its id to its record. -/
theorem OnlyAdded.find (h : OnlyAdded a book) (hA : a.msgType = 'A'.toUInt8) :
    (book.processMessage (.ofAdd a)).orderTable.find a.orderId =
      some (record a.orderId a.side a.price a.quantity a.timestampNs) := by
  obtain ⟨x, hx⟩ := Option.ne_none_iff_exists'.1 (h.insert_ne_none a.side a.price a.quantity a.timestampNs)
  have horderId : (WireMessage.ofAdd a).orderId = a.orderId := by simp [WireMessage.orderId]
  have htimestamp : (WireMessage.ofAdd a).timestampNs = a.timestampNs := by simp [WireMessage.timestampNs]
  have hw : written book.orderTable (.ofAdd a) =
      some (record a.orderId a.side a.price a.quantity a.timestampNs) := by
    have hA' : (WireMessage.ofAdd a).msgType = 'A'.toUInt8 := hA
    rw [written, if_pos hA', WireMessage.add_ofAdd, horderId, htimestamp, hx]
    rfl
  have hfind := (processMessage_writes h.wellFormed (.ofAdd a)).find a.orderId
  rw [hfind, if_pos horderId.symm, hw, Option.some_or]

theorem OnlyAdded.step (h : OnlyAdded a book) (hA : a.msgType = 'A'.toUInt8) (hseqNo : a.seqNo = 0) :
    OnlyAdded a (book.processMessage (.ofAdd a)) where
  wellFormed := (processMessage_writes h.wellFormed _).wellFormed
  expectedSeqNo := by
    have hseqNo' : (WireMessage.ofAdd a).seqNo = 0 := by simp [WireMessage.seqNo, hseqNo]
    rw [(book.sameHeader_processMessage _).expectedSeqNo, expectedSeqNo_sequence, hseqNo']
    · rfl
    · rw [h.expectedSeqNo]
      decide
  room hnone := by
    rw [h.find hA] at hnone
    cases hnone

theorem onlyAdded_run (hA : a.msgType = 'A'.toUInt8) (hseqNo : a.seqNo = 0) (n : Nat) :
    OnlyAdded a (run 1 oneSlot (List.replicate n (.ofAdd a))) := by
  induction n with
  | zero => exact onlyAdded_reset a
  | succ n ih =>
    rw [List.replicate_succ', run_append_singleton]
    exact ih.step hA hseqNo

/-- The order that precedes `m` in the books that tell it from others. -/
def preceding (m : WireMessage) (quantity : Int32) : AddOrderMsg :=
  ⟨'A'.toUInt8, 0, 0, m.orderId, 'B'.toUInt8, 1, quantity⟩

theorem liveOrder_run (m : WireMessage) (quantity : Int32) {n : Nat} (hn : n ≠ 0) :
    (run 1 oneSlot (List.replicate n (.ofAdd (preceding m quantity)))).orderTable.liveOrder m.orderId =
      some (record m.orderId 'B'.toUInt8 1 quantity 0) := by
  obtain ⟨n, rfl⟩ := Nat.exists_eq_succ_of_ne_zero hn
  have hfind := (onlyAdded_run (a := preceding m quantity) rfl rfl n).find rfl
  rw [List.replicate_succ', run_append_singleton]
  unfold OrderTable.liveOrder
  exact Option.filter_eq_some_iff.2 ⟨hfind, rfl⟩

/-- A small positive quantity other than a given one. -/
def otherQuantity (quantity : Int32) : Int32 := if quantity = 1 then 2 else 1

theorem otherQuantity_ne (quantity : Int32) : quantity ≠ otherQuantity quantity := by
  unfold otherQuantity
  split
  · rename_i h
    rw [h]
    decide
  · assumption

/-- Messages that no such book tells apart agree in the fields kept. -/
theorem fieldsKept_of_run_eq {m m' : WireMessage} {n : Nat} (hvalid : m.isValid = true)
    (htype : m'.msgType = m.msgType)
    (h : ∀ quantity, run 1 oneSlot (List.replicate n (.ofAdd (preceding m quantity)) ++ [m']) =
      run 1 oneSlot (List.replicate n (.ofAdd (preceding m quantity)) ++ [m])) : FieldsKept n m m' := by
  have hall : ∀ quantity, OnlyAdded (preceding m quantity)
      (run 1 oneSlot (List.replicate n (.ofAdd (preceding m quantity)))) := fun quantity => onlyAdded_run rfl rfl n
  have hexpected : ∀ quantity,
      0 < (run 1 oneSlot (List.replicate n (.ofAdd (preceding m quantity)))).expectedSeqNo := by
    intro quantity
    rw [(hall quantity).expectedSeqNo]
    decide
  simp only [run_append_singleton] at h
  refine ⟨seqNo_of_eq (hexpected 1) (h 1), ?_⟩
  unfold SameFields
  by_cases hA : m.msgType = 'A'.toUInt8
  · right
    rw [if_pos hA]
    refine add_of_eq (hall _).wellFormed htype hA (hexpected _) (h (otherQuantity m.add.quantity))
      ((hall _).insert_ne_none _ _ _ _) fun hfind => ?_
    by_cases hn : n = 0
    · subst hn
      have hclear : OrderTable.find (OrderTable.clear oneSlot) m.orderId = none := find_clear oneSlot m.orderId
      cases hclear.symm.trans hfind
    · have hlive := liveOrder_run m (otherQuantity m.add.quantity) hn
      rw [OrderTable.liveOrder, hfind] at hlive
      have hrecord := (Option.filter_eq_some_iff.1 hlive).1
      exact otherQuantity_ne _ (congrArg OrderRecord.quantity (Option.some.inj hrecord))
  · by_cases hn : n = 0
    · exact Or.inl ⟨hA, hn⟩
    · right
      rw [if_neg hA]
      by_cases hX : m.msgType = 'X'.toUInt8
      · rw [if_pos hX]
        exact cancel_of_eq (hall _).wellFormed htype hX (h _) (liveOrder_run m _ hn) (otherQuantity_ne _)
      · rw [if_neg hX]
        have hE : m.msgType = 'E'.toUInt8 := by
          by_contra hE
          simp [WireMessage.isValid, hA, hX, hE] at hvalid
        exact exec_of_eq (hall _).wellFormed htype hE (h _) (liveOrder_run m Int32.maxValue hn) rfl
          (WireMessage.isValid_exec hvalid hE).1

end LimitOrderBook

end FeedHandler
