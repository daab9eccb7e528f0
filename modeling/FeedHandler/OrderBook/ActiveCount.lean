import FeedHandler.Foundation.RingIndex
import FeedHandler.OrderBook.Capacity

/-!
# The count of active orders

The table's own `insert` and `erase` keep `size()` at the number of its live records.  The book does
not call `erase`: `processCancel` and `processExecute` set the `cancelled` flag of the record themselves and leave
the counter as it is.  So `size()` is the number of live orders until the first order is cancelled or filled
(`counts_live_iff`).
-/

namespace FeedHandler

namespace OrderTable

variable {Capacity : Pow2} {t t' : OrderTable Capacity} {i : Fin Capacity.val} {r : OrderRecord}

theorem liveCount_set (ht : t'.table = t.table.setIfInBounds i r) :
    LimitOrderBook.liveCount t' + (t.table.get i).live.toNat = LimitOrderBook.liveCount t + r.live.toNat := by
  have hlen : i.val < t.table.toList.length := by simp
  have hcount : ∀ l : List OrderRecord, l.countP (·.live) = (l.map fun r => r.live.toNat).sum := fun l => by
    induction l with
    | nil => rfl
    | cons r l ih =>
      rw [List.countP_cons, List.map_cons, List.sum_cons, ← ih]
      cases r.live <;> simp [Nat.add_comm]
  unfold LimitOrderBook.liveCount
  rw [hcount, hcount, ht, Vector.toList_setIfInBounds]
  exact Totals.sum_map_set (fun r => r.live.toNat) hlen r

theorem liveCount_le_storedCount (t : OrderTable Capacity) : LimitOrderBook.liveCount t ≤ t.storedCount :=
  List.countP_mono_left fun r _ h => by
    rw [OrderRecord.live, Bool.and_eq_true] at h
    exact h.1

/-- A record over a live one is not counted again. -/
theorem activeCount_insertAt (t : OrderTable Capacity) (i : Fin Capacity.val) (r : OrderRecord) :
    (t.insertAt i r).activeCount = if (t.table.get i).live = true then t.activeCount else t.activeCount + 1 := by
  have hlive : (t.table.get i).live = true ↔
      (t.table.get i).occupied = true ∧ ¬(t.table.get i).cancelled = true := by
    simp [OrderRecord.live]
  simp only [hlive]
  rfl

end OrderTable

namespace LimitOrderBook

variable {Depth : Nat} {TableCapacity : Pow2} {book : LimitOrderBook Depth TableCapacity} {msg : WireMessage}

/-- The message cancels or fills a live order: a cancel to no quantity, or a fill of all that is left. -/
def Kills (book : LimitOrderBook Depth TableCapacity) (msg : WireMessage) : Prop :=
  ∃ r ∈ book.orderTable.liveOrder msg.orderId,
    msg.msgType = 'X'.toUInt8 ∧ msg.cancel.quantity ≤ 0 ∨
      msg.msgType = 'E'.toUInt8 ∧ r.quantity ≤ msg.exec.execQuantity

/-- `size()` counts the occupied slots that are not cancelled, within `occupiedSlots()` and the capacity. -/
def CountsLive (t : OrderTable TableCapacity) : Prop :=
  t.size.toNat = liveCount t ∧ t.size ≤ t.occupiedSlots ∧ t.occupiedSlots.toNat ≤ TableCapacity.val

instance (t : OrderTable TableCapacity) : Decidable (CountsLive t) :=
  inferInstanceAs (Decidable (t.size.toNat = liveCount t ∧ t.size ≤ t.occupiedSlots ∧
    t.occupiedSlots.toNat ≤ TableCapacity.val))

/-! ### The counters after a message -/

/-- An Add is refused, or stores its record in a slot. -/
theorem orderTable_add (book : LimitOrderBook Depth TableCapacity) (hA : msg.msgType = 'A'.toUInt8) :
    (book.processMessage msg).orderTable = book.orderTable ∨
      ∃ i r, r.live = true ∧ (book.processMessage msg).orderTable = book.orderTable.insertAt i r := by
  unfold processMessage processAdd
  simp only [hA, if_true, orderTable_sequence]
  cases hi : book.orderTable.insert msg.add.orderId msg.add.side msg.add.price msg.add.quantity
      msg.add.timestampNs with
  | none => exact Or.inl (orderTable_sequence ..)
  | some res =>
    obtain ⟨i, t'⟩ := res
    obtain ⟨-, rfl⟩ := OrderTable.insert_eq_some.1 hi
    exact Or.inr ⟨i, _, rfl, orderTable_applySide ..⟩

/-- Two tables with the same counters. -/
def SameCounts (t t' : OrderTable TableCapacity) : Prop :=
  t'.occupiedCount = t.occupiedCount ∧ t'.activeCount = t.activeCount

private theorem processCancel_counts (book : LimitOrderBook Depth TableCapacity) (msg : CancelOrderMsg) :
    SameCounts book.orderTable (book.processCancel msg).orderTable := by
  unfold processCancel
  split
  · exact ⟨rfl, rfl⟩
  · dsimp only
    split
    · exact ⟨rfl, rfl⟩
    · simp only [orderTable_applySide]
      exact ⟨rfl, rfl⟩

private theorem processExecute_counts (book : LimitOrderBook Depth TableCapacity) (msg : ExecuteOrderMsg) :
    SameCounts book.orderTable (book.processExecute msg).orderTable := by
  unfold processExecute
  dsimp only
  split
  · exact ⟨rfl, rfl⟩
  · split
    · exact ⟨rfl, rfl⟩
    · simp only [orderTable_applySide]
      exact ⟨rfl, rfl⟩

/-- Only an Add moves the counters. -/
theorem sameCounts_of_not_add (book : LimitOrderBook Depth TableCapacity) (hA : msg.msgType ≠ 'A'.toUInt8) :
    SameCounts book.orderTable (book.processMessage msg).orderTable := by
  rw [← orderTable_sequence book msg.seqNo]
  unfold processMessage
  simp only [if_neg hA]
  split
  · exact processCancel_counts _ _
  · split
    · exact processExecute_counts _ _
    · exact ⟨rfl, rfl⟩

/-! ### The invariant and the step -/

/-- The table is well formed and `occupiedSlots()` counts its occupied slots. -/
structure CountsStored (t : OrderTable TableCapacity) : Prop where
  wellFormed : t.WellFormed
  occupied : t.occupiedCount.toNat = t.storedCount

theorem CountsStored.step (h : CountsStored book.orderTable) (msg : WireMessage) :
    CountsStored (book.processMessage msg).orderTable := by
  have hwf := (processMessage_writes h.wellFormed msg).wellFormed
  refine ⟨hwf, ?_⟩
  by_cases hA : msg.msgType = 'A'.toUInt8
  · have hocc := h.occupied
    rcases orderTable_add book hA with hsame | ⟨i, r, hlive, hadd⟩
    · rw [hsame]
      exact hocc
    · rw [OrderRecord.live, Bool.and_eq_true] at hlive
      have hset : (book.orderTable.insertAt i r).storedCount = _ := OrderTable.storedCount_set rfl hlive.1
      have hle := (book.orderTable.insertAt i r).storedCount_le
      have hsize := TableCapacity.size_t
      rw [hadd, hset]
      rw [hset] at hle
      cases ho : (book.orderTable.table.get i).occupied with
      | true => simpa [OrderTable.insertAt, ho] using hocc
      | false =>
        simp only [ho, Bool.false_eq_true, if_false] at hle
        simp only [OrderTable.insertAt, ho, Bool.false_eq_true, if_false]
        rw [RingIndex.toNat_succ (by omega), hocc]
  · have hkept := (processMessage_writes h.wellFormed msg).kept (find_ne_none_of_written hA)
    rw [(sameCounts_of_not_add book hA).1, h.occupied, hkept.1]

theorem CountsStored.countsLive_iff {t : OrderTable TableCapacity} (h : CountsStored t) :
    CountsLive t ↔ t.activeCount.toNat = liveCount t := by
  refine ⟨fun hc => hc.1, fun hc => ⟨hc, ?_, ?_⟩⟩
  · rw [UInt64.le_iff_toNat_le]
    show t.activeCount.toNat ≤ t.occupiedCount.toNat
    have hle := t.liveCount_le_storedCount
    have hocc := h.occupied
    omega
  · show t.occupiedCount.toNat ≤ _
    rw [h.occupied]
    exact t.storedCount_le

/-- An Add counts the record it stores, unless it overwrites a live one. -/
theorem active_add (hA : msg.msgType = 'A'.toUInt8)
    (hq : book.orderTable.activeCount.toNat = liveCount book.orderTable) :
    (book.processMessage msg).orderTable.activeCount.toNat = liveCount (book.processMessage msg).orderTable := by
  rcases orderTable_add book hA with hsame | ⟨i, r, hlive, hadd⟩
  · rw [hsame]
    exact hq
  · have hset : liveCount (book.orderTable.insertAt i r) + (book.orderTable.table.get i).live.toNat =
        liveCount book.orderTable + r.live.toNat := OrderTable.liveCount_set rfl
    have hle := (book.orderTable.insertAt i r).liveCount_le_storedCount
    have hcap := (book.orderTable.insertAt i r).storedCount_le
    have hsize := TableCapacity.size_t
    rw [hlive, Bool.toNat_true] at hset
    rw [hadd]
    rw [OrderTable.activeCount_insertAt]
    cases hold : (book.orderTable.table.get i).live with
    | true =>
      rw [hold, Bool.toNat_true] at hset
      rw [if_pos rfl]
      omega
    | false =>
      rw [hold, Bool.toNat_false] at hset
      rw [if_neg Bool.false_ne_true, RingIndex.toNat_succ (by omega), hq]
      omega

/-- Writing the `cancelled` flag of a live record takes one off the live orders. -/
private theorem liveCount_reduce {i : Fin TableCapacity.val} {book' : LimitOrderBook Depth TableCapacity}
    {q : Int32} {c : Bool} {qtyDelta orderDelta : Int32} (hlive : (book.orderTable.table.get i).live = true)
    (hmoves : Moves book book' i ((book.orderTable.table.get i).reduce q c) qtyDelta orderDelta) :
    liveCount book'.orderTable + c.toNat = liveCount book.orderTable := by
  have hset := OrderTable.liveCount_set hmoves.table
  have hocc : (book.orderTable.table.get i).occupied = true := by
    rw [OrderRecord.live, Bool.and_eq_true] at hlive
    exact hlive.1
  rw [hlive] at hset
  cases c <;> simp [OrderRecord.live, OrderRecord.reduce, hocc] at hset ⊢ <;> omega

private theorem newQty_eq_zero_iff (r : OrderRecord) (e : Int32) : r.newQty e = 0 ↔ r.quantity ≤ e := by
  unfold OrderRecord.newQty
  split
  · rename_i hlt
    refine iff_of_false (fun h => ?_) (Int32.not_le.2 hlt)
    have heq : r.quantity = e := by
      have hadd := congrArg (· + e) h
      simpa using hadd
    exact absurd hlt (by rw [heq]; exact Int32.lt_irrefl)
  · rename_i hle
    exact iff_of_true rfl (Int32.not_lt.1 hle)

/-- One order fewer in one case only: the count is the old one in the other. -/
private theorem eq_iff_of_add_toNat {n m : Nat} {c : Prop} [Decidable c] (h : n + (decide c).toNat = m) :
    m = n ↔ ¬c := by
  by_cases hc : c
  · simp only [hc, decide_true, Bool.toNat_true] at h
    simp only [hc, not_true, iff_false]
    omega
  · simp only [hc, decide_false, Bool.toNat_false] at h
    simp only [hc, not_false_iff, iff_true]
    omega

/-- One message keeps the count exactly when it kills no order. -/
theorem active_step (hq : book.orderTable.activeCount.toNat = liveCount book.orderTable) (msg : WireMessage) :
    (book.processMessage msg).orderTable.activeCount.toNat = liveCount (book.processMessage msg).orderTable ↔
      ¬Kills book msg := by
  by_cases hA : msg.msgType = 'A'.toUInt8
  · refine iff_of_true (active_add hA hq) ?_
    rintro ⟨r, -, ⟨hX, -⟩ | ⟨hE, -⟩⟩
    · exact absurd (hX.symm.trans hA) WireMessage.cancelType_ne_addType
    · exact absurd (hE.symm.trans hA) WireMessage.execType_ne_addType
  · rw [(sameCounts_of_not_add book hA).2, hq]
    rcases processMessage_effect book msg with ⟨-, hX, hE, hsame⟩ | ⟨hA', -, -⟩ | ⟨-, hdead, hsame⟩ | ⟨hA', -, -, -⟩ |
      ⟨hX, i, hf, hc, hmoves⟩ | ⟨hE, i, hf, hc, hmoves⟩
    · -- the message has none of the three types
      rw [hsame.orderTable]
      refine iff_of_true rfl ?_
      rintro ⟨r, -, ⟨hX', -⟩ | ⟨hE', -⟩⟩
      · exact hX hX'
      · exact hE hE'
    · exact absurd hA' hA
    · -- an X or E for an id that is not live
      rw [hsame.orderTable]
      refine iff_of_true rfl ?_
      rintro ⟨r, hr, -⟩
      rw [OrderTable.liveOrder_of_dead hdead] at hr
      cases hr
    · exact absurd hA' hA
    · have hl := OrderTable.liveOrder_eq_some.2 ⟨i, hf, rfl, hc⟩
      have hcount := liveCount_reduce (live_of_found hf hc) hmoves
      have hkill : Kills book msg ↔ msg.cancel.quantity ≤ 0 := by
        unfold Kills
        rw [hl, hX]
        simp [Ne.symm WireMessage.execType_ne_cancelType]
      rw [hkill]
      exact eq_iff_of_add_toNat hcount
    · have hl := OrderTable.liveOrder_eq_some.2 ⟨i, hf, rfl, hc⟩
      have hcount := liveCount_reduce (live_of_found hf hc) hmoves
      have hkill : Kills book msg ↔ (book.orderTable.table.get i).newQty msg.exec.execQuantity = 0 := by
        unfold Kills
        rw [hl, hE, newQty_eq_zero_iff]
        simp [WireMessage.execType_ne_cancelType]
      rw [hkill]
      exact eq_iff_of_add_toNat hcount

/-- In a run from a fresh book `size()` counts the live orders in every state exactly when no message of the run
cancels or fills a live order. -/
theorem counts_live_iff (Depth : Nat) (TableCapacity : Pow2) (msgs : List WireMessage) :
    Runs.Always processMessage (fun book => CountsLive book.orderTable) (reset Depth TableCapacity) msgs ↔
      Runs.Along processMessage (fun book msg => ¬Kills book msg) (reset Depth TableCapacity) msgs := by
  have hstart : CountsStored (reset Depth TableCapacity).orderTable :=
    ⟨OrderTable.wellFormed_clear TableCapacity, (OrderTable.storedCount_clear TableCapacity).symm⟩
  have hzero : CountsLive (reset Depth TableCapacity).orderTable := by
    have hle := (reset Depth TableCapacity).orderTable.liveCount_le_storedCount
    have hnone := OrderTable.storedCount_clear TableCapacity
    rw [hstart.countsLive_iff]
    show 0 = liveCount (OrderTable.clear TableCapacity)
    have hle' : liveCount (OrderTable.clear TableCapacity) ≤ (OrderTable.clear TableCapacity).storedCount := hle
    omega
  refine Runs.Along.always_iff (I := fun book => CountsStored book.orderTable) (P := fun _ _ => True)
    (fun book msg h _ => h.step msg) (fun book msg h _ hq => ?_) hstart hzero
    (Runs.along_iff_forall.2 fun _ _ => trivial)
  rw [(h.step msg).countsLive_iff]
  exact active_step (h.countsLive_iff.1 hq) msg

/-- One order is added and cancelled: `size()` stays 1 with no live order in the table. -/
theorem counts_live_cancelled :
    ¬ ∀ (Depth : Nat) (TableCapacity : Pow2) (msgs : List WireMessage),
      CountsLive (run Depth TableCapacity msgs).orderTable := by
  intro h
  have hcounts := h 1 ⟨2, by decide, by decide⟩
    [.ofAdd ⟨'A'.toUInt8, 1, 0, 1, 'B'.toUInt8, 100, 5⟩, .ofCancel ⟨'X'.toUInt8, 2, 0, 1, 0⟩]
  exact absurd hcounts (by decide)

end LimitOrderBook

end FeedHandler
