import FeedHandler.OrderBook.Liquidity

/-!
# What messages do to the record of an id

A message writes at most one record, under its own id, and leaves the records of the other ids alone
(`processMessage_writes`).  The table of every reachable book is well formed.
-/

namespace FeedHandler

namespace OrderTable

open OpenAddressing

variable {Capacity : Pow2} {t t' : OrderTable Capacity}

namespace WellFormed

/-- Writing a record where the probe of its id stopped binds the id to it. -/
theorem find_write (h : t.WellFormed) {i : Fin Capacity.val} {r : OrderRecord}
    (ht : t'.table = t.table.setIfInBounds i r) (hr : r.occupied = true)
    (hs : stop t.occ r.orderId (probeOrder Capacity r.orderId) = some i)
    (orderId : UInt64) : t'.find orderId = if orderId = r.orderId then some r else t.find orderId := by
  refine find_set h (h.set ht hr hs) ht hr ?_ orderId
  rcases lookup_of_stop hs with ⟨hfree, -⟩ | ⟨-, hl⟩
  · exact Or.inl hfree
  · exact Or.inr (lookup_some hl).2

/-- A slot is used up when the id is new. -/
theorem storedCount_write {i : Fin Capacity.val} {r : OrderRecord} (ht : t'.table = t.table.setIfInBounds i r)
    (hr : r.occupied = true) (hs : stop t.occ r.orderId (probeOrder Capacity r.orderId) = some i) :
    t'.storedCount = t.storedCount + if t.find r.orderId = none then 1 else 0 := by
  rw [storedCount_set ht hr, find]
  rcases lookup_of_stop hs with ⟨hfree, hl⟩ | ⟨hused, hl⟩
  · simp [hfree, hl]
  · simp [hused, hl]

theorem stop_of_lookup (h : t.WellFormed) {orderId : UInt64} {i : Fin Capacity.val} (hl : t.lookup orderId = some i) :
    stop t.occ orderId (probeOrder Capacity orderId) = some i := by
  obtain ⟨hocc, rfl⟩ := lookup_some hl
  exact h i _ (by simp [occ, hocc])

end WellFormed

end OrderTable

namespace LimitOrderBook

variable {Depth : Nat} {TableCapacity : Pow2} {book : LimitOrderBook Depth TableCapacity} {msg : WireMessage}

/-- The record that a message writes under its id. -/
def written (t : OrderTable TableCapacity) (msg : WireMessage) : Option OrderRecord :=
  if msg.msgType = 'A'.toUInt8 then
    (t.insert msg.orderId msg.add.side msg.add.price msg.add.quantity msg.timestampNs).map fun _ =>
      OrderTable.record msg.orderId msg.add.side msg.add.price msg.add.quantity msg.timestampNs
  else if msg.msgType = 'X'.toUInt8 then
    (t.liveOrder msg.orderId).map fun r => r.reduce msg.cancel.quantity (msg.cancel.quantity ≤ 0)
  else if msg.msgType = 'E'.toUInt8 then
    (t.liveOrder msg.orderId).map fun r =>
      r.reduce (r.newQty msg.exec.execQuantity) (r.newQty msg.exec.execQuantity = 0)
  else
    none

/-- What the written record does to the table. -/
structure Writes (t : OrderTable TableCapacity) (msg : WireMessage) (t' : OrderTable TableCapacity) : Prop where
  wellFormed : t'.WellFormed
  find : ∀ orderId, t'.find orderId =
    if orderId = msg.orderId then (written t msg).or (t.find orderId) else t.find orderId
  storedCount : t'.storedCount =
    t.storedCount + if (written t msg).isSome ∧ t.find msg.orderId = none then 1 else 0

private theorem writes_of_moves (h : book.orderTable.WellFormed) {book' : LimitOrderBook Depth TableCapacity}
    {i : Fin TableCapacity.val} {r : OrderRecord} {qtyDelta orderDelta : Int32}
    (hmoves : Moves book book' i r qtyDelta orderDelta) (hocc : r.occupied = true) (hid : r.orderId = msg.orderId)
    (hs : OpenAddressing.stop book.orderTable.occ msg.orderId
      (OrderTable.probeOrder TableCapacity msg.orderId) = some i)
    (hw : written book.orderTable msg = some r) : Writes book.orderTable msg book'.orderTable := by
  rw [← hid] at hs
  refine ⟨h.set hmoves.table hocc hs, fun orderId => ?_, ?_⟩
  · rw [h.find_write hmoves.table hocc hs, hid, hw]
    rfl
  · rw [OrderTable.WellFormed.storedCount_write hmoves.table hocc hs, hid, hw]
    simp

private theorem writes_of_same (h : book.orderTable.WellFormed) {book' : LimitOrderBook Depth TableCapacity}
    (hsame : Same book book') (hw : written book.orderTable msg = none) :
    Writes book.orderTable msg book'.orderTable := by
  rw [hsame.orderTable]
  exact ⟨h, fun orderId => by simp [hw], by simp [hw]⟩

/-- A message writes its record and nothing else. -/
theorem processMessage_writes (h : book.orderTable.WellFormed) (msg : WireMessage) :
    Writes book.orderTable msg (book.processMessage msg).orderTable := by
  rcases processMessage_effect book msg with ⟨hA, hX, hE, hsame⟩ | ⟨hA, hfull, hsame⟩ | ⟨hXE, hdead, hsame⟩ |
    ⟨hA, i, hs, hmoves⟩ | ⟨hX, i, hf, hc, hmoves⟩ | ⟨hE, i, hf, hc, hmoves⟩
  · exact writes_of_same h hsame (by simp [written, hA, hX, hE])
  · exact writes_of_same h hsame (by simp [written, hA, hfull])
  · -- an X or E for an id that is not live
    have hnone := OrderTable.liveOrder_of_dead hdead
    refine writes_of_same h hsame ?_
    rcases hXE with hX | hE
    · simp [written, hX, hnone]
    · simp [written, hE, hnone]
  · refine writes_of_moves h hmoves rfl rfl hs ?_
    rw [written, if_pos hA, OrderTable.insert_eq, hs]
    rfl
  · have hlive := OrderTable.liveOrder_eq_some.2 ⟨i, hf, rfl, hc⟩
    obtain ⟨hocc, hid⟩ := OrderTable.lookup_some hf
    exact writes_of_moves h hmoves hocc hid (h.stop_of_lookup hf) (by simp [written, hX, hlive])
  · have hlive := OrderTable.liveOrder_eq_some.2 ⟨i, hf, rfl, hc⟩
    obtain ⟨hocc, hid⟩ := OrderTable.lookup_some hf
    exact writes_of_moves h hmoves hocc hid (h.stop_of_lookup hf) (by simp [written, hE, hlive])

theorem run_wellFormed (Depth : Nat) (TableCapacity : Pow2) (msgs : List WireMessage) :
    (run Depth TableCapacity msgs).orderTable.WellFormed :=
  Runs.foldl_invariant (I := fun book : LimitOrderBook Depth TableCapacity => book.orderTable.WellFormed)
    (fun _ msg h => (processMessage_writes h msg).wellFormed) (OrderTable.wellFormed_clear TableCapacity) msgs

end LimitOrderBook

end FeedHandler
