import FeedHandler.Foundation.Runs
import FeedHandler.OrderBook.Side
import FeedHandler.OrderTable.Probe
import Mathlib.Data.Fintype.Basic

/-!
# What one message does to the book

`Effect book msg book'` lists the ways through `processMessage`: either the order table and both sides stay as they
are, or one record is written (`Moves`) and `applyDelta` runs on the side of that record.  Every invariant of the
book is derived from it (`processMessage_effect`); the first one is the shape of the side arrays over any run
(`side_arrays_well_formed`).
-/

namespace FeedHandler

open SideArray

inductive Side where
  | bid
  | ask
deriving DecidableEq, Repr

namespace Side

/-- The side that the source takes a side byte for. -/
def of (side : UInt8) : Side := if side = 'B'.toUInt8 then bid else ask

def ascending : Side → Bool
  | bid => false
  | ask => true

instance : Fintype Side := ⟨{bid, ask}, fun s => by cases s <;> decide⟩

end Side

/-- The record of a live order after a cancel or a fill. -/
def OrderRecord.reduce (r : OrderRecord) (quantity : Int32) (cancelled : Bool) : OrderRecord :=
  { r with quantity, cancelled }

/-- The remaining quantity after a fill, as `processExecute` clamps it. -/
def OrderRecord.newQty (r : OrderRecord) (execQuantity : Int32) : Int32 :=
  if r.quantity > execQuantity then r.quantity - execQuantity else 0

namespace LimitOrderBook

variable {Depth : Nat} {TableCapacity : Pow2} {book book' : LimitOrderBook Depth TableCapacity}

/-- The array of a side. -/
def levels (book : LimitOrderBook Depth TableCapacity) : Side → Vector PriceLevel Depth
  | .bid => book.bids
  | .ask => book.asks

/-- The levels shown on a side. -/
def shown (book : LimitOrderBook Depth TableCapacity) (s : Side) : List PriceLevel := visible (book.levels s)

/-! ### The effect of a message -/

/-- The order table and the sides are as before. -/
structure Same (book book' : LimitOrderBook Depth TableCapacity) : Prop where
  orderTable : book'.orderTable = book.orderTable
  levels : ∀ s, book'.levels s = book.levels s

/-- The record `r` is in slot `i` now, and `applyDelta` ran on the side of `r`. -/
structure Moves (book book' : LimitOrderBook Depth TableCapacity) (i : Fin TableCapacity.val) (r : OrderRecord)
    (qtyDelta orderDelta : Int32) : Prop where
  table : book'.orderTable.table = book.orderTable.table.setIfInBounds i r
  levels : book'.levels (.of r.side) =
    applyDelta (book.levels (.of r.side)) r.price qtyDelta orderDelta (Side.of r.side).ascending
  other : ∀ s, s ≠ .of r.side → book'.levels s = book.levels s

inductive Effect (book : LimitOrderBook Depth TableCapacity) (msg : WireMessage)
    (book' : LimitOrderBook Depth TableCapacity) : Prop where
  | unknown (notAdd : msg.msgType ≠ 'A'.toUInt8) (notCancel : msg.msgType ≠ 'X'.toUInt8)
      (notExec : msg.msgType ≠ 'E'.toUInt8) (same : Same book book')
  | full (type : msg.msgType = 'A'.toUInt8)
      (saturated :
        book.orderTable.insert msg.orderId msg.add.side msg.add.price msg.add.quantity msg.timestampNs = none)
      (same : Same book book')
  | dead (type : msg.msgType = 'X'.toUInt8 ∨ msg.msgType = 'E'.toUInt8)
      (notLive : ∀ i, book.orderTable.lookup msg.orderId = some i → (book.orderTable.table.get i).cancelled = true)
      (same : Same book book')
  | add (type : msg.msgType = 'A'.toUInt8) (i : Fin TableCapacity.val)
      (stopped : OpenAddressing.stop book.orderTable.occ msg.orderId
        (OrderTable.probeOrder TableCapacity msg.orderId) = some i)
      (moves : Moves book book' i
        (OrderTable.record msg.orderId msg.add.side msg.add.price msg.add.quantity msg.timestampNs)
        msg.add.quantity 1)
  | cancel (type : msg.msgType = 'X'.toUInt8) (i : Fin TableCapacity.val)
      (found : book.orderTable.lookup msg.orderId = some i) (live : (book.orderTable.table.get i).cancelled = false)
      (moves : Moves book book' i
        ((book.orderTable.table.get i).reduce msg.cancel.quantity (msg.cancel.quantity ≤ 0))
        (msg.cancel.quantity - (book.orderTable.table.get i).quantity) (if msg.cancel.quantity ≤ 0 then -1 else 0))
  | execute (type : msg.msgType = 'E'.toUInt8) (i : Fin TableCapacity.val)
      (found : book.orderTable.lookup msg.orderId = some i) (live : (book.orderTable.table.get i).cancelled = false)
      (moves : Moves book book' i
        ((book.orderTable.table.get i).reduce ((book.orderTable.table.get i).newQty msg.exec.execQuantity)
          ((book.orderTable.table.get i).newQty msg.exec.execQuantity = 0))
        (-msg.exec.execQuantity) (if (book.orderTable.table.get i).newQty msg.exec.execQuantity = 0 then -1 else 0))

private theorem levels_applySide_self (book : LimitOrderBook Depth TableCapacity) (side : UInt8)
    (price qtyDelta orderDelta : Int32) :
    (book.applySide side price qtyDelta orderDelta).levels (.of side) =
      applyDelta (book.levels (.of side)) price qtyDelta orderDelta (Side.of side).ascending := by
  unfold applySide Side.of
  split <;> rfl

private theorem levels_applySide_other (book : LimitOrderBook Depth TableCapacity) (side : UInt8)
    (price qtyDelta orderDelta : Int32) {s : Side} (hs : s ≠ .of side) :
    (book.applySide side price qtyDelta orderDelta).levels s = book.levels s := by
  revert hs
  unfold applySide Side.of
  cases s <;> split <;> simp [levels]

theorem orderTable_applySide (book : LimitOrderBook Depth TableCapacity) (side : UInt8)
    (price qtyDelta orderDelta : Int32) :
    (book.applySide side price qtyDelta orderDelta).orderTable = book.orderTable := by
  unfold applySide
  split <;> rfl

theorem orderTable_sequence (book : LimitOrderBook Depth TableCapacity) (seqNo : UInt64) :
    (book.sequence seqNo).orderTable = book.orderTable := by
  unfold sequence
  dsimp only
  split <;> rfl

private theorem levels_sequence (book : LimitOrderBook Depth TableCapacity) (seqNo : UInt64) (s : Side) :
    (book.sequence seqNo).levels s = book.levels s := by
  unfold sequence
  dsimp only
  split <;> cases s <;> rfl

private theorem processAdd_moves (book : LimitOrderBook Depth TableCapacity) (msg : AddOrderMsg)
    {i : Fin TableCapacity.val}
    (hs : OpenAddressing.stop book.orderTable.occ msg.orderId
      (OrderTable.probeOrder TableCapacity msg.orderId) = some i) :
    Moves book (book.processAdd msg) i
      (OrderTable.record msg.orderId msg.side msg.price msg.quantity msg.timestampNs) msg.quantity 1 := by
  have hi : book.orderTable.insert msg.orderId msg.side msg.price msg.quantity msg.timestampNs =
      some (i, book.orderTable.insertAt i
        (OrderTable.record msg.orderId msg.side msg.price msg.quantity msg.timestampNs)) :=
    OrderTable.insert_eq_some.2 ⟨hs, rfl⟩
  simp only [processAdd, hi]
  exact ⟨by rw [orderTable_applySide]; rfl, levels_applySide_self .., fun s hs => levels_applySide_other _ _ _ _ _ hs⟩

private theorem processCancel_moves (book : LimitOrderBook Depth TableCapacity) (msg : CancelOrderMsg)
    {i : Fin TableCapacity.val} (hl : book.orderTable.lookup msg.orderId = some i)
    (hc : (book.orderTable.table.get i).cancelled = false) :
    Moves book (book.processCancel msg) i ((book.orderTable.table.get i).reduce msg.quantity (msg.quantity ≤ 0))
      (msg.quantity - (book.orderTable.table.get i).quantity) (if msg.quantity ≤ 0 then -1 else 0) := by
  unfold processCancel
  rw [hl]
  dsimp only
  rw [if_neg (by simp [hc]), orderTable_applySide]
  refine ⟨congrArg (book.orderTable.table.setIfInBounds i ·) ?_, levels_applySide_self .., fun s hs =>
    levels_applySide_other _ _ _ _ _ hs⟩
  split <;> simp_all [OrderRecord.reduce]

private theorem processExecute_moves (book : LimitOrderBook Depth TableCapacity) (msg : ExecuteOrderMsg)
    {i : Fin TableCapacity.val} (hl : book.orderTable.lookup msg.orderId = some i)
    (hc : (book.orderTable.table.get i).cancelled = false) :
    Moves book (book.processExecute msg) i
      ((book.orderTable.table.get i).reduce ((book.orderTable.table.get i).newQty msg.execQuantity)
        ((book.orderTable.table.get i).newQty msg.execQuantity = 0))
      (-msg.execQuantity) (if (book.orderTable.table.get i).newQty msg.execQuantity = 0 then -1 else 0) := by
  unfold processExecute
  dsimp only
  rw [hl]
  dsimp only
  rw [if_neg (by simp [hc]), orderTable_applySide]
  refine ⟨congrArg (book.orderTable.table.setIfInBounds i ·) ?_, ?_, fun s hs => ?_⟩
  · show (if (book.orderTable.table.get i).newQty msg.execQuantity = 0 then _ else _) = _
    split <;> simp_all [OrderRecord.reduce, OrderRecord.newQty]
  · exact levels_applySide_self { book with tradesExecutedCount := book.tradesExecutedCount + 1 } _ _ _ _
  · exact levels_applySide_other { book with tradesExecutedCount := book.tradesExecutedCount + 1 } _ _ _ _ hs

private theorem Moves.of_sequence {seqNo : UInt64} {i : Fin TableCapacity.val} {r : OrderRecord}
    {qtyDelta orderDelta : Int32} (h : Moves (book.sequence seqNo) book' i r qtyDelta orderDelta) :
    Moves book book' i r qtyDelta orderDelta := by
  refine ⟨?_, ?_, fun s hs => ?_⟩
  · rw [h.table, orderTable_sequence]
  · rw [h.levels, levels_sequence]
  · rw [h.other s hs, levels_sequence]

private theorem same_sequence (book : LimitOrderBook Depth TableCapacity) (seqNo : UInt64) :
    Same book (book.sequence seqNo) := ⟨orderTable_sequence .., levels_sequence book seqNo⟩

private theorem processAdd_full (book : LimitOrderBook Depth TableCapacity) (msg : AddOrderMsg)
    (hi : book.orderTable.insert msg.orderId msg.side msg.price msg.quantity msg.timestampNs = none) :
    book.processAdd msg = book := by
  simp only [processAdd, hi]

private theorem processCancel_dead (book : LimitOrderBook Depth TableCapacity) (msg : CancelOrderMsg)
    (h : ∀ i, book.orderTable.lookup msg.orderId = some i → (book.orderTable.table.get i).cancelled = true) :
    book.processCancel msg = book := by
  unfold processCancel
  cases hl : book.orderTable.lookup msg.orderId with
  | none => rfl
  | some i => simp [h i hl]

private theorem processExecute_dead (book : LimitOrderBook Depth TableCapacity) (msg : ExecuteOrderMsg)
    (h : ∀ i, book.orderTable.lookup msg.orderId = some i → (book.orderTable.table.get i).cancelled = true) :
    Same book (book.processExecute msg) := by
  unfold processExecute
  dsimp only
  cases hl : book.orderTable.lookup msg.orderId with
  | none => exact ⟨rfl, fun s => by cases s <;> rfl⟩
  | some i =>
    simp only [h i hl, if_true]
    exact ⟨rfl, fun s => by cases s <;> rfl⟩

theorem live_or_dead (t : OrderTable TableCapacity) (orderId : UInt64) :
    (∃ i, t.lookup orderId = some i ∧ (t.table.get i).cancelled = false) ∨
      ∀ i, t.lookup orderId = some i → (t.table.get i).cancelled = true := by
  cases hl : t.lookup orderId with
  | none => exact Or.inr fun i hi => by cases hi
  | some i =>
    cases hc : (t.table.get i).cancelled with
    | false => exact Or.inl ⟨i, rfl, hc⟩
    | true =>
      refine Or.inr fun j hj => ?_
      obtain rfl : i = j := Option.some.inj hj
      exact hc

/-- Every message has one of the listed effects. -/
theorem processMessage_effect (book : LimitOrderBook Depth TableCapacity) (msg : WireMessage) :
    Effect book msg (book.processMessage msg) := by
  have hsame := same_sequence book msg.seqNo
  have htab := hsame.orderTable
  unfold processMessage
  by_cases hA : msg.msgType = 'A'.toUInt8
  · simp only [if_pos hA]
    cases hs : OpenAddressing.stop book.orderTable.occ msg.orderId
        (OrderTable.probeOrder TableCapacity msg.orderId) with
    | none =>
      have hi : book.orderTable.insert msg.orderId msg.add.side msg.add.price msg.add.quantity msg.timestampNs =
          none := by rw [OrderTable.insert_eq, hs]; rfl
      rw [processAdd_full _ _ (by rw [htab]; exact hi)]
      exact .full hA hi hsame
    | some i => exact .add hA i hs (processAdd_moves _ msg.add (by rw [htab]; exact hs)).of_sequence
  · simp only [if_neg hA]
    by_cases hX : msg.msgType = 'X'.toUInt8
    · simp only [if_pos hX]
      rcases live_or_dead book.orderTable msg.orderId with ⟨i, hl, hc⟩ | hdead
      · have hmoves := processCancel_moves (book.sequence msg.seqNo) msg.cancel (i := i)
          (by rw [htab]; exact hl) (by rw [htab]; exact hc)
        rw [htab] at hmoves
        exact .cancel hX i hl hc hmoves.of_sequence
      · rw [processCancel_dead _ _ (by rw [htab]; exact hdead)]
        exact .dead (Or.inl hX) hdead hsame
    · simp only [if_neg hX]
      by_cases hE : msg.msgType = 'E'.toUInt8
      · simp only [if_pos hE]
        rcases live_or_dead book.orderTable msg.orderId with ⟨i, hl, hc⟩ | hdead
        · have hmoves := processExecute_moves (book.sequence msg.seqNo) msg.exec (i := i)
            (by rw [htab]; exact hl) (by rw [htab]; exact hc)
          rw [htab] at hmoves
          exact .execute hE i hl hc hmoves.of_sequence
        · have hexec := processExecute_dead (book.sequence msg.seqNo) msg.exec (by rw [htab]; exact hdead)
          refine .dead (Or.inr hE) hdead ⟨hexec.orderTable.trans htab, fun s => ?_⟩
          rw [hexec.levels, levels_sequence]
      · simp only [if_neg hE]
        exact .unknown hA hX hE hsame

/-- An Add is refused by a table without room, or recorded where the probe of its id stopped. -/
theorem processMessage_add (book : LimitOrderBook Depth TableCapacity) {msg : WireMessage}
    (hA : msg.msgType = 'A'.toUInt8) :
    (book.orderTable.insert msg.orderId msg.add.side msg.add.price msg.add.quantity msg.timestampNs = none ∧
        Same book (book.processMessage msg)) ∨
      ∃ i, OpenAddressing.stop book.orderTable.occ msg.orderId
          (OrderTable.probeOrder TableCapacity msg.orderId) = some i ∧
        Moves book (book.processMessage msg) i
          (OrderTable.record msg.orderId msg.add.side msg.add.price msg.add.quantity msg.timestampNs)
          msg.add.quantity 1 := by
  rcases processMessage_effect book msg with ⟨hne, -, -, -⟩ | ⟨-, hfull, hsame⟩ | ⟨hX | hE, -, -⟩ | ⟨-, i, hs, hmoves⟩ |
    ⟨hX, -, -, -, -⟩ | ⟨hE, -, -, -, -⟩
  · exact absurd hA hne
  · exact Or.inl ⟨hfull, hsame⟩
  · exact absurd (hX.symm.trans hA) WireMessage.cancelType_ne_addType
  · exact absurd (hE.symm.trans hA) WireMessage.execType_ne_addType
  · exact Or.inr ⟨i, hs, hmoves⟩
  · exact absurd (hX.symm.trans hA) WireMessage.cancelType_ne_addType
  · exact absurd (hE.symm.trans hA) WireMessage.execType_ne_addType

/-- An X for a live id sets the quantity of its record. -/
theorem processMessage_cancel {msg : WireMessage} (hX : msg.msgType = 'X'.toUInt8) {i : Fin TableCapacity.val}
    (hf : book.orderTable.lookup msg.orderId = some i) (hc : (book.orderTable.table.get i).cancelled = false) :
    Moves book (book.processMessage msg) i
      ((book.orderTable.table.get i).reduce msg.cancel.quantity (msg.cancel.quantity ≤ 0))
      (msg.cancel.quantity - (book.orderTable.table.get i).quantity) (if msg.cancel.quantity ≤ 0 then -1 else 0) := by
  rcases processMessage_effect book msg with ⟨-, hne, -, -⟩ | ⟨hA, -, -⟩ | ⟨-, hdead, -⟩ | ⟨hA, -, -, -⟩ |
    ⟨-, j, hj, -, hmoves⟩ | ⟨hE, -, -, -, -⟩
  · exact absurd hX hne
  · exact absurd (hX.symm.trans hA) WireMessage.cancelType_ne_addType
  · exact absurd ((hdead i hf).symm.trans hc) (by decide)
  · exact absurd (hX.symm.trans hA) WireMessage.cancelType_ne_addType
  · obtain rfl : j = i := Option.some.inj (hj.symm.trans hf)
    exact hmoves
  · exact absurd (hE.symm.trans hX) WireMessage.execType_ne_cancelType

/-- An E for a live id takes the fill off its record. -/
theorem processMessage_execute {msg : WireMessage} (hE : msg.msgType = 'E'.toUInt8) {i : Fin TableCapacity.val}
    (hf : book.orderTable.lookup msg.orderId = some i) (hc : (book.orderTable.table.get i).cancelled = false) :
    Moves book (book.processMessage msg) i
      ((book.orderTable.table.get i).reduce ((book.orderTable.table.get i).newQty msg.exec.execQuantity)
        ((book.orderTable.table.get i).newQty msg.exec.execQuantity = 0))
      (-msg.exec.execQuantity) (if (book.orderTable.table.get i).newQty msg.exec.execQuantity = 0 then -1 else 0) := by
  rcases processMessage_effect book msg with ⟨-, -, hne, -⟩ | ⟨hA, -, -⟩ | ⟨-, hdead, -⟩ | ⟨hA, -, -, -⟩ |
    ⟨hX, -, -, -, -⟩ | ⟨-, j, hj, -, hmoves⟩
  · exact absurd hE hne
  · exact absurd (hE.symm.trans hA) WireMessage.execType_ne_addType
  · exact absurd ((hdead i hf).symm.trans hc) (by decide)
  · exact absurd (hE.symm.trans hA) WireMessage.execType_ne_addType
  · exact absurd (hE.symm.trans hX) WireMessage.execType_ne_cancelType
  · obtain rfl : j = i := Option.some.inj (hj.symm.trans hf)
    exact hmoves

/-! ### The shape of the sides -/

theorem levels_reset (s : Side) : (reset Depth TableCapacity).levels s = Vector.replicate Depth {} := by
  cases s <;> rfl

theorem Moves.shaped {i : Fin TableCapacity.val} {r : OrderRecord} {qtyDelta orderDelta : Int32}
    (h : Moves book book' i r qtyDelta orderDelta) (hDepth : 0 < Depth)
    (hs : ∀ s, Shaped s.ascending (book.levels s)) (s : Side) : Shaped s.ascending (book'.levels s) := by
  by_cases hside : s = .of r.side
  · subst hside
    rw [h.levels]
    exact ((hs _).applyDelta_step hDepth ..).1
  · rw [h.other s hside]
    exact hs s

theorem processMessage_shaped (hDepth : 0 < Depth) (hs : ∀ s, Shaped s.ascending (book.levels s))
    (msg : WireMessage) (s : Side) : Shaped s.ascending ((book.processMessage msg).levels s) := by
  rcases processMessage_effect book msg with ⟨-, -, -, hsame⟩ | ⟨-, -, hsame⟩ | ⟨-, -, hsame⟩ | ⟨-, i, -, hmoves⟩ |
    ⟨-, i, -, -, hmoves⟩ | ⟨-, i, -, -, hmoves⟩
  · rw [hsame.levels]; exact hs s
  · rw [hsame.levels]; exact hs s
  · rw [hsame.levels]; exact hs s
  · exact hmoves.shaped hDepth hs s
  · exact hmoves.shaped hDepth hs s
  · exact hmoves.shaped hDepth hs s

/-- Every reachable side array is well shaped. -/
theorem run_shaped (hDepth : 0 < Depth) (TableCapacity : Pow2) (msgs : List WireMessage) (s : Side) :
    Shaped s.ascending ((run Depth TableCapacity msgs).levels s) := by
  have h0 : ∀ s, Shaped s.ascending ((reset Depth TableCapacity).levels s) := fun s => by
    rw [levels_reset]
    exact shaped_replicate ..
  have hstep : ∀ (book : LimitOrderBook Depth TableCapacity) (m : WireMessage),
      (∀ s, Shaped s.ascending (book.levels s)) → ∀ s, Shaped s.ascending ((book.processMessage m).levels s) :=
    fun _ m hs => processMessage_shaped hDepth hs m
  exact Runs.foldl_invariant hstep h0 msgs s

/-- The representation invariant of a side array, read at its indices: the active levels come first, the others are
zero, prices are strictly ordered by `better`, and an active level holds volume. -/
structure SideInvariant (better : Int32 → Int32 → Prop) (levels : Vector PriceLevel Depth) : Prop where
  contiguous : ∀ i j : Fin Depth, i < j → (levels.get j).active = true → (levels.get i).active = true
  zero : ∀ i : Fin Depth, (levels.get i).active = false → levels.get i = {}
  ordered : ∀ i j : Fin Depth, i < j → (levels.get i).active = true → (levels.get j).active = true →
    better (levels.get i).price (levels.get j).price
  positive : ∀ i : Fin Depth, (levels.get i).active = true →
    0 < (levels.get i).quantity ∧ 0 < (levels.get i).orderCount

theorem get_visible {ascending : Bool} {levels : Vector PriceLevel Depth} (h : Shaped ascending levels)
    (i : Fin Depth) : levels.get i = if hi : i.val < (visible levels).length then (visible levels)[i.val] else {} := by
  have hlen : i.val < levels.toList.length := by simp
  have hget : levels.get i = levels.toList[i.val] := rfl
  rw [hget, List.getElem_of_eq h.layout, List.getElem_append]
  split
  · rfl
  · simp [zeros]

theorem SideInvariant.of_shaped {ascending : Bool} {levels : Vector PriceLevel Depth} {better : Int32 → Int32 → Prop}
    (h : Shaped ascending levels) (hb : ∀ p q, rank ascending p < rank ascending q → better p q) :
    SideInvariant better levels := by
  have hact : ∀ i : Fin Depth, (levels.get i).active = true ↔ i.val < (visible levels).length := fun i => by
    rw [get_visible h i]
    split
    · rename_i hi
      simp [hi, active_of_mem_visible (List.getElem_mem hi)]
    · rename_i hi
      simp [hi]
  refine ⟨fun i j hij hj => ?_, fun i hi => ?_, fun i j hij hi hj => ?_, fun i hi => ?_⟩
  · rw [hact] at hj ⊢
    exact Nat.lt_trans hij hj
  · have hlen : ¬ i.val < (visible levels).length := by
      rw [← hact, hi]
      simp
    rw [get_visible h i, dif_neg hlen]
  · have hi' := (hact i).1 hi
    have hj' := (hact j).1 hj
    rw [get_visible h i, get_visible h j, dif_pos hi', dif_pos hj']
    exact hb _ _ (List.pairwise_iff_getElem.1 h.sorted i j hi' hj' hij)
  · have hi' := (hact i).1 hi
    rw [get_visible h i, dif_pos hi']
    exact ⟨h.quantity_pos _ (List.getElem_mem hi'), h.orderCount_pos _ (List.getElem_mem hi')⟩

/-- After any messages whatsoever both side arrays satisfy their representation invariant, bids with descending and
asks with ascending prices. -/
theorem side_arrays_well_formed (Depth : Nat) (hDepth : 0 < Depth) (TableCapacity : Pow2) (msgs : List WireMessage) :
    SideInvariant (· > ·) (run Depth TableCapacity msgs).bids ∧
      SideInvariant (· < ·) (run Depth TableCapacity msgs).asks := by
  refine ⟨.of_shaped (run_shaped hDepth TableCapacity msgs .bid) fun p q h => ?_,
    .of_shaped (run_shaped hDepth TableCapacity msgs .ask) fun p q h => ?_⟩
  · simpa [beats, Side.ascending] using beats_iff.2 h
  · simpa [beats, Side.ascending] using beats_iff.2 h

/-- A reused id, a negative quantity and an unknown type. -/
theorem side_arrays_well_formed_odd_messages :
    SideInvariant (· > ·) (run 2 ⟨4, by decide, by decide⟩
        [.ofAdd ⟨'A'.toUInt8, 1, 0, 1, 'B'.toUInt8, 100, 5⟩, .ofAdd ⟨'A'.toUInt8, 2, 0, 1, 'B'.toUInt8, 99, 7⟩,
          .ofCancel ⟨'X'.toUInt8, 3, 0, 1, -5⟩, .ofCancel ⟨'Z'.toUInt8, 4, 0, 1, 0⟩]).bids ∧
      SideInvariant (· < ·) (run 2 ⟨4, by decide, by decide⟩
        [.ofAdd ⟨'A'.toUInt8, 1, 0, 1, 'B'.toUInt8, 100, 5⟩, .ofAdd ⟨'A'.toUInt8, 2, 0, 1, 'B'.toUInt8, 99, 7⟩,
          .ofCancel ⟨'X'.toUInt8, 3, 0, 1, -5⟩, .ofCancel ⟨'Z'.toUInt8, 4, 0, 1, 0⟩]).asks :=
  side_arrays_well_formed 2 (by decide) _ _

end LimitOrderBook

end FeedHandler
