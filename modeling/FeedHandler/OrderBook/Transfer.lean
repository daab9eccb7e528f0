import FeedHandler.OrderBook.Live

/-!
# How a message moves the live totals

Along the messages of a feed that behaves (`Admissible`), a message that changes anything moves the live total and
the live number at one price of one side, and calls `applyDelta` there (`Transfer`).  The deltas it passes are the
changes of the two aggregates, but for a fill of more than was left, which passes a quantity delta that is too low.
-/

namespace FeedHandler

open SideArray

namespace OrderRecord

theorem restsAt_iff {r : OrderRecord} {s : Side} {p : Int32} :
    r.restsAt s p = true ↔ r.live = true ∧ Side.of r.side = s ∧ r.price = p := by
  simp [restsAt]

theorem restsAt_of_live {r : OrderRecord} (h : r.live = true) : r.restsAt (.of r.side) r.price = true :=
  restsAt_iff.2 ⟨h, rfl, rfl⟩

theorem restsAt_of_not_live {r : OrderRecord} (h : r.live = false) (s : Side) (p : Int32) :
    r.restsAt s p = false := by
  simp [restsAt, h]

theorem restsAt_other {r : OrderRecord} {s : Side} {p : Int32} (h : ¬(s = .of r.side ∧ p = r.price)) :
    r.restsAt s p = false := by
  rw [Bool.eq_false_iff, Ne, restsAt_iff]
  rintro ⟨-, rfl, rfl⟩
  exact h ⟨rfl, rfl⟩

@[simp] theorem reduce_side (r : OrderRecord) (q : Int32) (c : Bool) : (r.reduce q c).side = r.side := rfl
@[simp] theorem reduce_price (r : OrderRecord) (q : Int32) (c : Bool) : (r.reduce q c).price = r.price := rfl
@[simp] theorem reduce_quantity (r : OrderRecord) (q : Int32) (c : Bool) : (r.reduce q c).quantity = q := rfl
@[simp] theorem reduce_orderId (r : OrderRecord) (q : Int32) (c : Bool) : (r.reduce q c).orderId = r.orderId := rfl
@[simp] theorem reduce_occupied (r : OrderRecord) (q : Int32) (c : Bool) : (r.reduce q c).occupied = r.occupied := rfl
@[simp] theorem reduce_cancelled (r : OrderRecord) (q : Int32) (c : Bool) : (r.reduce q c).cancelled = c := rfl

/-- The deltas that an X or E for a live order passes to `applyDelta`. -/
def deltas (r : OrderRecord) (msg : WireMessage) : Int32 × Int32 :=
  if msg.msgType = 'X'.toUInt8 then
    (msg.cancel.quantity - r.quantity, if msg.cancel.quantity ≤ 0 then -1 else 0)
  else
    (-msg.exec.execQuantity, if r.newQty msg.exec.execQuantity = 0 then -1 else 0)

theorem deltas_cancel (r : OrderRecord) {msg : WireMessage} (hX : msg.msgType = 'X'.toUInt8) :
    r.deltas msg = (msg.cancel.quantity - r.quantity, if msg.cancel.quantity ≤ 0 then -1 else 0) := by
  rw [deltas, if_pos hX]

theorem deltas_execute (r : OrderRecord) {msg : WireMessage} (hE : msg.msgType = 'E'.toUInt8) :
    r.deltas msg = (-msg.exec.execQuantity, if r.newQty msg.exec.execQuantity = 0 then -1 else 0) := by
  rw [deltas, if_neg (by rw [hE]; decide)]

/-- What a fill leaves: the difference, or nothing. -/
theorem newQty_cases {r : OrderRecord} {e : Int32} (he : 0 < e) :
    (e < r.quantity ∧ (r.newQty e).toInt = r.quantity.toInt - e.toInt ∧ 0 < r.newQty e) ∨
      (r.quantity ≤ e ∧ r.newQty e = 0) := by
  have he' := (Int32.pos_iff_toInt _).1 he
  have hlt := r.quantity.toInt_lt
  unfold newQty
  by_cases h : e < r.quantity
  · rw [if_pos h]
    have h' := Int32.lt_iff_toInt_lt.1 h
    have hsub : (r.quantity - e).toInt = r.quantity.toInt - e.toInt :=
      Int32.toInt_sub_of_range (by omega) (by omega)
    exact Or.inl ⟨h, hsub, (Int32.pos_iff_toInt _).2 (by omega)⟩
  · rw [if_neg h]
    exact Or.inr ⟨Int32.not_lt.1 h, rfl⟩

end OrderRecord

namespace LimitOrderBook

variable {Depth : Nat} {TableCapacity : Pow2} {book book' : LimitOrderBook Depth TableCapacity} {msg : WireMessage}

/-! ### The aggregates around a write -/

namespace Moves

variable {i : Fin TableCapacity.val} {r : OrderRecord} {qtyDelta orderDelta : Int32}

/-- Nothing moves at other prices when the old record rests nowhere else than the new one. -/
theorem other_price (h : Moves book book' i r qtyDelta orderDelta)
    (hold : ∀ s p, ¬(s = .of r.side ∧ p = r.price) → (book.orderTable.table.get i).restsAt s p = false) {s : Side}
    {p : Int32} (hsp : ¬(s = .of r.side ∧ p = r.price)) :
    book'.orderTable.total s p = book.orderTable.total s p ∧
      book'.orderTable.number s p = book.orderTable.number s p := by
  have htotal := OrderTable.total_set h.table s p
  have hnumber := OrderTable.number_set h.table s p
  simp only [OrderTable.share, hold s p hsp, OrderRecord.restsAt_other hsp, Bool.false_eq_true, if_false,
    Bool.toNat_false] at htotal hnumber
  omega

/-- Writing a live record where nothing live was. -/
theorem at_price_add (h : Moves book book' i r qtyDelta orderDelta) (hold : (book.orderTable.table.get i).live = false)
    (hr : r.live = true) :
    book'.orderTable.total (.of r.side) r.price = book.orderTable.total (.of r.side) r.price + r.quantity.toInt ∧
      book'.orderTable.number (.of r.side) r.price = book.orderTable.number (.of r.side) r.price + 1 := by
  have htotal := OrderTable.total_set h.table (.of r.side) r.price
  have hnumber := OrderTable.number_set h.table (.of r.side) r.price
  simp only [OrderTable.share, OrderRecord.restsAt_of_not_live hold, OrderRecord.restsAt_of_live hr,
    Bool.false_eq_true, if_false, if_true, Bool.toNat_false, Bool.toNat_true] at htotal hnumber
  omega

/-- Reducing a live record. -/
theorem at_price_reduce {r : OrderRecord} {q : Int32} {c : Bool}
    (h : Moves book book' i (r.reduce q c) qtyDelta orderDelta) (hi : book.orderTable.table.get i = r)
    (hr : r.live = true) :
    book'.orderTable.total (.of r.side) r.price + r.quantity.toInt =
        book.orderTable.total (.of r.side) r.price + (if c then 0 else q.toInt) ∧
      book'.orderTable.number (.of r.side) r.price + 1 =
        book.orderTable.number (.of r.side) r.price + (if c then 0 else 1) := by
  have htotal := OrderTable.total_set h.table (.of r.side) r.price
  have hnumber := OrderTable.number_set h.table (.of r.side) r.price
  have hocc : r.occupied = true := by
    have := hr
    simp only [OrderRecord.live, Bool.and_eq_true] at this
    exact this.1
  rw [hi] at htotal hnumber
  have hnew : (r.reduce q c).restsAt (.of r.side) r.price = !c := by
    simp [OrderRecord.restsAt, OrderRecord.live, hocc]
  simp only [OrderTable.share, hnew, OrderRecord.restsAt_of_live hr, if_true, Bool.toNat_true,
    OrderRecord.reduce_quantity] at htotal hnumber
  cases c <;> simp at htotal hnumber ⊢ <;> omega

/-- The number of orders moves by the order delta of an X or E. -/
theorem number_reduce {r : OrderRecord} {q : Int32} {c : Prop} [Decidable c]
    (h : Moves book book' i (r.reduce q c) qtyDelta orderDelta) (hi : book.orderTable.table.get i = r)
    (hr : r.live = true) :
    (book'.orderTable.number (.of r.side) r.price : ℤ) =
      book.orderTable.number (.of r.side) r.price + (if c then -1 else 0 : Int32).toInt := by
  obtain ⟨-, hnumber⟩ := h.at_price_reduce hi hr
  by_cases hc : c
  · simp only [hc, decide_true, if_true, Nat.add_zero] at hnumber ⊢
    rw [show (-1 : Int32).toInt = -1 from rfl]
    omega
  · simp only [hc, decide_false, Bool.false_eq_true, if_false] at hnumber ⊢
    rw [show (0 : Int32).toInt = 0 from rfl]
    omega

end Moves

/-! ### One message of a well-behaved feed -/

/-- A message that a feed sends in this state: it is valid, an Add does not reuse a live id, and no live total leaves
the range of `int32_t`. -/
def Admissible (book : LimitOrderBook Depth TableCapacity) (msg : WireMessage) : Prop :=
  msg.isValid = true ∧ (msg.msgType = 'A'.toUInt8 → book.orderTable.liveOrder msg.orderId = none) ∧
    (book.processMessage msg).orderTable.Bounded

instance : Decidable (Admissible book msg) := inferInstanceAs (Decidable (_ ∧ _ ∧ _))

/-- A fill takes no more than its order has left. -/
def FillWithin (book : LimitOrderBook Depth TableCapacity) (msg : WireMessage) : Prop :=
  msg.msgType = 'E'.toUInt8 → ∀ r ∈ book.orderTable.liveOrder msg.orderId, msg.exec.execQuantity ≤ r.quantity

instance : Decidable (FillWithin book msg) := inferInstanceAs (Decidable (_ → _))

/-- An Add finds room in the table. -/
def HasRoom (book : LimitOrderBook Depth TableCapacity) (msg : WireMessage) : Prop :=
  msg.msgType = 'A'.toUInt8 →
    (book.orderTable.insert msg.orderId msg.add.side msg.add.price msg.add.quantity msg.timestampNs).isSome = true

instance : Decidable (HasRoom book msg) := inferInstanceAs (Decidable (_ → _))

/-- An admissible message that fills within its order and finds room in the table. -/
def Regular (book : LimitOrderBook Depth TableCapacity) (msg : WireMessage) : Prop :=
  Admissible book msg ∧ FillWithin book msg ∧ HasRoom book msg

instance : Decidable (Regular book msg) := inferInstanceAs (Decidable (_ ∧ _ ∧ _))

/-- The side and price to which a message brings quantity: those of an Add, and those of a live order that an X
raises. -/
def brings (book : LimitOrderBook Depth TableCapacity) (msg : WireMessage) : Option (Side × Int32) :=
  if msg.msgType = 'A'.toUInt8 then
    some (.of msg.add.side, msg.add.price)
  else if msg.msgType = 'X'.toUInt8 then
    match book.orderTable.liveOrder msg.orderId with
    | some r => if r.quantity < msg.cancel.quantity then some (.of r.side, r.price) else none
    | none => none
  else
    none

/-- The message moves the aggregates at the price `p` of the side `s`, and calls `applyDelta` there. -/
structure Transfer (book : LimitOrderBook Depth TableCapacity) (msg : WireMessage) (s : Side) (p : Int32)
    (qtyDelta orderDelta : Int32) : Prop where
  levels : (book.processMessage msg).levels s = applyDelta (book.levels s) p qtyDelta orderDelta s.ascending
  other : ∀ s', s' ≠ s → (book.processMessage msg).levels s' = book.levels s'
  other_price : ∀ s' p', ¬(s' = s ∧ p' = p) →
    (book.processMessage msg).orderTable.total s' p' = book.orderTable.total s' p' ∧
      (book.processMessage msg).orderTable.number s' p' = book.orderTable.number s' p'
  total : book.orderTable.total s p + qtyDelta.toInt ≤ (book.processMessage msg).orderTable.total s p
  exact : FillWithin book msg →
    (book.processMessage msg).orderTable.total s p = book.orderTable.total s p + qtyDelta.toInt
  number : ((book.processMessage msg).orderTable.number s p : ℤ) = book.orderTable.number s p + orderDelta.toInt
  qtyDelta_gt : -2 ^ 31 < qtyDelta.toInt
  orderDelta_cases : orderDelta = 1 ∧ 0 < qtyDelta ∨ orderDelta = 0 ∨ orderDelta = -1 ∧ qtyDelta ≤ 0
  brings : brings book msg = if 0 < qtyDelta then some (s, p) else none
  /-- Only an Add brings quantity to a price where nothing rests. -/
  fresh : 0 < qtyDelta → book.orderTable.number s p = 0 → orderDelta = 1
  /-- Any other message works at the price of its order. -/
  target : orderDelta = 1 ∨ (msg.msgType = 'X'.toUInt8 ∨ msg.msgType = 'E'.toUInt8) ∧
    ∃ r, book.orderTable.liveOrder msg.orderId = some r ∧ Side.of r.side = s ∧ r.price = p ∧
      r.deltas msg = (qtyDelta, orderDelta)

private theorem positive_of_moves {i : Fin TableCapacity.val} {r : OrderRecord} {qtyDelta orderDelta : Int32}
    (h : Moves book book' i r qtyDelta orderDelta) (hpos : book.orderTable.Positive)
    (hr : r.live = true → 0 < r.quantity) : book'.orderTable.Positive := by
  intro j hj
  rw [h.table, VectorSlots.get_set] at hj ⊢
  split at hj
  · rename_i hij
    rw [if_pos hij]
    exact hr hj
  · rename_i hij
    rw [if_neg hij]
    exact hpos j hj

theorem live_of_found {t : OrderTable TableCapacity} {orderId : UInt64} {i : Fin TableCapacity.val}
    (hf : t.lookup orderId = some i) (hc : (t.table.get i).cancelled = false) : (t.table.get i).live = true := by
  simp [OrderRecord.live, (OrderTable.lookup_some hf).1, hc]

/-- Live orders have something left, after any valid message. -/
theorem processMessage_positive (hv : msg.isValid = true) (hpos : book.orderTable.Positive) :
    (book.processMessage msg).orderTable.Positive := by
  rcases processMessage_effect book msg with ⟨-, -, -, hsame⟩ | ⟨-, -, hsame⟩ | ⟨-, -, hsame⟩ | ⟨hA, i, -, hmoves⟩ |
    ⟨hX, i, hf, hc, hmoves⟩ | ⟨hE, i, hf, hc, hmoves⟩
  · rw [hsame.orderTable]; exact hpos
  · rw [hsame.orderTable]; exact hpos
  · rw [hsame.orderTable]; exact hpos
  · exact positive_of_moves hmoves hpos fun _ => (WireMessage.isValid_add hv hA).2.2
  · refine positive_of_moves hmoves hpos fun hlive => ?_
    simp only [OrderRecord.live, OrderRecord.reduce_cancelled, Bool.and_eq_true, Bool.not_eq_true',
      decide_eq_false_iff_not, Int32.not_le] at hlive
    exact hlive.2
  · refine positive_of_moves hmoves hpos fun hlive => ?_
    rcases OrderRecord.newQty_cases (WireMessage.isValid_exec hv hE).1 with
      ⟨-, -, hnew⟩ | ⟨-, hnew⟩
    · exact hnew
    · simp [OrderRecord.live, hnew] at hlive

theorem Admissible.positive (hadm : Admissible book msg) (hpos : book.orderTable.Positive) :
    (book.processMessage msg).orderTable.Positive := processMessage_positive hadm.1 hpos

/-- The old slot of an Add with a fresh id holds nothing live. -/
private theorem not_live_of_stop {t : OrderTable TableCapacity} {orderId : UInt64} {i : Fin TableCapacity.val}
    (hs : OpenAddressing.stop t.occ orderId (OrderTable.probeOrder TableCapacity orderId) = some i)
    (hfresh : t.liveOrder orderId = none) : (t.table.get i).live = false := by
  rw [OrderTable.liveOrder_of_stop hs] at hfresh
  simpa using hfresh

private theorem transfer_add (hadm : Admissible book msg) (hA : msg.msgType = 'A'.toUInt8)
    {i : Fin TableCapacity.val}
    (hs : OpenAddressing.stop book.orderTable.occ msg.orderId
      (OrderTable.probeOrder TableCapacity msg.orderId) = some i)
    (hmoves : Moves book (book.processMessage msg) i
      (OrderTable.record msg.orderId msg.add.side msg.add.price msg.add.quantity msg.timestampNs)
      msg.add.quantity 1) :
    Transfer book msg (.of msg.add.side) msg.add.price msg.add.quantity 1 := by
  obtain ⟨hv, hfresh, -⟩ := hadm
  have hq := (WireMessage.isValid_add hv hA).2.2
  have hold := not_live_of_stop hs (hfresh hA)
  obtain ⟨htotal, hnumber⟩ := hmoves.at_price_add hold rfl
  have hlow := (Int32.pos_iff_toInt _).1 hq
  have hbrings : brings book msg = some (.of msg.add.side, msg.add.price) := by simp [brings, hA]
  exact {
    levels := hmoves.levels
    other := hmoves.other
    other_price := fun s p hsp =>
      hmoves.other_price (fun s p _ => OrderRecord.restsAt_of_not_live hold s p) hsp
    total := htotal.ge
    exact := fun _ => htotal
    number := by
      rw [show (1 : Int32).toInt = 1 from rfl]
      exact_mod_cast hnumber
    qtyDelta_gt := by omega
    orderDelta_cases := Or.inl ⟨rfl, hq⟩
    brings := by rw [if_pos hq, hbrings]
    fresh := fun _ _ => rfl
    target := Or.inl rfl }

/-- A message that reduces a live order, given what becomes of the total. -/
private theorem transfer_reduce {i : Fin TableCapacity.val} {r : OrderRecord} {q qtyDelta : Int32} {c : Prop}
    [Decidable c] (hXE : msg.msgType = 'X'.toUInt8 ∨ msg.msgType = 'E'.toUInt8)
    (hf : book.orderTable.lookup msg.orderId = some i) (hi : book.orderTable.table.get i = r)
    (hc : r.cancelled = false)
    (hmoves : Moves book (book.processMessage msg) i (r.reduce q c) qtyDelta (if c then -1 else 0))
    (hdeltas : r.deltas msg = (qtyDelta, if c then -1 else 0))
    (htotal : book.orderTable.total (.of r.side) r.price + qtyDelta.toInt ≤
      (book.processMessage msg).orderTable.total (.of r.side) r.price)
    (hexact : FillWithin book msg → (book.processMessage msg).orderTable.total (.of r.side) r.price =
      book.orderTable.total (.of r.side) r.price + qtyDelta.toInt)
    (hgt : -2 ^ 31 < qtyDelta.toInt) (hdelete : c → qtyDelta ≤ 0)
    (hbrings : brings book msg = if 0 < qtyDelta then some (.of r.side, r.price) else none) :
    Transfer book msg (.of r.side) r.price qtyDelta (if c then -1 else 0) := by
  have hlive : r.live = true := by
    subst hi
    exact live_of_found hf hc
  have hone : 0 < book.orderTable.number (.of r.side) r.price :=
    OrderTable.number_pos_iff.2 ⟨r, OrderTable.mem_ordersAt.2 ⟨⟨i, hi⟩, hlive, rfl, rfl⟩⟩
  exact {
    levels := hmoves.levels
    other := hmoves.other
    other_price := fun s p hsp => hmoves.other_price
      (fun s p hsp => by rw [hi]; exact OrderRecord.restsAt_other (r := r) hsp) hsp
    total := htotal
    exact := hexact
    number := hmoves.number_reduce hi hlive
    qtyDelta_gt := hgt
    orderDelta_cases := by
      split
      · exact Or.inr (Or.inr ⟨rfl, hdelete ‹c›⟩)
      · exact Or.inr (Or.inl rfl)
    brings := hbrings
    fresh := fun _ h0 => by omega
    target := Or.inr ⟨hXE, r, OrderTable.liveOrder_eq_some.2 ⟨i, hf, hi, hc⟩, rfl, rfl, hdeltas⟩ }

private theorem transfer_cancel (hpos : book.orderTable.Positive) (hadm : Admissible book msg)
    (hX : msg.msgType = 'X'.toUInt8) {i : Fin TableCapacity.val} {r : OrderRecord}
    (hf : book.orderTable.lookup msg.orderId = some i) (hi : book.orderTable.table.get i = r)
    (hc : r.cancelled = false)
    (hmoves : Moves book (book.processMessage msg) i (r.reduce msg.cancel.quantity (msg.cancel.quantity ≤ 0))
      (msg.cancel.quantity - r.quantity) (if msg.cancel.quantity ≤ 0 then -1 else 0)) :
    Transfer book msg (.of r.side) r.price (msg.cancel.quantity - r.quantity)
      (if msg.cancel.quantity ≤ 0 then -1 else 0) := by
  have hlive : r.live = true := by
    subst hi
    exact live_of_found hf hc
  have hr := hpos i (hi ▸ hlive)
  rw [hi] at hr
  have hr' := (Int32.pos_iff_toInt _).1 hr
  have hq := (Int32.nonneg_iff_toInt _).1 (WireMessage.isValid_cancel hadm.1 hX)
  have hltr := r.quantity.toInt_lt
  have hltq := msg.cancel.quantity.toInt_lt
  have hsub : (msg.cancel.quantity - r.quantity).toInt = msg.cancel.quantity.toInt - r.quantity.toInt :=
    Int32.toInt_sub_of_range (by omega) (by omega)
  obtain ⟨htotal, -⟩ := hmoves.at_price_reduce hi hlive
  have hraise : 0 < msg.cancel.quantity - r.quantity ↔ r.quantity < msg.cancel.quantity := by
    rw [Int32.pos_iff_toInt, hsub, Int32.lt_iff_toInt_lt]
    omega
  have hbrings : brings book msg =
      if r.quantity < msg.cancel.quantity then some (.of r.side, r.price) else none := by
    simp [brings, hX, OrderTable.liveOrder_eq_some.2 ⟨i, hf, hi, hc⟩]
  have hexact : (book.processMessage msg).orderTable.total (.of r.side) r.price =
      book.orderTable.total (.of r.side) r.price + (msg.cancel.quantity - r.quantity).toInt := by
    rw [hsub]
    by_cases hz : msg.cancel.quantity ≤ 0
    · have := (Int32.nonpos_iff_toInt _).1 hz
      simp only [hz, decide_true, if_true] at htotal
      omega
    · simp only [hz, decide_false, Bool.false_eq_true, if_false] at htotal
      omega
  apply transfer_reduce (Or.inl hX) hf hi hc hmoves (r.deltas_cancel hX) hexact.ge (fun _ => hexact)
  · omega
  · intro hz
    have := (Int32.nonpos_iff_toInt _).1 hz
    rw [Int32.nonpos_iff_toInt]
    omega
  · simp only [hbrings, hraise]

private theorem transfer_execute (hpos : book.orderTable.Positive) (hadm : Admissible book msg)
    (hE : msg.msgType = 'E'.toUInt8) {i : Fin TableCapacity.val} {r : OrderRecord}
    (hf : book.orderTable.lookup msg.orderId = some i) (hi : book.orderTable.table.get i = r)
    (hc : r.cancelled = false)
    (hmoves : Moves book (book.processMessage msg) i
      (r.reduce (r.newQty msg.exec.execQuantity) (r.newQty msg.exec.execQuantity = 0))
      (-msg.exec.execQuantity) (if r.newQty msg.exec.execQuantity = 0 then -1 else 0)) :
    Transfer book msg (.of r.side) r.price (-msg.exec.execQuantity)
      (if r.newQty msg.exec.execQuantity = 0 then -1 else 0) := by
  have hlive : r.live = true := by
    subst hi
    exact live_of_found hf hc
  have hr := hpos i (hi ▸ hlive)
  rw [hi] at hr
  have he := (WireMessage.isValid_exec hadm.1 hE).1
  have he' := (Int32.pos_iff_toInt _).1 he
  have hlte := msg.exec.execQuantity.toInt_lt
  have hneg := Int32.toInt_neg_of_pos he'
  obtain ⟨htotal, -⟩ := hmoves.at_price_reduce hi hlive
  -- the remaining quantity is clamped at zero, so the orders lose at most what this one has left
  have hfilled : (book.processMessage msg).orderTable.total (.of r.side) r.price =
      book.orderTable.total (.of r.side) r.price - min r.quantity.toInt msg.exec.execQuantity.toInt := by
    rcases OrderRecord.newQty_cases (r := r) he with ⟨hlt, hq, hne⟩ | ⟨hle, hz⟩
    · have := Int32.lt_iff_toInt_lt.1 hlt
      have hne' := (Int32.ne_of_lt hne).symm
      simp only [hne', decide_false, Bool.false_eq_true, if_false] at htotal
      omega
    · have := Int32.le_iff_toInt_le.1 hle
      simp only [hz, decide_true, if_true] at htotal
      omega
  have hnot : ¬ 0 < -msg.exec.execQuantity := by
    rw [Int32.pos_iff_toInt, hneg]
    omega
  have hbrings : brings book msg = none := by
    simp [brings, hE]
  apply transfer_reduce (Or.inr hE) hf hi hc hmoves (r.deltas_execute hE)
  · rw [hneg]
    omega
  · intro hfill
    have hle := Int32.le_iff_toInt_le.1 (hfill hE r (OrderTable.liveOrder_eq_some.2 ⟨i, hf, hi, hc⟩))
    rw [hneg]
    omega
  · omega
  · exact fun _ => Int32.not_lt.1 hnot
  · rw [if_neg hnot, hbrings]

/-- An admissible message changes nothing, or moves the aggregates at one price.  A message that would bring quantity
changes nothing only when the table is exhausted. -/
theorem Admissible.transfer (hadm : Admissible book msg) (hpos : book.orderTable.Positive) :
    (Same book (book.processMessage msg) ∧
      (brings book msg = none ∨ msg.msgType = 'A'.toUInt8 ∧
        book.orderTable.insert msg.orderId msg.add.side msg.add.price msg.add.quantity msg.timestampNs = none)) ∨
      ∃ s p qtyDelta orderDelta, Transfer book msg s p qtyDelta orderDelta := by
  rcases processMessage_effect book msg with ⟨hA, hX, -, hsame⟩ | ⟨hA, hfull, hsame⟩ | ⟨hXE, hdead, hsame⟩ |
    ⟨hA, i, hs, hmoves⟩ | ⟨hX, i, hf, hc, hmoves⟩ | ⟨hE, i, hf, hc, hmoves⟩
  · exact Or.inl ⟨hsame, Or.inl (by simp [brings, hA, hX])⟩
  · exact Or.inl ⟨hsame, Or.inr ⟨hA, hfull⟩⟩
  · refine Or.inl ⟨hsame, Or.inl ?_⟩
    have hnone := OrderTable.liveOrder_of_dead hdead
    have hA : msg.msgType ≠ 'A'.toUInt8 := by
      rcases hXE with h | h <;> rw [h] <;> decide
    simp [brings, hA, hnone]
  · exact Or.inr ⟨_, _, _, _, transfer_add hadm hA hs hmoves⟩
  · exact Or.inr ⟨_, _, _, _, transfer_cancel hpos hadm hX hf rfl hc hmoves⟩
  · exact Or.inr ⟨_, _, _, _, transfer_execute hpos hadm hE hf rfl hc hmoves⟩

/-- An X or E for a live order works at the price of the order. -/
theorem Admissible.transfer_of_live (hadm : Admissible book msg) (hpos : book.orderTable.Positive)
    (hXE : msg.msgType = 'X'.toUInt8 ∨ msg.msgType = 'E'.toUInt8) {r : OrderRecord}
    (hr : book.orderTable.liveOrder msg.orderId = some r) :
    Transfer book msg (.of r.side) r.price (r.deltas msg).1 (r.deltas msg).2 := by
  obtain ⟨i, hf, rfl, hc⟩ := OrderTable.liveOrder_eq_some.1 hr
  rcases hXE with hX | hE
  · rw [OrderRecord.deltas_cancel _ hX]
    exact transfer_cancel hpos hadm hX hf rfl hc (processMessage_cancel hX hf hc)
  · rw [OrderRecord.deltas_execute _ hE]
    exact transfer_execute hpos hadm hE hf rfl hc (processMessage_execute hE hf hc)

theorem get_reset (i : Fin TableCapacity.val) : (reset Depth TableCapacity).orderTable.table.get i = {} :=
  OrderTable.get_clear i

theorem positive_reset (Depth : Nat) (TableCapacity : Pow2) : (reset Depth TableCapacity).orderTable.Positive := by
  intro i hi
  rw [get_reset] at hi
  cases hi

end LimitOrderBook

end FeedHandler
