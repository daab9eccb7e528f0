import FeedHandler.OrderBook.Exactness

/-!
# Fills of more than was left

`processExecute` clamps the remaining quantity of the order at zero, but takes the whole `execQuantity` off its level.
At an exact level the two views move together when the order is alone there, or when the fill is within what the order
has left and less than what the level holds; a larger fill is paid for by the other orders of the level.
-/

namespace FeedHandler

open SideArray

namespace OrderTable

variable {Capacity : Pow2} {t : OrderTable Capacity} {s : Side} {p : Int32} {r : OrderRecord}

/-- A single order is all there is. -/
theorem total_of_single (h : t.number s p = 1) (hr : r ∈ t.ordersAt s p) : t.total s p = r.quantity.toInt := by
  obtain ⟨x, hx⟩ := List.length_eq_one_iff.1 h
  rw [hx] at hr
  obtain rfl : r = x := by simpa using hr
  simp [total, hx]

end OrderTable

namespace LimitOrderBook

variable {Depth : Nat} {TableCapacity : Pow2} {book : LimitOrderBook Depth TableCapacity} {msg : WireMessage} {s : Side}
  {p : Int32} {r : OrderRecord} {l : PriceLevel}

/-- The level at a price is exact, or it is absent and no order is live there. -/
def LevelMatches (book : LimitOrderBook Depth TableCapacity) (s : Side) (p : Int32) : Prop :=
  (∃ l ∈ book.shown s, l.price = p ∧ ExactAt book.orderTable s l) ∨
    (∀ l ∈ book.shown s, l.price ≠ p) ∧ book.orderTable.number s p = 0

instance : Decidable (LevelMatches book s p) := inferInstanceAs (Decidable (_ ∨ _))

/-- The aggregates around a fill of a live order. -/
private theorem execute_aggregates (hE : msg.msgType = 'E'.toUInt8) (he : 0 < msg.exec.execQuantity)
    (hr : book.orderTable.liveOrder msg.orderId = some r) :
    ∃ orderDelta : Int32,
      (book.processMessage msg).levels (.of r.side) =
        applyDelta (book.levels (.of r.side)) r.price (-msg.exec.execQuantity) orderDelta (Side.of r.side).ascending ∧
      (msg.exec.execQuantity < r.quantity ∧ orderDelta = 0 ∧
          (book.processMessage msg).orderTable.total (.of r.side) r.price =
            book.orderTable.total (.of r.side) r.price - msg.exec.execQuantity.toInt ∧
          (book.processMessage msg).orderTable.number (.of r.side) r.price =
            book.orderTable.number (.of r.side) r.price ∨
        r.quantity ≤ msg.exec.execQuantity ∧ orderDelta = -1 ∧
          (book.processMessage msg).orderTable.total (.of r.side) r.price =
            book.orderTable.total (.of r.side) r.price - r.quantity.toInt ∧
          (book.processMessage msg).orderTable.number (.of r.side) r.price + 1 =
            book.orderTable.number (.of r.side) r.price) := by
  obtain ⟨i, hf, rfl, hc⟩ := OrderTable.liveOrder_eq_some.1 hr
  have hmoves := processMessage_execute hE hf hc
  obtain ⟨htotal, hnumber⟩ := hmoves.at_price_reduce rfl (live_of_found hf hc)
  refine ⟨_, hmoves.levels, ?_⟩
  rcases OrderRecord.newQty_cases (r := book.orderTable.table.get i) he with ⟨hlt, hq, hpos⟩ | ⟨hle, hz⟩
  · have hne := (Int32.ne_of_lt hpos).symm
    simp only [hne, decide_false, Bool.false_eq_true, if_false] at htotal hnumber
    exact Or.inl ⟨hlt, if_neg hne, by omega, by omega⟩
  · simp only [hz, decide_true, if_true] at htotal hnumber
    exact Or.inr ⟨hle, if_pos hz, by omega, by omega⟩

/-- After a step at a visible price the level there matches exactly when it is exact, or was taken away rightly. -/
theorem levelMatches_iff {book' : LimitOrderBook Depth TableCapacity} {qtyDelta orderDelta : Int32}
    (hs : Shaped s.ascending (book.levels s)) (hDepth : 0 < Depth)
    (hlevels : book'.levels s = applyDelta (book.levels s) p qtyDelta orderDelta s.ascending) (hl : l ∈ book.shown s)
    (hp : l.price = p) :
    LevelMatches book' s p ↔
      (0 < l.quantity + qtyDelta ∧ 0 < l.orderCount + orderDelta) ∧
          ExactAt book'.orderTable s (l.bump qtyDelta orderDelta) ∨
        (l.quantity + qtyDelta ≤ 0 ∨ l.orderCount + orderDelta ≤ 0) ∧ book'.orderTable.number s p = 0 := by
  have hstep := (hs.applyDelta_step hDepth p qtyDelta orderDelta).2
  rw [← hlevels] at hstep
  rcases hstep.of_visible hs.sorted hl hp with ⟨⟨hq, ho⟩, hmem⟩ | ⟨hgone, hmem⟩
  · have hnot : ¬(l.quantity + qtyDelta ≤ 0 ∨ l.orderCount + orderDelta ≤ 0) := by
      rw [not_or, Int32.not_le, Int32.not_le]
      exact ⟨hq, ho⟩
    have hin : l.bump qtyDelta orderDelta ∈ book'.shown s := (hmem _).2 (Or.inl rfl)
    constructor
    · intro hm
      rcases hm with ⟨x, hx, hxp, hex⟩ | ⟨hno, -⟩
      · rcases (hmem x).1 hx with rfl | ⟨-, hne⟩
        · exact Or.inl ⟨⟨hq, ho⟩, hex⟩
        · exact absurd hxp hne
      · exact absurd (show (l.bump qtyDelta orderDelta).price = p from hp) (hno _ hin)
    · intro hm
      rcases hm with ⟨-, hex⟩ | ⟨hgone, -⟩
      · exact Or.inl ⟨_, hin, hp, hex⟩
      · exact absurd hgone hnot
  · have hno : ∀ x ∈ book'.shown s, x.price ≠ p := fun x hx => ((hmem x).1 hx).2
    constructor
    · intro hm
      rcases hm with ⟨x, hx, hxp, -⟩ | ⟨-, h0⟩
      · exact absurd hxp (hno x hx)
      · exact Or.inr ⟨hgone, h0⟩
    · intro hm
      rcases hm with ⟨⟨hq, ho⟩, -⟩ | ⟨-, h0⟩
      · rcases hgone with hgone | hgone
        · exact absurd hq (Int32.not_lt.2 hgone)
        · exact absurd ho (Int32.not_lt.2 hgone)
      · exact Or.inr ⟨hno, h0⟩

/-- The level at the price of a filled order, read over the integers. -/
private theorem levelMatches_fill {book' : LimitOrderBook Depth TableCapacity} {execQuantity orderDelta : Int32}
    (hs : Shaped s.ascending (book.levels s)) (hDepth : 0 < Depth)
    (hlevels : book'.levels s = applyDelta (book.levels s) p (-execQuantity) orderDelta s.ascending)
    (hl : l ∈ book.shown s) (hp : l.price = p) (he : 0 < execQuantity.toInt) (hlow : -1 ≤ orderDelta.toInt)
    (hhigh : orderDelta.toInt ≤ 0) :
    LevelMatches book' s p ↔
      (execQuantity.toInt < l.quantity.toInt ∧ 0 < l.orderCount.toInt + orderDelta.toInt) ∧
          l.quantity.toInt - execQuantity.toInt = book'.orderTable.total s p ∧
          l.orderCount.toInt + orderDelta.toInt = book'.orderTable.number s p ∨
        (l.quantity.toInt ≤ execQuantity.toInt ∨ l.orderCount.toInt + orderDelta.toInt ≤ 0) ∧
          book'.orderTable.number s p = 0 := by
  have hq := (Int32.pos_iff_toInt _).1 (hs.quantity_pos l hl)
  have ho := (Int32.pos_iff_toInt _).1 (hs.orderCount_pos l hl)
  have hlq := l.quantity.toInt_lt
  have hlo := l.orderCount.toInt_lt
  have hle := execQuantity.toInt_lt
  have hneg := Int32.toInt_neg_of_pos he
  have hsum : (l.quantity + -execQuantity).toInt = l.quantity.toInt - execQuantity.toInt := by
    rw [Int32.toInt_add_of_range] <;> omega
  have hcount : (l.orderCount + orderDelta).toInt = l.orderCount.toInt + orderDelta.toInt := by
    apply Int32.toInt_add_of_range <;> omega
  rw [levelMatches_iff hs hDepth hlevels hl hp]
  simp only [ExactAt, PriceLevel.bump, hp, Int32.pos_iff_toInt, Int32.nonpos_iff_toInt, hsum, hcount, sub_pos,
    sub_nonpos]

/-- In every reachable state, a fill of a live order at an exact level leaves the level matching the orders still live
there exactly when the order is alone at the level, or the fill is within what the order has left and less than what
the level holds. -/
theorem over_fill (Depth : Nat) (hDepth : 0 < Depth) (TableCapacity : Pow2) (msgs : List WireMessage)
    (msg : WireMessage) (r : OrderRecord) (l : PriceLevel) (hE : msg.msgType = 'E'.toUInt8) (hv : msg.isValid = true)
    (hr : (run Depth TableCapacity msgs).orderTable.liveOrder msg.orderId = some r)
    (hl : l ∈ (run Depth TableCapacity msgs).shown (.of r.side)) (hp : l.price = r.price)
    (hex : ExactAt (run Depth TableCapacity msgs).orderTable (.of r.side) l) :
    LevelMatches ((run Depth TableCapacity msgs).processMessage msg) (.of r.side) r.price ↔
      (run Depth TableCapacity msgs).orderTable.number (.of r.side) r.price = 1 ∨
        msg.exec.execQuantity ≤ r.quantity ∧ msg.exec.execQuantity < l.quantity := by
  have hshape := run_shaped hDepth TableCapacity msgs (.of r.side)
  generalize run Depth TableCapacity msgs = book at *
  have he := (WireMessage.isValid_exec hv hE).1
  obtain ⟨orderDelta, hlevels, hagg⟩ := execute_aggregates hE he hr
  have he' := (Int32.pos_iff_toInt _).1 he
  have hq := (Int32.pos_iff_toInt _).1 (hshape.quantity_pos l hl)
  have ho := (Int32.pos_iff_toInt _).1 (hshape.orderCount_pos l hl)
  obtain ⟨hexq, hexo⟩ := hex
  rw [hp] at hexq hexo
  have hsingle : book.orderTable.number (.of r.side) r.price = 1 →
      book.orderTable.total (.of r.side) r.price = r.quantity.toInt := fun h1 => by
    obtain ⟨i, hi, rfl, hc⟩ := OrderTable.liveOrder_eq_some.1 hr
    exact OrderTable.total_of_single h1 (OrderTable.mem_ordersAt_self (live_of_found hi hc))
  rw [Int32.le_iff_toInt_le, Int32.lt_iff_toInt_lt]
  rcases hagg with ⟨hlt, hδ, htotal, hnumber⟩ | ⟨hge, hδ, htotal, hnumber⟩
  · -- something is left of the order
    have hlt' := Int32.lt_iff_toInt_lt.1 hlt
    have hδ' : orderDelta.toInt = 0 := by
      rw [hδ]
      rfl
    rw [levelMatches_fill hshape hDepth hlevels hl hp he' (by omega) (by omega)]
    omega
  · -- the order is filled
    have hge' := Int32.le_iff_toInt_le.1 hge
    have hδ' : orderDelta.toInt = -1 := by
      rw [hδ]
      rfl
    rw [levelMatches_fill hshape hDepth hlevels hl hp he' (by omega) (by omega)]
    omega

/-- A partial fill of one of two orders at a level. -/
theorem over_fill_within :
    LevelMatches ((run 1 ⟨4, by decide, by decide⟩
        [.ofAdd ⟨'A'.toUInt8, 1, 0, 1, 'S'.toUInt8, 100, 50⟩,
          .ofAdd ⟨'A'.toUInt8, 2, 0, 2, 'S'.toUInt8, 100, 50⟩]).processMessage
      (.ofExec ⟨'E'.toUInt8, 3, 0, 1, 30, 100⟩)) .ask 100 :=
  (over_fill 1 (by decide) _ _ _ ⟨1, 'S'.toUInt8, true, false, 100, 50, 0⟩ ⟨100, 100, 2, true⟩ (by decide) (by decide)
    (by decide) (by decide) rfl (by decide)).2 (Or.inr (by decide))

/-- Two asks of 50 rest at 100 and the first one is filled with 80: the second one still has its 50, but the level
shows 20. -/
theorem over_fill_takes_from_other :
    ¬ ∀ (Depth : Nat) (TableCapacity : Pow2) (msgs : List WireMessage) (msg : WireMessage) (r : OrderRecord)
      (l : PriceLevel), 0 < Depth → msg.msgType = 'E'.toUInt8 → msg.isValid = true →
        (run Depth TableCapacity msgs).orderTable.liveOrder msg.orderId = some r →
          l ∈ (run Depth TableCapacity msgs).shown (.of r.side) → l.price = r.price →
            ExactAt (run Depth TableCapacity msgs).orderTable (.of r.side) l →
              LevelMatches ((run Depth TableCapacity msgs).processMessage msg) (.of r.side) r.price := by
  intro h
  have hmatch := h 1 ⟨4, by decide, by decide⟩
    [.ofAdd ⟨'A'.toUInt8, 1, 0, 1, 'S'.toUInt8, 100, 50⟩, .ofAdd ⟨'A'.toUInt8, 2, 0, 2, 'S'.toUInt8, 100, 50⟩]
    (.ofExec ⟨'E'.toUInt8, 3, 0, 1, 80, 100⟩) ⟨1, 'S'.toUInt8, true, false, 100, 50, 0⟩ ⟨100, 100, 2, true⟩
    (by decide) (by decide) (by decide) (by decide) (by decide) rfl (by decide)
  exact absurd hmatch (by decide)

end LimitOrderBook

end FeedHandler
