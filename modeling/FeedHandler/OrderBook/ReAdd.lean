import FeedHandler.OrderBook.Exactness

/-!
# An Add of a live id

`insert` overwrites the record of a live id, and `processAdd` adds the new quantity to the new price; what the order
contributed before stays where it was.  From a state in which every live order is shown and every level is exact, the
levels are exact again only when the old level is gone: it was pushed out by the new price, or its sums overflowed.
-/

namespace FeedHandler

open SideArray

namespace LimitOrderBook

variable {Depth : Nat} {TableCapacity : Pow2} {book : LimitOrderBook Depth TableCapacity} {msg : WireMessage} {s : Side}
  {p : Int32} {r : OrderRecord} {l : PriceLevel}

/-- Every live order rests at a price that is shown. -/
def AllShown (book : LimitOrderBook Depth TableCapacity) : Prop :=
  ∀ s, ∀ r ∈ book.orderTable.liveOrders s, ∃ l ∈ book.shown s, l.price = r.price

instance : Decidable (AllShown book) := inferInstanceAs (Decidable (∀ _, _))

/-- The level of the live order `r` goes when `r` is added again: it overflows, or it is the worst level of a full side
and the new price is better and not shown yet. -/
def OldLevelGoes (book : LimitOrderBook Depth TableCapacity) (r : OrderRecord) (msg : AddOrderMsg) : Prop :=
  Side.of msg.side = .of r.side ∧ ∃ l ∈ book.shown (.of r.side), l.price = r.price ∧
    (msg.price = r.price ∧
        (2 ^ 31 ≤ l.quantity.toInt + msg.quantity.toInt ∨ 2 ^ 31 ≤ l.orderCount.toInt + 1) ∨
      (∀ l' ∈ book.shown (.of r.side), l'.price ≠ msg.price) ∧ (book.shown (.of r.side)).length = Depth ∧
        (∀ l' ∈ book.shown (.of r.side), l' ≠ l →
          beats (Side.of r.side).ascending l'.price l.price = true) ∧
        beats (Side.of r.side).ascending msg.price l.price = true)

instance {a : AddOrderMsg} : Decidable (OldLevelGoes book r a) := inferInstanceAs (Decidable (_ ∧ _))

/-- An Add of a live id writes over its record. -/
private theorem readd_moves (hA : msg.msgType = 'A'.toUInt8)
    (hr : book.orderTable.liveOrder msg.orderId = some r) :
    ∃ i, book.orderTable.table.get i = r ∧ r.live = true ∧ Moves book (book.processMessage msg) i
      (OrderTable.record msg.orderId msg.add.side msg.add.price msg.add.quantity msg.timestampNs)
      msg.add.quantity 1 := by
  obtain ⟨j, hj, rfl, hjc⟩ := OrderTable.liveOrder_eq_some.1 hr
  rcases processMessage_add book hA with ⟨hfull, -⟩ | ⟨i, hs, hmoves⟩
  · -- a full table still finds the slot of a stored id
    rw [OrderTable.insert_eq, Option.map_eq_none_iff] at hfull
    rw [OrderTable.lookup_eq, hfull] at hj
    cases hj
  · rcases OrderTable.lookup_of_stop hs with ⟨-, hl⟩ | ⟨-, hl⟩
    · rw [hl] at hj
      cases hj
    · obtain rfl : i = j := Option.some.inj (hl.symm.trans hj)
      exact ⟨i, rfl, live_of_found hl hjc, hmoves⟩

section

variable {book' : LimitOrderBook Depth TableCapacity} {i : Fin TableCapacity.val} {r' : OrderRecord}
  {qtyDelta orderDelta : Int32}

/-- Away from the old and the new price nothing moves. -/
private theorem elsewhere (h : Moves book book' i r' qtyDelta orderDelta) (hi : book.orderTable.table.get i = r)
    (hold : ¬(s = .of r.side ∧ p = r.price)) (hnew : ¬(s = .of r'.side ∧ p = r'.price)) :
    book'.orderTable.total s p = book.orderTable.total s p ∧
      book'.orderTable.number s p = book.orderTable.number s p := by
  have htotal := OrderTable.total_set h.table s p
  have hnumber := OrderTable.number_set h.table s p
  rw [hi] at htotal hnumber
  simp only [OrderTable.share, OrderRecord.restsAt_other hold, OrderRecord.restsAt_other hnew, Bool.false_eq_true,
    if_false, Bool.toNat_false] at htotal hnumber
  omega

/-- Levels that are away from both prices stay exact. -/
private theorem exactAt_elsewhere (h : Moves book book' i r' qtyDelta orderDelta)
    (hi : book.orderTable.table.get i = r) (hex : book.Exact) {x : PriceLevel} (hx : x ∈ book.shown s)
    (hold : ¬(s = .of r.side ∧ x.price = r.price)) (hnew : ¬(s = .of r'.side ∧ x.price = r'.price)) :
    ExactAt book'.orderTable s x := by
  obtain ⟨htotal, hnumber⟩ := elsewhere h hi hold hnew
  unfold ExactAt
  rw [htotal, hnumber]
  exact hex s x hx

private theorem shown_other_side (h : Moves book book' i r' qtyDelta orderDelta) (hss : s ≠ .of r'.side) :
    book'.shown s = book.shown s := by
  simp only [LimitOrderBook.shown, h.other s hss]

/-- At the old price one order less rests, unless the new record rests there too. -/
private theorem number_old (h : Moves book book' i r' qtyDelta orderDelta) (hi : book.orderTable.table.get i = r)
    (hr : r.live = true) :
    book'.orderTable.number (.of r.side) r.price + 1 =
      book.orderTable.number (.of r.side) r.price + (r'.restsAt (.of r.side) r.price).toNat := by
  have hnumber := OrderTable.number_set h.table (.of r.side) r.price
  rw [hi, OrderRecord.restsAt_of_live hr] at hnumber
  exact hnumber

/-- At a new price where nothing rested the new record is all there is. -/
private theorem alone_new (h : Moves book book' i r' qtyDelta orderDelta) (hi : book.orderTable.table.get i = r)
    (hold : ¬(Side.of r'.side = .of r.side ∧ r'.price = r.price)) (hr' : r'.live = true)
    (h0 : book.orderTable.number (.of r'.side) r'.price = 0) :
    book'.orderTable.total (.of r'.side) r'.price = r'.quantity.toInt ∧
      book'.orderTable.number (.of r'.side) r'.price = 1 := by
  have htotal := OrderTable.total_set h.table (.of r'.side) r'.price
  have hnumber := OrderTable.number_set h.table (.of r'.side) r'.price
  have hzero := OrderTable.total_eq_zero h0
  rw [hi] at htotal hnumber
  simp only [OrderTable.share, OrderRecord.restsAt_other hold, OrderRecord.restsAt_of_live hr', Bool.false_eq_true,
    if_false, if_true, Bool.toNat_false, Bool.toNat_true] at htotal hnumber
  omega

end

/-- The level of the order stays and is stale: it counts the order that has left. -/
private theorem stale (hl : l ∈ book.shown s) (hnumber : book.orderTable.number s l.price ≠ l.orderCount.toInt) :
    ¬ book.Exact := fun hex => hnumber (hex s l hl).2.symm

/-- The order comes back at its old price: the level counts it twice, unless it overflows. -/
private theorem readd_same_price {book' : LimitOrderBook Depth TableCapacity} {i : Fin TableCapacity.val}
    {r' : OrderRecord} (hs : ∀ s, Shaped s.ascending (book.levels s)) (hDepth : 0 < Depth)
    (h : Moves book book' i r' r'.quantity 1) (hi : book.orderTable.table.get i = r) (hr : r.live = true)
    (hr' : r'.live = true) (hq' : 0 < r'.quantity) (hside : Side.of r'.side = .of r.side)
    (hprice : r'.price = r.price) (hex : book.Exact) (hl : l ∈ book.shown (.of r.side)) (hp : l.price = r.price) :
    book'.Exact ↔ 2 ^ 31 ≤ l.quantity.toInt + r'.quantity.toInt ∨ 2 ^ 31 ≤ l.orderCount.toInt + 1 := by
  have hq := (Int32.pos_iff_toInt _).1 ((hs _).quantity_pos l hl)
  have ho := (Int32.pos_iff_toInt _).1 ((hs _).orderCount_pos l hl)
  have hold := number_old h hi hr
  have hrest : r'.restsAt (.of r.side) r.price = true := OrderRecord.restsAt_iff.2 ⟨hr', hside, hprice⟩
  rw [hrest, Bool.toNat_true] at hold
  have hexo := (hex _ l hl).2
  rw [hp] at hexo
  have hstep := ((hs (.of r.side)).applyDelta_step hDepth r.price r'.quantity 1).2
  have hlevels := h.levels
  rw [hside, hprice] at hlevels
  rw [← hlevels] at hstep
  have hsumq := Int32.add_pos_iff hq ((Int32.pos_iff_toInt _).1 hq')
  have hsumo := Int32.add_pos_iff (b := 1) ho (by decide)
  have hone : (1 : Int32).toInt = 1 := rfl
  rcases hstep.of_visible (hs _).sorted hl hp with ⟨⟨hqpos, hopos⟩, hmem⟩ | ⟨hgone, hmem⟩
  · have hqlt := hsumq.1 hqpos
    have holt := hsumo.1 hopos
    refine iff_of_false (stale (s := .of r.side) ((hmem _).2 (Or.inl rfl)) ?_) (by omega)
    show (book'.orderTable.number (.of r.side) l.price : ℤ) ≠ (l.orderCount + 1).toInt
    rw [Int32.toInt_add_of_range (by omega) (by omega), hp]
    omega
  · refine iff_of_true (fun s x hx => ?_) ?_
    · have hne : ¬(s = .of r.side ∧ x.price = r.price) := by
        rintro ⟨rfl, hxp⟩
        exact ((hmem x).1 hx).2 hxp
      have hxold : x ∈ book.shown s := by
        by_cases hss : s = .of r.side
        · subst hss
          exact ((hmem x).1 hx).1
        · rwa [shown_other_side h (by rw [hside]; exact hss)] at hx
      exact exactAt_elsewhere h hi hex hxold hne (by rw [hside, hprice]; exact hne)
    · rcases hgone with hgone | hgone
      · have := hsumq.not.1 (Int32.not_lt.2 hgone)
        omega
      · have := hsumo.not.1 (Int32.not_lt.2 hgone)
        omega

/-- The order comes back elsewhere: its old level is stale for as long as it is shown. -/
private theorem stale_if_shown {book' : LimitOrderBook Depth TableCapacity} {i : Fin TableCapacity.val}
    {r' : OrderRecord} (h : Moves book book' i r' r'.quantity 1) (hi : book.orderTable.table.get i = r)
    (hr : r.live = true) (hne : ¬(Side.of r'.side = .of r.side ∧ r'.price = r.price)) (hex : book.Exact)
    (hl : l ∈ book.shown (.of r.side)) (hp : l.price = r.price) (hl' : l ∈ book'.shown (.of r.side)) :
    ¬ book'.Exact := by
  have hold := number_old h hi hr
  have hgone : r'.restsAt (.of r.side) r.price = false := OrderRecord.restsAt_other fun hc => hne ⟨hc.1.symm, hc.2.symm⟩
  rw [hgone, Bool.toNat_false] at hold
  have hexo := (hex _ l hl).2
  refine stale hl' ?_
  rw [hexo, hp]
  omega

/-- Its new level takes the place of the old one: the levels are exact. -/
private theorem exact_pushed_out {book' : LimitOrderBook Depth TableCapacity} {i : Fin TableCapacity.val}
    {r' : OrderRecord} (hs : ∀ s, Shaped s.ascending (book.levels s)) (h : Moves book book' i r' r'.quantity 1)
    (hi : book.orderTable.table.get i = r) (hr' : r'.live = true) (hside : Side.of r'.side = .of r.side)
    (hprice : r'.price ≠ r.price) (hall : book.AllShown) (hex : book.Exact) (hl : l ∈ book.shown (.of r.side))
    (hp : l.price = r.price) (hhid : ∀ l' ∈ book.shown (.of r.side), l'.price ≠ r'.price)
    (hmem : ∀ x, x ∈ book'.shown (.of r.side) ↔
      x = newLevel r'.price r'.quantity 1 ∨ x ∈ book.shown (.of r.side) ∧ x ≠ l) : book'.Exact := by
  have hne : ¬(Side.of r'.side = .of r.side ∧ r'.price = r.price) := fun hc => hprice hc.2
  have h0 : book.orderTable.number (.of r'.side) r'.price = 0 := by
    rw [← Nat.le_zero, ← not_lt]
    intro hpos
    obtain ⟨y, hy, hyp⟩ := OrderTable.exists_liveOrders.2 hpos
    obtain ⟨l', hl', hl'p⟩ := hall _ y hy
    rw [hside] at hl'
    exact hhid l' hl' (hl'p.trans hyp)
  intro s x hx
  by_cases hss : s = .of r.side
  · subst hss
    rcases (hmem x).1 hx with rfl | ⟨hx, hxl⟩
    · obtain ⟨htotal, hnumber⟩ := alone_new h hi hne hr' h0
      rw [hside] at htotal hnumber
      refine ⟨htotal.symm, ?_⟩
      show (1 : Int32).toInt = (book'.orderTable.number (.of r.side) r'.price : ℤ)
      rw [hnumber]
      rfl
    · refine exactAt_elsewhere h hi hex hx (fun hc => hxl ?_) fun hc => hhid x hx hc.2
      exact (hs _).sorted.inj hx hl (by rw [hc.2, hp])
  · rw [shown_other_side h (by rw [hside]; exact hss)] at hx
    exact exactAt_elsewhere h hi hex hx (fun hc => hss hc.1) fun hc => hss (hc.1.trans hside)

/-- The order comes back at another price of its side: the levels are exact when the new price pushes the old level
out. -/
private theorem readd_other_price {book' : LimitOrderBook Depth TableCapacity} {i : Fin TableCapacity.val}
    {r' : OrderRecord} (hs : ∀ s, Shaped s.ascending (book.levels s)) (hDepth : 0 < Depth)
    (h : Moves book book' i r' r'.quantity 1) (hi : book.orderTable.table.get i = r) (hr : r.live = true)
    (hr' : r'.live = true) (hq' : 0 < r'.quantity) (hside : Side.of r'.side = .of r.side) (hprice : r'.price ≠ r.price)
    (hall : book.AllShown) (hex : book.Exact) (hl : l ∈ book.shown (.of r.side)) (hp : l.price = r.price) :
    book'.Exact ↔ (∀ l' ∈ book.shown (.of r.side), l'.price ≠ r'.price) ∧
      (book.shown (.of r.side)).length = Depth ∧
      (∀ l' ∈ book.shown (.of r.side), l' ≠ l → beats (Side.of r.side).ascending l'.price l.price = true) ∧
      beats (Side.of r.side).ascending r'.price l.price = true := by
  have hne : ¬(Side.of r'.side = .of r.side ∧ r'.price = r.price) := fun hc => hprice hc.2
  have hstay := stale_if_shown h hi hr hne hex hl hp
  have hlevels := h.levels
  rw [hside] at hlevels
  have hstep := ((hs (.of r.side)).applyDelta_step hDepth r'.price r'.quantity 1).2
  rw [← hlevels] at hstep
  have hlp : l.price ≠ r'.price := fun hc => hprice (hc.symm.trans hp)
  cases hstep with
  | update x hx hxp _ _ hmem _ => exact iff_of_false (hstay ((hmem l).2 (Or.inr ⟨hl, hlp⟩))) fun hc => hc.1 x hx hxp
  | delete x hx hxp _ hmem _ => exact iff_of_false (hstay ((hmem l).2 ⟨hl, hlp⟩)) fun hc => hc.1 x hx hxp
  | ignore _ hδ _ => exact absurd hq' (Int32.not_lt.2 hδ)
  | insert _ _ hroom hmem _ =>
    refine iff_of_false (hstay ((hmem l).2 (Or.inr hl))) fun hc => ?_
    have hfull : (visible (book.levels (.of r.side))).length = Depth := hc.2.1
    omega
  | replace w hhid _ hfull hw hworst himp hmem _ =>
    by_cases hwl : w = l
    · -- the old level gives way
      subst hwl
      exact iff_of_true (exact_pushed_out hs h hi hr' hside hprice hall hex hl hp hhid hmem)
        ⟨hhid, hfull, fun l' hl' hne' => beats_iff.2 (hworst l' hl' hne'), beats_iff.2 himp⟩
    · refine iff_of_false (hstay ((hmem l).2 (Or.inr ⟨hl, Ne.symm hwl⟩))) fun hc => ?_
      exact absurd (hworst l hl (Ne.symm hwl)) (not_lt.2 (beats_iff.1 (hc.2.2.1 w hw hwl)).le)
  | reject _ _ _ hworse hsame =>
    refine iff_of_false (hstay (by rw [LimitOrderBook.shown, hsame]; exact hl)) fun hc => ?_
    exact absurd (beats_iff.1 hc.2.2.2) (not_lt.2 (hworse l hl).le)

/-- From every reachable state in which all live orders are shown and every level is exact: after an Add of a live id
every level is exact exactly when the old level of the order goes. -/
theorem re_add (Depth : Nat) (hDepth : 0 < Depth) (TableCapacity : Pow2) (msgs : List WireMessage) (msg : WireMessage)
    (r : OrderRecord) (hA : msg.msgType = 'A'.toUInt8) (hv : msg.isValid = true)
    (hr : (run Depth TableCapacity msgs).orderTable.liveOrder msg.orderId = some r)
    (hall : (run Depth TableCapacity msgs).AllShown) (hex : (run Depth TableCapacity msgs).Exact) :
    ((run Depth TableCapacity msgs).processMessage msg).Exact ↔
      OldLevelGoes (run Depth TableCapacity msgs) r msg.add := by
  have hs := run_shaped hDepth TableCapacity msgs
  generalize run Depth TableCapacity msgs = book at *
  obtain ⟨i, hi, hlive, hmoves⟩ := readd_moves hA hr
  have hq := (WireMessage.isValid_add hv hA).2.2
  obtain ⟨l, hl, hp⟩ := hall (.of r.side) r
    (OrderTable.mem_liveOrders.2 (OrderTable.mem_ordersAt.2 ⟨⟨i, hi⟩, hlive, rfl, rfl⟩))
  have huniq : ∀ x ∈ book.shown (.of r.side), x.price = r.price → x = l := fun x hx hxp =>
    (hs _).sorted.inj hx hl (by rw [hxp, hp])
  by_cases hside : Side.of msg.add.side = .of r.side
  · by_cases hprice : msg.add.price = r.price
    · rw [readd_same_price hs hDepth hmoves hi hlive rfl hq hside hprice hex hl hp]
      constructor
      · intro hover
        exact ⟨hside, l, hl, hp, Or.inl ⟨hprice, hover⟩⟩
      · intro hgoes
        obtain ⟨-, x, hx, hxp, ⟨-, hover⟩ | ⟨hhid, -, -, -⟩⟩ := hgoes
        · obtain rfl := huniq x hx hxp
          exact hover
        · exact absurd (hp.trans hprice.symm) (hhid l hl)
    · rw [readd_other_price hs hDepth hmoves hi hlive rfl hq hside hprice hall hex hl hp]
      constructor
      · intro hout
        exact ⟨hside, l, hl, hp, Or.inr hout⟩
      · intro hgoes
        obtain ⟨-, x, hx, hxp, ⟨hprice', -⟩ | hout⟩ := hgoes
        · exact absurd hprice' hprice
        · obtain rfl := huniq x hx hxp
          exact hout
  · refine iff_of_false (stale_if_shown hmoves hi hlive (fun hc => hside hc.1) hex hl hp ?_) fun hc => hside hc.1
    rw [shown_other_side hmoves (Ne.symm hside)]
    exact hl

/-- A bid at 99 comes back at 100 in a book of one level: the new price pushes the old one out. -/
theorem re_add_pushes_out :
    ((run 1 ⟨4, by decide, by decide⟩ [.ofAdd ⟨'A'.toUInt8, 1, 0, 1, 'B'.toUInt8, 99, 5⟩]).processMessage
      (.ofAdd ⟨'A'.toUInt8, 2, 0, 1, 'B'.toUInt8, 100, 7⟩)).Exact :=
  (re_add 1 (by decide) _ _ _ ⟨1, 'B'.toUInt8, true, false, 99, 5, 0⟩ (by decide) (by decide) (by decide) (by decide)
    (by decide)).2 (by decide)

/-- The same Add twice: 5 lots rest in one order, the level shows 10 in two. -/
theorem re_add_counted_twice :
    ¬ ∀ (Depth : Nat) (TableCapacity : Pow2) (msgs : List WireMessage) (msg : WireMessage) (r : OrderRecord),
      0 < Depth → msg.msgType = 'A'.toUInt8 → msg.isValid = true →
        (run Depth TableCapacity msgs).orderTable.liveOrder msg.orderId = some r →
          (run Depth TableCapacity msgs).AllShown → (run Depth TableCapacity msgs).Exact →
            ((run Depth TableCapacity msgs).processMessage msg).Exact := by
  intro h
  have hexact := h 2 ⟨4, by decide, by decide⟩ [.ofAdd ⟨'A'.toUInt8, 1, 0, 1, 'B'.toUInt8, 100, 5⟩]
    (.ofAdd ⟨'A'.toUInt8, 2, 0, 1, 'B'.toUInt8, 100, 5⟩) ⟨1, 'B'.toUInt8, true, false, 100, 5, 0⟩ (by decide)
    (by decide) (by decide) (by decide) (by decide) (by decide)
  exact absurd hexact (by decide)

end LimitOrderBook

end FeedHandler
