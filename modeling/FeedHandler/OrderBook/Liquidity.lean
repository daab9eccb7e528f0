import FeedHandler.OrderBook.Transfer

/-!
# No phantom liquidity

A side forgets what does not make its `Depth` levels, so a level may show less than rests at its price; it never shows
more.  The bound is the invariant `Backed`, kept by every way through `applyDelta` along an admissible feed, with fills
of more than was left, evictions and an exhausted table included.
-/

namespace FeedHandler

open SideArray

namespace OrderTable

variable {Capacity : Pow2}

/-- The live orders of a side. -/
def liveOrders (t : OrderTable Capacity) (s : Side) : List OrderRecord :=
  t.table.toList.filter fun r => r.live && Side.of r.side = s

theorem mem_liveOrders {t : OrderTable Capacity} {s : Side} {r : OrderRecord} :
    r ∈ t.liveOrders s ↔ r ∈ t.ordersAt s r.price := by
  simp [liveOrders, ordersAt, OrderRecord.restsAt]

theorem exists_liveOrders {t : OrderTable Capacity} {s : Side} {p : Int32} :
    (∃ r ∈ t.liveOrders s, r.price = p) ↔ 0 < t.number s p := by
  rw [number_pos_iff]
  constructor
  · rintro ⟨r, hr, rfl⟩
    exact ⟨r, mem_liveOrders.1 hr⟩
  · rintro ⟨r, hr⟩
    have hp := (mem_ordersAt.1 hr).2.2.2
    subst hp
    exact ⟨r, mem_liveOrders.2 hr, rfl⟩

end OrderTable

namespace LimitOrderBook

variable {Depth : Nat} {TableCapacity : Pow2} {book : LimitOrderBook Depth TableCapacity} {msg : WireMessage} {s : Side}
  {p qtyDelta orderDelta : Int32}

/-! ### What every admissible run keeps -/

/-- The sides are well shaped and live orders have something left. -/
structure Consistent (book : LimitOrderBook Depth TableCapacity) : Prop where
  shaped : ∀ s, Shaped s.ascending (book.levels s)
  positive : book.orderTable.Positive

theorem consistent_reset (Depth : Nat) (TableCapacity : Pow2) : (reset Depth TableCapacity).Consistent where
  shaped s := by
    rw [levels_reset]
    exact shaped_replicate ..
  positive := positive_reset Depth TableCapacity

theorem Consistent.step (h : book.Consistent) (hDepth : 0 < Depth) (hadm : Admissible book msg) :
    (book.processMessage msg).Consistent where
  shaped := processMessage_shaped hDepth h.shaped msg
  positive := hadm.positive h.positive

theorem shown_reset (s : Side) : (reset Depth TableCapacity).shown s = [] := by
  rw [shown, levels_reset]
  exact visible_replicate Depth

theorem Same.shown {book' : LimitOrderBook Depth TableCapacity} (h : Same book book') (s : Side) :
    book'.shown s = book.shown s := by
  simp only [LimitOrderBook.shown, h.levels]

namespace Transfer

theorem shown (ht : Transfer book msg s p qtyDelta orderDelta) (hDepth : 0 < Depth) (h : book.Consistent) :
    DeltaStep s.ascending Depth p qtyDelta orderDelta (book.shown s) ((book.processMessage msg).shown s) := by
  simp only [LimitOrderBook.shown, ht.levels]
  exact ((h.shaped s).applyDelta_step hDepth p qtyDelta orderDelta).2

theorem shown_other (ht : Transfer book msg s p qtyDelta orderDelta) {s' : Side} (hs : s' ≠ s) :
    (book.processMessage msg).shown s' = book.shown s' := by
  simp only [LimitOrderBook.shown, ht.other s' hs]

end Transfer

/-! ### Levels backed by live orders -/

/-- A level that shows no more than what rests at its price. -/
def BackedBy (t : OrderTable TableCapacity) (s : Side) (l : PriceLevel) : Prop :=
  l.quantity.toInt ≤ t.total s l.price ∧ l.orderCount.toInt ≤ t.number s l.price

/-- Every level shown is backed. -/
def Backed (book : LimitOrderBook Depth TableCapacity) : Prop :=
  ∀ s, ∀ l ∈ book.shown s, BackedBy book.orderTable s l

namespace Transfer

theorem orderDelta_ge (ht : Transfer book msg s p qtyDelta orderDelta) : -1 ≤ orderDelta.toInt := by
  rcases ht.orderDelta_cases with ⟨rfl, -⟩ | rfl | ⟨rfl, -⟩ <;> decide

/-- The sums in an update of a backed level do not overflow, because the totals after the message do not. -/
theorem toInt_bump (ht : Transfer book msg s p qtyDelta orderDelta)
    (hbound : (book.processMessage msg).orderTable.Bounded) (hpos : (book.processMessage msg).orderTable.Positive)
    {l : PriceLevel} (hl : BackedBy book.orderTable s l) (hp : l.price = p) (hq : 0 < l.quantity)
    (ho : 0 < l.orderCount) :
    (l.quantity + qtyDelta).toInt = l.quantity.toInt + qtyDelta.toInt ∧
      (l.orderCount + orderDelta).toInt = l.orderCount.toInt + orderDelta.toInt := by
  subst hp
  obtain ⟨hlq, hlo⟩ := hl
  have hq' := (Int32.pos_iff_toInt _).1 hq
  have ho' := (Int32.pos_iff_toInt _).1 ho
  have htotal := ht.total
  have hnumber := ht.number
  have hlow := ht.qtyDelta_gt
  have horder := ht.orderDelta_ge
  have hlt := hbound s l.price
  have hle := hpos.number_le s l.price
  constructor
  · apply Int32.toInt_add_of_range <;> omega
  · apply Int32.toInt_add_of_range <;> omega

end Transfer

/-- An update in place keeps a level backed. -/
private theorem backed_bump (ht : Transfer book msg s p qtyDelta orderDelta)
    (hbound : (book.processMessage msg).orderTable.Bounded) (hpos : (book.processMessage msg).orderTable.Positive)
    {l : PriceLevel} (hl : BackedBy book.orderTable s l) (hp : l.price = p) (hq : 0 < l.quantity)
    (ho : 0 < l.orderCount) : BackedBy (book.processMessage msg).orderTable s (l.bump qtyDelta orderDelta) := by
  obtain ⟨hsum, hcount⟩ := ht.toInt_bump hbound hpos hl hp hq ho
  subst hp
  obtain ⟨hlq, hlo⟩ := hl
  have htotal := ht.total
  have hnumber := ht.number
  constructor
  · show (l.quantity + qtyDelta).toInt ≤ (book.processMessage msg).orderTable.total s l.price
    omega
  · show (l.orderCount + orderDelta).toInt ≤ (book.processMessage msg).orderTable.number s l.price
    omega

theorem newLevel_orderCount {price qtyDelta orderDelta : Int32} (h : orderDelta = 1 ∨ orderDelta = 0) :
    (newLevel price qtyDelta orderDelta).orderCount = 1 := by
  rcases h with rfl | rfl <;> rfl

theorem Transfer.orderDelta_of_pos (ht : Transfer book msg s p qtyDelta orderDelta) (hδ : 0 < qtyDelta) :
    orderDelta = 1 ∨ orderDelta = 0 := by
  rcases ht.orderDelta_cases with ⟨h, -⟩ | h | ⟨-, h⟩
  · exact Or.inl h
  · exact Or.inr h
  · exact absurd hδ (Int32.not_lt.2 h)

/-- Bringing quantity leaves an order at the price. -/
theorem Transfer.number_pos (ht : Transfer book msg s p qtyDelta orderDelta) (hδ : 0 < qtyDelta) :
    0 < (book.processMessage msg).orderTable.number s p := by
  have hnumber := ht.number
  rcases ht.orderDelta_of_pos hδ with rfl | rfl
  · rw [show (1 : Int32).toInt = 1 from rfl] at hnumber
    omega
  · have hne : book.orderTable.number s p ≠ 0 := fun h0 => absurd (ht.fresh hδ h0) (by decide)
    rw [show (0 : Int32).toInt = 0 from rfl] at hnumber
    omega

/-- A message that brings nothing to a price leaves no order where none was. -/
theorem Transfer.number_pos_of (ht : Transfer book msg s p qtyDelta orderDelta) (hδ : qtyDelta ≤ 0) {p' : Int32}
    (hp' : 0 < (book.processMessage msg).orderTable.number s p') : 0 < book.orderTable.number s p' := by
  by_cases hpp : p' = p
  · subst hpp
    have hnumber := ht.number
    rcases ht.orderDelta_cases with ⟨-, hpos⟩ | rfl | ⟨rfl, -⟩
    · exact absurd hpos (Int32.not_lt.2 hδ)
    · rw [show (0 : Int32).toInt = 0 from rfl] at hnumber
      omega
    · rw [show (-1 : Int32).toInt = -1 from rfl] at hnumber
      omega
  · rw [(ht.other_price s p' fun hc => hpp hc.2).2] at hp'
    exact hp'

private theorem backed_newLevel (ht : Transfer book msg s p qtyDelta orderDelta) (h : book.Consistent)
    (hδ : 0 < qtyDelta) :
    BackedBy (book.processMessage msg).orderTable s (newLevel p qtyDelta orderDelta) := by
  have htotal := ht.total
  have hnonneg := h.positive.total_nonneg s p
  have hone := ht.number_pos hδ
  refine ⟨?_, ?_⟩
  · show qtyDelta.toInt ≤ (book.processMessage msg).orderTable.total s p
    omega
  · rw [newLevel_orderCount (ht.orderDelta_of_pos hδ), show (1 : Int32).toInt = 1 from rfl]
    show (1 : ℤ) ≤ (book.processMessage msg).orderTable.number s p
    omega

/-- A level at another price is as backed as before. -/
private theorem backed_other (ht : Transfer book msg s p qtyDelta orderDelta) {s' : Side} {l : PriceLevel}
    (hne : ¬(s' = s ∧ l.price = p)) (hl : BackedBy book.orderTable s' l) :
    BackedBy (book.processMessage msg).orderTable s' l := by
  obtain ⟨htotal, hnumber⟩ := ht.other_price s' l.price hne
  unfold BackedBy
  rw [htotal, hnumber]
  exact hl

theorem Backed.step (hb : book.Backed) (hDepth : 0 < Depth) (h : book.Consistent) (hadm : Admissible book msg) :
    (book.processMessage msg).Backed := by
  rcases hadm.transfer h.positive with ⟨hsame, -⟩ | ⟨s, p, qtyDelta, orderDelta, ht⟩
  · intro s l hl
    rw [hsame.shown] at hl
    rw [hsame.orderTable]
    exact hb s l hl
  · intro s' l hl
    by_cases hs : s' = s
    · subst hs
      have hpos := hadm.positive h.positive
      have hold : ∀ l ∈ book.shown s', l.price ≠ p → BackedBy (book.processMessage msg).orderTable s' l :=
        fun l hl hne => backed_other ht (fun hc => hne hc.2) (hb s' l hl)
      cases ht.shown hDepth h with
      | update l₀ hl₀ hp _ _ hmem _ =>
        rcases (hmem l).1 hl with rfl | ⟨hl, hne⟩
        · exact backed_bump ht hadm.2.2 hpos (hb s' l₀ hl₀) hp ((h.shaped s').quantity_pos _ hl₀)
            ((h.shaped s').orderCount_pos _ hl₀)
        · exact hold l hl hne
      | delete _ _ _ _ hmem _ =>
        obtain ⟨hl, hne⟩ := (hmem l).1 hl
        exact hold l hl hne
      | ignore hhid _ hsame =>
        rw [hsame] at hl
        exact hold l hl (hhid l hl)
      | insert hhid hδ _ hmem _ =>
        rcases (hmem l).1 hl with rfl | hl
        · exact backed_newLevel ht h hδ
        · exact hold l hl (hhid l hl)
      | replace _ hhid hδ _ _ _ _ hmem _ =>
        rcases (hmem l).1 hl with rfl | ⟨hl, -⟩
        · exact backed_newLevel ht h hδ
        · exact hold l hl (hhid l hl)
      | reject hhid _ _ _ hsame =>
        rw [hsame] at hl
        exact hold l hl (hhid l hl)
    · rw [ht.shown_other hs] at hl
      exact backed_other ht (fun hc => hs hc.1) (hb s' l hl)

theorem backed_reset (Depth : Nat) (TableCapacity : Pow2) : (reset Depth TableCapacity).Backed := by
  intro s l hl
  rw [shown_reset] at hl
  cases hl

/-- A level shown holds orders that are live. -/
theorem Backed.exists_live (hb : book.Backed) (h : book.Consistent) {l : PriceLevel} (hl : l ∈ book.shown s) :
    ∃ r ∈ book.orderTable.liveOrders s, r.price = l.price := by
  have ho := (Int32.pos_iff_toInt _).1 ((h.shaped s).orderCount_pos l hl)
  have hle := (hb s l hl).2
  exact OrderTable.exists_liveOrders.2 (by omega)

/-! ### The top of the book -/

theorem top_bids (h : book.Consistent) :
    book.hasBids = !(book.shown .bid).isEmpty ∧ book.bestBidPrice = ((book.shown .bid).headD {}).price :=
  ⟨(h.shaped .bid).first_active, (h.shaped .bid).first_price⟩

theorem top_asks (h : book.Consistent) :
    book.hasAsks = !(book.shown .ask).isEmpty ∧ book.bestAskPrice = ((book.shown .ask).headD {}).price :=
  ⟨(h.shaped .ask).first_active, (h.shaped .ask).first_price⟩

/-- The book shows no liquidity that is not there: a level's quantity and order count are at most those of the live
orders at its price, so that there is one, and the best price shown is not better than the best live one. -/
structure NoPhantomLiquidity (book : LimitOrderBook Depth TableCapacity) : Prop where
  within : ∀ s, ∀ l ∈ book.shown s, l.quantity.toInt ≤ book.orderTable.total s l.price ∧
    l.orderCount.toInt ≤ book.orderTable.number s l.price
  live : ∀ s, ∀ l ∈ book.shown s, ∃ r ∈ book.orderTable.liveOrders s, r.price = l.price
  bid : book.hasBids = true → ∃ r ∈ book.orderTable.liveOrders .bid, book.bestBidPrice ≤ r.price
  ask : book.hasAsks = true → ∃ r ∈ book.orderTable.liveOrders .ask, r.price ≤ book.bestAskPrice

/-- A side that has a best price has a live order at that price. -/
theorem Backed.exists_best (hb : book.Backed) (h : book.Consistent) (hne : (!(book.shown s).isEmpty) = true) :
    ∃ r ∈ book.orderTable.liveOrders s, r.price = ((book.shown s).headD {}).price := by
  cases hv : book.shown s with
  | nil => simp [hv] at hne
  | cons l rest => exact hb.exists_live h (l := l) (by simp [hv])

theorem Backed.noPhantomLiquidity (hb : book.Backed) (h : book.Consistent) : book.NoPhantomLiquidity where
  within := hb
  live s l hl := hb.exists_live h hl
  bid hbids := by
    obtain ⟨hhas, hbest⟩ := top_bids h
    obtain ⟨r, hr, hp⟩ := hb.exists_best h (hhas ▸ hbids)
    exact ⟨r, hr, by rw [hbest, hp]; exact Int32.le_refl _⟩
  ask hasks := by
    obtain ⟨hhas, hbest⟩ := top_asks h
    obtain ⟨r, hr, hp⟩ := hb.exists_best h (hhas ▸ hasks)
    exact ⟨r, hr, by rw [hbest, hp]; exact Int32.le_refl _⟩

/-- An admissible run keeps the book consistent and its levels backed. -/
theorem always_backed (hDepth : 0 < Depth) {TableCapacity : Pow2} {msgs : List WireMessage}
    (h : Runs.Along processMessage Admissible (reset Depth TableCapacity) msgs) :
    Runs.Always processMessage (fun book => book.Consistent ∧ book.Backed) (reset Depth TableCapacity) msgs :=
  h.always (fun _ _ hI hadm => ⟨hI.1.step hDepth hadm, hI.2.step hDepth hI.1 hadm⟩)
    ⟨consistent_reset Depth TableCapacity, backed_reset Depth TableCapacity⟩

/-- In every state of every admissible run the book shows no phantom liquidity. -/
theorem no_phantom_liquidity (Depth : Nat) (hDepth : 0 < Depth) (TableCapacity : Pow2) (msgs : List WireMessage)
    (h : Runs.Along processMessage Admissible (reset Depth TableCapacity) msgs) :
    Runs.Always processMessage NoPhantomLiquidity (reset Depth TableCapacity) msgs :=
  (always_backed hDepth h).mono fun _ hI => hI.2.noPhantomLiquidity hI.1

/-- An eviction, the return of the evicted price and a fill of more than was left. -/
theorem no_phantom_liquidity_readmitted :
    Runs.Always processMessage NoPhantomLiquidity (reset 1 ⟨4, by decide, by decide⟩)
      [.ofAdd ⟨'A'.toUInt8, 1, 0, 1, 'B'.toUInt8, 99, 10⟩, .ofAdd ⟨'A'.toUInt8, 2, 0, 2, 'B'.toUInt8, 100, 5⟩,
        .ofExec ⟨'E'.toUInt8, 3, 0, 2, 8, 100⟩, .ofAdd ⟨'A'.toUInt8, 4, 0, 3, 'B'.toUInt8, 99, 7⟩] :=
  no_phantom_liquidity 1 (by decide) _ _ (by decide)

end LimitOrderBook

end FeedHandler
