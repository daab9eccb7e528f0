import FeedHandler.OrderBook.Liquidity

/-!
# The top of the book

The best price of a side is right as long as what is shown covers every live order of the side: some level shown is at
least as good as the order's price (`Covers`).  Orders whose price was pushed out of the array, or never made it, are
not promoted when room appears, so a message that takes the best level away may leave a live order that nothing shown
covers (`Exposes`).  These are the only messages after which the top of the book is wrong.
-/

namespace FeedHandler

open SideArray

namespace LimitOrderBook

variable {Depth : Nat} {TableCapacity : Pow2} {book : LimitOrderBook Depth TableCapacity} {msg : WireMessage} {s : Side}
  {p qtyDelta orderDelta : Int32}

/-- The top of the book agrees with the live orders: a side has a best price exactly when it has a live order, and
then it is the best price of a live order. -/
def TopOfBook (book : LimitOrderBook Depth TableCapacity) : Prop :=
  ((book.hasBids = true ↔ book.orderTable.liveOrders .bid ≠ []) ∧
    (book.hasBids = true → (∃ r ∈ book.orderTable.liveOrders .bid, r.price = book.bestBidPrice) ∧
      ∀ r ∈ book.orderTable.liveOrders .bid, r.price ≤ book.bestBidPrice)) ∧
  (book.hasAsks = true ↔ book.orderTable.liveOrders .ask ≠ []) ∧
    (book.hasAsks = true → (∃ r ∈ book.orderTable.liveOrders .ask, r.price = book.bestAskPrice) ∧
      ∀ r ∈ book.orderTable.liveOrders .ask, book.bestAskPrice ≤ r.price)

instance : Decidable (TopOfBook book) := inferInstanceAs (Decidable (_ ∧ _))

/-- The message is an X or E that empties the best level shown on the side of its order, while an order that stays live
there is better than every other level shown. -/
def Exposes (book : LimitOrderBook Depth TableCapacity) (msg : WireMessage) : Prop :=
  (msg.msgType = 'X'.toUInt8 ∨ msg.msgType = 'E'.toUInt8) ∧ ∃ r ∈ book.orderTable.liveOrder msg.orderId,
    (∃ l ∈ (book.shown (.of r.side)).head?, l.price = r.price ∧
      (l.quantity + (r.deltas msg).1 ≤ 0 ∨ l.orderCount + (r.deltas msg).2 ≤ 0)) ∧
    ∃ r' ∈ book.orderTable.liveOrders (.of r.side),
      (r'.price = r.price → (r.deltas msg).2 = 0 ∨ 1 < book.orderTable.number (.of r.side) r.price) ∧
      ∀ l ∈ (book.shown (.of r.side)).tail, beats (Side.of r.side).ascending r'.price l.price = true

instance : Decidable (Exposes book msg) := inferInstanceAs (Decidable (_ ∧ ∃ _, _))

/-! ### Covering -/

/-- Every live order of the side has a level shown that is at least as good. -/
def Covers (book : LimitOrderBook Depth TableCapacity) (s : Side) : Prop :=
  ∀ p, 0 < book.orderTable.number s p → ∃ l ∈ book.shown s, rank s.ascending l.price ≤ rank s.ascending p

/-- A side that shows anything shows a best level. -/
theorem Consistent.exists_best (h : book.Consistent) {l : PriceLevel} (hl : l ∈ book.shown s) :
    ∃ l₀, (book.shown s).head? = some l₀ ∧ l₀ ∈ book.shown s ∧
      ∀ l' ∈ book.shown s, rank s.ascending l₀.price ≤ rank s.ascending l'.price := by
  have hsorted := (h.shaped s).sorted
  change BestFirst s.ascending (book.shown s) at hsorted
  cases hv : book.shown s with
  | nil =>
    rw [hv] at hl
    cases hl
  | cons l₀ rest =>
    rw [hv] at hsorted
    exact ⟨l₀, rfl, by simp, fun l' hl' => hsorted.head_le hl'⟩

/-- Where a message changed nothing, what was covered stays covered. -/
private theorem covers_of_eq {book' : LimitOrderBook Depth TableCapacity} (hc : book.Covers s)
    (hshown : book'.shown s = book.shown s) (hnumber : ∀ p, book'.orderTable.number s p = book.orderTable.number s p) :
    book'.Covers s := by
  intro p hp
  rw [hnumber] at hp
  rw [hshown]
  exact hc p hp

/-- A message that takes a backed level away is no Add. -/
private theorem orderDelta_ne_one (ht : Transfer book msg s p qtyDelta orderDelta) (h : book.Consistent)
    (hadm : Admissible book msg) {l : PriceLevel} (hl : l ∈ book.shown s) (hback : BackedBy book.orderTable s l)
    (hp : l.price = p) (hgone : l.quantity + qtyDelta ≤ 0 ∨ l.orderCount + orderDelta ≤ 0) : orderDelta ≠ 1 := by
  intro hone
  have hq := (h.shaped s).quantity_pos l hl
  have ho := (h.shaped s).orderCount_pos l hl
  obtain ⟨hsum, hcount⟩ := ht.toInt_bump hadm.2.2 (hadm.positive h.positive) hback hp hq ho
  have hδ : 0 < qtyDelta := by
    rcases ht.orderDelta_cases with ⟨-, hδ⟩ | h0 | ⟨h0, -⟩
    · exact hδ
    · exact absurd (hone.symm.trans h0) (by decide)
    · exact absurd (hone.symm.trans h0) (by decide)
  have hone' : orderDelta.toInt = 1 := by
    rw [hone]
    rfl
  rw [Int32.pos_iff_toInt] at hq ho hδ
  rw [Int32.nonpos_iff_toInt, Int32.nonpos_iff_toInt] at hgone
  omega

/-- The orders that stay live at the price of an order that a message reduces. -/
private theorem number_pos_reduced (ht : Transfer book msg s p qtyDelta orderDelta) (hone : orderDelta ≠ 1)
    {p' : Int32} :
    0 < (book.processMessage msg).orderTable.number s p' ↔
      0 < book.orderTable.number s p' ∧ (p' = p → orderDelta = 0 ∨ 1 < book.orderTable.number s p) := by
  by_cases hpp : p' = p
  · subst hpp
    have hnumber := ht.number
    rcases ht.orderDelta_cases with ⟨h1, -⟩ | rfl | ⟨rfl, -⟩
    · exact absurd h1 hone
    · rw [show (0 : Int32).toInt = 0 from rfl] at hnumber
      simp
      omega
    · rw [show (-1 : Int32).toInt = -1 from rfl] at hnumber
      have hne : (-1 : Int32) ≠ 0 := by decide
      simp only [hne, false_or, forall_const]
      omega
  · rw [(ht.other_price s p' fun hc => hpp hc.2).2]
    simp [hpp]

/-- A side that is covered after a message had no order exposed by it. -/
private theorem not_exposes_of_covers (hDepth : 0 < Depth) (h : book.Consistent) (hadm : Admissible book msg)
    (hb : book.Backed) (hc : ∀ s, (book.processMessage msg).Covers s) : ¬ Exposes book msg := by
  rintro ⟨hXE, r, hr, ⟨l₀, hl₀, hp, hgone⟩, r', hr', hstays, hbeats⟩
  have ht := hadm.transfer_of_live h.positive hXE hr
  obtain ⟨rest, hv⟩ := List.head?_eq_some_iff.1 hl₀
  have hmem₀ : l₀ ∈ book.shown (.of r.side) := by simp [hv]
  have hone := orderDelta_ne_one ht h hadm hmem₀ (hb _ l₀ hmem₀) hp hgone
  have hlive : 0 < book.orderTable.number (.of r.side) r'.price :=
    OrderTable.exists_liveOrders.1 ⟨r', hr', rfl⟩
  obtain ⟨l, hl, hle⟩ := hc _ r'.price ((number_pos_reduced ht hone).2 ⟨hlive, hstays⟩)
  rcases (ht.shown hDepth h).of_visible (h.shaped _).sorted hmem₀ hp with ⟨⟨hq, ho⟩, -⟩ | ⟨-, hmem⟩
  · rcases hgone with hgone | hgone
    · exact absurd hq (Int32.not_lt.2 hgone)
    · exact absurd ho (Int32.not_lt.2 hgone)
  · obtain ⟨hl, hne⟩ := (hmem l).1 hl
    have htail : l ∈ (book.shown (.of r.side)).tail := by
      rw [hv] at hl ⊢
      rcases List.mem_cons.1 hl with rfl | hl
      · exact absurd hp hne
      · exact hl
    exact absurd (beats_iff.1 (hbeats l htail)) (not_lt.2 hle)

/-- When the best level is taken away, some live order is exposed, or all are covered. -/
private theorem covers_best_gone (h : book.Consistent) (hadm : Admissible book msg) (hb : book.Backed)
    (ht : Transfer book msg s p qtyDelta orderDelta) (hx : ¬ Exposes book msg) {l : PriceLevel}
    (hbest : (book.shown s).head? = some l) (hl : l ∈ book.shown s) (hp : l.price = p)
    (hgone : l.quantity + qtyDelta ≤ 0 ∨ l.orderCount + orderDelta ≤ 0)
    (hmem : ∀ x, x ∈ (book.processMessage msg).shown s ↔ x ∈ book.shown s ∧ x.price ≠ p) :
    (book.processMessage msg).Covers s := by
  intro p' hp'
  by_contra hno
  apply hx
  have hone := orderDelta_ne_one ht h hadm hl (hb s l hl) hp hgone
  obtain ⟨hlive, hstays⟩ := (number_pos_reduced ht hone).1 hp'
  obtain ⟨r', hr', rfl⟩ := OrderTable.exists_liveOrders.2 hlive
  rcases ht.target with h1 | ⟨hXE, r, hr, rfl, rfl, hdeltas⟩
  · exact absurd h1 hone
  · refine ⟨hXE, r, hr, ⟨l, hbest, hp, ?_⟩, r', hr', ?_, fun l' hl' => ?_⟩
    · rw [hdeltas]
      exact hgone
    · rw [hdeltas]
      exact hstays
    · have hsorted := (h.shaped (.of r.side)).sorted
      change BestFirst (Side.of r.side).ascending (book.shown (.of r.side)) at hsorted
      obtain ⟨rest, hv⟩ := List.head?_eq_some_iff.1 hbest
      have hin : l' ∈ book.shown (.of r.side) := List.mem_of_mem_tail hl'
      rw [hv] at hsorted hl'
      have hlt := hsorted.head_lt hl'
      rw [beats_iff, ← not_le]
      intro hle
      refine hno ⟨l', (hmem l').2 ⟨hin, fun hlp => ?_⟩, hle⟩
      rw [hlp, hp] at hlt
      exact absurd hlt (lt_irrefl _)

/-- The side on which the message works stays covered, unless the message exposes an order there. -/
private theorem covers_moved (hDepth : 0 < Depth) (h : book.Consistent) (hadm : Admissible book msg)
    (hb : book.Backed) (hc : book.Covers s) (ht : Transfer book msg s p qtyDelta orderDelta)
    (hx : ¬ Exposes book msg) : (book.processMessage msg).Covers s := by
  have hother : ∀ p', p' ≠ p → 0 < (book.processMessage msg).orderTable.number s p' →
      ∃ l ∈ book.shown s, rank s.ascending l.price ≤ rank s.ascending p' := fun p' hne hp' => by
    rw [(ht.other_price s p' fun hc => hne hc.2).2] at hp'
    exact hc p' hp'
  cases ht.shown hDepth h with
  | update l hl hp _ _ hmem _ =>
    -- the prices shown are as before
    intro p' hp'
    by_cases hpp : p' = p
    · subst hpp
      exact ⟨_, (hmem _).2 (Or.inl rfl), by rw [← hp]; exact le_refl _⟩
    · obtain ⟨l', hl', hle⟩ := hother p' hpp hp'
      by_cases hlp : l'.price = p
      · exact ⟨_, (hmem _).2 (Or.inl rfl), by rw [hlp, ← hp] at hle; exact hle⟩
      · exact ⟨l', (hmem _).2 (Or.inr ⟨hl', hlp⟩), hle⟩
  | delete l hl hp hgone hmem _ =>
    obtain ⟨l₀, hl₀, hmem₀, hbest⟩ := h.exists_best hl
    by_cases hpp : l₀.price = p
    · -- the best one
      obtain rfl : l = l₀ := (h.shaped s).sorted.inj hl hmem₀ (by rw [hp, hpp])
      exact covers_best_gone h hadm hb ht hx hl₀ hl hp hgone hmem
    · -- the best one stays
      intro p' hp'
      refine ⟨l₀, (hmem _).2 ⟨hmem₀, hpp⟩, ?_⟩
      by_cases hp'p : p' = p
      · subst hp'p
        rw [← hp]
        exact hbest l hl
      · obtain ⟨l', hl', hle⟩ := hother p' hp'p hp'
        exact (hbest l' hl').trans hle
  | ignore _ hδ hsame =>
    intro p' hp'
    rw [hsame]
    exact hc p' (ht.number_pos_of hδ hp')
  | insert _ _ _ hmem _ =>
    -- the new level covers its own price
    intro p' hp'
    by_cases hpp : p' = p
    · subst hpp
      exact ⟨_, (hmem _).2 (Or.inl rfl), le_refl _⟩
    · obtain ⟨l', hl', hle⟩ := hother p' hpp hp'
      exact ⟨l', (hmem _).2 (Or.inr hl'), hle⟩
  | replace w _ _ _ _ _ himp hmem _ =>
    -- the better price covers what the worst level covered
    intro p' hp'
    by_cases hpp : p' = p
    · subst hpp
      exact ⟨_, (hmem _).2 (Or.inl rfl), le_refl _⟩
    · obtain ⟨l', hl', hle⟩ := hother p' hpp hp'
      by_cases hlw : l' = w
      · subst hlw
        exact ⟨_, (hmem _).2 (Or.inl rfl), himp.le.trans hle⟩
      · exact ⟨l', (hmem _).2 (Or.inr ⟨hl', hlw⟩), hle⟩
  | reject _ _ hfull hworse hsame =>
    -- a price that does not make the cut is covered by every level shown
    intro p' hp'
    rw [hsame]
    by_cases hpp : p' = p
    · subst hpp
      obtain ⟨l', hl'⟩ := List.exists_mem_of_length_pos (l := book.shown s) (by omega)
      exact ⟨l', hl', (hworse l' hl').le⟩
    · exact hother p' hpp hp'

/-- Every side stays covered exactly when the message exposes nothing. -/
theorem covers_step (hDepth : 0 < Depth) (h : book.Consistent) (hadm : Admissible book msg) (hb : book.Backed)
    (hc : ∀ s, book.Covers s) : (∀ s, (book.processMessage msg).Covers s) ↔ ¬ Exposes book msg := by
  constructor
  · exact not_exposes_of_covers hDepth h hadm hb
  · intro hx s'
    rcases hadm.transfer h.positive with ⟨hsame, -⟩ | ⟨s, p, qtyDelta, orderDelta, ht⟩
    · exact covers_of_eq (hc s') (hsame.shown s') fun p => by rw [hsame.orderTable]
    · by_cases hs : s' = s
      · subst hs
        exact covers_moved hDepth h hadm hb (hc s') ht hx
      · exact covers_of_eq (hc s') (ht.shown_other hs) fun p => (ht.other_price s' p fun hc => hs hc.1).2

/-! ### The best prices -/

/-- A side whose levels are backed has the right best price exactly when all its live orders are covered. -/
private theorem covers_iff (h : book.Consistent) (hb : book.Backed) (s : Side) {has : Bool} {best : Int32}
    (htop : has = !(book.shown s).isEmpty ∧ best = ((book.shown s).headD {}).price) :
    ((has = true ↔ book.orderTable.liveOrders s ≠ []) ∧
      (has = true → (∃ r ∈ book.orderTable.liveOrders s, r.price = best) ∧
        ∀ r ∈ book.orderTable.liveOrders s, rank s.ascending best ≤ rank s.ascending r.price)) ↔ book.Covers s := by
  obtain ⟨rfl, rfl⟩ := htop
  cases hv : book.shown s with
  | nil =>
    have hnone : book.Covers s ↔ book.orderTable.liveOrders s = [] := by
      rw [List.eq_nil_iff_forall_not_mem]
      constructor
      · intro hc r hr
        obtain ⟨l, hl, -⟩ := hc r.price (OrderTable.exists_liveOrders.1 ⟨r, hr, rfl⟩)
        rw [hv] at hl
        cases hl
      · intro hno p hp
        obtain ⟨r, hr, -⟩ := OrderTable.exists_liveOrders.2 hp
        exact absurd hr (hno r)
    simp [hnone]
  | cons l rest =>
    obtain ⟨r₀, hr₀, hp₀⟩ := hb.exists_live h (s := s) (l := l) (by simp [hv])
    have hne : book.orderTable.liveOrders s ≠ [] := List.ne_nil_of_mem hr₀
    constructor
    · intro htop p hp
      obtain ⟨r, hr, rfl⟩ := OrderTable.exists_liveOrders.2 hp
      exact ⟨l, by simp [hv], (htop.2 rfl).2 r hr⟩
    · intro hc
      refine ⟨iff_of_true rfl hne, fun _ => ⟨⟨r₀, hr₀, hp₀⟩, fun r hr => ?_⟩⟩
      obtain ⟨l', hl', hle⟩ := hc r.price (OrderTable.exists_liveOrders.1 ⟨r, hr, rfl⟩)
      obtain ⟨l₀, hl₀, -, hbest⟩ := h.exists_best hl'
      rw [hv] at hl₀
      obtain rfl : l = l₀ := Option.some.inj hl₀
      exact (hbest l' hl').trans hle

theorem topOfBook_iff (h : book.Consistent) (hb : book.Backed) : book.TopOfBook ↔ ∀ s, book.Covers s := by
  have hbid := covers_iff h hb .bid (top_bids h)
  have hask := covers_iff h hb .ask (top_asks h)
  have hside : (∀ s, book.Covers s) ↔ book.Covers .bid ∧ book.Covers .ask :=
    ⟨fun hc => ⟨hc _, hc _⟩, fun hc s => by cases s; exacts [hc.1, hc.2]⟩
  simp only [rank, Side.ascending, Bool.false_eq_true, if_false, if_true, neg_le_neg_iff, ← Int32.le_iff_toInt_le]
    at hbid hask
  rw [hside, ← hbid, ← hask]
  rfl

theorem covers_reset (Depth : Nat) (TableCapacity : Pow2) (s : Side) : (reset Depth TableCapacity).Covers s := by
  intro p hp
  obtain ⟨r, hr, -⟩ := OrderTable.exists_liveOrders.2 hp
  obtain ⟨⟨i, hi⟩, hlive, -⟩ := OrderTable.mem_ordersAt.1 (OrderTable.mem_liveOrders.1 hr)
  rw [← hi, get_reset] at hlive
  cases hlive

/-- Along an admissible run the top of the book is right in every state exactly when no message exposes a live
order. -/
theorem top_of_book (Depth : Nat) (hDepth : 0 < Depth) (TableCapacity : Pow2) (msgs : List WireMessage)
    (h : Runs.Along processMessage Admissible (reset Depth TableCapacity) msgs) :
    Runs.Always processMessage TopOfBook (reset Depth TableCapacity) msgs ↔
      Runs.Along processMessage (fun book msg => ¬ Exposes book msg) (reset Depth TableCapacity) msgs := by
  have hreset := consistent_reset Depth TableCapacity
  have hbacked := backed_reset Depth TableCapacity
  refine Runs.Along.always_iff (I := fun book => book.Consistent ∧ book.Backed) ?_ ?_ ⟨hreset, hbacked⟩
    ((topOfBook_iff hreset hbacked).2 (covers_reset Depth TableCapacity)) h
  · intro book msg hI hadm
    exact ⟨hI.1.step hDepth hadm, hI.2.step hDepth hI.1 hadm⟩
  · intro book msg hI hadm htop
    rw [topOfBook_iff (hI.1.step hDepth hadm) (hI.2.step hDepth hI.1 hadm)]
    exact covers_step hDepth hI.1 hadm hI.2 ((topOfBook_iff hI.1 hI.2).1 htop)

/-- Two bids in a book that shows two levels: the top stays right when the better one is cancelled. -/
theorem top_of_book_two_bids :
    Runs.Always processMessage TopOfBook (reset 2 ⟨4, by decide, by decide⟩)
      [.ofAdd ⟨'A'.toUInt8, 1, 0, 1, 'B'.toUInt8, 100, 5⟩, .ofAdd ⟨'A'.toUInt8, 2, 0, 2, 'B'.toUInt8, 99, 7⟩,
        .ofCancel ⟨'X'.toUInt8, 3, 0, 1, 0⟩] :=
  (top_of_book 2 (by decide) _ _ (by decide)).2 (by decide)

/-- With one level the second bid is never admitted, and when the first one is cancelled the book shows no bid while
the second one is live: the top of the book is not right along every regular run. -/
theorem top_of_book_hidden_bid :
    ¬ ∀ (Depth : Nat) (TableCapacity : Pow2) (msgs : List WireMessage), 0 < Depth →
      Runs.Along processMessage Regular (reset Depth TableCapacity) msgs →
        Runs.Always processMessage TopOfBook (reset Depth TableCapacity) msgs := by
  intro h
  have htop := (h 1 ⟨4, by decide, by decide⟩
    [.ofAdd ⟨'A'.toUInt8, 1, 0, 1, 'B'.toUInt8, 100, 5⟩, .ofAdd ⟨'A'.toUInt8, 2, 0, 2, 'B'.toUInt8, 99, 7⟩,
      .ofCancel ⟨'X'.toUInt8, 3, 0, 1, 0⟩] (by decide) (by decide)).last
  exact absurd htop (by decide)

end LimitOrderBook

end FeedHandler
