import FeedHandler.OrderBook.Liquidity

/-!
# Exactness of the levels shown

Along a regular run a level shown counts every order at its price from the moment on at which it was made.  It is exact
unless orders were resting at the price already, hidden since the price was evicted or never admitted: the new level
holds only what the message brings.  `Readmits` is that condition on the state before a message, and the levels shown
are exact throughout a regular run exactly when no message meets it (`levels_exact`).
-/

namespace FeedHandler

open SideArray

namespace LimitOrderBook

variable {Depth : Nat} {TableCapacity : Pow2} {book : LimitOrderBook Depth TableCapacity} {msg : WireMessage} {s : Side}
  {p qtyDelta orderDelta : Int32}

/-- The level shows the total quantity and the number of the live orders at its price. -/
def ExactAt (t : OrderTable TableCapacity) (s : Side) (l : PriceLevel) : Prop :=
  l.quantity.toInt = t.total s l.price ∧ l.orderCount.toInt = t.number s l.price

instance {t : OrderTable TableCapacity} {l : PriceLevel} : Decidable (ExactAt t s l) :=
  inferInstanceAs (Decidable (_ ∧ _))

/-- Every level shown is exact. -/
def Exact (book : LimitOrderBook Depth TableCapacity) : Prop :=
  ∀ s, ∀ l ∈ book.shown s, ExactAt book.orderTable s l

instance : Decidable (Exact book) := inferInstanceAs (Decidable (∀ _, _))

/-- The message brings quantity to a price that is not shown, though live orders rest there, and makes the cut. -/
def Readmits (book : LimitOrderBook Depth TableCapacity) (msg : WireMessage) : Prop :=
  ∃ sp ∈ brings book msg, (∀ l ∈ book.shown sp.1, l.price ≠ sp.2) ∧ 0 < book.orderTable.number sp.1 sp.2 ∧
    ((book.shown sp.1).length < Depth ∨ ∃ l ∈ book.shown sp.1, beats sp.1.ascending sp.2 l.price = true)

instance : Decidable (Readmits book msg) := inferInstanceAs (Decidable (∃ _, _))

/-! ### One message -/

private theorem exact_other (ht : Transfer book msg s p qtyDelta orderDelta) {s' : Side} {l : PriceLevel}
    (hne : ¬(s' = s ∧ l.price = p)) (hl : ExactAt book.orderTable s' l) :
    ExactAt (book.processMessage msg).orderTable s' l := by
  obtain ⟨htotal, hnumber⟩ := ht.other_price s' l.price hne
  unfold ExactAt
  rw [htotal, hnumber]
  exact hl

theorem ExactAt.backedBy {t : OrderTable TableCapacity} {l : PriceLevel} (h : ExactAt t s l) : BackedBy t s l :=
  ⟨h.1.le, h.2.le⟩

/-- An update in place keeps a level exact. -/
private theorem exact_bump (ht : Transfer book msg s p qtyDelta orderDelta) (hfill : FillWithin book msg)
    (hbound : (book.processMessage msg).orderTable.Bounded) (hpos : (book.processMessage msg).orderTable.Positive)
    {l : PriceLevel} (hl : ExactAt book.orderTable s l) (hp : l.price = p) (hq : 0 < l.quantity)
    (ho : 0 < l.orderCount) : ExactAt (book.processMessage msg).orderTable s (l.bump qtyDelta orderDelta) := by
  obtain ⟨hsum, hcount⟩ := ht.toInt_bump hbound hpos hl.backedBy hp hq ho
  subst hp
  obtain ⟨hlq, hlo⟩ := hl
  have htotal := ht.exact hfill
  have hnumber := ht.number
  constructor
  · show (l.quantity + qtyDelta).toInt = (book.processMessage msg).orderTable.total s l.price
    omega
  · show (l.orderCount + orderDelta).toInt = (book.processMessage msg).orderTable.number s l.price
    omega

/-- A new level is exact exactly when nothing rested at its price. -/
private theorem exact_newLevel_iff (ht : Transfer book msg s p qtyDelta orderDelta) (hfill : FillWithin book msg)
    (h : book.Consistent) (hδ : 0 < qtyDelta) :
    ExactAt (book.processMessage msg).orderTable s (newLevel p qtyDelta orderDelta) ↔
      book.orderTable.number s p = 0 := by
  have htotal := ht.exact hfill
  have hnumber := ht.number
  constructor
  · intro hexact
    have hq : qtyDelta.toInt = (book.processMessage msg).orderTable.total s p := hexact.1
    have hle := h.positive.number_le s p
    omega
  · intro h0
    have hone := ht.fresh hδ h0
    subst hone
    have hzero := OrderTable.total_eq_zero h0
    rw [show (1 : Int32).toInt = 1 from rfl] at hnumber
    refine ⟨?_, ?_⟩
    · show qtyDelta.toInt = (book.processMessage msg).orderTable.total s p
      omega
    · show (1 : Int32).toInt = (book.processMessage msg).orderTable.number s p
      rw [show (1 : Int32).toInt = 1 from rfl]
      omega

private theorem not_readmits_of_none (hb : brings book msg = none) : ¬ Readmits book msg := by
  rintro ⟨sp, hsp, -⟩
  rw [hb] at hsp
  cases hsp

/-- For a message that works at a price, readmission is a matter of that price. -/
private theorem readmits_iff (ht : Transfer book msg s p qtyDelta orderDelta) :
    Readmits book msg ↔ 0 < qtyDelta ∧ (∀ l ∈ book.shown s, l.price ≠ p) ∧ 0 < book.orderTable.number s p ∧
      ((book.shown s).length < Depth ∨ ∃ l ∈ book.shown s, beats s.ascending p l.price = true) := by
  unfold Readmits
  rw [ht.brings]
  by_cases hδ : 0 < qtyDelta <;> simp [hδ]

/-- With a new level for the price, everything else but a level that may have given way for it being as before, all is
exact exactly when the price is not readmitted. -/
private theorem exact_added (h : book.Consistent) (hfill : FillWithin book msg)
    (ht : Transfer book msg s p qtyDelta orderDelta)
    (hold : ∀ l ∈ book.shown s, l.price ≠ p → ExactAt (book.processMessage msg).orderTable s l)
    (hhid : ∀ l ∈ book.shown s, l.price ≠ p) (hδ : 0 < qtyDelta)
    (hadmitted : (book.shown s).length < Depth ∨ ∃ l ∈ book.shown s, beats s.ascending p l.price = true)
    (hnew : newLevel p qtyDelta orderDelta ∈ (book.processMessage msg).shown s)
    (hmem : ∀ l ∈ (book.processMessage msg).shown s, l = newLevel p qtyDelta orderDelta ∨ l ∈ book.shown s) :
    (∀ l ∈ (book.processMessage msg).shown s, ExactAt (book.processMessage msg).orderTable s l) ↔
      ¬ Readmits book msg := by
  have hiff := exact_newLevel_iff ht hfill h hδ
  rw [readmits_iff ht]
  constructor
  · intro hall hr
    have := hiff.1 (hall _ hnew)
    omega
  · intro hr l hl
    rcases hmem l hl with rfl | hl
    · exact hiff.2 (Nat.eq_zero_of_not_pos fun hn => hr ⟨hδ, hhid, hn, hadmitted⟩)
    · exact hold l hl (hhid l hl)

/-- The levels of the side on which the message works stay exact, unless the message readmits the price. -/
private theorem exact_moved (hDepth : 0 < Depth) (h : book.Consistent) (hadm : Admissible book msg)
    (hfill : FillWithin book msg) (ht : Transfer book msg s p qtyDelta orderDelta)
    (hex : ∀ l ∈ book.shown s, ExactAt book.orderTable s l) :
    (∀ l ∈ (book.processMessage msg).shown s, ExactAt (book.processMessage msg).orderTable s l) ↔
      ¬ Readmits book msg := by
  have hpos := hadm.positive h.positive
  have hold : ∀ l ∈ book.shown s, l.price ≠ p → ExactAt (book.processMessage msg).orderTable s l :=
    fun l hl hne => exact_other ht (fun hc => hne hc.2) (hex l hl)
  cases ht.shown hDepth h with
  | update l₀ hl₀ hp _ _ hmem _ =>
    refine iff_of_true (fun l hl => ?_) fun hr => ((readmits_iff ht).1 hr).2.1 l₀ hl₀ hp
    rcases (hmem l).1 hl with rfl | ⟨hl, hne⟩
    · exact exact_bump ht hfill hadm.2.2 hpos (hex l₀ hl₀) hp ((h.shaped s).quantity_pos _ hl₀)
        ((h.shaped s).orderCount_pos _ hl₀)
    · exact hold l hl hne
  | delete l₀ hl₀ hp _ hmem _ =>
    refine iff_of_true (fun l hl => ?_) fun hr => ((readmits_iff ht).1 hr).2.1 l₀ hl₀ hp
    obtain ⟨hl, hne⟩ := (hmem l).1 hl
    exact hold l hl hne
  | ignore hhid hδ hsame =>
    refine iff_of_true (fun l hl => ?_) fun hr => absurd ((readmits_iff ht).1 hr).1 (Int32.not_lt.2 hδ)
    rw [hsame] at hl
    exact hold l hl (hhid l hl)
  | insert hhid hδ hroom hmem _ =>
    exact exact_added h hfill ht hold hhid hδ (Or.inl hroom) ((hmem _).2 (Or.inl rfl)) fun l hl => (hmem l).1 hl
  | replace w hhid hδ _ hw _ himp hmem _ =>
    exact exact_added h hfill ht hold hhid hδ (Or.inr ⟨w, hw, beats_iff.2 himp⟩) ((hmem _).2 (Or.inl rfl))
      fun l hl => ((hmem l).1 hl).imp_right And.left
  | reject hhid hδ hfull hworse hsame =>
    refine iff_of_true (fun l hl => ?_) fun hr => ?_
    · rw [hsame] at hl
      exact hold l hl (hhid l hl)
    · rcases ((readmits_iff ht).1 hr).2.2.2 with hroom | ⟨l, hl, hbeats⟩
      · have hfull' : (book.shown s).length = Depth := hfull
        omega
      · exact absurd (beats_iff.1 hbeats) (not_lt.2 (hworse l hl).le)

/-- A regular message keeps the levels exact exactly when it readmits no price. -/
theorem exact_step (hDepth : 0 < Depth) (h : book.Consistent) (hreg : Regular book msg) (hex : book.Exact) :
    (book.processMessage msg).Exact ↔ ¬ Readmits book msg := by
  obtain ⟨hadm, hfill, hroom⟩ := hreg
  rcases hadm.transfer h.positive with ⟨hsame, hb⟩ | ⟨s, p, qtyDelta, orderDelta, ht⟩
  · refine iff_of_true (fun s l hl => ?_) (not_readmits_of_none ?_)
    · rw [hsame.shown] at hl
      rw [hsame.orderTable]
      exact hex s l hl
    · rcases hb with hb | ⟨hA, hfull⟩
      · exact hb
      · have := hroom hA
        rw [hfull] at this
        cases this
  · rw [← exact_moved hDepth h hadm hfill ht (hex s)]
    refine ⟨fun hall => hall s, fun hs s' l hl => ?_⟩
    by_cases hss : s' = s
    · subst hss
      exact hs l hl
    · rw [ht.shown_other hss] at hl
      exact exact_other ht (fun hc => hss hc.1) (hex s' l hl)

theorem exact_reset (Depth : Nat) (TableCapacity : Pow2) : (reset Depth TableCapacity).Exact := by
  intro s l hl
  rw [shown_reset] at hl
  cases hl

/-- Along a regular run every level shown is exact in every state exactly when no message readmits a price at which
hidden orders rest. -/
theorem levels_exact (Depth : Nat) (hDepth : 0 < Depth) (TableCapacity : Pow2) (msgs : List WireMessage)
    (h : Runs.Along processMessage Regular (reset Depth TableCapacity) msgs) :
    Runs.Always processMessage Exact (reset Depth TableCapacity) msgs ↔
      Runs.Along processMessage (fun book msg => ¬ Readmits book msg) (reset Depth TableCapacity) msgs :=
  Runs.Along.always_iff (I := Consistent) (fun _ _ hI hreg => hI.step hDepth hreg.1)
    (fun _ _ hI hreg hex => exact_step hDepth hI hreg hex) (consistent_reset Depth TableCapacity)
    (exact_reset Depth TableCapacity) h

/-- An eviction after which the evicted price comes back with no order left there. -/
theorem levels_exact_clean_return :
    Runs.Always processMessage Exact (reset 1 ⟨4, by decide, by decide⟩)
      [.ofAdd ⟨'A'.toUInt8, 1, 0, 1, 'B'.toUInt8, 99, 10⟩, .ofAdd ⟨'A'.toUInt8, 2, 0, 2, 'B'.toUInt8, 100, 5⟩,
        .ofCancel ⟨'X'.toUInt8, 3, 0, 1, 0⟩, .ofCancel ⟨'X'.toUInt8, 4, 0, 2, 0⟩,
        .ofAdd ⟨'A'.toUInt8, 5, 0, 3, 'B'.toUInt8, 99, 7⟩] :=
  (levels_exact 1 (by decide) _ _ (by decide)).2 (by decide)

/-- A bid at 99 is evicted by one at 100; when that one is cancelled and a second bid comes to 99, the level shows 7 in
one order where 17 rest in two. -/
theorem levels_exact_readmitted :
    ¬ ∀ (Depth : Nat) (TableCapacity : Pow2) (msgs : List WireMessage), 0 < Depth →
      Runs.Along processMessage Regular (reset Depth TableCapacity) msgs →
        Runs.Always processMessage Exact (reset Depth TableCapacity) msgs := by
  intro h
  have hexact := (h 1 ⟨4, by decide, by decide⟩
    [.ofAdd ⟨'A'.toUInt8, 1, 0, 1, 'B'.toUInt8, 99, 10⟩, .ofAdd ⟨'A'.toUInt8, 2, 0, 2, 'B'.toUInt8, 100, 5⟩,
      .ofCancel ⟨'X'.toUInt8, 3, 0, 2, 0⟩, .ofAdd ⟨'A'.toUInt8, 4, 0, 3, 'B'.toUInt8, 99, 7⟩]
    (by decide) (by decide)).last
  exact absurd hexact (by decide)

end LimitOrderBook

end FeedHandler
