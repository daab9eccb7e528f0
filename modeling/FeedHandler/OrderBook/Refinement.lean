import FeedHandler.OrderBook.Capacity
import FeedHandler.OrderBook.Exactness
import FeedHandler.OrderBook.Reference

/-!
# The book refines the reference book

A simulation between two levels.  `Tracks` ties the order table to the reference book: the same live orders, the same
totals and numbers at every price.  On top of it the sides are exact, and complete: a live price is shown, or its side
is full of better ones (`Complete`).  A message keeps all three when it empties a shown price only on a side whose live
prices all fit, and together they say that a side shows the first `Depth` levels of its ladder.
-/

namespace FeedHandler

open SideArray

/-- What the reference book knows of an order. -/
def OrderRecord.view (r : OrderRecord) : ReferenceOrder := ⟨.of r.side, r.price, r.quantity.toInt⟩

/-! ### The order table and the reference book -/

namespace OrderTable

variable {Capacity : Pow2} {t t' : OrderTable Capacity} {m : ReferenceBook}

/-- The live orders of the table are those of the reference book. -/
structure Tracks (t : OrderTable Capacity) (m : ReferenceBook) : Prop where
  wellFormed : t.WellFormed
  order : ∀ orderId, (t.liveOrder orderId).map OrderRecord.view = m.lookup orderId
  total : ∀ s p, t.total s p = m.total s p
  number : ∀ s p, t.number s p = m.number s p

private theorem restsAt_view {r : OrderRecord} (h : r.live = true) (s : Side) (p : Int32) :
    r.view.restsAt s p = r.restsAt s p := by
  rw [OrderRecord.restsAt, h, Bool.true_and]
  rfl

private theorem restsAt_eq (s : Side) (p : Int32) (r : OrderRecord) :
    (r.restsAt s p).toNat = if r.live then (r.view.restsAt s p).toNat else 0 := by
  split
  · rw [restsAt_view ‹r.live = true›]
  · rw [OrderRecord.restsAt_of_not_live (by simpa using ‹¬r.live = true›)]
    rfl

private theorem share_eq (s : Side) (p : Int32) (r : OrderRecord) :
    share s p r = if r.live then ReferenceBook.share s p r.view else 0 := by
  split
  · simp only [ReferenceBook.share, share, restsAt_view ‹r.live = true›]
    rfl
  · rw [share, OrderRecord.restsAt_of_not_live (by simpa using ‹¬r.live = true›)]
    rfl

private theorem remaining_view {r : OrderRecord} : r.view.remaining = 0 ↔ r.quantity = 0 := by
  rw [← Int32.toInt_inj]
  rfl

section Counted

variable {γ : Type*} [Zero γ] {f : ReferenceOrder → γ} {g : OrderRecord → γ}
  (hfg : ∀ r : OrderRecord, g r = if r.live then f r.view else 0)

include hfg

/-- A record counts as its view does, unless nothing is left of it. -/
private theorem counted_written {r : OrderRecord} (hlive : r.live = true ↔ r.view.remaining ≠ 0) :
    (if r.view.remaining = 0 then 0 else f r.view) = g r := by
  rw [hfg]
  by_cases h0 : r.view.remaining = 0
  · have hdead : ¬r.live = true := fun hl => hlive.1 hl h0
    rw [if_pos h0, if_neg hdead]
  · rw [if_neg h0, if_pos (hlive.2 h0)]

private theorem counted_stored (r : OrderRecord) : (if r.live then some r.view else none).elim 0 f = g r := by
  rw [hfg]
  cases r.live <;> rfl

end Counted

/-- Writing a record that is cancelled when nothing is left of it is settling its order. -/
theorem Tracks.write (h : t.Tracks m) {i : Fin Capacity.val} {r : OrderRecord}
    (ht : t'.table = t.table.setIfInBounds i r) (hr : r.occupied = true)
    (hs : OpenAddressing.stop t.occ r.orderId (probeOrder Capacity r.orderId) = some i)
    (hc : r.cancelled = true ↔ r.quantity = 0) : t'.Tracks (m.settle r.orderId r.view) := by
  have hlive : r.live = true ↔ r.view.remaining ≠ 0 := by
    rw [Ne, remaining_view, ← hc]
    simp [OrderRecord.live, hr]
  have hold : m.lookup r.orderId = if (t.table.get i).live then some (t.table.get i).view else none := by
    rw [← h.order, liveOrder_of_stop hs]
    split <;> rfl
  refine ⟨h.wellFormed.set ht hr hs, fun orderId => ?_, fun s p => ?_, fun s p => ?_⟩
  · rw [ReferenceBook.lookup_settle, liveOrder, h.wellFormed.find_write ht hr hs]
    split
    · have hcan : r.cancelled = true ↔ r.view.remaining = 0 := by rw [remaining_view, hc]
      by_cases h0 : r.view.remaining = 0
      · simp [h0, hcan.2 h0, Option.filter]
      · have hno : r.cancelled = false := by
          rw [← Bool.not_eq_true, hcan]
          exact h0
        simp [h0, hno, Option.filter]
    · exact h.order orderId
  · have htable := total_set ht s p
    have href := ReferenceBook.total_settle m r.orderId r.view s p
    have hprev := h.total s p
    rw [hold, counted_stored (share_eq s p), counted_written (share_eq s p) hlive] at href
    omega
  · have htable := number_set ht s p
    have href := ReferenceBook.number_settle m r.orderId r.view s p
    have hprev := h.number s p
    have hnew : (if r.view.remaining = 0 then 0 else (r.view.restsAt s p).toNat) = (r.restsAt s p).toNat :=
      counted_written (f := fun o => (o.restsAt s p).toNat) (restsAt_eq s p) hlive
    rw [hold, counted_stored (restsAt_eq s p), hnew] at href
    omega

end OrderTable

namespace LimitOrderBook

variable {Depth : Nat} {TableCapacity : Pow2} {book : LimitOrderBook Depth TableCapacity} {msg : WireMessage}
  {m : ReferenceBook} {s : Side} {p qtyDelta orderDelta : Int32}

private theorem tracks_reset (Depth : Nat) (TableCapacity : Pow2) :
    (reset Depth TableCapacity).orderTable.Tracks ∅ := by
  have hordersAt : ∀ s p, (reset Depth TableCapacity).orderTable.ordersAt s p = [] := fun s p => by
    rw [List.eq_nil_iff_forall_not_mem]
    intro r hr
    obtain ⟨⟨i, rfl⟩, hlive, -⟩ := OrderTable.mem_ordersAt.1 hr
    rw [get_reset] at hlive
    cases hlive
  refine ⟨OrderTable.wellFormed_clear TableCapacity, fun orderId => ?_, fun s p => ?_, fun s p => ?_⟩
  · rw [OrderTable.liveOrder, show (reset Depth TableCapacity).orderTable.find orderId = none from
      OrderTable.find_clear TableCapacity orderId]
    rfl
  · rw [OrderTable.total, hordersAt]
    rfl
  · rw [OrderTable.number, hordersAt]
    rfl

/-- The reference order of a live id. -/
private theorem lookup_of_found (h : book.orderTable.Tracks m) {i : Fin TableCapacity.val}
    (hf : book.orderTable.lookup msg.orderId = some i) (hc : (book.orderTable.table.get i).cancelled = false) :
    m.lookup msg.orderId = some (book.orderTable.table.get i).view := by
  rw [← h.order, OrderTable.liveOrder_eq_some.2 ⟨i, hf, rfl, hc⟩]
  rfl

/-- An Add binds its id. -/
private theorem tracks_add (h : book.orderTable.Tracks m) (hv : msg.isValid = true) (hA : msg.msgType = 'A'.toUInt8)
    (hroom : HasRoom book msg) : (book.processMessage msg).orderTable.Tracks (m.step msg) := by
  rcases processMessage_add book hA with ⟨hfull, -⟩ | ⟨i, hs, hmoves⟩
  · have := hroom hA
    rw [hfull] at this
    cases this
  · have hq := (WireMessage.isValid_add hv hA).2.2
    have hne : msg.add.quantity ≠ 0 := (Int32.ne_of_lt hq).symm
    have hrem : msg.add.quantity.toInt ≠ 0 := ((Int32.pos_iff_toInt _).1 hq).ne'
    have hstep : m.step msg = m.settle msg.orderId (OrderTable.record msg.orderId msg.add.side msg.add.price
        msg.add.quantity msg.timestampNs).view := by
      simp [ReferenceBook.step, ReferenceBook.settle, hA, OrderRecord.view, OrderTable.record, hrem]
    rw [hstep]
    exact h.write hmoves.table rfl hs (by simp [OrderTable.record, hne])

/-- An X settles its order at the new quantity. -/
private theorem tracks_cancel (h : book.orderTable.Tracks m) (hv : msg.isValid = true)
    (hX : msg.msgType = 'X'.toUInt8) {i : Fin TableCapacity.val} (hf : book.orderTable.lookup msg.orderId = some i)
    (hc : (book.orderTable.table.get i).cancelled = false) :
    (book.processMessage msg).orderTable.Tracks (m.step msg) := by
  obtain ⟨hocc, hid⟩ := OrderTable.lookup_some hf
  have hstop := h.wellFormed.stop_of_lookup hf
  have hq := (Int32.nonneg_iff_toInt _).1 (WireMessage.isValid_cancel hv hX)
  have hzero : msg.cancel.quantity ≤ 0 ↔ msg.cancel.quantity = 0 := by
    rw [Int32.nonpos_iff_toInt, ← Int32.toInt_inj]
    show _ ↔ _ = (0 : ℤ)
    omega
  have hstep : m.step msg = m.settle msg.orderId ((book.orderTable.table.get i).reduce msg.cancel.quantity
      (msg.cancel.quantity ≤ 0)).view := by
    simp [ReferenceBook.step, hX, lookup_of_found h hf hc, OrderRecord.view]
  rw [hstep]
  rw [← hid] at hstop ⊢
  exact h.write (processMessage_cancel hX hf hc).table hocc hstop (by simp [hzero])

/-- An E settles its order at what the fill leaves; nothing is clamped. -/
private theorem tracks_execute (h : book.orderTable.Tracks m) (hv : msg.isValid = true)
    (hE : msg.msgType = 'E'.toUInt8) {i : Fin TableCapacity.val} (hf : book.orderTable.lookup msg.orderId = some i)
    (hc : (book.orderTable.table.get i).cancelled = false)
    (hle : msg.exec.execQuantity.toInt ≤ (book.orderTable.table.get i).quantity.toInt) :
    (book.processMessage msg).orderTable.Tracks (m.step msg) := by
  obtain ⟨hocc, hid⟩ := OrderTable.lookup_some hf
  have hstop := h.wellFormed.stop_of_lookup hf
  have hnew : ((book.orderTable.table.get i).newQty msg.exec.execQuantity).toInt =
      (book.orderTable.table.get i).quantity.toInt - msg.exec.execQuantity.toInt := by
    rcases OrderRecord.newQty_cases (r := book.orderTable.table.get i) (WireMessage.isValid_exec hv hE).1 with
      ⟨-, hq, -⟩ | ⟨hge, hz⟩
    · exact hq
    · have := Int32.le_iff_toInt_le.1 hge
      rw [hz]
      show (0 : ℤ) = _
      omega
  have hstep : m.step msg = m.settle msg.orderId ((book.orderTable.table.get i).reduce
      ((book.orderTable.table.get i).newQty msg.exec.execQuantity)
      ((book.orderTable.table.get i).newQty msg.exec.execQuantity = 0)).view := by
    simp [ReferenceBook.step, hE, lookup_of_found h hf hc, OrderRecord.view, hnew]
  rw [hstep]
  rw [← hid] at hstop ⊢
  exact h.write (processMessage_execute hE hf hc).table hocc hstop (by simp)

/-- The order table follows the reference book. -/
private theorem tracks_step (h : book.orderTable.Tracks m) (hadm : m.Admits Depth msg) (hroom : HasRoom book msg) :
    (book.processMessage msg).orderTable.Tracks (m.step msg) := by
  obtain ⟨hv, -, hfill, -, -⟩ := hadm
  rcases processMessage_effect book msg with ⟨hA, hX, hE, hsame⟩ | ⟨hA, -, -⟩ | ⟨hXE, hdead, hsame⟩ | ⟨hA, -, -, -⟩ |
    ⟨hX, i, hf, hc, -⟩ | ⟨hE, i, hf, hc, -⟩
  · rw [hsame.orderTable]
    simpa [ReferenceBook.step, hA, hX, hE] using h
  · exact tracks_add h hv hA hroom
  · -- an X or E for an id that is not live
    have hnone : m.lookup msg.orderId = none := by
      rw [← h.order, OrderTable.liveOrder_of_dead hdead]
      rfl
    rw [hsame.orderTable]
    rcases hXE with hX | hE
    · simpa [ReferenceBook.step, hX, hnone] using h
    · simpa [ReferenceBook.step, hE, hnone] using h
  · exact tracks_add h hv hA hroom
  · exact tracks_cancel h hv hX hf hc
  · exact tracks_execute h hv hE hf hc (hfill hE _ (lookup_of_found h hf hc))

/-! ### The sides and the ladders -/

/-- A live price is shown, or its side is full of better ones. -/
def Complete (book : LimitOrderBook Depth TableCapacity) : Prop :=
  ∀ s p, 0 < book.orderTable.number s p → (∃ l ∈ book.shown s, l.price = p) ∨
    (book.shown s).length = Depth ∧ ∀ l ∈ book.shown s, rank s.ascending l.price < rank s.ascending p

/-- The relation between the book and the reference book. -/
structure Follows (book : LimitOrderBook Depth TableCapacity) (m : ReferenceBook) : Prop where
  tracks : book.orderTable.Tracks m
  consistent : book.Consistent
  exact : book.Exact
  complete : book.Complete

namespace Follows

/-- The price of a level shown is live, and the level is the one of the ladder. -/
theorem mem_ladder (h : book.Follows m) {l : PriceLevel} (hl : l ∈ book.shown s) :
    ∃ e ∈ m.ladder s, e.price = l.price ∧ e.shown = l := by
  obtain ⟨hq, ho⟩ := h.exact s l hl
  have hpos := (Int32.pos_iff_toInt _).1 ((h.consistent.shaped s).orderCount_pos l hl)
  have hnumber := h.tracks.number s l.price
  refine ⟨_, ReferenceBook.level_mem_ladder (s := s) (p := l.price) (by omega), rfl, ?_⟩
  · have hact : l.active = true := active_of_mem_visible hl
    rw [h.tracks.total] at hq
    rw [hnumber] at ho
    simp [LadderLevel.shown, ← hq, ← ho, ← hact]

/-- A side shows the first `Depth` levels of its ladder. -/
theorem shown (h : book.Follows m) (s : Side) :
    book.shown s = ((m.ladder s).take Depth).map LadderLevel.shown := by
  rw [List.map_take]
  have hladder : BestFirst s.ascending ((m.ladder s).map LadderLevel.shown) :=
    List.pairwise_map.2 (m.sorted_ladder s)
  refine SortedList.Sorted.eq_take (h.consistent.shaped s).sorted hladder (length_visible_le _) (fun l hl => ?_)
    fun b hb hnot => ?_
  · obtain ⟨e, he, -, rfl⟩ := h.mem_ladder hl
    exact List.mem_map_of_mem he
  · obtain ⟨e, he, rfl⟩ := List.mem_map.1 hb
    have hlive : 0 < book.orderTable.number s e.price := by
      rw [h.tracks.number]
      exact (ReferenceBook.mem_ladder.1 he).1
    rcases h.complete s e.price hlive with ⟨l, hl, hp⟩ | hfull
    · obtain ⟨e', he', hp', rfl⟩ := h.mem_ladder hl
      have heq : e' = e := (m.sorted_ladder s).inj he' he (by rw [hp', hp])
      subst heq
      exact absurd hl hnot
    · exact hfull

theorem display (h : book.Follows m) (s : Side) : (book.levels s).toList = m.display Depth s := by
  have hshown := h.shown s
  have hlen : (visible (book.levels s)).length = min Depth (m.ladder s).length := by
    rw [show visible (book.levels s) = book.shown s from rfl, hshown]
    simp
  rw [(h.consistent.shaped s).layout, hlen, ReferenceBook.display, ← hshown]
  congr 2
  omega

/-- A side with at most `Depth` live prices shows them all. -/
theorem exists_shown (h : book.Follows m) (hlen : (m.ladder s).length ≤ Depth)
    (hp : 0 < book.orderTable.number s p) : ∃ l ∈ book.shown s, l.price = p := by
  rw [h.tracks.number] at hp
  rw [h.shown s, List.take_of_length_le hlen]
  exact ⟨_, List.mem_map_of_mem (ReferenceBook.level_mem_ladder hp), rfl⟩

/-- Live orders hidden at a price make no cut, so a price is not readmitted. -/
theorem not_readmits (h : book.Follows m) (msg : WireMessage) : ¬ Readmits book msg := by
  rintro ⟨⟨s, p⟩, -, hhid, hlive, hcut⟩
  rcases h.complete s p hlive with ⟨l, hl, hp⟩ | ⟨hfull, hworse⟩
  · exact hhid l hl hp
  · rcases hcut with hroom | ⟨l, hl, hbeats⟩
    · exact absurd hroom (by simp [hfull])
    · exact absurd (beats_iff.1 hbeats) (not_lt.2 (hworse l hl).le)

end Follows

/-! ### One message -/

/-- What the feed may do to the reference book is regular for the book. -/
private theorem regular_of_admits (h : book.Follows m) (hadm : m.Admits Depth msg) (hroom : HasRoom book msg) :
    Regular book msg := by
  have htracks := tracks_step h.tracks hadm hroom
  obtain ⟨hv, hfresh, hfill, hbound, -⟩ := hadm
  refine ⟨⟨hv, fun hA => ?_, fun s p => ?_⟩, fun hE r hr => ?_, hroom⟩
  · have := h.tracks.order msg.orderId
    rw [hfresh hA] at this
    simpa using this
  · by_cases hn : (book.processMessage msg).orderTable.number s p = 0
    · rw [OrderTable.total_eq_zero hn]
      decide
    · rw [htracks.number] at hn
      rw [htracks.total]
      have hlevel := hbound s _ (ReferenceBook.level_mem_ladder (Nat.pos_of_ne_zero hn))
      exact hlevel
  · have := h.tracks.order msg.orderId
    rw [hr] at this
    exact Int32.le_iff_toInt_le.2 (hfill hE r.view this.symm)

/-- A level that `applyDelta` takes away has no orders left. -/
private theorem number_eq_zero_of_delete (ht : Transfer book msg s p qtyDelta orderDelta) (hreg : Regular book msg)
    (h : book.Consistent) {l : PriceLevel} (hl : l ∈ book.shown s) (hex : ExactAt book.orderTable s l)
    (hp : l.price = p) (hempty : l.quantity + qtyDelta ≤ 0 ∨ l.orderCount + orderDelta ≤ 0) :
    (book.processMessage msg).orderTable.number s p = 0 := by
  obtain ⟨hadm, hfill, -⟩ := hreg
  have hpos := hadm.positive h.positive
  obtain ⟨hsum, hcount⟩ := ht.toInt_bump hadm.2.2 hpos hex.backedBy hp ((h.shaped s).quantity_pos l hl)
    ((h.shaped s).orderCount_pos l hl)
  subst hp
  obtain ⟨hlq, hlo⟩ := hex
  have htotal := ht.exact hfill
  have hnumber := ht.number
  have hle := hpos.number_le s l.price
  rw [Int32.nonpos_iff_toInt, Int32.nonpos_iff_toInt] at hempty
  omega

/-- When a shown price is emptied, no live price of its side is hidden. -/
private theorem all_shown_of_emptied (h : book.Follows m) (hadm : m.Admits Depth msg) (hroom : HasRoom book msg)
    (ht : Transfer book msg s p qtyDelta orderDelta) {l : PriceLevel} (hl : l ∈ book.shown s) (hp : l.price = p)
    (hempty : (book.processMessage msg).orderTable.number s p = 0) {p' : Int32}
    (hlive : 0 < book.orderTable.number s p') : ∃ l ∈ book.shown s, l.price = p' := by
  have htracks := tracks_step h.tracks hadm hroom
  obtain ⟨-, -, -, -, hwithin⟩ := hadm
  rcases ht.target with hone | ⟨-, r, hr, rfl, rfl, -⟩
  · have hnumber := ht.number
    rw [hone, show (1 : Int32).toInt = 1 from rfl] at hnumber
    omega
  · have hlook : m.lookup msg.orderId = some r.view := by
      rw [← h.tracks.order, hr]
      rfl
    refine h.exists_shown (hwithin r.view hlook ?_ ?_) hlive
    · rw [← htracks.number]
      exact hempty
    · rw [h.shown] at hl
      obtain ⟨e, he, rfl⟩ := List.mem_map.1 hl
      exact List.mem_map.2 ⟨e, he, hp⟩

/-- The side on which a message works stays complete. -/
private theorem complete_moved (hDepth : 0 < Depth) (h : book.Follows m) (hadm : m.Admits Depth msg)
    (hroom : HasRoom book msg) (ht : Transfer book msg s p qtyDelta orderDelta) {p' : Int32}
    (hlive : 0 < (book.processMessage msg).orderTable.number s p') :
    (∃ l ∈ (book.processMessage msg).shown s, l.price = p') ∨
      ((book.processMessage msg).shown s).length = Depth ∧
        ∀ l ∈ (book.processMessage msg).shown s, rank s.ascending l.price < rank s.ascending p' := by
  have hold : p' ≠ p → 0 < book.orderTable.number s p' := fun hne => by
    rw [← (ht.other_price s p' fun hc => hne hc.2).2]
    exact hlive
  cases ht.shown hDepth h.consistent with
  | update l₀ hl₀ hp _ _ hmem hlen =>
    by_cases hpp : p' = p
    · exact Or.inl ⟨_, (hmem _).2 (Or.inl rfl), hp.trans hpp.symm⟩
    · rcases h.complete s p' (hold hpp) with ⟨l, hl, hlp⟩ | ⟨hfull, hbetter⟩
      · exact Or.inl ⟨l, (hmem l).2 (Or.inr ⟨hl, hlp ▸ hpp⟩), hlp⟩
      · refine Or.inr ⟨hlen.trans hfull, fun l hl => ?_⟩
        rcases (hmem l).1 hl with rfl | ⟨hl, -⟩
        · exact hbetter l₀ hl₀
        · exact hbetter l hl
  | delete l₀ hl₀ hp hgone hmem _ =>
    have hzero := number_eq_zero_of_delete ht (regular_of_admits h hadm hroom) h.consistent hl₀ (h.exact s l₀ hl₀) hp
      hgone
    have hpp : p' ≠ p := by
      rintro rfl
      omega
    obtain ⟨l, hl, hlp⟩ := all_shown_of_emptied h hadm hroom ht hl₀ hp hzero (hold hpp)
    exact Or.inl ⟨l, (hmem l).2 ⟨hl, hlp ▸ hpp⟩, hlp⟩
  | ignore _ hδ hsame =>
    rw [hsame]
    exact h.complete s p' (ht.number_pos_of hδ hlive)
  | insert _ _ hcut hmem _ =>
    by_cases hpp : p' = p
    · exact Or.inl ⟨_, (hmem _).2 (Or.inl rfl), hpp.symm⟩
    · rcases h.complete s p' (hold hpp) with ⟨l, hl, hlp⟩ | ⟨hfull, -⟩
      · exact Or.inl ⟨l, (hmem l).2 (Or.inr hl), hlp⟩
      · omega
  | replace w _ _ hfull hw hworst himp hmem hlen =>
    by_cases hpp : p' = p
    · exact Or.inl ⟨_, (hmem _).2 (Or.inl rfl), hpp.symm⟩
    · have hbehind : rank s.ascending w.price ≤ rank s.ascending p' →
          ∀ l ∈ (book.processMessage msg).shown s, rank s.ascending l.price < rank s.ascending p' := fun hwp l hl => by
        rcases (hmem l).1 hl with rfl | ⟨hl, hne⟩
        · exact lt_of_lt_of_le himp hwp
        · exact lt_of_lt_of_le (hworst l hl hne) hwp
      rcases h.complete s p' (hold hpp) with ⟨l, hl, hlp⟩ | ⟨-, hbetter⟩
      · by_cases hlw : l = w
        · subst hlw
          exact Or.inr ⟨hlen.trans hfull, hbehind (hlp ▸ le_refl _)⟩
        · exact Or.inl ⟨l, (hmem l).2 (Or.inr ⟨hl, hlw⟩), hlp⟩
      · exact Or.inr ⟨hlen.trans hfull, hbehind (hbetter w hw).le⟩
  | reject _ _ hfull hworse hsame =>
    rw [hsame]
    by_cases hpp : p' = p
    · subst hpp
      exact Or.inr ⟨hfull, hworse⟩
    · exact h.complete s p' (hold hpp)

/-- A message that the feed may send keeps the two books related. -/
theorem Follows.step (hDepth : 0 < Depth) (h : book.Follows m) (hadm : m.Admits Depth msg)
    (hroom : HasRoom book msg) : (book.processMessage msg).Follows (m.step msg) := by
  have hreg := regular_of_admits h hadm hroom
  refine ⟨tracks_step h.tracks hadm hroom, h.consistent.step hDepth hreg.1,
    (exact_step hDepth h.consistent hreg h.exact).2 (h.not_readmits msg), fun s' p' hlive => ?_⟩
  rcases hreg.1.transfer h.consistent.positive with ⟨hsame, -⟩ | ⟨s, p, qtyDelta, orderDelta, ht⟩
  · rw [hsame.shown]
    rw [hsame.orderTable] at hlive
    exact h.complete s' p' hlive
  · by_cases hs : s' = s
    · subst hs
      exact complete_moved hDepth h hadm hroom ht hlive
    · rw [ht.shown_other hs]
      rw [(ht.other_price s' p' fun hc => hs hc.1).2] at hlive
      exact h.complete s' p' hlive

theorem follows_reset (Depth : Nat) (TableCapacity : Pow2) : (reset Depth TableCapacity).Follows ∅ where
  tracks := tracks_reset Depth TableCapacity
  consistent := consistent_reset Depth TableCapacity
  exact := exact_reset Depth TableCapacity
  complete s p hlive := by
    rw [(tracks_reset Depth TableCapacity).number] at hlive
    cases hlive

/-! ### Runs -/

/-- After every message both side arrays are the first `Depth` levels of the ladders of the reference book, followed by
zero levels. -/
theorem refines_reference (Depth : Nat) (hDepth : 0 < Depth) (TableCapacity : Pow2) (msgs : List WireMessage)
    (hids : (addedIds msgs).dedup.length ≤ TableCapacity.val)
    (h : Runs.Along ReferenceBook.step (ReferenceBook.Admits Depth) ∅ msgs) :
    ∀ pre post, msgs = pre ++ post →
      (run Depth TableCapacity pre).bids.toList = (pre.foldl ReferenceBook.step ∅).display Depth .bid ∧
        (run Depth TableCapacity pre).asks.toList = (pre.foldl ReferenceBook.step ∅).display Depth .ask := by
  intro pre post he
  have hstep : ∀ (book : LimitOrderBook Depth TableCapacity) (m : ReferenceBook) (msg : WireMessage),
      book.Follows m → HasRoom book msg → m.Admits Depth msg → (book.processMessage msg).Follows (m.step msg) :=
    fun _ _ _ hI hroom hadm => hI.step hDepth hadm hroom
  have hfollows : (run Depth TableCapacity pre).Follows (pre.foldl ReferenceBook.step ∅) :=
    Runs.Along.simulates hstep (follows_reset Depth TableCapacity) (along_hasRoom Depth hids) h pre post he
  exact ⟨hfollows.display .bid, hfollows.display .ask⟩

/-- A bid that is evicted, and cancelled while hidden. -/
theorem refines_reference_eviction :
    (run 1 ⟨4, by decide, by decide⟩
        [.ofAdd ⟨'A'.toUInt8, 1, 0, 1, 'B'.toUInt8, 99, 10⟩, .ofAdd ⟨'A'.toUInt8, 2, 0, 2, 'S'.toUInt8, 101, 4⟩,
          .ofAdd ⟨'A'.toUInt8, 3, 0, 3, 'B'.toUInt8, 100, 5⟩, .ofCancel ⟨'X'.toUInt8, 4, 0, 1, 0⟩]).bids.toList =
        [⟨100, 5, 1, true⟩] ∧
      (run 1 ⟨4, by decide, by decide⟩
        [.ofAdd ⟨'A'.toUInt8, 1, 0, 1, 'B'.toUInt8, 99, 10⟩, .ofAdd ⟨'A'.toUInt8, 2, 0, 2, 'S'.toUInt8, 101, 4⟩,
          .ofAdd ⟨'A'.toUInt8, 3, 0, 3, 'B'.toUInt8, 100, 5⟩, .ofCancel ⟨'X'.toUInt8, 4, 0, 1, 0⟩]).asks.toList =
        [⟨101, 4, 1, true⟩] := by
  have h := refines_reference 1 (by decide) ⟨4, by decide, by decide⟩
    [.ofAdd ⟨'A'.toUInt8, 1, 0, 1, 'B'.toUInt8, 99, 10⟩, .ofAdd ⟨'A'.toUInt8, 2, 0, 2, 'S'.toUInt8, 101, 4⟩,
      .ofAdd ⟨'A'.toUInt8, 3, 0, 3, 'B'.toUInt8, 100, 5⟩, .ofCancel ⟨'X'.toUInt8, 4, 0, 1, 0⟩]
    (by decide) (by decide) _ [] (List.append_nil _).symm
  exact ⟨h.1.trans (by decide), h.2.trans (by decide)⟩

end LimitOrderBook

end FeedHandler
