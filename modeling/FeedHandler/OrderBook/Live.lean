import FeedHandler.Foundation.Totals
import FeedHandler.OrderBook.Steps

/-!
# Live orders

What a side should show is told by the order table: the orders resting at a price are the records that are occupied
and not cancelled, with their total quantity and their number.  A message moves these aggregates at one price of one
side only (`Transfer`), by what it passes to `applyDelta`, or by more when a fill exceeds what was left of its order.
-/

namespace FeedHandler

/-- The record of an order that is neither cancelled nor filled. -/
def OrderRecord.live (r : OrderRecord) : Bool := r.occupied && !r.cancelled

/-- The record of an order resting on the side `s` at the price `p`. -/
def OrderRecord.restsAt (r : OrderRecord) (s : Side) (p : Int32) : Bool :=
  r.live && (Side.of r.side = s && r.price = p)

namespace OrderTable

variable {Capacity : Pow2}

/-- The orders resting on a side at a price. -/
def ordersAt (t : OrderTable Capacity) (s : Side) (p : Int32) : List OrderRecord :=
  t.table.toList.filter (·.restsAt s p)

/-- The sum of their remaining quantities. -/
def total (t : OrderTable Capacity) (s : Side) (p : Int32) : ℤ := ((t.ordersAt s p).map (·.quantity.toInt)).sum

/-- Their number. -/
def number (t : OrderTable Capacity) (s : Side) (p : Int32) : Nat := (t.ordersAt s p).length

/-- The record of a live id. -/
def liveOrder (t : OrderTable Capacity) (orderId : UInt64) : Option OrderRecord :=
  (t.find orderId).filter fun r => !r.cancelled

/-- The live total at any price stays below `2^31`. -/
def Bounded (t : OrderTable Capacity) : Prop := ∀ s p, t.total s p < 2 ^ 31

/-- Every live order has something left. -/
def Positive (t : OrderTable Capacity) : Prop := ∀ i, (t.table.get i).live = true → 0 < (t.table.get i).quantity

theorem liveOrder_eq_some {t : OrderTable Capacity} {orderId : UInt64} {r : OrderRecord} :
    t.liveOrder orderId = some r ↔
      ∃ i, t.lookup orderId = some i ∧ t.table.get i = r ∧ r.cancelled = false := by
  unfold liveOrder find
  rw [Option.filter_eq_some_iff]
  simp only [Option.map_eq_some_iff, Bool.not_eq_true']
  constructor
  · rintro ⟨⟨i, hi, hr⟩, hc⟩
    exact ⟨i, hi, hr, hc⟩
  · rintro ⟨i, hi, hr, hc⟩
    exact ⟨⟨i, hi, hr⟩, hc⟩

/-- The slot where the probe of an id stopped tells whether the id is live. -/
theorem liveOrder_of_stop {t : OrderTable Capacity} {orderId : UInt64} {i : Fin Capacity.val}
    (hs : OpenAddressing.stop t.occ orderId (probeOrder Capacity orderId) = some i) :
    t.liveOrder orderId = if (t.table.get i).live then some (t.table.get i) else none := by
  unfold liveOrder find OrderRecord.live
  rcases lookup_of_stop hs with ⟨hocc, hl⟩ | ⟨hocc, hl⟩
  · simp [hocc, hl]
  · cases hc : (t.table.get i).cancelled <;> simp [hocc, hl, hc, Option.filter]

/-- An id whose record is cancelled, or that has none, is not live. -/
theorem liveOrder_of_dead {t : OrderTable Capacity} {orderId : UInt64}
    (h : ∀ i, t.lookup orderId = some i → (t.table.get i).cancelled = true) : t.liveOrder orderId = none := by
  rw [Option.eq_none_iff_forall_ne_some]
  intro r hr
  obtain ⟨i, hl, rfl, hc⟩ := liveOrder_eq_some.1 hr
  rw [h i hl] at hc
  cases hc

theorem mem_ordersAt {t : OrderTable Capacity} {s : Side} {p : Int32} {r : OrderRecord} :
    r ∈ t.ordersAt s p ↔ (∃ i, t.table.get i = r) ∧ r.live = true ∧ Side.of r.side = s ∧ r.price = p := by
  have hmem : r ∈ t.table.toList ↔ ∃ i, t.table.get i = r := by
    rw [List.mem_iff_getElem]
    constructor
    · rintro ⟨i, hi, hr⟩
      exact ⟨⟨i, by simpa using hi⟩, hr⟩
    · rintro ⟨i, hr⟩
      exact ⟨i, by simp, hr⟩
  simp [ordersAt, OrderRecord.restsAt, List.mem_filter, hmem]

theorem mem_ordersAt_self {t : OrderTable Capacity} {i : Fin Capacity.val} (h : (t.table.get i).live = true) :
    t.table.get i ∈ t.ordersAt (.of (t.table.get i).side) (t.table.get i).price :=
  mem_ordersAt.2 ⟨⟨i, rfl⟩, h, rfl, rfl⟩

/-! ### Aggregates of positive orders -/

theorem total_eq_zero {t : OrderTable Capacity} {s : Side} {p : Int32} (h : t.number s p = 0) : t.total s p = 0 := by
  unfold total
  rw [List.length_eq_zero_iff.1 h]
  rfl

theorem number_pos_iff {t : OrderTable Capacity} {s : Side} {p : Int32} :
    0 < t.number s p ↔ ∃ r, r ∈ t.ordersAt s p := List.length_pos_iff_exists_mem

private theorem sum_ge_length {l : List OrderRecord} (h : ∀ r ∈ l, 0 < r.quantity) :
    (l.length : ℤ) ≤ (l.map (·.quantity.toInt)).sum := by
  induction l with
  | nil => simp
  | cons r l ih =>
    have hr := (Int32.pos_iff_toInt _).1 (h r (by simp))
    have ih' := ih fun x hx => h x (by simp [hx])
    simp only [List.length_cons, List.map_cons, List.sum_cons]
    omega

namespace Positive

variable {t : OrderTable Capacity} {s : Side} {p : Int32} {r : OrderRecord}

theorem of_mem (h : t.Positive) (hr : r ∈ t.ordersAt s p) : 0 < r.quantity := by
  obtain ⟨⟨i, rfl⟩, hlive, -⟩ := mem_ordersAt.1 hr
  exact h i hlive

theorem number_le (h : t.Positive) (s : Side) (p : Int32) : (t.number s p : ℤ) ≤ t.total s p :=
  sum_ge_length fun _ hr => h.of_mem hr

theorem total_nonneg (h : t.Positive) (s : Side) (p : Int32) : 0 ≤ t.total s p := by
  have := h.number_le s p
  omega

end Positive

theorem bounded_iff {t : OrderTable Capacity} :
    t.Bounded ↔ ∀ i, (t.table.get i).live = true →
      t.total (.of (t.table.get i).side) (t.table.get i).price < 2 ^ 31 := by
  refine ⟨fun h i _ => h _ _, fun h s p => ?_⟩
  by_cases hn : t.number s p = 0
  · rw [total_eq_zero hn]
    decide
  · obtain ⟨r, hr⟩ := number_pos_iff.1 (Nat.pos_of_ne_zero hn)
    obtain ⟨⟨i, rfl⟩, hlive, rfl, rfl⟩ := mem_ordersAt.1 hr
    exact h i hlive

instance (t : OrderTable Capacity) : Decidable t.Bounded := decidable_of_iff _ bounded_iff.symm

/-! ### Writing one record -/

/-- What a record adds to the total at a price. -/
def share (s : Side) (p : Int32) (r : OrderRecord) : ℤ := if r.restsAt s p then r.quantity.toInt else 0

private theorem sum_map_filter (s : Side) (p : Int32) (l : List OrderRecord) :
    ((l.filter (·.restsAt s p)).map (·.quantity.toInt)).sum = (l.map (share s p)).sum := by
  induction l with
  | nil => rfl
  | cons r l ih =>
    rw [List.filter_cons, List.map_cons, List.sum_cons, ← ih, share]
    split <;> simp

variable {t t' : OrderTable Capacity} {i : Fin Capacity.val} {r : OrderRecord}

theorem total_set (ht : t'.table = t.table.setIfInBounds i r) (s : Side) (p : Int32) :
    t'.total s p + share s p (t.table.get i) = t.total s p + share s p r := by
  have hlen : i.val < t.table.toList.length := by simp
  unfold total ordersAt
  rw [sum_map_filter, sum_map_filter, ht, Vector.toList_setIfInBounds]
  exact Totals.sum_map_set (share s p) hlen r

theorem number_set (ht : t'.table = t.table.setIfInBounds i r) (s : Side) (p : Int32) :
    t'.number s p + ((t.table.get i).restsAt s p).toNat = t.number s p + (r.restsAt s p).toNat := by
  have hlen : i.val < t.table.toList.length := by simp
  have hcount : ∀ l : List OrderRecord,
      (l.filter (·.restsAt s p)).length = (l.map fun r => (r.restsAt s p).toNat).sum := fun l => by
    induction l with
    | nil => rfl
    | cons r l ih =>
      rw [List.filter_cons, List.map_cons, List.sum_cons, ← ih]
      cases r.restsAt s p <;> simp [Nat.add_comm]
  unfold number ordersAt
  rw [hcount, hcount, ht, Vector.toList_setIfInBounds]
  exact Totals.sum_map_set (fun r => (r.restsAt s p).toNat) hlen r

end OrderTable

end FeedHandler
