import FeedHandler.Foundation.Totals
import FeedHandler.OrderBook.Steps
import Mathlib.Data.List.Dedup

/-!
# The reference book

What the book is for, with no table and no arrays: a finite map from the ids of the live orders to their side, price
and remaining quantity.  The ladder of a side lists its live prices from the best one on, each with the total remaining
and the number of its orders.
-/

namespace FeedHandler

open SideArray

structure ReferenceOrder where
  side : Side
  price : Int32
  remaining : ℤ
deriving DecidableEq, Repr

def ReferenceOrder.restsAt (o : ReferenceOrder) (s : Side) (p : Int32) : Bool := o.side = s && o.price = p

/-- A price of the ladder. -/
structure LadderLevel where
  price : Int32
  quantity : ℤ
  orders : ℕ
deriving DecidableEq, Repr

/-- How a price of the ladder is shown. -/
def LadderLevel.shown (e : LadderLevel) : PriceLevel :=
  { price := e.price, quantity := Int32.ofInt e.quantity, orderCount := Int32.ofInt e.orders, active := true }

abbrev ReferenceBook := AList fun _ : UInt64 => ReferenceOrder

namespace ReferenceBook

/-- Binds an id to its order, or removes it when nothing remains. -/
def settle (m : ReferenceBook) (orderId : UInt64) (o : ReferenceOrder) : ReferenceBook :=
  if o.remaining = 0 then m.erase orderId else m.insert orderId o

/-- An Add creates an order, an X sets what remains of it and an E subtracts from it; an X or E for an id that is not
live does nothing. -/
def step (m : ReferenceBook) (msg : WireMessage) : ReferenceBook :=
  if msg.msgType = 'A'.toUInt8 then
    m.insert msg.orderId ⟨.of msg.add.side, msg.add.price, msg.add.quantity.toInt⟩
  else if msg.msgType = 'X'.toUInt8 then
    match m.lookup msg.orderId with
    | some o => m.settle msg.orderId { o with remaining := msg.cancel.quantity.toInt }
    | none => m
  else if msg.msgType = 'E'.toUInt8 then
    match m.lookup msg.orderId with
    | some o => m.settle msg.orderId { o with remaining := o.remaining - msg.exec.execQuantity.toInt }
    | none => m
  else
    m

/-- What an order adds to the total at a price. -/
def share (s : Side) (p : Int32) (o : ReferenceOrder) : ℤ := if o.restsAt s p then o.remaining else 0

/-- The total remaining at a price. -/
def total (m : ReferenceBook) (s : Side) (p : Int32) : ℤ := Totals.total (fun _ => share s p) m

/-- The number of orders at a price. -/
def number (m : ReferenceBook) (s : Side) (p : Int32) : ℕ := m.entries.countP fun e => e.2.restsAt s p

/-- The prices at which orders of a side rest. -/
def prices (m : ReferenceBook) (s : Side) : List Int32 :=
  ((m.entries.filter fun e => e.2.side = s).map fun e => e.2.price).dedup

/-- The live prices of a side with their orders, best price first. -/
def ladder (m : ReferenceBook) (s : Side) : List LadderLevel :=
  (SortedList.sortBy (rank s.ascending) (m.prices s)).map fun p => ⟨p, m.total s p, m.number s p⟩

/-- A side array that shows the first `Depth` levels of the ladder. -/
def display (Depth : Nat) (m : ReferenceBook) (s : Side) : List PriceLevel :=
  ((m.ladder s).take Depth).map LadderLevel.shown ++ zeros (Depth - (m.ladder s).length)

/-! ### A well-behaved feed -/

/-- A message that removes the last order at one of the first `Depth` prices of a side comes when the side has no
other live prices. -/
def EmptiesWithin (Depth : Nat) (m : ReferenceBook) (msg : WireMessage) : Prop :=
  ∀ o ∈ m.lookup msg.orderId, (m.step msg).number o.side o.price = 0 →
    o.price ∈ ((m.ladder o.side).take Depth).map (·.price) → (m.ladder o.side).length ≤ Depth

/-- A message that a side array of `Depth` levels can follow: it is valid, an Add has a fresh id, a fill takes no more
than its order has left, no total leaves the range of `int32_t`, and no shown price is emptied over hidden ones. -/
def Admits (Depth : Nat) (m : ReferenceBook) (msg : WireMessage) : Prop :=
  msg.isValid = true ∧ (msg.msgType = 'A'.toUInt8 → m.lookup msg.orderId = none) ∧
    (msg.msgType = 'E'.toUInt8 → ∀ o ∈ m.lookup msg.orderId, msg.exec.execQuantity.toInt ≤ o.remaining) ∧
    (∀ s, ∀ e ∈ (m.step msg).ladder s, e.quantity < 2 ^ 31) ∧ EmptiesWithin Depth m msg

instance {Depth : Nat} {m : ReferenceBook} {msg : WireMessage} : Decidable (EmptiesWithin Depth m msg) :=
  inferInstanceAs (Decidable (∀ _, _))

instance {Depth : Nat} {m : ReferenceBook} {msg : WireMessage} : Decidable (Admits Depth m msg) :=
  inferInstanceAs (Decidable (_ ∧ _ ∧ _ ∧ _ ∧ _))

/-! ### The ladder -/

theorem mem_prices {m : ReferenceBook} {s : Side} {p : Int32} :
    p ∈ m.prices s ↔ ∃ e ∈ m.entries, e.2.side = s ∧ e.2.price = p := by
  simp [prices, and_assoc]

theorem number_pos_iff {m : ReferenceBook} {s : Side} {p : Int32} : 0 < m.number s p ↔ p ∈ m.prices s := by
  rw [mem_prices, number, List.countP_pos_iff]
  simp [ReferenceOrder.restsAt]

theorem mem_ladder {m : ReferenceBook} {s : Side} {e : LadderLevel} :
    e ∈ m.ladder s ↔ 0 < m.number s e.price ∧ e.quantity = m.total s e.price ∧ e.orders = m.number s e.price := by
  rw [number_pos_iff, ladder, List.mem_map]
  simp only [SortedList.mem_sortBy]
  constructor
  · rintro ⟨p, hp, rfl⟩
    exact ⟨hp, rfl, rfl⟩
  · rintro ⟨hp, hq, hn⟩
    exact ⟨e.price, hp, by rw [← hq, ← hn]⟩

theorem level_mem_ladder {m : ReferenceBook} {s : Side} {p : Int32} (h : 0 < m.number s p) :
    ⟨p, m.total s p, m.number s p⟩ ∈ m.ladder s := mem_ladder.2 ⟨h, rfl, rfl⟩

theorem sorted_ladder (m : ReferenceBook) (s : Side) :
    SortedList.Sorted (fun e : LadderLevel => rank s.ascending e.price) (m.ladder s) := by
  have h : SortedList.Sorted (rank s.ascending) (SortedList.sortBy (rank s.ascending) (m.prices s)) :=
    SortedList.sorted_sortBy (fun _ _ _ _ hab => rank_inj.1 hab) (List.nodup_dedup _)
  exact List.pairwise_map.2 h

/-- Two bids at one price in front of a lower one. -/
example : (([.ofAdd ⟨'A'.toUInt8, 1, 0, 1, 'B'.toUInt8, 99, 10⟩, .ofAdd ⟨'A'.toUInt8, 2, 0, 2, 'B'.toUInt8, 100, 4⟩,
    .ofAdd ⟨'A'.toUInt8, 3, 0, 3, 'B'.toUInt8, 100, 5⟩] : List WireMessage).foldl step ∅).display 1 .bid =
      [⟨100, 9, 2, true⟩] := by decide

/-! ### Settling an order -/

theorem lookup_settle (m : ReferenceBook) (orderId id : UInt64) (o : ReferenceOrder) :
    (m.settle orderId o).lookup id =
      if id = orderId then (if o.remaining = 0 then none else some o) else m.lookup id := by
  unfold settle
  by_cases hid : id = orderId
  · subst hid
    split <;> simp
  · rw [if_neg hid]
    split
    · exact AList.lookup_erase_ne hid
    · exact AList.lookup_insert_ne hid

/-- Settling an order trades its old share for the new one. -/
theorem total_settle (m : ReferenceBook) (orderId : UInt64) (o : ReferenceOrder) (s : Side) (p : Int32) :
    (m.settle orderId o).total s p + (m.lookup orderId).elim 0 (share s p) =
      m.total s p + if o.remaining = 0 then 0 else share s p o := by
  unfold settle total
  split
  · rw [Totals.total_erase (fun _ => share s p), add_zero]
  · exact Totals.total_insert (fun _ => share s p) orderId o m

theorem number_settle (m : ReferenceBook) (orderId : UInt64) (o : ReferenceOrder) (s : Side) (p : Int32) :
    (m.settle orderId o).number s p + (m.lookup orderId).elim 0 (fun o => (o.restsAt s p).toNat) =
      m.number s p + if o.remaining = 0 then 0 else (o.restsAt s p).toNat := by
  have hcount : ∀ m : ReferenceBook, m.number s p = Totals.total (fun _ o => (o.restsAt s p).toNat) m :=
    Totals.countP_entries fun (_ : UInt64) (o : ReferenceOrder) => o.restsAt s p
  rw [hcount, hcount]
  unfold settle
  split
  · rw [Totals.total_erase (fun _ (o : ReferenceOrder) => (o.restsAt s p).toNat), add_zero]
  · exact Totals.total_insert (fun _ (o : ReferenceOrder) => (o.restsAt s p).toNat) orderId o m

end ReferenceBook

end FeedHandler
