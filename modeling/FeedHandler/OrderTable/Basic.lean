import FeedHandler.Protocol
import Mathlib.Data.List.FinRange

/-!
# The order table (`order_table.hpp`)

A hash table with open addressing and linear probing, sized by a template argument that is a power of two.  A
pointer into the table is the index of its slot; the loops over `probe` run through the list of the values that
`probe` takes.
-/

namespace FeedHandler

/-- A template argument that passes `static_assert((Capacity & (Capacity - 1)) == 0)`. -/
structure Pow2 where
  val : Nat
  staticAssert : val &&& (val - 1) = 0
  size_t : val < 2 ^ 64

theorem Pow2.eq_two_pow (Capacity : Pow2) (hpos : Capacity.val ≠ 0) : ∃ k ≤ 63, Capacity.val = 2 ^ k := by
  have hlt := Capacity.size_t
  obtain ⟨k, hk⟩ := (Nat.and_sub_one_eq_zero_iff_isPowerOfTwo hpos).1 Capacity.staticAssert
  rw [hk] at hlt
  have hlt' := (Nat.pow_lt_pow_iff_right (by decide : 1 < 2)).1 hlt
  exact ⟨k, by omega, hk⟩

/-- An individual order stored in the hash map. -/
structure OrderRecord where
  orderId : UInt64 := 0
  side : UInt8 := 0
  occupied : Bool := false
  cancelled : Bool := false
  price : Int32 := 0
  quantity : Int32 := 0
  timestamp : UInt64 := 0
deriving DecidableEq, Repr

structure OrderTable (Capacity : Pow2) where
  table : Vector OrderRecord Capacity.val
  occupiedCount : UInt64
  activeCount : UInt64

namespace OrderTable

variable {Capacity : Pow2}

/-- The table after its constructor, and after `clear()`. -/
def clear (Capacity : Pow2) : OrderTable Capacity where
  table := Vector.replicate Capacity.val {}
  occupiedCount := 0
  activeCount := 0

def fibonacciPrime : UInt64 := 0x9E3779B97F4A7C15

/-- 64-bit Fibonacci multiplicative hash. -/
def hash (Capacity : Pow2) (orderId : UInt64) : Nat :=
  let h := orderId * fibonacciPrime
  (h >>> 43).toNat &&& (Capacity.val - 1)

/-- `(startIdx + probe) & MASK` -/
def slotIndex (startIdx : Nat) (probe : Fin Capacity.val) : Fin Capacity.val :=
  ⟨(startIdx + probe) &&& (Capacity.val - 1), by
    have := Nat.and_le_right (n := startIdx + probe) (m := Capacity.val - 1)
    have := probe.isLt
    omega⟩

/-- The probing loop of `insert`, over the values of `probe` still to come. -/
def insertLoop (t : OrderTable Capacity) (orderId : UInt64) (side : UInt8) (price quantity : Int32) (ts : UInt64)
    (startIdx : Nat) : List (Fin Capacity.val) → Option (Fin Capacity.val × OrderTable Capacity)
  | [] => none -- table capacity saturated
  | probe :: probes =>
    let idx := slotIndex startIdx probe
    let slot := t.table.get idx
    if !slot.occupied then
      some (idx,
        { t with
          table := t.table.setIfInBounds idx
            { orderId, side, price, quantity, timestamp := ts, occupied := true, cancelled := false }
          occupiedCount := t.occupiedCount + 1
          activeCount := t.activeCount + 1 })
    else if slot.orderId = orderId then
      -- re-activate or overwrite existing id
      some (idx,
        { t with
          table := t.table.setIfInBounds idx { slot with cancelled := false, side, price, quantity, timestamp := ts }
          activeCount := if slot.cancelled then t.activeCount + 1 else t.activeCount })
    else
      insertLoop t orderId side price quantity ts startIdx probes

/-- Inserts or updates an order record; `none` stands for the null pointer of an exhausted table. -/
def insert (t : OrderTable Capacity) (orderId : UInt64) (side : UInt8) (price quantity : Int32) (ts : UInt64) :
    Option (Fin Capacity.val × OrderTable Capacity) :=
  t.insertLoop orderId side price quantity ts (hash Capacity orderId) (List.finRange Capacity.val)

def lookupLoop (t : OrderTable Capacity) (orderId : UInt64) (startIdx : Nat) :
    List (Fin Capacity.val) → Option (Fin Capacity.val)
  | [] => none
  | probe :: probes =>
    let idx := slotIndex startIdx probe
    let slot := t.table.get idx
    if !slot.occupied then
      none -- terminate probe on first unoccupied slot
    else if slot.orderId = orderId then
      some idx
    else
      lookupLoop t orderId startIdx probes

/-- The slot of an order, by order id. -/
def lookup (t : OrderTable Capacity) (orderId : UInt64) : Option (Fin Capacity.val) :=
  t.lookupLoop orderId (hash Capacity orderId) (List.finRange Capacity.val)

/-- Marks an order as cancelled / tombstoned. -/
def erase (t : OrderTable Capacity) (orderId : UInt64) : Bool × OrderTable Capacity :=
  match t.lookup orderId with
  | none => (false, t)
  | some rec =>
    if !(t.table.get rec).cancelled then
      (true,
        { t with
          table := t.table.setIfInBounds rec { t.table.get rec with cancelled := true }
          activeCount := if t.activeCount > 0 then t.activeCount - 1 else t.activeCount })
    else
      (false, t)

def size (t : OrderTable Capacity) : UInt64 := t.activeCount

def occupiedSlots (t : OrderTable Capacity) : UInt64 := t.occupiedCount

end OrderTable

end FeedHandler
