import FeedHandler.OrderTable.Basic

/-!
# The limit order book (`order_book.hpp`)

A book holds the order table and, for each side, a fixed array of the best `Depth` price levels.  `processMessage`
counts and sequences a message and hands it to the handler of its type; the handlers keep the side arrays by
deltas (`applyDelta`).  Indices into the arrays are natural numbers; `Depth` is at least one wherever the source
reads `levels[Depth - 1]`.
-/

namespace FeedHandler

/-- An aggregated price level. -/
structure PriceLevel where
  price : Int32 := 0
  quantity : Int32 := 0
  orderCount : Int32 := 0
  active : Bool := false
deriving DecidableEq, Repr, Inhabited

/-! ### The side arrays -/

namespace SideArray

variable {Depth : Nat}

/-- `ascending ? p < q : p > q` -/
def beats (ascending : Bool) (p q : Int32) : Bool := if ascending then p < q else p > q

def removeLevel (levels : Vector PriceLevel Depth) (idx : Nat) : Vector PriceLevel Depth :=
  let shifted := (List.range' idx (Depth - 1 - idx)).foldl
    (fun levels i => levels.setIfInBounds i levels[i + 1]!) levels
  shifted.setIfInBounds (Depth - 1) {}

/-- Step 1 of `applyDelta`: the index of the active level with this price. -/
def findLevel (levels : Vector PriceLevel Depth) (price : Int32) : Option Nat :=
  (List.range Depth).find? fun i => levels[i]!.active && levels[i]!.price = price

/-- Step 2 of `applyDelta`: the first inactive level. -/
def findSlot (levels : Vector PriceLevel Depth) : Option Nat :=
  (List.range Depth).find? fun i => !levels[i]!.active

/-- Step 3 of `applyDelta`: bubble into sorted order. -/
def bubble (ascending : Bool) (levels : Vector PriceLevel Depth) : Nat → Vector PriceLevel Depth
  | 0 => levels
  | insertPos + 1 =>
    let outOfOrder := beats ascending levels[insertPos + 1]!.price levels[insertPos]!.price
    if !outOfOrder then
      levels
    else
      bubble ascending
        ((levels.setIfInBounds (insertPos + 1) levels[insertPos]!).setIfInBounds insertPos levels[insertPos + 1]!)
        insertPos

/-- Applies signed quantity and order count deltas to the price depth array. -/
def applyDelta (levels : Vector PriceLevel Depth) (price qtyDelta orderDelta : Int32) (ascending : Bool) :
    Vector PriceLevel Depth :=
  match findLevel levels price with
  | some i =>
    let level :=
      { levels[i]! with
        quantity := levels[i]!.quantity + qtyDelta
        orderCount := levels[i]!.orderCount + orderDelta }
    let levels := levels.setIfInBounds i level
    if level.quantity ≤ 0 || level.orderCount ≤ 0 then removeLevel levels i else levels
  | none =>
    if qtyDelta ≤ 0 then
      levels
    else
      let level : PriceLevel :=
        { price, quantity := qtyDelta, orderCount := if orderDelta > 0 then orderDelta else 1, active := true }
      match findSlot levels with
      | some insertPos => bubble ascending (levels.setIfInBounds insertPos level) insertPos
      | none =>
        -- the array is full: the new price must beat the worst level
        if !beats ascending price levels[Depth - 1]!.price then
          levels
        else
          bubble ascending (levels.setIfInBounds (Depth - 1) level) (Depth - 1)

end SideArray

/-! ### The book -/

structure LimitOrderBook (Depth : Nat) (TableCapacity : Pow2) where
  orderTable : OrderTable TableCapacity
  bids : Vector PriceLevel Depth
  asks : Vector PriceLevel Depth
  totalMessagesProcessed : UInt64
  expectedSeqNo : UInt64
  sequenceGapsDetected : UInt64
  tradesExecutedCount : UInt64

namespace LimitOrderBook

open SideArray

variable {Depth : Nat} {TableCapacity : Pow2}

/-- The book after its constructor, and after `reset()`. -/
def reset (Depth : Nat) (TableCapacity : Pow2) : LimitOrderBook Depth TableCapacity where
  orderTable := OrderTable.clear TableCapacity
  bids := Vector.replicate Depth {}
  asks := Vector.replicate Depth {}
  totalMessagesProcessed := 0
  expectedSeqNo := 1
  sequenceGapsDetected := 0
  tradesExecutedCount := 0

/-- `applyDelta` on the array of the side a record lies on. -/
def applySide (book : LimitOrderBook Depth TableCapacity) (side : UInt8) (price qtyDelta orderDelta : Int32) :
    LimitOrderBook Depth TableCapacity :=
  if side = 'B'.toUInt8 then
    { book with bids := applyDelta book.bids price qtyDelta orderDelta false }
  else
    { book with asks := applyDelta book.asks price qtyDelta orderDelta true }

/-- Ingests an `'A'` Add Order packet. -/
def processAdd (book : LimitOrderBook Depth TableCapacity) (msg : AddOrderMsg) : LimitOrderBook Depth TableCapacity :=
  match book.orderTable.insert msg.orderId msg.side msg.price msg.quantity msg.timestampNs with
  | none => book
  | some (_, orderTable) => { book with orderTable }.applySide msg.side msg.price msg.quantity 1

/-- Ingests an `'X'` Cancel/Reduce Order packet. -/
def processCancel (book : LimitOrderBook Depth TableCapacity) (msg : CancelOrderMsg) :
    LimitOrderBook Depth TableCapacity :=
  match book.orderTable.lookup msg.orderId with
  | none => book
  | some idx =>
    let rec_ := book.orderTable.table.get idx
    if rec_.cancelled then
      book
    else
      let qtyDelta := msg.quantity - rec_.quantity
      let orderDelta : Int32 := if msg.quantity ≤ 0 then -1 else 0
      let book := book.applySide rec_.side rec_.price qtyDelta orderDelta
      let rec_ := { rec_ with quantity := msg.quantity }
      let rec_ := if msg.quantity ≤ 0 then { rec_ with cancelled := true } else rec_
      { book with orderTable := { book.orderTable with table := book.orderTable.table.setIfInBounds idx rec_ } }

/-- Ingests an `'E'` Execute Fill packet. -/
def processExecute (book : LimitOrderBook Depth TableCapacity) (msg : ExecuteOrderMsg) :
    LimitOrderBook Depth TableCapacity :=
  let book := { book with tradesExecutedCount := book.tradesExecutedCount + 1 }
  match book.orderTable.lookup msg.orderId with
  | none => book
  | some idx =>
    let rec_ := book.orderTable.table.get idx
    if rec_.cancelled then
      book
    else
      let newQty := if rec_.quantity > msg.execQuantity then rec_.quantity - msg.execQuantity else 0
      let qtyDelta := -msg.execQuantity
      let orderDelta : Int32 := if newQty = 0 then -1 else 0
      let book := book.applySide rec_.side rec_.price qtyDelta orderDelta
      let rec_ := { rec_ with quantity := newQty }
      let rec_ := if newQty = 0 then { rec_ with cancelled := true } else rec_
      { book with orderTable := { book.orderTable with table := book.orderTable.table.setIfInBounds idx rec_ } }

/-- The counters and the sequence number check of `processMessage`. -/
def sequence (book : LimitOrderBook Depth TableCapacity) (seqNo : UInt64) : LimitOrderBook Depth TableCapacity :=
  let book := { book with totalMessagesProcessed := book.totalMessagesProcessed + 1 }
  if book.expectedSeqNo > 0 && seqNo != book.expectedSeqNo then
    { book with
      sequenceGapsDetected :=
        if seqNo > book.expectedSeqNo then book.sequenceGapsDetected + (seqNo - book.expectedSeqNo)
        else book.sequenceGapsDetected
      expectedSeqNo := seqNo + 1 }
  else
    { book with expectedSeqNo := book.expectedSeqNo + 1 }

/-- Hot-path message dispatch handler. -/
def processMessage (book : LimitOrderBook Depth TableCapacity) (msg : WireMessage) :
    LimitOrderBook Depth TableCapacity :=
  let book := book.sequence msg.seqNo
  if msg.msgType = 'A'.toUInt8 then
    book.processAdd msg.add
  else if msg.msgType = 'X'.toUInt8 then
    book.processCancel msg.cancel
  else if msg.msgType = 'E'.toUInt8 then
    book.processExecute msg.exec
  else
    book -- drop malformed/unknown packet variant

/-- The book after a sequence of messages, from its constructor on. -/
def run (Depth : Nat) (TableCapacity : Pow2) (msgs : List WireMessage) : LimitOrderBook Depth TableCapacity :=
  msgs.foldl processMessage (reset Depth TableCapacity)

/-! ### Market analytics getters -/

def hasBids (book : LimitOrderBook Depth TableCapacity) : Bool := book.bids[0]!.active

def hasAsks (book : LimitOrderBook Depth TableCapacity) : Bool := book.asks[0]!.active

def bestBidPrice (book : LimitOrderBook Depth TableCapacity) : Int32 :=
  if book.bids[0]!.active then book.bids[0]!.price else 0

def bestAskPrice (book : LimitOrderBook Depth TableCapacity) : Int32 :=
  if book.asks[0]!.active then book.asks[0]!.price else 0

end LimitOrderBook

end FeedHandler
