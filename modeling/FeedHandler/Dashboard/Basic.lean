import Mathlib.Data.Rat.Defs
import Mathlib.Algebra.Order.Ring.Unbundled.Rat
import Mathlib.Algebra.Order.Group.Unbundled.Abs
import Mathlib.Algebra.Order.Group.Unbundled.Int

/-!
# The dashboard (`web/app.js`)

The part of `QuantDeskVisualizer` that holds the book shown and trades on paper against it: the replacement of the book
by a snapshot, the market orders, and `flattenPosition`.  Numbers are exact rationals; prices in the book are ticks of
a hundredth.  A method gives the toasts it shows beside the desk it leaves.  The time of a trade, the unrealized profit,
which is written by `render` alone, and the display are left out.
-/

namespace FeedHandler

namespace Dashboard

/-- An entry of `this.bids` or `this.asks`. -/
structure Level where
  price : ℚ
  qty : ℚ
  orders : ℚ
  active : Bool
deriving DecidableEq, Repr

inductive TradeSide where
  | buy
  | sell
deriving DecidableEq, Repr

inductive TradeType where
  | trade
  | marketFill
  | userExec
deriving DecidableEq, Repr

/-- An entry of the tape. -/
structure Trade where
  type : TradeType
  orderId : Nat
  side : TradeSide
  price : ℚ
  qty : ℚ
  notional : ℚ
deriving DecidableEq, Repr

/-- The paper trading portfolio, with its starting cash. -/
structure Portfolio where
  initialCash : ℚ := 100000
  cash : ℚ := 100000
  position : ℚ := 0
  avgEntryPrice : ℚ := 0
  realizedPnL : ℚ := 0
deriving DecidableEq, Repr

inductive Toast where
  /-- "Cannot buy: Ask book is empty" -/
  | askBookEmpty
  /-- "Insufficient Buying Power (Need $…)" -/
  | insufficientBuyingPower (totalCost : ℚ)
  /-- "Bought … @ $… (Filled Market)" -/
  | bought (qty : ℚ) (symbol : String) (bestAsk : ℚ)
  /-- "Cannot sell: Bid book is empty" -/
  | bidBookEmpty
  /-- "Sold … @ $… (Filled Market)" -/
  | sold (qty : ℚ) (symbol : String) (bestBid : ℚ)
  /-- "Portfolio is already flat (0 shares)" -/
  | alreadyFlat
  /-- "Flattened entire LONG position (… shares)" -/
  | flattenedLong (pos : ℚ)
  /-- "Flattened entire SHORT position (… shares)" -/
  | flattenedShort (pos : ℚ)
deriving DecidableEq, Repr

/-- The toasts that turn an order away. -/
def Toast.rejects : Toast → Bool
  | askBookEmpty | insufficientBuyingPower _ | bidBookEmpty | alreadyFlat => true
  | _ => false

/-- An order was turned away: it shows such a toast. -/
def Rejected (toasts : List Toast) : Prop := ∃ toast ∈ toasts, toast.rejects = true

instance (toasts : List Toast) : Decidable (Rejected toasts) := inferInstanceAs (Decidable (∃ _ ∈ _, _))

structure QuantDeskVisualizer where
  bids : List Level := []
  asks : List Level := []
  recentTape : List Trade := []
  nextOrderId : Nat := 1001
  activeSymbol : String := "AAPL"
  totalIngested : Nat := 0
  totalProcessed : Nat := 0
  cumTradeVolume : ℚ := 0
  cumTradeNotional : ℚ := 0
  vwap : ℚ := 0
  portfolio : Portfolio := {}
deriving DecidableEq, Repr

/-! ### Fills -/

namespace Portfolio

/-- The portfolio after `executeBuyMarket` filled an order. -/
def buy (p : Portfolio) (bestAsk qty : ℚ) : Portfolio :=
  let totalCost := bestAsk * qty
  let oldPos := p.position
  let newPos := oldPos + qty
  let p := { p with cash := p.cash - totalCost }
  let p :=
    if oldPos ≥ 0 then
      -- adding to long
      { p with avgEntryPrice := (oldPos * p.avgEntryPrice + totalCost) / newPos }
    else
      -- covering short
      let coveredQty := min |oldPos| qty
      let p := { p with realizedPnL := p.realizedPnL + (p.avgEntryPrice - bestAsk) * coveredQty }
      if newPos > 0 then { p with avgEntryPrice := bestAsk }
      else if newPos = 0 then { p with avgEntryPrice := 0 }
      else p
  { p with position := newPos }

/-- The portfolio after `executeSellMarket` filled an order. -/
def sell (p : Portfolio) (bestBid qty : ℚ) : Portfolio :=
  let totalProceeds := bestBid * qty
  let oldPos := p.position
  let newPos := oldPos - qty
  let p := { p with cash := p.cash + totalProceeds }
  let p :=
    if oldPos > 0 then
      -- selling from long
      let closedQty := min oldPos qty
      let p := { p with realizedPnL := p.realizedPnL + (bestBid - p.avgEntryPrice) * closedQty }
      if newPos ≤ 0 then { p with avgEntryPrice := if newPos < 0 then bestBid else 0 } else p
    else
      -- adding to short
      { p with avgEntryPrice := (|oldPos| * p.avgEntryPrice + totalProceeds) / |newPos| }
  { p with position := newPos }

end Portfolio

namespace QuantDeskVisualizer

def recordTrade (desk : QuantDeskVisualizer) (side : TradeSide) (price qty : ℚ) (orderId : Nat)
    (type : TradeType := .trade) : QuantDeskVisualizer :=
  let notional := price * qty
  let cumTradeVolume := desk.cumTradeVolume + qty
  let cumTradeNotional := desk.cumTradeNotional + notional
  let recentTape := { type, orderId, side, price, qty, notional } :: desk.recentTape
  { desk with
    cumTradeVolume
    cumTradeNotional
    vwap := cumTradeNotional / cumTradeVolume
    recentTape := if recentTape.length > 50 then recentTape.dropLast else recentTape }

/-- What both market orders do once the portfolio is updated. -/
def recordFill (desk : QuantDeskVisualizer) (side : TradeSide) (price qty : ℚ) : QuantDeskVisualizer :=
  let orderId := desk.nextOrderId
  let desk := { desk with nextOrderId := orderId + 1 }.recordTrade side price qty orderId .userExec
  { desk with totalIngested := desk.totalIngested + 1, totalProcessed := desk.totalProcessed + 1 }

def executeBuyMarket (desk : QuantDeskVisualizer) (qty : ℚ) : QuantDeskVisualizer × List Toast :=
  match desk.asks with
  | [] => (desk, [.askBookEmpty])
  | ask :: _ =>
    let bestAsk := ask.price / 100
    let totalCost := bestAsk * qty
    if desk.portfolio.cash < totalCost then
      (desk, [.insufficientBuyingPower totalCost])
    else
      ({ desk with portfolio := desk.portfolio.buy bestAsk qty }.recordFill .buy bestAsk qty,
        [.bought qty desk.activeSymbol bestAsk])

def executeSellMarket (desk : QuantDeskVisualizer) (qty : ℚ) : QuantDeskVisualizer × List Toast :=
  match desk.bids with
  | [] => (desk, [.bidBookEmpty])
  | bid :: _ =>
    let bestBid := bid.price / 100
    ({ desk with portfolio := desk.portfolio.sell bestBid qty }.recordFill .sell bestBid qty,
      [.sold qty desk.activeSymbol bestBid])

def flattenPosition (desk : QuantDeskVisualizer) : QuantDeskVisualizer × List Toast :=
  if desk.portfolio.position = 0 then
    (desk, [.alreadyFlat])
  else
    let pos := desk.portfolio.position
    if pos > 0 then
      let (desk, toasts) := desk.executeSellMarket pos
      (desk, toasts ++ [.flattenedLong pos])
    else
      -- the second toast is shown also where the order was turned away
      let (desk, toasts) := desk.executeBuyMarket |pos|
      (desk, toasts ++ [.flattenedShort |pos|])

end QuantDeskVisualizer

/-! ### Calls -/

inductive Order where
  | buy (qty : ℚ)
  | sell (qty : ℚ)
  | flatten
deriving DecidableEq, Repr

def Order.QtyPositive : Order → Prop
  | buy qty | sell qty => 0 < qty
  | flatten => True

instance : DecidablePred Order.QtyPositive
  | .buy qty | .sell qty => inferInstanceAs (Decidable (0 < qty))
  | .flatten => inferInstanceAs (Decidable True)

namespace QuantDeskVisualizer

def perform (desk : QuantDeskVisualizer) : Order → QuantDeskVisualizer × List Toast
  | .buy qty => desk.executeBuyMarket qty
  | .sell qty => desk.executeSellMarket qty
  | .flatten => desk.flattenPosition

/-- The book is replaced, then an order is placed. -/
def step (desk : QuantDeskVisualizer) (call : List Level × List Level × Order) : QuantDeskVisualizer :=
  ({ desk with bids := call.1, asks := call.2.1 }.perform call.2.2).1

end QuantDeskVisualizer

end Dashboard

end FeedHandler
