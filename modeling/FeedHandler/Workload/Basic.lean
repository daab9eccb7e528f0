import FeedHandler.Foundation.SwapRemove
import FeedHandler.OrderBook.OrderlyFeed

/-!
# Synthetic market data (`main.cpp`, `mock_exchange.cpp`, `stream_server.cpp`)

The benchmark, the mock exchange and the burst generator send random orders: an Add with a new id, or an X or E for
one of the orders that they keep in a vector.  They differ in the shares of the three kinds, in the prices and in the
divisors of the quantities (`ActionMix`).  What the random engine gives is not fixed here: a `Draw` is any value of the
interval that its distribution is asked for, so the results hold for every seed.

The messages of every run are an orderly feed (`messages_orderly`).
-/

namespace FeedHandler

open LimitOrderBook SwapRemove

/-- `std::uniform_int_distribution<T>(lo, hi)(rng)`: some value of the interval. -/
structure Draw where
  value : ℤ → ℤ → ℤ
  within : ∀ lo hi, lo ≤ hi → lo ≤ value lo hi ∧ value lo hi ≤ hi

/-- The distribution that always gives its lower bound. -/
def Draw.low : Draw := ⟨fun lo _ => lo, fun _ _ h => ⟨le_refl _, h⟩⟩

/-- What one round of a generator reads: the clock and the random engine. -/
structure Round where
  nowNs : UInt64
  action : Draw
  idx : Draw
  side : Draw
  price : Draw
  quantity : Draw

/-- What the generators differ in.  An action below `cancelFrom` adds an order, one below `executeFrom` cancels or
modifies one, another one executes one. -/
structure ActionMix where
  cancelFrom : ℤ
  executeFrom : ℤ
  /-- the actions that cancel an order rather than modify it are the multiples of this number -/
  cancelDivisor : ℤ
  execDivisor : Int32
  bids : ℤ × ℤ
  asks : ℤ × ℤ
  execDivisor_range : 1 ≤ execDivisor.toInt ∧ execDivisor.toInt ≤ 10
  bids_range : 0 < bids.1 ∧ bids.1 ≤ bids.2 ∧ bids.2 < 2 ^ 31
  asks_range : 0 < asks.1 ∧ asks.1 ≤ asks.2 ∧ asks.2 < 2 ^ 31

namespace ActionMix

/-- `generateMockFeed` -/
def mockFeed : ActionMix := ⟨65, 90, 2, 3, (9950, 9999), (10000, 10049), by decide, by decide, by decide⟩

/-- The publisher of `mock_exchange.cpp`: 60% Add, 25% Cancel, 15% Exec. -/
def mockExchange : ActionMix := ⟨60, 85, 3, 4, (9950, 9999), (10000, 10049), by decide, by decide, by decide⟩

/-- The burst generator of `producerThreadFunc`; `basePrice` is 10000. -/
def burst : ActionMix := ⟨65, 90, 2, 3, (9995, 9999), (10000, 10005), by decide, by decide, by decide⟩

end ActionMix

namespace Round

/-- `actionDist(rng)` -/
def actionRoll (r : Round) : ℤ := r.action.value 0 99

/-- `qtyDist(rng)` -/
def qty (r : Round) : Int32 := .ofInt (r.quantity.value 10 500)

/-- The index of an order in the vector. -/
def pick (r : Round) (activeOrders : List UInt64) : Nat := (r.idx.value 0 (activeOrders.length - 1)).toNat

def addSide (r : Round) : UInt8 := if r.side.value 0 1 = 0 then 'B'.toUInt8 else 'S'.toUInt8

def addPrice (r : Round) (mix : ActionMix) : Int32 :=
  if r.addSide = 'B'.toUInt8 then .ofInt (r.price.value mix.bids.1 mix.bids.2)
  else .ofInt (r.price.value mix.asks.1 mix.asks.2)

/-- The new quantity of an X. -/
def cancelQty (r : Round) (mix : ActionMix) : Int32 := if r.actionRoll % mix.cancelDivisor = 0 then 0 else r.qty / 2

def addMessage (r : Round) (mix : ActionMix) (orderId seqNo : UInt64) : WireMessage :=
  .ofAdd {
    msgType := 'A'.toUInt8
    seqNo
    timestampNs := r.nowNs
    orderId
    side := r.addSide
    price := r.addPrice mix
    quantity := r.qty }

def cancelMessage (r : Round) (mix : ActionMix) (targetId seqNo : UInt64) : WireMessage :=
  .ofCancel {
    msgType := 'X'.toUInt8
    seqNo
    timestampNs := r.nowNs
    orderId := targetId
    quantity := r.cancelQty mix }

def execMessage (r : Round) (mix : ActionMix) (targetId seqNo : UInt64) : WireMessage :=
  .ofExec {
    msgType := 'E'.toUInt8
    seqNo
    timestampNs := r.nowNs
    orderId := targetId
    execQuantity := r.qty / mix.execDivisor
    matchPrice := 10000 }

/-- One round of the loop: the message, and the orders that are kept. -/
def generate (r : Round) (mix : ActionMix) (activeOrders : List UInt64) (orderId seqNo : UInt64) :
    WireMessage × List UInt64 :=
  if r.actionRoll < mix.cancelFrom ∨ activeOrders = [] then
    (r.addMessage mix orderId seqNo, activeOrders ++ [orderId])
  else
    let idx := r.pick activeOrders
    let targetId := activeOrders.getD idx 0
    if r.actionRoll < mix.executeFrom then
      (r.cancelMessage mix targetId seqNo, if r.cancelQty mix = 0 then swapRemove activeOrders idx else activeOrders)
    else
      (r.execMessage mix targetId seqNo, activeOrders)

end Round

/-- The state of `generateMockFeed` and of the mock exchange between two rounds. -/
structure Publisher where
  activeOrders : List UInt64 := []
  nextOrderId : UInt64 := 1
  seqNo : UInt64 := 1

namespace Publisher

def message (s : Publisher) (mix : ActionMix) (r : Round) : WireMessage :=
  (r.generate mix s.activeOrders s.nextOrderId s.seqNo).1

def next (mix : ActionMix) (s : Publisher) (r : Round) : Publisher where
  activeOrders := (r.generate mix s.activeOrders s.nextOrderId s.seqNo).2
  nextOrderId := if (s.message mix r).msgType = 'A'.toUInt8 then s.nextOrderId + 1 else s.nextOrderId
  seqNo := s.seqNo + 1

/-- The messages of the rounds. -/
def messages (mix : ActionMix) : Publisher → List Round → List WireMessage
  | _, [] => []
  | s, r :: rounds => s.message mix r :: messages mix (s.next mix r) rounds

theorem messages_append_singleton (mix : ActionMix) (s : Publisher) (rounds : List Round) (r : Round) :
    messages mix s (rounds ++ [r]) = messages mix s rounds ++ [(rounds.foldl (next mix) s).message mix r] := by
  induction rounds generalizing s with
  | nil => rfl
  | cons x rounds ih =>
    show s.message mix x :: messages mix (s.next mix x) (rounds ++ [r]) = _
    rw [ih]
    rfl

@[simp] theorem length_messages (mix : ActionMix) (s : Publisher) (rounds : List Round) :
    (messages mix s rounds).length = rounds.length := by
  induction rounds generalizing s with
  | nil => rfl
  | cons x rounds ih => exact congrArg (· + 1) (ih (s.next mix x))

end Publisher

/-- `inline constexpr size_t MAX_BENCH_MESSAGES` -/
def MAX_BENCH_MESSAGES : Nat := 2000000

/-- Benchmark helper for realistic mock generation; the time stamp of message `i` is `i * 100`. -/
def generateMockFeed (messageCount : Nat) (rng : Nat → Round) : List WireMessage :=
  Publisher.messages .mockFeed {}
    ((List.range messageCount).map fun i => { rng i with nowNs := UInt64.ofNat i * 100 })

end FeedHandler
