import FeedHandler.Dashboard.Accounting
import FeedHandler.OrderBook.Steps

/-!
# Fills against the engine's book (`web/app.js`, `stream_server.cpp`)

A snapshot has an object for each of the `Depth` levels of a side, shown or not, and the dashboard takes a side for
empty when it has no objects.  So its best price is always the one of the engine, which is 0 on an empty side
(`asks_onmessage`, `bids_onmessage`), and an order against an empty side is filled at 0 (`respects_iff`).
-/

namespace FeedHandler

namespace Dashboard

open LimitOrderBook

variable {Depth : Nat} {TableCapacity : Pow2}

/-- A level as `snapshotThreadFunc` writes it and `JSON.parse` reads it. -/
def Level.ofPriceLevel (l : PriceLevel) : Level where
  price := l.price.toInt
  qty := l.quantity.toInt
  orders := l.orderCount.toInt
  active := l.active

/-- What the dashboard reads of a message: `data.type`, and `data.bids` and `data.asks` where they are there. -/
structure SocketMessage where
  type : String
  bids : Option (List Level)
  asks : Option (List Level)

/-- The message of `snapshotThreadFunc`. -/
def snapshot (book : LimitOrderBook Depth TableCapacity) : SocketMessage where
  type := "snapshot"
  bids := some (book.bids.toList.map Level.ofPriceLevel)
  asks := some (book.asks.toList.map Level.ofPriceLevel)

namespace QuantDeskVisualizer

/-- `ws.onmessage` -/
def onmessage (desk : QuantDeskVisualizer) (data : SocketMessage) : QuantDeskVisualizer :=
  if data.type = "snapshot" then
    { desk with bids := data.bids.getD desk.bids, asks := data.asks.getD desk.asks }
  else
    desk

end QuantDeskVisualizer

/-- A buy after the snapshot fills at the engine's best ask, or is turned away and leaves the portfolio as it is. -/
def BuyRespects (book : LimitOrderBook Depth TableCapacity) (desk : QuantDeskVisualizer) (qty : ℚ) : Prop :=
  let r := (desk.onmessage (snapshot book)).executeBuyMarket qty
  book.hasAsks = true ∧ ¬ Rejected r.2 ∧ r.1.portfolio = desk.portfolio.buy (book.bestAskPrice.toInt / 100) qty ∨
    Rejected r.2 ∧ r.1.portfolio = desk.portfolio

/-- A sell after the snapshot fills at the engine's best bid, or is turned away and leaves the portfolio as it is. -/
def SellRespects (book : LimitOrderBook Depth TableCapacity) (desk : QuantDeskVisualizer) (qty : ℚ) : Prop :=
  let r := (desk.onmessage (snapshot book)).executeSellMarket qty
  book.hasBids = true ∧ ¬ Rejected r.2 ∧ r.1.portfolio = desk.portfolio.sell (book.bestBidPrice.toInt / 100) qty ∨
    Rejected r.2 ∧ r.1.portfolio = desk.portfolio

instance (book : LimitOrderBook Depth TableCapacity) (desk : QuantDeskVisualizer) (qty : ℚ) :
    Decidable (BuyRespects book desk qty) := inferInstanceAs (Decidable (_ ∧ _ ∨ _ ∧ _))

instance (book : LimitOrderBook Depth TableCapacity) (desk : QuantDeskVisualizer) (qty : ℚ) :
    Decidable (SellRespects book desk qty) := inferInstanceAs (Decidable (_ ∧ _ ∨ _ ∧ _))

/-! ### The side the dashboard sees -/

/-- A side has an entry for each level, shown or not. -/
private theorem map_toList_eq_cons (hDepth : 0 < Depth) (levels : Vector PriceLevel Depth) :
    ∃ rest, levels.toList.map Level.ofPriceLevel = Level.ofPriceLevel levels[0]! :: rest := by
  have hlen : 0 < levels.toList.length := by rwa [Vector.length_toList]
  obtain ⟨l, rest, hlist⟩ := List.exists_cons_of_length_pos hlen
  have hfirst : levels[0]! = l := by
    rw [SideArray.getElem!_eq, hlist]
    rfl
  rw [hlist, hfirst]
  exact ⟨rest.map Level.ofPriceLevel, rfl⟩

/-- The first entry of a side has the best price, also when the side is empty. -/
private theorem first_price_eq {ascending : Bool} {levels : Vector PriceLevel Depth}
    (h : SideArray.Shaped ascending levels) :
    levels[0]!.price = if levels[0]!.active then levels[0]!.price else 0 := by
  rw [h.first_price, h.first]

section Snapshot

variable {book : LimitOrderBook Depth TableCapacity} {desk : QuantDeskVisualizer}

theorem asks_onmessage (desk : QuantDeskVisualizer) (hDepth : 0 < Depth) (h : SideArray.Shaped true book.asks) :
    ∃ ask rest, (desk.onmessage (snapshot book)).asks = ask :: rest ∧ ask.price = book.bestAskPrice.toInt := by
  obtain ⟨rest, hrest⟩ := map_toList_eq_cons hDepth book.asks
  refine ⟨_, rest, hrest, ?_⟩
  unfold bestAskPrice
  rw [← first_price_eq h]
  rfl

theorem bids_onmessage (desk : QuantDeskVisualizer) (hDepth : 0 < Depth) (h : SideArray.Shaped false book.bids) :
    ∃ bid rest, (desk.onmessage (snapshot book)).bids = bid :: rest ∧ bid.price = book.bestBidPrice.toInt := by
  obtain ⟨rest, hrest⟩ := map_toList_eq_cons hDepth book.bids
  refine ⟨_, rest, hrest, ?_⟩
  unfold bestBidPrice
  rw [← first_price_eq h]
  rfl

theorem portfolio_onmessage (data : SocketMessage) : (desk.onmessage data).portfolio = desk.portfolio := by
  unfold QuantDeskVisualizer.onmessage
  split <;> rfl

end Snapshot

/-! ### Orders against the snapshot -/

section Orders

variable {book : LimitOrderBook Depth TableCapacity} {desk : QuantDeskVisualizer} {qty : ℚ}

/-- An empty side has the best price 0, so an order against it costs nothing. -/
private theorem cost_eq_zero (hempty : book.hasAsks ≠ true) (qty : ℚ) :
    (book.bestAskPrice.toInt : ℚ) / 100 * qty = 0 := by
  have hinactive : book.asks[0]!.active ≠ true := hempty
  have hprice : book.bestAskPrice = 0 := if_neg hinactive
  rw [hprice]
  simp

theorem buyRespects_iff (hDepth : 0 < Depth) (h : SideArray.Shaped true book.asks) :
    BuyRespects book desk qty ↔ book.hasAsks = true ∨ desk.portfolio.cash < 0 := by
  obtain ⟨ask, rest, hasks, hprice⟩ := asks_onmessage desk hDepth h
  unfold BuyRespects QuantDeskVisualizer.executeBuyMarket
  simp only [hasks, hprice, portfolio_onmessage]
  split
  · next hcash =>
    -- turned away for lack of cash
    have hrejected : Rejected [Toast.insufficientBuyingPower (book.bestAskPrice.toInt / 100 * qty)] :=
      rejected_singleton.2 rfl
    refine iff_of_true (Or.inr ⟨hrejected, portfolio_onmessage _⟩) ?_
    by_cases hempty : book.hasAsks = true
    · exact Or.inl hempty
    · rw [cost_eq_zero hempty] at hcash
      exact Or.inr hcash
  · next hcash =>
    have hfilled : ¬ Rejected [Toast.bought qty (desk.onmessage (snapshot book)).activeSymbol
        (book.bestAskPrice.toInt / 100)] := by
      simp [Toast.rejects]
    constructor
    · rintro (⟨hasks, -, -⟩ | ⟨hrejected, -⟩)
      · exact Or.inl hasks
      · exact absurd hrejected hfilled
    · rintro (hasks | hneg)
      · exact Or.inl ⟨hasks, hfilled, rfl⟩
      · by_cases hempty : book.hasAsks = true
        · exact Or.inl ⟨hempty, hfilled, rfl⟩
        · -- without cash not even a fill at 0 goes through
          rw [cost_eq_zero hempty] at hcash
          exact absurd hneg hcash

theorem sellRespects_iff (hDepth : 0 < Depth) (h : SideArray.Shaped false book.bids) :
    SellRespects book desk qty ↔ book.hasBids = true := by
  obtain ⟨bid, rest, hbids, hprice⟩ := bids_onmessage desk hDepth h
  have hfilled : ¬ Rejected [Toast.sold qty (desk.onmessage (snapshot book)).activeSymbol
      (book.bestBidPrice.toInt / 100)] := by
    simp [Toast.rejects]
  unfold SellRespects QuantDeskVisualizer.executeSellMarket
  simp only [hbids, hprice, portfolio_onmessage]
  constructor
  · rintro (⟨hbids, -, -⟩ | ⟨hrejected, -⟩)
    · exact hbids
    · exact absurd hrejected hfilled
  · intro hbids
    exact Or.inl ⟨hbids, hfilled, rfl⟩

end Orders

/-- After a snapshot of a reachable book a buy respects that book when the book has asks, or when there is no cash at
all; a sell respects it when the book has bids. -/
theorem respects_iff (hDepth : 0 < Depth) (TableCapacity : Pow2) (msgs : List WireMessage)
    (desk : QuantDeskVisualizer) (qty : ℚ) :
    (BuyRespects (run Depth TableCapacity msgs) desk qty ↔
        (run Depth TableCapacity msgs).hasAsks = true ∨ desk.portfolio.cash < 0) ∧
      (SellRespects (run Depth TableCapacity msgs) desk qty ↔ (run Depth TableCapacity msgs).hasBids = true) :=
  ⟨buyRespects_iff hDepth (run_shaped hDepth TableCapacity msgs .ask),
    sellRespects_iff hDepth (run_shaped hDepth TableCapacity msgs .bid)⟩

/-- A one-sided book, and a desk as it starts. -/
theorem respects_iff_one_sided :
    let book := run 2 ⟨4, by decide, by decide⟩ [.ofAdd ⟨'A'.toUInt8, 1, 0, 1, 'B'.toUInt8, 100, 5⟩]
    (BuyRespects book {} 100 ↔ book.hasAsks = true ∨ ({} : QuantDeskVisualizer).portfolio.cash < 0) ∧
      (SellRespects book {} 100 ↔ book.hasBids = true) :=
  respects_iff (by decide) _ _ _ _

/-- A fresh book has neither side; a hundred shares are bought at 0, and sold at 0. -/
theorem fills_at_zero :
    let book := run 2 ⟨4, by decide, by decide⟩ []
    let desk := ({} : QuantDeskVisualizer).onmessage (snapshot book)
    (book.hasAsks = false ∧ (desk.executeBuyMarket 100).1.portfolio = { position := 100 } ∧
        ¬ BuyRespects book {} 100) ∧
      book.hasBids = false ∧ (desk.executeSellMarket 100).1.portfolio = { position := -100 } ∧
        ¬ SellRespects book {} 100 := by
  decide +kernel

end Dashboard

end FeedHandler
