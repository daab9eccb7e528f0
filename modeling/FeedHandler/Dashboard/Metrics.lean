import FeedHandler.Dashboard.Fills
import FeedHandler.Foundation.LadderSweep
import FeedHandler.OrderBook.MicroPrice
import FeedHandler.StreamServer.SnapshotJson

/-!
# The figures of the dashboard (`calculateQuantMetrics` of `web/app.js`)

The dashboard computes its figures from the levels it holds and from the portfolio; it does not read the analytics of a
snapshot.  On the snapshot of a book they agree with what the engine computes all the same, and the estimate for a
market buy is the least that the visible asks can cost (`metrics_agree`).

The equity is the starting cash with all profit, realized or not, unless the position is short: what it takes to buy
the shares back is left out (`totalEquity_eq`).
-/

namespace FeedHandler

namespace Dashboard

open LadderSweep LimitOrderBook SideArray

inductive MicroBias where
  /-- "Neutral" -/
  | neutral
  /-- "+… Bullish" -/
  | bullish (microDiff : ℚ)
  /-- "… Bearish" -/
  | bearish (microDiff : ℚ)
  /-- "Balanced Fair" -/
  | balancedFair
deriving DecidableEq, Repr

inductive OfiDesc where
  /-- "Equal Supply / Demand" -/
  | equalSupplyDemand
  /-- "+…% Bid Dominated" -/
  | bidDominated (ofiScore : ℚ)
  /-- "…% Ask Dominated" -/
  | askDominated (ofiScore : ℚ)
  /-- "Equilibrium Order Flow" -/
  | equilibriumOrderFlow
deriving DecidableEq, Repr

/-- What `calculateQuantMetrics` returns. -/
structure QuantMetrics where
  mid : ℚ
  spread : ℚ
  spreadBps : ℚ
  microPrice : ℚ
  microBias : MicroBias
  totalBidVol : ℚ
  totalAskVol : ℚ
  ofiScore : ℚ
  ofiPressure : String
  ofiBadgeClass : String
  ofiDesc : OfiDesc
  vwapDiffPct : ℚ
  estWap : ℚ
  slipDollar : ℚ
  slipBps : ℚ
  totalCost : ℚ
  unrealizedPnL : ℚ
  pnlPct : ℚ
  totalEquity : ℚ
deriving DecidableEq, Repr

/-- The first level of a side, or a level of zeros. -/
def top (levels : List Level) : Level := levels.headD ⟨0, 0, 0, false⟩

/-- The loop over the asks, with `totalCost` and `remaining`. -/
def sweepAsks : List Level → ℚ × ℚ → ℚ × ℚ
  | [], s => s
  | a :: asks, (totalCost, remaining) =>
    if remaining ≤ 0 then
      (totalCost, remaining)
    else
      let fillQty := min a.qty remaining
      sweepAsks asks (totalCost + a.price / 100 * fillQty, remaining - fillQty)

/-- The score, and what is shown for it. -/
def orderFlowImbalance (totalBidVol totalAskVol : ℚ) : ℚ × String × String × OfiDesc :=
  let totalDepth := totalBidVol + totalAskVol
  if totalDepth > 0 then
    let ofiScore := (totalBidVol - totalAskVol) / totalDepth * 100
    if ofiScore > 15 then
      (ofiScore, "BULLISH", "badge-bullish", .bidDominated ofiScore)
    else if ofiScore < -15 then
      (ofiScore, "BEARISH", "badge-bearish", .askDominated ofiScore)
    else
      (ofiScore, "BALANCED", "badge-neutral", .equilibriumOrderFlow)
  else
    (0, "BALANCED", "badge-neutral", .equalSupplyDemand)

/-- `this.currentMid` and `this.selectedSlippageQty` are passed in; the new value of the first is `mid`. -/
def QuantDeskVisualizer.calculateQuantMetrics (desk : QuantDeskVisualizer) (currentMid selectedSlippageQty : ℚ) :
    QuantMetrics :=
  let bestBid := (top desk.bids).price / 100
  let bestAsk := (top desk.asks).price / 100
  let quoted := bestBid > 0 ∧ bestAsk > 0
  let mid := if quoted then (bestBid + bestAsk) / 2 else currentMid
  let spread := if quoted then bestAsk - bestBid else 0
  let topBidQty := (top desk.bids).qty
  let topAskQty := (top desk.asks).qty
  let weighted := topBidQty + topAskQty > 0 ∧ bestBid > 0 ∧ bestAsk > 0
  let microPrice := if weighted then (bestBid * topAskQty + bestAsk * topBidQty) / (topBidQty + topAskQty) else mid
  let microDiff := microPrice - mid
  let totalBidVol := (desk.bids.map (·.qty)).sum
  let totalAskVol := (desk.asks.map (·.qty)).sum
  let (ofiScore, ofiPressure, ofiBadgeClass, ofiDesc) := orderFlowImbalance totalBidVol totalAskVol
  let slipSize := selectedSlippageQty
  let (totalCost, remaining) := sweepAsks desk.asks (0, slipSize)
  -- what the asks do not fill is estimated at five cents above the best ask
  let totalCost :=
    if remaining > 0 ∧ bestAsk > 0 then totalCost + (bestAsk + 5 / 100) * remaining else totalCost
  let estWap := totalCost / slipSize
  let slipDollar := max 0 (estWap - bestAsk)
  let pos := desk.portfolio.position
  let unrealizedPnL :=
    if pos > 0 then pos * (mid - desk.portfolio.avgEntryPrice)
    else if pos < 0 then |pos| * (desk.portfolio.avgEntryPrice - mid)
    else 0
  { mid
    spread
    spreadBps := if quoted then if mid > 0 then spread / mid * 10000 else 0 else 0
    microPrice
    microBias :=
      if weighted then
        if microDiff > 5 / 1000 then .bullish microDiff
        else if microDiff < -(5 / 1000) then .bearish microDiff
        else .balancedFair
      else
        .neutral
    totalBidVol
    totalAskVol
    ofiScore
    ofiPressure
    ofiBadgeClass
    ofiDesc
    vwapDiffPct := if desk.vwap > 0 then (mid - desk.vwap) / desk.vwap * 100 else 0
    estWap
    slipDollar
    slipBps := if bestAsk > 0 then slipDollar / bestAsk * 10000 else 0
    totalCost
    unrealizedPnL
    pnlPct := if desk.portfolio.initialCash > 0 then unrealizedPnL / desk.portfolio.initialCash * 100 else 0
    totalEquity := desk.portfolio.cash + if pos > 0 then pos * mid else 0 }

/-! ### The loop and the score -/

/-- The asks as a ladder of dollar prices. -/
def ladder (asks : List Level) : List (ℚ × ℚ) := asks.map fun a => (a.price / 100, a.qty)

/-- The loop is a sweep. -/
theorem sweepAsks_eq (asks : List Level) (totalCost remaining : ℚ) :
    sweepAsks asks (totalCost, remaining) =
      (totalCost + (sweep (ladder asks) remaining).1, (sweep (ladder asks) remaining).2) := by
  induction asks generalizing totalCost remaining with
  | nil => simp [sweepAsks, ladder, sweep]
  | cons a asks ih =>
    unfold sweepAsks ladder
    rw [List.map_cons, sweep]
    by_cases hr : remaining ≤ 0
    · simp [hr]
    · rw [if_neg hr, if_neg hr, ih, add_assoc]
      rfl

theorem abs_orderFlowImbalance_le {totalBidVol totalAskVol : ℚ} (hbid : 0 ≤ totalBidVol) (hask : 0 ≤ totalAskVol) :
    |(orderFlowImbalance totalBidVol totalAskVol).1| ≤ 100 := by
  unfold orderFlowImbalance
  dsimp only
  split
  · next hpos =>
    have hscore : |(totalBidVol - totalAskVol) / (totalBidVol + totalAskVol) * 100| ≤ 100 := by
      rw [abs_le, ← le_div_iff₀ (by norm_num), ← div_le_iff₀ (by norm_num), le_div_iff₀ hpos, div_le_iff₀ hpos]
      constructor <;> linarith
    split_ifs <;> exact hscore
  · simp

/-! ### A side of a snapshot -/

section Side

variable {Depth : Nat} {ascending : Bool} {levels : Vector PriceLevel Depth}

/-- The levels that are shown, as the dashboard reads them. -/
def visibleLevels (levels : Vector PriceLevel Depth) : List Level := (visible levels).map Level.ofPriceLevel

theorem map_toList (h : Shaped ascending levels) :
    levels.toList.map Level.ofPriceLevel =
      visibleLevels levels ++ List.replicate (Depth - (visible levels).length) ⟨0, 0, 0, false⟩ := by
  have hzeros : (zeros (Depth - (visible levels).length)).map Level.ofPriceLevel =
      List.replicate (Depth - (visible levels).length) ⟨0, 0, 0, false⟩ := by
    rw [zeros, List.map_replicate]
    rfl
  rw [h.layout, List.map_append, hzeros]
  rfl

theorem top_map (h : Shaped ascending levels) :
    top (levels.toList.map Level.ofPriceLevel) = Level.ofPriceLevel levels[0]! := by
  rw [map_toList h, h.first, visibleLevels]
  cases visible levels with
  | nil => cases Depth <;> rfl
  | cons l L => rfl

theorem sum_map (h : Shaped ascending levels) :
    ((levels.toList.map Level.ofPriceLevel).map (·.qty)).sum = ((visibleLevels levels).map (·.qty)).sum := by
  rw [map_toList h, List.map_append, List.map_replicate, List.sum_append, List.sum_replicate, smul_zero, add_zero]

theorem sweep_map (h : Shaped ascending levels) (r : ℚ) :
    sweep (ladder (levels.toList.map Level.ofPriceLevel)) r = sweep (ladder (visibleLevels levels)) r := by
  rw [map_toList h, ladder, List.map_append]
  refine sweep_append_zeros (fun level hlevel => ?_) r
  rw [List.map_replicate] at hlevel
  rw [List.eq_of_mem_replicate hlevel]

theorem qty_visible_pos (h : Shaped ascending levels) : ∀ l ∈ visibleLevels levels, 0 < l.qty := by
  intro l hl
  obtain ⟨p, hp, rfl⟩ := List.mem_map.1 hl
  have hpos := (Int32.pos_iff_toInt _).1 (h.quantity_pos p hp)
  show (0 : ℚ) < (p.quantity.toInt : ℚ)
  exact_mod_cast hpos

theorem sum_qty_visible_nonneg (h : Shaped ascending levels) : 0 ≤ ((visibleLevels levels).map (·.qty)).sum :=
  List.sum_nonneg fun q hq => by
    obtain ⟨l, hl, rfl⟩ := List.mem_map.1 hq
    exact (qty_visible_pos h l hl).le

theorem ladder_visible_sorted {asks : Vector PriceLevel Depth} (h : Shaped true asks) :
    (ladder (visibleLevels asks)).Pairwise fun x y => x.1 ≤ y.1 := by
  rw [ladder, visibleLevels, List.map_map, List.pairwise_map]
  refine h.sorted.imp fun {a b} hlt => ?_
  have hle : a.price.toInt ≤ b.price.toInt := le_of_lt hlt
  show (a.price.toInt : ℚ) / 100 ≤ (b.price.toInt : ℚ) / 100
  have hcast : (a.price.toInt : ℚ) ≤ b.price.toInt := by exact_mod_cast hle
  linarith

theorem ladder_nonneg (h : Shaped ascending levels) : ∀ level ∈ ladder (visibleLevels levels), 0 ≤ level.2 := by
  intro level hlevel
  obtain ⟨l, hl, rfl⟩ := List.mem_map.1 hlevel
  exact (qty_visible_pos h l hl).le

/-- No visible ask is below the best ask. -/
theorem best_le_ladder {asks : Vector PriceLevel Depth} (h : Shaped true asks) :
    ∀ level ∈ ladder (visibleLevels asks),
      ((if asks[0]!.active then asks[0]!.price else 0).toInt : ℚ) / 100 ≤ level.1 := by
  have hsorted := ladder_visible_sorted h
  rw [h.first_price]
  cases hv : visible asks with
  | nil =>
    rw [visibleLevels, hv]
    exact fun level hlevel => by cases hlevel
  | cons l L =>
    rw [visibleLevels, hv] at hsorted ⊢
    intro level hlevel
    rcases List.mem_cons.1 hlevel with rfl | hrest
    · exact le_refl _
    · exact (List.pairwise_cons.1 hsorted).1 level hrest

end Side

/-! ### The snapshot of a book -/

section Book

variable {Depth : Nat} {TableCapacity : Pow2}

/-- The figures `m` for an amount `slipSize` say of a book what the engine says, in dollars. -/
structure MetricsAgree (book : LimitOrderBook Depth TableCapacity) (currentMid slipSize : ℚ) (m : QuantMetrics) :
    Prop where
  quoted : 0 < book.bestBidPrice.toInt → 0 < book.bestAskPrice.toInt →
    m.mid = book.midPrice / 100 ∧ m.spread = book.spread.toInt / 100 ∧ m.microPrice = book.microPrice / 100
  unquoted : ¬(0 < book.bestBidPrice.toInt ∧ 0 < book.bestAskPrice.toInt) →
    m.mid = currentMid ∧ m.spread = 0 ∧ m.microPrice = currentMid
  volumes : m.totalBidVol = ((visibleLevels book.bids).map (·.qty)).sum ∧
    m.totalAskVol = ((visibleLevels book.asks).map (·.qty)).sum
  imbalance : |m.ofiScore| ≤ 100
  /-- the estimate is never below the best ask -/
  slippage : m.slipDollar = m.estWap - book.bestAskPrice.toInt / 100
  /-- an amount that the visible asks can fill is estimated at the least that it can cost -/
  least : slipSize ≤ m.totalAskVol →
    IsLeast {c | ∃ fills, Fills (ladder (visibleLevels book.asks)) fills ∧ fills.sum = slipSize ∧
      c = costOf (ladder (visibleLevels book.asks)) fills} m.totalCost

variable {book : LimitOrderBook Depth TableCapacity} {desk : QuantDeskVisualizer} {currentMid slipSize : ℚ}

theorem top_bids_onmessage (h : Shaped false book.bids) :
    top (desk.onmessage (snapshot book)).bids = Level.ofPriceLevel book.bids[0]! := top_map h

theorem top_asks_onmessage (h : Shaped true book.asks) :
    top (desk.onmessage (snapshot book)).asks = Level.ofPriceLevel book.asks[0]! := top_map h

theorem active_of_best {levels : Vector PriceLevel Depth}
    (h : 0 < (if levels[0]!.active then levels[0]!.price else 0).toInt) :
    levels[0]!.active = true ∧ 0 < levels[0]!.price.toInt := by
  split at h
  · next hactive => exact ⟨hactive, h⟩
  · cases h

/-- The price of the first entry is the best price, also when there is none. -/
theorem price_top {ascending : Bool} {levels : Vector PriceLevel Depth} (h : Shaped ascending levels) :
    (Level.ofPriceLevel levels[0]!).price = ((if levels[0]!.active then levels[0]!.price else 0).toInt : ℚ) := by
  rw [h.first_price, h.first]
  rfl

theorem spread_eq (hbids : 0 < book.bestBidPrice.toInt) (hasks : 0 < book.bestAskPrice.toInt) :
    book.spread.toInt = book.bestAskPrice.toInt - book.bestBidPrice.toInt := by
  obtain ⟨hbid, hbidPos⟩ := active_of_best hbids
  obtain ⟨hask, haskPos⟩ := active_of_best hasks
  have hbidMax := book.bids[0]!.price.toInt_lt
  have haskMax := book.asks[0]!.price.toInt_lt
  unfold spread hasBids hasAsks bestBidPrice bestAskPrice
  rw [if_pos hbid, if_pos hask, hbid, hask]
  exact Int32.toInt_sub_of_range (by omega) (by omega)

theorem midPrice_eq (hbids : book.hasBids = true) (hasks : book.hasAsks = true) :
    book.midPrice = ((book.bids[0]!.price.toInt : ℚ) + book.asks[0]!.price.toInt) / 2 := by
  unfold midPrice
  rw [hbids, hasks, Bool.and_self, if_pos rfl]
  ring

theorem microPrice_eq (hbid : Shaped false book.bids) (hask : Shaped true book.asks) (hbids : book.hasBids = true)
    (hasks : book.hasAsks = true) :
    book.microPrice = (book.bids[0]!.price.toInt * book.asks[0]!.quantity.toInt +
      book.asks[0]!.price.toInt * book.bids[0]!.quantity.toInt) / book.totalVol := by
  have hguard : (!book.hasBids || !book.hasAsks) = false := by rw [hbids, hasks]; rfl
  unfold microPrice
  rw [hguard, if_neg Bool.false_ne_true, if_neg (totalVol_pos hbid hask hbids hasks).not_ge]

variable (desk currentMid slipSize) in
/-- The figures that come from the best prices. -/
theorem quotes_agree (hbid : Shaped false book.bids) (hask : Shaped true book.asks) :
    let m := (desk.onmessage (snapshot book)).calculateQuantMetrics currentMid slipSize
    (0 < book.bestBidPrice.toInt → 0 < book.bestAskPrice.toInt →
      m.mid = book.midPrice / 100 ∧ m.spread = book.spread.toInt / 100 ∧ m.microPrice = book.microPrice / 100) ∧
      (¬(0 < book.bestBidPrice.toInt ∧ 0 < book.bestAskPrice.toInt) →
        m.mid = currentMid ∧ m.spread = 0 ∧ m.microPrice = currentMid) := by
  intro m
  have hbidPrice : (top (desk.onmessage (snapshot book)).bids).price = book.bestBidPrice.toInt := by
    rw [top_bids_onmessage hbid]
    exact price_top hbid
  have haskPrice : (top (desk.onmessage (snapshot book)).asks).price = book.bestAskPrice.toInt := by
    rw [top_asks_onmessage hask]
    exact price_top hask
  have hbidQty : (top (desk.onmessage (snapshot book)).bids).qty = book.bids[0]!.quantity.toInt := by
    rw [top_bids_onmessage hbid]
    rfl
  have haskQty : (top (desk.onmessage (snapshot book)).asks).qty = book.asks[0]!.quantity.toInt := by
    rw [top_asks_onmessage hask]
    rfl
  have hcents : ∀ x : ℤ, (x : ℚ) / 100 > 0 ↔ 0 < x := fun x => by
    rw [gt_iff_lt, div_pos_iff_of_pos_right (by norm_num)]
    exact Int.cast_pos
  constructor
  · intro hb ha
    obtain ⟨hbids, -⟩ := active_of_best hb
    obtain ⟨hasks, -⟩ := active_of_best ha
    have hbb : book.bestBidPrice = book.bids[0]!.price := if_pos hbids
    have hba : book.bestAskPrice = book.asks[0]!.price := if_pos hasks
    have hvol := totalVol_pos hbid hask hbids hasks
    simp only [m, QuantDeskVisualizer.calculateQuantMetrics, hbidPrice, haskPrice, hbidQty, haskQty, hcents, hb, ha,
      and_self, if_true, and_true]
    refine ⟨?_, ?_, ?_⟩
    · rw [midPrice_eq hbids hasks, hbb, hba]
      ring
    · rw [spread_eq hb ha]
      push_cast
      ring
    · have hpos : (book.bids[0]!.quantity.toInt : ℚ) + book.asks[0]!.quantity.toInt > 0 := hvol
      rw [if_pos hpos, microPrice_eq hbid hask hbids hasks, hbb, hba]
      unfold totalVol
      ring
  · intro hnone
    simp only [m, QuantDeskVisualizer.calculateQuantMetrics, hbidPrice, haskPrice, hcents, hnone, and_false, if_false,
      and_self]

variable (desk currentMid) in
/-- The estimate for a market buy. -/
theorem slippage_agrees (hask : Shaped true book.asks) (hsize : 0 < slipSize) :
    let m := (desk.onmessage (snapshot book)).calculateQuantMetrics currentMid slipSize
    m.slipDollar = m.estWap - book.bestAskPrice.toInt / 100 ∧
      (slipSize ≤ ((visibleLevels book.asks).map (·.qty)).sum →
        IsLeast {c | ∃ fills, Fills (ladder (visibleLevels book.asks)) fills ∧ fills.sum = slipSize ∧
          c = costOf (ladder (visibleLevels book.asks)) fills} m.totalCost) := by
  intro m
  have haskPrice : (top (desk.onmessage (snapshot book)).asks).price = book.bestAskPrice.toInt := by
    rw [top_asks_onmessage hask]
    exact price_top hask
  have hsorted := ladder_visible_sorted hask
  have hnonneg := ladder_nonneg hask
  have hleft := left_eq hnonneg hsize.le
  have hsweep : sweepAsks (desk.onmessage (snapshot book)).asks (0, slipSize) =
      sweep (ladder (visibleLevels book.asks)) slipSize := by
    rw [sweepAsks_eq, zero_add, ← sweep_map hask]
    rfl
  have htotal : m.totalCost =
      if (sweep (ladder (visibleLevels book.asks)) slipSize).2 > 0 ∧ (book.bestAskPrice.toInt : ℚ) / 100 > 0 then
        cost (ladder (visibleLevels book.asks)) slipSize +
          ((book.bestAskPrice.toInt : ℚ) / 100 + 5 / 100) * (sweep (ladder (visibleLevels book.asks)) slipSize).2
      else cost (ladder (visibleLevels book.asks)) slipSize := by
    simp only [m, QuantDeskVisualizer.calculateQuantMetrics, hsweep, haskPrice, cost]
  constructor
  · have hfilled := mul_filled_le_cost (best_le_ladder hask) hnonneg hsize.le
    have hrest : 0 ≤ (sweep (ladder (visibleLevels book.asks)) slipSize).2 := by
      rw [hleft]
      exact le_max_left ..
    have hcost : (book.bestAskPrice.toInt : ℚ) / 100 * slipSize ≤ m.totalCost := by
      change (book.bestAskPrice.toInt : ℚ) / 100 * _ ≤ _ at hfilled
      rw [mul_sub] at hfilled
      rw [htotal]
      split
      · linarith
      · next hnone =>
        -- what is left over has no price, or there is nothing left over
        have hleftover :
            (book.bestAskPrice.toInt : ℚ) / 100 * (sweep (ladder (visibleLevels book.asks)) slipSize).2 ≤ 0 := by
          rcases not_and_or.1 hnone with hzero | hbest
          · rw [le_antisymm (not_lt.1 hzero) hrest, mul_zero]
          · exact mul_nonpos_of_nonpos_of_nonneg (not_lt.1 hbest) hrest
        linarith
    have hwap : (book.bestAskPrice.toInt : ℚ) / 100 ≤ m.estWap := (le_div_iff₀ hsize).2 hcost
    have hslip : m.slipDollar = max 0 (m.estWap - book.bestAskPrice.toInt / 100) := by
      simp only [m, QuantDeskVisualizer.calculateQuantMetrics, haskPrice]
    rw [hslip, max_eq_right (sub_nonneg.2 hwap)]
  · intro hall
    have hvolume : volume (ladder (visibleLevels book.asks)) = ((visibleLevels book.asks).map (·.qty)).sum := by
      rw [volume, ladder, List.map_map]
      rfl
    have hfilled : (sweep (ladder (visibleLevels book.asks)) slipSize).2 = 0 := by
      rw [hleft, max_eq_left]
      linarith
    rw [htotal, hfilled, if_neg (by simp)]
    exact isLeast_cost hsorted hnonneg hsize.le (by rw [hvolume]; exact hall)

/-- On the snapshot of any book that can be reached, the figures of the dashboard agree with the engine. -/
theorem metrics_agree (hDepth : 0 < Depth) (TableCapacity : Pow2) (msgs : List WireMessage)
    (desk : QuantDeskVisualizer) (currentMid : ℚ) {slipSize : ℚ} (hsize : 0 < slipSize) :
    let book := run Depth TableCapacity msgs
    MetricsAgree book currentMid slipSize
      ((desk.onmessage (snapshot book)).calculateQuantMetrics currentMid slipSize) := by
  intro book
  have hbid : Shaped false book.bids := run_shaped hDepth TableCapacity msgs .bid
  have hask : Shaped true book.asks := run_shaped hDepth TableCapacity msgs .ask
  have hquotes := quotes_agree desk currentMid slipSize hbid hask
  have hslippage := slippage_agrees desk currentMid hask hsize
  have hbidVol : ((desk.onmessage (snapshot book)).calculateQuantMetrics currentMid slipSize).totalBidVol =
      ((visibleLevels book.bids).map (·.qty)).sum := sum_map hbid
  have haskVol : ((desk.onmessage (snapshot book)).calculateQuantMetrics currentMid slipSize).totalAskVol =
      ((visibleLevels book.asks).map (·.qty)).sum := sum_map hask
  refine ⟨hquotes.1, hquotes.2, ⟨hbidVol, haskVol⟩, abs_orderFlowImbalance_le ?_ ?_, hslippage.1, fun hall => ?_⟩
  · exact (sum_qty_visible_nonneg hbid).trans_eq (sum_map hbid).symm
  · exact (sum_qty_visible_nonneg hask).trans_eq (sum_map hask).symm
  · rw [haskVol] at hall
    exact hslippage.2 hall

/-- A two-sided book, and an amount that its asks can fill. -/
theorem metrics_agree_two_sided :
    let book := run 2 ⟨4, by decide, by decide⟩
      [.ofAdd ⟨'A'.toUInt8, 1, 0, 1, 'B'.toUInt8, 9999, 30⟩, .ofAdd ⟨'A'.toUInt8, 2, 0, 2, 'S'.toUInt8, 10001, 10⟩,
        .ofAdd ⟨'A'.toUInt8, 3, 0, 3, 'S'.toUInt8, 10002, 10⟩]
    MetricsAgree book 0 15 ((({} : QuantDeskVisualizer).onmessage (snapshot book)).calculateQuantMetrics 0 15) :=
  metrics_agree (by decide) _ _ _ _ (by norm_num)

end Book

/-! ### The equity -/

theorem unrealizedPnL_eq (desk : QuantDeskVisualizer) (currentMid slipSize : ℚ) :
    (desk.calculateQuantMetrics currentMid slipSize).unrealizedPnL =
      desk.portfolio.position *
        ((desk.calculateQuantMetrics currentMid slipSize).mid - desk.portfolio.avgEntryPrice) := by
  simp only [QuantDeskVisualizer.calculateQuantMetrics]
  rcases lt_trichotomy desk.portfolio.position 0 with hneg | hzero | hpos
  · rw [if_neg hneg.not_gt, if_pos hneg, abs_of_neg hneg]
    ring
  · simp [hzero]
  · rw [if_pos hpos]

/-- After any orders from a fresh portfolio, with any book at each of them and in the end, the equity is the starting
cash with the realized and the unrealized profit, and, for a short position, the value of the shares that are owed
besides. -/
theorem totalEquity_eq {desk : QuantDeskVisualizer} (hstart : desk.portfolio = {})
    {calls : List (List Level × List Level × Order)} (hqty : ∀ call ∈ calls, call.2.2.QtyPositive)
    (bids asks : List Level) (currentMid slipSize : ℚ) :
    let last := { calls.foldl QuantDeskVisualizer.step desk with bids, asks }
    let m := last.calculateQuantMetrics currentMid slipSize
    m.totalEquity = last.portfolio.initialCash + last.portfolio.realizedPnL + m.unrealizedPnL +
      if last.portfolio.position < 0 then |last.portfolio.position| * m.mid else 0 := by
  intro last m
  have hbalanced : last.portfolio.Balanced :=
    QuantDeskVisualizer.balanced_run (hstart ▸ Portfolio.balanced_start) hqty
  have hbasis : last.portfolio.cash + last.portfolio.position * last.portfolio.avgEntryPrice -
      last.portfolio.realizedPnL = last.portfolio.initialCash := hbalanced.basis
  have hunrealized := unrealizedPnL_eq last currentMid slipSize
  have hequity : m.totalEquity =
      last.portfolio.cash + if last.portfolio.position > 0 then last.portfolio.position * m.mid else 0 := rfl
  rw [hequity, hunrealized]
  rcases lt_trichotomy last.portfolio.position 0 with hneg | hzero | hpos
  · rw [if_neg hneg.not_gt, if_pos hneg, abs_of_neg hneg]
    linarith
  · rw [hzero] at hbasis ⊢
    simp only [lt_irrefl, if_false]
    linarith
  · rw [if_pos hpos, if_neg hpos.not_gt]
    linarith

/-- A hundred shares are sold short. -/
theorem totalEquity_eq_short :
    let level (price : ℚ) : Level := ⟨price, 100, 1, true⟩
    let calls : List (List Level × List Level × Order) := [([level 10000], [level 10010], .sell 100)]
    let last : QuantDeskVisualizer :=
      { calls.foldl QuantDeskVisualizer.step {} with bids := [level 9900], asks := [level 9910] }
    let m := last.calculateQuantMetrics 0 100
    m.totalEquity = last.portfolio.initialCash + last.portfolio.realizedPnL + m.unrealizedPnL +
      if last.portfolio.position < 0 then |last.portfolio.position| * m.mid else 0 := by
  intro level calls last m
  have hqty : ∀ call ∈ calls, call.2.2.QtyPositive := by decide
  exact @totalEquity_eq {} rfl calls hqty [level 9900] [level 9910] 0 100

end Dashboard

end FeedHandler
