import FeedHandler.OrderBook.Steps
import Mathlib.Analysis.Convex.Segment

/-!
# The micro-price (`order_book.hpp`)

`microPrice()` weighs each best price with the quantity on the other side, a `double` taken to be an exact rational.
An active best level has positive quantity in every book that can be reached, so the weights are positive, and the
micro-price lies between the best prices (`microPrice_mem_openSegment`), crossed or not.
-/

namespace FeedHandler

open SideArray

namespace LimitOrderBook

variable {Depth : Nat} {TableCapacity : Pow2}

def midPrice (book : LimitOrderBook Depth TableCapacity) : ℚ :=
  if book.hasBids && book.hasAsks then 1 / 2 * (book.bids[0]!.price.toInt + book.asks[0]!.price.toInt) else 0

/-- `totalVol` of `microPrice` -/
def totalVol (book : LimitOrderBook Depth TableCapacity) : ℚ :=
  let qBid : ℚ := book.bids[0]!.quantity.toInt
  let qAsk : ℚ := book.asks[0]!.quantity.toInt
  qBid + qAsk

def microPrice (book : LimitOrderBook Depth TableCapacity) : ℚ :=
  if !book.hasBids || !book.hasAsks then
    0
  else
    let qBid : ℚ := book.bids[0]!.quantity.toInt
    let qAsk : ℚ := book.asks[0]!.quantity.toInt
    if book.totalVol ≤ 0 then
      book.midPrice
    else
      (book.bids[0]!.price.toInt * qAsk + book.asks[0]!.price.toInt * qBid) / book.totalVol

variable {book : LimitOrderBook Depth TableCapacity}

/-! ### The weights -/

/-- The first level of a side that is not empty has positive quantity. -/
private theorem first_quantity_pos {ascending : Bool} {levels : Vector PriceLevel Depth} (h : Shaped ascending levels)
    (hactive : levels[0]!.active = true) : (0 : ℚ) < levels[0]!.quantity.toInt := by
  rw [h.first_active] at hactive
  rw [h.first]
  cases hv : visible levels with
  | nil => simp [hv] at hactive
  | cons l rest =>
    have hpos := h.quantity_pos l (by simp [hv])
    exact_mod_cast (Int32.pos_iff_toInt _).1 hpos

/-- A side of no levels is empty. -/
private theorem depth_pos_of_active {levels : Vector PriceLevel Depth} (hactive : levels[0]!.active = true) :
    0 < Depth := by
  by_contra hzero
  rw [getElem!_neg levels 0 hzero] at hactive
  exact Bool.noConfusion hactive

section Best

variable (hbid : Shaped false book.bids) (hask : Shaped true book.asks) (hbids : book.hasBids = true)
  (hasks : book.hasAsks = true)

include hbid hask hbids hasks

theorem totalVol_pos : 0 < book.totalVol :=
  add_pos (first_quantity_pos hbid hbids) (first_quantity_pos hask hasks)

/-- The micro-price is a mean of the best prices with positive weights. -/
theorem microPrice_mem_openSegment :
    book.microPrice ∈ openSegment ℚ (book.bestBidPrice.toInt : ℚ) book.bestAskPrice.toInt := by
  have hqBid := first_quantity_pos hbid hbids
  have hqAsk := first_quantity_pos hask hasks
  have htotal := totalVol_pos hbid hask hbids hasks
  have hbidPrice : book.bestBidPrice = book.bids[0]!.price := if_pos hbids
  have haskPrice : book.bestAskPrice = book.asks[0]!.price := if_pos hasks
  rw [mem_openSegment_iff_div, hbidPrice, haskPrice]
  refine ⟨_, _, hqAsk, hqBid, ?_⟩
  have hguard : (!book.hasBids || !book.hasAsks) = false := by rw [hbids, hasks]; rfl
  unfold microPrice
  rw [hguard, if_neg Bool.false_ne_true, if_neg htotal.not_ge]
  unfold totalVol
  simp only [smul_eq_mul]
  rw [add_comm (book.bids[0]!.quantity.toInt : ℚ)]
  ring

end Best

/-! ### Between the best prices -/

theorem between_of_mem_openSegment {x y z : ℚ} (hz : z ∈ openSegment ℚ x y) (hne : x ≠ y) :
    min x y < z ∧ z < max x y := by
  rcases hne.lt_or_gt with hlt | hlt
  · rw [min_eq_left hlt.le, max_eq_right hlt.le]
    exact openSegment_subset_Ioo hlt hz
  · rw [openSegment_symm] at hz
    rw [min_eq_right hlt.le, max_eq_left hlt.le]
    exact openSegment_subset_Ioo hlt hz

/-- After any messages, where both sides have a best price the total volume is positive, and the micro-price lies
strictly between the best prices, or is both of them. -/
theorem microPrice_between (TableCapacity : Pow2) (msgs : List WireMessage)
    (hbids : (run Depth TableCapacity msgs).hasBids = true) (hasks : (run Depth TableCapacity msgs).hasAsks = true) :
    let book := run Depth TableCapacity msgs
    let bid : ℚ := book.bestBidPrice.toInt
    let ask : ℚ := book.bestAskPrice.toInt
    0 < book.totalVol ∧ (bid ≠ ask → min bid ask < book.microPrice ∧ book.microPrice < max bid ask) ∧
      (bid = ask → book.microPrice = bid) := by
  intro book bid ask
  have hDepth : 0 < Depth := depth_pos_of_active hbids
  have hbid : Shaped false book.bids := run_shaped hDepth TableCapacity msgs .bid
  have hask : Shaped true book.asks := run_shaped hDepth TableCapacity msgs .ask
  have hmem : book.microPrice ∈ openSegment ℚ bid ask := microPrice_mem_openSegment hbid hask hbids hasks
  refine ⟨totalVol_pos hbid hask hbids hasks, between_of_mem_openSegment hmem, fun heq => ?_⟩
  rw [← heq, openSegment_same] at hmem
  exact hmem

/-- A crossed book: a bid of 101 for 30 against an ask of 100 for 10. -/
theorem microPrice_between_crossed :
    let book := run 2 ⟨4, by decide, by decide⟩
      [.ofAdd ⟨'A'.toUInt8, 1, 0, 1, 'B'.toUInt8, 101, 30⟩, .ofAdd ⟨'A'.toUInt8, 2, 0, 2, 'S'.toUInt8, 100, 10⟩]
    let bid : ℚ := book.bestBidPrice.toInt
    let ask : ℚ := book.bestAskPrice.toInt
    0 < book.totalVol ∧ (bid ≠ ask → min bid ask < book.microPrice ∧ book.microPrice < max bid ask) ∧
      (bid = ask → book.microPrice = bid) :=
  microPrice_between _ _ (by decide) (by decide)

end LimitOrderBook

end FeedHandler
