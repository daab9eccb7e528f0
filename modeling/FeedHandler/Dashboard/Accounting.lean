import FeedHandler.Dashboard.Basic
import FeedHandler.Foundation.AverageCost
import FeedHandler.Foundation.Runs
import Mathlib.Algebra.Order.Field.Rat
import Mathlib.Tactic.NormNum

/-!
# Paper trading accounts

The portfolio is an average cost account: a market order that is filled is a fill of the account (`account_buy`,
`account_sell`), through all the branches for adding to, reducing, closing and turning over a position.  So cash and
position at cost make up the starting cash and the realized profit after any orders, whatever the book does in between
(`cash_add_cost_eq`).
-/

namespace FeedHandler

namespace Dashboard

open AverageCost

/-! ### The portfolio as an account -/

namespace Portfolio

variable {p : Portfolio} {price qty : ℚ}

def account (p : Portfolio) : Account ℚ := ⟨p.cash, p.position, p.avgEntryPrice, p.realizedPnL⟩

/-- A buy fills the account. -/
theorem account_buy (hqty : 0 < qty) : (p.buy price qty).account = p.account.fill qty price := by
  rcases le_or_gt 0 p.position with hpos | hpos
  · -- adding to long
    rw [Account.fill_adding (Account.closing_long_buy hpos hqty.le)]
    simp [buy, account, Account.extend, hpos]
  · -- covering short
    have hclosing : Account.closing p.account.position qty = min qty (-p.position) :=
      Account.closing_short_buy hpos hqty.le
    have habs : |p.position| = -p.position := abs_of_neg hpos
    rcases lt_trichotomy (p.position + qty) 0 with hnew | hnew | hnew
    · have hpart : qty ≤ -p.position := by linarith
      rw [min_eq_left hpart] at hclosing
      rw [Account.fill_closing hclosing hnew.ne]
      simp [buy, account, Account.reduce, hpos.not_ge, habs, hpart, hnew.not_gt, hnew.ne]
    · have hall : qty = -p.position := by linarith
      rw [← hall, min_self] at hclosing
      rw [Account.fill_flat hclosing hnew]
      simp [buy, account, Account.reduce, hpos.not_ge, habs, ← hall, hnew]
    · have hover : -p.position ≤ qty := by linarith
      rw [min_eq_right hover] at hclosing
      rw [Account.fill_turning hclosing hnew.ne']
      simp [buy, account, hpos.not_ge, habs, hover, hnew]
      ring

/-- A sell fills the account with a negative number of units. -/
theorem account_sell (hqty : 0 < qty) : (p.sell price qty).account = p.account.fill (-qty) price := by
  have hneg : -qty ≤ 0 := neg_nonpos.2 hqty.le
  rcases le_or_gt p.position 0 with hpos | hpos
  · -- adding to short
    have hnew : p.position - qty < 0 := by linarith
    have havg : (|p.position| * p.avgEntryPrice + price * qty) / |p.position - qty| =
        (p.position * p.avgEntryPrice + price * -qty) / (p.position + -qty) := by
      rw [abs_of_nonpos hpos, abs_of_neg hnew, ← neg_div_neg_eq]
      congr 1 <;> ring
    rw [Account.fill_adding (Account.closing_short_sell hpos hneg)]
    simp only [sell, account, Account.extend, gt_iff_lt, if_neg hpos.not_gt, havg]
    exact Account.ext (by ring) (sub_eq_add_neg _ _) rfl rfl
  · -- selling from long
    have hclosing : Account.closing p.account.position (-qty) = max (-qty) (-p.position) :=
      Account.closing_long_sell hpos hneg
    have hposition : p.account.position + -qty = p.position - qty := (sub_eq_add_neg _ _).symm
    rcases lt_trichotomy (p.position - qty) 0 with hnew | hnew | hnew
    · have hover : p.position ≤ qty := by linarith
      rw [max_eq_right (neg_le_neg hover)] at hclosing
      rw [Account.fill_turning hclosing (hposition ▸ hnew.ne), hposition]
      simp only [sell, account, gt_iff_lt, if_pos hpos, if_pos hnew, if_pos hnew.le, min_eq_left hover]
      exact Account.ext (by ring) rfl rfl rfl
    · have hall : p.position = qty := by linarith
      rw [hall, max_self] at hclosing
      rw [Account.fill_flat hclosing (hposition.trans hnew)]
      simp only [sell, account, Account.reduce, gt_iff_lt, if_pos hpos, if_pos hnew.le, if_neg hnew.not_lt,
        min_eq_left hall.le]
      exact Account.ext (by ring) (sub_eq_add_neg _ _) rfl (by rw [hall]; ring)
    · have hpart : qty ≤ p.position := by linarith
      rw [max_eq_left (neg_le_neg hpart)] at hclosing
      rw [Account.fill_closing hclosing (hposition ▸ hnew.ne')]
      simp only [sell, account, Account.reduce, gt_iff_lt, if_pos hpos, if_neg hnew.not_ge, min_eq_right hpart]
      exact Account.ext (by ring) (sub_eq_add_neg _ _) rfl (by ring)

theorem initialCash_buy (p : Portfolio) (price qty : ℚ) : (p.buy price qty).initialCash = p.initialCash := by
  unfold buy
  dsimp only
  split_ifs <;> rfl

theorem initialCash_sell (p : Portfolio) (price qty : ℚ) : (p.sell price qty).initialCash = p.initialCash := by
  unfold sell
  dsimp only
  split_ifs <;> rfl

/-- Cash and position at cost are the starting cash and the profit realized, and a flat portfolio has no cost. -/
structure Balanced (p : Portfolio) : Prop where
  basis : p.account.basis = p.initialCash
  flat : p.position = 0 → p.avgEntryPrice = 0

/-- A portfolio whose account was filled stays balanced. -/
theorem Balanced.fill {p' : Portfolio} {d : ℚ} (h : p.Balanced) (haccount : p'.account = p.account.fill d price)
    (hcash : p'.initialCash = p.initialCash) : p'.Balanced := by
  constructor
  · rw [haccount, Account.basis_fill, h.basis, hcash]
  · intro hflat
    have hposition : p'.account.position = 0 := hflat
    have haverage : p'.account.average = 0 := by
      rw [haccount] at hposition ⊢
      exact Account.average_fill hposition
    exact haverage

theorem Balanced.buy (h : p.Balanced) (hqty : 0 < qty) : (p.buy price qty).Balanced :=
  h.fill (account_buy hqty) (initialCash_buy p price qty)

theorem Balanced.sell (h : p.Balanced) (hqty : 0 < qty) : (p.sell price qty).Balanced :=
  h.fill (account_sell hqty) (initialCash_sell p price qty)

theorem balanced_start : ({} : Portfolio).Balanced := ⟨by norm_num [account, Account.basis], fun _ => rfl⟩

end Portfolio

/-! ### Orders -/

@[simp] theorem rejected_singleton {toast : Toast} : Rejected [toast] ↔ toast.rejects = true := by
  simp [Rejected]

@[simp] theorem rejected_append {toasts toasts' : List Toast} :
    Rejected (toasts ++ toasts') ↔ Rejected toasts ∨ Rejected toasts' := by
  simp only [Rejected, List.mem_append, or_and_right, exists_or]

/-- An order with this outcome was turned away and left the desk as it was, or it filled the portfolio. -/
def Settles (desk : QuantDeskVisualizer) (r : QuantDeskVisualizer × List Toast) : Prop :=
  Rejected r.2 ∧ r.1 = desk ∨
    ¬ Rejected r.2 ∧ ∃ price qty, 0 < qty ∧
      (r.1.portfolio = desk.portfolio.buy price qty ∨ r.1.portfolio = desk.portfolio.sell price qty)

/-- A toast that comes after an order does not turn it away. -/
private theorem Settles.append {desk : QuantDeskVisualizer} {r : QuantDeskVisualizer × List Toast} {toast : Toast}
    (h : Settles desk r) (htoast : toast.rejects = false) : Settles desk (r.1, r.2 ++ [toast]) := by
  have hiff : Rejected (r.2 ++ [toast]) ↔ Rejected r.2 := by simp [htoast]
  unfold Settles at h ⊢
  rwa [hiff]

namespace QuantDeskVisualizer

variable {desk : QuantDeskVisualizer} {order : Order} {qty : ℚ}

theorem settles_executeBuyMarket (desk : QuantDeskVisualizer) (hqty : 0 < qty) :
    Settles desk (desk.executeBuyMarket qty) := by
  unfold executeBuyMarket
  split
  · exact Or.inl ⟨rejected_singleton.2 rfl, rfl⟩
  · next ask _ _ =>
    dsimp only
    split
    · exact Or.inl ⟨rejected_singleton.2 rfl, rfl⟩
    · exact Or.inr ⟨by simp [Toast.rejects], ask.price / 100, qty, hqty, Or.inl rfl⟩

theorem settles_executeSellMarket (desk : QuantDeskVisualizer) (hqty : 0 < qty) :
    Settles desk (desk.executeSellMarket qty) := by
  unfold executeSellMarket
  split
  · exact Or.inl ⟨rejected_singleton.2 rfl, rfl⟩
  · next bid _ _ => exact Or.inr ⟨by simp [Toast.rejects], bid.price / 100, qty, hqty, Or.inr rfl⟩

theorem settles_flattenPosition (desk : QuantDeskVisualizer) : Settles desk desk.flattenPosition := by
  unfold flattenPosition
  split
  · exact Or.inl ⟨rejected_singleton.2 rfl, rfl⟩
  · next hopen =>
    dsimp only
    split
    · next hpos => exact (settles_executeSellMarket desk hpos).append rfl
    · exact (settles_executeBuyMarket desk (abs_pos.2 hopen)).append rfl

theorem settles_perform (desk : QuantDeskVisualizer) (hqty : order.QtyPositive) :
    Settles desk (desk.perform order) := by
  cases order with
  | buy qty => exact settles_executeBuyMarket desk hqty
  | sell qty => exact settles_executeSellMarket desk hqty
  | flatten => exact settles_flattenPosition desk

/-- An order keeps the balance. -/
theorem balanced_perform (h : desk.portfolio.Balanced) (hqty : order.QtyPositive) :
    (desk.perform order).1.portfolio.Balanced := by
  rcases settles_perform desk hqty with ⟨-, hsame⟩ | ⟨-, price, qty, hpos, hbuy | hsell⟩
  · rwa [hsame]
  · rw [hbuy]
    exact h.buy hpos
  · rw [hsell]
    exact h.sell hpos

/-- The book may change in any way before each order. -/
theorem balanced_run (h : desk.portfolio.Balanced) {calls : List (List Level × List Level × Order)}
    (hqty : ∀ call ∈ calls, call.2.2.QtyPositive) : (calls.foldl step desk).portfolio.Balanced := by
  induction calls generalizing desk with
  | nil => exact h
  | cons call calls ih =>
    have hbook : { desk with bids := call.1, asks := call.2.1 }.portfolio.Balanced := h
    have hstep : (desk.step call).portfolio.Balanced := balanced_perform hbook (hqty call (by simp))
    exact ih hstep fun call' hmem => hqty call' (by simp [hmem])

/-- After any orders from a fresh portfolio, with any book at each of them, cash and position at cost make up the
starting cash and the realized profit, a flat portfolio has no entry price, and an order that is turned away leaves the
portfolio as it is. -/
theorem cash_add_cost_eq (hstart : desk.portfolio = {}) {calls : List (List Level × List Level × Order)}
    (hqty : ∀ call ∈ calls, call.2.2.QtyPositive) :
    let p := (calls.foldl step desk).portfolio
    p.cash + p.position * p.avgEntryPrice = p.initialCash + p.realizedPnL ∧
      (p.position = 0 → p.avgEntryPrice = 0) ∧
      ∀ bids asks order, order.QtyPositive →
        Rejected ({ calls.foldl step desk with bids, asks }.perform order).2 →
          ({ calls.foldl step desk with bids, asks }.perform order).1.portfolio = p := by
  intro p
  have hbalanced : p.Balanced := balanced_run (hstart ▸ Portfolio.balanced_start) hqty
  refine ⟨?_, hbalanced.flat, fun bids asks order hpos hrejected => ?_⟩
  · have hbasis : p.cash + p.position * p.avgEntryPrice - p.realizedPnL = p.initialCash := hbalanced.basis
    linarith
  · rcases settles_perform { calls.foldl step desk with bids, asks } hpos with ⟨-, hsame⟩ | ⟨hfilled, -⟩
    · rw [hsame]
    · exact absurd hrejected hfilled

/-- A long position turned over into a short one, which is then flattened. -/
theorem cash_add_cost_eq_turned_over :
    let level (price : ℚ) : Level := ⟨price, 100, 1, true⟩
    let calls : List (List Level × List Level × Order) :=
      [([level 9990], [level 10000], .buy 100), ([level 10100], [level 10110], .sell 150),
        ([level 9800], [], .flatten), ([level 9800], [level 9900], .flatten)]
    (∀ call ∈ calls, call.2.2.QtyPositive) ∧
      (let p := (calls.foldl step {}).portfolio
      p.cash + p.position * p.avgEntryPrice = p.initialCash + p.realizedPnL ∧
        (p.position = 0 → p.avgEntryPrice = 0) ∧
        ∀ bids asks order, order.QtyPositive →
          Rejected ({ calls.foldl step {} with bids, asks }.perform order).2 →
            ({ calls.foldl step {} with bids, asks }.perform order).1.portfolio = p) := by
  intro level calls
  have hqty : ∀ call ∈ calls, call.2.2.QtyPositive := by decide
  exact ⟨hqty, cash_add_cost_eq rfl hqty⟩

end QuantDeskVisualizer

end Dashboard

end FeedHandler
