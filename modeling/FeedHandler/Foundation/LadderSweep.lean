import Mathlib.Algebra.BigOperators.Group.List.Basic
import Mathlib.Algebra.Order.BigOperators.Group.List
import Mathlib.Algebra.Order.Field.Basic
import Mathlib.Order.Bounds.Basic
import Mathlib.Tactic.Linarith
import Mathlib.Tactic.Ring

/-!
# Sweeping a ladder

A ladder is a list of prices with the quantity that is offered at each.  A sweep takes an amount from the first price
on until it is full.  On a ladder in rising order that is the cheapest way to get the amount (`isLeast_cost`).
-/

namespace LadderSweep

variable {K : Type*} [Field K] [LinearOrder K]

/-- What the amount `r` costs, and what of it is not filled. -/
def sweep : List (K × K) → K → K × K
  | [], r => (0, r)
  | (price, qty) :: ladder, r =>
    if r ≤ 0 then
      (0, r)
    else
      let rest := sweep ladder (r - min qty r)
      (price * min qty r + rest.1, rest.2)

def cost (ladder : List (K × K)) (r : K) : K := (sweep ladder r).1

/-- All that is offered. -/
def volume (ladder : List (K × K)) : K := (ladder.map (·.2)).sum

/-- An amount of each price, at most what is offered there. -/
def Fills (ladder : List (K × K)) (fills : List K) : Prop :=
  List.Forall₂ (fun level fill => 0 ≤ fill ∧ fill ≤ level.2) ladder fills

/-- What these amounts cost. -/
def costOf (ladder : List (K × K)) (fills : List K) : K :=
  (List.zipWith (fun level fill => level.1 * fill) ladder fills).sum

variable {ladder : List (K × K)} {price qty r r' : K}

theorem sweep_of_nonpos (ladder : List (K × K)) (h : r ≤ 0) : sweep ladder r = (0, r) := by
  cases ladder with
  | nil => rfl
  | cons level ladder => exact if_pos h

theorem sweep_of_pos (ladder : List (K × K)) (h : 0 < r) :
    sweep ((price, qty) :: ladder) r =
      (price * min qty r + (sweep ladder (r - min qty r)).1, (sweep ladder (r - min qty r)).2) :=
  if_neg h.not_ge

/-- A price at which nothing is offered makes no difference. -/
theorem sweep_cons_zero (ladder : List (K × K)) (price r : K) : sweep ((price, 0) :: ladder) r = sweep ladder r := by
  rcases le_or_gt r 0 with hr | hr
  · rw [sweep_of_nonpos _ hr, sweep_of_nonpos _ hr]
  · rw [sweep_of_pos ladder hr, min_eq_left hr.le, mul_zero, zero_add, sub_zero]

theorem sweep_append_zeros {zeros : List (K × K)} (h : ∀ level ∈ zeros, level.2 = 0) (r : K) :
    sweep (ladder ++ zeros) r = sweep ladder r := by
  induction ladder generalizing r with
  | nil =>
    induction zeros with
    | nil => rfl
    | cons level zeros ih =>
      obtain ⟨price, qty⟩ := level
      obtain rfl : qty = 0 := h _ (List.mem_cons_self ..)
      rw [List.nil_append, sweep_cons_zero]
      exact ih fun level hlevel => h level (List.mem_cons_of_mem _ hlevel)
  | cons level ladder ih =>
    rw [List.cons_append, sweep, sweep, ih]

omit [LinearOrder K] in
theorem volume_cons (price qty : K) (ladder : List (K × K)) :
    volume ((price, qty) :: ladder) = qty + volume ladder := by
  simp [volume]

theorem cost_cons (hqty : 0 ≤ qty) (hr : 0 ≤ r) :
    cost ((price, qty) :: ladder) r = price * min qty r + cost ladder (r - min qty r) := by
  rcases hr.eq_or_lt with rfl | hr
  · rw [min_eq_right hqty, cost, cost, sweep_of_nonpos _ le_rfl, sub_zero, sweep_of_nonpos _ le_rfl]
    simp
  · rw [cost, sweep_of_pos ladder hr]
    rfl

variable [IsStrictOrderedRing K]

theorem volume_nonneg (h : ∀ level ∈ ladder, 0 ≤ level.2) : 0 ≤ volume ladder := by
  refine List.sum_nonneg fun q hq => ?_
  obtain ⟨level, hlevel, rfl⟩ := List.mem_map.1 hq
  exact h level hlevel

/-- What is not filled. -/
theorem left_eq (h : ∀ level ∈ ladder, 0 ≤ level.2) (hr : 0 ≤ r) : (sweep ladder r).2 = max 0 (r - volume ladder) := by
  induction ladder generalizing r with
  | nil => simp [sweep, volume, hr]
  | cons level ladder ih =>
    obtain ⟨price, qty⟩ := level
    rw [List.forall_mem_cons] at h
    have hvolume := volume_nonneg h.2
    have hqty : 0 ≤ qty := h.1
    rcases hr.eq_or_lt with rfl | hpos
    · rw [sweep_of_nonpos _ le_rfl, volume_cons, max_eq_left (by linarith)]
    · rw [sweep_of_pos ladder hpos, volume_cons]
      dsimp only
      rw [ih h.2 (sub_nonneg.2 (min_le_right _ _))]
      rcases le_total qty r with hle | hle
      · rw [min_eq_left hle, sub_sub]
      · rw [min_eq_right hle, max_eq_left (by linarith), max_eq_left (by linarith)]

/-- The part of the amount that a price does not fill. -/
theorem sub_min_mono (hle : r ≤ r') : r - min qty r ≤ r' - min qty r' := by
  rcases le_total qty r with h | h
  · rw [min_eq_left h, min_eq_left (h.trans hle)]
    linarith
  · rw [min_eq_right h]
    have := min_le_right qty r'
    linarith

theorem sub_min_le {v : K} (hv : 0 ≤ v) (h : r ≤ qty + v) : r - min qty r ≤ v := by
  rcases le_total qty r with hq | hq
  · rw [min_eq_left hq]
    linarith
  · rw [min_eq_right hq]
    linarith

/-- Where every price is at least `low`, so is the price of what is taken besides. -/
theorem mul_sub_le_cost_sub {low : K} (hlow : ∀ level ∈ ladder, low ≤ level.1) (h : ∀ level ∈ ladder, 0 ≤ level.2)
    (hr : 0 ≤ r) (hle : r ≤ r') (hall : r' ≤ volume ladder) : low * (r' - r) ≤ cost ladder r' - cost ladder r := by
  induction ladder generalizing r r' with
  | nil =>
    have hvolume : volume ([] : List (K × K)) = 0 := rfl
    obtain rfl : r' = r := by linarith
    simp
  | cons level ladder ih =>
    obtain ⟨price, qty⟩ := level
    rw [List.forall_mem_cons] at hlow h
    rw [volume_cons] at hall
    have hvolume := volume_nonneg h.2
    have hqty : 0 ≤ qty := h.1
    have hprice : low ≤ price := hlow.1
    have hmono : r - min qty r ≤ r' - min qty r' := sub_min_mono hle
    have hfirst : min qty r ≤ min qty r' := min_le_min_left qty hle
    have hstep := ih hlow.2 h.2 (sub_nonneg.2 (min_le_right qty r)) hmono (sub_min_le hvolume hall)
    have hlevel : low * (min qty r' - min qty r) ≤ price * (min qty r' - min qty r) :=
      mul_le_mul_of_nonneg_right hprice (sub_nonneg.2 hfirst)
    rw [cost_cons hqty hr, cost_cons hqty (hr.trans hle)]
    linarith

/-- What is filled costs at least `low` a unit. -/
theorem mul_filled_le_cost {low : K} (hlow : ∀ level ∈ ladder, low ≤ level.1) (h : ∀ level ∈ ladder, 0 ≤ level.2)
    (hr : 0 ≤ r) : low * (r - (sweep ladder r).2) ≤ cost ladder r := by
  induction ladder generalizing r with
  | nil => simp [sweep, cost]
  | cons level ladder ih =>
    obtain ⟨price, qty⟩ := level
    rw [List.forall_mem_cons] at hlow h
    have hprice : low ≤ price := hlow.1
    have hqty : 0 ≤ qty := h.1
    rcases hr.eq_or_lt with rfl | hpos
    · simp [sweep, cost]
    · have hrest := ih hlow.2 h.2 (sub_nonneg.2 (min_le_right qty r))
      have hlevel : low * min qty r ≤ price * min qty r := mul_le_mul_of_nonneg_right hprice (le_min hqty hr)
      rw [cost_cons hqty hr, sweep_of_pos ladder hpos]
      dsimp only
      linarith

theorem Fills.sum_nonneg {fills : List K} (h : Fills ladder fills) : 0 ≤ fills.sum := by
  induction h with
  | nil => simp
  | cons hfill _ ih =>
    rw [List.sum_cons]
    exact add_nonneg hfill.1 ih

theorem Fills.sum_le {fills : List K} (h : Fills ladder fills) : fills.sum ≤ volume ladder := by
  induction h with
  | nil => simp [volume]
  | @cons level fill ladder fills hfill _ ih =>
    rw [List.sum_cons, volume_cons level.1 level.2]
    exact add_le_add hfill.2 ih

/-- No other way to get as much costs less. -/
theorem cost_le_costOf (hsorted : ladder.Pairwise fun x y => x.1 ≤ y.1) (h : ∀ level ∈ ladder, 0 ≤ level.2)
    {fills : List K} (hfills : Fills ladder fills) : cost ladder fills.sum ≤ costOf ladder fills := by
  induction hfills with
  | nil => simp [cost, sweep, costOf]
  | @cons level fill ladder fills hfill hrest ih =>
    obtain ⟨price, qty⟩ := level
    rw [List.pairwise_cons] at hsorted
    rw [List.forall_mem_cons] at h
    have hqty : 0 ≤ qty := h.1
    have hnonneg : 0 ≤ fills.sum := Fills.sum_nonneg hrest
    have hfirst : fill ≤ min qty (fill + fills.sum) := le_min hfill.2 (by linarith)
    have hrest' : 0 ≤ fill + fills.sum - min qty (fill + fills.sum) := sub_nonneg.2 (min_le_right _ _)
    -- the rest of the ladder is dearer, so what is taken there and not here costs more
    have hmore := mul_sub_le_cost_sub hsorted.1 h.2 hrest' (by linarith) (Fills.sum_le hrest)
    have hih := ih hsorted.2 h.2
    have hcost : costOf ((price, qty) :: ladder) (fill :: fills) = price * fill + costOf ladder fills := by
      simp [costOf]
    rw [List.sum_cons, hcost, cost_cons hqty (add_nonneg hfill.1 hnonneg)]
    linarith

/-- The sweep is such a way itself. -/
theorem exists_fills (h : ∀ level ∈ ladder, 0 ≤ level.2) (hr : 0 ≤ r) (hall : r ≤ volume ladder) :
    ∃ fills, Fills ladder fills ∧ fills.sum = r ∧ costOf ladder fills = cost ladder r := by
  induction ladder generalizing r with
  | nil =>
    have hvolume : volume ([] : List (K × K)) = 0 := rfl
    obtain rfl : r = 0 := by linarith
    exact ⟨[], .nil, rfl, rfl⟩
  | cons level ladder ih =>
    obtain ⟨price, qty⟩ := level
    rw [List.forall_mem_cons] at h
    rw [volume_cons] at hall
    have hvolume := volume_nonneg h.2
    have hqty : 0 ≤ qty := h.1
    obtain ⟨fills, hfills, hsum, hcost⟩ := ih h.2 (sub_nonneg.2 (min_le_right qty r)) (sub_min_le hvolume hall)
    refine ⟨min qty r :: fills, .cons ⟨le_min hqty hr, min_le_left _ _⟩ hfills, ?_, ?_⟩
    · rw [List.sum_cons, hsum]
      ring
    · rw [cost_cons hqty hr, ← hcost]
      simp [costOf]

/-- On a ladder in rising order the sweep costs the least that the amount can cost. -/
theorem isLeast_cost (hsorted : ladder.Pairwise fun x y => x.1 ≤ y.1) (h : ∀ level ∈ ladder, 0 ≤ level.2) (hr : 0 ≤ r)
    (hall : r ≤ volume ladder) :
    IsLeast {c | ∃ fills, Fills ladder fills ∧ fills.sum = r ∧ c = costOf ladder fills} (cost ladder r) := by
  constructor
  · obtain ⟨fills, hfills, hsum, hcost⟩ := exists_fills h hr hall
    exact ⟨fills, hfills, hsum, hcost.symm⟩
  · rintro c ⟨fills, hfills, rfl, rfl⟩
    exact cost_le_costOf hsorted h hfills

end LadderSweep
