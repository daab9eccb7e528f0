import FeedHandler.OrderBook.Steps

/-!
# `applyDelta` as an update of a sorted map

A side is a map from prices to quantities and order counts, sorted from the best price on and cut off after `Depth`
entries.  `applyDelta` updates, deletes or inserts the entry of its price and nothing else, save that an insertion into
a full side drops the worst entry (`applyDelta_truncated`).  This needs less than `Shaped`: the levels behind the active
ones may hold anything that is not active.
-/

namespace FeedHandler

namespace SideArray

open SortedList

variable {Depth : Nat} {ascending : Bool} {levels : Vector PriceLevel Depth} {A B L rest : List PriceLevel}
  {l : PriceLevel} {price qtyDelta orderDelta : Int32}

/-- The active levels come first, from the best price on, and each holds volume. -/
structure RepInvariant (ascending : Bool) (levels : Vector PriceLevel Depth) : Prop where
  active_prefix : ∃ rest, levels.toList = visible levels ++ rest ∧ ∀ l ∈ rest, l.active = false
  sorted : BestFirst ascending (visible levels)
  quantity_pos : ∀ l ∈ visible levels, 0 < l.quantity
  orderCount_pos : ∀ l ∈ visible levels, 0 < l.orderCount

theorem Shaped.repInvariant (h : Shaped ascending levels) : RepInvariant ascending levels where
  active_prefix := ⟨_, h.layout, fun _ hl => inactive_of_mem_zeros hl⟩
  sorted := h.sorted
  quantity_pos := h.quantity_pos
  orderCount_pos := h.orderCount_pos

theorem Layout.repInvariant (h : Layout ascending levels L rest) : RepInvariant ascending levels := by
  have hv := h.visible_eq
  exact ⟨⟨rest, hv ▸ h.toList_eq, h.inactive⟩, hv ▸ h.sorted, hv ▸ h.quantity_pos, hv ▸ h.orderCount_pos⟩

theorem RepInvariant.exists_layout (h : RepInvariant ascending levels) :
    ∃ rest, Layout ascending levels (visible levels) rest := by
  obtain ⟨rest, hlay, hrest⟩ := h.active_prefix
  exact ⟨rest, hlay, fun _ hl => active_of_mem_visible hl, hrest, h.sorted, h.quantity_pos, h.orderCount_pos⟩

/-! ### The three ways through `applyDelta` -/

/-- No sum that `applyDelta` makes in place overflows. -/
def NoOverflow (levels : Vector PriceLevel Depth) (price qtyDelta orderDelta : Int32) : Prop :=
  ∀ l ∈ visible levels, l.price = price → Int32.InRange (l.quantity.toInt + qtyDelta.toInt) ∧
    Int32.InRange (l.orderCount.toInt + orderDelta.toInt)

instance : Decidable (NoOverflow levels price qtyDelta orderDelta) := inferInstanceAs (Decidable (∀ _ ∈ _, _ → _))

namespace RepInvariant

/-- At a visible price the entry is updated, or deleted where nothing is left of it. -/
theorem applyDelta_visible (h : RepInvariant ascending levels) (hv : visible levels = A ++ l :: B)
    (hp : l.price = price) (hrange : NoOverflow levels price qtyDelta orderDelta) :
    RepInvariant ascending (applyDelta levels price qtyDelta orderDelta ascending) ∧
      visible (applyDelta levels price qtyDelta orderDelta ascending) =
        if l.quantity.toInt + qtyDelta.toInt ≤ 0 ∨ l.orderCount.toInt + orderDelta.toInt ≤ 0 then A ++ B
        else A ++ l.bump qtyDelta orderDelta :: B := by
  obtain ⟨rest, hlay⟩ := h.exists_layout
  obtain ⟨hrangeq, hrangeo⟩ := hrange l (by simp [hv]) hp
  have hquantity := Int32.toInt_add_of_range hrangeq.1 hrangeq.2
  have horders := Int32.toInt_add_of_range hrangeo.1 hrangeo.2
  have hiff : l.quantity + qtyDelta ≤ 0 ∨ l.orderCount + orderDelta ≤ 0 ↔
      l.quantity.toInt + qtyDelta.toInt ≤ 0 ∨ l.orderCount.toInt + orderDelta.toInt ≤ 0 := by
    rw [Int32.nonpos_iff_toInt, Int32.nonpos_iff_toInt, hquantity, horders]
  rw [hv] at hlay
  by_cases hgone : l.quantity + qtyDelta ≤ 0 ∨ l.orderCount + orderDelta ≤ 0
  · have hafter := hlay.applyDelta_delete hp hgone
    rw [if_pos (hiff.1 hgone)]
    exact ⟨hafter.repInvariant, hafter.visible_eq⟩
  · rw [if_neg fun h => hgone (hiff.2 h)]
    rw [not_or, Int32.not_le, Int32.not_le] at hgone
    have hafter := hlay.applyDelta_update hp hgone.1 hgone.2
    exact ⟨hafter.repInvariant, hafter.visible_eq⟩

/-- At a new price the entry is inserted, and what is behind the first `Depth` entries is cut off. -/
theorem applyDelta_hidden (h : RepInvariant ascending levels) (hDepth : 0 < Depth)
    (hne : ∀ l ∈ visible levels, l.price ≠ price) (hpos : 0 < qtyDelta) (orderDelta : Int32) :
    RepInvariant ascending (applyDelta levels price qtyDelta orderDelta ascending) ∧
      visible (applyDelta levels price qtyDelta orderDelta ascending) =
        (insertLevel ascending (newLevel price qtyDelta orderDelta) (visible levels)).take Depth := by
  obtain ⟨rest, hlay⟩ := h.exists_layout
  have hlen := hlay.length_eq
  cases rest with
  | cons e rest =>
    -- there is room
    have hafter := hlay.applyDelta_room hne hpos orderDelta
    have hall : (insertLevel ascending (newLevel price qtyDelta orderDelta) (visible levels)).length ≤ Depth := by
      rw [length_insertBy]
      simp at hlen
      omega
    rw [List.take_of_length_le hall]
    exact ⟨hafter.repInvariant, hafter.visible_eq⟩
  | nil =>
    rcases List.eq_nil_or_concat (visible levels) with hnil | ⟨L, w, hv⟩
    · rw [hnil] at hlen
      exact absurd hlen hDepth.ne
    · rw [List.concat_eq_append] at hv
      rw [hv] at hlay hne hlen ⊢
      simp at hlen
      by_cases himproves : rank ascending price < rank ascending w.price
      · -- the worst entry is cut off
        have hafter := hlay.applyDelta_full hne hpos himproves orderDelta
        have hcut : (insertLevel ascending (newLevel price qtyDelta orderDelta) (L ++ [w])).take Depth =
            insertLevel ascending (newLevel price qtyDelta orderDelta) L :=
          take_insertBy_append_singleton himproves hlen
        rw [hcut]
        exact ⟨hafter.repInvariant, hafter.visible_eq⟩
      · -- the new entry is cut off
        have hworse : rank ascending w.price < rank ascending price :=
          lt_of_le_of_ne (not_lt.1 himproves) fun heq => hne w (by simp) (rank_inj.1 heq)
        have hcut : (insertLevel ascending (newLevel price qtyDelta orderDelta) (L ++ [w])).take Depth = L ++ [w] :=
          take_insertBy_of_lt (hlay.sorted.lt_of_last_lt hworse) (by simp [hlen])
        rw [hlay.applyDelta_rejected hne hpos himproves orderDelta, hcut]
        exact ⟨h, hv⟩

/-- The other entries stay, save the worst one of a full side. -/
theorem applyDelta_frame (h : RepInvariant ascending levels) (hDepth : 0 < Depth)
    (hrange : NoOverflow levels price qtyDelta orderDelta) (hother : l.price ≠ price) :
    (l ∈ visible (applyDelta levels price qtyDelta orderDelta ascending) ↔ l ∈ visible levels) ∨
      (visible levels).length = Depth ∧ (visible levels).getLast? = some l ∧
        l ∉ visible (applyDelta levels price qtyDelta orderDelta ascending) := by
  by_cases hp : ∃ x ∈ visible levels, x.price = price
  · obtain ⟨x, hx, hxp⟩ := hp
    obtain ⟨A, B, hv⟩ := List.append_of_mem hx
    have hne : l ≠ x := by
      rintro rfl
      exact hother hxp
    have hbump : l ≠ x.bump qtyDelta orderDelta := by
      rintro rfl
      exact hother hxp
    rw [(h.applyDelta_visible hv hxp hrange).2, hv]
    left
    split <;> simp [hne, hbump]
  · have hne : ∀ x ∈ visible levels, x.price ≠ price := fun x hx hxp => hp ⟨x, hx, hxp⟩
    by_cases hq : qtyDelta ≤ 0
    · rw [applyDelta_nonpos hne hq]
      exact Or.inl Iff.rfl
    · rw [(h.applyDelta_hidden hDepth hne (Int32.not_le.1 hq) orderDelta).2]
      have hnew : l ≠ newLevel price qtyDelta orderDelta := by
        rintro rfl
        exact hother rfl
      exact h.sorted.mem_take_insertBy (fun a ha heq => hne a ha (rank_inj.1 heq)) (length_visible_le levels) hnew

/-- The invariant is kept. -/
theorem after_applyDelta (h : RepInvariant ascending levels) (hDepth : 0 < Depth)
    (hrange : NoOverflow levels price qtyDelta orderDelta) :
    RepInvariant ascending (applyDelta levels price qtyDelta orderDelta ascending) := by
  by_cases hp : ∃ x ∈ visible levels, x.price = price
  · obtain ⟨x, hx, hxp⟩ := hp
    obtain ⟨A, B, hv⟩ := List.append_of_mem hx
    exact (h.applyDelta_visible hv hxp hrange).1
  · have hne : ∀ x ∈ visible levels, x.price ≠ price := fun x hx hxp => hp ⟨x, hx, hxp⟩
    by_cases hq : qtyDelta ≤ 0
    · rwa [applyDelta_nonpos hne hq]
    · exact (h.applyDelta_hidden hDepth hne (Int32.not_le.1 hq) orderDelta).1

/-- `applyDelta` is an update of a sorted map that is cut off after `Depth` entries. -/
theorem applyDelta_truncated (hDepth : 0 < Depth) (h : RepInvariant ascending levels)
    (hrange : NoOverflow levels price qtyDelta orderDelta) :
    let after := applyDelta levels price qtyDelta orderDelta ascending
    (∀ A l B, visible levels = A ++ l :: B → l.price = price →
      visible after =
          (if l.quantity.toInt + qtyDelta.toInt ≤ 0 ∨ l.orderCount.toInt + orderDelta.toInt ≤ 0 then A ++ B
          else A ++ l.bump qtyDelta orderDelta :: B) ∧
        (l.bump qtyDelta orderDelta).quantity.toInt = l.quantity.toInt + qtyDelta.toInt ∧
        (l.bump qtyDelta orderDelta).orderCount.toInt = l.orderCount.toInt + orderDelta.toInt) ∧
      ((∀ l ∈ visible levels, l.price ≠ price) →
        (qtyDelta ≤ 0 → after = levels) ∧
          (0 < qtyDelta → visible after =
            (insertLevel ascending (newLevel price qtyDelta orderDelta) (visible levels)).take Depth)) ∧
      (∀ l, l.price ≠ price → (l ∈ visible after ↔ l ∈ visible levels) ∨
        (visible levels).length = Depth ∧ (visible levels).getLast? = some l ∧ l ∉ visible after) ∧
      RepInvariant ascending after := by
  intro after
  refine ⟨fun A l B hv hp => ?_, fun hne => ⟨fun hq => applyDelta_nonpos hne hq orderDelta ascending, fun hpos => ?_⟩,
    fun l hother => h.applyDelta_frame hDepth hrange hother, ?_⟩
  · obtain ⟨hrangeq, hrangeo⟩ := hrange l (by simp [hv]) hp
    exact ⟨(h.applyDelta_visible hv hp hrange).2, Int32.toInt_add_of_range hrangeq.1 hrangeq.2,
      Int32.toInt_add_of_range hrangeo.1 hrangeo.2⟩
  · exact (h.applyDelta_hidden hDepth hne hpos orderDelta).2
  · exact h.after_applyDelta hDepth hrange

/-- An update in front of a level that is not active and not zero. -/
theorem applyDelta_truncated_stale :
    let levels : Vector PriceLevel 2 := #v[⟨100, 5, 1, true⟩, ⟨99, 7, 7, false⟩]
    let after := applyDelta levels 100 3 1 false
    (∀ A l B, visible levels = A ++ l :: B → l.price = 100 →
      visible after =
          (if l.quantity.toInt + 3 ≤ 0 ∨ l.orderCount.toInt + 1 ≤ 0 then A ++ B else A ++ l.bump 3 1 :: B) ∧
        (l.bump 3 1).quantity.toInt = l.quantity.toInt + 3 ∧
        (l.bump 3 1).orderCount.toInt = l.orderCount.toInt + 1) ∧
      ((∀ l ∈ visible levels, l.price ≠ 100) →
        ((3 : Int32) ≤ 0 → after = levels) ∧
          (0 < (3 : Int32) → visible after = (insertLevel false (newLevel 100 3 1) (visible levels)).take 2)) ∧
      (∀ l, l.price ≠ 100 → (l ∈ visible after ↔ l ∈ visible levels) ∨
        (visible levels).length = 2 ∧ (visible levels).getLast? = some l ∧ l ∉ visible after) ∧
      RepInvariant false after := by
  intro levels
  have hlayout : Layout false levels [⟨100, 5, 1, true⟩] [⟨99, 7, 7, false⟩] :=
    ⟨rfl, by decide, by decide, List.pairwise_singleton _ _, by decide, by decide⟩
  have hrange : NoOverflow levels 100 3 1 := by decide
  exact applyDelta_truncated (by decide) hlayout.repInvariant hrange

end RepInvariant

end SideArray

namespace LimitOrderBook

open SideArray

/-- The sides of every reachable book satisfy the invariant. -/
theorem run_repInvariant {Depth : Nat} (hDepth : 0 < Depth) (TableCapacity : Pow2) (msgs : List WireMessage)
    (s : Side) : RepInvariant s.ascending ((run Depth TableCapacity msgs).levels s) :=
  (run_shaped hDepth TableCapacity msgs s).repInvariant

end LimitOrderBook

end FeedHandler
