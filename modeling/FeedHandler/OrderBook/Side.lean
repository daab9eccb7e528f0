import FeedHandler.Foundation.Int32
import FeedHandler.Foundation.SortedList
import FeedHandler.OrderBook.Basic
import Mathlib.Data.List.Induction

/-!
# The side arrays as lists of levels

The source keeps a side in an array; here it is read as a list.  A well-shaped array (`Shaped`) is the list of its
visible levels, strictly sorted from the best price on and each with positive quantity and order count, followed by
zero levels.  `applyDelta` keeps the shape (`Shaped.applyDelta_step`), and `DeltaStep` says what it does to the visible
levels, one constructor for each way through the source.
-/

namespace FeedHandler

/-- A level after an update in place. -/
def PriceLevel.bump (l : PriceLevel) (qtyDelta orderDelta : Int32) : PriceLevel :=
  { l with quantity := l.quantity + qtyDelta, orderCount := l.orderCount + orderDelta }

namespace SideArray

open SortedList

variable {Depth : Nat} {ascending : Bool} {levels : Vector PriceLevel Depth} {A B : List PriceLevel}
  {e l : PriceLevel}

/-! ### The order of prices -/

/-- The position of a price in the order of its side; better prices rank lower. -/
def rank (ascending : Bool) (p : Int32) : ℤ := if ascending then p.toInt else -p.toInt

theorem beats_iff {p q : Int32} : beats ascending p q = true ↔ rank ascending p < rank ascending q := by
  cases ascending <;> simp [beats, rank, Int32.lt_iff_toInt_lt]

theorem rank_inj {p q : Int32} : rank ascending p = rank ascending q ↔ p = q := by
  cases ascending <;> simp [rank, Int32.toInt_inj]

/-- The levels of a list, from the best price on. -/
abbrev BestFirst (ascending : Bool) (L : List PriceLevel) : Prop :=
  Sorted (fun l : PriceLevel => rank ascending l.price) L

/-- Puts a level at the place of its price. -/
abbrev insertLevel (ascending : Bool) (e : PriceLevel) (L : List PriceLevel) : List PriceLevel :=
  insertBy (fun l : PriceLevel => rank ascending l.price) e L

/-! ### Reading and writing the array -/

theorem getElem!_eq (levels : Vector PriceLevel Depth) (i : Nat) : levels[i]! = levels.toList[i]! := by
  by_cases h : i < Depth
  · have h' : i < levels.toList.length := by simpa using h
    rw [getElem!_pos levels i h, getElem!_pos levels.toList i h', Vector.getElem_toList]
  · have h' : ¬ i < levels.toList.length := by simpa using h
    rw [getElem!_neg levels i h, getElem!_neg levels.toList i h']

private theorem length_split (h : levels.toList = A ++ l :: B) : A.length + B.length + 1 = Depth := by
  have := congrArg List.length h
  simp at this
  omega

private theorem getElem!_split (h : levels.toList = A ++ l :: B) : levels[A.length]! = l := by
  rw [getElem!_eq, h, getElem!_pos _ _ (by simp), List.getElem_append_right (le_refl _)]
  simp

private theorem set_split (h : levels.toList = A ++ l :: B) (x : PriceLevel) :
    (levels.setIfInBounds A.length x).toList = A ++ x :: B := by
  rw [Vector.toList_setIfInBounds, h, List.set_append_right _ _ (le_refl _)]
  simp

/-! ### The loops -/

private theorem shift_split (h : levels.toList = A ++ l :: B) :
    ∃ x, ((List.range' A.length B.length).foldl
      (fun levels i => levels.setIfInBounds i levels[i + 1]!) levels).toList = A ++ B ++ [x] := by
  induction B generalizing levels A l with
  | nil => exact ⟨l, by simpa using h⟩
  | cons b B ih =>
    have hb : levels[A.length + 1]! = b := by
      have := getElem!_split (A := A ++ [l]) (l := b) (B := B) (by simpa using h)
      simpa using this
    have hset : (levels.setIfInBounds A.length levels[A.length + 1]!).toList = (A ++ [b]) ++ b :: B := by
      rw [hb, set_split h]
      simp
    obtain ⟨x, hx⟩ := ih hset
    refine ⟨x, ?_⟩
    rw [List.length_cons, List.range'_succ, List.foldl_cons]
    simpa using hx

/-- `removeLevel` closes the gap and clears the last level. -/
theorem removeLevel_split (h : levels.toList = A ++ l :: B) :
    (removeLevel levels A.length).toList = A ++ B ++ [({} : PriceLevel)] := by
  have hlen := length_split h
  obtain ⟨x, hx⟩ := shift_split h
  have hpos : Depth - 1 = (A ++ B).length := by simp; omega
  have hcount : (A ++ B).length - A.length = B.length := by simp
  unfold removeLevel
  rw [hpos, hcount]
  exact set_split hx {}

/-- Bubbling puts a level behind the last level of the sorted prefix that it does not beat. -/
theorem bubble_split (h : levels.toList = A ++ e :: B) (hA : BestFirst ascending A) :
    ∃ C D, A = C ++ D ∧ (bubble ascending levels A.length).toList = C ++ e :: D ++ B ∧
      (∀ c ∈ C, rank ascending c.price ≤ rank ascending e.price) ∧
      ∀ d ∈ D, rank ascending e.price < rank ascending d.price := by
  induction A using List.reverseRecOn generalizing levels B with
  | nil => exact ⟨[], [], rfl, by simpa [bubble] using h, by simp, by simp⟩
  | append_singleton A a ih =>
    have ha : levels[A.length]! = a := getElem!_split (B := e :: B) (by simpa using h)
    have he : levels[A.length + 1]! = e := by
      have := getElem!_split (A := A ++ [a]) h
      simpa using this
    rw [List.length_append, List.length_singleton, bubble, ha, he]
    cases hbeat : beats ascending e.price a.price with
    | false =>
      have hle : rank ascending a.price ≤ rank ascending e.price := by
        rw [← not_lt, ← beats_iff, hbeat]
        simp
      refine ⟨A ++ [a], [], by simp, by simpa using h, fun c hc => ?_, by simp⟩
      rcases List.mem_append.1 hc with hc | hc
      · exact (hA.lt_last hc).le.trans hle
      · obtain rfl : c = a := by simpa using hc
        exact hle
    | true =>
      have hswap : ((levels.setIfInBounds (A.length + 1) a).setIfInBounds A.length e).toList =
          A ++ e :: (a :: B) := by
        have h1 : (levels.setIfInBounds (A.length + 1) a).toList = A ++ a :: (a :: B) := by
          have := set_split (A := A ++ [a]) h a
          simpa using this
        exact set_split h1 e
      obtain ⟨C, D, rfl, hb, hC, hD⟩ := ih hswap (List.pairwise_append.1 hA).1
      refine ⟨C, D ++ [a], by simp, by simpa using hb, hC, fun d hd => ?_⟩
      rcases List.mem_append.1 hd with hd | hd
      · exact hD d hd
      · obtain rfl : d = a := by simpa using hd
        exact beats_iff.1 hbeat

/-- Bubbling puts a level with a new price at its place in the sorted prefix. -/
theorem bubble_insertLevel (h : levels.toList = A ++ e :: B) (hA : BestFirst ascending A)
    (hne : ∀ a ∈ A, a.price ≠ e.price) :
    (bubble ascending levels A.length).toList = insertLevel ascending e A ++ B := by
  obtain ⟨C, D, rfl, hb, hC, hD⟩ := bubble_split h hA
  have hC' : ∀ c ∈ C, rank ascending c.price < rank ascending e.price := fun c hc =>
    lt_of_le_of_ne (hC c hc) fun heq => hne c (by simp [hc]) (rank_inj.1 heq)
  rw [hb, insertLevel, insertBy_append hC' hD]

/-! ### The levels shown -/

/-- The levels shown: the active ones, in array order. -/
def visible (levels : Vector PriceLevel Depth) : List PriceLevel := levels.toList.filter (·.active)

theorem mem_visible : l ∈ visible levels ↔ l ∈ levels.toList ∧ l.active = true := List.mem_filter

theorem active_of_mem_visible (h : l ∈ visible levels) : l.active = true := (List.mem_filter.1 h).2

theorem length_visible_le (levels : Vector PriceLevel Depth) : (visible levels).length ≤ Depth := by
  have := List.length_filter_le (fun l : PriceLevel => l.active) levels.toList
  simpa [visible] using this

/-- An array that consists of active levels and then inactive ones shows the active ones. -/
theorem visible_of_layout {L : List PriceLevel} (h : levels.toList = L ++ B) (hL : ∀ l ∈ L, l.active = true)
    (hB : ∀ l ∈ B, l.active = false) : visible levels = L := by
  unfold visible
  rw [h, List.filter_append, List.filter_eq_self.2 hL, List.filter_eq_nil_iff.2 (by simpa using hB), List.append_nil]

/-! ### The searches -/

private theorem find?_range_split {p : PriceLevel → Bool} (h : levels.toList = A ++ l :: B) (hA : ∀ a ∈ A, p a = false)
    (hl : p l = true) : (List.range Depth).find? (fun i => p levels[i]!) = some A.length := by
  have hlen := length_split h
  rw [List.find?_range_eq_some]
  refine ⟨by rw [getElem!_split h]; exact hl, by simp; omega, fun j hj => ?_⟩
  rw [getElem!_eq, h, getElem!_pos _ _ (by simp; omega), List.getElem_append_left hj]
  simpa using hA _ (List.getElem_mem hj)

private theorem find?_range_none {p : PriceLevel → Bool} (h : ∀ a ∈ levels.toList, p a = false) :
    (List.range Depth).find? (fun i => p levels[i]!) = none := by
  rw [List.find?_range_eq_none]
  intro i hi
  have hi' : i < levels.toList.length := by simpa using hi
  rw [getElem!_eq, getElem!_pos levels.toList i hi', h _ (List.getElem_mem hi')]
  rfl

/-- Step 1 of `applyDelta` finds the first active level of the price. -/
theorem findLevel_at {price : Int32} (h : levels.toList = A ++ l :: B) (hA : ∀ a ∈ A, a.price ≠ price)
    (hl : l.active = true) (hp : l.price = price) : findLevel levels price = some A.length :=
  find?_range_split (p := fun l => l.active && l.price = price) h (fun a ha => by simp [hA a ha]) (by simp [hl, hp])

theorem findLevel_none {price : Int32} (h : ∀ l ∈ visible levels, l.price ≠ price) :
    findLevel levels price = none := by
  refine find?_range_none (p := fun l => l.active && l.price = price) fun a ha => ?_
  cases hact : a.active with
  | false => simp
  | true => simpa [hact] using h a (mem_visible.2 ⟨ha, hact⟩)

/-- Step 2 of `applyDelta` finds the first inactive level. -/
theorem findSlot_at (h : levels.toList = A ++ l :: B) (hA : ∀ a ∈ A, a.active = true) (hl : l.active = false) :
    findSlot levels = some A.length :=
  find?_range_split (p := fun l => !l.active) h (fun a ha => by simp [hA a ha]) (by simp [hl])

theorem findSlot_none (h : ∀ a ∈ levels.toList, a.active = true) : findSlot levels = none :=
  find?_range_none (p := fun l => !l.active) fun a ha => by simp [h a ha]

/-! ### What `applyDelta` does to an array -/

/-- The level that `applyDelta` inserts. -/
def newLevel (price qtyDelta orderDelta : Int32) : PriceLevel :=
  { price, quantity := qtyDelta, orderCount := if orderDelta > 0 then orderDelta else 1, active := true }

theorem newLevel_orderCount_pos (price qtyDelta orderDelta : Int32) :
    0 < (newLevel price qtyDelta orderDelta).orderCount := by
  unfold newLevel
  dsimp only
  split
  · assumption
  · decide

section Array

variable {price qtyDelta : Int32}

/-- At the price of an active level that level is updated, and taken away when it is empty then. -/
theorem applyDelta_at (ascending : Bool) (h : levels.toList = A ++ l :: B) (hA : ∀ a ∈ A, a.price ≠ price)
    (hl : l.active = true) (hp : l.price = price) (qtyDelta orderDelta : Int32) :
    (applyDelta levels price qtyDelta orderDelta ascending).toList =
      if l.quantity + qtyDelta ≤ 0 ∨ l.orderCount + orderDelta ≤ 0 then A ++ B ++ [({} : PriceLevel)]
      else A ++ l.bump qtyDelta orderDelta :: B := by
  have hset := set_split h (l.bump qtyDelta orderDelta)
  have hfound : applyDelta levels price qtyDelta orderDelta ascending =
      if l.quantity + qtyDelta ≤ 0 ∨ l.orderCount + orderDelta ≤ 0 then
        removeLevel (levels.setIfInBounds A.length (l.bump qtyDelta orderDelta)) A.length
      else
        levels.setIfInBounds A.length (l.bump qtyDelta orderDelta) := by
    simp [applyDelta, findLevel_at h hA hl hp, getElem!_split h, PriceLevel.bump]
  rw [hfound]
  split
  · exact removeLevel_split hset
  · exact hset

/-- Nothing is added at a price that is not shown. -/
theorem applyDelta_nonpos (hne : ∀ l ∈ visible levels, l.price ≠ price) (hq : qtyDelta ≤ 0) (orderDelta : Int32)
    (ascending : Bool) : applyDelta levels price qtyDelta orderDelta ascending = levels := by
  simp [applyDelta, findLevel_none hne, hq]

private theorem ne_of_visible (hne : ∀ l ∈ visible levels, l.price ≠ price) (h : levels.toList = A ++ B)
    (hA : ∀ a ∈ A, a.active = true) : ∀ a ∈ A, a.price ≠ price := fun a ha =>
  hne a (mem_visible.2 ⟨by simp [h, ha], hA a ha⟩)

/-- A new price goes to its place among the active levels, over the first inactive one. -/
theorem applyDelta_slot (h : levels.toList = A ++ l :: B) (hA : ∀ a ∈ A, a.active = true) (hl : l.active = false)
    (hs : BestFirst ascending A) (hne : ∀ l ∈ visible levels, l.price ≠ price) (hpos : 0 < qtyDelta)
    (orderDelta : Int32) :
    (applyDelta levels price qtyDelta orderDelta ascending).toList =
      insertLevel ascending (newLevel price qtyDelta orderDelta) A ++ B := by
  have heq : applyDelta levels price qtyDelta orderDelta ascending =
      bubble ascending (levels.setIfInBounds A.length (newLevel price qtyDelta orderDelta)) A.length := by
    simp [applyDelta, findLevel_none hne, Int32.not_le.2 hpos, findSlot_at h hA hl, newLevel]
  rw [heq]
  exact bubble_insertLevel (set_split h _) hs (ne_of_visible hne h hA)

/-- Where all levels are active, a price that beats the last one goes to its place among the others. -/
theorem applyDelta_improves (h : levels.toList = A ++ [l]) (hA : ∀ a ∈ A ++ [l], a.active = true)
    (hs : BestFirst ascending A) (hne : ∀ l ∈ visible levels, l.price ≠ price) (hpos : 0 < qtyDelta)
    (himproves : rank ascending price < rank ascending l.price) (orderDelta : Int32) :
    (applyDelta levels price qtyDelta orderDelta ascending).toList =
      insertLevel ascending (newLevel price qtyDelta orderDelta) A := by
  have hlen : Depth - 1 = A.length := by
    have := length_split h
    simp at this
    omega
  have hbeats := beats_iff.2 himproves
  have heq : applyDelta levels price qtyDelta orderDelta ascending =
      bubble ascending (levels.setIfInBounds A.length (newLevel price qtyDelta orderDelta)) A.length := by
    simp [applyDelta, findLevel_none hne, Int32.not_le.2 hpos, findSlot_none (h ▸ hA), hlen, getElem!_split h, hbeats,
      newLevel]
  have hact : ∀ a ∈ A, a.active = true := fun a ha => hA a (by simp [ha])
  rw [heq, bubble_insertLevel (set_split h _) hs (ne_of_visible hne h hact), List.append_nil]

/-- Where all levels are active, a price that does not beat the last one is turned away. -/
theorem applyDelta_worse (h : levels.toList = A ++ [l]) (hA : ∀ a ∈ A ++ [l], a.active = true)
    (hne : ∀ l ∈ visible levels, l.price ≠ price) (hpos : 0 < qtyDelta)
    (hworse : ¬ rank ascending price < rank ascending l.price) (orderDelta : Int32) :
    applyDelta levels price qtyDelta orderDelta ascending = levels := by
  have hlen : Depth - 1 = A.length := by
    have := length_split h
    simp at this
    omega
  rw [← beats_iff, Bool.not_eq_true] at hworse
  simp [applyDelta, findLevel_none hne, Int32.not_le.2 hpos, findSlot_none (h ▸ hA), hlen, getElem!_split h, hworse]

end Array

/-! ### Layout -/

/-- An array with the active levels `L`, from the best price on and each with volume, and inactive ones behind them. -/
structure Layout (ascending : Bool) (levels : Vector PriceLevel Depth) (L rest : List PriceLevel) : Prop where
  toList_eq : levels.toList = L ++ rest
  active : ∀ l ∈ L, l.active = true
  inactive : ∀ l ∈ rest, l.active = false
  sorted : BestFirst ascending L
  quantity_pos : ∀ l ∈ L, 0 < l.quantity
  orderCount_pos : ∀ l ∈ L, 0 < l.orderCount

namespace Layout

variable {L rest : List PriceLevel} {price qtyDelta orderDelta : Int32}

theorem visible_eq (h : Layout ascending levels L rest) : visible levels = L :=
  visible_of_layout h.toList_eq h.active h.inactive

theorem length_eq (h : Layout ascending levels L rest) : L.length + rest.length = Depth := by
  have := congrArg List.length h.toList_eq
  simpa using this.symm

private theorem ne_of_mem_before (h : Layout ascending levels (A ++ l :: B) rest) (hp : l.price = price) :
    ∀ a ∈ A, a.price ≠ price := by
  rintro a ha rfl
  exact absurd (congrArg (rank ascending) hp.symm) (h.sorted.lt_of_mem_left ha).ne

private theorem applyDelta_toList (h : Layout ascending levels (A ++ l :: B) rest) (hp : l.price = price)
    (qtyDelta orderDelta : Int32) :
    (applyDelta levels price qtyDelta orderDelta ascending).toList =
      if l.quantity + qtyDelta ≤ 0 ∨ l.orderCount + orderDelta ≤ 0 then A ++ (B ++ rest) ++ [({} : PriceLevel)]
      else A ++ l.bump qtyDelta orderDelta :: (B ++ rest) := by
  have hlay := h.toList_eq
  rw [List.append_assoc, List.cons_append] at hlay
  exact applyDelta_at ascending hlay (h.ne_of_mem_before hp) (h.active l (by simp)) hp qtyDelta orderDelta

/-- An entry that is empty after the update is deleted, and the last level is cleared. -/
theorem applyDelta_delete (h : Layout ascending levels (A ++ l :: B) rest) (hp : l.price = price)
    (hgone : l.quantity + qtyDelta ≤ 0 ∨ l.orderCount + orderDelta ≤ 0) :
    Layout ascending (applyDelta levels price qtyDelta orderDelta ascending) (A ++ B)
      (rest ++ [({} : PriceLevel)]) := by
  have hafter := h.applyDelta_toList hp qtyDelta orderDelta
  rw [if_pos hgone, ← List.append_assoc, List.append_assoc] at hafter
  have hsub : ∀ x ∈ A ++ B, x ∈ A ++ l :: B := fun x hx => (h.sorted.mem_erase.1 hx).1
  refine ⟨hafter, fun x hx => h.active x (hsub x hx), fun x hx => ?_, h.sorted.erase,
    fun x hx => h.quantity_pos x (hsub x hx), fun x hx => h.orderCount_pos x (hsub x hx)⟩
  rcases List.mem_append.1 hx with hx | hx
  · exact h.inactive x hx
  · rw [List.mem_singleton.1 hx]

/-- An entry that is not empty after the update stays at its place. -/
theorem applyDelta_update (h : Layout ascending levels (A ++ l :: B) rest) (hp : l.price = price)
    (hq : 0 < l.quantity + qtyDelta) (ho : 0 < l.orderCount + orderDelta) :
    Layout ascending (applyDelta levels price qtyDelta orderDelta ascending) (A ++ l.bump qtyDelta orderDelta :: B)
      rest := by
  have hgone : ¬ (l.quantity + qtyDelta ≤ 0 ∨ l.orderCount + orderDelta ≤ 0) := by
    rw [not_or, Int32.not_le, Int32.not_le]
    exact ⟨hq, ho⟩
  have hafter := h.applyDelta_toList hp qtyDelta orderDelta
  rw [if_neg hgone, ← List.cons_append, ← List.append_assoc] at hafter
  have hcases : ∀ x ∈ A ++ l.bump qtyDelta orderDelta :: B, x = l.bump qtyDelta orderDelta ∨ x ∈ A ++ l :: B := by
    intro x hx
    simp only [List.mem_append, List.mem_cons] at hx ⊢
    tauto
  refine ⟨hafter, fun x hx => ?_, h.inactive, h.sorted.replace rfl, fun x hx => ?_, fun x hx => ?_⟩
  · rcases hcases x hx with rfl | hx
    · exact h.active l (by simp)
    · exact h.active x hx
  · rcases hcases x hx with rfl | hx
    · exact hq
    · exact h.quantity_pos x hx
  · rcases hcases x hx with rfl | hx
    · exact ho
    · exact h.orderCount_pos x hx

/-- The layout after the new level went to its place in `L`. -/
private theorem of_insert (h : levels.toList = insertLevel ascending (newLevel price qtyDelta orderDelta) L ++ rest)
    (hL : ∀ l ∈ L, l.active = true) (hrest : ∀ l ∈ rest, l.active = false) (hs : BestFirst ascending L)
    (hq : ∀ l ∈ L, 0 < l.quantity) (ho : ∀ l ∈ L, 0 < l.orderCount) (hne : ∀ l ∈ L, l.price ≠ price)
    (hpos : 0 < qtyDelta) :
    Layout ascending levels (insertLevel ascending (newLevel price qtyDelta orderDelta) L) rest := by
  refine ⟨h, fun x hx => ?_, hrest, hs.insertBy fun a ha heq => hne a ha (rank_inj.1 heq), fun x hx => ?_,
    fun x hx => ?_⟩
  · rcases mem_insertBy.1 hx with rfl | hx
    · rfl
    · exact hL x hx
  · rcases mem_insertBy.1 hx with rfl | hx
    · exact hpos
    · exact hq x hx
  · rcases mem_insertBy.1 hx with rfl | hx
    · exact newLevel_orderCount_pos ..
    · exact ho x hx

/-- A new price takes the first inactive level. -/
theorem applyDelta_room (h : Layout ascending levels L (l :: rest)) (hne : ∀ x ∈ L, x.price ≠ price)
    (hpos : 0 < qtyDelta) (orderDelta : Int32) :
    Layout ascending (applyDelta levels price qtyDelta orderDelta ascending)
      (insertLevel ascending (newLevel price qtyDelta orderDelta) L) rest := by
  have hne' : ∀ x ∈ visible levels, x.price ≠ price := h.visible_eq ▸ hne
  have hafter := applyDelta_slot h.toList_eq h.active (h.inactive l (by simp)) h.sorted hne' hpos orderDelta
  exact of_insert hafter h.active (fun x hx => h.inactive x (by simp [hx])) h.sorted h.quantity_pos h.orderCount_pos hne
    hpos

/-- On a full side a new price that beats the worst one takes its level. -/
theorem applyDelta_full (h : Layout ascending levels (L ++ [l]) []) (hne : ∀ x ∈ L ++ [l], x.price ≠ price)
    (hpos : 0 < qtyDelta) (himproves : rank ascending price < rank ascending l.price) (orderDelta : Int32) :
    Layout ascending (applyDelta levels price qtyDelta orderDelta ascending)
      (insertLevel ascending (newLevel price qtyDelta orderDelta) L) [] := by
  have hlay := h.toList_eq
  rw [List.append_nil] at hlay
  have hs : BestFirst ascending L := (List.pairwise_append.1 h.sorted).1
  have hsub : ∀ x ∈ L, x ∈ L ++ [l] := fun x hx => by simp [hx]
  have hafter := applyDelta_improves hlay h.active hs (h.visible_eq ▸ hne) hpos himproves orderDelta
  rw [← List.append_nil (insertLevel _ _ _)] at hafter
  exact of_insert hafter (fun x hx => h.active x (hsub x hx)) h.inactive hs (fun x hx => h.quantity_pos x (hsub x hx))
    (fun x hx => h.orderCount_pos x (hsub x hx)) (fun x hx => hne x (hsub x hx)) hpos

/-- On a full side a new price that does not beat the worst one is turned away. -/
theorem applyDelta_rejected (h : Layout ascending levels (L ++ [l]) []) (hne : ∀ x ∈ L ++ [l], x.price ≠ price)
    (hpos : 0 < qtyDelta) (hworse : ¬ rank ascending price < rank ascending l.price) (orderDelta : Int32) :
    applyDelta levels price qtyDelta orderDelta ascending = levels := by
  have hlay := h.toList_eq
  rw [List.append_nil] at hlay
  exact applyDelta_worse hlay h.active (h.visible_eq ▸ hne) hpos hworse orderDelta

end Layout

/-! ### Shape -/

/-- The unused end of an array. -/
def zeros (n : Nat) : List PriceLevel := List.replicate n {}

theorem zeros_succ (n : Nat) : zeros (n + 1) = ({} : PriceLevel) :: zeros n := rfl

theorem zeros_append_singleton (n : Nat) : zeros n ++ [({} : PriceLevel)] = zeros (n + 1) :=
  List.replicate_succ'.symm

/-- The representation invariant of a side. -/
structure Shaped (ascending : Bool) (levels : Vector PriceLevel Depth) : Prop where
  layout : levels.toList = visible levels ++ zeros (Depth - (visible levels).length)
  sorted : BestFirst ascending (visible levels)
  quantity_pos : ∀ l ∈ visible levels, 0 < l.quantity
  orderCount_pos : ∀ l ∈ visible levels, 0 < l.orderCount

theorem Shaped.of_layout {L : List PriceLevel} {n : Nat} (h : Layout ascending levels L (zeros n)) :
    Shaped ascending levels := by
  have hv := h.visible_eq
  have hn : n = Depth - L.length := by
    have := h.length_eq
    simp [zeros] at this
    omega
  exact ⟨by rw [hv, ← hn]; exact h.toList_eq, hv ▸ h.sorted, hv ▸ h.quantity_pos, hv ▸ h.orderCount_pos⟩

theorem inactive_of_mem_zeros {n : Nat} (h : l ∈ zeros n) : l.active = false := by
  rw [List.eq_of_mem_replicate h]

private theorem layout_replicate (Depth : Nat) (ascending : Bool) :
    Layout ascending (Vector.replicate Depth ({} : PriceLevel)) [] (zeros Depth) :=
  ⟨by simp [zeros], by simp, fun _ hl => inactive_of_mem_zeros hl, Sorted.nil, by simp, by simp⟩

theorem shaped_replicate (Depth : Nat) (ascending : Bool) :
    Shaped ascending (Vector.replicate Depth ({} : PriceLevel)) := .of_layout (layout_replicate Depth ascending)

theorem visible_replicate (Depth : Nat) : visible (Vector.replicate Depth ({} : PriceLevel)) = [] :=
  (layout_replicate Depth true).visible_eq

namespace Shaped

variable {price : Int32}

theorem toLayout (h : Shaped ascending levels) {n : Nat} (hn : (visible levels).length + n = Depth) :
    Layout ascending levels (visible levels) (zeros n) where
  toList_eq := by
    have := h.layout
    rwa [show Depth - (visible levels).length = n by omega] at this
  active _ hl := active_of_mem_visible hl
  inactive _ hl := inactive_of_mem_zeros hl
  sorted := h.sorted
  quantity_pos := h.quantity_pos
  orderCount_pos := h.orderCount_pos

/-- The first level of the array is the best visible one. -/
theorem first (h : Shaped ascending levels) : levels[0]! = (visible levels).headD {} := by
  rw [getElem!_eq, h.layout]
  cases visible levels with
  | nil => cases Depth <;> rfl
  | cons l L => rfl

theorem first_active (h : Shaped ascending levels) : levels[0]!.active = !(visible levels).isEmpty := by
  rw [h.first]
  cases hv : visible levels with
  | nil => rfl
  | cons l L =>
    have hl : l ∈ visible levels := by simp [hv]
    exact active_of_mem_visible hl

/-- The price of the first level, or zero when no level is visible. -/
theorem first_price (h : Shaped ascending levels) :
    (if levels[0]!.active then levels[0]!.price else 0) = ((visible levels).headD {}).price := by
  rw [h.first_active, h.first]
  cases visible levels with
  | nil => rfl
  | cons l L => rfl

/-- Step 1 of `applyDelta` finds the visible level of the price. -/
theorem findLevel_split (h : Shaped ascending levels) (hv : visible levels = A ++ l :: B) (hp : l.price = price) :
    findLevel levels price = some A.length := by
  obtain ⟨n, hn⟩ := Nat.exists_eq_add_of_le (length_visible_le levels)
  have hlay := h.toLayout hn.symm
  rw [hv] at hlay
  have hlist := hlay.toList_eq
  rw [List.append_assoc, List.cons_append] at hlist
  exact findLevel_at hlist (hlay.ne_of_mem_before hp) (hlay.active l (by simp)) hp

end Shaped

/-! ### What `applyDelta` does to the visible levels -/

/-- One call of `applyDelta` on the visible levels `L`, leaving `L'`. -/
inductive DeltaStep (ascending : Bool) (Depth : Nat) (price qtyDelta orderDelta : Int32) (L L' : List PriceLevel) :
    Prop where
  | update (l : PriceLevel) (mem : l ∈ L) (at_price : l.price = price)
      (quantity_pos : 0 < l.quantity + qtyDelta) (orderCount_pos : 0 < l.orderCount + orderDelta)
      (mem_iff : ∀ x, x ∈ L' ↔ x = l.bump qtyDelta orderDelta ∨ x ∈ L ∧ x.price ≠ price)
      (length : L'.length = L.length)
  | delete (l : PriceLevel) (mem : l ∈ L) (at_price : l.price = price)
      (empty : l.quantity + qtyDelta ≤ 0 ∨ l.orderCount + orderDelta ≤ 0)
      (mem_iff : ∀ x, x ∈ L' ↔ x ∈ L ∧ x.price ≠ price) (length : L'.length + 1 = L.length)
  | ignore (hidden : ∀ l ∈ L, l.price ≠ price) (nonpos : qtyDelta ≤ 0) (same : L' = L)
  | insert (hidden : ∀ l ∈ L, l.price ≠ price) (pos : 0 < qtyDelta) (room : L.length < Depth)
      (mem_iff : ∀ x, x ∈ L' ↔ x = newLevel price qtyDelta orderDelta ∨ x ∈ L) (length : L'.length = L.length + 1)
  | replace (worst : PriceLevel) (hidden : ∀ l ∈ L, l.price ≠ price) (pos : 0 < qtyDelta) (full : L.length = Depth)
      (mem : worst ∈ L) (is_worst : ∀ l ∈ L, l ≠ worst → rank ascending l.price < rank ascending worst.price)
      (improves : rank ascending price < rank ascending worst.price)
      (mem_iff : ∀ x, x ∈ L' ↔ x = newLevel price qtyDelta orderDelta ∨ x ∈ L ∧ x ≠ worst)
      (length : L'.length = L.length)
  | reject (hidden : ∀ l ∈ L, l.price ≠ price) (pos : 0 < qtyDelta) (full : L.length = Depth)
      (worse : ∀ l ∈ L, rank ascending l.price < rank ascending price) (same : L' = L)

/-- At a visible price a step updates the level there or takes it away. -/
theorem DeltaStep.of_visible {price qtyDelta orderDelta : Int32} {L L' : List PriceLevel}
    (h : DeltaStep ascending Depth price qtyDelta orderDelta L L') (hs : BestFirst ascending L) (hl : l ∈ L)
    (hp : l.price = price) :
    ((0 < l.quantity + qtyDelta ∧ 0 < l.orderCount + orderDelta) ∧
        ∀ x, x ∈ L' ↔ x = l.bump qtyDelta orderDelta ∨ x ∈ L ∧ x.price ≠ price) ∨
      (l.quantity + qtyDelta ≤ 0 ∨ l.orderCount + orderDelta ≤ 0) ∧ ∀ x, x ∈ L' ↔ x ∈ L ∧ x.price ≠ price := by
  have huniq : ∀ x ∈ L, x.price = price → x = l := fun x hx hxp => hs.inj hx hl (by rw [hxp, hp])
  cases h with
  | update x hx hxp hq ho hmem _ =>
    obtain rfl := huniq x hx hxp
    exact Or.inl ⟨⟨hq, ho⟩, hmem⟩
  | delete x hx hxp hgone hmem _ =>
    obtain rfl := huniq x hx hxp
    exact Or.inr ⟨hgone, hmem⟩
  | ignore hhid _ _ => exact absurd hp (hhid l hl)
  | insert hhid _ _ _ _ => exact absurd hp (hhid l hl)
  | replace _ hhid _ _ _ _ _ _ _ => exact absurd hp (hhid l hl)
  | reject hhid _ _ _ _ => exact absurd hp (hhid l hl)

namespace Shaped

variable {price qtyDelta orderDelta : Int32}

/-- `applyDelta` at a visible price. -/
private theorem applyDelta_visible (h : Shaped ascending levels) (hl : l ∈ visible levels) (hp : l.price = price) :
    Shaped ascending (applyDelta levels price qtyDelta orderDelta ascending) ∧
      DeltaStep ascending Depth price qtyDelta orderDelta (visible levels)
        (visible (applyDelta levels price qtyDelta orderDelta ascending)) := by
  obtain ⟨A, B, hv⟩ := List.append_of_mem hl
  obtain ⟨n, hn⟩ := Nat.exists_eq_add_of_le (length_visible_le levels)
  have hlay := h.toLayout hn.symm
  rw [hv] at hlay
  have hother : ∀ x, x ∈ A ++ B ↔ x ∈ A ++ l :: B ∧ x.price ≠ price := fun x => by
    rw [hlay.sorted.mem_erase, ← hp, Ne, rank_inj]
  by_cases hgone : l.quantity + qtyDelta ≤ 0 ∨ l.orderCount + orderDelta ≤ 0
  · -- the level is empty now
    have hafter := hlay.applyDelta_delete hp hgone
    rw [zeros_append_singleton] at hafter
    refine ⟨.of_layout hafter, .delete l hl hp hgone ?_ ?_⟩
    · rw [hafter.visible_eq, hv]
      exact hother
    · rw [hafter.visible_eq, hv]
      simp
      omega
  · rw [not_or, Int32.not_le, Int32.not_le] at hgone
    have hafter := hlay.applyDelta_update hp hgone.1 hgone.2
    refine ⟨.of_layout hafter, .update l hl hp hgone.1 hgone.2 (fun x => ?_) ?_⟩
    · rw [hafter.visible_eq, hv, ← hother]
      simp only [List.mem_append, List.mem_cons]
      tauto
    · rw [hafter.visible_eq, hv]
      simp

/-- `applyDelta` at a new price on a side with room: the first inactive level is taken. -/
private theorem applyDelta_room (h : Shaped ascending levels) (hne : ∀ l ∈ visible levels, l.price ≠ price)
    (hpos : 0 < qtyDelta) (hroom : (visible levels).length < Depth) :
    Shaped ascending (applyDelta levels price qtyDelta orderDelta ascending) ∧
      DeltaStep ascending Depth price qtyDelta orderDelta (visible levels)
        (visible (applyDelta levels price qtyDelta orderDelta ascending)) := by
  have hlay := h.toLayout (n := Depth - (visible levels).length - 1 + 1) (by omega)
  rw [zeros_succ] at hlay
  have hafter := hlay.applyDelta_room hne hpos orderDelta
  refine ⟨.of_layout hafter, .insert hne hpos hroom (fun x => ?_) ?_⟩
  · rw [hafter.visible_eq, mem_insertBy]
  · rw [hafter.visible_eq, length_insertBy]

/-- `applyDelta` at a new price on a full side: the worst level gives way, or the price is turned away. -/
private theorem applyDelta_full (h : Shaped ascending levels) (hne : ∀ l ∈ visible levels, l.price ≠ price)
    (hpos : 0 < qtyDelta) (hfull : (visible levels).length = Depth) {L : List PriceLevel} {w : PriceLevel}
    (hv : visible levels = L ++ [w]) :
    Shaped ascending (applyDelta levels price qtyDelta orderDelta ascending) ∧
      DeltaStep ascending Depth price qtyDelta orderDelta (visible levels)
        (visible (applyDelta levels price qtyDelta orderDelta ascending)) := by
  have hlay : Layout ascending levels (L ++ [w]) [] := hv ▸ h.toLayout (n := 0) (by omega)
  have hne' := hne
  rw [hv] at hne'
  by_cases himproves : rank ascending price < rank ascending w.price
  · have hafter := hlay.applyDelta_full hne' hpos himproves orderDelta
    refine ⟨.of_layout (n := 0) hafter, .replace w hne hpos hfull (by simp [hv]) (fun l hl hlw => ?_) himproves
      (fun x => ?_) (by rw [hafter.visible_eq, length_insertBy, hv]; simp)⟩
    · rw [hv] at hl
      rcases List.mem_append.1 hl with hl | hl
      · exact hlay.sorted.lt_last hl
      · exact absurd (by simpa using hl) hlw
    · have hxw : x ∈ L → x ≠ w := by
        rintro hx rfl
        exact absurd (hlay.sorted.lt_last hx) (lt_irrefl _)
      rw [hafter.visible_eq, mem_insertBy, hv]
      simp only [List.mem_append, List.mem_singleton]
      tauto
  · rw [hlay.applyDelta_rejected hne' hpos himproves orderDelta]
    have hworse : rank ascending w.price < rank ascending price :=
      lt_of_le_of_ne (not_lt.1 himproves) fun heq => hne' w (by simp) (rank_inj.1 heq)
    refine ⟨h, .reject hne hpos hfull (fun l hl => ?_) rfl⟩
    exact hlay.sorted.lt_of_last_lt (y := newLevel price qtyDelta orderDelta) hworse l (hv ▸ hl)

/-- `applyDelta` at a price that is not visible. -/
private theorem applyDelta_hidden (h : Shaped ascending levels) (hDepth : 0 < Depth)
    (hne : ∀ l ∈ visible levels, l.price ≠ price) :
    Shaped ascending (applyDelta levels price qtyDelta orderDelta ascending) ∧
      DeltaStep ascending Depth price qtyDelta orderDelta (visible levels)
        (visible (applyDelta levels price qtyDelta orderDelta ascending)) := by
  by_cases hδ : qtyDelta ≤ 0
  · rw [applyDelta_nonpos hne hδ]
    exact ⟨h, .ignore hne hδ rfl⟩
  · have hpos := Int32.not_le.1 hδ
    by_cases hroom : (visible levels).length < Depth
    · exact h.applyDelta_room hne hpos hroom
    · have hfull : (visible levels).length = Depth := by
        have := length_visible_le levels
        omega
      rcases List.eq_nil_or_concat (visible levels) with hnil | ⟨L, w, hv⟩
      · rw [hnil] at hfull
        exact absurd hfull hDepth.ne
      · exact h.applyDelta_full hne hpos hfull (by simpa using hv)

/-- `applyDelta` keeps the shape of a side, and moves its visible levels by a `DeltaStep`. -/
theorem applyDelta_step (h : Shaped ascending levels) (hDepth : 0 < Depth) (price qtyDelta orderDelta : Int32) :
    Shaped ascending (applyDelta levels price qtyDelta orderDelta ascending) ∧
      DeltaStep ascending Depth price qtyDelta orderDelta (visible levels)
        (visible (applyDelta levels price qtyDelta orderDelta ascending)) := by
  by_cases hp : ∃ l ∈ visible levels, l.price = price
  · obtain ⟨l, hl, hp⟩ := hp
    exact h.applyDelta_visible hl hp
  · exact h.applyDelta_hidden hDepth fun l hl hlp => hp ⟨l, hl, hlp⟩

end Shaped

end SideArray

end FeedHandler
