import FeedHandler.OrderBook.Transfer

/-!
# The 32-bit arithmetic of the book

The additions, subtractions and negations of `int32_t` that one message makes `processCancel`, `processExecute` and
`applyDelta` carry out, each with its exact result (`arithmetic`).  Valid messages keep every difference and negation in
range; the sums at a visible level stay in range exactly as long as what is added fits into it (`noOverflow_iff`).
-/

namespace FeedHandler

open SideArray

/-- The exact results of the additions in `applyDelta`: quantity and order count of the level with this price. -/
def SideArray.sums {Depth : Nat} (levels : Vector PriceLevel Depth) (price qtyDelta orderDelta : Int32) : List ℤ :=
  match findLevel levels price with
  | some i => [levels[i]!.quantity.toInt + qtyDelta.toInt, levels[i]!.orderCount.toInt + orderDelta.toInt]
  | none => []

/-- The level that step 1 of `applyDelta` finds is shown. -/
theorem SideArray.mem_visible_of_findLevel {Depth : Nat} {levels : Vector PriceLevel Depth} {price : Int32} {i : Nat}
    (h : findLevel levels price = some i) : levels[i]! ∈ visible levels ∧ levels[i]!.price = price := by
  have hi : i < Depth := List.mem_range.1 (List.mem_of_find?_eq_some h)
  have hfound := List.find?_some h
  rw [Bool.and_eq_true, decide_eq_true_eq] at hfound
  refine ⟨List.mem_filter.2 ⟨?_, hfound.1⟩, hfound.2⟩
  rw [getElem!_pos levels i hi]
  simp

/-- What holds of the sums at a shown level of the price. -/
theorem SideArray.Shaped.forall_sums_iff {Depth : Nat} {ascending : Bool} {levels : Vector PriceLevel Depth}
    (h : Shaped ascending levels) (price qtyDelta orderDelta : Int32) (P : ℤ → Prop) :
    (∀ x ∈ sums levels price qtyDelta orderDelta, P x) ↔ ∀ l ∈ visible levels, l.price = price →
      P (l.quantity.toInt + qtyDelta.toInt) ∧ P (l.orderCount.toInt + orderDelta.toInt) := by
  unfold sums
  cases hfind : findLevel levels price with
  | none =>
    refine iff_of_true (fun x hx => by cases hx) fun l hl hp => ?_
    obtain ⟨A, B, hv⟩ := List.append_of_mem hl
    rw [h.findLevel_split hv hp] at hfind
    cases hfind
  | some i =>
    obtain ⟨hmem, hprice⟩ := mem_visible_of_findLevel hfind
    constructor
    · intro hP l hl hp
      obtain rfl : l = levels[i]! := h.sorted.inj hl hmem (by rw [hp, hprice])
      exact ⟨hP _ (by simp), hP _ (by simp)⟩
    · intro hP x hx
      obtain ⟨hquantity, horders⟩ := hP _ hmem hprice
      simp only [List.mem_cons, List.not_mem_nil, or_false] at hx
      rcases hx with rfl | rfl
      · exact hquantity
      · exact horders

namespace LimitOrderBook

variable {Depth : Nat} {TableCapacity : Pow2} {book : LimitOrderBook Depth TableCapacity} {msg : WireMessage}

/-- The exact results in `processAdd`. -/
def addArithmetic (book : LimitOrderBook Depth TableCapacity) (msg : AddOrderMsg) : List ℤ :=
  match book.orderTable.insert msg.orderId msg.side msg.price msg.quantity msg.timestampNs with
  | none => []
  | some _ => sums (book.levels (.of msg.side)) msg.price msg.quantity 1

/-- The exact results in `processCancel`. -/
def cancelArithmetic (book : LimitOrderBook Depth TableCapacity) (msg : CancelOrderMsg) : List ℤ :=
  match book.orderTable.lookup msg.orderId with
  | none => []
  | some idx =>
    let rec_ := book.orderTable.table.get idx
    if rec_.cancelled then
      []
    else
      let qtyDelta := msg.quantity - rec_.quantity
      let orderDelta : Int32 := if msg.quantity ≤ 0 then -1 else 0
      (msg.quantity.toInt - rec_.quantity.toInt) ::
        sums (book.levels (.of rec_.side)) rec_.price qtyDelta orderDelta

/-- The exact results in `processExecute`. -/
def executeArithmetic (book : LimitOrderBook Depth TableCapacity) (msg : ExecuteOrderMsg) : List ℤ :=
  match book.orderTable.lookup msg.orderId with
  | none => []
  | some idx =>
    let rec_ := book.orderTable.table.get idx
    if rec_.cancelled then
      []
    else
      let newQty := rec_.newQty msg.execQuantity
      let qtyDelta := -msg.execQuantity
      let orderDelta : Int32 := if newQty = 0 then -1 else 0
      (if rec_.quantity > msg.execQuantity then [rec_.quantity.toInt - msg.execQuantity.toInt] else []) ++
        -msg.execQuantity.toInt :: sums (book.levels (.of rec_.side)) rec_.price qtyDelta orderDelta

/-- The exact results of all additions, subtractions and negations that `processMessage` carries out. -/
def arithmetic (book : LimitOrderBook Depth TableCapacity) (msg : WireMessage) : List ℤ :=
  if msg.msgType = 'A'.toUInt8 then book.addArithmetic msg.add
  else if msg.msgType = 'X'.toUInt8 then book.cancelArithmetic msg.cancel
  else if msg.msgType = 'E'.toUInt8 then book.executeArithmetic msg.exec
  else []

/-- Every result lies in the range of `int32_t`. -/
def NoOverflow (book : LimitOrderBook Depth TableCapacity) (msg : WireMessage) : Prop :=
  ∀ x ∈ book.arithmetic msg, Int32.InRange x

instance : Decidable (NoOverflow book msg) := inferInstanceAs (Decidable (∀ x ∈ _, _))

/-- The side and price at which a message adds, with the quantity and the number of orders it adds: those of an Add
that finds room in the table, and those of an X that raises a live order. -/
def adds (book : LimitOrderBook Depth TableCapacity) (msg : WireMessage) : Option (Side × Int32 × ℤ × ℤ) :=
  if msg.msgType = 'A'.toUInt8 then
    if (book.orderTable.insert msg.orderId msg.add.side msg.add.price msg.add.quantity msg.timestampNs).isSome then
      some (.of msg.add.side, msg.add.price, msg.add.quantity.toInt, 1)
    else
      none
  else if msg.msgType = 'X'.toUInt8 then
    match book.orderTable.liveOrder msg.orderId with
    | some r =>
      if r.quantity < msg.cancel.quantity then
        some (.of r.side, r.price, msg.cancel.quantity.toInt - r.quantity.toInt, 0)
      else
        none
    | none => none
  else
    none

/-- What a message adds fits into the level that is shown at the price, if there is one. -/
def Fits (book : LimitOrderBook Depth TableCapacity) (msg : WireMessage) : Prop :=
  ∀ a ∈ book.adds msg, ∀ l ∈ book.shown a.1, l.price = a.2.1 →
    l.quantity.toInt + a.2.2.1 < 2 ^ 31 ∧ l.orderCount.toInt + a.2.2.2 < 2 ^ 31

instance : Decidable (Fits book msg) := inferInstanceAs (Decidable (∀ a ∈ _, _))

/-! ### One message -/

/-- What every reachable book has: well-shaped sides, and live orders with something left. -/
structure Sound (book : LimitOrderBook Depth TableCapacity) : Prop where
  shaped : ∀ s, Shaped s.ascending (book.levels s)
  positive : book.orderTable.Positive

theorem sound_reset (Depth : Nat) (TableCapacity : Pow2) : (reset Depth TableCapacity).Sound where
  shaped s := by
    rw [levels_reset]
    exact shaped_replicate ..
  positive := positive_reset Depth TableCapacity

/-- An array without levels. -/
theorem shaped_of_depth_zero (ascending : Bool) (levels : Vector PriceLevel 0) : Shaped ascending levels := by
  obtain rfl : levels = Vector.replicate 0 {} := by simp
  exact shaped_replicate 0 ascending

theorem Sound.step (h : book.Sound) (hv : msg.isValid = true) : (book.processMessage msg).Sound where
  shaped := by
    cases Depth with
    | zero => exact fun s => shaped_of_depth_zero _ _
    | succ n => exact processMessage_shaped (Nat.succ_pos n) h.shaped msg
  positive := processMessage_positive hv h.positive

/-- The sums stay in range when nothing is added to the level. -/
theorem Sound.sums_of_nonpos (h : book.Sound) (s : Side) (price qtyDelta orderDelta : Int32)
    (hquantity : qtyDelta.toInt ≤ 0) (horders : orderDelta = 0 ∨ orderDelta = -1) :
    ∀ x ∈ sums (book.levels s) price qtyDelta orderDelta, Int32.InRange x := by
  rw [(h.shaped s).forall_sums_iff price qtyDelta orderDelta Int32.InRange]
  intro l hl hp
  have hq := (Int32.pos_iff_toInt _).1 ((h.shaped s).quantity_pos l hl)
  have ho := (Int32.pos_iff_toInt _).1 ((h.shaped s).orderCount_pos l hl)
  have hqlt := l.quantity.toInt_lt
  have holt := l.orderCount.toInt_lt
  have hdelta := qtyDelta.le_toInt
  have horder : orderDelta.toInt = 0 ∨ orderDelta.toInt = -1 := by
    rcases horders with rfl | rfl
    · exact Or.inl rfl
    · exact Or.inr rfl
  unfold Int32.InRange
  omega

/-- The sums stay in range when what is added fits. -/
theorem Sound.sums_iff_of_pos (h : book.Sound) (s : Side) (price qtyDelta orderDelta : Int32)
    (hquantity : 0 < qtyDelta.toInt) (horders : 0 ≤ orderDelta.toInt) :
    (∀ x ∈ sums (book.levels s) price qtyDelta orderDelta, Int32.InRange x) ↔
      ∀ l ∈ book.shown s, l.price = price →
        l.quantity.toInt + qtyDelta.toInt < 2 ^ 31 ∧ l.orderCount.toInt + orderDelta.toInt < 2 ^ 31 := by
  rw [(h.shaped s).forall_sums_iff price qtyDelta orderDelta Int32.InRange]
  refine forall_congr' fun l => forall_congr' fun hl => forall_congr' fun hp => ?_
  have hq := (Int32.pos_iff_toInt _).1 ((h.shaped s).quantity_pos l hl)
  have ho := (Int32.pos_iff_toInt _).1 ((h.shaped s).orderCount_pos l hl)
  unfold Int32.InRange
  omega

theorem noOverflow_iff_add (h : book.Sound) (hv : msg.isValid = true) (hA : msg.msgType = 'A'.toUInt8) :
    NoOverflow book msg ↔ Fits book msg := by
  have hq := (Int32.pos_iff_toInt _).1 (WireMessage.isValid_add hv hA).2.2
  unfold NoOverflow Fits arithmetic adds addArithmetic
  rw [if_pos hA, if_pos hA]
  have hid : msg.add.orderId = msg.orderId := rfl
  have hts : msg.add.timestampNs = msg.timestampNs := rfl
  rw [hid, hts]
  cases book.orderTable.insert msg.orderId msg.add.side msg.add.price msg.add.quantity msg.timestampNs with
  | none => simp
  | some inserted =>
    have hsums := h.sums_iff_of_pos (.of msg.add.side) msg.add.price msg.add.quantity 1 hq (by decide)
    simpa using hsums

theorem noOverflow_iff_cancel (h : book.Sound) (hv : msg.isValid = true) (hX : msg.msgType = 'X'.toUInt8) :
    NoOverflow book msg ↔ Fits book msg := by
  have hq := (Int32.nonneg_iff_toInt _).1 (WireMessage.isValid_cancel hv hX)
  have hA : msg.msgType ≠ 'A'.toUInt8 := by
    rw [hX]
    decide
  unfold NoOverflow Fits arithmetic adds cancelArithmetic
  rw [if_neg hA, if_pos hX, if_neg hA, if_pos hX]
  have hid : msg.cancel.orderId = msg.orderId := rfl
  rw [hid]
  rcases live_or_dead book.orderTable msg.orderId with ⟨i, hl, hc⟩ | hdead
  · have hlive : book.orderTable.liveOrder msg.orderId = some (book.orderTable.table.get i) :=
      OrderTable.liveOrder_eq_some.2 ⟨i, hl, rfl, hc⟩
    have hr := (Int32.pos_iff_toInt _).1 (h.positive i (live_of_found hl hc))
    rw [hl, hlive]
    dsimp only
    rw [hc]
    generalize book.orderTable.table.get i = r at hr ⊢
    have hmlt := msg.cancel.quantity.toInt_lt
    have hrlt := r.quantity.toInt_lt
    have hsub : (msg.cancel.quantity - r.quantity).toInt = msg.cancel.quantity.toInt - r.quantity.toInt :=
      Int32.toInt_sub_of_range (by omega) (by omega)
    have hdiff : Int32.InRange (msg.cancel.quantity.toInt - r.quantity.toInt) := ⟨by omega, by omega⟩
    rw [if_neg (by decide)]
    by_cases hraise : r.quantity < msg.cancel.quantity
    · -- quantity is added to the level, and no order
      have hlt := Int32.lt_iff_toInt_lt.1 hraise
      have hpos : ¬ msg.cancel.quantity ≤ 0 := by
        rw [Int32.nonpos_iff_toInt]
        omega
      rw [if_pos hraise, if_neg hpos]
      have hsums := h.sums_iff_of_pos (.of r.side) r.price (msg.cancel.quantity - r.quantity) 0 (by omega)
        (by decide)
      rw [hsub] at hsums
      simpa [hdiff] using hsums
    · -- quantity is taken off the level
      rw [if_neg hraise]
      rw [Int32.lt_iff_toInt_lt] at hraise
      have hsums := h.sums_of_nonpos (.of r.side) r.price (msg.cancel.quantity - r.quantity)
        (if msg.cancel.quantity ≤ 0 then -1 else 0) (by omega) (by split <;> simp)
      refine iff_of_true ?_ (by simp)
      rw [List.forall_mem_cons]
      exact ⟨hdiff, hsums⟩
  · rw [OrderTable.liveOrder_of_dead hdead]
    cases hl : book.orderTable.lookup msg.orderId with
    | none => simp
    | some i => simp [hdead i hl]

/-- A fill adds nothing. -/
theorem noOverflow_execute (h : book.Sound) (hv : msg.isValid = true) (hE : msg.msgType = 'E'.toUInt8) :
    NoOverflow book msg := by
  have he := (WireMessage.isValid_exec hv hE).1
  have he' := (Int32.pos_iff_toInt _).1 he
  have helt := msg.exec.execQuantity.toInt_lt
  unfold NoOverflow arithmetic executeArithmetic
  rw [if_neg (by rw [hE]; decide), if_neg (by rw [hE]; decide), if_pos hE]
  have hid : msg.exec.orderId = msg.orderId := rfl
  rw [hid]
  rcases live_or_dead book.orderTable msg.orderId with ⟨i, hl, hc⟩ | hdead
  · rw [hl]
    dsimp only
    rw [hc]
    generalize book.orderTable.table.get i = r
    have hneg := Int32.toInt_neg_of_pos he'
    have hrlt := r.quantity.toInt_lt
    have hsums := h.sums_of_nonpos (.of r.side) r.price (-msg.exec.execQuantity)
      (if r.newQty msg.exec.execQuantity = 0 then -1 else 0) (by omega) (by split <;> simp)
    rw [if_neg (by decide), List.forall_mem_append, List.forall_mem_cons]
    refine ⟨?_, ⟨by omega, by omega⟩, hsums⟩
    split
    · rename_i hlt
      rw [gt_iff_lt, Int32.lt_iff_toInt_lt] at hlt
      rw [List.forall_mem_singleton]
      exact ⟨by omega, by omega⟩
    · simp
  · cases hl : book.orderTable.lookup msg.orderId with
    | none => simp
    | some i => simp [hdead i hl]

theorem noOverflow_iff (h : book.Sound) (hv : msg.isValid = true) : NoOverflow book msg ↔ Fits book msg := by
  by_cases hA : msg.msgType = 'A'.toUInt8
  · exact noOverflow_iff_add h hv hA
  by_cases hX : msg.msgType = 'X'.toUInt8
  · exact noOverflow_iff_cancel h hv hX
  have hadds : book.adds msg = none := by
    unfold adds
    rw [if_neg hA, if_neg hX]
  have hfits : Fits book msg := by
    intro a ha
    rw [hadds] at ha
    cases ha
  by_cases hE : msg.msgType = 'E'.toUInt8
  · exact iff_of_true (noOverflow_execute h hv hE) hfits
  · refine iff_of_true ?_ hfits
    unfold NoOverflow arithmetic
    rw [if_neg hA, if_neg hX, if_neg hE]
    intro x hx
    cases hx

/-! ### Every run -/

/-- A run of valid messages is free of overflow exactly when every quantity and order that it adds fits into the level
shown at its price. -/
theorem no_overflow_iff_fits (Depth : Nat) (TableCapacity : Pow2) {msgs : List WireMessage}
    (h : ∀ m ∈ msgs, m.isValid = true) :
    Runs.Along processMessage NoOverflow (reset Depth TableCapacity) msgs ↔
      Runs.Along processMessage Fits (reset Depth TableCapacity) msgs := by
  have hvalid : Runs.Along processMessage (fun _ m => m.isValid = true) (reset Depth TableCapacity) msgs :=
    Runs.along_iff_forall.2 h
  exact hvalid.congr (fun _ _ hsound hv => Sound.step hsound hv) (fun _ _ => noOverflow_iff)
    (sound_reset Depth TableCapacity)

/-- An order is raised, another one is added to its level, and the first one is filled. -/
theorem no_overflow_iff_fits_raised :
    Runs.Along processMessage NoOverflow (reset 1 ⟨4, by decide, by decide⟩)
        [.ofAdd ⟨'A'.toUInt8, 1, 0, 1, 'B'.toUInt8, 100, 5⟩, .ofCancel ⟨'X'.toUInt8, 2, 0, 1, 2147483000⟩,
          .ofAdd ⟨'A'.toUInt8, 3, 0, 2, 'B'.toUInt8, 100, 647⟩, .ofExec ⟨'E'.toUInt8, 4, 0, 1, 2147483647, 100⟩] ↔
      Runs.Along processMessage Fits (reset 1 ⟨4, by decide, by decide⟩)
        [.ofAdd ⟨'A'.toUInt8, 1, 0, 1, 'B'.toUInt8, 100, 5⟩, .ofCancel ⟨'X'.toUInt8, 2, 0, 1, 2147483000⟩,
          .ofAdd ⟨'A'.toUInt8, 3, 0, 2, 'B'.toUInt8, 100, 647⟩, .ofExec ⟨'E'.toUInt8, 4, 0, 1, 2147483647, 100⟩] :=
  no_overflow_iff_fits 1 _ (by decide)

/-- Two orders of the largest quantity at one price. -/
theorem level_quantity_overflows :
    ¬ ∀ (Depth : Nat) (TableCapacity : Pow2) (msgs : List WireMessage), (∀ m ∈ msgs, m.isValid = true) →
      Runs.Along processMessage NoOverflow (reset Depth TableCapacity) msgs := by
  intro h
  have hrun := h 1 ⟨4, by decide, by decide⟩
    [.ofAdd ⟨'A'.toUInt8, 1, 0, 1, 'B'.toUInt8, 100, 2147483647⟩,
      .ofAdd ⟨'A'.toUInt8, 2, 0, 2, 'B'.toUInt8, 100, 2147483647⟩] (by decide)
  exact absurd hrun (by decide)

end LimitOrderBook

end FeedHandler
