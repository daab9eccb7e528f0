import FeedHandler.Bridge.RoundTrip

/-!
# Accepted orders in the engine

The bridge checks the values of an order before it prints them, and those of an Add only; the engine checks what it
reads, and executions too.  Which accepted orders the engine discards is a matter of the price rounded to hundredths and
of the low 32 bits (`isSome_parseUserLine_iff`).
-/

namespace FeedHandler

open Cstdlib Python StreamServer WireParserValidator

namespace Bridge

namespace Order

/-- The order is read from the values of the command, or from their defaults. -/
def Of (py : Runtime) (data : Command) (o : Order) : Prop :=
  o.ReadFrom py (data.type.getD (.str ['A'])) (data.orderId.getD (.int 1)) (data.side.getD (.str ['B']))
    (data.price.getD (.float (.finite false 100))) (data.qty.getD (.int 100))

/-- A quantity that is positive for the engine: one of 64 bits with positive low bits. -/
def QtyKept (qty : Int) : Prop := (-2 ^ 63 ≤ qty ∧ qty < 2 ^ 63) ∧ Int32.LowPositive qty

/-- A price that is positive for the engine: a number whose hundredths, rounded, have positive low bits, or are more
than `llround` can return. -/
def PriceKept (unspecified : List Char → Int64) (price : Double) : Prop :=
  match hundredths price with
  | none => False
  | some c => if -2 ^ 63 ≤ c ∧ c < 2 ^ 63 then Int32.LowPositive c else 0 < (unspecified price.fixed2).toInt32

/-- A cancel is always kept. -/
def Kept (unspecified : List Char → Int64) : Order → Prop
  | .add _ _ price qty => PriceKept unspecified price ∧ QtyKept qty
  | .cancel .. => True
  | .execute _ _ qty => QtyKept qty

theorem ticks_pos_iff (unspecified : List Char → Int64) (price : Double) :
    0 < ticks unspecified price ↔ PriceKept unspecified price := by
  have hmin : Int64.minValue.toInt = -2 ^ 63 := rfl
  have hmax : Int64.maxValue.toInt = 2 ^ 63 - 1 := rfl
  unfold ticks PriceKept
  cases hundredths price with
  | none =>
    have hzero : ¬ (0 : Int32) < 0 := by decide
    exact iff_of_false hzero id
  | some c =>
    dsimp only
    by_cases hrange : -2 ^ 63 ≤ c ∧ c < 2 ^ 63
    · rw [if_pos (by omega), if_pos hrange, Int64.toInt32_ofInt, Int32.ofInt_pos_iff]
    · rw [if_neg (by omega), if_neg hrange]

theorem fits_iff_kept (unspecified : List Char → Int64) (o : Order) : o.Fits unspecified ↔ o.Kept unspecified := by
  cases o with
  | add id side price qty => exact and_congr (ticks_pos_iff unspecified price) (Int32.ofIntClamp_pos_iff qty)
  | cancel id qty => exact Iff.rfl
  | execute id price qty => exact Int32.ofIntClamp_pos_iff qty

end Order

/-- The engine accepts the line of an accepted order exactly when the order is kept. -/
theorem isSome_parseUserLine_iff (py : Runtime) (unspecified : List Char → Int64) (seqNo nowNs : UInt64)
    {data : Command} {out err : Str} (hcmd : commandName py data = "ORDER".toList)
    (h : sanitizeAndRouteCommand py data = .ok (true, out, err)) :
    ∃ o : Order, o.Of py data ∧ (getlines out).map command = [.parseUserLine o.line] ∧
      ((parseUserLine (llroundHundredths unspecified) o.line seqNo nowNs).isSome = true ↔ o.Kept unspecified) := by
  have hroute : routeOrder py data = (true, out, err) := by
    unfold sanitizeAndRouteCommand at h
    dsimp only at h
    rw [hcmd] at h
    exact Except.ok.inj h
  unfold routeOrder at hroute
  split at hroute
  · rename_i cmdStr horder
    obtain rfl := accept_ok hroute
    obtain ⟨o, hread, rfl⟩ := exists_readFrom horder
    refine ⟨o, hread, ?_, ?_⟩
    · rw [getlines_newline, List.splitOn_eq_singleton o.newline_line, List.map_singleton, o.command_line]
    · rw [← o.fits_iff_kept, Option.isSome_iff_exists]
      simp only [o.parseUserLine_line_iff, exists_and_left, exists_eq, and_true]
  · cases hroute

theorem isSome_parseUserLine_order_iff :
    ∃ o : Order,
      o.Of ascii { command := some (.str "ORDER".toList), price := some (.float (.finite false (451 / 2))) } ∧
      (getlines "A,1,B,225.50,100\n".toList).map command = [.parseUserLine o.line] ∧
      ((parseUserLine (llroundHundredths fun _ => 0) o.line 7 0).isSome = true ↔ o.Kept fun _ => 0) := by
  have hok : sanitizeAndRouteCommand ascii
      { command := some (.str "ORDER".toList), price := some (.float (.finite false (451 / 2))) } =
        .ok (true, "A,1,B,225.50,100\n".toList, []) := by decide +kernel
  exact isSome_parseUserLine_iff ascii (fun _ => 0) 7 0 (by decide) hok

/-- An Add at a price that is printed as `0.00`, and an execution with quantity zero. -/
theorem accepted_order_discarded :
    (sanitizeAndRouteCommand ascii
        { command := some (.str "ORDER".toList), price := some (.float (.finite false (1 / 1000))) } =
        .ok (true, "A,1,B,0.00,100\n".toList, []) ∧
      parseUserLine (llroundHundredths fun _ => 0) "A,1,B,0.00,100".toList 7 0 = none) ∧
    sanitizeAndRouteCommand ascii
        { command := some (.str "ORDER".toList), type := some (.str ['E']), qty := some (.int 0) } =
        .ok (true, "E,1,0,100.00,0\n".toList, []) ∧
      parseUserLine (llroundHundredths fun _ => 0) "E,1,0,100.00,0".toList 7 0 = none :=
  ⟨⟨by decide +kernel, by decide +kernel⟩, by decide +kernel, by decide +kernel⟩

end Bridge

end FeedHandler
