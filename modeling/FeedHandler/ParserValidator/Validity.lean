import FeedHandler.ParserValidator.UserLine

/-!
# Text orders against `isValid`

The text parser checks an Add as `WireMessage::isValid` does.  It lets a cancel with a negative quantity and an
execution without a positive price through (`isValid_parseUserLine_iff`).
-/

namespace FeedHandler

open Cstdlib

namespace WireParserValidator

/-- A cancel whose quantity column is read as a negative number. -/
def NegativeCancel (line : List Char) : Prop :=
  match lineColumns line with
  | some (.cancel _ (some newQty)) => strtolInt32 newQty < 0
  | _ => False

/-- An execution whose price column is read as zero or less. -/
def UnpricedExecute (hundredths : List Char → Int64) (line : List Char) : Prop :=
  match lineColumns line with
  | some (.execute _ matchPrice _) => parsePriceTicks hundredths matchPrice ≤ 0
  | _ => False

instance (line : List Char) : Decidable (NegativeCancel line) := by
  unfold NegativeCancel
  split <;> infer_instance

instance (hundredths : List Char → Int64) (line : List Char) : Decidable (UnpricedExecute hundredths line) := by
  unfold UnpricedExecute
  split <;> infer_instance

/-! ### Each kind of message -/

theorem isValid_ofAdd (seqNo timestampNs orderId : UInt64) {side : UInt8}
    (hside : side = 'B'.toUInt8 ∨ side = 'S'.toUInt8) {price quantity : Int32} (hprice : 0 < price)
    (hquantity : 0 < quantity) :
    (WireMessage.ofAdd ⟨'A'.toUInt8, seqNo, timestampNs, orderId, side, price, quantity⟩).isValid = true := by
  unfold WireMessage.isValid
  rw [WireMessage.msgType_ofAdd, WireMessage.add_ofAdd, if_pos rfl]
  simpa [hprice, hquantity] using hside

theorem isValid_ofCancel_iff (seqNo timestampNs orderId : UInt64) (quantity : Int32) :
    (WireMessage.ofCancel ⟨'X'.toUInt8, seqNo, timestampNs, orderId, quantity⟩).isValid = true ↔ 0 ≤ quantity := by
  unfold WireMessage.isValid
  rw [WireMessage.msgType_ofCancel, WireMessage.cancel_ofCancel, if_neg WireMessage.cancelType_ne_addType, if_pos rfl,
    decide_eq_true_eq]

theorem isValid_ofExec_iff (seqNo timestampNs orderId : UInt64) {execQuantity : Int32} (hquantity : 0 < execQuantity)
    (matchPrice : Int32) :
    (WireMessage.ofExec ⟨'E'.toUInt8, seqNo, timestampNs, orderId, execQuantity, matchPrice⟩).isValid = true ↔
      0 < matchPrice := by
  unfold WireMessage.isValid
  rw [WireMessage.msgType_ofExec, WireMessage.exec_ofExec, if_neg WireMessage.execType_ne_addType,
    if_neg WireMessage.execType_ne_cancelType, if_pos rfl]
  simp [hquantity]

/-! ### Accepted lines -/

/-- The message of an accepted line is valid, unless it is a cancel with a negative quantity or an execution without a
positive price. -/
theorem isValid_parseUserLine_iff {hundredths : List Char → Int64} {line : List Char} {seqNo nowNs : UInt64}
    {m : WireMessage} (h : parseUserLine hundredths line seqNo nowNs = some m) :
    m.isValid = true ↔ ¬ NegativeCancel line ∧ ¬ UnpricedExecute hundredths line := by
  obtain ⟨cols, hcols, hmessage⟩ := parseUserLine_eq_some.1 h
  unfold NegativeCancel UnpricedExecute
  rw [hcols]
  cases cols with
  | add orderId side price qty =>
    obtain ⟨⟨hside, hprice, hqty⟩, rfl⟩ := message_add.1 hmessage
    have hbyte : (upperFirst side).toUInt8 = 'B'.toUInt8 ∨ (upperFirst side).toUInt8 = 'S'.toUInt8 := by
      rcases hside with hside | hside <;> simp [hside]
    simp [isValid_ofAdd seqNo nowNs _ hbyte hprice hqty]
  | cancel orderId newQty =>
    obtain rfl := message_cancel.1 hmessage
    rw [isValid_ofCancel_iff]
    cases newQty with
    | none => simp
    | some newQty => simp [Int32.not_lt]
  | execute orderId matchPrice execQty =>
    obtain ⟨hqty, rfl⟩ := message_execute.1 hmessage
    rw [isValid_ofExec_iff _ _ _ hqty]
    simp [Int32.not_le]

theorem isValid_parseUserLine_add_iff :
    (WireMessage.ofAdd ⟨'A'.toUInt8, 7, 0, 1001, 'B'.toUInt8, 22495, 500⟩).isValid = true ↔
      ¬ NegativeCancel "A,1001,B,224.95,500".toList ∧
        ¬ UnpricedExecute (llroundHundredths fun _ => 0) "A,1001,B,224.95,500".toList :=
  isValid_parseUserLine_iff (show parseUserLine _ _ 7 0 = _ by decide +kernel)

/-- A cancel to -5 and an execution at price 0. -/
theorem accepted_not_valid :
    (parseUserLine (llroundHundredths fun _ => 0) "X,1,-5".toList 7 0).any (!·.isValid) = true ∧
      (parseUserLine (llroundHundredths fun _ => 0) "E,1,0,0,5".toList 7 0).any (!·.isValid) = true := by
  decide +kernel

end WireParserValidator

end FeedHandler
