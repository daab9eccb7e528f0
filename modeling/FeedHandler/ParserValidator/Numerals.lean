import FeedHandler.ParserValidator.UserLine

/-!
# The numbers in text orders

The text parser reads as much of a number as it finds and narrows it.  Each integer field of an accepted line is the
number that is written in its column exactly when the columns are complete numerals that fit (`asWritten_iff`).
-/

namespace FeedHandler

open Cstdlib Numeral StreamServer

namespace WireParserValidator

/-- A complete decimal numeral of a `uint64_t`. -/
def FitsUInt64 (token : List Char) : Prop := ∃ v ∈ value token, 0 ≤ v ∧ v < UInt64.size

/-- A complete decimal numeral of an `int32_t`. -/
def FitsInt32 (token : List Char) : Prop := ∃ v ∈ value token, Int32.InRange v

instance (token : List Char) : Decidable (FitsUInt64 token) := inferInstanceAs (Decidable (∃ v ∈ value token, _))

instance (token : List Char) : Decidable (FitsInt32 token) := inferInstanceAs (Decidable (∃ v ∈ value token, _))

namespace Columns

/-- The integer fields of the message are the numbers written in the columns; a price with a point is no integer. -/
def AsWritten (m : WireMessage) : Columns → Prop
  | .add orderId _ price qty =>
    value orderId = some (m.add.orderId.toNat : Int) ∧ ('.' ∉ price → value price = some m.add.price.toInt) ∧
      value qty = some m.add.quantity.toInt
  | .cancel orderId newQty =>
    value orderId = some (m.cancel.orderId.toNat : Int) ∧ ∀ q ∈ newQty, value q = some m.cancel.quantity.toInt
  | .execute orderId matchPrice execQty =>
    value orderId = some (m.exec.orderId.toNat : Int) ∧
      ('.' ∉ matchPrice → value matchPrice = some m.exec.matchPrice.toInt) ∧
      value execQty = some m.exec.execQuantity.toInt

/-- The columns are complete numerals that fit their fields. -/
def Complete : Columns → Prop
  | .add orderId _ price qty => FitsUInt64 orderId ∧ ('.' ∉ price → FitsInt32 price) ∧ FitsInt32 qty
  | .cancel orderId newQty => FitsUInt64 orderId ∧ ∀ q ∈ newQty, FitsInt32 q
  | .execute orderId matchPrice execQty =>
    FitsUInt64 orderId ∧ ('.' ∉ matchPrice → FitsInt32 matchPrice) ∧ FitsInt32 execQty

instance : (cols : Columns) → Decidable cols.Complete
  | .add .. => inferInstanceAs (Decidable (_ ∧ _ ∧ _))
  | .cancel .. => inferInstanceAs (Decidable (_ ∧ _))
  | .execute .. => inferInstanceAs (Decidable (_ ∧ _ ∧ _))

end Columns

theorem value_strtoull_iff (token : List Char) :
    value token = some ((strtoull token).toNat : Int) ↔ FitsUInt64 token := by
  constructor
  · intro h
    exact ⟨_, h, (strtoull_eq_iff h).1 rfl⟩
  · rintro ⟨v, h, hv⟩
    rw [(strtoull_eq_iff h).2 hv]
    exact h

theorem value_strtolInt32_iff (token : List Char) :
    value token = some (strtolInt32 token).toInt ↔ FitsInt32 token := by
  constructor
  · intro h
    exact ⟨_, h, (strtolInt32_eq_iff h).1 rfl⟩
  · rintro ⟨v, h, hv⟩
    rw [(strtolInt32_eq_iff h).2 hv]
    exact h

/-- A price without a point. -/
theorem value_parsePriceTicks_iff (hundredths : List Char → Int64) (token : List Char) :
    ('.' ∉ token → value token = some (parsePriceTicks hundredths token).toInt) ↔ ('.' ∉ token → FitsInt32 token) := by
  apply imp_congr_right
  intro hpoint
  unfold parsePriceTicks
  rw [if_neg hpoint]
  exact value_strtolInt32_iff token

/-- The integer fields of an accepted line are the numbers written in it exactly when these are complete numerals that
fit. -/
theorem asWritten_iff {hundredths : List Char → Int64} {line : List Char} {seqNo nowNs : UInt64} {m : WireMessage}
    (h : parseUserLine hundredths line seqNo nowNs = some m) {cols : Columns} (hcols : lineColumns line = some cols) :
    cols.AsWritten m ↔ cols.Complete := by
  obtain ⟨cols', hcols', hmessage⟩ := parseUserLine_eq_some.1 h
  obtain rfl : cols = cols' := Option.some.inj (hcols.symm.trans hcols')
  cases cols with
  | add orderId side price qty =>
    obtain ⟨-, rfl⟩ := message_add.1 hmessage
    unfold Columns.AsWritten Columns.Complete
    rw [WireMessage.add_ofAdd]
    exact and_congr (value_strtoull_iff orderId)
      (and_congr (value_parsePriceTicks_iff hundredths price) (value_strtolInt32_iff qty))
  | cancel orderId newQty =>
    obtain rfl := message_cancel.1 hmessage
    unfold Columns.AsWritten Columns.Complete
    rw [WireMessage.cancel_ofCancel]
    refine and_congr (value_strtoull_iff orderId) (forall_congr' fun q => forall_congr' fun hq => ?_)
    obtain rfl : newQty = some q := hq
    exact value_strtolInt32_iff q
  | execute orderId matchPrice execQty =>
    obtain ⟨-, rfl⟩ := message_execute.1 hmessage
    unfold Columns.AsWritten Columns.Complete
    rw [WireMessage.exec_ofExec]
    exact and_congr (value_strtoull_iff orderId)
      (and_congr (value_parsePriceTicks_iff hundredths matchPrice) (value_strtolInt32_iff execQty))

theorem asWritten_signed_iff :
    (Columns.add "1001".toList "B".toList "22495".toList "+500".toList).AsWritten
        (.ofAdd ⟨'A'.toUInt8, 7, 0, 1001, 'B'.toUInt8, 22495, 500⟩) ↔
      (Columns.add "1001".toList "B".toList "22495".toList "+500".toList).Complete :=
  asWritten_iff (show parseUserLine (fun _ => 0) "A 1001 B 22495 +500".toList 7 0 = _ by decide) (by decide)

/-- An id that ends in letters, and a quantity of 2^32 + 5. -/
theorem misread_accepted :
    (lineColumns "A,12abc,B,100,5".toList =
        some (.add "12abc".toList "B".toList "100".toList "5".toList) ∧
      parseUserLine (fun _ => 0) "A,12abc,B,100,5".toList 7 0 =
        some (.ofAdd ⟨'A'.toUInt8, 7, 0, 12, 'B'.toUInt8, 100, 5⟩) ∧ value "12abc".toList = none) ∧
    lineColumns "A,1,B,100,4294967301".toList =
        some (.add "1".toList "B".toList "100".toList "4294967301".toList) ∧
      parseUserLine (fun _ => 0) "A,1,B,100,4294967301".toList 7 0 =
        some (.ofAdd ⟨'A'.toUInt8, 7, 0, 1, 'B'.toUInt8, 100, 5⟩) ∧
      value "4294967301".toList = some 4294967301 := by
  decide

end WireParserValidator

end FeedHandler
