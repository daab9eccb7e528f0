import FeedHandler.Protocol

/-!
# The validating parser (`parser_validator.hpp`)

`validateAndParse` looks at a buffer of `bytesReceived` bytes (a list here; the pointer is not null) and copies the
bytes of one message out of it.
-/

namespace FeedHandler

namespace WireParserValidator

inductive ValidationResult where
  | Valid
  | TruncatedHeader
  | UnknownMessageType
  | LengthMismatch
  | InvalidSide
  | InvalidPrice
  | InvalidQuantity
  | SequenceOutOfOrder
deriving DecidableEq, Repr

/-- The field value invariant checks, on the message copied. -/
def checkFields (msgType : UInt8) (outMsg : WireMessage) : ValidationResult :=
  if msgType = 'A'.toUInt8 then
    if outMsg.add.side ≠ 'B'.toUInt8 ∧ outMsg.add.side ≠ 'S'.toUInt8 then .InvalidSide
    else if outMsg.add.price ≤ 0 then .InvalidPrice
    else if outMsg.add.quantity ≤ 0 then .InvalidQuantity
    else .Valid
  else if msgType = 'X'.toUInt8 then
    if outMsg.cancel.quantity < 0 then .InvalidQuantity
    else .Valid
  else if msgType = 'E'.toUInt8 then
    if outMsg.exec.execQuantity ≤ 0 then .InvalidQuantity
    else if outMsg.exec.matchPrice ≤ 0 then .InvalidPrice
    else .Valid
  else
    .UnknownMessageType

/-- Validates raw buffer memory bounds and message payload; the result, and `outMsg`. -/
def validateAndParse (buffer : List UInt8) (outMsg : WireMessage) : ValidationResult × WireMessage :=
  match buffer with
  | [] => (.TruncatedHeader, outMsg)
  | msgType :: _ =>
    let reqSize := WireMessage.expectedSize msgType
    if reqSize = 0 then
      (.UnknownMessageType, outMsg)
    else if buffer.length < reqSize then
      (.LengthMismatch, outMsg)
    else
      let outMsg := outMsg.memcpy (buffer.take reqSize)
      (checkFields msgType outMsg, outMsg)

/-- `outMsg`, if the result is `Valid`. -/
def accepted : ValidationResult × WireMessage → Option WireMessage
  | (.Valid, outMsg) => some outMsg
  | _ => none

/-- The message parsed into a fresh `WireMessage{}`, if the buffer is accepted. -/
def parse (buffer : List UInt8) : Option WireMessage := accepted (validateAndParse buffer .zero)

theorem accepted_eq_some (result : ValidationResult) (outMsg m : WireMessage) :
    accepted (result, outMsg) = some m ↔ result = .Valid ∧ outMsg = m := by
  cases result <;> simp [accepted]

@[simp] theorem parse_nil : parse [] = none := rfl

/-- A buffer is accepted when it is long enough for a message of a known type with valid fields; the bytes of that
message are copied. -/
theorem parse_cons (msgType : UInt8) (rest : List UInt8) (m : WireMessage) :
    parse (msgType :: rest) = some m ↔
      WireMessage.expectedSize msgType ≠ 0 ∧ WireMessage.expectedSize msgType ≤ (msgType :: rest).length ∧
        checkFields msgType m = .Valid ∧
        m = WireMessage.zero.memcpy ((msgType :: rest).take (WireMessage.expectedSize msgType)) := by
  unfold parse validateAndParse
  dsimp only
  by_cases hknown : WireMessage.expectedSize msgType = 0
  · rw [if_pos hknown, accepted_eq_some]
    simp [hknown]
  rw [if_neg hknown]
  by_cases hlen : (msgType :: rest).length < WireMessage.expectedSize msgType
  · rw [if_pos hlen, accepted_eq_some]
    have hnot : ¬ WireMessage.expectedSize msgType ≤ (msgType :: rest).length := by omega
    exact iff_of_false (fun h => nomatch h.1) fun h => hnot h.2.1
  rw [if_neg hlen, accepted_eq_some]
  constructor
  · rintro ⟨hvalid, rfl⟩
    exact ⟨hknown, by omega, hvalid, rfl⟩
  · rintro ⟨-, -, hvalid, rfl⟩
    exact ⟨hvalid, rfl⟩

end WireParserValidator

end FeedHandler
