import FeedHandler.ParserValidator.Basic

/-!
# The wire parser and `WireMessage::isValid`

The fields of a message lie in the first `expectedSize` bytes of its type, so two messages with these bytes in common
have the same fields (`sameFields_of_take`).  `validateAndParse` therefore accepts a buffer exactly when its first bytes
are those of a valid message, and reads nothing else (`wire_parser_correct`).
-/

namespace FeedHandler

namespace WireMessage

/-- The bytes of a message that belong to its type. -/
def wireBytes (m : WireMessage) : List UInt8 := m.bytes.toList.take (expectedSize m.msgType)

/-- The same message, whatever lies in the bytes behind its type's own. -/
structure SameFields (m m' : WireMessage) : Prop where
  msgType : m.msgType = m'.msgType
  add : m.msgType = 'A'.toUInt8 → m.add = m'.add
  cancel : m.msgType = 'X'.toUInt8 → m.cancel = m'.cancel
  exec : m.msgType = 'E'.toUInt8 → m.exec = m'.exec

theorem expectedSize_add : expectedSize 'A'.toUInt8 = 34 := rfl
theorem expectedSize_cancel : expectedSize 'X'.toUInt8 = 29 := rfl
theorem expectedSize_exec : expectedSize 'E'.toUInt8 = 33 := rfl

theorem expectedSize_ne_zero_iff (type : UInt8) :
    expectedSize type ≠ 0 ↔ type = 'A'.toUInt8 ∨ type = 'X'.toUInt8 ∨ type = 'E'.toUInt8 := by
  unfold expectedSize
  split_ifs with hA hX hE <;> simp [*]

section

variable {m m' : WireMessage} {n : Nat}

theorem field_congr (h : m.bytes.toList.take n = m'.bytes.toList.take n) {off len : Nat} (hn : off + len ≤ n) :
    m.field off len = m'.field off len := by
  have hpart (v : WireMessage) : (v.bytes.toList.drop off).take len =
      ((v.bytes.toList.take n).drop off).take len := by
    rw [List.drop_take, List.take_take, Nat.min_eq_left (by omega)]
  rw [field, field, hpart, h, ← hpart]

theorem u64_congr (h : m.bytes.toList.take n = m'.bytes.toList.take n) {off : Nat} (hn : off + 8 ≤ n) :
    m.u64 off = m'.u64 off := by
  rw [u64, u64, field_congr h hn]

theorem i32_congr (h : m.bytes.toList.take n = m'.bytes.toList.take n) {off : Nat} (hn : off + 4 ≤ n) :
    m.i32 off = m'.i32 off := by
  rw [i32, i32, field_congr h hn]

theorem byte_congr (h : m.bytes.toList.take n = m'.bytes.toList.take n) {i : Nat} (hi : i < 34) (hn : i < n) :
    m.bytes[i] = m'.bytes[i] := by
  have hget := congrArg (·[i]?) h
  simpa [hi, hn] using hget

theorem sameFields_of_take (hknown : expectedSize m.msgType ≠ 0)
    (h : m.bytes.toList.take (expectedSize m.msgType) = m'.bytes.toList.take (expectedSize m.msgType)) :
    SameFields m m' := by
  have htype : m.msgType = m'.msgType := byte_congr h (i := 0) (by decide) (by omega)
  refine ⟨htype, fun hA => ?_, fun hX => ?_, fun hE => ?_⟩
  · rw [hA, expectedSize_add] at h
    unfold WireMessage.add
    rw [byte_congr h (i := 0) (by decide) (by decide), byte_congr h (i := 25) (by decide) (by decide),
      u64_congr h (by decide), u64_congr h (by decide), u64_congr h (by decide), i32_congr h (by decide),
      i32_congr h (by decide)]
  · rw [hX, expectedSize_cancel] at h
    unfold WireMessage.cancel
    rw [byte_congr h (i := 0) (by decide) (by decide), u64_congr h (by decide), u64_congr h (by decide),
      u64_congr h (by decide), i32_congr h (by decide)]
  · rw [hE, expectedSize_exec] at h
    unfold WireMessage.exec
    rw [byte_congr h (i := 0) (by decide) (by decide), u64_congr h (by decide), u64_congr h (by decide),
      u64_congr h (by decide), i32_congr h (by decide), i32_congr h (by decide)]

/-- Validity is a matter of the fields. -/
theorem SameFields.isValid_eq (h : SameFields m m') : m.isValid = m'.isValid := by
  have htype := h.msgType
  unfold isValid
  rw [← htype]
  split
  · rename_i hA
    rw [h.add hA]
  · split
    · rename_i hX
      rw [h.cancel hX]
    · split
      · rename_i hE
        rw [h.exec hE]
      · rfl

/-- A valid message has one of the three types. -/
theorem expectedSize_of_isValid (h : m.isValid = true) : expectedSize m.msgType ≠ 0 := by
  rw [expectedSize_ne_zero_iff]
  unfold isValid at h
  split_ifs at h with hA hX hE
  · exact Or.inl hA
  · exact Or.inr (Or.inl hX)
  · exact Or.inr (Or.inr hE)

theorem length_wireBytes (m : WireMessage) : m.wireBytes.length = expectedSize m.msgType := by
  have hle := expectedSize_le m.msgType
  simpa [wireBytes] using hle

/-- The first byte is the type. -/
theorem exists_wireBytes_eq (hknown : expectedSize m.msgType ≠ 0) : ∃ rest, m.wireBytes = m.msgType :: rest := by
  have hlen := length_wireBytes m
  obtain ⟨c, rest, hcons⟩ := List.exists_cons_of_length_pos (by omega : 0 < m.wireBytes.length)
  have hhead : m.wireBytes[0]? = some m.msgType := by
    have hpos : 0 < expectedSize m.msgType := by omega
    rw [wireBytes, List.getElem?_take, if_pos hpos]
    simp [msgType]
  rw [hcons] at hhead
  obtain rfl : c = m.msgType := Option.some.inj hhead
  exact ⟨rest, hcons⟩

end

end WireMessage

namespace WireParserValidator

open WireMessage

/-! ### Acceptance -/

/-- The field checks are those of `isValid`. -/
theorem checkFields_iff (m : WireMessage) : checkFields m.msgType m = .Valid ↔ m.isValid = true := by
  unfold checkFields isValid
  split_ifs with hA hside hprice hqty hX hqty' hE hexec hmatch
  · simp [hside]
  · simp [Int32.not_lt.2 hprice]
  · simp [Int32.not_lt.2 hqty]
  · rw [Classical.not_and_iff_not_or_not, not_not, not_not] at hside
    simp [hside, Int32.not_le.1 hprice, Int32.not_le.1 hqty]
  · simp [Int32.not_le.2 hqty']
  · simp [Int32.not_lt.1 hqty']
  · simp [Int32.not_lt.2 hexec]
  · simp [Int32.not_lt.2 hmatch]
  · simp [Int32.not_le.1 hexec, Int32.not_le.1 hmatch]
  · simp

/-- The buffer read as a message, with zeros behind its end. -/
def decoded (buffer : List UInt8) : WireMessage := WireMessage.zero.memcpy buffer

/-- The result on a buffer that is long enough for its type. -/
theorem validateAndParse_of_le {msgType : UInt8} {rest : List UInt8} (hknown : expectedSize msgType ≠ 0)
    (hlen : expectedSize msgType ≤ (msgType :: rest).length) (outMsg : WireMessage) :
    validateAndParse (msgType :: rest) outMsg =
      (checkFields msgType (outMsg.memcpy ((msgType :: rest).take (expectedSize msgType))),
        outMsg.memcpy ((msgType :: rest).take (expectedSize msgType))) := by
  unfold validateAndParse
  simp only [hknown, if_false, not_lt.2 hlen]

private theorem msgType_memcpy (m : WireMessage) {msgType : UInt8} (rest : List UInt8)
    (hknown : expectedSize msgType ≠ 0) :
    (m.memcpy ((msgType :: rest).take (expectedSize msgType))).msgType = msgType := by
  obtain ⟨n, hn⟩ := Nat.exists_eq_succ_of_ne_zero hknown
  unfold WireMessage.msgType
  rw [getElem_memcpy, hn]
  rfl

private theorem take_memcpy_take (m : WireMessage) {bytes : List UInt8} {n : Nat} (h : n ≤ 34) (hn : n ≤ bytes.length) :
    (m.memcpy (bytes.take n)).bytes.toList.take n = bytes.take n := by
  rw [take_memcpy m h (by rw [List.length_take]; omega), List.take_take, Nat.min_self]

/-- What is copied has the fields of the buffer. -/
theorem sameFields_decoded {msgType : UInt8} {rest : List UInt8} (hknown : expectedSize msgType ≠ 0)
    (hlen : expectedSize msgType ≤ (msgType :: rest).length) (outMsg : WireMessage) :
    SameFields (outMsg.memcpy ((msgType :: rest).take (expectedSize msgType))) (decoded (msgType :: rest)) := by
  have hle := expectedSize_le msgType
  refine sameFields_of_take ?_ ?_
  · rwa [msgType_memcpy outMsg rest hknown]
  · rw [msgType_memcpy outMsg rest hknown, take_memcpy_take outMsg hle hlen, decoded, take_memcpy _ hle hlen]

theorem valid_iff (buffer : List UInt8) (outMsg : WireMessage) :
    (validateAndParse buffer outMsg).1 = .Valid ↔
      ∃ msgType ∈ buffer.head?, msgType ∈ ['A'.toUInt8, 'X'.toUInt8, 'E'.toUInt8] ∧
        expectedSize msgType ≤ buffer.length ∧ (decoded buffer).isValid = true := by
  cases buffer with
  | nil => simp [validateAndParse]
  | cons msgType rest =>
    have hmem : msgType ∈ ['A'.toUInt8, 'X'.toUInt8, 'E'.toUInt8] ↔ expectedSize msgType ≠ 0 := by
      rw [expectedSize_ne_zero_iff]
      simp
    by_cases hknown : expectedSize msgType ≠ 0
    · by_cases hlen : expectedSize msgType ≤ (msgType :: rest).length
      · have htype := msgType_memcpy outMsg rest hknown
        have hcheck := checkFields_iff (outMsg.memcpy ((msgType :: rest).take (expectedSize msgType)))
        rw [htype, (sameFields_decoded hknown hlen outMsg).isValid_eq] at hcheck
        rw [validateAndParse_of_le hknown hlen, hcheck]
        simp only [List.head?_cons, Option.mem_some_iff, exists_eq_left', hmem]
        exact ⟨fun h => ⟨hknown, hlen, h⟩, fun h => h.2.2⟩
      · refine iff_of_false ?_ ?_
        · have hzero : ¬ expectedSize msgType = 0 := hknown
          unfold validateAndParse
          simp only [hzero, if_false, not_le.1 hlen, if_true]
          decide
        · rintro ⟨c, hc, -, hle, -⟩
          obtain rfl : msgType = c := Option.some.inj hc
          exact hlen hle
    · refine iff_of_false ?_ ?_
      · simp [validateAndParse, not_not.1 hknown]
      · rintro ⟨c, hc, hmem', -⟩
        obtain rfl : msgType = c := Option.some.inj hc
        exact hknown (hmem.1 hmem')

/-- On `Valid` the message's own bytes are those of the buffer, and what follows them in the buffer is not looked at. -/
theorem own_bytes_of_valid {msgType : UInt8} {rest : List UInt8} {outMsg : WireMessage}
    (h : (validateAndParse (msgType :: rest) outMsg).1 = .Valid) :
    (validateAndParse (msgType :: rest) outMsg).2.bytes.toList.take (expectedSize msgType) =
        (msgType :: rest).take (expectedSize msgType) ∧
      ∀ other, validateAndParse ((msgType :: rest).take (expectedSize msgType) ++ other) outMsg =
        validateAndParse (msgType :: rest) outMsg := by
  obtain ⟨c, hc, hmem, hlen, -⟩ := (valid_iff _ outMsg).1 h
  obtain rfl : msgType = c := Option.some.inj hc
  have hknown : expectedSize msgType ≠ 0 := by
    rw [expectedSize_ne_zero_iff]
    simpa using hmem
  obtain ⟨n, hn⟩ := Nat.exists_eq_succ_of_ne_zero hknown
  rw [validateAndParse_of_le hknown hlen]
  refine ⟨take_memcpy_take outMsg (expectedSize_le msgType) hlen, fun other => ?_⟩
  -- the shorter buffer starts with the same bytes
  have hcut : (msgType :: rest).take (expectedSize msgType) ++ other = msgType :: (rest.take n ++ other) := by
    rw [hn]
    rfl
  have hlen' : expectedSize msgType ≤ (msgType :: (rest.take n ++ other)).length := by
    rw [← hcut, List.length_append, List.length_take]
    omega
  have hsame : (msgType :: (rest.take n ++ other)).take (expectedSize msgType) =
      (msgType :: rest).take (expectedSize msgType) := by
    rw [← hcut, List.take_append_of_le_length (by rw [List.length_take]; omega), List.take_take, Nat.min_self]
  rw [hcut, validateAndParse_of_le hknown hlen', hsame]

/-- Only valid messages are parsed. -/
theorem isValid_of_parse {buffer : List UInt8} {m : WireMessage} (h : parse buffer = some m) : m.isValid = true := by
  cases buffer with
  | nil => cases h
  | cons msgType rest =>
    obtain ⟨hknown, -, hcheck, hm⟩ := (parse_cons msgType rest m).1 h
    have htype : m.msgType = msgType := by
      rw [hm]
      exact msgType_memcpy .zero rest hknown
    rw [← htype] at hcheck
    exact (checkFields_iff m).1 hcheck

/-- A valid message is parsed from its bytes, whatever follows them. -/
theorem validateAndParse_wireBytes {m : WireMessage} (h : m.isValid = true) (rest : List UInt8)
    (outMsg : WireMessage) :
    ∃ parsed, validateAndParse (m.wireBytes ++ rest) outMsg = (.Valid, parsed) ∧ SameFields parsed m ∧
      parsed.wireBytes = m.wireBytes := by
  have hknown := expectedSize_of_isValid h
  obtain ⟨more, hmore⟩ := exists_wireBytes_eq hknown
  have hlength := length_wireBytes m
  have hbuffer : m.wireBytes ++ rest = m.msgType :: (more ++ rest) := by
    rw [hmore]
    rfl
  have hlen : expectedSize m.msgType ≤ (m.msgType :: (more ++ rest)).length := by
    rw [← hbuffer, List.length_append]
    omega
  have htake : (m.msgType :: (more ++ rest)).take (expectedSize m.msgType) = m.wireBytes := by
    rw [← hbuffer, List.take_append_of_le_length (by omega), ← hlength, List.take_length]
  have htype := msgType_memcpy outMsg (more ++ rest) hknown
  rw [htake] at htype
  have hown : (outMsg.memcpy m.wireBytes).bytes.toList.take (expectedSize m.msgType) = m.wireBytes := by
    rw [take_memcpy outMsg (expectedSize_le _) (by omega), ← hlength, List.take_length]
  have hsame : SameFields (outMsg.memcpy m.wireBytes) m :=
    sameFields_of_take (by rwa [htype]) (by rw [htype]; exact hown)
  have hcheck := checkFields_iff (outMsg.memcpy m.wireBytes)
  rw [htype, hsame.isValid_eq] at hcheck
  refine ⟨_, ?_, hsame, by rw [wireBytes, htype]; exact hown⟩
  rw [hbuffer, validateAndParse_of_le hknown hlen, htake, hcheck.2 h]

/-! ### The reads of the source -/

/-- `buffer[i]`; the error is the index of a byte that was not received. -/
def byteAt (buffer : List UInt8) (i : Nat) : Except Nat UInt8 :=
  match buffer[i]? with
  | some byte => .ok byte
  | none => .error i

/-- The bytes that `memcpy` reads: `n` of them, from index `i` on. -/
def bytesFrom (buffer : List UInt8) : Nat → Nat → Except Nat (List UInt8)
  | _, 0 => .ok []
  | i, n + 1 => do
    let byte ← byteAt buffer i
    let bytes ← bytesFrom buffer (i + 1) n
    .ok (byte :: bytes)

/-- `validateAndParse` with each read checked; `none` stands for the null pointer. -/
def validateChecked (buffer : Option (List UInt8)) (outMsg : WireMessage) :
    Except Nat (ValidationResult × WireMessage) :=
  match buffer with
  | none => .ok (.TruncatedHeader, outMsg)
  | some buffer =>
    if buffer.length < 1 then
      .ok (.TruncatedHeader, outMsg)
    else do
      let msgType ← byteAt buffer 0
      let reqSize := expectedSize msgType
      if reqSize = 0 then
        .ok (.UnknownMessageType, outMsg)
      else if buffer.length < reqSize then
        .ok (.LengthMismatch, outMsg)
      else do
        let bytes ← bytesFrom buffer 0 reqSize
        let outMsg := outMsg.memcpy bytes
        .ok (checkFields msgType outMsg, outMsg)

theorem bytesFrom_eq {buffer : List UInt8} {i n : Nat} (h : i + n ≤ buffer.length) :
    bytesFrom buffer i n = .ok ((buffer.drop i).take n) := by
  induction n generalizing i with
  | zero => rfl
  | succ n ih =>
    have hi : i < buffer.length := by omega
    have hat : byteAt buffer i = .ok buffer[i] := by
      rw [byteAt, List.getElem?_eq_getElem hi]
    rw [bytesFrom, hat, ih (by omega), List.drop_eq_getElem_cons hi, List.take_succ_cons]
    rfl

/-- No byte behind the received ones is read. -/
theorem validateChecked_eq (buffer : List UInt8) (outMsg : WireMessage) :
    validateChecked (some buffer) outMsg = .ok (validateAndParse buffer outMsg) := by
  cases buffer with
  | nil => rfl
  | cons msgType rest =>
    unfold validateChecked validateAndParse
    show byteAt (msgType :: rest) 0 >>= _ = _
    rw [show byteAt (msgType :: rest) 0 = .ok msgType from rfl]
    show (if _ then _ else _) = _
    by_cases hknown : expectedSize msgType = 0
    · simp only [hknown, if_true]
    · by_cases hlen : (msgType :: rest).length < expectedSize msgType
      · simp only [hknown, hlen, if_true, if_false]
      · simp only [hknown, hlen, if_false]
        rw [bytesFrom_eq (by omega), List.drop_zero]
        rfl

/-- `validateAndParse` accepts exactly the buffers that start with a valid message, copies its bytes, reads nothing
behind them and nothing behind the bytes received; and it gives back every valid message. -/
theorem wire_parser_correct (outMsg : WireMessage) :
    (∀ buffer : List UInt8,
      ((validateAndParse buffer outMsg).1 = .Valid ↔
        ∃ msgType ∈ buffer.head?, msgType ∈ ['A'.toUInt8, 'X'.toUInt8, 'E'.toUInt8] ∧
          expectedSize msgType ≤ buffer.length ∧ (decoded buffer).isValid = true) ∧
      ((validateAndParse buffer outMsg).1 = .Valid → ∀ msgType ∈ buffer.head?,
        (validateAndParse buffer outMsg).2.bytes.toList.take (expectedSize msgType) =
          buffer.take (expectedSize msgType) ∧
        ∀ other, validateAndParse (buffer.take (expectedSize msgType) ++ other) outMsg =
          validateAndParse buffer outMsg) ∧
      validateChecked (some buffer) outMsg = .ok (validateAndParse buffer outMsg)) ∧
    validateChecked none outMsg = .ok (.TruncatedHeader, outMsg) ∧
    ∀ (m : WireMessage) (rest : List UInt8), m.isValid = true →
      ∃ parsed, validateAndParse (m.wireBytes ++ rest) outMsg = (.Valid, parsed) ∧ SameFields parsed m := by
  refine ⟨fun buffer => ⟨valid_iff buffer outMsg, fun h msgType hmem => ?_, validateChecked_eq buffer outMsg⟩, rfl,
    fun m rest h => ?_⟩
  · obtain ⟨rest, rfl⟩ : ∃ rest, buffer = msgType :: rest := List.head?_eq_some_iff.1 hmem
    exact own_bytes_of_valid h
  · obtain ⟨parsed, hparsed, hsame, -⟩ := validateAndParse_wireBytes h rest outMsg
    exact ⟨parsed, hparsed, hsame⟩

/-- A cancel and two bytes that are not its own. -/
theorem wire_parser_correct_cancel :
    ∃ parsed, validateAndParse
        ((WireMessage.ofCancel ⟨'X'.toUInt8, 4, 0, 7, 3⟩).wireBytes ++ [255, 255]) .zero = (.Valid, parsed) ∧
      SameFields parsed (.ofCancel ⟨'X'.toUInt8, 4, 0, 7, 3⟩) :=
  (wire_parser_correct .zero).2.2 _ _ (by decide)

end WireParserValidator

end FeedHandler
