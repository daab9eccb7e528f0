import FeedHandler.WalJournal.Basic

/-!
# Recovery from the journal

A journal that holds some messages is a file that starts with their records and goes on with zeros (`Holds`).
Opening it finds the end of the records, if they all have a type and one more record fits the file
(`Holds.openJournal`); appending writes the next record.  So whatever the sessions were, the messages are replayed as
they were appended (`recover_sessions`).
-/

namespace FeedHandler

namespace WALJournal

/-- The records of some messages. -/
def records (msgs : List WireMessage) : List UInt8 := RecordFile.encode (msgs.map (·.bytes))

theorem length_records (msgs : List WireMessage) : (records msgs).length = msgs.length * sizeofWireMessage := by
  unfold records
  rw [RecordFile.length_encode, List.length_map]
  rfl

theorem record_records {msgs : List WireMessage} {i : Nat} {msg : WireMessage} (h : msgs[i]? = some msg)
    (rest : List UInt8) : record (records msgs ++ rest) i = msg := by
  have hget : (msgs.map (·.bytes))[i]? = some msg.bytes := by simp [h]
  exact congrArg WireMessage.mk (RecordFile.block_encode 0 hget rest)

/-- Behind the records the type byte is `0`. -/
theorem msgType_record_zeros (msgs : List WireMessage) (z : Nat) {i : Nat} (h : msgs.length ≤ i) :
    (record (records msgs ++ List.replicate z 0) i).msgType = 0 := by
  have hzeros := RecordFile.block_zeros (0 : UInt8) (msgs.map (·.bytes)) z (i := i) (by simpa using h)
  have hrecord : record (records msgs ++ List.replicate z 0) i = ⟨Vector.replicate 34 0⟩ :=
    congrArg WireMessage.mk hzeros
  rw [hrecord]
  decide

/-- Every message has a type. -/
def Typed (msgs : List WireMessage) : Prop := ∀ m ∈ msgs, m.msgType ≠ 0

/-- The records of a file, as far as they have a type. -/
theorem msgType_record_ne {msgs : List WireMessage} (h : Typed msgs) (rest : List UInt8) {i : Nat}
    (hi : i < msgs.length) : (record (records msgs ++ rest) i).msgType ≠ 0 := by
  rw [record_records (List.getElem?_eq_getElem hi)]
  exact h _ (List.getElem_mem hi)

theorem findWriteOffset_lt {msgs : List WireMessage} (h : Typed msgs) (z : Nat) {recordsInFile : Nat}
    (hlt : msgs.length < recordsInFile) :
    findWriteOffset (records msgs ++ List.replicate z 0) recordsInFile = msgs.length * sizeofWireMessage := by
  have hfind : (List.range recordsInFile).find?
      (fun i => (record (records msgs ++ List.replicate z 0) i).msgType = 0) = some msgs.length := by
    rw [List.find?_range_eq_some]
    refine ⟨?_, List.mem_range.2 hlt, fun j hj => ?_⟩
    · simpa using msgType_record_zeros msgs z (le_refl _)
    · simpa using msgType_record_ne h _ hj
  unfold findWriteOffset
  rw [hfind]

/-- A file without room for one more record has no end mark. -/
theorem findWriteOffset_full {msgs : List WireMessage} (h : Typed msgs) (z : Nat) {recordsInFile : Nat}
    (hle : recordsInFile ≤ msgs.length) :
    findWriteOffset (records msgs ++ List.replicate z 0) recordsInFile = 0 := by
  have hfind : (List.range recordsInFile).find?
      (fun i => (record (records msgs ++ List.replicate z 0) i).msgType = 0) = none := by
    rw [List.find?_range_eq_none]
    intro i hi
    simpa using msgType_record_ne h _ (by omega)
  unfold findWriteOffset
  rw [hfind]

/-- A record without a type is an end mark. -/
theorem findWriteOffset_of_not_typed {msgs : List WireMessage} (h : ¬ Typed msgs) (rest : List UInt8)
    (recordsInFile : Nat) :
    findWriteOffset (records msgs ++ rest) recordsInFile < msgs.length * sizeofWireMessage := by
  unfold Typed at h
  push Not at h
  obtain ⟨m, hm, hzero⟩ := h
  obtain ⟨i, hi, hget⟩ := List.mem_iff_getElem.1 hm
  have hrecord : record (records msgs ++ rest) i = m := record_records (by simp [hi, hget]) rest
  unfold findWriteOffset
  rw [sizeofWireMessage_eq]
  cases hfind : (List.range recordsInFile).find? fun i => (record (records msgs ++ rest) i).msgType = 0 with
  | none =>
    dsimp only
    omega
  | some j =>
    obtain ⟨-, -, hfirst⟩ := List.find?_range_eq_some.1 hfind
    have hle : j ≤ i := by
      by_contra hlt
      have hnot := hfirst i (by omega)
      simp [hrecord, hzero] at hnot
    dsimp only
    omega

/-- The file starts with the records of the messages and goes on with zeros; while it is mapped, the next record
goes behind them. -/
structure Holds (maxSizeBytes : Nat) (w : WALJournal) (msgs : List WireMessage) : Prop where
  file : ∃ z, msgs.length * sizeofWireMessage + z ≤ maxSizeBytes ∧ w.file = records msgs ++ List.replicate z 0
  size : w.mapped = true → w.maxSizeBytes = maxSizeBytes ∧ w.file.length = maxSizeBytes
  offset : w.mapped = true → w.writeOffsetBytes = msgs.length * sizeofWireMessage

variable {maxSizeBytes : Nat} {w : WALJournal} {msgs : List WireMessage}

theorem holds_absent (maxSizeBytes : Nat) : Holds maxSizeBytes absent [] where
  file := ⟨0, by simp, rfl⟩
  size h := by cases h
  offset h := by cases h

theorem Holds.close (h : Holds maxSizeBytes w msgs) : Holds maxSizeBytes w.close msgs where
  file := h.file
  size h := by cases h
  offset h := by cases h

/-- The records of a journal fit its file. -/
theorem Holds.length_le (h : Holds maxSizeBytes w msgs) : msgs.length ≤ maxSizeBytes / sizeofWireMessage := by
  obtain ⟨z, hle, -⟩ := h.file
  rw [Nat.le_div_iff_mul_le (by decide)]
  omega

theorem Holds.record (h : Holds maxSizeBytes w msgs) {i : Nat} {msg : WireMessage} (hget : msgs[i]? = some msg) :
    WALJournal.record w.file i = msg := by
  obtain ⟨z, -, hfile⟩ := h.file
  rw [hfile]
  exact record_records hget _

/-- The file after `open`. -/
theorem Holds.file_openJournal (h : Holds maxSizeBytes w msgs) : (w.openJournal maxSizeBytes).file =
    records msgs ++ List.replicate (maxSizeBytes - msgs.length * sizeofWireMessage) 0 := by
  obtain ⟨z, hle, hfile⟩ := h.file
  show RecordFile.resize 0 w.file maxSizeBytes = _
  have hresize := RecordFile.resize_encode (0 : UInt8) (msgs.map (·.bytes)) z maxSizeBytes (by simpa using hle)
  rw [hfile]
  simpa [records] using hresize

/-- The offset after `open`. -/
theorem Holds.writeOffsetBytes_openJournal (h : Holds maxSizeBytes w msgs) :
    (w.openJournal maxSizeBytes).writeOffsetBytes =
      findWriteOffset (records msgs ++ List.replicate (maxSizeBytes - msgs.length * sizeofWireMessage) 0)
        (maxSizeBytes / sizeofWireMessage) := by
  rw [← h.file_openJournal]
  rfl

/-- Opening finds the end of the records, when there is an end mark behind them. -/
theorem Holds.openJournal (h : Holds maxSizeBytes w msgs)
    (hend : msgs = [] ∨ msgs.length < maxSizeBytes / sizeofWireMessage ∧ Typed msgs) :
    Holds maxSizeBytes (w.openJournal maxSizeBytes) msgs := by
  obtain ⟨z, hle, -⟩ := h.file
  refine ⟨⟨maxSizeBytes - msgs.length * sizeofWireMessage, by omega, h.file_openJournal⟩, fun _ => ⟨rfl, ?_⟩,
    fun _ => ?_⟩
  · rw [h.file_openJournal, List.length_append, length_records, List.length_replicate]
    omega
  · rw [h.writeOffsetBytes_openJournal]
    rcases hend with rfl | ⟨hlt, htyped⟩
    · by_cases hpos : 0 < maxSizeBytes / sizeofWireMessage
      · exact findWriteOffset_lt (fun m hm => by cases hm) _ hpos
      · exact findWriteOffset_full (fun m hm => by cases hm) _ (by simpa using hpos)
    · exact findWriteOffset_lt htyped _ hlt

theorem append_of_room (hmapped : w.mapped = true)
    (hroom : w.writeOffsetBytes + sizeofWireMessage ≤ w.maxSizeBytes) (msg : WireMessage) :
    w.append msg = (true, { w with
      file := RecordFile.write w.file w.writeOffsetBytes msg.bytes.toList
      writeOffsetBytes := w.writeOffsetBytes + sizeofWireMessage }) := by
  apply if_neg
  simpa [hmapped] using hroom

/-- Appending writes the next record, as long as it fits the file. -/
theorem Holds.append (h : Holds maxSizeBytes w msgs) (hmapped : w.mapped = true)
    (hroom : (msgs.length + 1) * sizeofWireMessage ≤ maxSizeBytes) (msg : WireMessage) :
    (w.append msg).1 = true ∧ (w.append msg).2.mapped = true ∧ Holds maxSizeBytes (w.append msg).2 (msgs ++ [msg]) := by
  obtain ⟨hsize, hlen⟩ := h.size hmapped
  have hoffset := h.offset hmapped
  have hsucc : (msgs.length + 1) * sizeofWireMessage = msgs.length * sizeofWireMessage + sizeofWireMessage :=
    Nat.succ_mul ..
  have happend := append_of_room hmapped (by omega) msg
  obtain ⟨z, hle, hfile⟩ := h.file
  rw [hfile, List.length_append, length_records, List.length_replicate] at hlen
  obtain ⟨z', rfl⟩ : ∃ z', z = sizeofWireMessage + z' := ⟨z - sizeofWireMessage, by omega⟩
  have hwrite : RecordFile.write w.file w.writeOffsetBytes msg.bytes.toList =
      records (msgs ++ [msg]) ++ List.replicate z' 0 := by
    have hencode := RecordFile.write_encode (0 : UInt8) (msgs.map (·.bytes)) msg.bytes z'
    rw [hfile, hoffset]
    simpa [records] using hencode
  rw [happend]
  refine ⟨rfl, hmapped, ⟨z', ?_, hwrite⟩, fun _ => ⟨hsize, ?_⟩, fun _ => ?_⟩
  · rw [List.length_append, List.length_singleton]
    omega
  · dsimp only
    rw [hwrite, List.length_append, length_records, List.length_replicate, List.length_append,
      List.length_singleton]
    omega
  · dsimp only
    rw [hoffset, List.length_append, List.length_singleton, hsucc]

/-- Without room nothing is written. -/
theorem append_of_no_room
    (hroom : ¬ (w.mapped = true ∧ w.writeOffsetBytes + sizeofWireMessage ≤ w.maxSizeBytes)) (msg : WireMessage) :
    w.append msg = (false, w) := by
  apply if_pos
  cases hmapped : w.mapped with
  | false => rfl
  | true => simpa [hmapped] using hroom

/-! ### Replay -/

/-- The messages that `recover` replays. -/
def Replayed (msg : WireMessage) : Prop :=
  msg.msgType = 'A'.toUInt8 ∨ msg.msgType = 'X'.toUInt8 ∨ msg.msgType = 'E'.toUInt8

instance (msg : WireMessage) : Decidable (Replayed msg) := inferInstanceAs (Decidable (_ ∨ _ ∨ _))

theorem Replayed.msgType_ne {msg : WireMessage} (h : Replayed msg) : msg.msgType ≠ 0 := by
  rcases h with h | h | h
  all_goals
    rw [h]
    decide

theorem recordCount_of_offset {n : Nat} (h : w.writeOffsetBytes = n * sizeofWireMessage) : w.recordCount = n := by
  unfold recordCount
  rw [h]
  exact Nat.mul_div_cancel n (by decide)

private theorem foldl_replayed {Depth : Nat} {TableCapacity : Pow2} (msgs : List WireMessage)
    (s : Nat × LimitOrderBook Depth TableCapacity) :
    msgs.foldl (fun s msg => if Replayed msg then (s.1 + 1, s.2.processMessage msg) else s) s =
      (s.1 + (msgs.filter (Replayed ·)).length,
        (msgs.filter (Replayed ·)).foldl LimitOrderBook.processMessage s.2) := by
  induction msgs generalizing s with
  | nil => rfl
  | cons m msgs ih =>
    rw [List.foldl_cons, ih]
    by_cases hm : Replayed m
    · rw [if_pos hm, List.filter_cons_of_pos (by simpa using hm), List.length_cons, List.foldl_cons]
      dsimp only
      rw [Nat.add_assoc, Nat.add_comm 1]
    · rw [if_neg hm, List.filter_cons_of_neg (by simpa using hm)]

/-- A mapped journal replays those of the messages it holds that have a known type. -/
theorem Holds.recover_filter {Depth : Nat} {TableCapacity : Pow2} (h : Holds maxSizeBytes w msgs)
    (hmapped : w.mapped = true) (book : LimitOrderBook Depth TableCapacity) :
    w.recover book = ((msgs.filter (Replayed ·)).length,
      (msgs.filter (Replayed ·)).foldl LimitOrderBook.processMessage book) := by
  have hcount := recordCount_of_offset (h.offset hmapped)
  have hrecords : (List.range msgs.length).map (WALJournal.record w.file) = msgs := by
    apply List.ext_getElem
    · simp
    · intro i hi hi'
      rw [List.getElem_map, List.getElem_range]
      exact h.record (List.getElem?_eq_getElem hi')
  unfold WALJournal.recover
  rw [hmapped, if_neg (by decide), hcount]
  calc (List.range msgs.length).foldl (fun s i =>
          if Replayed (WALJournal.record w.file i) then
            (s.1 + 1, s.2.processMessage (WALJournal.record w.file i)) else s) (0, book)
      = ((List.range msgs.length).map (WALJournal.record w.file)).foldl
          (fun s msg => if Replayed msg then (s.1 + 1, s.2.processMessage msg) else s) (0, book) := by
        rw [List.foldl_map]
    _ = _ := by rw [hrecords, foldl_replayed, Nat.zero_add]

/-- When all types are known, it replays all of them. -/
theorem Holds.recover {Depth : Nat} {TableCapacity : Pow2} (h : Holds maxSizeBytes w msgs) (hmapped : w.mapped = true)
    (hreplayed : ∀ m ∈ msgs, Replayed m) (book : LimitOrderBook Depth TableCapacity) :
    w.recover book = (msgs.length, msgs.foldl LimitOrderBook.processMessage book) := by
  have hall : msgs.filter (Replayed ·) = msgs := by
    rw [List.filter_eq_self]
    simpa using hreplayed
  rw [h.recover_filter hmapped, hall]

/-! ### Sessions -/

/-- A session: open, append some messages, close. -/
def session (maxSizeBytes : Nat) (w : WALJournal) (msgs : List WireMessage) : WALJournal :=
  (msgs.foldl (fun w msg => (w.append msg).2) (w.openJournal maxSizeBytes)).close

/-- Some sessions on a file that does not exist yet. -/
def runSessions (maxSizeBytes : Nat) (sessions : List (List WireMessage)) : WALJournal :=
  sessions.foldl (session maxSizeBytes) absent

theorem Holds.appends (h : Holds maxSizeBytes w msgs) (hmapped : w.mapped = true) {more : List WireMessage}
    (hroom : (msgs.length + more.length) * sizeofWireMessage ≤ maxSizeBytes) :
    Holds maxSizeBytes (more.foldl (fun w msg => (w.append msg).2) w) (msgs ++ more) := by
  induction more generalizing w msgs with
  | nil =>
    rw [List.append_nil]
    exact h
  | cons m more ih =>
    rw [List.length_cons] at hroom
    have hroom' : (msgs.length + 1) * sizeofWireMessage ≤ maxSizeBytes := by
      rw [sizeofWireMessage_eq] at hroom ⊢
      omega
    obtain ⟨-, hmapped', happend⟩ := h.append hmapped hroom' m
    have hrest := ih happend hmapped' (by
      rw [List.length_append, List.length_singleton, Nat.add_assoc, Nat.add_comm 1]
      exact hroom)
    rw [List.append_assoc] at hrest
    exact hrest

theorem mapped_foldl_append (msgs : List WireMessage) (hmapped : w.mapped = true) :
    (msgs.foldl (fun w msg => (w.append msg).2) w).mapped = true := by
  induction msgs generalizing w with
  | nil => exact hmapped
  | cons m msgs ih =>
    refine ih ?_
    show (w.append m).2.mapped = true
    unfold WALJournal.append
    split <;> exact hmapped

theorem Holds.sessions (h : Holds maxSizeBytes w msgs) {sessions : List (List WireMessage)}
    (hlt : (msgs ++ sessions.flatten).length < maxSizeBytes / sizeofWireMessage)
    (htyped : Typed (msgs ++ sessions.flatten)) :
    Holds maxSizeBytes (sessions.foldl (session maxSizeBytes) w) (msgs ++ sessions.flatten) := by
  induction sessions generalizing w msgs with
  | nil =>
    rw [List.flatten_nil, List.append_nil]
    exact h
  | cons more sessions ih =>
    rw [List.flatten_cons, ← List.append_assoc] at hlt htyped ⊢
    have hlen := hlt
    rw [List.length_append, List.length_append] at hlen
    have hopen := h.openJournal (Or.inr ⟨by omega, fun m hm => htyped m (by simp [hm])⟩)
    refine ih (hopen.appends rfl ?_).close hlt htyped
    rw [Nat.lt_div_iff_mul_lt (by decide)] at hlen
    rw [sizeofWireMessage_eq] at hlen ⊢
    omega

/-- After any sessions whose messages have the types `A`, `X` and `E` and leave room in the file, the journal counts
the messages, and recovery brings a fresh book to the state after them. -/
theorem recover_sessions (maxSizeBytes : Nat) (sessions : List (List WireMessage))
    (htypes : ∀ m ∈ sessions.flatten, Replayed m)
    (hlt : sessions.flatten.length < maxSizeBytes / sizeofWireMessage) :
    ((runSessions maxSizeBytes sessions).openJournal maxSizeBytes).recordCount = sessions.flatten.length ∧
      ∀ Depth TableCapacity,
        ((runSessions maxSizeBytes sessions).openJournal maxSizeBytes).recover
            (LimitOrderBook.reset Depth TableCapacity) =
          (sessions.flatten.length, LimitOrderBook.run Depth TableCapacity sessions.flatten) := by
  have htyped : Typed sessions.flatten := fun m hm => (htypes m hm).msgType_ne
  have hholds : Holds maxSizeBytes (runSessions maxSizeBytes sessions) sessions.flatten :=
    (holds_absent maxSizeBytes).sessions hlt htyped
  have hopen := hholds.openJournal (Or.inr ⟨hlt, htyped⟩)
  exact ⟨recordCount_of_offset (hopen.offset rfl), fun Depth TableCapacity => hopen.recover rfl htypes _⟩

/-- Two sessions of an add and a cancel. -/
theorem recover_two_sessions :
    ((runSessions 200 [[.ofAdd ⟨'A'.toUInt8, 1, 0, 7, 'B'.toUInt8, 100, 5⟩],
      [.ofCancel ⟨'X'.toUInt8, 2, 0, 7, 3⟩]]).openJournal 200).recordCount = 2 :=
  (recover_sessions 200 _ (by decide) (by decide)).1

end WALJournal

end FeedHandler
