import FeedHandler.OrderBook.Distinguishing
import FeedHandler.WalJournal.Recovery

/-!
# Appends that a crash cuts off

`append` stores the bytes of a record in increasing order, and a crash may stop it after any of them.  The type byte
is stored first, so a record of which any byte was stored has a type, and `open` takes it for a complete one: the
bytes that are missing read as zeros (`recover_crash`).  Recovery is exact when no byte was stored, or when the
fields that the book reads are not touched by the cut (`crash_safe_iff`).
-/

namespace FeedHandler

namespace WALJournal

variable {maxSizeBytes : Nat} {w : WALJournal} {msgs : List WireMessage}

/-- A crash after `k` bytes of the record that `append` stores. -/
def crash (w : WALJournal) (msg : WireMessage) (k : Nat) : WALJournal :=
  { w with file := RecordFile.write w.file w.writeOffsetBytes (msg.bytes.toList.take k), mapped := false }

/-- The record that such a crash leaves behind. -/
def torn (msg : WireMessage) (k : Nat) : WireMessage := ⟨RecordFile.cut 0 msg.bytes k⟩

theorem msgType_torn (msg : WireMessage) {k : Nat} (hk : k ≠ 0) : (torn msg k).msgType = msg.msgType := by
  have hpos : 0 < k := Nat.pos_of_ne_zero hk
  simp [torn, WireMessage.msgType, RecordFile.cut, hpos]
  rfl

theorem Replayed.torn {msg : WireMessage} (h : Replayed msg) {k : Nat} (hk : k ≠ 0) : Replayed (torn msg k) := by
  unfold Replayed
  rw [msgType_torn msg hk]
  exact h

/-- Before its first byte nothing of a record is in the file. -/
theorem Holds.crash_zero (h : Holds maxSizeBytes w msgs) (msg : WireMessage) :
    Holds maxSizeBytes (w.crash msg 0) msgs where
  file := by
    have hfile : (w.crash msg 0).file = w.file := by simp [WALJournal.crash, RecordFile.write]
    rw [hfile]
    exact h.file
  size hmapped := by cases hmapped
  offset hmapped := by cases hmapped

/-- After a crash the journal holds the record as far as it was stored. -/
theorem Holds.crash (h : Holds maxSizeBytes w msgs) (hmapped : w.mapped = true)
    (hroom : msgs.length < maxSizeBytes / sizeofWireMessage) (msg : WireMessage) (k : Nat) :
    Holds maxSizeBytes (w.crash msg k) (msgs ++ [torn msg k]) where
  file := by
    obtain ⟨-, hlen⟩ := h.size hmapped
    obtain ⟨z, -, hfile⟩ := h.file
    rw [hfile, List.length_append, length_records, List.length_replicate] at hlen
    have hsucc : (msgs.length + 1) * sizeofWireMessage ≤ maxSizeBytes := (Nat.le_div_iff_mul_le (by decide)).1 hroom
    rw [Nat.succ_mul] at hsucc
    obtain ⟨z', rfl⟩ : ∃ z', z = sizeofWireMessage + z' := ⟨z - sizeofWireMessage, by omega⟩
    refine ⟨z', ?_, ?_⟩
    · rw [List.length_append, List.length_singleton, Nat.succ_mul]
      omega
    · have hwrite := RecordFile.write_take_encode (0 : UInt8) (msgs.map (·.bytes)) msg.bytes k z'
      show RecordFile.write w.file w.writeOffsetBytes (msg.bytes.toList.take k) = _
      rw [hfile, h.offset hmapped]
      simpa [records, torn] using hwrite
  size hmapped := by cases hmapped
  offset hmapped := by cases hmapped

/-- A file without room for one more record is replayed as an empty one. -/
theorem Holds.recover_full (h : Holds maxSizeBytes w msgs) (hfull : msgs.length = maxSizeBytes / sizeofWireMessage)
    (htyped : Typed msgs) {Depth : Nat} {TableCapacity : Pow2} (book : LimitOrderBook Depth TableCapacity) :
    (w.openJournal maxSizeBytes).recover book = (0, book) := by
  have hoffset := h.writeOffsetBytes_openJournal
  rw [findWriteOffset_full htyped _ hfull.ge] at hoffset
  have hcount : (w.openJournal maxSizeBytes).recordCount = 0 := by
    unfold recordCount
    rw [hoffset]
    exact Nat.zero_div _
  unfold WALJournal.recover
  rw [hcount]
  rfl

/-! ### Recovery after a crash -/

/-- The book that a restart after the crash recovers. -/
def recovered (maxSizeBytes : Nat) (w : WALJournal) (msg : WireMessage) (k Depth : Nat) (TableCapacity : Pow2) :
    LimitOrderBook Depth TableCapacity :=
  (((w.crash msg k).openJournal maxSizeBytes).recover (LimitOrderBook.reset Depth TableCapacity)).2

/-- Before its first byte is stored, nothing of the record is replayed. -/
theorem Holds.recovered_zero (h : Holds maxSizeBytes w msgs)
    (hroom : msgs.length < maxSizeBytes / sizeofWireMessage) (hreplayed : ∀ m ∈ msgs, Replayed m) (msg : WireMessage)
    (Depth : Nat) (TableCapacity : Pow2) :
    recovered maxSizeBytes w msg 0 Depth TableCapacity = LimitOrderBook.run Depth TableCapacity msgs := by
  have hopen := (h.crash_zero msg).openJournal (Or.inr ⟨hroom, fun m hm => (hreplayed m hm).msgType_ne⟩)
  unfold recovered
  rw [hopen.recover rfl hreplayed]
  rfl

private theorem replayed_torn (hreplayed : ∀ m ∈ msgs, Replayed m) {msg : WireMessage} (hmsg : Replayed msg) {k : Nat}
    (hk : k ≠ 0) : ∀ m ∈ msgs ++ [torn msg k], Replayed m := by
  intro m hm
  rw [List.mem_append, List.mem_singleton] at hm
  rcases hm with hm | rfl
  · exact hreplayed m hm
  · exact hmsg.torn hk

/-- When one more record fits behind it, the torn record is replayed; otherwise nothing is. -/
theorem Holds.recovered_torn (h : Holds maxSizeBytes w msgs) (hmapped : w.mapped = true)
    (hroom : msgs.length < maxSizeBytes / sizeofWireMessage) (hreplayed : ∀ m ∈ msgs, Replayed m) {msg : WireMessage}
    (hmsg : Replayed msg) {k : Nat} (hk : k ≠ 0) (Depth : Nat) (TableCapacity : Pow2) :
    recovered maxSizeBytes w msg k Depth TableCapacity =
      if msgs.length + 1 < maxSizeBytes / sizeofWireMessage then
        LimitOrderBook.run Depth TableCapacity (msgs ++ [torn msg k])
      else
        LimitOrderBook.reset Depth TableCapacity := by
  have hall := replayed_torn hreplayed hmsg hk
  have htyped : Typed (msgs ++ [torn msg k]) := fun m hm => (hall m hm).msgType_ne
  have hlen : (msgs ++ [torn msg k]).length = msgs.length + 1 := by
    rw [List.length_append, List.length_singleton]
  have hcrash := h.crash hmapped hroom msg k
  unfold recovered
  split
  · rename_i hlt
    have hopen := hcrash.openJournal (Or.inr ⟨hlen ▸ hlt, htyped⟩)
    rw [hopen.recover rfl hall]
    rfl
  · rw [hcrash.recover_full (by omega) htyped]

/-- After every crash at byte `k` of `msg`, behind `n` messages, the book recovered is the one after the `n` messages,
or the one after these and `msg`. -/
def CrashSafe (maxSizeBytes n : Nat) (msg : WireMessage) (k : Nat) : Prop :=
  ∀ w msgs, Holds maxSizeBytes w msgs → w.mapped = true → msgs.length = n → (∀ m ∈ msgs, Replayed m) →
    ∀ Depth TableCapacity,
      recovered maxSizeBytes w msg k Depth TableCapacity = LimitOrderBook.run Depth TableCapacity msgs ∨
        recovered maxSizeBytes w msg k Depth TableCapacity = LimitOrderBook.run Depth TableCapacity (msgs ++ [msg])

/-- A journal of some messages that fit the file. -/
theorem holds_foldl_append (hroom : msgs.length * sizeofWireMessage ≤ maxSizeBytes) :
    Holds maxSizeBytes (msgs.foldl (fun w msg => (w.append msg).2) (absent.openJournal maxSizeBytes)) msgs := by
  have hopen := (holds_absent maxSizeBytes).openJournal (Or.inl rfl)
  have hroom' : (([] : List WireMessage).length + msgs.length) * sizeofWireMessage ≤ maxSizeBytes := by
    simpa using hroom
  exact hopen.appends rfl hroom'

/-- A book that has processed messages is not fresh. -/
theorem run_ne_reset (hne : msgs ≠ []) (hlt : msgs.length < 2 ^ 64) (Depth : Nat) (TableCapacity : Pow2) :
    LimitOrderBook.reset Depth TableCapacity ≠ LimitOrderBook.run Depth TableCapacity msgs := by
  intro heq
  have htotal := congrArg LimitOrderBook.totalMessagesProcessed heq
  rw [LimitOrderBook.totalMessagesProcessed_run] at htotal
  have hzero : (0 : Nat) = msgs.length % 2 ^ 64 := congrArg UInt64.toNat htotal
  rw [Nat.mod_eq_of_lt hlt] at hzero
  exact hne (List.length_eq_zero_iff.1 hzero.symm)

/-- A book that has processed one message more is another one. -/
theorem run_append_singleton_ne (msgs : List WireMessage) (m : WireMessage) (Depth : Nat) (TableCapacity : Pow2) :
    LimitOrderBook.run Depth TableCapacity (msgs ++ [m]) ≠ LimitOrderBook.run Depth TableCapacity msgs := by
  intro heq
  have htotal := congrArg LimitOrderBook.totalMessagesProcessed heq
  rw [LimitOrderBook.totalMessagesProcessed_run, LimitOrderBook.totalMessagesProcessed_run, List.length_append,
    List.length_singleton, UInt64.ofNat_add] at htotal
  have hone : UInt64.ofNat 1 = 0 := by
    simp at htotal
  revert hone
  decide

theorem replayed_of_isValid {msg : WireMessage} (h : msg.isValid = true) : Replayed msg := by
  unfold Replayed
  by_contra hnot
  push Not at hnot
  simp [WireMessage.isValid, hnot] at h

/-- What a crash that is harmless for all journals recovers from one that holds an order added `n` times. -/
theorem CrashSafe.preceding {n k : Nat} {msg : WireMessage} (h : CrashSafe maxSizeBytes n msg k)
    (hroom : n < maxSizeBytes / sizeofWireMessage) (hmsg : Replayed msg) (hk : k ≠ 0) (quantity : Int32)
    (msgs : List WireMessage) (hmsgs : msgs = List.replicate n (.ofAdd (LimitOrderBook.preceding msg quantity))) :
    let book :=
      if n + 1 < maxSizeBytes / sizeofWireMessage then
        LimitOrderBook.run 1 LimitOrderBook.oneSlot (msgs ++ [torn msg k])
      else
        LimitOrderBook.reset 1 LimitOrderBook.oneSlot
    book = LimitOrderBook.run 1 LimitOrderBook.oneSlot msgs ∨
      book = LimitOrderBook.run 1 LimitOrderBook.oneSlot (msgs ++ [msg]) := by
  have hlen : msgs.length = n := by
    rw [hmsgs, List.length_replicate]
  have hreplayed : ∀ m ∈ msgs, Replayed m := by
    intro m hm
    rw [hmsgs] at hm
    rw [List.eq_of_mem_replicate hm]
    exact Or.inl rfl
  have hfits : msgs.length * sizeofWireMessage ≤ maxSizeBytes := by
    rw [hlen]
    exact (Nat.le_div_iff_mul_le (by decide)).1 hroom.le
  have hholds := holds_foldl_append hfits
  have hmapped : (msgs.foldl (fun w msg => (w.append msg).2) (absent.openJournal maxSizeBytes)).mapped = true :=
    mapped_foldl_append msgs rfl
  have hrun := h _ msgs hholds hmapped hlen hreplayed 1 LimitOrderBook.oneSlot
  rw [hholds.recovered_torn hmapped (hlen.symm ▸ hroom) hreplayed hmsg hk, hlen] at hrun
  exact hrun

/-- A crash is harmless exactly when no byte was stored, when the journal was empty and the record fills it, or when
one more record fits and the cut touches no field that a book reads. -/
theorem crash_safe_iff (maxSizeBytes n : Nat) (hsize : maxSizeBytes < 2 ^ 64) (msg : WireMessage)
    (hvalid : msg.isValid = true) (k : Nat) (hroom : n < maxSizeBytes / sizeofWireMessage) :
    CrashSafe maxSizeBytes n msg k ↔
      k = 0 ∨ n = 0 ∧ maxSizeBytes / sizeofWireMessage = 1 ∨
        n + 1 < maxSizeBytes / sizeofWireMessage ∧ LimitOrderBook.FieldsKept n msg (torn msg k) := by
  have hmsg := replayed_of_isValid hvalid
  constructor
  · intro hsafe
    by_cases hk : k = 0
    · exact Or.inl hk
    right
    by_cases hlt : n + 1 < maxSizeBytes / sizeofWireMessage
    · -- the torn record is replayed, and the counter tells it from none
      right
      refine ⟨hlt, LimitOrderBook.fieldsKept_of_run_eq hvalid (msgType_torn msg hk) fun quantity => ?_⟩
      have hrun := hsafe.preceding hroom hmsg hk quantity _ rfl
      rw [if_pos hlt] at hrun
      exact hrun.resolve_left (run_append_singleton_ne _ _ _ _)
    · -- the file is full, and the book is fresh
      left
      have hrun := hsafe.preceding hroom hmsg hk 1 _ rfl
      rw [if_neg hlt] at hrun
      have hbound : maxSizeBytes / sizeofWireMessage < 2 ^ 64 := (Nat.div_le_self ..).trans_lt hsize
      by_cases hn : n = 0
      · exact ⟨hn, by omega⟩
      · rcases hrun with hrun | hrun
        · refine absurd hrun (run_ne_reset ?_ ?_ _ _)
          · simpa using hn
          · rw [List.length_replicate]
            omega
        · refine absurd hrun (run_ne_reset ?_ ?_ _ _)
          · simp
          · rw [List.length_append, List.length_replicate, List.length_singleton]
            omega
  · intro hcond w msgs h hmapped hlen hreplayed Depth TableCapacity
    subst hlen
    by_cases hk : k = 0
    · left
      rw [hk]
      exact h.recovered_zero hroom hreplayed msg Depth TableCapacity
    · rw [h.recovered_torn hmapped hroom hreplayed hmsg hk]
      rcases hcond with hzero | ⟨hnil, hone⟩ | ⟨hlt, hkept⟩
      · exact absurd hzero hk
      · left
        rw [if_neg (by omega), List.length_eq_zero_iff.1 hnil]
        rfl
      · right
        rw [if_pos hlt]
        exact hkept.run_eq (msgType_torn msg hk) Depth TableCapacity

/-- The first record of a journal, a cancel, cut off in the high bytes of its quantity. -/
theorem crash_safe_cancel_iff :
    CrashSafe 200 0 (.ofCancel ⟨'X'.toUInt8, 1, 0, 7, 3⟩) 26 ↔
      26 = 0 ∨ 0 = 0 ∧ 200 / sizeofWireMessage = 1 ∨ 0 + 1 < 200 / sizeofWireMessage ∧
        LimitOrderBook.FieldsKept 0 (.ofCancel ⟨'X'.toUInt8, 1, 0, 7, 3⟩)
          (torn (.ofCancel ⟨'X'.toUInt8, 1, 0, 7, 3⟩) 26) :=
  crash_safe_iff 200 0 (by decide) _ (by decide) 26 (by decide)

/-- Of a cancel only the type byte is stored: the restart replays a cancel with sequence number 0. -/
theorem torn_record_replayed :
    ¬ ∀ maxSizeBytes n msg k, n < maxSizeBytes / sizeofWireMessage → msg.isValid = true → k ≤ sizeofWireMessage →
        CrashSafe maxSizeBytes n msg k := by
  intro hall
  have hsafe := hall 200 0 (.ofCancel ⟨'X'.toUInt8, 1, 0, 7, 3⟩) 1 (by decide) (by decide) (by decide)
    (absent.openJournal 200) [] ((holds_absent 200).openJournal (Or.inl rfl)) rfl rfl (fun m hm => by cases hm) 1
    LimitOrderBook.oneSlot
  rcases hsafe with hrun | hrun
  · have htotal := congrArg LimitOrderBook.totalMessagesProcessed hrun
    revert htotal
    decide
  · have hexpected := congrArg LimitOrderBook.expectedSeqNo hrun
    revert hexpected
    decide

end WALJournal

end FeedHandler
