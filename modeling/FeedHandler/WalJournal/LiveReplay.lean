import FeedHandler.OrderBook.Sequencing
import FeedHandler.WalJournal.Recovery

/-!
# Replay and live processing

`processMessage` counts and sequences every message and drops those of an unknown type; `recover` does not hand these
to the book at all.  Order table, sides and trades are the same either way (`SameContents.foldl_filter`).  The counters
of the recovered book are those of a book that was given the known messages only (`replay_agrees`).
-/

namespace FeedHandler

namespace LimitOrderBook.SameContents

variable {Depth : Nat} {TableCapacity : Pow2} {book book' : LimitOrderBook Depth TableCapacity}

/-- Messages of unknown types leave no trace in the contents. -/
theorem foldl_filter (h : SameContents book book') (msgs : List WireMessage) :
    SameContents (msgs.foldl LimitOrderBook.processMessage book)
      ((msgs.filter (WALJournal.Replayed ·)).foldl LimitOrderBook.processMessage book') := by
  induction msgs generalizing book book' with
  | nil => exact h
  | cons m msgs ih =>
    rw [List.foldl_cons]
    by_cases hm : WALJournal.Replayed m
    · rw [List.filter_cons_of_pos (by simpa using hm), List.foldl_cons]
      exact ih (h.processMessage m)
    · rw [List.filter_cons_of_neg (by simpa using hm)]
      unfold WALJournal.Replayed at hm
      push Not at hm
      have hunknown := processMessage_unknown book hm.1 hm.2.1 hm.2.2
      apply ih
      exact ⟨h.orderTable.trans hunknown.orderTable.symm, h.bids.trans hunknown.bids.symm,
        h.asks.trans hunknown.asks.symm, h.tradesExecutedCount.trans hunknown.tradesExecutedCount.symm⟩

end LimitOrderBook.SameContents

namespace WALJournal

open LimitOrderBook (SameContents)

/-- The journal after some sessions, opened again, with more messages appended. -/
def journal (maxSizeBytes : Nat) (sessions : List (List WireMessage)) (more : List WireMessage) : WALJournal :=
  more.foldl (fun w msg => (w.append msg).2) ((runSessions maxSizeBytes sessions).openJournal maxSizeBytes)

/-- A journal that is not full holds what was appended to it. -/
theorem holds_journal {maxSizeBytes : Nat} {sessions : List (List WireMessage)} {more : List WireMessage}
    (htyped : Typed (sessions.flatten ++ more))
    (hlt : (sessions.flatten ++ more).length < maxSizeBytes / sizeofWireMessage) :
    Holds maxSizeBytes (journal maxSizeBytes sessions more) (sessions.flatten ++ more) ∧
      (journal maxSizeBytes sessions more).mapped = true := by
  have hlen := hlt
  rw [List.length_append] at hlen
  have hold : Typed sessions.flatten := fun m hm => htyped m (List.mem_append_left _ hm)
  have hsessions : Holds maxSizeBytes (runSessions maxSizeBytes sessions) sessions.flatten :=
    (holds_absent maxSizeBytes).sessions (by simp only [List.nil_append]; omega) hold
  have hopen := hsessions.openJournal (Or.inr ⟨by omega, hold⟩)
  refine ⟨hopen.appends rfl ?_, mapped_foldl_append more rfl⟩
  rw [Nat.lt_div_iff_mul_lt (by decide)] at hlen
  rw [sizeofWireMessage_eq] at hlen ⊢
  omega

/-- The books count the same number of messages exactly when none was left out. -/
theorem length_filter_eq_iff {msgs : List WireMessage} (h : msgs.length < 2 ^ 64) :
    UInt64.ofNat (msgs.filter (Replayed ·)).length = UInt64.ofNat msgs.length ↔ ∀ m ∈ msgs, Replayed m := by
  have hle := List.length_filter_le (fun m => decide (Replayed m)) msgs
  have hword : UInt64.size = 2 ^ 64 := rfl
  rw [← UInt64.toNat_inj, UInt64.toNat_ofNat_of_lt' (by omega), UInt64.toNat_ofNat_of_lt' (by omega),
    List.length_filter_eq_length_iff]
  simp

/-- For every list of messages with a type that is appended to a journal, over any sessions, and leaves room in it:
recovery into a fresh book gives the book after the messages of the types `A`, `X` and `E`.  Sides, order table and
trades are those of a book that was given all the messages; the two counters are as well exactly when all types are
known. -/
theorem replay_agrees {maxSizeBytes : Nat} (hsize : maxSizeBytes < 2 ^ 64) (sessions : List (List WireMessage))
    (more : List WireMessage) (htyped : Typed (sessions.flatten ++ more))
    (hlt : (sessions.flatten ++ more).length < maxSizeBytes / sizeofWireMessage) (Depth : Nat) (TableCapacity : Pow2) :
    ((journal maxSizeBytes sessions more).recover (LimitOrderBook.reset Depth TableCapacity)).2 =
        LimitOrderBook.run Depth TableCapacity ((sessions.flatten ++ more).filter (Replayed ·)) ∧
      SameContents (LimitOrderBook.run Depth TableCapacity (sessions.flatten ++ more))
        ((journal maxSizeBytes sessions more).recover (LimitOrderBook.reset Depth TableCapacity)).2 ∧
      (((journal maxSizeBytes sessions more).recover
              (LimitOrderBook.reset Depth TableCapacity)).2.totalMessagesProcessed =
            (LimitOrderBook.run Depth TableCapacity (sessions.flatten ++ more)).totalMessagesProcessed ∧
          ((journal maxSizeBytes sessions more).recover
              (LimitOrderBook.reset Depth TableCapacity)).2.sequenceGapsDetected =
            (LimitOrderBook.run Depth TableCapacity (sessions.flatten ++ more)).sequenceGapsDetected ↔
        ∀ m ∈ sessions.flatten ++ more, Replayed m) := by
  obtain ⟨hholds, hmapped⟩ := holds_journal htyped hlt
  have hrecover : ((journal maxSizeBytes sessions more).recover (LimitOrderBook.reset Depth TableCapacity)).2 =
      LimitOrderBook.run Depth TableCapacity ((sessions.flatten ++ more).filter (Replayed ·)) := by
    rw [hholds.recover_filter hmapped]
    rfl
  have hlength : (sessions.flatten ++ more).length < 2 ^ 64 := by
    have hle := Nat.div_le_self maxSizeBytes sizeofWireMessage
    omega
  rw [hrecover]
  refine ⟨rfl, (SameContents.refl _).foldl_filter _, ?_⟩
  rw [LimitOrderBook.totalMessagesProcessed_run, LimitOrderBook.totalMessagesProcessed_run,
    length_filter_eq_iff hlength]
  constructor
  · exact And.left
  · intro hall
    have hfilter : (sessions.flatten ++ more).filter (Replayed ·) = sessions.flatten ++ more := by
      rw [List.filter_eq_self]
      simpa using hall
    exact ⟨hall, by rw [hfilter]⟩

/-- An add, a message of an unknown type in the next session, and a cancel. -/
theorem replay_agrees_two_sessions :
    ((journal 200 [[.ofAdd ⟨'A'.toUInt8, 1, 0, 7, 'B'.toUInt8, 100, 5⟩]]
        [.ofCancel ⟨'Z'.toUInt8, 2, 0, 7, 3⟩, .ofCancel ⟨'X'.toUInt8, 3, 0, 7, 3⟩]).recover
          (LimitOrderBook.reset 1 ⟨4, by decide, by decide⟩)).2 =
      LimitOrderBook.run 1 ⟨4, by decide, by decide⟩
        [.ofAdd ⟨'A'.toUInt8, 1, 0, 7, 'B'.toUInt8, 100, 5⟩, .ofCancel ⟨'X'.toUInt8, 3, 0, 7, 3⟩] :=
  (replay_agrees (by decide) _ _ (by unfold Typed; decide) (by decide) _ _).1

/-- A message of type `Z`: live processing counts it, the replay does not. -/
theorem replay_disagrees :
    ¬ ∀ (maxSizeBytes : Nat) (msgs : List WireMessage), Typed msgs →
      msgs.length < maxSizeBytes / sizeofWireMessage → ∀ Depth TableCapacity,
        ((journal maxSizeBytes [] msgs).recover (LimitOrderBook.reset Depth TableCapacity)).2.totalMessagesProcessed =
          (LimitOrderBook.run Depth TableCapacity msgs).totalMessagesProcessed := by
  intro h
  have htyped : Typed [.ofCancel ⟨'Z'.toUInt8, 1, 0, 7, 3⟩] := by
    unfold Typed
    decide
  have hholds : Holds 100 (journal 100 [] [.ofCancel ⟨'Z'.toUInt8, 1, 0, 7, 3⟩])
      ([].flatten ++ [.ofCancel ⟨'Z'.toUInt8, 1, 0, 7, 3⟩]) ∧ _ := holds_journal htyped (by decide)
  have hcount := h 100 [.ofCancel ⟨'Z'.toUInt8, 1, 0, 7, 3⟩] htyped (by decide) 1 ⟨4, by decide, by decide⟩
  rw [hholds.1.recover_filter hholds.2] at hcount
  revert hcount
  decide

end WALJournal

end FeedHandler
