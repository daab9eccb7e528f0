import FeedHandler.FeedArbitrator.Reordering
import FeedHandler.Foundation.Skipped
import Mathlib.Data.FinEnum

/-!
# The counters of the arbitrator

`sequenceGapsDetected` grows by the distance to the expected number with every message from the future, and
`duplicatesDropped` with every message from the past.  Two things are counted wrongly: a number missing when several
messages come behind it is counted again (`gapCount_iff`), and a copy of a message that still waits in the buffer is
counted by neither (`conserved_iff`).
-/

namespace FeedHandler

namespace DualFeedArbitrator

open SequenceNumbers

variable {MaxBufferedGaps : Nat} {s : DualFeedArbitrator MaxBufferedGaps × List WireMessage}

/-! ### What is buffered after a call -/

/-- A call of `ingest` buffers at most its own message. -/
theorem Holds.of_ingest {a : DualFeedArbitrator MaxBufferedGaps} {source : FeedSource} {msg : WireMessage}
    {n : UInt64} (h : (a.ingest source msg).2.Holds n) : a.Holds n ∨ n = msg.seqNo ∧ a.expectedSeqNo < msg.seqNo := by
  have hM := h.pos
  obtain ⟨-, hcall⟩ | ⟨-, hcall⟩ | ⟨hgt, hcall⟩ := ingest_cases a source msg
  · rw [hcall] at h
    exact Or.inl h
  · rw [hcall] at h
    exact Or.inl h
  · rw [hcall] at h
    unfold Holds at h
    dsimp only at h
    rw [getElem!_setIfInBounds _ _ (Nat.mod_lt _ hM)] at h
    by_cases hslot : msg.seqNo.toNat % MaxBufferedGaps = n.toNat % MaxBufferedGaps
    · rw [if_pos hslot] at h
      exact Or.inr ⟨h.2.symm, hgt⟩
    · rw [if_neg hslot] at h
      exact Or.inl h

/-- A successful drain takes one message out of the buffer. -/
theorem holds_drain_iff {a : DualFeedArbitrator MaxBufferedGaps} {n : UInt64} (h : a.Holds a.expectedSeqNo) :
    a.tryDrainBuffered.2.Holds n ↔ a.Holds n ∧ n ≠ a.expectedSeqNo := by
  constructor
  · intro hn
    rw [tryDrainBuffered_of_holds h] at hn
    unfold Holds at hn
    dsimp only at hn
    rw [getElem!_setIfInBounds _ _ (Nat.mod_lt _ h.pos)] at hn
    by_cases hslot : a.expectedSeqNo.toNat % MaxBufferedGaps = n.toNat % MaxBufferedGaps
    · rw [if_pos hslot] at hn
      cases hn.1
    · rw [if_neg hslot] at hn
      refine ⟨hn, ?_⟩
      rintro rfl
      exact hslot rfl
  · rintro ⟨hn, hne⟩
    exact hn.drain hne

/-- The message drained carries the expected number. -/
theorem out_drain (h : s.1.Holds s.1.expectedSeqNo) :
    (step s .tryDrainBuffered).2.map (·.seqNo) = s.2.map (·.seqNo) ++ [s.1.expectedSeqNo] := by
  show (s.2 ++ s.1.tryDrainBuffered.1.toList).map _ = _
  rw [tryDrainBuffered_of_holds h, List.map_append]
  congr 1
  simpa using h.2

/-- Draining leaves the two counters. -/
theorem counters_drain (s : DualFeedArbitrator MaxBufferedGaps × List WireMessage) :
    (drain s).1.sequenceGapsDetected = s.1.sequenceGapsDetected ∧
      (drain s).1.duplicatesDropped = s.1.duplicatesDropped := by
  refine drain_invariant (I := fun t => t.1.sequenceGapsDetected = s.1.sequenceGapsDetected ∧
    t.1.duplicatesDropped = s.1.duplicatesDropped) ?_ ⟨rfl, rfl⟩
  intro t ht h
  show t.1.tryDrainBuffered.2.sequenceGapsDetected = _ ∧ t.1.tryDrainBuffered.2.duplicatesDropped = _
  rw [tryDrainBuffered_of_holds h]
  exact ht

/-- The caller leaves no message in the buffer that could be put out. -/
theorem drained_receive (h : ¬ s.1.Holds s.1.expectedSeqNo) (x : FeedSource × WireMessage) :
    ¬ (receive s x).1.Holds (receive s x).1.expectedSeqNo := by
  unfold receive
  by_cases hsome : (s.1.ingest x.1 x.2).1.isSome = true
  · rw [if_pos hsome, ← isSome_tryDrainBuffered, drain_stops]
    exact Bool.false_ne_true
  · rw [if_neg hsome]
    show ¬ (s.1.ingest x.1 x.2).2.Holds (s.1.ingest x.1 x.2).2.expectedSeqNo
    have hexp : (s.1.ingest x.1 x.2).2.expectedSeqNo = s.1.expectedSeqNo := by
      obtain ⟨-, hcall⟩ | ⟨-, hcall⟩ | ⟨-, hcall⟩ := ingest_cases s.1 x.1 x.2
      · rw [hcall]
      · rw [hcall] at hsome
        exact absurd rfl hsome
      · rw [hcall]
    rw [hexp]
    intro hholds
    rcases hholds.of_ingest with hold | ⟨he, hgt⟩
    · exact h hold
    · rw [← he] at hgt
      exact UInt64.lt_irrefl _ hgt

/-- The arbitrator puts the expected message out. -/
def passOn (s : DualFeedArbitrator MaxBufferedGaps × List WireMessage) (msg : WireMessage) :
    DualFeedArbitrator MaxBufferedGaps × List WireMessage :=
  ({ s.1 with expectedSeqNo := s.1.expectedSeqNo + 1 }, s.2 ++ [msg])

@[simp] theorem mem_out_passOn {msg : WireMessage} {n : UInt64} :
    n ∈ (passOn s msg).2.map (·.seqNo) ↔ n ∈ s.2.map (·.seqNo) ∨ n = msg.seqNo := by
  unfold passOn
  rw [List.map_append, List.mem_append, List.map_singleton, List.mem_singleton]

/-- What a message of a feed does: it is dropped, put out with all that waits behind it, or buffered. -/
theorem receive_cases (s : DualFeedArbitrator MaxBufferedGaps × List WireMessage) (x : FeedSource × WireMessage) :
    (x.2.seqNo < s.1.expectedSeqNo ∧
      receive s x = ({ s.1 with duplicatesDropped := s.1.duplicatesDropped + 1 }, s.2)) ∨
    (x.2.seqNo = s.1.expectedSeqNo ∧ receive s x = drain (passOn s x.2)) ∨
    (s.1.expectedSeqNo < x.2.seqNo ∧ receive s x = ((s.1.ingest x.1 x.2).2, s.2)) := by
  unfold receive step call
  dsimp only
  obtain ⟨hdup, hcall⟩ | ⟨hnext, hcall⟩ | ⟨hgt, hcall⟩ := ingest_cases s.1 x.1 x.2
  · left
    rw [hcall]
    exact ⟨hdup, by simp⟩
  · right; left
    rw [hcall]
    exact ⟨hnext, by simp [passOn]⟩
  · right; right
    rw [hcall]
    exact ⟨hgt, by simp⟩

/-! ### Where the messages went -/

/-- The numbers of the messages that wait in the buffer to be put out. -/
def waiting (s : DualFeedArbitrator MaxBufferedGaps × List WireMessage) : Set UInt64 :=
  {n | s.1.Holds n ∧ n ∉ s.2.map (·.seqNo)}

/-- The messages put out, counted as duplicates, or waiting. -/
noncomputable def ledger (s : DualFeedArbitrator MaxBufferedGaps × List WireMessage) : Nat :=
  s.2.length + s.1.duplicatesDropped.toNat + (waiting s).ncard

/-- A message from the past is counted, and one from the future is new and finds its slot free. -/
def Accounted (s : DualFeedArbitrator MaxBufferedGaps × List WireMessage) (msg : WireMessage) : Prop :=
  (msg.seqNo < s.1.expectedSeqNo → s.1.duplicatesDropped < s.1.duplicatesDropped + 1) ∧
    (s.1.expectedSeqNo < msg.seqNo →
      s.1.gapBuffer[msg.seqNo.toNat % MaxBufferedGaps]!.active = false ∧ msg.seqNo ∉ s.2.map (·.seqNo))

instance (s : DualFeedArbitrator MaxBufferedGaps × List WireMessage) (msg : WireMessage) :
    Decidable (Accounted s msg) :=
  inferInstanceAs (Decidable ((_ → _) ∧ (_ → _ ∧ _)))

/-- What is buffered lies in its slot and was not put out. -/
structure Tidy (s : DualFeedArbitrator MaxBufferedGaps × List WireMessage) : Prop where
  placed : s.1.Placed
  unsent : ∀ n, s.1.Holds n → n ∉ s.2.map (·.seqNo)

theorem tidy_reset (MaxBufferedGaps : Nat) : Tidy (reset MaxBufferedGaps, []) where
  placed := placed_reset MaxBufferedGaps
  unsent _ _ := List.not_mem_nil

/-- A successful drain moves one message from the buffer to the output. -/
theorem Tidy.drain_step (h : Tidy s) (hexp : s.1.Holds s.1.expectedSeqNo) :
    Tidy (step s .tryDrainBuffered) ∧
      (step s .tryDrainBuffered).2.length + (waiting (step s .tryDrainBuffered)).ncard =
        s.2.length + (waiting s).ncard := by
  have hout := out_drain hexp
  have hwaiting : waiting (step s .tryDrainBuffered) = waiting s \ {s.1.expectedSeqNo} := by
    ext n
    show s.1.tryDrainBuffered.2.Holds n ∧ _ ↔ (s.1.Holds n ∧ _) ∧ _
    rw [holds_drain_iff hexp, hout, List.mem_append, List.mem_singleton, Set.mem_singleton_iff]
    tauto
  refine ⟨⟨h.placed.drain hexp, fun n hn => ?_⟩, ?_⟩
  · obtain ⟨hold, hne⟩ := (holds_drain_iff hexp).1 hn
    rw [hout, List.mem_append, List.mem_singleton]
    rintro (hmem | he)
    · exact h.unsent n hold hmem
    · exact hne he
  · have hmem : s.1.expectedSeqNo ∈ waiting s := ⟨hexp, h.unsent _ hexp⟩
    have hcard := Set.ncard_sdiff_singleton_add_one hmem
    have hlen := congrArg List.length hout
    rw [List.length_append, List.length_map, List.length_map, List.length_singleton] at hlen
    rw [hwaiting]
    omega

theorem Tidy.drain (h : Tidy s) :
    Tidy (drain s) ∧ (drain s).2.length + (waiting (drain s)).ncard = s.2.length + (waiting s).ncard := by
  refine drain_invariant (I := fun t => Tidy t ∧ t.2.length + (waiting t).ncard = s.2.length + (waiting s).ncard) ?_
    ⟨h, rfl⟩
  rintro t ⟨ht, hsum⟩ hexp
  obtain ⟨htidy, hstep⟩ := ht.drain_step hexp
  exact ⟨htidy, hstep.trans hsum⟩

/-- The expected message goes out and nothing else changes. -/
theorem Tidy.next (h : Tidy s) (hdrained : ¬ s.1.Holds s.1.expectedSeqNo) {msg : WireMessage}
    (hnext : msg.seqNo = s.1.expectedSeqNo) : Tidy (passOn s msg) ∧ waiting (passOn s msg) = waiting s := by
  have hne : ∀ n, s.1.Holds n → n ≠ msg.seqNo := by
    rintro n hn rfl
    rw [hnext] at hn
    exact hdrained hn
  refine ⟨⟨h.placed, fun n hn => ?_⟩, ?_⟩
  · rw [mem_out_passOn]
    rintro (hmem | he)
    · exact h.unsent n hn hmem
    · exact hne n hn he
  · ext n
    show s.1.Holds n ∧ n ∉ (passOn s msg).2.map (·.seqNo) ↔ s.1.Holds n ∧ _
    rw [mem_out_passOn]
    constructor
    · rintro ⟨hn, hmem⟩
      exact ⟨hn, fun hold => hmem (Or.inl hold)⟩
    · rintro ⟨hn, hmem⟩
      exact ⟨hn, fun hout => hout.elim hmem (hne n hn)⟩

/-- A new message that finds its slot free waits with the others. -/
theorem Tidy.buffer (hM : 0 < MaxBufferedGaps) (h : Tidy s) {x : FeedSource × WireMessage}
    (hgt : s.1.expectedSeqNo < x.2.seqNo)
    (hfree : s.1.gapBuffer[x.2.seqNo.toNat % MaxBufferedGaps]!.active = false)
    (hnew : x.2.seqNo ∉ s.2.map (·.seqNo)) :
    Tidy ((s.1.ingest x.1 x.2).2, s.2) ∧
      (waiting ((s.1.ingest x.1 x.2).2, s.2)).ncard = (waiting s).ncard + 1 := by
  have hself := holds_ingest_self hM x.1 hgt
  -- no message that waits has the slot
  have hslot : ∀ n, s.1.Holds n → n.toNat % MaxBufferedGaps ≠ x.2.seqNo.toNat % MaxBufferedGaps := by
    intro n hn he
    have hact := hn.1
    rw [he, hfree] at hact
    cases hact
  have hinsert : waiting ((s.1.ingest x.1 x.2).2, s.2) = insert x.2.seqNo (waiting s) := by
    ext n
    rw [Set.mem_insert_iff]
    constructor
    · rintro ⟨hn, hmem⟩
      exact hn.of_ingest.symm.imp And.left fun hold => ⟨hold, hmem⟩
    · rintro (rfl | ⟨hn, hmem⟩)
      · exact ⟨hself, hnew⟩
      · have hne : x.2.seqNo ≠ n := by
          rintro rfl
          exact hslot _ hn rfl
        exact ⟨(holds_ingest_iff x.1 hn hne).2 fun htaken => hslot n hn htaken.2.symm, hmem⟩
  refine ⟨⟨h.placed.ingest x.1 x.2, fun n hn => ?_⟩, ?_⟩
  · rcases hn.of_ingest with hold | ⟨rfl, -⟩
    · exact h.unsent n hold
    · exact hnew
  · rw [hinsert, Set.ncard_insert_of_notMem]
    rintro ⟨hn, -⟩
    exact hslot _ hn rfl

/-- A message that was put out before or finds its slot taken adds nothing to those that wait. -/
theorem Tidy.buffer_taken (h : Tidy s) {x : FeedSource × WireMessage} (hgt : s.1.expectedSeqNo < x.2.seqNo)
    (htaken : ¬ (s.1.gapBuffer[x.2.seqNo.toNat % MaxBufferedGaps]!.active = false ∧
      x.2.seqNo ∉ s.2.map (·.seqNo))) :
    (waiting ((s.1.ingest x.1 x.2).2, s.2)).ncard ≤ (waiting s).ncard := by
  by_cases hout : x.2.seqNo ∈ s.2.map (·.seqNo)
  · refine Set.ncard_le_ncard fun n hn => ?_
    obtain ⟨hholds, hmem⟩ := hn
    rcases hholds.of_ingest with hold | ⟨rfl, -⟩
    · exact ⟨hold, hmem⟩
    · exact absurd hout hmem
  · have hact : s.1.gapBuffer[x.2.seqNo.toNat % MaxBufferedGaps]!.active = true := by
      simpa [hout] using htaken
    obtain ⟨p, hp⟩ : ∃ p, s.1.gapBuffer[x.2.seqNo.toNat % MaxBufferedGaps]!.msg.seqNo = p := ⟨_, rfl⟩
    have hM : 0 < MaxBufferedGaps := by
      by_contra hzero
      rw [getElem!_neg _ _ (by omega)] at hact
      cases hact
    -- the message in the slot is the one that is written over
    have hslot : p.toNat % MaxBufferedGaps = x.2.seqNo.toNat % MaxBufferedGaps := by
      rw [← hp]
      exact h.placed _ (Nat.mod_lt _ hM) hact
    have hholds : s.1.Holds p := by
      unfold Holds
      rw [hslot]
      exact ⟨hact, hp⟩
    have hsub : waiting ((s.1.ingest x.1 x.2).2, s.2) ⊆ insert x.2.seqNo (waiting s \ {p}) := by
      rintro n ⟨hn, hmem⟩
      by_cases hne : x.2.seqNo = n
      · exact Or.inl hne.symm
      · have hold : s.1.Holds n := hn.of_ingest.resolve_right fun hself => hne hself.1.symm
        refine Or.inr ⟨⟨hold, hmem⟩, ?_⟩
        rintro rfl
        exact (holds_ingest_iff x.1 hold hne).1 hn ⟨hgt, hslot.symm⟩
    have hwaits : p ∈ waiting s := ⟨hholds, h.unsent p hholds⟩
    have hcard := Set.ncard_sdiff_singleton_add_one hwaits
    calc (waiting ((s.1.ingest x.1 x.2).2, s.2)).ncard
        ≤ (insert x.2.seqNo (waiting s \ {p})).ncard := Set.ncard_le_ncard hsub
      _ ≤ (waiting s \ {p}).ncard + 1 := Set.ncard_insert_le _ _
      _ = (waiting s).ncard := hcard

/-- One message: it is accounted for under the condition and no other. -/
theorem Tidy.ledger_receive (hM : 0 < MaxBufferedGaps) (h : Tidy s) (hdrained : ¬ s.1.Holds s.1.expectedSeqNo)
    (x : FeedSource × WireMessage) :
    (ledger (receive s x) = ledger s + 1 ↔ Accounted s x.2) ∧ (Accounted s x.2 → Tidy (receive s x)) := by
  obtain ⟨hdup, hcall⟩ | ⟨hnext, hcall⟩ | ⟨hgt, hcall⟩ := receive_cases s x
  · have hge : ¬ s.1.expectedSeqNo < x.2.seqNo := UInt64.lt_asymm hdup
    rw [hcall]
    refine ⟨?_, fun _ => ⟨h.placed, h.unsent⟩⟩
    have hcount : Accounted s x.2 ↔ s.1.duplicatesDropped < s.1.duplicatesDropped + 1 :=
      ⟨fun hacc => hacc.1 hdup, fun hlt => ⟨fun _ => hlt, fun hgt => absurd hgt hge⟩⟩
    have hone : (1 : UInt64).toNat = 1 := rfl
    have hbound := s.1.duplicatesDropped.toNat_lt
    rw [hcount, UInt64.lt_iff_toNat_lt]
    show s.2.length + (s.1.duplicatesDropped + 1).toNat + (waiting s).ncard = ledger s + 1 ↔ _
    unfold ledger
    rw [UInt64.toNat_add, hone]
    omega
  · -- the message and all that waits behind it go out
    obtain ⟨htidy, hsame⟩ := h.next hdrained hnext
    obtain ⟨hend, hsum⟩ := htidy.drain
    rw [hsame] at hsum
    have hlen : (passOn s x.2).2.length = s.2.length + 1 := List.length_append
    have hcounter : (DualFeedArbitrator.drain (passOn s x.2)).1.duplicatesDropped = s.1.duplicatesDropped :=
      (counters_drain (passOn s x.2)).2
    rw [hcall]
    refine ⟨iff_of_true ?_ ⟨fun hlt => ?_, fun hlt => ?_⟩, fun _ => hend⟩
    · unfold ledger
      rw [hcounter]
      omega
    · exact absurd (hnext ▸ hlt) (UInt64.lt_irrefl _)
    · exact absurd (hnext ▸ hlt) (UInt64.lt_irrefl _)
  · have hge : ¬ x.2.seqNo < s.1.expectedSeqNo := UInt64.lt_asymm hgt
    have hcounter : (s.1.ingest x.1 x.2).2.duplicatesDropped = s.1.duplicatesDropped := by
      obtain ⟨hdup, -⟩ | ⟨-, hingest⟩ | ⟨-, hingest⟩ := ingest_cases s.1 x.1 x.2
      · exact absurd hdup hge
      · rw [hingest]
      · rw [hingest]
    rw [hcall]
    by_cases hfree : s.1.gapBuffer[x.2.seqNo.toNat % MaxBufferedGaps]!.active = false ∧
        x.2.seqNo ∉ s.2.map (·.seqNo)
    · obtain ⟨htidy, hcard⟩ := h.buffer hM hgt hfree.1 hfree.2
      refine ⟨iff_of_true ?_ ⟨fun hlt => absurd hlt hge, fun _ => hfree⟩, fun _ => htidy⟩
      unfold ledger
      rw [hcounter, hcard]
      dsimp only
      omega
    · have hcard := h.buffer_taken hgt hfree
      refine ⟨iff_of_false ?_ fun hacc => hfree (hacc.2 hgt), fun hacc => absurd (hacc.2 hgt) hfree⟩
      unfold ledger
      rw [hcounter]
      dsimp only
      omega

@[simp] theorem runDraining_append (history : List (FeedSource × WireMessage)) (x : FeedSource × WireMessage) :
    runDraining MaxBufferedGaps (history ++ [x]) = receive (runDraining MaxBufferedGaps history) x := by
  simp [runDraining, List.foldl_append]

theorem not_holds_reset (MaxBufferedGaps : Nat) (n : UInt64) : ¬ (reset MaxBufferedGaps).Holds n := by
  intro h
  have hact := h.1
  rw [gapBuffer_reset _ (Nat.mod_lt _ h.pos)] at hact
  cases hact

/-- One more message of a history whose messages are all accounted for. -/
theorem ledger_step (hM : 0 < MaxBufferedGaps) (history : List (FeedSource × WireMessage))
    (x : FeedSource × WireMessage)
    (htidy : Tidy (runDraining MaxBufferedGaps history) ∧ ¬ (runDraining MaxBufferedGaps history).1.Holds
      (runDraining MaxBufferedGaps history).1.expectedSeqNo)
    (hledger : history.length = ledger (runDraining MaxBufferedGaps history)) :
    ((history ++ [x]).length = ledger (runDraining MaxBufferedGaps (history ++ [x])) ↔
        Accounted (runDraining MaxBufferedGaps history) x.2) ∧
      (Accounted (runDraining MaxBufferedGaps history) x.2 →
        Tidy (runDraining MaxBufferedGaps (history ++ [x])) ∧
          ¬ (runDraining MaxBufferedGaps (history ++ [x])).1.Holds
            (runDraining MaxBufferedGaps (history ++ [x])).1.expectedSeqNo) := by
  obtain ⟨hiff, hnext⟩ := htidy.1.ledger_receive hM htidy.2 x
  rw [runDraining_append, List.length_append, List.length_singleton, hledger, eq_comm]
  exact ⟨hiff, fun hacc => ⟨hnext hacc, drained_receive htidy.2 x⟩⟩

theorem ledger_reset (MaxBufferedGaps : Nat) : ledger (reset MaxBufferedGaps, []) = 0 := by
  have hnone : waiting (reset MaxBufferedGaps, []) = ∅ := by
    ext n
    exact iff_of_false (fun hn => not_holds_reset MaxBufferedGaps n hn.1) (Set.notMem_empty n)
  unfold ledger
  rw [hnone, Set.ncard_empty]
  rfl

/-- After every message of a history the messages ingested are those put out, those counted as duplicates and those
that wait, exactly when every message from the future is new and finds its slot of the buffer free, and the counter of
duplicates does not overflow. -/
theorem duplicates_accounted_iff (hM : 0 < MaxBufferedGaps) (history : List (FeedSource × WireMessage)) :
    (∀ pre, pre <+: history → pre.length = ledger (runDraining MaxBufferedGaps pre)) ↔
      Runs.Along receive (fun s x => Accounted s x.2) (reset MaxBufferedGaps, []) history := by
  apply Runs.forall_prefix_iff_along (J := fun history => Tidy (runDraining MaxBufferedGaps history) ∧
    ¬ (runDraining MaxBufferedGaps history).1.Holds (runDraining MaxBufferedGaps history).1.expectedSeqNo)
  · exact ⟨⟨tidy_reset MaxBufferedGaps, not_holds_reset MaxBufferedGaps _⟩, (ledger_reset MaxBufferedGaps).symm⟩
  · exact ledger_step hM

/-- Message 2 waits for 1, which comes on both feeds. -/
theorem duplicates_accounted_iff_two_feeds :
    (∀ pre, pre <+: [(.FeedA, .ofCancel ⟨'X'.toUInt8, 2, 0, 7, 3⟩), (.FeedA, .ofCancel ⟨'X'.toUInt8, 1, 0, 7, 4⟩),
        (.FeedB, .ofCancel ⟨'X'.toUInt8, 1, 0, 7, 4⟩)] → pre.length = ledger (runDraining 4 pre)) ↔
      Runs.Along receive (fun s x => Accounted s x.2) (reset 4, [])
        [(.FeedA, .ofCancel ⟨'X'.toUInt8, 2, 0, 7, 3⟩), (.FeedA, .ofCancel ⟨'X'.toUInt8, 1, 0, 7, 4⟩),
          (.FeedB, .ofCancel ⟨'X'.toUInt8, 1, 0, 7, 4⟩)] :=
  duplicates_accounted_iff (by decide) _

/-- Message 2 comes on both feeds while 1 is missing: one copy waits, the other one is counted nowhere. -/
theorem waiting_duplicate_unaccounted :
    ¬ ∀ (MaxBufferedGaps : Nat) (history : List (FeedSource × WireMessage)), 0 < MaxBufferedGaps →
      InWindow MaxBufferedGaps history → Consistent (received history) →
        history.length = ledger (runDraining MaxBufferedGaps history) := by
  intro h
  have hone := h 4 [(.FeedA, .ofCancel ⟨'X'.toUInt8, 2, 0, 7, 3⟩)] (by decide) ⟨by decide, by decide⟩
    (by unfold Consistent; decide)
  have htwo := h 4 [(.FeedA, .ofCancel ⟨'X'.toUInt8, 2, 0, 7, 3⟩), (.FeedB, .ofCancel ⟨'X'.toUInt8, 2, 0, 7, 3⟩)]
    (by decide) ⟨by decide, by decide⟩ (by unfold Consistent; decide)
  have hfirst := (ledger_step (by decide : 0 < 4) [] (.FeedA, .ofCancel ⟨'X'.toUInt8, 2, 0, 7, 3⟩)
    ⟨tidy_reset 4, not_holds_reset 4 _⟩ (ledger_reset 4).symm).2 (by decide)
  exact absurd ((ledger_step (by decide) [(.FeedA, .ofCancel ⟨'X'.toUInt8, 2, 0, 7, 3⟩)]
    (.FeedB, .ofCancel ⟨'X'.toUInt8, 2, 0, 7, 3⟩) hfirst hone).1.1 htwo) (by decide)

/-! ### What was missing -/

/-- The numbers below an arriving one that were neither put out nor buffered. -/
def missing (s : DualFeedArbitrator MaxBufferedGaps × List WireMessage) (seq : UInt64) : Set UInt64 :=
  {n | 1 ≤ n ∧ n < seq ∧ n ∉ s.2.map (·.seqNo) ∧ ¬ s.1.Holds n}

/-- The numbers that were missing when a higher one arrived. -/
def missed (MaxBufferedGaps : Nat) (history : List (FeedSource × WireMessage)) : Set UInt64 :=
  {n | ∃ pre x post, history = pre ++ x :: post ∧ n ∈ missing (runDraining MaxBufferedGaps pre) x.2.seqNo}

/-- A message from the future is new, and nothing waits in the buffer. -/
def OpensGap (s : DualFeedArbitrator MaxBufferedGaps × List WireMessage) (msg : WireMessage) : Prop :=
  s.1.expectedSeqNo < msg.seqNo → msg.seqNo ∉ s.2.map (·.seqNo) ∧ ∀ n, s.1.Holds n → n ∈ s.2.map (·.seqNo)

/-- The numbers put out are those below the expected one; once the counter has wrapped, all of them. -/
def Numbered (s : DualFeedArbitrator MaxBufferedGaps × List WireMessage) : Prop :=
  (∀ n, 1 ≤ n → n ∈ s.2.map (·.seqNo)) ∨
    1 ≤ s.1.expectedSeqNo ∧ ∀ n, n ∈ s.2.map (·.seqNo) ↔ 1 ≤ n ∧ n < s.1.expectedSeqNo

theorem Numbered.emit (h : Numbered s) {t : DualFeedArbitrator MaxBufferedGaps × List WireMessage}
    (hexp : t.1.expectedSeqNo = s.1.expectedSeqNo + 1)
    (hout : ∀ n, n ∈ t.2.map (·.seqNo) ↔ n ∈ s.2.map (·.seqNo) ∨ n = s.1.expectedSeqNo) : Numbered t := by
  rcases h with hall | ⟨hone, hbelow⟩
  · left
    intro n hn
    exact (hout n).2 (Or.inl (hall n hn))
  · by_cases hwrap : s.1.expectedSeqNo.toNat < 2 ^ 64 - 1
    · right
      have hnext := RingIndex.toNat_succ (Nat.add_lt_of_lt_sub hwrap)
      rw [hexp]
      constructor
      · rw [UInt64.le_iff_toNat_le, hnext]
        exact Nat.le_add_left 1 _
      · intro n
        rw [hout, hbelow, UInt64.lt_iff_toNat_lt, UInt64.lt_iff_toNat_lt, hnext, ← UInt64.toNat_inj]
        rw [UInt64.le_iff_toNat_le] at hone ⊢
        omega
    · -- the last number was put out
      left
      intro n hn
      have hlt := n.toNat_lt
      rw [hout, hbelow, UInt64.lt_iff_toNat_lt, ← UInt64.toNat_inj]
      by_cases he : n.toNat = s.1.expectedSeqNo.toNat
      · exact Or.inr he
      · exact Or.inl ⟨hn, by omega⟩

theorem Numbered.below (h : Numbered s) {m n : UInt64} (hm : m ∈ s.2.map (·.seqNo)) (hone : 1 ≤ n) (hlt : n < m) :
    n ∈ s.2.map (·.seqNo) := by
  rcases h with hall | ⟨-, hbelow⟩
  · exact hall n hone
  · exact (hbelow n).2 ⟨hone, UInt64.lt_trans hlt ((hbelow m).1 hm).2⟩

/-- While a number is to come, those to come are the numbers from the expected one on. -/
theorem Numbered.not_mem_out_iff (h : Numbered s) {m n : UInt64} (hm : m ∉ s.2.map (·.seqNo)) (hone : 1 ≤ m)
    (hn : 1 ≤ n) : n ∉ s.2.map (·.seqNo) ↔ s.1.expectedSeqNo ≤ n := by
  rcases h with hall | ⟨-, hbelow⟩
  · exact absurd (hall m hone) hm
  · rw [hbelow, not_and, UInt64.not_lt]
    exact ⟨fun h => h hn, fun h _ => h⟩

/-- What the missed numbers have to do with the buffer: a message waits behind each missed number that is to come, and
nothing else is waited for. -/
structure Watched (s : DualFeedArbitrator MaxBufferedGaps × List WireMessage) (missed : Set UInt64) : Prop where
  numbered : Numbered s
  held_pos : ∀ n, s.1.Holds n → 1 ≤ n
  awaited : ∀ n ∈ missed, 1 ≤ n ∧ (n ∈ s.2.map (·.seqNo) ∨ ∃ m, n < m ∧ s.1.Holds m)
  recorded : ∀ m, s.1.Holds m → m ∉ s.2.map (·.seqNo) →
    ∀ n, 1 ≤ n → n < m → n ∉ s.2.map (·.seqNo) → n ∈ missed

/-- The expected message goes out, from the feed or from the buffer. -/
theorem Watched.emit {missed : Set UInt64} (h : Watched s missed)
    {t : DualFeedArbitrator MaxBufferedGaps × List WireMessage}
    (hexp : t.1.expectedSeqNo = s.1.expectedSeqNo + 1)
    (hout : ∀ n, n ∈ t.2.map (·.seqNo) ↔ n ∈ s.2.map (·.seqNo) ∨ n = s.1.expectedSeqNo)
    (hholds : ∀ n, t.1.Holds n ↔ s.1.Holds n ∧ n ≠ s.1.expectedSeqNo) : Watched t missed := by
  have hnumbered := h.numbered.emit hexp hout
  refine ⟨hnumbered, ?_, ?_, ?_⟩
  · intro n hn
    exact h.held_pos n ((hholds n).1 hn).1
  · intro n hn
    obtain ⟨hone, hold | ⟨m, hlt, hm⟩⟩ := h.awaited n hn
    · exact ⟨hone, Or.inl ((hout n).2 (Or.inl hold))⟩
    · refine ⟨hone, ?_⟩
      by_cases he : m = s.1.expectedSeqNo
      · -- the message behind the number goes out itself, so the number was put out before
        exact Or.inl (hnumbered.below ((hout m).2 (Or.inr he)) hone hlt)
      · exact Or.inr ⟨m, hlt, (hholds m).2 ⟨hm, he⟩⟩
  · intro m hm hmout n hone hlt hnout
    apply h.recorded m ((hholds m).1 hm).1 _ n hone hlt
    · intro hold
      exact hnout ((hout n).2 (Or.inl hold))
    · intro hold
      exact hmout ((hout m).2 (Or.inl hold))

theorem Watched.drain {missed : Set UInt64} (h : Watched s missed) : Watched (drain s) missed := by
  refine drain_invariant (I := (Watched · missed)) ?_ h
  intro t ht hexp
  apply ht.emit
  · show t.1.tryDrainBuffered.2.expectedSeqNo = _
    rw [tryDrainBuffered_of_holds hexp]
  · intro n
    rw [out_drain hexp, List.mem_append, List.mem_singleton]
  · intro n
    exact holds_drain_iff hexp

theorem Watched.next {missed : Set UInt64} (h : Watched s missed) (hdrained : ¬ s.1.Holds s.1.expectedSeqNo)
    {msg : WireMessage} (hnext : msg.seqNo = s.1.expectedSeqNo) : Watched (passOn s msg) missed := by
  apply h.emit rfl
  · intro n
    rw [mem_out_passOn, hnext]
  · intro n
    refine ⟨fun hn => ⟨hn, ?_⟩, And.left⟩
    rintro rfl
    exact hdrained hn

/-- A message from the future that opens a gap. -/
theorem Watched.buffer (hM : 0 < MaxBufferedGaps) {missed : Set UInt64} (h : Watched s missed)
    {x : FeedSource × WireMessage} (hgt : s.1.expectedSeqNo < x.2.seqNo) (hopen : OpensGap s x.2) :
    Watched ((s.1.ingest x.1 x.2).2, s.2) (missed ∪ missing s x.2.seqNo) := by
  obtain ⟨hnew, hempty⟩ := hopen hgt
  have hself := holds_ingest_self hM x.1 hgt
  refine ⟨?_, ?_, ?_, ?_⟩
  · have hexp : (s.1.ingest x.1 x.2).2.expectedSeqNo = s.1.expectedSeqNo := by
      obtain ⟨-, hcall⟩ | ⟨hnext, -⟩ | ⟨-, hcall⟩ := ingest_cases s.1 x.1 x.2
      · rw [hcall]
      · exact absurd (hnext ▸ hgt) (UInt64.lt_irrefl _)
      · rw [hcall]
    unfold Numbered
    dsimp only
    rw [hexp]
    exact h.numbered
  · intro n hn
    rcases hn.of_ingest with hold | ⟨rfl, -⟩
    · exact h.held_pos n hold
    · rw [UInt64.le_iff_toNat_le]
      rw [UInt64.lt_iff_toNat_lt] at hgt
      exact Nat.succ_le_of_lt (Nat.zero_lt_of_lt hgt)
  · rintro n (hn | ⟨hone, hlt, -, -⟩)
    · obtain ⟨hone, hold | ⟨m, hlt, hm⟩⟩ := h.awaited n hn
      · exact ⟨hone, Or.inl hold⟩
      · exact ⟨hone, Or.inl (h.numbered.below (hempty m hm) hone hlt)⟩
    · exact ⟨hone, Or.inr ⟨_, hlt, hself⟩⟩
  · intro m hm hmout n hone hlt hnout
    rcases hm.of_ingest with hold | ⟨rfl, -⟩
    · exact absurd (hempty m hold) hmout
    · exact Or.inr ⟨hone, hlt, hnout, fun hn => hnout (hempty n hn)⟩

theorem ncard_between (a b : UInt64) : {n | a ≤ n ∧ n < b}.ncard = b.toNat - a.toNat := by
  have himage : UInt64.toNat '' {n | a ≤ n ∧ n < b} = Finset.Ico a.toNat b.toNat := by
    ext k
    rw [Finset.coe_Ico, Set.mem_Ico]
    constructor
    · rintro ⟨n, ⟨hle, hlt⟩, rfl⟩
      exact ⟨UInt64.le_iff_toNat_le.1 hle, UInt64.lt_iff_toNat_lt.1 hlt⟩
    · rintro ⟨hle, hlt⟩
      have hk : (UInt64.ofNat k).toNat = k := UInt64.toNat_ofNat_of_lt' (hlt.trans b.toNat_lt)
      refine ⟨UInt64.ofNat k, ⟨?_, ?_⟩, hk⟩
      · rw [UInt64.le_iff_toNat_le, hk]
        exact hle
      · rw [UInt64.lt_iff_toNat_lt, hk]
        exact hlt
  rw [← Set.ncard_image_of_injective _ fun m n => UInt64.toNat_inj.1, himage, Set.ncard_coe_finset, Nat.card_Ico]

/-- The numbers missing when a message arrives are not below the expected one. -/
theorem Numbered.missing_subset (h : Numbered s) (seq : UInt64) :
    missing s seq ⊆ {n | s.1.expectedSeqNo ≤ n ∧ n < seq} := by
  rintro n ⟨hone, hlt, hout, -⟩
  exact ⟨(h.not_mem_out_iff hout hone hone).1 hout, hlt⟩

/-- In front of a gap all numbers from the expected one on are missing, and none was missed before. -/
theorem Watched.missing_of_opensGap {missed : Set UInt64} (h : Watched s missed) {msg : WireMessage}
    (hgt : s.1.expectedSeqNo < msg.seqNo) (hopen : OpensGap s msg) :
    missing s msg.seqNo = {n | s.1.expectedSeqNo ≤ n ∧ n < msg.seqNo} ∧
      missed ⊆ {n | 1 ≤ n ∧ n < s.1.expectedSeqNo} := by
  obtain ⟨hnew, hempty⟩ := hopen hgt
  have hpos : 1 ≤ msg.seqNo := by
    rw [UInt64.le_iff_toNat_le]
    rw [UInt64.lt_iff_toNat_lt] at hgt
    exact Nat.succ_le_of_lt (Nat.zero_lt_of_lt hgt)
  have hright : 1 ≤ s.1.expectedSeqNo ∧ ∀ n, n ∈ s.2.map (·.seqNo) ↔ 1 ≤ n ∧ n < s.1.expectedSeqNo :=
    h.numbered.resolve_left fun hall => hnew (hall _ hpos)
  obtain ⟨hone, hbelow⟩ := hright
  constructor
  · apply Set.Subset.antisymm (h.numbered.missing_subset msg.seqNo)
    rintro n ⟨hle, hlt⟩
    have hn : n ∉ s.2.map (·.seqNo) := by
      rw [hbelow]
      rintro ⟨-, hn⟩
      exact UInt64.not_lt.2 hle hn
    exact ⟨UInt64.le_trans hone hle, hlt, hn, fun hheld => hn (hempty n hheld)⟩
  · intro n hn
    obtain ⟨hnone, hold | ⟨m, hlt, hm⟩⟩ := h.awaited n hn
    · exact (hbelow n).1 hold
    · exact ⟨hnone, UInt64.lt_trans hlt ((hbelow m).1 (hempty m hm)).2⟩

/-- A message from the future in front of which every number from the expected one on is missing for the first time. -/
theorem Watched.opensGap {missed : Set UInt64} (h : Watched s missed) {msg : WireMessage}
    (hgt : s.1.expectedSeqNo < msg.seqNo)
    (hall : missing s msg.seqNo = {n | s.1.expectedSeqNo ≤ n ∧ n < msg.seqNo})
    (hfirst : missed ∩ missing s msg.seqNo = ∅) : OpensGap s msg := by
  intro _
  have hexp : s.1.expectedSeqNo ∈ missing s msg.seqNo := by
    rw [hall]
    exact ⟨UInt64.le_refl _, hgt⟩
  obtain ⟨hone, -, hout, hdrained⟩ := hexp
  constructor
  · rw [h.numbered.not_mem_out_iff hout hone (UInt64.le_trans hone (UInt64.le_of_lt hgt))]
    exact UInt64.le_of_lt hgt
  · intro n hn
    by_contra hnout
    -- a message that waits makes the expected number one that was missed before
    have hle := (h.numbered.not_mem_out_iff hout hone (h.held_pos n hn)).1 hnout
    have hne : s.1.expectedSeqNo ≠ n := by
      rintro he
      rw [← he] at hn
      exact hdrained hn
    have hmem := h.recorded n hn hnout _ hone (UInt64.lt_of_le_of_ne hle hne) hout
    have hboth : s.1.expectedSeqNo ∈ missed ∩ missing s msg.seqNo := ⟨hmem, hone, hgt, hout, hdrained⟩
    rw [hfirst] at hboth
    exact hboth

/-- What a message from the future adds to the counter is the number of the numbers it finds missing for the first
time, exactly when it opens a gap. -/
theorem Watched.count_buffer {missed : Set UInt64} (h : Watched s missed) {msg : WireMessage}
    (hgt : s.1.expectedSeqNo < msg.seqNo) (hcount : s.1.sequenceGapsDetected.toNat = missed.ncard) :
    (s.1.sequenceGapsDetected + (msg.seqNo - s.1.expectedSeqNo)).toNat = (missed ∪ missing s msg.seqNo).ncard ↔
      OpensGap s msg := by
  have hle := UInt64.le_of_lt hgt
  have hlt := UInt64.lt_iff_toNat_lt.1 hgt
  have hbound := msg.seqNo.toNat_lt
  have hcounter := s.1.sequenceGapsDetected.toNat_lt
  have hrange := ncard_between s.1.expectedSeqNo msg.seqNo
  have hsub := h.numbered.missing_subset msg.seqNo
  have hcard := Set.ncard_le_ncard hsub
  have hunion := Set.ncard_union_add_ncard_inter missed (missing s msg.seqNo)
  have hmono : missed.ncard ≤ (missed ∪ missing s msg.seqNo).ncard := Set.ncard_le_ncard Set.subset_union_left
  rw [UInt64.toNat_add, UInt64.toNat_sub_of_le _ _ hle, hcount]
  rw [hcount] at hcounter
  constructor
  · intro heq
    have hfull : (missing s msg.seqNo).ncard = msg.seqNo.toNat - s.1.expectedSeqNo.toNat := by omega
    have hinter : (missed ∩ missing s msg.seqNo).ncard = 0 := by omega
    apply h.opensGap hgt
    · exact Set.eq_of_subset_of_ncard_le hsub (by omega)
    · exact (Set.ncard_eq_zero (Set.toFinite _)).1 hinter
  · intro hopen
    obtain ⟨hall, hold⟩ := h.missing_of_opensGap hgt hopen
    have hpast := ncard_between 1 s.1.expectedSeqNo
    have hfew := Set.ncard_le_ncard hold
    have hinter : missed ∩ missing s msg.seqNo = ∅ := by
      rw [Set.eq_empty_iff_forall_notMem, hall]
      rintro n ⟨hn, hge, -⟩
      exact UInt64.not_lt.2 hge (hold hn).2
    rw [hinter, Set.ncard_empty, hall, hrange] at hunion
    rw [hall]
    omega

/-- A message that is not from the future finds no number missing. -/
theorem Numbered.missing_eq_empty (h : Numbered s) {seq : UInt64} (hle : seq ≤ s.1.expectedSeqNo) :
    missing s seq = ∅ := by
  rw [Set.eq_empty_iff_forall_notMem]
  intro n hn
  obtain ⟨hge, hlt⟩ := h.missing_subset seq hn
  exact UInt64.not_lt.2 (UInt64.le_trans hle hge) hlt

/-- One message. -/
theorem Watched.receive (hM : 0 < MaxBufferedGaps) {missed : Set UInt64} (h : Watched s missed)
    (hdrained : ¬ s.1.Holds s.1.expectedSeqNo) (hcount : s.1.sequenceGapsDetected.toNat = missed.ncard)
    (x : FeedSource × WireMessage) :
    ((receive s x).1.sequenceGapsDetected.toNat = (missed ∪ missing s x.2.seqNo).ncard ↔ OpensGap s x.2) ∧
      (OpensGap s x.2 → Watched (receive s x) (missed ∪ missing s x.2.seqNo)) := by
  obtain ⟨hdup, hcall⟩ | ⟨hnext, hcall⟩ | ⟨hgt, hcall⟩ := receive_cases s x
  · rw [hcall, h.numbered.missing_eq_empty (UInt64.le_of_lt hdup), Set.union_empty]
    refine ⟨iff_of_true hcount fun hgt => ?_, fun _ => ?_⟩
    · exact absurd hgt (UInt64.lt_asymm hdup)
    · exact ⟨h.numbered, h.held_pos, h.awaited, h.recorded⟩
  · rw [hcall, h.numbered.missing_eq_empty (UInt64.le_of_eq hnext), Set.union_empty, (counters_drain _).1]
    refine ⟨iff_of_true hcount fun hgt => ?_, fun _ => ?_⟩
    · exact absurd (hnext ▸ hgt) (UInt64.lt_irrefl _)
    · exact (h.next hdrained hnext).drain
  · have hcounter : (s.1.ingest x.1 x.2).2.sequenceGapsDetected =
        s.1.sequenceGapsDetected + (x.2.seqNo - s.1.expectedSeqNo) := by
      obtain ⟨hdup, -⟩ | ⟨hnext, -⟩ | ⟨-, hingest⟩ := ingest_cases s.1 x.1 x.2
      · exact absurd hdup (UInt64.lt_asymm hgt)
      · exact absurd (hnext ▸ hgt) (UInt64.lt_irrefl _)
      · rw [hingest]
    rw [hcall]
    dsimp only
    rw [hcounter]
    exact ⟨h.count_buffer hgt hcount, h.buffer hM hgt⟩

/-! ### The gap counter over a history -/

theorem missed_nil (MaxBufferedGaps : Nat) : missed MaxBufferedGaps [] = ∅ := by
  rw [Set.eq_empty_iff_forall_notMem]
  rintro n ⟨pre, x, post, hsplit, -⟩
  simp at hsplit

theorem missed_append (history : List (FeedSource × WireMessage)) (x : FeedSource × WireMessage) :
    missed MaxBufferedGaps (history ++ [x]) =
      missed MaxBufferedGaps history ∪ missing (runDraining MaxBufferedGaps history) x.2.seqNo := by
  ext n
  constructor
  · rintro ⟨pre, y, post, hsplit, hn⟩
    rcases split_append hsplit with ⟨rfl, rfl⟩ | ⟨post', -, hhistory⟩
    · exact Or.inr hn
    · exact Or.inl ⟨pre, y, post', hhistory, hn⟩
  · rintro (⟨pre, y, post, rfl, hn⟩ | hn)
    · exact ⟨pre, y, post ++ [x], by simp, hn⟩
    · exact ⟨history, x, [], rfl, hn⟩

theorem watched_reset (MaxBufferedGaps : Nat) :
    Watched (runDraining MaxBufferedGaps []) (missed MaxBufferedGaps []) where
  numbered := by
    right
    refine ⟨UInt64.le_refl _, fun n => iff_of_false List.not_mem_nil ?_⟩
    rintro ⟨hone, hlt⟩
    exact UInt64.not_lt.2 hone hlt
  held_pos n hn := absurd hn (not_holds_reset MaxBufferedGaps n)
  awaited n hn := by
    rw [missed_nil] at hn
    cases hn
  recorded m hm := absurd hm (not_holds_reset MaxBufferedGaps m)

/-- One more message of a history whose missing numbers were all counted once. -/
theorem gapCount_step (hM : 0 < MaxBufferedGaps) (history : List (FeedSource × WireMessage))
    (x : FeedSource × WireMessage)
    (h : Watched (runDraining MaxBufferedGaps history) (missed MaxBufferedGaps history) ∧
      ¬ (runDraining MaxBufferedGaps history).1.Holds (runDraining MaxBufferedGaps history).1.expectedSeqNo)
    (hcount : (runDraining MaxBufferedGaps history).1.sequenceGapsDetected.toNat =
      (missed MaxBufferedGaps history).ncard) :
    ((runDraining MaxBufferedGaps (history ++ [x])).1.sequenceGapsDetected.toNat =
          (missed MaxBufferedGaps (history ++ [x])).ncard ↔
        OpensGap (runDraining MaxBufferedGaps history) x.2) ∧
      (OpensGap (runDraining MaxBufferedGaps history) x.2 →
        Watched (runDraining MaxBufferedGaps (history ++ [x])) (missed MaxBufferedGaps (history ++ [x])) ∧
          ¬ (runDraining MaxBufferedGaps (history ++ [x])).1.Holds
            (runDraining MaxBufferedGaps (history ++ [x])).1.expectedSeqNo) := by
  obtain ⟨hiff, hnext⟩ := h.1.receive hM h.2 hcount x
  rw [runDraining_append, missed_append]
  exact ⟨hiff, fun hopen => ⟨hnext hopen, drained_receive h.2 x⟩⟩

/-- After every message of a history the gap counter is the number of the sequence numbers that were missing when a
higher one arrived, exactly when every message from the future is new and finds nothing waiting in the buffer. -/
theorem gapCount_eq_missed_iff (hM : 0 < MaxBufferedGaps) (history : List (FeedSource × WireMessage)) :
    (∀ pre, pre <+: history → (runDraining MaxBufferedGaps pre).1.sequenceGapsDetected.toNat =
        (missed MaxBufferedGaps pre).ncard) ↔
      Runs.Along receive (fun s x => OpensGap s x.2) (reset MaxBufferedGaps, []) history := by
  apply Runs.forall_prefix_iff_along (J := fun history =>
    Watched (runDraining MaxBufferedGaps history) (missed MaxBufferedGaps history) ∧
      ¬ (runDraining MaxBufferedGaps history).1.Holds (runDraining MaxBufferedGaps history).1.expectedSeqNo)
  · refine ⟨⟨watched_reset MaxBufferedGaps, not_holds_reset MaxBufferedGaps _⟩, ?_⟩
    rw [missed_nil, Set.ncard_empty]
    rfl
  · exact gapCount_step hM

/-- Messages 3, 1 and 2: two numbers are missing when 3 arrives. -/
theorem gapCount_eq_missed_iff_one_gap :
    (∀ pre, pre <+: [(.FeedA, .ofCancel ⟨'X'.toUInt8, 3, 0, 7, 3⟩), (.FeedA, .ofCancel ⟨'X'.toUInt8, 1, 0, 7, 4⟩),
        (.FeedB, .ofCancel ⟨'X'.toUInt8, 2, 0, 7, 4⟩)] →
        (runDraining 4 pre).1.sequenceGapsDetected.toNat = (missed 4 pre).ncard) ↔
      Runs.Along receive (fun s x => OpensGap s x.2) (reset 4, [])
        [(.FeedA, .ofCancel ⟨'X'.toUInt8, 3, 0, 7, 3⟩), (.FeedA, .ofCancel ⟨'X'.toUInt8, 1, 0, 7, 4⟩),
          (.FeedB, .ofCancel ⟨'X'.toUInt8, 2, 0, 7, 4⟩)] :=
  gapCount_eq_missed_iff (by decide) _

/-- Message 3 comes on both feeds while 1 and 2 are missing: the counter says four. -/
theorem gap_counted_twice :
    ¬ ∀ (MaxBufferedGaps : Nat) (history : List (FeedSource × WireMessage)), 0 < MaxBufferedGaps →
      InWindow MaxBufferedGaps history →
        (runDraining MaxBufferedGaps history).1.sequenceGapsDetected.toNat =
          (missed MaxBufferedGaps history).ncard := by
  intro h
  have hone := h 4 [(.FeedA, .ofCancel ⟨'X'.toUInt8, 3, 0, 7, 3⟩)] (by decide) ⟨by decide, by decide⟩
  have htwo := h 4 [(.FeedA, .ofCancel ⟨'X'.toUInt8, 3, 0, 7, 3⟩), (.FeedB, .ofCancel ⟨'X'.toUInt8, 3, 0, 7, 3⟩)]
    (by decide) ⟨by decide, by decide⟩
  have hnone := h 4 [] (by decide) ⟨by decide, by decide⟩
  have hempty : OpensGap (runDraining 4 []) (.ofCancel ⟨'X'.toUInt8, 3, 0, 7, 3⟩) :=
    fun _ => ⟨List.not_mem_nil, fun n hn => absurd hn (not_holds_reset 4 n)⟩
  have hfirst := (gapCount_step (by decide : 0 < 4) [] (.FeedA, .ofCancel ⟨'X'.toUInt8, 3, 0, 7, 3⟩)
    ⟨watched_reset 4, not_holds_reset 4 _⟩ hnone).2 hempty
  -- the second copy finds the first one in the buffer
  have hopen := (gapCount_step (by decide : 0 < 4) [(.FeedA, .ofCancel ⟨'X'.toUInt8, 3, 0, 7, 3⟩)]
    (.FeedB, .ofCancel ⟨'X'.toUInt8, 3, 0, 7, 3⟩) hfirst hone).1.1 htwo
  exact absurd ((hopen (by decide)).2 3 (by decide)) (by decide)

end DualFeedArbitrator

end FeedHandler
