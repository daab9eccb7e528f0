import FeedHandler.FeedArbitrator.Emission
import FeedHandler.Foundation.Runs

/-!
# Draining the buffer

A caller that drains the buffer after every message put out leaves no message behind that could be put out
(`drain_stops`).  As long as no message is written over another one that is still to come (`Overwrites`), every
message received and not yet put out lies in the slot of its number (`Kept`), whatever the two feeds repeat or
reorder.
-/

namespace FeedHandler

namespace DualFeedArbitrator

variable {MaxBufferedGaps : Nat}

/-- The message with this number is buffered. -/
def Holds (a : DualFeedArbitrator MaxBufferedGaps) (seq : UInt64) : Prop :=
  a.gapBuffer[seq.toNat % MaxBufferedGaps]!.active = true ∧ a.gapBuffer[seq.toNat % MaxBufferedGaps]!.msg.seqNo = seq

instance (a : DualFeedArbitrator MaxBufferedGaps) (seq : UInt64) : Decidable (a.Holds seq) :=
  inferInstanceAs (Decidable (_ ∧ _))

/-- The message goes to the buffer, into the slot of another message that is still to be put out. -/
def Overwrites (a : DualFeedArbitrator MaxBufferedGaps) (msg : WireMessage) : Prop :=
  a.expectedSeqNo < msg.seqNo ∧ a.gapBuffer[msg.seqNo.toNat % MaxBufferedGaps]!.active = true ∧
    a.expectedSeqNo ≤ a.gapBuffer[msg.seqNo.toNat % MaxBufferedGaps]!.msg.seqNo ∧
      a.gapBuffer[msg.seqNo.toNat % MaxBufferedGaps]!.msg.seqNo ≠ msg.seqNo

instance (a : DualFeedArbitrator MaxBufferedGaps) (msg : WireMessage) : Decidable (a.Overwrites msg) :=
  inferInstanceAs (Decidable (_ ∧ _ ∧ _ ∧ _))

/-! ### The caller's loop -/

/-- `tryDrainBuffered` until it returns `false`, `fuel` times at most. -/
def drainLoop : Nat → DualFeedArbitrator MaxBufferedGaps × List WireMessage →
    DualFeedArbitrator MaxBufferedGaps × List WireMessage
  | 0, s => s
  | fuel + 1, s => if s.1.tryDrainBuffered.1.isSome then drainLoop fuel (step s .tryDrainBuffered) else s

/-- `tryDrainBuffered` until it returns `false`: every success frees a slot, so a round for each slot is enough
(`drain_stops`). -/
def drain (s : DualFeedArbitrator MaxBufferedGaps × List WireMessage) :
    DualFeedArbitrator MaxBufferedGaps × List WireMessage :=
  drainLoop MaxBufferedGaps s

/-- A message of a feed is ingested, and the buffer drained when the message was put out. -/
def receive (s : DualFeedArbitrator MaxBufferedGaps × List WireMessage) (x : FeedSource × WireMessage) :
    DualFeedArbitrator MaxBufferedGaps × List WireMessage :=
  if (s.1.ingest x.1 x.2).1.isSome then drain (step s (.ingest x.1 x.2)) else step s (.ingest x.1 x.2)

/-- A fresh arbitrator after a history of messages from the two feeds, and what it put out. -/
def runDraining (MaxBufferedGaps : Nat) (history : List (FeedSource × WireMessage)) :
    DualFeedArbitrator MaxBufferedGaps × List WireMessage :=
  history.foldl receive (reset MaxBufferedGaps, [])

/-! ### One call -/

theorem getElem!_setIfInBounds {α : Type*} [Inhabited α] {n : Nat} (v : Vector α n) {i j : Nat} (x : α)
    (hj : j < n) : (v.setIfInBounds i x)[j]! = if i = j then x else v[j]! := by
  rw [getElem!_pos _ j hj, getElem!_pos v j hj, Vector.getElem_setIfInBounds]

theorem Holds.pos {a : DualFeedArbitrator MaxBufferedGaps} {seq : UInt64} (h : a.Holds seq) : 0 < MaxBufferedGaps := by
  by_contra hM
  have hact := h.1
  rw [getElem!_neg _ _ (by omega)] at hact
  cases hact

theorem tryDrainBuffered_of_holds {a : DualFeedArbitrator MaxBufferedGaps} (h : a.Holds a.expectedSeqNo) :
    a.tryDrainBuffered = (some a.gapBuffer[a.expectedSeqNo.toNat % MaxBufferedGaps]!.msg,
      { a with
        gapBuffer := a.gapBuffer.setIfInBounds (a.expectedSeqNo.toNat % MaxBufferedGaps)
          { a.gapBuffer[a.expectedSeqNo.toNat % MaxBufferedGaps]! with active := false }
        expectedSeqNo := a.expectedSeqNo + 1 }) := by
  apply if_pos
  rw [Bool.and_eq_true, decide_eq_true_eq]
  exact h

theorem tryDrainBuffered_of_not_holds {a : DualFeedArbitrator MaxBufferedGaps} (h : ¬ a.Holds a.expectedSeqNo) :
    a.tryDrainBuffered = (none, a) := by
  apply if_neg
  rw [Bool.and_eq_true, decide_eq_true_eq]
  exact h

theorem isSome_tryDrainBuffered (a : DualFeedArbitrator MaxBufferedGaps) :
    a.tryDrainBuffered.1.isSome = true ↔ a.Holds a.expectedSeqNo := by
  by_cases h : a.Holds a.expectedSeqNo
  · rw [tryDrainBuffered_of_holds h]
    exact iff_of_true rfl h
  · rw [tryDrainBuffered_of_not_holds h]
    exact iff_of_false Bool.false_ne_true h

/-- Only the message of the expected number leaves the buffer. -/
theorem Holds.drain {a : DualFeedArbitrator MaxBufferedGaps} {seq : UInt64} (h : a.Holds seq)
    (hseq : seq ≠ a.expectedSeqNo) : a.tryDrainBuffered.2.Holds seq := by
  by_cases hexp : a.Holds a.expectedSeqNo
  · have hslot : a.expectedSeqNo.toNat % MaxBufferedGaps ≠ seq.toNat % MaxBufferedGaps := by
      intro he
      apply hseq
      rw [← h.2, ← he]
      exact hexp.2
    rw [tryDrainBuffered_of_holds hexp]
    unfold Holds
    dsimp only
    rw [getElem!_setIfInBounds _ _ (Nat.mod_lt _ h.pos), if_neg hslot]
    exact h
  · rw [tryDrainBuffered_of_not_holds hexp]
    exact h

/-- What `ingest` does: drop a repeated message, pass on the expected one, buffer one from the future. -/
theorem ingest_cases (a : DualFeedArbitrator MaxBufferedGaps) (source : FeedSource) (msg : WireMessage) :
    (msg.seqNo < a.expectedSeqNo ∧
      a.ingest source msg = (none, { a with duplicatesDropped := a.duplicatesDropped + 1 })) ∨
    (msg.seqNo = a.expectedSeqNo ∧
      a.ingest source msg = (some msg, { a with expectedSeqNo := a.expectedSeqNo + 1 })) ∨
    (a.expectedSeqNo < msg.seqNo ∧
      a.ingest source msg = (none, { a with
        sequenceGapsDetected := a.sequenceGapsDetected + (msg.seqNo - a.expectedSeqNo)
        retransmitRequests := a.retransmitRequests + 1
        gapBuffer := a.gapBuffer.setIfInBounds (msg.seqNo.toNat % MaxBufferedGaps) { msg, active := true } })) := by
  unfold ingest
  by_cases hdup : msg.seqNo < a.expectedSeqNo
  · left
    exact ⟨hdup, if_pos hdup⟩
  · right
    by_cases hnext : msg.seqNo = a.expectedSeqNo
    · left
      exact ⟨hnext, (if_neg hdup).trans (if_pos hnext)⟩
    · right
      exact ⟨UInt64.lt_of_le_of_ne (UInt64.not_lt.1 hdup) (Ne.symm hnext), (if_neg hdup).trans (if_neg hnext)⟩

/-- A message above the expected number is buffered. -/
theorem holds_ingest_self {a : DualFeedArbitrator MaxBufferedGaps} (hM : 0 < MaxBufferedGaps) (source : FeedSource)
    {msg : WireMessage} (hgt : a.expectedSeqNo < msg.seqNo) : (a.ingest source msg).2.Holds msg.seqNo := by
  obtain ⟨hdup, -⟩ | ⟨hnext, -⟩ | ⟨-, hcall⟩ := ingest_cases a source msg
  · exact absurd hdup (UInt64.lt_asymm hgt)
  · rw [hnext] at hgt
    exact absurd hgt (UInt64.lt_irrefl _)
  · rw [hcall]
    unfold Holds
    dsimp only
    rw [getElem!_setIfInBounds _ _ (Nat.mod_lt _ hM), if_pos rfl]
    exact ⟨rfl, rfl⟩

/-- What a message leaves of the buffer: its own slot is written, when its number is above the expected one. -/
theorem holds_ingest_iff {a : DualFeedArbitrator MaxBufferedGaps} {seq : UInt64} (source : FeedSource)
    {msg : WireMessage} (h : a.Holds seq) (hne : msg.seqNo ≠ seq) :
    (a.ingest source msg).2.Holds seq ↔
      ¬ (a.expectedSeqNo < msg.seqNo ∧ msg.seqNo.toNat % MaxBufferedGaps = seq.toNat % MaxBufferedGaps) := by
  obtain ⟨hdup, hcall⟩ | ⟨hnext, hcall⟩ | ⟨hlt, hcall⟩ := ingest_cases a source msg
  · rw [hcall]
    exact iff_of_true h fun hc => UInt64.lt_asymm hdup hc.1
  · rw [hcall]
    exact iff_of_true h fun hc => UInt64.lt_irrefl _ (hnext ▸ hc.1)
  · rw [hcall]
    unfold Holds
    dsimp only
    rw [getElem!_setIfInBounds _ _ (Nat.mod_lt _ h.pos)]
    by_cases hslot : msg.seqNo.toNat % MaxBufferedGaps = seq.toNat % MaxBufferedGaps
    · rw [if_pos hslot]
      exact iff_of_false (fun hc => hne hc.2) fun hc => hc ⟨hlt, hslot⟩
    · rw [if_neg hslot]
      exact iff_of_true h fun hc => hslot hc.2

/-- Every message in the buffer lies in the slot of its number. -/
def Placed (a : DualFeedArbitrator MaxBufferedGaps) : Prop :=
  ∀ i < MaxBufferedGaps, a.gapBuffer[i]!.active = true → a.gapBuffer[i]!.msg.seqNo.toNat % MaxBufferedGaps = i

theorem gapBuffer_reset (MaxBufferedGaps : Nat) {i : Nat} (hi : i < MaxBufferedGaps) :
    (reset MaxBufferedGaps).gapBuffer[i]! = {} := by
  rw [getElem!_pos _ i hi]
  simp [reset]

theorem placed_reset (MaxBufferedGaps : Nat) : (reset MaxBufferedGaps).Placed := by
  intro i hi hact
  rw [gapBuffer_reset MaxBufferedGaps hi] at hact
  cases hact

theorem Placed.ingest {a : DualFeedArbitrator MaxBufferedGaps} (h : a.Placed) (source : FeedSource)
    (msg : WireMessage) : (a.ingest source msg).2.Placed := by
  intro i hi hact
  obtain ⟨-, hcall⟩ | ⟨-, hcall⟩ | ⟨-, hcall⟩ := ingest_cases a source msg
  · rw [hcall] at hact ⊢
    exact h i hi hact
  · rw [hcall] at hact ⊢
    exact h i hi hact
  · rw [hcall] at hact ⊢
    dsimp only at hact ⊢
    rw [getElem!_setIfInBounds _ _ hi] at hact ⊢
    by_cases he : msg.seqNo.toNat % MaxBufferedGaps = i
    · rw [if_pos he]
      exact he
    · rw [if_neg he] at hact ⊢
      exact h i hi hact

theorem Placed.drain {a : DualFeedArbitrator MaxBufferedGaps} (h : a.Placed) (hexp : a.Holds a.expectedSeqNo) :
    a.tryDrainBuffered.2.Placed := by
  intro i hi hact
  rw [tryDrainBuffered_of_holds hexp] at hact ⊢
  dsimp only at hact ⊢
  rw [getElem!_setIfInBounds _ _ hi] at hact ⊢
  by_cases he : a.expectedSeqNo.toNat % MaxBufferedGaps = i
  · rw [if_pos he] at hact
    cases hact
  · rw [if_neg he] at hact ⊢
    exact h i hi hact

/-! ### The drain loop stops -/

/-- The number of slots in use. -/
def activeSlots (a : DualFeedArbitrator MaxBufferedGaps) : Nat := a.gapBuffer.toList.countP (·.active)

theorem activeSlots_drain {a : DualFeedArbitrator MaxBufferedGaps} (h : a.Holds a.expectedSeqNo) :
    a.tryDrainBuffered.2.activeSlots + 1 = a.activeSlots := by
  have hslot : a.expectedSeqNo.toNat % MaxBufferedGaps < a.gapBuffer.toList.length := by
    rw [Vector.length_toList]
    exact Nat.mod_lt _ h.pos
  have hact := h.1
  rw [tryDrainBuffered_of_holds h]
  unfold activeSlots
  dsimp only
  rw [getElem!_pos _ _ (by simpa using hslot)] at hact
  have hget : a.gapBuffer.toList[a.expectedSeqNo.toNat % MaxBufferedGaps].active = true := by simpa using hact
  have hpos : 0 < a.gapBuffer.toList.countP (·.active) := List.countP_pos_iff.2 ⟨_, List.getElem_mem hslot, hget⟩
  rw [Vector.toList_setIfInBounds, List.countP_set hslot, if_pos hget, if_neg Bool.false_ne_true]
  omega

/-- After the loop nothing more can be drained. -/
theorem drainLoop_stops {fuel : Nat} {s : DualFeedArbitrator MaxBufferedGaps × List WireMessage}
    (h : s.1.activeSlots ≤ fuel) : (drainLoop fuel s).1.tryDrainBuffered.1 = none := by
  induction fuel generalizing s with
  | zero =>
    by_contra hsome
    have hholds := (isSome_tryDrainBuffered s.1).1 (Option.isSome_iff_ne_none.2 hsome)
    have hcount := activeSlots_drain hholds
    omega
  | succ fuel ih =>
    unfold drainLoop
    by_cases hsome : s.1.tryDrainBuffered.1.isSome = true
    · have hcount := activeSlots_drain ((isSome_tryDrainBuffered s.1).1 hsome)
      rw [if_pos hsome]
      apply ih
      show s.1.tryDrainBuffered.2.activeSlots ≤ fuel
      omega
    · rw [if_neg hsome]
      exact Option.not_isSome_iff_eq_none.1 hsome

theorem drain_stops (s : DualFeedArbitrator MaxBufferedGaps × List WireMessage) :
    (drain s).1.tryDrainBuffered.1 = none := by
  apply drainLoop_stops
  calc s.1.activeSlots ≤ s.1.gapBuffer.toList.length := List.countP_le_length
    _ = MaxBufferedGaps := Vector.length_toList

/-- What every successful drain keeps is kept by the loop. -/
theorem drain_invariant {I : DualFeedArbitrator MaxBufferedGaps × List WireMessage → Prop}
    (hstep : ∀ s, I s → s.1.Holds s.1.expectedSeqNo → I (step s .tryDrainBuffered))
    {s : DualFeedArbitrator MaxBufferedGaps × List WireMessage} (h : I s) : I (drain s) := by
  suffices hloop : ∀ fuel s, I s → I (drainLoop fuel s) from hloop _ s h
  intro fuel
  induction fuel with
  | zero => exact fun s h => h
  | succ fuel ih =>
    intro s h
    unfold drainLoop
    by_cases hsome : s.1.tryDrainBuffered.1.isSome = true
    · rw [if_pos hsome]
      exact ih _ (hstep s h ((isSome_tryDrainBuffered s.1).1 hsome))
    · rw [if_neg hsome]
      exact h

end DualFeedArbitrator

end FeedHandler
