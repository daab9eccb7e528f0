import FeedHandler.Foundation.Skipped
import FeedHandler.OrderBook.Sequencing

/-!
# The gap counter

`sequenceGapsDetected` grows by the distance between a message and its predecessor.  The numbers that are really skipped
are those between a message and the highest number before it.  The two agree as long as no message jumps ahead of a
predecessor that came late (`sequenceGapsDetected_eq_skipped_iff`).
-/

namespace FeedHandler

open SequenceNumbers

namespace LimitOrderBook

variable {Depth : Nat} {TableCapacity : Pow2} {book : LimitOrderBook Depth TableCapacity}

/-- The sequence numbers, in the order of arrival. -/
def seqNos (msgs : List WireMessage) : List ℕ := msgs.map (·.seqNo.toNat)

/-- A message is at most one ahead of its predecessor, unless the predecessor has the highest number so far. -/
def NoJumpFromBehind (msgs : List WireMessage) : Prop :=
  ∀ pre prev m post, msgs = pre ++ prev :: m :: post →
    (∀ x ∈ seqNos pre, x ≤ prev.seqNo.toNat) ∨ m.seqNo.toNat ≤ prev.seqNo.toNat + 1

@[simp] theorem seqNos_append (msgs : List WireMessage) (m : WireMessage) :
    seqNos (msgs ++ [m]) = seqNos msgs ++ [m.seqNo.toNat] := by
  simp [seqNos]

/-- The number of the last message; zero before the first one. -/
def lastSeqNo (msgs : List WireMessage) : ℕ := (seqNos msgs).getLastD 0

@[simp] theorem lastSeqNo_append (msgs : List WireMessage) (m : WireMessage) :
    lastSeqNo (msgs ++ [m]) = m.seqNo.toNat := by
  simp [lastSeqNo]

/-- The book expects the number after the last one. -/
theorem expectedSeqNo_run {msgs : List WireMessage} (h : ∀ m ∈ msgs, m.seqNo.toNat ≤ 2 ^ 64 - 2) :
    (run Depth TableCapacity msgs).expectedSeqNo.toNat = lastSeqNo msgs + 1 := by
  induction msgs using List.reverseRecOn with
  | nil => rfl
  | append_singleton msgs m ih =>
    have hm := h m (by simp)
    have hexpected := ih fun x hx => h x (List.mem_append_left _ hx)
    have hpos : 0 < (run Depth TableCapacity msgs).expectedSeqNo := by
      rw [UInt64.lt_iff_toNat_lt, hexpected]
      exact Nat.succ_pos _
    rw [run_append_singleton, (sameHeader_processMessage _ m).expectedSeqNo, expectedSeqNo_sequence hpos,
      lastSeqNo_append, UInt64.toNat_add, Nat.mod_eq_of_lt]
    · rfl
    · have hone : (1 : UInt64).toNat = 1 := rfl
      omega

/-- What a message adds to the counter, modulo `2^64`. -/
theorem sequenceGapsDetected_processMessage {p : ℕ} (hexpected : book.expectedSeqNo.toNat = p + 1) (m : WireMessage) :
    (book.processMessage m).sequenceGapsDetected.toNat =
      (book.sequenceGapsDetected.toNat + (m.seqNo.toNat - p - 1)) % 2 ^ 64 := by
  have hpos : 0 < book.expectedSeqNo := by
    rw [UInt64.lt_iff_toNat_lt, hexpected]
    exact Nat.succ_pos _
  have hlt := book.sequenceGapsDetected.toNat_lt
  rw [(sameHeader_processMessage book m).sequenceGapsDetected]
  unfold sequence
  by_cases hseq : m.seqNo = book.expectedSeqNo
  · have hzero : m.seqNo.toNat - p - 1 = 0 := by
      rw [hseq, hexpected]
      omega
    rw [hzero, Nat.add_zero, Nat.mod_eq_of_lt hlt]
    simp [hseq]
  · have hne : book.expectedSeqNo > 0 ∧ m.seqNo ≠ book.expectedSeqNo := ⟨hpos, hseq⟩
    simp only [hne.1, bne_iff_ne.2 hne.2, decide_true, Bool.and_self, if_true]
    by_cases hahead : book.expectedSeqNo < m.seqNo
    · have hle := UInt64.le_of_lt hahead
      rw [if_pos hahead, UInt64.toNat_add, UInt64.toNat_sub_of_le _ _ hle, hexpected]
      rfl
    · rw [UInt64.lt_iff_toNat_lt, hexpected] at hahead
      have hzero : m.seqNo.toNat - p - 1 = 0 := by omega
      rw [if_neg (by rwa [gt_iff_lt, UInt64.lt_iff_toNat_lt, hexpected]), hzero, Nat.add_zero, Nat.mod_eq_of_lt hlt]

/-- The last step of a run that jumps from behind nowhere. -/
theorem noJumpFromBehind_append {msgs : List WireMessage} {m : WireMessage} :
    NoJumpFromBehind (msgs ++ [m]) ↔ NoJumpFromBehind msgs ∧
      (lastSeqNo msgs = highest (seqNos msgs) ∨ m.seqNo.toNat ≤ lastSeqNo msgs + 1) := by
  constructor
  · intro h
    refine ⟨fun pre prev m' post hsplit => h pre prev m' (post ++ [m]) (by rw [hsplit]; simp), ?_⟩
    rcases List.eq_nil_or_concat msgs with rfl | ⟨pre, prev, rfl⟩
    · exact Or.inl rfl
    · rw [List.concat_eq_append] at h ⊢
      rw [lastSeqNo_append, seqNos_append, eq_comm, highest_append_eq_iff]
      exact h pre prev m [] (by simp)
  · rintro ⟨h, hlast⟩ pre prev m' post hsplit
    have hsplit' : msgs ++ [m] = (pre ++ [prev]) ++ m' :: post := by simpa using hsplit
    rcases split_append hsplit' with ⟨rfl, rfl⟩ | ⟨post', -, hmsgs⟩
    · rwa [lastSeqNo_append, seqNos_append, eq_comm, highest_append_eq_iff] at hlast
    · exact h pre prev m' post' (by simpa using hmsgs)

theorem lastSeqNo_le_highest (msgs : List WireMessage) : lastSeqNo msgs ≤ highest (seqNos msgs) := by
  rcases List.eq_nil_or_concat msgs with rfl | ⟨pre, prev, rfl⟩
  · exact le_refl 0
  · rw [List.concat_eq_append, lastSeqNo_append, seqNos_append, highest_append]
    exact le_max_right ..

theorem highest_seqNos_le {msgs : List WireMessage} (h : ∀ m ∈ msgs, m.seqNo.toNat ≤ 2 ^ 64 - 2) :
    highest (seqNos msgs) ≤ 2 ^ 64 - 2 := by
  by_cases hzero : highest (seqNos msgs) = 0
  · omega
  · have hmem : highest (seqNos msgs) ∈ msgs.map (·.seqNo.toNat) := highest_mem hzero
    obtain ⟨m, hm, hseq⟩ := List.mem_map.1 hmem
    rw [← hseq]
    exact h m hm

/-- The counter stays right over one more message exactly when that message does not jump ahead of a late one. -/
theorem counter_step {msgs : List WireMessage} (h : ∀ m ∈ msgs, m.seqNo.toNat ≤ 2 ^ 64 - 2) {m : WireMessage}
    (hm : m.seqNo.toNat ≤ 2 ^ 64 - 2)
    (hcount : (run Depth TableCapacity msgs).sequenceGapsDetected.toNat = (skipped (seqNos msgs)).ncard) :
    (run Depth TableCapacity (msgs ++ [m])).sequenceGapsDetected.toNat = (skipped (seqNos (msgs ++ [m]))).ncard ↔
      lastSeqNo msgs = highest (seqNos msgs) ∨ m.seqNo.toNat ≤ lastSeqNo msgs + 1 := by
  have hexpected : (run Depth TableCapacity msgs).expectedSeqNo.toNat = lastSeqNo msgs + 1 := expectedSeqNo_run h
  have hlast := lastSeqNo_le_highest msgs
  have hskipped := ncard_skipped_le (seqNos (msgs ++ [m]))
  have hhighest := highest_seqNos_le h
  rw [seqNos_append, highest_append, ncard_skipped_append] at hskipped
  rw [run_append_singleton, sequenceGapsDetected_processMessage hexpected, hcount, seqNos_append, ncard_skipped_append]
  omega

/-- After every message of a run the counter is the number of skipped sequence numbers, exactly when the run jumps from
behind nowhere. -/
theorem sequenceGapsDetected_eq_skipped_iff (Depth : Nat) (TableCapacity : Pow2) {msgs : List WireMessage}
    (h : ∀ m ∈ msgs, m.seqNo.toNat ≤ 2 ^ 64 - 2) :
    (∀ pre, pre <+: msgs →
        (run Depth TableCapacity pre).sequenceGapsDetected.toNat = (skipped (seqNos pre)).ncard) ↔
      NoJumpFromBehind msgs := by
  induction msgs using List.reverseRecOn with
  | nil =>
    refine iff_of_true (fun pre hpre => ?_) fun pre prev m post hsplit => by simp at hsplit
    rw [List.prefix_nil.1 hpre]
    exact (Set.ncard_eq_zero (finite_skipped []) |>.2 skipped_nil).symm
  | append_singleton msgs m ih =>
    have hmsgs : ∀ x ∈ msgs, x.seqNo.toNat ≤ 2 ^ 64 - 2 := fun x hx => h x (List.mem_append_left _ hx)
    have hm := h m (by simp)
    rw [noJumpFromBehind_append, ← ih hmsgs]
    constructor
    · intro hall
      have hpre : ∀ pre, pre <+: msgs →
          (run Depth TableCapacity pre).sequenceGapsDetected.toNat = (skipped (seqNos pre)).ncard :=
        fun pre hpre => hall pre (hpre.trans (List.prefix_append ..))
      exact ⟨hpre, (counter_step hmsgs hm (hpre msgs List.prefix_rfl)).1 (hall _ List.prefix_rfl)⟩
    · rintro ⟨hpre, hlast⟩ pre hprefix
      rcases List.prefix_concat_iff.1 hprefix with rfl | hprefix
      · exact (counter_step hmsgs hm (hpre msgs List.prefix_rfl)).2 hlast
      · exact hpre pre hprefix

/-- A loss, a late message and the next one in order. -/
theorem sequenceGapsDetected_eq_skipped_of_loss_iff :
    (∀ pre, pre <+: [.ofCancel ⟨'X'.toUInt8, 1, 0, 7, 5⟩, .ofCancel ⟨'X'.toUInt8, 4, 0, 7, 4⟩,
          .ofCancel ⟨'X'.toUInt8, 2, 0, 7, 3⟩, .ofCancel ⟨'X'.toUInt8, 3, 0, 7, 2⟩] →
        (run 1 ⟨4, by decide, by decide⟩ pre).sequenceGapsDetected.toNat = (skipped (seqNos pre)).ncard) ↔
      NoJumpFromBehind [.ofCancel ⟨'X'.toUInt8, 1, 0, 7, 5⟩, .ofCancel ⟨'X'.toUInt8, 4, 0, 7, 4⟩,
        .ofCancel ⟨'X'.toUInt8, 2, 0, 7, 3⟩, .ofCancel ⟨'X'.toUInt8, 3, 0, 7, 2⟩] :=
  sequenceGapsDetected_eq_skipped_iff 1 _ (by decide)

/-- The messages 1, 2, 3, 2 and 4: no number is skipped, and the counter says that one is. -/
theorem duplicate_counts_as_gap :
    ¬ ∀ (Depth : Nat) (TableCapacity : Pow2) (msgs : List WireMessage),
      (∀ m ∈ msgs, 1 ≤ m.seqNo.toNat ∧ m.seqNo.toNat ≤ 2 ^ 64 - 2) →
        (run Depth TableCapacity msgs).sequenceGapsDetected.toNat = (skipped (seqNos msgs)).ncard := by
  intro h
  have hrun := h 1 ⟨4, by decide, by decide⟩
    [.ofCancel ⟨'X'.toUInt8, 1, 0, 7, 5⟩, .ofCancel ⟨'X'.toUInt8, 2, 0, 7, 4⟩, .ofCancel ⟨'X'.toUInt8, 3, 0, 7, 3⟩,
      .ofCancel ⟨'X'.toUInt8, 2, 0, 7, 4⟩, .ofCancel ⟨'X'.toUInt8, 4, 0, 7, 2⟩] (by decide)
  have hone : (skipped [1]).ncard = (skipped []).ncard + 0 := ncard_skipped_append [] 1
  have htwo : (skipped [1, 2]).ncard = (skipped [1]).ncard + 0 := ncard_skipped_append [1] 2
  have hthree : (skipped [1, 2, 3]).ncard = (skipped [1, 2]).ncard + 0 := ncard_skipped_append [1, 2] 3
  have hagain : (skipped [1, 2, 3, 2]).ncard = (skipped [1, 2, 3]).ncard + 0 := ncard_skipped_append [1, 2, 3] 2
  have hfour : (skipped [1, 2, 3, 2, 4]).ncard = (skipped [1, 2, 3, 2]).ncard + 0 :=
    ncard_skipped_append [1, 2, 3, 2] 4
  rw [skipped_nil, Set.ncard_empty] at hone
  have hseqNos : seqNos [.ofCancel ⟨'X'.toUInt8, 1, 0, 7, 5⟩, .ofCancel ⟨'X'.toUInt8, 2, 0, 7, 4⟩,
      .ofCancel ⟨'X'.toUInt8, 3, 0, 7, 3⟩, .ofCancel ⟨'X'.toUInt8, 2, 0, 7, 4⟩,
      .ofCancel ⟨'X'.toUInt8, 4, 0, 7, 2⟩] = [1, 2, 3, 2, 4] := by decide
  rw [hseqNos, hfour, hagain, hthree, htwo, hone] at hrun
  revert hrun
  decide

end LimitOrderBook

end FeedHandler
