import FeedHandler.FeedArbitrator.Draining
import FeedHandler.OrderBook.Sequencing
import Mathlib.Algebra.Order.Group.Int
import Mathlib.Data.Nat.ModEq
import Mathlib.Order.Bounds.Defs

/-!
# What reaches the book

While no message still to come is written over, the messages put out are those numbered `1, …, m` for the largest `m`
such that all of them were received (`Kept.isGreatest`).  A message at most `MaxBufferedGaps` ahead of the expected
one overwrites nothing (`not_overwrites_of_window`): the slots of the numbers in between are different.  A message
further ahead may take the slot of one that is waited for, which is then lost.
-/

namespace FeedHandler

namespace DualFeedArbitrator

variable {MaxBufferedGaps : Nat}

/-- The buffer of a caller that drains: every message received and still to come lies in its slot, and the expected
one was not received. -/
structure Kept (s : DualFeedArbitrator MaxBufferedGaps × List WireMessage) (seen : List WireMessage) : Prop where
  emitted : Emitted s seen
  held : ∀ m ∈ seen, s.1.expectedSeqNo ≤ m.seqNo → s.1.Holds m.seqNo
  placed : ∀ i < MaxBufferedGaps, s.1.gapBuffer[i]!.active = true →
    s.1.gapBuffer[i]!.msg.seqNo.toNat % MaxBufferedGaps = i

theorem kept_reset (MaxBufferedGaps : Nat) : Kept (reset MaxBufferedGaps, []) [] where
  emitted := emitted_reset MaxBufferedGaps
  held m hm := by cases hm
  placed := placed_reset MaxBufferedGaps

/-- One successful drain. -/
theorem Kept.drain_step {s : DualFeedArbitrator MaxBufferedGaps × List WireMessage} {seen : List WireMessage}
    (h : Kept s seen) (hlt : ∀ m ∈ seen, m.seqNo.toNat < 2 ^ 64 - 1) (hexp : s.1.Holds s.1.expectedSeqNo) :
    Kept (step s .tryDrainBuffered) seen := by
  have hM := hexp.pos
  have hnext : (step s .tryDrainBuffered).1.expectedSeqNo = s.1.expectedSeqNo + 1 := by
    show s.1.tryDrainBuffered.2.expectedSeqNo = _
    rw [tryDrainBuffered_of_holds hexp]
  have hplaced : s.1.Placed := h.placed
  refine ⟨h.emitted.drain hlt, fun m hm hle => ?_, hplaced.drain hexp⟩
  · -- the number drained was below `2^64 - 1`, so the next one is larger
    have hmem := h.emitted.buffered _ (getElem!_mem hexp.1) hexp.1
    have hbound := hlt _ hmem
    rw [hexp.2] at hbound
    rw [hnext, UInt64.le_iff_toNat_le, RingIndex.toNat_succ (by omega)] at hle
    apply (h.held m hm (UInt64.le_iff_toNat_le.2 (by omega))).drain
    intro he
    rw [he] at hle
    omega

/-- The drain loop ends with the expected message not received. -/
theorem Kept.drain {s : DualFeedArbitrator MaxBufferedGaps × List WireMessage} {seen : List WireMessage}
    (h : Kept s seen) (hlt : ∀ m ∈ seen, m.seqNo.toNat < 2 ^ 64 - 1) :
    Kept (drain s) seen ∧ ∀ m ∈ seen, m.seqNo ≠ (DualFeedArbitrator.drain s).1.expectedSeqNo := by
  have hkept : Kept (DualFeedArbitrator.drain s) seen :=
    drain_invariant (I := (Kept · seen)) (fun s h => h.drain_step hlt) h
  refine ⟨hkept, fun m hm he => ?_⟩
  have hholds := hkept.held m hm (he ▸ UInt64.le_refl _)
  have hnone := drain_stops s
  rw [he] at hholds
  exact Option.isSome_iff_ne_none.1 ((isSome_tryDrainBuffered _).2 hholds) hnone

/-- A message that overwrites nothing leaves every message still to come in its slot. -/
theorem Kept.held_ingest {s : DualFeedArbitrator MaxBufferedGaps × List WireMessage} {seen : List WireMessage}
    (hM : 0 < MaxBufferedGaps) (h : Kept s seen) (source : FeedSource) {msg : WireMessage}
    (hlt : msg.seqNo.toNat < 2 ^ 64 - 1) (hfree : ¬ s.1.Overwrites msg) :
    ∀ m ∈ seen ++ [msg], (s.1.ingest source msg).2.expectedSeqNo ≤ m.seqNo →
      (s.1.ingest source msg).2.Holds m.seqNo := by
  intro m hm hle
  obtain ⟨hdup, hcall⟩ | ⟨hnext, hcall⟩ | ⟨hgt, hcall⟩ := ingest_cases s.1 source msg
  · -- dropped: the message is not one to come
    rw [hcall] at hle ⊢
    rcases List.mem_append.1 hm with hm | hm
    · exact h.held m hm hle
    · obtain rfl := List.mem_singleton.1 hm
      exact absurd hle (UInt64.not_le.2 hdup)
  · -- put out: only larger numbers are to come
    rw [hcall] at hle ⊢
    rw [UInt64.le_iff_toNat_le] at hle
    dsimp only at hle
    rw [RingIndex.toNat_succ (by rw [← hnext]; omega)] at hle
    rcases List.mem_append.1 hm with hm | hm
    · exact h.held m hm (UInt64.le_iff_toNat_le.2 (by omega))
    · obtain rfl := List.mem_singleton.1 hm
      rw [hnext] at hle
      omega
  · -- buffered: the slots of the messages to come are others
    have hexp : (s.1.ingest source msg).2.expectedSeqNo = s.1.expectedSeqNo := by rw [hcall]
    rw [hexp] at hle
    by_cases hne : msg.seqNo = m.seqNo
    · rw [← hne]
      exact holds_ingest_self hM source hgt
    · have hold : m ∈ seen := by
        rcases List.mem_append.1 hm with hm | hm
        · exact hm
        · exact absurd (congrArg WireMessage.seqNo (List.mem_singleton.1 hm)).symm hne
      obtain ⟨hact, hseq⟩ := h.held m hold hle
      apply (holds_ingest_iff source ⟨hact, hseq⟩ hne).2
      rintro ⟨-, hslot⟩
      apply hfree
      unfold Overwrites
      rw [hslot, hseq]
      exact ⟨hgt, hact, hle, Ne.symm hne⟩

/-- When a message is not put out, the expected one is still missing. -/
theorem missing_ingest {a : DualFeedArbitrator MaxBufferedGaps} {seen : List WireMessage}
    (hdrained : ∀ m ∈ seen, m.seqNo ≠ a.expectedSeqNo) {source : FeedSource} {msg : WireMessage}
    (hnone : (a.ingest source msg).1 = none) :
    ∀ m ∈ seen ++ [msg], m.seqNo ≠ (a.ingest source msg).2.expectedSeqNo := by
  have hmsg : msg.seqNo ≠ a.expectedSeqNo ∧ (a.ingest source msg).2.expectedSeqNo = a.expectedSeqNo := by
    obtain ⟨hdup, hcall⟩ | ⟨-, hcall⟩ | ⟨hgt, hcall⟩ := ingest_cases a source msg
    · rw [hcall]
      exact ⟨UInt64.ne_of_lt hdup, rfl⟩
    · rw [hcall] at hnone
      cases hnone
    · rw [hcall]
      exact ⟨(UInt64.ne_of_lt hgt).symm, rfl⟩
  intro m hm
  rw [hmsg.2]
  rcases List.mem_append.1 hm with hm | hm
  · exact hdrained m hm
  · obtain rfl := List.mem_singleton.1 hm
    exact hmsg.1

/-- A message that overwrites nothing; when it is not put out, the expected one is still missing. -/
theorem Kept.ingest {s : DualFeedArbitrator MaxBufferedGaps × List WireMessage} {seen : List WireMessage}
    (hM : 0 < MaxBufferedGaps) (h : Kept s seen) (hdrained : ∀ m ∈ seen, m.seqNo ≠ s.1.expectedSeqNo)
    (source : FeedSource) {msg : WireMessage} (hlt : msg.seqNo.toNat < 2 ^ 64 - 1) (hfree : ¬ s.1.Overwrites msg) :
    Kept (step s (.ingest source msg)) (seen ++ [msg]) ∧ ((s.1.ingest source msg).1 = none →
      ∀ m ∈ seen ++ [msg], m.seqNo ≠ (step s (.ingest source msg)).1.expectedSeqNo) := by
  have hemitted := (h.emitted.mono fun m hm => List.mem_append_left [msg] hm).ingest source hlt (by simp)
  have hplaced : s.1.Placed := h.placed
  refine ⟨⟨hemitted, ?_, ?_⟩, ?_⟩
  · exact h.held_ingest hM source hlt hfree
  · exact hplaced.ingest source msg
  · exact missing_ingest hdrained

/-- One message of a feed. -/
theorem Kept.receive {s : DualFeedArbitrator MaxBufferedGaps × List WireMessage} {seen : List WireMessage}
    (hM : 0 < MaxBufferedGaps) (h : Kept s seen) (hdrained : ∀ m ∈ seen, m.seqNo ≠ s.1.expectedSeqNo)
    (hlt : ∀ m ∈ seen, m.seqNo.toNat < 2 ^ 64 - 1) {x : FeedSource × WireMessage}
    (hx : x.2.seqNo.toNat < 2 ^ 64 - 1) (hfree : ¬ s.1.Overwrites x.2) :
    Kept (DualFeedArbitrator.receive s x) (seen ++ [x.2]) ∧
      ∀ m ∈ seen ++ [x.2], m.seqNo ≠ (DualFeedArbitrator.receive s x).1.expectedSeqNo := by
  obtain ⟨hkept, hmissing⟩ := h.ingest hM hdrained x.1 hx hfree
  unfold DualFeedArbitrator.receive
  by_cases hsome : (s.1.ingest x.1 x.2).1.isSome = true
  · rw [if_pos hsome]
    apply hkept.drain
    intro m hm
    rcases List.mem_append.1 hm with hm | hm
    · exact hlt m hm
    · rw [List.mem_singleton.1 hm]
      exact hx
  · rw [if_neg hsome]
    exact ⟨hkept, hmissing (Option.not_isSome_iff_eq_none.1 hsome)⟩

/-- A run that overwrites nothing. -/
theorem Kept.run {s : DualFeedArbitrator MaxBufferedGaps × List WireMessage} {seen : List WireMessage}
    (hM : 0 < MaxBufferedGaps) (h : Kept s seen) (hdrained : ∀ m ∈ seen, m.seqNo ≠ s.1.expectedSeqNo)
    (hlt : ∀ m ∈ seen, m.seqNo.toNat < 2 ^ 64 - 1) {history : List (FeedSource × WireMessage)}
    (hhistory : ∀ x ∈ history, x.2.seqNo.toNat < 2 ^ 64 - 1)
    (hfree : Runs.Along DualFeedArbitrator.receive (fun s x => ¬ s.1.Overwrites x.2) s history) :
    Kept (history.foldl DualFeedArbitrator.receive s) (seen ++ history.map (·.2)) ∧
      ∀ m ∈ seen ++ history.map (·.2),
        m.seqNo ≠ (history.foldl DualFeedArbitrator.receive s).1.expectedSeqNo := by
  induction history generalizing s seen with
  | nil =>
    rw [List.map_nil, List.append_nil]
    exact ⟨h, hdrained⟩
  | cons x history ih =>
    have hx := hhistory x (List.mem_cons_self ..)
    obtain ⟨hkept, hmissing⟩ := h.receive hM hdrained hlt hx hfree.1
    have hlt' : ∀ m ∈ seen ++ [x.2], m.seqNo.toNat < 2 ^ 64 - 1 := by
      intro m hm
      rcases List.mem_append.1 hm with hm | hm
      · exact hlt m hm
      · rw [List.mem_singleton.1 hm]
        exact hx
    have hrest := ih hkept hmissing hlt' (fun y hy => hhistory y (List.mem_cons_of_mem x hy)) hfree.2
    rw [List.append_assoc] at hrest
    exact hrest

/-! ### Messages inside the window -/

/-- What was put out stays put out. -/
theorem prefix_receive (s : DualFeedArbitrator MaxBufferedGaps × List WireMessage) (x : FeedSource × WireMessage) :
    s.2 <+: (receive s x).2 := by
  have hstep : s.2 <+: (step s (.ingest x.1 x.2)).2 := List.prefix_append ..
  unfold receive
  by_cases hsome : (s.1.ingest x.1 x.2).1.isSome = true
  · rw [if_pos hsome]
    exact drain_invariant (I := (s.2 <+: ·.2)) (fun t ht _ => ht.trans (List.prefix_append ..)) hstep
  · rw [if_neg hsome]
    exact hstep

/-- The numbers of the messages to come lie in a window of length `MaxBufferedGaps`, so their slots differ. -/
theorem Kept.not_overwrites {s : DualFeedArbitrator MaxBufferedGaps × List WireMessage} {seen : List WireMessage}
    (hM : 0 < MaxBufferedGaps) (h : Kept s seen) (hdrained : ∀ m ∈ seen, m.seqNo ≠ s.1.expectedSeqNo)
    (hwindow : ∀ m ∈ seen, m.seqNo.toNat ≤ s.1.expectedSeqNo.toNat + MaxBufferedGaps) {msg : WireMessage}
    (hmsg : msg.seqNo.toNat ≤ s.1.expectedSeqNo.toNat + MaxBufferedGaps) : ¬ s.1.Overwrites msg := by
  rintro ⟨hgt, hact, hle, hne⟩
  have hmem := h.emitted.buffered _ (getElem!_mem hact) hact
  have hplaced := h.placed _ (Nat.mod_lt _ hM) hact
  have hbound := hwindow _ hmem
  have hlt := UInt64.lt_iff_toNat_lt.1 (UInt64.lt_of_le_of_ne hle (hdrained _ hmem).symm)
  rw [UInt64.lt_iff_toNat_lt] at hgt
  -- two numbers of the window with the same remainder are equal
  apply hne
  apply UInt64.toNat_inj.1
  apply Nat.ModEq.eq_of_abs_lt hplaced
  rw [abs_lt]
  omega

/-- Along a run inside the window nothing is overwritten. -/
theorem Kept.along_not_overwrites {s : DualFeedArbitrator MaxBufferedGaps × List WireMessage}
    {seen : List WireMessage} (hM : 0 < MaxBufferedGaps) (h : Kept s seen)
    (hdrained : ∀ m ∈ seen, m.seqNo ≠ s.1.expectedSeqNo) (hlt : ∀ m ∈ seen, m.seqNo.toNat < 2 ^ 64 - 1)
    (hbound : ∀ m ∈ seen, m.seqNo.toNat ≤ s.1.expectedSeqNo.toNat + MaxBufferedGaps)
    {history : List (FeedSource × WireMessage)} (hhistory : ∀ x ∈ history, x.2.seqNo.toNat < 2 ^ 64 - 1)
    (hwindow : Runs.Along DualFeedArbitrator.receive
      (fun s x => x.2.seqNo.toNat ≤ s.1.expectedSeqNo.toNat + MaxBufferedGaps) s history) :
    Runs.Along DualFeedArbitrator.receive (fun s x => ¬ s.1.Overwrites x.2) s history := by
  induction history generalizing s seen with
  | nil => trivial
  | cons x history ih =>
    obtain ⟨hmsg, hrest⟩ := hwindow
    have hx := hhistory x (List.mem_cons_self ..)
    have hfree := h.not_overwrites hM hdrained hbound hmsg
    obtain ⟨hkept, hmissing⟩ := h.receive hM hdrained hlt hx hfree
    -- the window moves up with the messages put out
    have hmono : s.1.expectedSeqNo.toNat ≤ (DualFeedArbitrator.receive s x).1.expectedSeqNo.toNat := by
      have hlen := (prefix_receive s x).length_le
      have hbefore := congrArg List.length h.emitted.numbers
      have hafter := congrArg List.length hkept.emitted.numbers
      rw [List.length_map, List.length_range'] at hbefore hafter
      have hone := hkept.emitted.expected
      omega
    have hsplit : ∀ m ∈ seen ++ [x.2], m ∈ seen ∨ m = x.2 := by
      intro m hm
      simpa using hm
    refine ⟨hfree, ih hkept hmissing ?_ ?_ (fun y hy => hhistory y (List.mem_cons_of_mem x hy)) hrest⟩
    · intro m hm
      rcases hsplit m hm with hm | rfl
      · exact hlt m hm
      · exact hx
    · intro m hm
      rcases hsplit m hm with hm | rfl
      · exact (hbound m hm).trans (by omega)
      · omega

/-! ### The two feeds -/

/-- The messages received from either feed. -/
def received (history : List (FeedSource × WireMessage)) : List WireMessage := history.map (·.2)

/-- The numbers up to which everything was received. -/
def complete (history : List (FeedSource × WireMessage)) : Set Nat :=
  {k | ∀ i, 1 ≤ i → i ≤ k → i ∈ (received history).map (·.seqNo.toNat)}

/-- After a run that overwrites nothing, everything was received up to the expected number, and no further. -/
theorem isGreatest_of_not_overwrites {history : List (FeedSource × WireMessage)} (hM : 0 < MaxBufferedGaps)
    (hhistory : ∀ x ∈ history, x.2.seqNo.toNat < 2 ^ 64 - 1)
    (hfree : Runs.Along receive (fun s x => ¬ s.1.Overwrites x.2) (reset MaxBufferedGaps, []) history) :
    Emitted (runDraining MaxBufferedGaps history) (received history) ∧
      IsGreatest (complete history) ((runDraining MaxBufferedGaps history).1.expectedSeqNo.toNat - 1) := by
  obtain ⟨⟨hemitted, -, -⟩, hmissing⟩ := (kept_reset MaxBufferedGaps).run hM (fun m hm => by cases hm)
    (fun m hm => by cases hm) hhistory hfree
  have hrun : history.foldl receive (reset MaxBufferedGaps, []) = runDraining MaxBufferedGaps history := rfl
  rw [List.nil_append, hrun] at hemitted hmissing
  refine ⟨hemitted, fun i hone hle => ?_, fun k hk => ?_⟩
  · have hi : i ∈ (runDraining MaxBufferedGaps history).2.map (·.seqNo.toNat) := by
      rw [hemitted.numbers, List.mem_range'_1]
      omega
    obtain ⟨m, hm, rfl⟩ := List.mem_map.1 hi
    exact List.mem_map_of_mem (hemitted.put_out m hm)
  · -- the expected number was not received
    have hone := hemitted.expected
    by_contra hlt
    obtain ⟨m, hm, he⟩ := List.mem_map.1 (hk _ hone (by omega))
    exact hmissing m hm (UInt64.toNat_inj.1 he)

/-- Each message is at most `MaxBufferedGaps` ahead of the expected one when it arrives, and the numbers stay below
the wrap of the counter. -/
structure InWindow (MaxBufferedGaps : Nat) (history : List (FeedSource × WireMessage)) : Prop where
  noWrap : ∀ x ∈ history, x.2.seqNo.toNat < 2 ^ 64 - 1
  window : Runs.Along receive (fun s x => x.2.seqNo.toNat ≤ s.1.expectedSeqNo.toNat + MaxBufferedGaps)
    (reset MaxBufferedGaps, []) history

theorem InWindow.along_not_overwrites {history : List (FeedSource × WireMessage)} (hM : 0 < MaxBufferedGaps)
    (h : InWindow MaxBufferedGaps history) :
    Runs.Along receive (fun s x => ¬ s.1.Overwrites x.2) (reset MaxBufferedGaps, []) history := by
  apply (kept_reset MaxBufferedGaps).along_not_overwrites hM _ _ _ h.noWrap h.window
  all_goals
    intro m hm
    cases hm

/-! ### The book behind the arbitrator -/

private theorem eq_of_map_eq {α β : Type*} {f : α → β} {l l' : List α}
    (hinj : ∀ x ∈ l, ∀ y ∈ l', f x = f y → x = y) (h : l.map f = l'.map f) : l = l' := by
  induction l generalizing l' with
  | nil => exact (List.map_eq_nil_iff.1 h.symm).symm
  | cons x l ih =>
    cases l' with
    | nil => cases h
    | cons y l' =>
      rw [List.map_cons, List.map_cons] at h
      obtain ⟨hxy, hrest⟩ := List.cons.inj h
      rw [hinj x (List.mem_cons_self ..) y (List.mem_cons_self ..) hxy, ih _ hrest]
      intro x' hx' y' hy'
      exact hinj x' (List.mem_cons_of_mem x hx') y' (List.mem_cons_of_mem y hy')

/-- Messages with the same number are the same message. -/
def Consistent (msgs : List WireMessage) : Prop := ∀ x ∈ msgs, ∀ y ∈ msgs, x.seqNo = y.seqNo → x = y

/-- Two lists of received messages with the same numbers are equal. -/
private theorem Consistent.eq {msgs l l' : List WireMessage} (h : Consistent msgs) (hl : ∀ x ∈ l, x ∈ msgs)
    (hl' : ∀ x ∈ l', x ∈ msgs) (hnumbers : l.map (·.seqNo.toNat) = l'.map (·.seqNo.toNat)) : l = l' := by
  refine eq_of_map_eq (fun x hx y hy he => ?_) hnumbers
  exact h x (hl x hx) y (hl' y hy) (UInt64.toNat_inj.1 he)

/-- For every history of two feeds inside the window: the messages put out are numbered `1, …, m` for the largest
`m` such that all of these were received.  When equal numbers carry equal messages, every other history of the same
messages puts out the same, and a book that is fed with what was put out ends as one fed the messages `1, …, m` in
order, without a gap. -/
theorem lossless_reordering {MaxBufferedGaps : Nat} (hM : 0 < MaxBufferedGaps)
    {history : List (FeedSource × WireMessage)} (h : InWindow MaxBufferedGaps history) :
    ∃ m, (runDraining MaxBufferedGaps history).2.map (·.seqNo.toNat) = List.range' 1 m ∧
      IsGreatest (complete history) m ∧
      (Consistent (received history) →
        (∀ history', InWindow MaxBufferedGaps history' → (∀ x, x ∈ received history' ↔ x ∈ received history) →
          (runDraining MaxBufferedGaps history').2 = (runDraining MaxBufferedGaps history).2 ∧
            (runDraining MaxBufferedGaps history').1.expectedSeqNo =
              (runDraining MaxBufferedGaps history).1.expectedSeqNo) ∧
        ∀ Depth TableCapacity clean, clean.map (·.seqNo.toNat) = List.range' 1 m →
          (∀ x ∈ clean, x ∈ received history) →
          LimitOrderBook.run Depth TableCapacity (runDraining MaxBufferedGaps history).2 =
              LimitOrderBook.run Depth TableCapacity clean ∧
            (LimitOrderBook.run Depth TableCapacity (runDraining MaxBufferedGaps history).2).sequenceGapsDetected =
              0) := by
  obtain ⟨hemitted, hgreatest⟩ := isGreatest_of_not_overwrites hM h.noWrap (h.along_not_overwrites hM)
  refine ⟨_, hemitted.numbers, hgreatest, fun hcons => ⟨fun history' h' hsame => ?_, ?_⟩⟩
  · obtain ⟨hemitted', hgreatest'⟩ := isGreatest_of_not_overwrites hM h'.noWrap (h'.along_not_overwrites hM)
    have hcomplete : complete history' = complete history := by
      unfold complete
      simp only [List.mem_map, hsame]
    rw [hcomplete] at hgreatest'
    -- the largest complete number is the same, and with it the expected number
    have hlast := hgreatest'.unique hgreatest
    have hone := hemitted.expected
    have hone' := hemitted'.expected
    constructor
    · apply hcons.eq (fun x hx => (hsame x).1 (hemitted'.put_out x hx)) hemitted.put_out
      rw [hemitted'.numbers, hemitted.numbers, hlast]
    · apply UInt64.toNat_inj.1
      omega
  · intro Depth TableCapacity clean hclean hsub
    constructor
    · rw [hcons.eq hemitted.put_out hsub (hemitted.numbers.trans hclean.symm)]
    · apply LimitOrderBook.foldl_sequenceGapsDetected (LimitOrderBook.reset Depth TableCapacity) (k := 1) rfl
      rw [← hemitted.numbers, List.map_map]
      exact List.map_congr_left fun m _ => UInt64.ofNat_toNat.symm

/-- Two interleavings of the same messages: 2 comes before 1, or 3 before 2. -/
theorem lossless_reordering_two_feeds :
    (runDraining 2 [(.FeedB, .ofCancel ⟨'X'.toUInt8, 1, 0, 7, 4⟩), (.FeedA, .ofCancel ⟨'X'.toUInt8, 3, 0, 7, 2⟩),
      (.FeedB, .ofCancel ⟨'X'.toUInt8, 2, 0, 7, 3⟩)]).2 =
    (runDraining 2 [(.FeedA, .ofCancel ⟨'X'.toUInt8, 2, 0, 7, 3⟩), (.FeedA, .ofCancel ⟨'X'.toUInt8, 3, 0, 7, 2⟩),
      (.FeedB, .ofCancel ⟨'X'.toUInt8, 1, 0, 7, 4⟩)]).2 := by
  have hwindow : InWindow 2 [(.FeedA, .ofCancel ⟨'X'.toUInt8, 2, 0, 7, 3⟩),
      (.FeedA, .ofCancel ⟨'X'.toUInt8, 3, 0, 7, 2⟩), (.FeedB, .ofCancel ⟨'X'.toUInt8, 1, 0, 7, 4⟩)] :=
    ⟨by decide, by decide⟩
  obtain ⟨m, -, -, hsame⟩ := lossless_reordering (by decide) hwindow
  refine ((hsame (by unfold Consistent; decide)).1 _ ⟨by decide, by decide⟩ fun x => ?_).1
  simp only [received, List.map_cons, List.map_nil, List.mem_cons, List.not_mem_nil, or_false]
  tauto

/-! ### A message too far ahead -/

/-- The message goes to the buffer, into the slot of another number. -/
def TakesSlot (a : DualFeedArbitrator MaxBufferedGaps) (seq : UInt64) (msg : WireMessage) : Prop :=
  a.expectedSeqNo < msg.seqNo ∧ msg.seqNo ≠ seq ∧ msg.seqNo.toNat % MaxBufferedGaps = seq.toNat % MaxBufferedGaps

/-- The message with this number is buffered or was put out. -/
def NotLost (seq : UInt64) (s : DualFeedArbitrator MaxBufferedGaps × List WireMessage) : Prop :=
  s.1.Holds seq ∨ seq ∈ s.2.map (·.seqNo)

/-- The call ingests no message into the slot of a number that was not put out yet. -/
def Spares (seq : UInt64) (s : DualFeedArbitrator MaxBufferedGaps × List WireMessage) : Call → Prop
  | .ingest _ msg => seq ∈ s.2.map (·.seqNo) ∨ ¬ s.1.TakesSlot seq msg
  | .tryDrainBuffered => True

/-- What was put out is not lost any more. -/
theorem notLost_of_out {seq : UInt64} {s : DualFeedArbitrator MaxBufferedGaps × List WireMessage} (c : Call)
    (h : seq ∈ s.2.map (·.seqNo)) : NotLost seq (step s c) := by
  right
  show seq ∈ (s.2 ++ _).map (·.seqNo)
  rw [List.map_append]
  exact List.mem_append_left _ h

/-- A message with the number itself is dropped, put out, or written over by its like. -/
theorem notLost_ingest_self {s : DualFeedArbitrator MaxBufferedGaps × List WireMessage} (source : FeedSource)
    {msg : WireMessage} (h : s.1.Holds msg.seqNo) : NotLost msg.seqNo (step s (.ingest source msg)) := by
  show (s.1.ingest source msg).2.Holds msg.seqNo ∨
    msg.seqNo ∈ (s.2 ++ (s.1.ingest source msg).1.toList).map (·.seqNo)
  obtain ⟨-, hcall⟩ | ⟨-, hcall⟩ | ⟨hgt, -⟩ := ingest_cases s.1 source msg
  · rw [hcall]
    exact Or.inl h
  · right
    rw [hcall, List.map_append]
    apply List.mem_append_right
    simp
  · exact Or.inl (holds_ingest_self h.pos source hgt)

/-- A message with another number loses a buffered one exactly when it takes its slot. -/
theorem notLost_ingest_iff {seq : UInt64} {s : DualFeedArbitrator MaxBufferedGaps × List WireMessage}
    (source : FeedSource) {msg : WireMessage} (h : s.1.Holds seq) (hout : seq ∉ s.2.map (·.seqNo))
    (hne : msg.seqNo ≠ seq) : NotLost seq (step s (.ingest source msg)) ↔ ¬ s.1.TakesSlot seq msg := by
  have hnot : seq ∉ (step s (.ingest source msg)).2.map (·.seqNo) := by
    show seq ∉ (s.2 ++ (s.1.ingest source msg).1.toList).map (·.seqNo)
    rw [List.map_append, List.mem_append]
    rintro (hin | hin)
    · exact hout hin
    · obtain ⟨-, hcall⟩ | ⟨-, hcall⟩ | ⟨-, hcall⟩ := ingest_cases s.1 source msg
      all_goals
        rw [hcall] at hin
        simp [Ne.symm hne] at hin
  calc NotLost seq (step s (.ingest source msg))
      ↔ (s.1.ingest source msg).2.Holds seq := or_iff_left hnot
    _ ↔ ¬ s.1.TakesSlot seq msg := by
      rw [holds_ingest_iff source h hne]
      unfold TakesSlot
      tauto

/-- Draining puts a buffered message out or leaves it. -/
theorem notLost_drain {seq : UInt64} {s : DualFeedArbitrator MaxBufferedGaps × List WireMessage}
    (h : s.1.Holds seq) : NotLost seq (step s .tryDrainBuffered) := by
  by_cases hexp : seq = s.1.expectedSeqNo
  · subst hexp
    right
    show _ ∈ (s.2 ++ s.1.tryDrainBuffered.1.toList).map (·.seqNo)
    rw [tryDrainBuffered_of_holds h, List.map_append]
    apply List.mem_append_right
    simpa using h.2.symm
  · exact Or.inl (h.drain hexp)

/-- One call keeps a number exactly when it spares it. -/
theorem notLost_step_iff {seq : UInt64} {s : DualFeedArbitrator MaxBufferedGaps × List WireMessage} (c : Call)
    (h : NotLost seq s) : NotLost seq (step s c) ↔ Spares seq s c := by
  by_cases hout : seq ∈ s.2.map (·.seqNo)
  · refine iff_of_true (notLost_of_out c hout) ?_
    cases c with
    | ingest source msg => exact Or.inl hout
    | tryDrainBuffered => trivial
  · have hholds : s.1.Holds seq := h.resolve_right hout
    cases c with
    | ingest source msg =>
      by_cases hne : msg.seqNo = seq
      · subst hne
        exact iff_of_true (notLost_ingest_self source hholds) (Or.inr fun htakes => htakes.2.1 rfl)
      · exact (notLost_ingest_iff source hholds hout hne).trans (or_iff_right hout).symm
    | tryDrainBuffered => exact iff_of_true (notLost_drain hholds) trivial

/-- For every reachable arbitrator and every continuation: a buffered message stays buffered until it is put out
exactly when no call of the continuation ingests another message into its slot.  And in a run with draining that
writes over no message to come, every message is put out once it and all before it were received. -/
theorem buffered_not_lost {MaxBufferedGaps : Nat} (hM : 0 < MaxBufferedGaps) :
    (∀ calls rest seq, (run MaxBufferedGaps calls).1.Holds seq →
      (Runs.Always step (NotLost seq) (run MaxBufferedGaps calls) rest ↔
        Runs.Along step (Spares seq) (run MaxBufferedGaps calls) rest)) ∧
    ∀ history : List (FeedSource × WireMessage), (∀ x ∈ history, x.2.seqNo.toNat < 2 ^ 64 - 1) →
      Runs.Along receive (fun s x => ¬ s.1.Overwrites x.2) (reset MaxBufferedGaps, []) history →
      ∀ n, 1 ≤ n → n ∈ complete history → n ∈ (runDraining MaxBufferedGaps history).2.map (·.seqNo.toNat) := by
  constructor
  · intro calls rest seq h
    have hstep : ∀ (s : DualFeedArbitrator MaxBufferedGaps × List WireMessage) (c : Call), True → True →
        NotLost seq s → (NotLost seq (step s c) ↔ Spares seq s c) := by
      intro s c _ _ hs
      exact notLost_step_iff c hs
    have htrue : Runs.Along step (fun _ _ => True) (run MaxBufferedGaps calls) rest := by
      rw [Runs.along_iff_prefix]
      exact fun _ _ _ _ => trivial
    exact Runs.Along.always_iff (I := fun _ => True) (fun _ _ _ _ => trivial) hstep trivial (Or.inl h) htrue
  · intro history hhistory hfree n hone hn
    obtain ⟨hemitted, hgreatest⟩ := isGreatest_of_not_overwrites hM hhistory hfree
    have hle := hgreatest.2 hn
    rw [hemitted.numbers, List.mem_range'_1]
    omega

/-- Two slots: 4 takes the slot of 2, which is waited for.  When 1 comes, everything up to 2 was received and 2 is
not put out. -/
theorem buffered_lost :
    (run 2 [.ingest .FeedA (.ofCancel ⟨'X'.toUInt8, 2, 0, 7, 3⟩)]).1.Holds 2 ∧
      (run 2 [.ingest .FeedA (.ofCancel ⟨'X'.toUInt8, 2, 0, 7, 3⟩)]).1.expectedSeqNo = 1 ∧
      ¬ (run 2 [.ingest .FeedA (.ofCancel ⟨'X'.toUInt8, 2, 0, 7, 3⟩),
          .ingest .FeedA (.ofCancel ⟨'X'.toUInt8, 4, 0, 7, 1⟩)]).1.Holds 2 ∧
      (run 2 [.ingest .FeedA (.ofCancel ⟨'X'.toUInt8, 2, 0, 7, 3⟩),
          .ingest .FeedA (.ofCancel ⟨'X'.toUInt8, 4, 0, 7, 1⟩)]).2 = [] ∧
      (runDraining 2 [(.FeedA, .ofCancel ⟨'X'.toUInt8, 2, 0, 7, 3⟩), (.FeedA, .ofCancel ⟨'X'.toUInt8, 4, 0, 7, 1⟩),
          (.FeedB, .ofCancel ⟨'X'.toUInt8, 1, 0, 7, 4⟩)]).2.map (·.seqNo.toNat) = [1] := by
  decide

/-- With four slots the same messages are all put out. -/
theorem buffered_not_lost_four_slots :
    2 ∈ (runDraining 4 [(.FeedA, .ofCancel ⟨'X'.toUInt8, 2, 0, 7, 3⟩), (.FeedA, .ofCancel ⟨'X'.toUInt8, 4, 0, 7, 1⟩),
      (.FeedB, .ofCancel ⟨'X'.toUInt8, 1, 0, 7, 4⟩)]).2.map (·.seqNo.toNat) := by
  apply (buffered_not_lost (by decide : 0 < 4)).2 _ (by decide) (by decide) 2 (by decide)
  intro i hone hle
  obtain rfl | rfl : i = 1 ∨ i = 2 := by omega
  all_goals decide

end DualFeedArbitrator

end FeedHandler
