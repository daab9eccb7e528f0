import FeedHandler.OrderBook.Gaps
import FeedHandler.RingBuffer.Spsc
import FeedHandler.UdpReceiver.LiveUdp
import FeedHandler.Workload.Benchmark

/-!
# Live mode behind a lossy network

The mock exchange sends each message as one datagram of 34 bytes.  The network may lose datagrams, and may deliver them
in another order.  What live mode makes of the rest is still a steady feed, so its book shows no phantom liquidity; and
when datagrams are lost only, the gap counter is at every moment the number of those lost so far (`lossy_network`).
-/

namespace FeedHandler

open LimitOrderBook

namespace LimitOrderBook

variable {lot : ℕ} {msgs received : List WireMessage} {m : WireMessage}

/-! ### Losing messages of an orderly feed -/

/-- The place of the last message received. -/
theorem Orderly.split_of_sublist (h : Orderly lot msgs) (hsub : (received ++ [m]).Sublist msgs) :
    ∃ pre post, msgs = pre ++ m :: post ∧ received.Sublist pre ∧ m.seqNo.toNat = pre.length + 1 := by
  obtain ⟨before, after, rfl, hbefore, hafter⟩ := List.append_sublist_iff.1 hsub
  obtain ⟨mid, post, rfl⟩ := List.append_of_mem (List.singleton_sublist.1 hafter)
  have hsplit : before ++ (mid ++ m :: post) = (before ++ mid) ++ m :: post := by rw [List.append_assoc]
  exact ⟨before ++ mid, post, hsplit, hbefore.trans (List.sublist_append_left ..), (h _ m post hsplit).seqNo⟩

theorem Orderly.lastSeqNo_le (h : Orderly lot msgs) (hsub : received.Sublist msgs) :
    lastSeqNo received ≤ msgs.length := by
  rcases List.eq_nil_or_concat received with rfl | ⟨init, m, rfl⟩
  · exact Nat.zero_le _
  · rw [List.concat_eq_append] at hsub ⊢
    obtain ⟨pre, post, rfl, -, hseq⟩ := h.split_of_sublist hsub
    rw [lastSeqNo_append, hseq, List.length_append, List.length_cons]
    omega

/-- The messages received are among those sent up to the last of them. -/
theorem Orderly.sublist_take (h : Orderly lot msgs) (hsub : received.Sublist msgs) :
    received.Sublist (msgs.take (lastSeqNo received)) := by
  rcases List.eq_nil_or_concat received with rfl | ⟨init, m, rfl⟩
  · exact List.nil_sublist _
  · rw [List.concat_eq_append] at hsub ⊢
    obtain ⟨pre, post, rfl, hinit, hseq⟩ := h.split_of_sublist hsub
    have htake : (pre ++ m :: post).take (pre.length + 1) = pre ++ [m] := by
      rw [List.take_length_add_append]
      rfl
    rw [lastSeqNo_append, hseq, htake]
    exact hinit.append (List.Sublist.refl [m])

/-- Each message up to the last one received was either received or counted as a gap. -/
theorem Orderly.gaps_of_loss (h : Orderly lot msgs) (hlt : msgs.length ≤ 2 ^ 64 - 2) (hsub : received.Sublist msgs)
    (Depth : Nat) (TableCapacity : Pow2) :
    (run Depth TableCapacity received).sequenceGapsDetected.toNat + received.length = lastSeqNo received := by
  induction received using List.reverseRecOn with
  | nil => rfl
  | append_singleton received m ih =>
    obtain ⟨pre, post, hsplit, hreceived, hseq⟩ := h.split_of_sublist hsub
    have hbefore := ih ((List.sublist_append_left ..).trans hsub)
    have hlast : lastSeqNo received ≤ pre.length :=
      (h.of_append (m :: post) hsplit).lastSeqNo_le hreceived
    have hlen : pre.length + 1 ≤ msgs.length := by
      rw [hsplit, List.length_append, List.length_cons]
      omega
    have hnumbers : ∀ x ∈ received, x.seqNo.toNat ≤ 2 ^ 64 - 2 := fun x hx => by
      obtain ⟨init, rest, hx'⟩ := List.append_of_mem (hreceived.subset hx)
      have hx'' := (h init x (rest ++ m :: post) (by rw [hsplit, hx', List.append_assoc]; rfl)).seqNo
      have hle := congrArg List.length hx'
      rw [List.length_append, List.length_cons] at hle
      omega
    rw [run_append_singleton, sequenceGapsDetected_processMessage (expectedSeqNo_run hnumbers) m, lastSeqNo_append,
      List.length_append, List.length_singleton, hseq, Nat.mod_eq_of_lt (by omega)]
    omega

/-- The gap counter is the number of messages lost. -/
theorem Orderly.exists_lost (h : Orderly lot msgs) (hlt : msgs.length ≤ 2 ^ 64 - 2) (hsub : received.Sublist msgs)
    (Depth : Nat) (TableCapacity : Pow2) :
    ∃ lost : List WireMessage, lost.length = (run Depth TableCapacity received).sequenceGapsDetected.toNat ∧
      (received ++ lost).Perm (msgs.take (lastSeqNo received)) := by
  obtain ⟨lost, hlost⟩ := (h.sublist_take hsub).exists_perm_append
  refine ⟨lost, ?_, hlost.symm⟩
  have hlength := hlost.length_eq
  have hgaps := h.gaps_of_loss hlt hsub Depth TableCapacity
  have hle := h.lastSeqNo_le hsub
  rw [List.length_take, List.length_append] at hlength
  omega

end LimitOrderBook

namespace LiveUdp

/-- The datagrams that came. -/
def arrived (rs : List Recv) : List (List UInt8) :=
  rs.filterMap fun
    | .datagram bytes => some bytes
    | _ => none

theorem memcpy_bytes (packet m : WireMessage) : packet.memcpy m.bytes.toList = m := by
  refine congrArg WireMessage.mk (Vector.ext fun i h => ?_)
  show (packet.memcpy m.bytes.toList).bytes[i] = m.bytes[i]
  rw [WireMessage.getElem_memcpy, List.getD_eq_getElem?_getD, List.getElem?_eq_getElem (by simpa using h)]
  simp

/-- A whole message replaces all that the buffer held. -/
theorem receiveLoop_whole (packet : WireMessage) {rs : List Recv} {received : List WireMessage}
    (h : arrived rs = received.map (·.bytes.toList)) : receiveLoop packet rs = received := by
  induction rs generalizing packet received with
  | nil =>
    have hnil : received = [] := by simpa [arrived] using h
    rw [hnil]
    rfl
  | cons r rs ih =>
    cases r with
    | wouldBlock => exact ih packet h
    | error => exact ih packet h
    | datagram bytes =>
      cases received with
      | nil => cases h
      | cons m received =>
        obtain ⟨hbytes, hrest⟩ := List.cons.inj h
        have hne : bytes ≠ [] := by
          rw [hbytes]
          exact List.ne_nil_of_length_pos (by simp)
        rw [receiveLoop_datagram packet hne, hbytes, memcpy_bytes]
        exact congrArg (m :: ·) (ih m hrest)

variable {Capacity : RingCapacity}

/-- Live mode on what the network leaves of the datagrams of the mock exchange, in every interleaving of the thread
that receives and the worker. -/
theorem lossy_network (rounds : List Round) (hlt : rounds.length + 1 < 2 ^ 64) (received : List WireMessage)
    (hreceived : received.Subperm (Publisher.messages .mockExchange {} rounds))
    (hroom : (addedIds received).length ≤ benchTable.val) (rs : List Recv)
    (hrs : arrived rs = received.map (·.bytes.toList)) (buffer : Vector WireMessage Capacity.val)
    (schedule : List (ThreadStep Unit WireMessage))
    (hpushed : (RingThreads.run 0 buffer schedule).pushed <+: runLiveUDP rs) :
    let popped := (RingThreads.run 0 buffer schedule).popped
    (run 5 benchTable popped).NoPhantomLiquidity ∧
      Runs.Along processMessage HasRoom (reset 5 benchTable) popped ∧
      (received.Sublist (Publisher.messages .mockExchange {} rounds) →
        ∃ lost : List WireMessage, lost.length = (run 5 benchTable popped).sequenceGapsDetected.toNat ∧
          (popped ++ lost).Perm ((Publisher.messages .mockExchange {} rounds).take (lastSeqNo popped))) := by
  intro popped
  have horderly := (Publisher.messages_orderly .mockExchange rounds hlt).1
  have hpart : popped <+: received := by
    have hwhole : runLiveUDP rs = received := receiveLoop_whole .zero hrs
    have horder : popped <+: (RingThreads.run 0 buffer schedule).pushed :=
      (RingThreads.inv_run_alone 0 buffer schedule).1.order
    exact horder.trans (hwhole ▸ hpushed)
  have hsteady : Steady 500 popped := (horderly.steady.subperm hreceived).subperm hpart.sublist.subperm
  have hadded : (addedIds popped).length ≤ (addedIds received).length :=
    ((hpart.sublist.filter _).map _).length_le
  have hcapacity : benchTable.val = 2097152 := rfl
  have halong : Runs.Along processMessage (fun book m => Admissible book m ∧ HasRoom book m) (reset 5 benchTable)
      popped := hsteady.along (by omega) (by omega)
  refine ⟨?_, halong.mono fun _ _ h => h.2, fun hsub => ?_⟩
  · have halways := always_backed (by decide) (halong.mono fun _ _ h => h.1)
    obtain ⟨hconsistent, hbacked⟩ := Runs.always_iff_prefix.1 halways popped [] (List.append_nil _).symm
    exact hbacked.noPhantomLiquidity hconsistent
  · refine horderly.exists_lost ?_ (hpart.sublist.trans hsub) 5 benchTable
    rw [Publisher.length_messages]
    omega

/-- A ring of two slots, two rounds in which every draw gives the lower bound, and the first of the two datagrams is
lost. -/
theorem lossy_network_second :
    (run 5 benchTable (@RingThreads.run Unit WireMessage ⟨⟨2, by decide, by decide⟩, by decide⟩ _ 0
      (Vector.replicate 2 .zero)
      (List.replicate 5 (.push () (.ofAdd ⟨'A'.toUInt8, 2, 0, 2, 'B'.toUInt8, 9950, 10⟩)) ++
        List.replicate 8 .pop)).popped).NoPhantomLiquidity :=
  (lossy_network (List.replicate 2 ⟨0, .low, .low, .low, .low, .low⟩) (by decide)
    [.ofAdd ⟨'A'.toUInt8, 2, 0, 2, 'B'.toUInt8, 9950, 10⟩] (List.singleton_sublist.2 (by decide)).subperm
    (by decide)
    [.wouldBlock, .datagram (WireMessage.ofAdd ⟨'A'.toUInt8, 2, 0, 2, 'B'.toUInt8, 9950, 10⟩).bytes.toList]
    rfl _ _ (by decide)).1

end LiveUdp

end FeedHandler
