import FeedHandler.PcapReplayer.ByteOrder
import FeedHandler.UdpReceiver.LossyNetwork

/-!
# Replaying a capture into live mode

The replayer sends the bytes of each message that belong to its type, and the packet that live mode pushes keeps what
the message before it has left behind them.  The book does not read these bytes, so it is the one that processes the
messages of the capture themselves (`replay_live`).

When a capture has no message, the replayer makes up 50000, which are a steady feed (`steady_synthetic`).
-/

namespace FeedHandler

open LimitOrderBook WireParserValidator

namespace LimitOrderBook

variable {Depth : Nat} {TableCapacity : Pow2}

/-- The book reads the bytes of a message that belong to its type. -/
theorem processMessage_of_take (book : LimitOrderBook Depth TableCapacity) {m m' : WireMessage}
    (hknown : WireMessage.expectedSize m.msgType ≠ 0)
    (h : m.bytes.toList.take (WireMessage.expectedSize m.msgType) =
      m'.bytes.toList.take (WireMessage.expectedSize m.msgType)) :
    book.processMessage m' = book.processMessage m := by
  have hsame := WireMessage.sameFields_of_take hknown h
  have hsize : 29 ≤ WireMessage.expectedSize m.msgType := by
    unfold WireMessage.expectedSize at hknown ⊢
    split_ifs at hknown ⊢ <;> omega
  have hseqNo : m'.seqNo = m.seqNo := (WireMessage.u64_congr h (by omega)).symm
  have horderId : m'.orderId = m.orderId := (WireMessage.u64_congr h (by omega)).symm
  refine processMessage_congr book hsame.msgType.symm hseqNo ?_
  unfold SameFields
  split
  · rename_i hA
    exact (hsame.add hA).symm
  · split
    · rename_i hX
      exact ⟨horderId, congrArg CancelOrderMsg.quantity (hsame.cancel hX).symm⟩
    · rename_i hA hX
      have hE := (((WireMessage.expectedSize_ne_zero_iff _).1 hknown).resolve_left hA).resolve_left hX
      exact ⟨horderId, congrArg ExecuteOrderMsg.execQuantity (hsame.exec hE).symm⟩

end LimitOrderBook

namespace PcapReplayer

open LiveUdp

variable {Depth : Nat} {TableCapacity : Pow2}

/-! ### The way of a message -/

/-- A message received over the packet before it. -/
theorem processMessage_received (book : LimitOrderBook Depth TableCapacity) (packet : WireMessage) {m : WireMessage}
    (hm : m.isValid = true) : book.processMessage (packet.memcpy m.wireBytes) = book.processMessage m := by
  have hle := WireMessage.expectedSize_le m.msgType
  refine processMessage_of_take book (WireMessage.expectedSize_of_isValid hm) ?_
  rw [WireMessage.take_memcpy _ hle (by rw [WireMessage.length_wireBytes]), WireMessage.wireBytes, List.take_take,
    Nat.min_self]

theorem foldl_receiveLoop (book : LimitOrderBook Depth TableCapacity) (packet : WireMessage) {rs : List Recv}
    {received : List WireMessage} (hvalid : ∀ m ∈ received, m.isValid = true) (h : arrived rs = datagrams received) :
    (receiveLoop packet rs).foldl processMessage book = received.foldl processMessage book := by
  induction rs generalizing book packet received with
  | nil =>
    have hnil : received = [] := by simpa [arrived, datagrams] using h
    rw [hnil]
    rfl
  | cons r rs ih =>
    cases r with
    | wouldBlock => exact ih book packet hvalid h
    | error => exact ih book packet hvalid h
    | datagram bytes =>
      cases received with
      | nil => cases h
      | cons m received =>
        obtain ⟨hbytes, hrest⟩ := List.cons.inj h
        have hm := hvalid m List.mem_cons_self
        have hne : bytes ≠ [] := by
          obtain ⟨rest, hcons⟩ := WireMessage.exists_wireBytes_eq (WireMessage.expectedSize_of_isValid hm)
          rw [hbytes]
          show m.wireBytes ≠ []
          rw [hcons]
          exact List.cons_ne_nil _ _
        rw [receiveLoop_datagram packet hne, hbytes, List.foldl_cons, List.foldl_cons,
          processMessage_received book packet hm]
        exact ih _ _ (fun x hx => hvalid x (List.mem_cons_of_mem _ hx)) hrest

/-! ### The synthetic messages -/

/-- Message `i` of the fallback, with the counters of its loop. -/
def syntheticMessage (i : Nat) (seqNo orderId : UInt64) : WireMessage :=
  if i % 10 < 7 then
    .ofAdd {
      msgType := 'A'.toUInt8
      seqNo
      timestampNs := UInt64.ofNat i * 1000
      orderId
      side := if i % 2 = 0 then 'B'.toUInt8 else 'S'.toUInt8
      price := .ofInt (10000 + i % 20)
      quantity := .ofInt (100 + i % 50 * 10) }
  else if i % 10 < 9 then
    .ofCancel {
      msgType := 'X'.toUInt8
      seqNo
      timestampNs := UInt64.ofNat i * 1000
      orderId := if orderId > 1010 then orderId - 5 else 1000
      quantity := 0 }
  else
    .ofExec {
      msgType := 'E'.toUInt8
      seqNo
      timestampNs := UInt64.ofNat i * 1000
      orderId := if orderId > 1010 then orderId - 3 else 1000
      execQuantity := 50
      matchPrice := 10005 }

/-- The loop over `i`, with `n` rounds to go. -/
def syntheticLoop : Nat → Nat → UInt64 → UInt64 → List WireMessage
  | 0, _, _, _ => []
  | n + 1, i, seqNo, orderId =>
    syntheticMessage i seqNo orderId ::
      syntheticLoop n (i + 1) (seqNo + 1) (if i % 10 < 7 then orderId + 1 else orderId)

/-- Generate synthetic ITCH stream. -/
def synthetic : List WireMessage := syntheticLoop 50000 0 1 1000

/-- `messagesToReplay` when the send loop starts; there may be no file. -/
def replayed (file : Option (List UInt8)) : List WireMessage :=
  let messages := (file.map messagesToReplay).getD []
  if messages = [] then synthetic else messages

theorem syntheticMessage_add {i : Nat} (h : i % 10 < 7) (seqNo orderId : UInt64) :
    (syntheticMessage i seqNo orderId).msgType = 'A'.toUInt8 ∧ (syntheticMessage i seqNo orderId).orderId = orderId ∧
      (syntheticMessage i seqNo orderId).add.quantity.toInt ≤ 590 ∧
        (syntheticMessage i seqNo orderId).isValid = true := by
  have hquantity : (Int32.ofInt (100 + i % 50 * 10)).toInt = 100 + i % 50 * 10 :=
    Int32.toInt_ofInt_of_le (by omega) (by omega)
  have hprice : (Int32.ofInt (10000 + i % 20)).toInt = 10000 + i % 20 :=
    Int32.toInt_ofInt_of_le (by omega) (by omega)
  unfold syntheticMessage
  rw [if_pos h]
  refine ⟨WireMessage.msgType_ofAdd _, congrArg AddOrderMsg.orderId (WireMessage.add_ofAdd _), ?_, ?_⟩
  · rw [WireMessage.add_ofAdd, hquantity]
    omega
  · refine isValid_ofAdd _ _ _ ?_ ((Int32.pos_iff_toInt _).2 (by omega)) ((Int32.pos_iff_toInt _).2 (by omega))
    split
    · exact Or.inl rfl
    · exact Or.inr rfl

theorem syntheticMessage_other {i : Nat} (h : ¬i % 10 < 7) (seqNo orderId : UInt64) :
    (syntheticMessage i seqNo orderId).msgType ≠ 'A'.toUInt8 ∧
      ((syntheticMessage i seqNo orderId).msgType = 'X'.toUInt8 →
        (syntheticMessage i seqNo orderId).cancel.quantity.toInt ≤ 590) ∧
      (syntheticMessage i seqNo orderId).isValid = true := by
  unfold syntheticMessage
  rw [if_neg h]
  by_cases hX : i % 10 < 9
  · rw [if_pos hX]
    refine ⟨WireMessage.cancelType_ne_addType, fun _ => ?_, (isValid_ofCancel_iff ..).2 (by decide)⟩
    rw [WireMessage.cancel_ofCancel]
    exact (by decide : (0 : Int32).toInt ≤ 590)
  · rw [if_neg hX]
    exact ⟨WireMessage.execType_ne_addType, fun hcancel => absurd hcancel WireMessage.execType_ne_cancelType,
      (isValid_ofExec_iff _ _ _ (by decide) _).2 (by decide)⟩

/-- The loop from any counters: the ids that it adds go up from `orderId`. -/
theorem steady_syntheticLoop (n i : Nat) (seqNo orderId : UInt64) (hlt : orderId.toNat + n < 2 ^ 64) :
    LimitOrderBook.Steady 590 (syntheticLoop n i seqNo orderId) ∧
      ∀ id ∈ addedIds (syntheticLoop n i seqNo orderId), orderId ≤ id := by
  induction n generalizing i seqNo orderId with
  | zero =>
    rw [syntheticLoop]
    exact ⟨⟨List.forall_mem_nil _, List.nodup_nil, List.forall_mem_nil _, List.forall_mem_nil _⟩, List.forall_mem_nil _⟩
  | succ n ih =>
    rw [syntheticLoop]
    by_cases hadd : i % 10 < 7
    · obtain ⟨hA, hid, hquantity, hvalid⟩ := syntheticMessage_add hadd seqNo orderId
      have hX : (syntheticMessage i seqNo orderId).msgType ≠ 'X'.toUInt8 := by rw [hA]; decide
      have hnext : (orderId + 1).toNat = orderId.toNat + 1 := RingIndex.toNat_succ (by omega)
      rw [if_pos hadd]
      obtain ⟨hsteady, hids⟩ := ih (i + 1) (seqNo + 1) (orderId + 1) (by omega)
      generalize syntheticLoop n (i + 1) (seqNo + 1) (orderId + 1) = rest at hsteady hids ⊢
      have hadded : addedIds (syntheticMessage i seqNo orderId :: rest) = orderId :: addedIds rest := by
        unfold addedIds
        rw [List.filter_cons_of_pos (by simpa using hA), List.map_cons, hid]
      rw [hadded]
      refine ⟨⟨?_, ?_, ?_, ?_⟩, ?_⟩
      · exact List.forall_mem_cons.2 ⟨hvalid, hsteady.valid⟩
      · rw [hadded, List.nodup_cons]
        refine ⟨fun hmem => ?_, hsteady.fresh⟩
        have hle := UInt64.le_iff_toNat_le.1 (hids orderId hmem)
        omega
      · exact List.forall_mem_cons.2 ⟨fun _ => hquantity, hsteady.add⟩
      · exact List.forall_mem_cons.2 ⟨fun hcancel => absurd hcancel hX, hsteady.cancel⟩
      · refine List.forall_mem_cons.2 ⟨UInt64.le_refl _, fun id hmem => ?_⟩
        have hle := UInt64.le_iff_toNat_le.1 (hids id hmem)
        exact UInt64.le_iff_toNat_le.2 (by omega)
    · obtain ⟨hA, hquantity, hvalid⟩ := syntheticMessage_other hadd seqNo orderId
      rw [if_neg hadd]
      obtain ⟨hsteady, hids⟩ := ih (i + 1) (seqNo + 1) orderId (by omega)
      generalize syntheticLoop n (i + 1) (seqNo + 1) orderId = rest at hsteady hids ⊢
      have hadded : addedIds (syntheticMessage i seqNo orderId :: rest) = addedIds rest := by
        unfold addedIds
        rw [List.filter_cons_of_neg (by simpa using hA)]
      rw [hadded]
      refine ⟨⟨?_, ?_, ?_, ?_⟩, hids⟩
      · exact List.forall_mem_cons.2 ⟨hvalid, hsteady.valid⟩
      · rw [hadded]
        exact hsteady.fresh
      · exact List.forall_mem_cons.2 ⟨fun hadd' => absurd hadd' hA, hsteady.add⟩
      · exact List.forall_mem_cons.2 ⟨hquantity, hsteady.cancel⟩

theorem steady_synthetic : LimitOrderBook.Steady 590 synthetic :=
  (steady_syntheticLoop 50000 0 1 1000 (by decide)).1

theorem length_syntheticLoop (n i : Nat) (seqNo orderId : UInt64) :
    (syntheticLoop n i seqNo orderId).length = n := by
  induction n generalizing i seqNo orderId with
  | zero => rfl
  | succ n ih => rw [syntheticLoop, List.length_cons, ih]

/-! ### The result -/

theorem replayed_of_empty {file : Option (List UInt8)} (h : (file.map messagesToReplay).getD [] = []) :
    replayed file = synthetic :=
  if_pos h

theorem isValid_of_mem_replayed {file : Option (List UInt8)} {m : WireMessage} (h : m ∈ replayed file) :
    m.isValid = true := by
  unfold replayed at h
  dsimp only at h
  split at h
  · exact steady_synthetic.valid m h
  · cases file with
    | none => cases h
    | some bytes =>
      simp only [Option.map_some, Option.getD_some] at h
      exact isValid_of_mem_messagesToReplay h

/-- Whatever the capture holds and whatever arrives of the datagrams sent, the book of live mode is the one that
processes the messages that arrived; and when the capture holds no message, no part of what is sent instead leads to
phantom liquidity. -/
theorem replay_live (file : Option (List UInt8)) (received : List WireMessage)
    (hreceived : received.Subperm (replayed file)) (rs : List Recv) (hrs : arrived rs = datagrams received) :
    (∀ (Depth : Nat) (TableCapacity : Pow2),
      run Depth TableCapacity (runLiveUDP rs) = run Depth TableCapacity received) ∧
    ((file.map messagesToReplay).getD [] = [] → (run 5 benchTable (runLiveUDP rs)).NoPhantomLiquidity) := by
  have hbook : ∀ (Depth : Nat) (TableCapacity : Pow2),
      run Depth TableCapacity (runLiveUDP rs) = run Depth TableCapacity received := fun Depth TableCapacity =>
    foldl_receiveLoop _ _ (fun m hm => isValid_of_mem_replayed (hreceived.subset hm)) hrs
  refine ⟨hbook, fun hempty => ?_⟩
  rw [replayed_of_empty hempty] at hreceived
  have hsteady := steady_synthetic.subperm hreceived
  have hlength : received.length ≤ 50000 := by
    rw [← length_syntheticLoop 50000 0 1 1000]
    exact hreceived.length_le
  have hadded := Publisher.length_addedIds_le received
  have hcapacity : benchTable.val = 2097152 := rfl
  have halong : Runs.Along processMessage (fun book m => Admissible book m ∧ HasRoom book m) (reset 5 benchTable)
      received := hsteady.along (by omega) (by omega)
  have halways := always_backed (by decide) (halong.mono fun _ _ h => h.1)
  obtain ⟨hconsistent, hbacked⟩ := Runs.always_iff_prefix.1 halways received [] (List.append_nil _).symm
  rw [hbook]
  exact hbacked.noPhantomLiquidity hconsistent

/-- An Add. -/
def sentAdd : WireMessage := .ofAdd ⟨'A'.toUInt8, 1, 0, 7, 'B'.toUInt8, 100, 5⟩

/-- A shorter message. -/
def sentCancel : WireMessage := .ofCancel ⟨'X'.toUInt8, 2, 0, 7, 3⟩

/-- A packet for each of the two; the second is filled up with zeros to the size that the replayer asks for. -/
def addAndCancel : Capture where
  header := ⟨0xa1b2c3d4, 2, 4, 0, 0, 262144, 1⟩
  packets := [⟨⟨0, 0, 34, 34⟩, sentAdd.wireBytes, by decide⟩,
    ⟨⟨0, 0, 34, 34⟩, sentCancel.wireBytes ++ List.replicate 5 0, by decide⟩]
  magicNumber_eq := rfl

/-- The Cancel is received over the bytes of the Add; and without a capture only the first datagram arrives. -/
theorem replay_live_two_sizes :
    run 5 benchTable (runLiveUDP [.datagram sentAdd.wireBytes, .wouldBlock, .datagram sentCancel.wireBytes]) =
        run 5 benchTable [sentAdd, sentCancel] ∧
      (run 5 benchTable
        (runLiveUDP [.wouldBlock, .datagram (syntheticMessage 0 1 1000).wireBytes])).NoPhantomLiquidity := by
  have hreplayed : replayed (some (addAndCancel.bytes false)) = [sentAdd, sentCancel] := by
    have hfound : found addAndCancel.packets = [sentAdd, sentCancel] := by decide
    unfold replayed
    rw [Option.map_some, Option.getD_some, messagesToReplay_bytes, readPackets_inOrder, hfound]
    exact if_neg (List.cons_ne_nil _ _)
  have hfirst : syntheticMessage 0 1 1000 ∈ replayed none := by
    rw [replayed_of_empty rfl, synthetic, syntheticLoop]
    exact List.mem_cons_self
  constructor
  · refine (replay_live (some (addAndCancel.bytes false)) [sentAdd, sentCancel] ?_ _ rfl).1 5 benchTable
    rw [hreplayed]
  · exact (replay_live none [syntheticMessage 0 1 1000] (List.singleton_sublist.2 hfirst).subperm _ rfl).2 rfl

end PcapReplayer

end FeedHandler
