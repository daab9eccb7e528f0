import FeedHandler.Foundation.RingIndex
import FeedHandler.OrderBook.CoherentFeed
import FeedHandler.ParserValidator.Validity
import FeedHandler.Workload.Basic

/-!
# The generators send orderly feeds

The vector of a generator holds the orders that were added and not withdrawn (`Keeps`), whatever is drawn.  So an X
or E is about one of these, and the messages of a `Publisher` follow one another as an orderly feed asks.
-/

namespace FeedHandler

open LimitOrderBook SwapRemove WireParserValidator

/-! ### What is drawn -/

namespace Round

variable (r : Round) (mix : ActionMix) {activeOrders : List UInt64}

theorem qty_range : 10 ≤ r.qty.toInt ∧ r.qty.toInt ≤ 500 := by
  have hdraw := r.quantity.within 10 500 (by decide)
  unfold qty
  rw [Int32.toInt_ofInt_of_le (by omega) (by omega)]
  exact hdraw

theorem pick_lt (h : activeOrders ≠ []) : r.pick activeOrders < activeOrders.length := by
  have hpos := List.length_pos_iff.2 h
  have hdraw := r.idx.within 0 (activeOrders.length - 1) (by omega)
  unfold pick
  omega

theorem getD_pick (h : r.pick activeOrders < activeOrders.length) :
    activeOrders.getD (r.pick activeOrders) 0 = activeOrders[r.pick activeOrders] := by
  rw [List.getD_eq_getElem?_getD, List.getElem?_eq_getElem h, Option.getD_some]

theorem addSide_cases : r.addSide = 'B'.toUInt8 ∨ r.addSide = 'S'.toUInt8 := by
  unfold addSide
  split
  · exact Or.inl rfl
  · exact Or.inr rfl

theorem addPrice_pos : 0 < (r.addPrice mix).toInt := by
  obtain ⟨hbid, hbids, hbidsMax⟩ := mix.bids_range
  obtain ⟨hask, hasks, hasksMax⟩ := mix.asks_range
  have hb := r.price.within mix.bids.1 mix.bids.2 hbids
  have ha := r.price.within mix.asks.1 mix.asks.2 hasks
  unfold addPrice
  split
  · rw [Int32.toInt_ofInt_of_le (by omega) (by omega)]
    omega
  · rw [Int32.toInt_ofInt_of_le (by omega) (by omega)]
    omega

theorem cancelQty_range : 0 ≤ (r.cancelQty mix).toInt ∧ (r.cancelQty mix).toInt ≤ 250 := by
  obtain ⟨hlow, hhigh⟩ := r.qty_range
  have htwo : (2 : Int32).toInt = 2 := rfl
  unfold cancelQty
  split
  · decide
  · rw [Int32.toInt_div_of_nonneg (by omega) (by decide), htwo]
    omega

variable (orderId targetId seqNo : UInt64)

@[simp] theorem msgType_addMessage :
    (r.addMessage mix orderId seqNo).msgType = 'A'.toUInt8 := WireMessage.msgType_ofAdd _

@[simp] theorem msgType_cancelMessage :
    (r.cancelMessage mix targetId seqNo).msgType = 'X'.toUInt8 := WireMessage.msgType_ofCancel _

@[simp] theorem msgType_execMessage :
    (r.execMessage mix targetId seqNo).msgType = 'E'.toUInt8 := WireMessage.msgType_ofExec _

theorem cancel_cancelMessage : (r.cancelMessage mix targetId seqNo).cancel =
    ⟨'X'.toUInt8, seqNo, r.nowNs, targetId, r.cancelQty mix⟩ := WireMessage.cancel_ofCancel _

theorem exec_execMessage : (r.execMessage mix targetId seqNo).exec =
    ⟨'E'.toUInt8, seqNo, r.nowNs, targetId, r.qty / mix.execDivisor, 10000⟩ := WireMessage.exec_ofExec _

theorem execQty_pos : 0 < (r.qty / mix.execDivisor).toInt := by
  obtain ⟨hlow, hhigh⟩ := r.qty_range
  obtain ⟨hone, hten⟩ := mix.execDivisor_range
  rw [Int32.toInt_div_of_nonneg (by omega) (by omega)]
  exact Int.le_ediv_of_mul_le (by omega) (by omega)

end Round

/-! ### What a round sends -/

/-- What a message of a round makes of the vector. -/
inductive Made (activeOrders : List UInt64) (orderId : UInt64) (m : WireMessage) : List UInt64 → Prop where
  | add (hA : m.msgType = 'A'.toUInt8) (hid : m.orderId = orderId) (hqty : m.add.quantity.toInt ≤ 500) :
    Made activeOrders orderId m (activeOrders ++ [orderId])
  | cancel (hX : m.msgType = 'X'.toUInt8) (hqty : m.cancel.quantity.toInt ≤ 500) {idx : Nat}
      (hidx : idx < activeOrders.length) (hid : m.orderId = activeOrders[idx]) :
    Made activeOrders orderId m (if m.cancel.quantity ≤ 0 then swapRemove activeOrders idx else activeOrders)
  | exec (hE : m.msgType = 'E'.toUInt8) (hid : m.orderId ∈ activeOrders) : Made activeOrders orderId m activeOrders

/-- A valid message with the number given, and what it makes of the vector. -/
structure Round.Sends (activeOrders : List UInt64) (orderId seqNo : UInt64) (out : WireMessage × List UInt64) :
    Prop where
  made : Made activeOrders orderId out.1 out.2
  valid : out.1.isValid = true
  seqNo : out.1.seqNo = seqNo

namespace Round

variable (r : Round) (mix : ActionMix) (activeOrders : List UInt64) (orderId seqNo : UInt64)

theorem sends_add : Sends activeOrders orderId seqNo (r.addMessage mix orderId seqNo, activeOrders ++ [orderId]) := by
  obtain ⟨hlow, hhigh⟩ := r.qty_range
  have hadd : (r.addMessage mix orderId seqNo).add = ⟨'A'.toUInt8, seqNo, r.nowNs, orderId, r.addSide,
      r.addPrice mix, r.qty⟩ := WireMessage.add_ofAdd _
  refine ⟨.add (r.msgType_addMessage ..) (congrArg AddOrderMsg.orderId hadd) (by rwa [hadd]), ?_,
    congrArg AddOrderMsg.seqNo hadd⟩
  exact isValid_ofAdd _ _ _ r.addSide_cases ((Int32.pos_iff_toInt _).2 (r.addPrice_pos mix))
    ((Int32.pos_iff_toInt _).2 (by omega))

theorem sends_cancel {idx : Nat} (hidx : idx < activeOrders.length) :
    Sends activeOrders orderId seqNo (r.cancelMessage mix activeOrders[idx] seqNo,
      if r.cancelQty mix = 0 then swapRemove activeOrders idx else activeOrders) := by
  obtain ⟨hlow, hhigh⟩ := r.cancelQty_range mix
  have hcancel := r.cancel_cancelMessage mix activeOrders[idx] seqNo
  have hq : (r.cancelMessage mix activeOrders[idx] seqNo).cancel.quantity = r.cancelQty mix := by rw [hcancel]
  have hid : (r.cancelMessage mix activeOrders[idx] seqNo).orderId = activeOrders[idx] := by
    rw [← WireMessage.cancel_orderId, hcancel]
  have hzero : (r.cancelMessage mix activeOrders[idx] seqNo).cancel.quantity ≤ 0 ↔ r.cancelQty mix = 0 := by
    rw [hq, Int32.nonpos_iff_toInt, ← Int32.toInt_inj]
    show _ ≤ 0 ↔ _ = 0
    omega
  refine ⟨?_, (isValid_ofCancel_iff ..).2 ((Int32.nonneg_iff_toInt _).2 hlow), ?_⟩
  · have hmade : Made activeOrders orderId (r.cancelMessage mix activeOrders[idx] seqNo) _ :=
      .cancel (r.msgType_cancelMessage mix _ seqNo) (by rw [hq]; omega) hidx hid
    simp only [hzero] at hmade
    exact hmade
  · rw [← WireMessage.cancel_seqNo, hcancel]

theorem sends_exec {targetId : UInt64} (htarget : targetId ∈ activeOrders) :
    Sends activeOrders orderId seqNo (r.execMessage mix targetId seqNo, activeOrders) := by
  have hexec := r.exec_execMessage mix targetId seqNo
  have hid : (r.execMessage mix targetId seqNo).orderId = targetId := by rw [← WireMessage.exec_orderId, hexec]
  refine ⟨.exec (r.msgType_execMessage ..) (by rwa [hid]), ?_, ?_⟩
  · exact (isValid_ofExec_iff _ _ _ ((Int32.pos_iff_toInt _).2 (r.execQty_pos mix)) _).2 (by decide)
  · rw [← WireMessage.exec_seqNo, hexec]

/-- What every round sends, whatever is drawn. -/
theorem sends_generate : Sends activeOrders orderId seqNo (r.generate mix activeOrders orderId seqNo) := by
  unfold generate
  by_cases hadds : r.actionRoll < mix.cancelFrom ∨ activeOrders = []
  · rw [if_pos hadds]
    exact r.sends_add ..
  · have hlt := r.pick_lt (not_or.1 hadds).2
    rw [if_neg hadds]
    dsimp only
    rw [r.getD_pick hlt]
    split
    · exact r.sends_cancel mix activeOrders orderId seqNo hlt
    · exact r.sends_exec mix activeOrders orderId seqNo (List.getElem_mem hlt)

end Round

/-! ### The orders that a generator keeps -/

/-- After `sent`, the vector holds the orders that were added and not withdrawn. -/
structure Keeps (sent : List WireMessage) (activeOrders : List UInt64) : Prop where
  nodup : activeOrders.Nodup
  mem : ∀ id, id ∈ activeOrders ↔ id ∈ addedIds sent ∧ id ∉ withdrawnIds sent

/-- One round of a generator: the message follows what was sent, an Add has the id given, and the vector is kept. -/
structure Generated (sent : List WireMessage) (orderId : UInt64) (out : WireMessage × List UInt64) : Prop where
  maySend : MaySend 500 sent out.1
  keeps : Keeps (sent ++ [out.1]) out.2
  orderId : out.1.msgType = 'A'.toUInt8 → out.1.orderId = orderId

theorem Made.orderId_add {activeOrders rest : List UInt64} {orderId : UInt64} {m : WireMessage}
    (h : Made activeOrders orderId m rest) (hA : m.msgType = 'A'.toUInt8) : m.orderId = orderId := by
  cases h with
  | add _ hid => exact hid
  | cancel hX => rw [hX] at hA; cases hA
  | exec hE => rw [hE] at hA; cases hA

namespace Keeps

variable {sent : List WireMessage} {activeOrders rest : List UInt64} {mix : ActionMix} {orderId seqNo : UInt64}
  {m : WireMessage} {r : Round}

theorem nil : Keeps [] [] := ⟨List.nodup_nil, fun id => by simp [addedIds]⟩

/-- A message that neither adds nor withdraws an order. -/
theorem other (h : Keeps sent activeOrders) (hA : m.msgType ≠ 'A'.toUInt8)
    (hX : ¬(m.msgType = 'X'.toUInt8 ∧ m.cancel.quantity ≤ 0)) : Keeps (sent ++ [m]) activeOrders := by
  refine ⟨h.nodup, fun id => ?_⟩
  rw [h.mem, mem_addedIds_append, mem_withdrawnIds_append]
  simp [hA, hX]

theorem add (h : Keeps sent activeOrders) (hA : m.msgType = 'A'.toUInt8)
    (hnew : m.orderId ∉ addedIds sent) (hwithdrawn : ∀ id ∈ withdrawnIds sent, id ∈ addedIds sent) :
    Keeps (sent ++ [m]) (activeOrders ++ [m.orderId]) := by
  have hX : m.msgType ≠ 'X'.toUInt8 := by rw [hA]; decide
  refine ⟨?_, fun id => ?_⟩
  · rw [List.nodup_append_comm, List.singleton_append, List.nodup_cons]
    exact ⟨fun hin => hnew ((h.mem _).1 hin).1, h.nodup⟩
  · rw [List.mem_append, h.mem, mem_addedIds_append, mem_withdrawnIds_append, List.mem_singleton]
    constructor
    · rintro (⟨hadded, hkept⟩ | rfl)
      · exact ⟨Or.inl hadded, fun hw => hw.elim hkept fun hw => hX hw.1.1⟩
      · exact ⟨Or.inr ⟨hA, rfl⟩, fun hw => hw.elim (fun hw => hnew (hwithdrawn _ hw)) fun hw => hX hw.1.1⟩
    · rintro ⟨hadded | ⟨-, rfl⟩, hkept⟩
      · exact Or.inl ⟨hadded, fun hw => hkept (Or.inl hw)⟩
      · exact Or.inr rfl

theorem withdraw (h : Keeps sent activeOrders) (hX : m.msgType = 'X'.toUInt8)
    (hq : m.cancel.quantity ≤ 0) {idx : Nat} (hidx : idx < activeOrders.length) (hid : m.orderId = activeOrders[idx]) :
    Keeps (sent ++ [m]) (swapRemove activeOrders idx) := by
  have hA : m.msgType ≠ 'A'.toUInt8 := by rw [hX]; decide
  refine ⟨nodup_swapRemove h.nodup hidx, fun id => ?_⟩
  rw [mem_swapRemove h.nodup hidx, h.mem, mem_addedIds_append, mem_withdrawnIds_append, ← hid]
  constructor
  · rintro ⟨⟨hadded, hkept⟩, hne⟩
    exact ⟨Or.inl hadded, fun hw => hw.elim hkept fun hw => hne hw.2.symm⟩
  · rintro ⟨hadded | ⟨hadd, -⟩, hkept⟩
    · exact ⟨⟨hadded, fun hw => hkept (Or.inl hw)⟩, fun he => hkept (Or.inr ⟨⟨hX, hq⟩, he.symm⟩)⟩
    · exact absurd hadd hA

/-- The message of a round may follow what was sent. -/
theorem mayFollow (h : Keeps sent activeOrders) (hnew : orderId ∉ addedIds sent)
    (hmade : Made activeOrders orderId m rest) (hvalid : m.isValid = true) : MayFollow 500 sent m := by
  cases hmade with
  | add hA hid hqty =>
    have hX : m.msgType ≠ 'X'.toUInt8 := by rw [hA]; decide
    exact ⟨hvalid, fun _ => ⟨by rwa [hid], hqty⟩, fun hne => absurd hA hne, fun hcan => absurd hcan hX⟩
  | cancel hX hqty hidx hid =>
    have hA : m.msgType ≠ 'A'.toUInt8 := by rw [hX]; decide
    have hknown := (h.mem _).1 (List.getElem_mem hidx)
    exact ⟨hvalid, fun hadd => absurd hadd hA, fun _ => by rwa [hid], fun _ => hqty⟩
  | exec hE hid =>
    have hA : m.msgType ≠ 'A'.toUInt8 := by rw [hE]; decide
    have hX : m.msgType ≠ 'X'.toUInt8 := by rw [hE]; decide
    exact ⟨hvalid, fun hadd => absurd hadd hA, fun _ => (h.mem _).1 hid, fun hcan => absurd hcan hX⟩

/-- The vector is kept by a round. -/
theorem made (h : Keeps sent activeOrders) (hwithdrawn : ∀ id ∈ withdrawnIds sent, id ∈ addedIds sent)
    (hnew : orderId ∉ addedIds sent) (hmade : Made activeOrders orderId m rest) : Keeps (sent ++ [m]) rest := by
  cases hmade with
  | add hA hid =>
    rw [← hid]
    exact h.add hA (by rwa [hid]) hwithdrawn
  | cancel hX hqty hidx hid =>
    have hA : m.msgType ≠ 'A'.toUInt8 := by rw [hX]; decide
    split
    · rename_i hq
      exact h.withdraw hX hq hidx hid
    · rename_i hq
      exact h.other hA fun hw => hq hw.2
  | exec hE =>
    have hA : m.msgType ≠ 'A'.toUInt8 := by rw [hE]; decide
    have hX : m.msgType ≠ 'X'.toUInt8 := by rw [hE]; decide
    exact h.other hA fun hw => hX hw.1

theorem generated (h : Keeps sent activeOrders) (hwithdrawn : ∀ id ∈ withdrawnIds sent, id ∈ addedIds sent)
    (hnew : orderId ∉ addedIds sent) (hseqNo : seqNo.toNat = sent.length + 1) :
    Generated sent orderId (r.generate mix activeOrders orderId seqNo) := by
  obtain ⟨hmade, hvalid, hnumber⟩ := r.sends_generate mix activeOrders orderId seqNo
  exact ⟨(h.mayFollow hnew hmade hvalid).maySend (by rw [hnumber, hseqNo]), h.made hwithdrawn hnew hmade,
    hmade.orderId_add⟩

end Keeps

/-! ### The publishers -/

namespace Publisher

variable {s : Publisher} {sent : List WireMessage}

/-- The counters and the vector of a publisher that has sent `sent`. -/
structure Sent (sent : List WireMessage) (s : Publisher) : Prop where
  keeps : Keeps sent s.activeOrders
  seqNo : s.seqNo.toNat = sent.length + 1
  nextOrderId : s.nextOrderId.toNat = (addedIds sent).length + 1
  ids : ∀ id ∈ addedIds sent, id < s.nextOrderId

theorem sent_start : Sent [] {} := ⟨.nil, rfl, rfl, fun id hid => by simp [addedIds] at hid⟩

theorem length_addedIds_le (msgs : List WireMessage) : (addedIds msgs).length ≤ msgs.length := by
  rw [addedIds, List.length_map]
  exact List.length_filter_le ..

theorem Sent.next (h : Sent sent s) (mix : ActionMix) (r : Round) (horderly : Orderly 500 sent)
    (hlt : sent.length + 2 < 2 ^ 64) :
    MaySend 500 sent (s.message mix r) ∧ Sent (sent ++ [s.message mix r]) (s.next mix r) := by
  have hle := length_addedIds_le sent
  have hgen : Generated sent s.nextOrderId (r.generate mix s.activeOrders s.nextOrderId s.seqNo) :=
    h.keeps.generated (fun id hid => horderly.withdrawn_added hid)
      (fun hin => absurd (h.ids _ hin) (UInt64.lt_irrefl _)) h.seqNo
  have hseq := h.seqNo
  have hnext := h.nextOrderId
  refine ⟨hgen.maySend, hgen.keeps, ?_, ?_, fun id hid => ?_⟩
  · show (s.seqNo + 1).toNat = _
    rw [RingIndex.toNat_succ (by omega), List.length_append, hseq]
    rfl
  · show (if (s.message mix r).msgType = 'A'.toUInt8 then s.nextOrderId + 1 else s.nextOrderId).toNat = _
    rw [addedIds_append, List.length_append]
    by_cases hA : (s.message mix r).msgType = 'A'.toUInt8
    · rw [if_pos hA, RingIndex.toNat_succ (by omega), hnext]
      simp [addedIds, hA]
    · rw [if_neg hA, hnext]
      simp [addedIds, hA]
  · show id < if (s.message mix r).msgType = 'A'.toUInt8 then s.nextOrderId + 1 else s.nextOrderId
    by_cases hA : (s.message mix r).msgType = 'A'.toUInt8
    · have hlast : (s.message mix r).orderId = s.nextOrderId := hgen.orderId hA
      rw [if_pos hA, UInt64.lt_iff_toNat_lt, RingIndex.toNat_succ (by omega)]
      rcases mem_addedIds_append.1 hid with hold | ⟨-, rfl⟩
      · have hlt' := UInt64.lt_iff_toNat_lt.1 (h.ids id hold)
        omega
      · rw [hlast]
        omega
    · rw [if_neg hA]
      rcases mem_addedIds_append.1 hid with hold | ⟨hadd, -⟩
      · exact h.ids id hold
      · exact absurd hadd hA

/-- What a publisher has sent is orderly, until its sequence numbers wrap. -/
theorem messages_orderly (mix : ActionMix) (rounds : List Round) (hlt : rounds.length + 1 < 2 ^ 64) :
    Orderly 500 (messages mix {} rounds) ∧ Sent (messages mix {} rounds) (rounds.foldl (Publisher.next mix) {}) := by
  induction rounds using List.reverseRecOn with
  | nil => exact ⟨orderly_nil 500, sent_start⟩
  | append_singleton rounds r ih =>
    rw [List.length_append, List.length_singleton] at hlt
    obtain ⟨horderly, hsent⟩ := ih (by omega)
    obtain ⟨hsend, hnext⟩ := hsent.next mix r horderly (by rw [length_messages]; omega)
    rw [messages_append_singleton, List.foldl_append]
    exact ⟨orderly_append_singleton.2 ⟨horderly, hsend⟩, hnext⟩

end Publisher

end FeedHandler
