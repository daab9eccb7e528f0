import FeedHandler.OrderBook.Capacity
import FeedHandler.OrderBook.Sequencing
import Mathlib.Algebra.Order.BigOperators.Group.List

/-!
# Orderly feeds

A feed is orderly when its messages are valid and numbered from one on, an Add comes with an id that was not used
before, and an X or E is about an order that was added and not withdrawn.  Nothing is asked of the fills: they may
take more than is left of an order, or come for an order that is filled already.

A book that is fed an orderly feed stays right as long as the table has room and the lots cannot add up to `2^31`
(`Orderly.along`).  That needs neither the numbers nor the order of the messages, so it holds for what is left of an
orderly feed when messages are lost and others overtake one another (`Steady`).
-/

namespace FeedHandler

namespace LimitOrderBook

variable {Depth : Nat} {TableCapacity : Pow2} {book book' : LimitOrderBook Depth TableCapacity} {msg m : WireMessage}
  {lot : ℕ} {sent msgs : List WireMessage}

/-- The ids that an X has withdrawn. -/
def withdrawnIds (msgs : List WireMessage) : List UInt64 :=
  (msgs.filter fun m => m.msgType = 'X'.toUInt8 ∧ m.cancel.quantity ≤ 0).map (·.orderId)

/-- What a feed may send after `sent`, in lots of at most `lot`. -/
structure MaySend (lot : ℕ) (sent : List WireMessage) (m : WireMessage) : Prop where
  valid : m.isValid = true
  seqNo : m.seqNo.toNat = sent.length + 1
  fresh : m.msgType = 'A'.toUInt8 → m.orderId ∉ addedIds sent ∧ m.add.quantity.toInt ≤ lot
  known : m.msgType ≠ 'A'.toUInt8 → m.orderId ∈ addedIds sent ∧ m.orderId ∉ withdrawnIds sent
  cancel : m.msgType = 'X'.toUInt8 → m.cancel.quantity.toInt ≤ lot

def Orderly (lot : ℕ) (msgs : List WireMessage) : Prop := ∀ pre m post, msgs = pre ++ m :: post → MaySend lot pre m

/-- What is left of this in any order: the messages are valid, no id is added twice, and the lots are at most `lot`. -/
structure Steady (lot : ℕ) (msgs : List WireMessage) : Prop where
  valid : ∀ m ∈ msgs, m.isValid = true
  fresh : (addedIds msgs).Nodup
  add : ∀ m ∈ msgs, m.msgType = 'A'.toUInt8 → m.add.quantity.toInt ≤ lot
  cancel : ∀ m ∈ msgs, m.msgType = 'X'.toUInt8 → m.cancel.quantity.toInt ≤ lot

theorem orderly_nil (lot : ℕ) : Orderly lot [] := fun pre m post he => by simp at he

theorem orderly_append_singleton : Orderly lot (msgs ++ [m]) ↔ Orderly lot msgs ∧ MaySend lot msgs m := by
  have hhistory : ∀ l : List WireMessage, l.foldl (fun sent m => sent ++ [m]) [] = l := fun l => by
    induction l using List.reverseRecOn with
    | nil => rfl
    | append_singleton l x ih => rw [List.foldl_append, ih]; rfl
  have hiff : ∀ l : List WireMessage,
      Orderly lot l ↔ Runs.Along (fun sent m => sent ++ [m]) (MaySend lot) [] l := fun l => by
    rw [Runs.along_iff_prefix]
    simp only [hhistory]
    rfl
  rw [hiff, hiff, Runs.along_append_singleton, hhistory]

theorem Orderly.of_append (h : Orderly lot msgs) {pre : List WireMessage} (post : List WireMessage)
    (he : msgs = pre ++ post) : Orderly lot pre :=
  fun p m q hp => h p m (q ++ post) (by rw [he, hp, List.append_assoc]; rfl)

@[simp] theorem addedIds_append (msgs more : List WireMessage) :
    addedIds (msgs ++ more) = addedIds msgs ++ addedIds more := by
  simp [addedIds]

theorem mem_withdrawnIds_append {id : UInt64} :
    id ∈ withdrawnIds (msgs ++ [m]) ↔
      id ∈ withdrawnIds msgs ∨ (m.msgType = 'X'.toUInt8 ∧ m.cancel.quantity ≤ 0) ∧ m.orderId = id := by
  simp only [withdrawnIds, List.filter_append, List.map_append, List.mem_append]
  refine or_congr_right ?_
  by_cases hm : m.msgType = 'X'.toUInt8 ∧ m.cancel.quantity ≤ 0
  · rw [List.filter_cons_of_pos (by simpa using hm)]
    simp [hm, eq_comm]
  · rw [List.filter_cons_of_neg (by simpa using hm)]
    simp [hm]

theorem mem_addedIds_append {id : UInt64} :
    id ∈ addedIds (msgs ++ [m]) ↔ id ∈ addedIds msgs ∨ m.msgType = 'A'.toUInt8 ∧ m.orderId = id := by
  rw [addedIds_append, List.mem_append]
  refine or_congr_right ?_
  by_cases hm : m.msgType = 'A'.toUInt8
  · simp [addedIds, hm, eq_comm]
  · simp [addedIds, hm]

/-- Only what was added is withdrawn. -/
theorem Orderly.withdrawn_added (h : Orderly lot msgs) {id : UInt64} (hid : id ∈ withdrawnIds msgs) :
    id ∈ addedIds msgs := by
  induction msgs using List.reverseRecOn with
  | nil => simp [withdrawnIds] at hid
  | append_singleton msgs m ih =>
    obtain ⟨hmsgs, hm⟩ := orderly_append_singleton.1 h
    rw [mem_addedIds_append]
    rcases mem_withdrawnIds_append.1 hid with hid | ⟨⟨hX, -⟩, rfl⟩
    · exact Or.inl (ih hmsgs hid)
    · have hA : m.msgType ≠ 'A'.toUInt8 := by rw [hX]; decide
      exact Or.inl (hm.known hA).1

/-! ### Steady feeds -/

theorem Steady.subperm {received : List WireMessage} (h : Steady lot msgs) (hsub : received.Subperm msgs) :
    Steady lot received where
  valid m hm := h.valid m (hsub.subset hm)
  fresh := by
    obtain ⟨l, hperm, hl⟩ := hsub
    have hids : (addedIds l).Sublist (addedIds msgs) := (hl.filter _).map _
    have hperm' : (addedIds l).Perm (addedIds received) := (hperm.filter _).map _
    exact hperm'.nodup_iff.1 (h.fresh.sublist hids)
  add m hm := h.add m (hsub.subset hm)
  cancel m hm := h.cancel m (hsub.subset hm)

theorem Orderly.steady (h : Orderly lot msgs) : Steady lot msgs := by
  have hat : ∀ m ∈ msgs, ∃ pre, MaySend lot pre m := fun m hm => by
    obtain ⟨pre, post, rfl⟩ := List.append_of_mem hm
    exact ⟨pre, h pre m post rfl⟩
  refine ⟨fun m hm => ?_, ?_, fun m hm hA => ?_, fun m hm hX => ?_⟩
  · obtain ⟨pre, hsend⟩ := hat m hm
    exact hsend.valid
  · clear hat
    induction msgs using List.reverseRecOn with
    | nil => exact List.nodup_nil
    | append_singleton msgs m ih =>
      obtain ⟨hmsgs, hm⟩ := orderly_append_singleton.1 h
      rw [addedIds_append, List.nodup_append']
      refine ⟨ih hmsgs, ?_, fun id hold hnew => ?_⟩
      · unfold addedIds
        exact ((List.nodup_singleton m).filter _).map_on fun x hx y hy _ => by
          rw [List.mem_singleton.1 (List.mem_filter.1 hx).1, List.mem_singleton.1 (List.mem_filter.1 hy).1]
      · by_cases hA : m.msgType = 'A'.toUInt8
        · simp only [addedIds, hA, List.filter_cons, decide_true, if_true, List.filter_nil, List.map_cons,
            List.map_nil, List.mem_singleton] at hnew
          exact (hm.fresh hA).1 (hnew ▸ hold)
        · simp [addedIds, hA] at hnew
  · obtain ⟨pre, hsend⟩ := hat m hm
    exact (hsend.fresh hA).2
  · obtain ⟨pre, hsend⟩ := hat m hm
    exact hsend.cancel hX

/-! ### The numbers are consecutive -/

theorem Orderly.seqNos (h : Orderly lot msgs) : msgs.map (·.seqNo) = (List.range' 1 msgs.length).map UInt64.ofNat := by
  induction msgs using List.reverseRecOn with
  | nil => rfl
  | append_singleton msgs m ih =>
    obtain ⟨hmsgs, hm⟩ := orderly_append_singleton.1 h
    have hseq : m.seqNo = UInt64.ofNat (1 + msgs.length) := by
      rw [Nat.add_comm, ← hm.seqNo, UInt64.ofNat_toNat]
    rw [List.map_append, ih hmsgs, List.length_append, List.length_singleton, List.range'_concat, List.map_append,
      Nat.one_mul, List.map_singleton, List.map_singleton, hseq]

/-- The book finds no gap in an orderly feed. -/
theorem Orderly.sequenceGapsDetected (h : Orderly lot msgs) (Depth : Nat) (TableCapacity : Pow2) :
    (run Depth TableCapacity msgs).sequenceGapsDetected = 0 :=
  foldl_sequenceGapsDetected (reset Depth TableCapacity) rfl h.seqNos

/-! ### Which orders are live -/

/-- What an orderly feed has made of the table: the live orders are some that were added and not withdrawn, and hold
at most a lot each. -/
structure Live (lot : ℕ) (sent : List WireMessage) (t : OrderTable TableCapacity) : Prop where
  added : ∀ id, t.liveOrder id ≠ none → id ∈ addedIds sent
  withdrawn : ∀ id ∈ withdrawnIds sent, t.liveOrder id = none
  lots : ∀ i, (t.table.get i).live = true → (t.table.get i).quantity.toInt ≤ lot

theorem liveOrder_congr {t t' : OrderTable TableCapacity} {id : UInt64} (h : t'.find id = t.find id) :
    t'.liveOrder id = t.liveOrder id := by
  rw [OrderTable.liveOrder, OrderTable.liveOrder, h]

theorem find_ne_none_of_live {t : OrderTable TableCapacity} {id : UInt64} (h : t.liveOrder id ≠ none) :
    t.find id ≠ none := by
  intro hnone
  rw [OrderTable.liveOrder, hnone] at h
  exact h rfl

/-- An X with nothing left leaves its order dead. -/
theorem liveOrder_withdrawn (hwf : book.orderTable.WellFormed) (hX : msg.msgType = 'X'.toUInt8)
    (hq : msg.cancel.quantity ≤ 0) : (book.processMessage msg).orderTable.liveOrder msg.orderId = none := by
  have hfind := (processMessage_writes hwf msg).find msg.orderId
  have hA : msg.msgType ≠ 'A'.toUInt8 := by rw [hX]; decide
  rw [if_pos rfl, written, if_neg hA, if_pos hX] at hfind
  cases hlive : book.orderTable.liveOrder msg.orderId with
  | none =>
    rw [hlive] at hfind
    rw [liveOrder_congr hfind, hlive]
  | some r =>
    rw [hlive] at hfind
    rw [OrderTable.liveOrder, hfind]
    simp [Option.filter, OrderRecord.reduce, hq]

private theorem lots_of_moves {i : Fin TableCapacity.val} {r : OrderRecord} {qtyDelta orderDelta : Int32}
    (hmoves : Moves book book' i r qtyDelta orderDelta)
    (h : ∀ j, (book.orderTable.table.get j).live = true → (book.orderTable.table.get j).quantity.toInt ≤ lot)
    (hr : r.live = true → r.quantity.toInt ≤ lot) (j : Fin TableCapacity.val)
    (hj : (book'.orderTable.table.get j).live = true) : (book'.orderTable.table.get j).quantity.toInt ≤ lot := by
  rw [hmoves.table, VectorSlots.get_set] at hj ⊢
  by_cases hij : i = j
  · rw [if_pos hij] at hj ⊢
    exact hr hj
  · rw [if_neg hij] at hj ⊢
    exact h j hj

/-- A fill leaves no more than a lot. -/
private theorem lots_step (hvalid : m.isValid = true) (hadd : m.msgType = 'A'.toUInt8 → m.add.quantity.toInt ≤ lot)
    (hcancel : m.msgType = 'X'.toUInt8 → m.cancel.quantity.toInt ≤ lot)
    (h : ∀ i, (book.orderTable.table.get i).live = true → (book.orderTable.table.get i).quantity.toInt ≤ lot) :
    ∀ i, ((book.processMessage m).orderTable.table.get i).live = true →
      ((book.processMessage m).orderTable.table.get i).quantity.toInt ≤ lot := by
  rcases processMessage_effect book m with ⟨-, -, -, hsame⟩ | ⟨-, -, hsame⟩ | ⟨-, -, hsame⟩ | ⟨hA, i, -, hmoves⟩ |
    ⟨hX, i, -, -, hmoves⟩ | ⟨hE, i, hf, hc, hmoves⟩
  · rw [hsame.orderTable]; exact h
  · rw [hsame.orderTable]; exact h
  · rw [hsame.orderTable]; exact h
  · exact lots_of_moves hmoves h fun _ => hadd hA
  · exact lots_of_moves hmoves h fun _ => hcancel hX
  · refine lots_of_moves hmoves h fun _ => ?_
    have hpos := (WireMessage.isValid_exec hvalid hE).1
    have hold := h i (live_of_found hf hc)
    have hpos' := (Int32.pos_iff_toInt _).1 hpos
    show ((book.orderTable.table.get i).newQty m.exec.execQuantity).toInt ≤ lot
    rcases OrderRecord.newQty_cases (r := book.orderTable.table.get i) hpos with ⟨-, hnew, -⟩ | ⟨-, hnew⟩
    · omega
    · rw [hnew]
      exact Int.natCast_nonneg lot

theorem Steady.lots (h : Steady lot msgs) (Depth : Nat) (TableCapacity : Pow2) :
    ∀ i, ((run Depth TableCapacity msgs).orderTable.table.get i).live = true →
      ((run Depth TableCapacity msgs).orderTable.table.get i).quantity.toInt ≤ lot := by
  induction msgs using List.reverseRecOn with
  | nil =>
    intro i hi
    rw [run, List.foldl_nil, get_reset] at hi
    cases hi
  | append_singleton msgs m ih =>
    have hlots := ih (h.subperm (List.sublist_append_left ..).subperm)
    have hm : m ∈ msgs ++ [m] := by simp
    rw [run_append_singleton]
    exact lots_step (h.valid m hm) (h.add m hm) (h.cancel m hm) hlots

/-- Only what was added is live. -/
theorem added_of_live {id : UInt64} (hid : (run Depth TableCapacity msgs).orderTable.liveOrder id ≠ none) :
    id ∈ addedIds msgs :=
  (run_stored Depth TableCapacity msgs).added id (find_ne_none_of_live hid)

theorem Orderly.live (h : Orderly lot msgs) (Depth : Nat) (TableCapacity : Pow2) :
    Live lot msgs (run Depth TableCapacity msgs).orderTable := by
  refine ⟨fun id hid => added_of_live hid, ?_, h.steady.lots Depth TableCapacity⟩
  induction msgs using List.reverseRecOn with
  | nil => exact fun id hid => by simp [withdrawnIds] at hid
  | append_singleton msgs m ih =>
    obtain ⟨hmsgs, hm⟩ := orderly_append_singleton.1 h
    have hwithdrawn := ih hmsgs
    have hwf := run_wellFormed Depth TableCapacity msgs
    intro id hid
    rw [run_append_singleton]
    rcases mem_withdrawnIds_append.1 hid with hold | ⟨⟨hX, hq⟩, rfl⟩
    · -- no later message is about a withdrawn order
      have hne : id ≠ m.orderId := by
        rintro rfl
        by_cases hA : m.msgType = 'A'.toUInt8
        · exact (hm.fresh hA).1 (hmsgs.withdrawn_added hold)
        · exact (hm.known hA).2 hold
      have hfind := (processMessage_writes hwf m).find id
      rw [if_neg hne] at hfind
      rw [liveOrder_congr hfind]
      exact hwithdrawn id hold
    · exact liveOrder_withdrawn hwf hX hq

/-! ### What becomes of the orders -/

/-- An E has filled the order: it was live before the message and not afterwards. -/
def Filled (Depth : Nat) (TableCapacity : Pow2) (msgs : List WireMessage) (id : UInt64) : Prop :=
  ∃ pre m post, msgs = pre ++ m :: post ∧ m.msgType = 'E'.toUInt8 ∧ m.orderId = id ∧
    (run Depth TableCapacity pre).orderTable.liveOrder id ≠ none ∧
    (run Depth TableCapacity (pre ++ [m])).orderTable.liveOrder id = none

/-- What has happened at some message stays so. -/
theorem exists_split_append {P : List WireMessage → WireMessage → Prop}
    (h : ∃ pre m post, msgs = pre ++ m :: post ∧ P pre m) (more : List WireMessage) :
    ∃ pre m post, msgs ++ more = pre ++ m :: post ∧ P pre m := by
  obtain ⟨pre, m, post, rfl, hrest⟩ := h
  exact ⟨pre, m, post ++ more, by simp, hrest⟩

theorem Filled.append {id : UInt64} (h : Filled Depth TableCapacity msgs id) (more : List WireMessage) :
    Filled Depth TableCapacity (msgs ++ more) id :=
  exists_split_append h more

/-- An Add for the order has found no room. -/
def Refused (Depth : Nat) (TableCapacity : Pow2) (msgs : List WireMessage) (id : UInt64) : Prop :=
  ∃ pre m post, msgs = pre ++ m :: post ∧ m.orderId = id ∧ ¬HasRoom (run Depth TableCapacity pre) m

theorem Refused.append {id : UInt64} (h : Refused Depth TableCapacity msgs id) (more : List WireMessage) :
    Refused Depth TableCapacity (msgs ++ more) id :=
  exists_split_append h more

theorem msgType_of_not_hasRoom (h : ¬HasRoom book m) : m.msgType = 'A'.toUInt8 := by
  by_contra hA
  exact h fun hadd => absurd hadd hA

theorem Refused.added {id : UInt64} (h : Refused Depth TableCapacity msgs id) : id ∈ addedIds msgs := by
  obtain ⟨pre, m, post, rfl, rfl, hroom⟩ := h
  rw [addedIds_append]
  exact List.mem_append_right _ (by simp [addedIds, msgType_of_not_hasRoom hroom])

/-- None is refused while there is a slot for every Add. -/
theorem not_refused (h : (addedIds msgs).length ≤ TableCapacity.val) (id : UInt64) :
    ¬Refused Depth TableCapacity msgs id := by
  rintro ⟨pre, m, post, he, -, hroom⟩
  have hHasRoom : Runs.Along processMessage HasRoom (reset Depth TableCapacity) msgs :=
    along_hasRoom Depth ((List.dedup_sublist _).length_le.trans h)
  exact hroom (Runs.along_iff_prefix.1 hHasRoom pre m post he)

/-- An Add that finds room makes its order live. -/
theorem liveOrder_added (hwf : book.orderTable.WellFormed) (hA : msg.msgType = 'A'.toUInt8)
    (hroom : HasRoom book msg) : (book.processMessage msg).orderTable.liveOrder msg.orderId ≠ none := by
  obtain ⟨res, hres⟩ := Option.isSome_iff_exists.1 (hroom hA)
  have hfind := (processMessage_writes hwf msg).find msg.orderId
  rw [if_pos rfl, written, if_pos hA, hres] at hfind
  rw [OrderTable.liveOrder, hfind]
  simp [Option.filter, OrderTable.record]

/-- An X that leaves something keeps its order live. -/
theorem liveOrder_modified (hwf : book.orderTable.WellFormed) (hX : msg.msgType = 'X'.toUInt8)
    (hq : ¬msg.cancel.quantity ≤ 0) (hlive : book.orderTable.liveOrder msg.orderId ≠ none) :
    (book.processMessage msg).orderTable.liveOrder msg.orderId ≠ none := by
  obtain ⟨r, hr⟩ := Option.ne_none_iff_exists'.1 hlive
  have hfind := (processMessage_writes hwf msg).find msg.orderId
  have hA : msg.msgType ≠ 'A'.toUInt8 := by rw [hX]; decide
  rw [if_pos rfl, written, if_neg hA, if_pos hX, hr] at hfind
  rw [OrderTable.liveOrder, hfind]
  simp [Option.filter, OrderRecord.reduce, hq]

/-- An order that was added and not withdrawn is live, unless it was refused or an E has filled it. -/
theorem Orderly.live_or_lost (h : Orderly lot msgs) {id : UInt64} (hadded : id ∈ addedIds msgs)
    (hkept : id ∉ withdrawnIds msgs) :
    (run Depth TableCapacity msgs).orderTable.liveOrder id ≠ none ∨
      Filled Depth TableCapacity msgs id ∨ Refused Depth TableCapacity msgs id := by
  induction msgs using List.reverseRecOn with
  | nil => simp [addedIds] at hadded
  | append_singleton msgs m ih =>
    obtain ⟨hmsgs, hm⟩ := orderly_append_singleton.1 h
    have hwf := run_wellFormed Depth TableCapacity msgs
    have hkept' : id ∉ withdrawnIds msgs := fun hw => hkept (mem_withdrawnIds_append.2 (Or.inl hw))
    rw [run_append_singleton]
    rcases mem_addedIds_append.1 hadded with hold | ⟨hA, rfl⟩
    · rcases ih hmsgs hold hkept' with hlive | hfilled | hrefused
      · by_cases hid : id = m.orderId
        · subst hid
          have hA : m.msgType ≠ 'A'.toUInt8 := fun hA => (hm.fresh hA).1 hold
          by_cases hX : m.msgType = 'X'.toUInt8
          · exact Or.inl (liveOrder_modified hwf hX
              (fun hq => hkept (mem_withdrawnIds_append.2 (Or.inr ⟨⟨hX, hq⟩, rfl⟩))) hlive)
          · have hE := ((WireMessage.isValid_type hm.valid).resolve_left hA).resolve_left hX
            by_cases hdead : ((run Depth TableCapacity msgs).processMessage m).orderTable.liveOrder m.orderId = none
            · rw [← run_append_singleton] at hdead
              exact Or.inr (Or.inl ⟨msgs, m, [], rfl, hE, rfl, hlive, hdead⟩)
            · exact Or.inl hdead
        · have hfind := (processMessage_writes hwf m).find id
          rw [if_neg hid] at hfind
          rw [liveOrder_congr hfind]
          exact Or.inl hlive
      · exact Or.inr (Or.inl (hfilled.append [m]))
      · exact Or.inr (Or.inr (hrefused.append [m]))
    · by_cases hroom : HasRoom (run Depth TableCapacity msgs) m
      · exact Or.inl (liveOrder_added hwf hA hroom)
      · exact Or.inr (Or.inr ⟨msgs, m, [], rfl, rfl, hroom⟩)

/-- The live orders are those added and not withdrawn, but for the filled and the refused ones. -/
theorem Orderly.kept_iff (h : Orderly lot msgs) (id : UInt64) :
    id ∈ addedIds msgs ∧ id ∉ withdrawnIds msgs ↔
      (run Depth TableCapacity msgs).orderTable.liveOrder id ≠ none ∨
        (Filled Depth TableCapacity msgs id ∨ Refused Depth TableCapacity msgs id) ∧ id ∉ withdrawnIds msgs := by
  constructor
  · rintro ⟨hadded, hkept⟩
    exact (h.live_or_lost hadded hkept).imp_right fun hlost => ⟨hlost, hkept⟩
  · rintro (hlive | ⟨⟨pre, m, post, rfl, -, -, hlive, -⟩ | hrefused, hkept⟩)
    · have horders := h.live Depth TableCapacity
      exact ⟨horders.added id hlive, fun hw => hlive (horders.withdrawn id hw)⟩
    · have hold := ((h.of_append (m :: post) rfl).live Depth TableCapacity).added id hlive
      rw [addedIds_append]
      exact ⟨List.mem_append_left _ hold, hkept⟩
    · exact ⟨hrefused.added, hkept⟩

/-! ### Steady feeds are admissible -/

/-- The total at a price is at most a lot for each stored order. -/
theorem total_le_storedCount {t : OrderTable TableCapacity}
    (h : ∀ i, (t.table.get i).live = true → (t.table.get i).quantity.toInt ≤ lot) (s : Side) (p : Int32) :
    t.total s p ≤ lot * t.storedCount := by
  have hcount : (t.ordersAt s p).length ≤ t.storedCount := by
    unfold OrderTable.ordersAt OrderTable.storedCount
    rw [← List.countP_eq_length_filter]
    refine List.countP_mono_left fun r _ hr => ?_
    have hlive := (OrderRecord.restsAt_iff.1 hr).1
    simp only [OrderRecord.live, Bool.and_eq_true] at hlive
    exact hlive.1
  have hsum : t.total s p ≤ (t.ordersAt s p).length • (lot : ℤ) := by
    have hle : ∀ q ∈ (t.ordersAt s p).map (·.quantity.toInt), q ≤ (lot : ℤ) := by
      intro q hq
      obtain ⟨r, hr, rfl⟩ := List.mem_map.1 hq
      obtain ⟨⟨i, rfl⟩, hlive, -⟩ := OrderTable.mem_ordersAt.1 hr
      exact h i hlive
    have hmul := List.sum_le_card_nsmul _ _ hle
    rwa [List.length_map] at hmul
  calc t.total s p ≤ (t.ordersAt s p).length • (lot : ℤ) := hsum
    _ = lot * (t.ordersAt s p).length := by rw [nsmul_eq_mul, mul_comm]
    _ ≤ lot * t.storedCount := Int.mul_le_mul_of_nonneg_left (by exact_mod_cast hcount) (Int.natCast_nonneg lot)

theorem storedCount_le_added (Depth : Nat) (TableCapacity : Pow2) (msgs : List WireMessage) :
    (run Depth TableCapacity msgs).orderTable.storedCount ≤ (addedIds msgs).length := by
  rw [(run_stored Depth TableCapacity msgs).count]
  exact (min_le_left ..).trans (List.toFinset_card_le _)

/-- Every message of a steady feed is admissible and finds room, if all the ids that are added have room and all the
lots together stay below `2^31`. -/
theorem Steady.along (h : Steady lot msgs) (hroom : (addedIds msgs).length ≤ TableCapacity.val)
    (hlots : lot * (addedIds msgs).length < 2 ^ 31) :
    Runs.Along processMessage (fun book m => Admissible book m ∧ HasRoom book m) (reset Depth TableCapacity) msgs := by
  have hHasRoom : Runs.Along processMessage HasRoom (reset Depth TableCapacity) msgs :=
    along_hasRoom Depth ((List.dedup_sublist _).length_le.trans hroom)
  refine Runs.along_iff_prefix.2 fun pre m post he => ⟨?_, Runs.along_iff_prefix.1 hHasRoom pre m post he⟩
  have hparts : msgs = (pre ++ [m]) ++ post := by rw [he, List.append_assoc]; rfl
  have hpre : Steady lot (pre ++ [m]) := by
    refine h.subperm (List.Sublist.subperm ?_)
    rw [hparts]
    exact List.sublist_append_left ..
  refine ⟨hpre.valid m (by simp), fun hA => ?_, fun s p => ?_⟩
  · -- the id was added before, and is added again
    by_contra hne
    have hfresh := hpre.fresh
    rw [addedIds_append, List.nodup_append'] at hfresh
    exact hfresh.2.2 (added_of_live hne) (by simp [addedIds, hA])
  · have hadded : (addedIds (pre ++ [m])).length ≤ (addedIds msgs).length := by
      rw [hparts, addedIds_append _ post, List.length_append]
      exact Nat.le_add_right ..
    have hstored := storedCount_le_added Depth TableCapacity (pre ++ [m])
    have htotal := total_le_storedCount (hpre.lots Depth TableCapacity) s p
    have hle : lot * (run Depth TableCapacity (pre ++ [m])).orderTable.storedCount ≤ lot * (addedIds msgs).length :=
      Nat.mul_le_mul_left lot (hstored.trans hadded)
    rw [run_append_singleton] at htotal hle
    show ((run Depth TableCapacity pre).processMessage m).orderTable.total s p < 2 ^ 31
    calc _ ≤ _ := htotal
      _ ≤ ((lot * (addedIds msgs).length : ℕ) : ℤ) := by exact_mod_cast hle
      _ < 2 ^ 31 := by exact_mod_cast hlots

theorem Orderly.along (h : Orderly lot msgs) (hroom : (addedIds msgs).length ≤ TableCapacity.val)
    (hlots : lot * (addedIds msgs).length < 2 ^ 31) :
    Runs.Along processMessage (fun book m => Admissible book m ∧ HasRoom book m) (reset Depth TableCapacity) msgs :=
  h.steady.along hroom hlots

end LimitOrderBook

end FeedHandler
