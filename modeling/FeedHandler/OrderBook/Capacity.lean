import FeedHandler.OrderBook.Records
import Mathlib.Data.Finset.Card
import Mathlib.Data.Finset.Dedup

/-!
# Room in the table over a run

Cancelled and filled orders keep their slots until `reset`, so that probe chains stay whole.  An id that was never
added before finds room exactly when fewer than `TableCapacity` distinct ids were added so far, live or dead
(`add_new_id`); from then on its record follows the messages for the id (`OrderRecord.follow`), and an Add that finds
no room changes nothing.
-/

namespace FeedHandler

/-- The record of an id after a message, once the id is stored. -/
def OrderRecord.follow (r : OrderRecord) (msg : WireMessage) : OrderRecord :=
  if msg.orderId ≠ r.orderId then
    r
  else if msg.msgType = 'A'.toUInt8 then
    OrderTable.record msg.orderId msg.add.side msg.add.price msg.add.quantity msg.timestampNs
  else if r.cancelled then
    r
  else if msg.msgType = 'X'.toUInt8 then
    r.reduce msg.cancel.quantity (msg.cancel.quantity ≤ 0)
  else if msg.msgType = 'E'.toUInt8 then
    r.reduce (r.newQty msg.exec.execQuantity) (r.newQty msg.exec.execQuantity = 0)
  else
    r

namespace LimitOrderBook

variable {Depth : Nat} {TableCapacity : Pow2} {book : LimitOrderBook Depth TableCapacity} {msg : WireMessage}
  {orderId : UInt64} {r : OrderRecord}

/-- The ids of the Adds in a sequence of messages. -/
def addedIds (msgs : List WireMessage) : List UInt64 :=
  (msgs.filter fun m => m.msgType = 'A'.toUInt8).map (·.orderId)

/-- The number of live orders in the table. -/
def liveCount (t : OrderTable TableCapacity) : Nat := t.table.toList.countP (·.live)

/-! ### Stored ids follow their messages -/

private theorem liveOrder_of_find {t : OrderTable TableCapacity} (hf : t.find orderId = some r) :
    t.liveOrder orderId = if r.cancelled then none else some r := by
  rw [OrderTable.liveOrder, hf]
  cases hc : r.cancelled <;> simp [Option.filter, hc]

theorem find_follow (h : book.orderTable.WellFormed) (hf : book.orderTable.find orderId = some r) (msg : WireMessage) :
    (book.processMessage msg).orderTable.find orderId = some (r.follow msg) := by
  obtain ⟨-, -, -, hid⟩ := h.find_iff.1 hf
  have hw := processMessage_writes h msg
  rw [hw.find]
  unfold OrderRecord.follow
  by_cases hm : orderId = msg.orderId
  · rw [if_pos hm, if_neg (by rw [hid, hm]; simp), hf]
    rw [hm] at hf
    have hlive := liveOrder_of_find hf
    unfold written
    by_cases hA : msg.msgType = 'A'.toUInt8
    · have hi : (book.orderTable.insert msg.orderId msg.add.side msg.add.price msg.add.quantity
          msg.timestampNs) ≠ none := by
        rw [Ne, h.insert_none, hf]
        simp
      obtain ⟨res, hres⟩ := Option.ne_none_iff_exists'.1 hi
      simp [hA, hres]
    · by_cases hX : msg.msgType = 'X'.toUInt8
      · cases hc : r.cancelled <;> simp [hX, hlive, hc]
      · by_cases hE : msg.msgType = 'E'.toUInt8
        · cases hc : r.cancelled <;> simp [hE, hlive, hc]
        · simp [hA, hX, hE]
  · rw [if_neg hm, if_pos (by rw [hid]; exact Ne.symm hm), hf]

/-- The record of a stored id after any further messages. -/
theorem find_follow_run (h : book.orderTable.WellFormed) (hf : book.orderTable.find orderId = some r)
    (more : List WireMessage) :
    (more.foldl processMessage book).orderTable.find orderId = some (more.foldl OrderRecord.follow r) := by
  induction more generalizing book r with
  | nil => exact hf
  | cons m more ih => exact ih (processMessage_writes h m).wellFormed (find_follow h hf m)

/-! ### The ids stored after a run -/

theorem run_append (msgs more : List WireMessage) :
    run Depth TableCapacity (msgs ++ more) = more.foldl processMessage (run Depth TableCapacity msgs) :=
  List.foldl_append

private theorem written_isSome_add (hA : msg.msgType = 'A'.toUInt8) (h : book.orderTable.WellFormed) :
    (written book.orderTable msg).isSome = true ↔
      ¬(book.orderTable.find msg.orderId = none ∧ book.orderTable.storedCount = TableCapacity.val) := by
  rw [written, if_pos hA, Option.isSome_map, Option.isSome_iff_ne_none, Ne, h.insert_none]

private theorem written_add (hA : msg.msgType = 'A'.toUInt8) (hw : (written book.orderTable msg).isSome = true) :
    written book.orderTable msg =
      some (OrderTable.record msg.orderId msg.add.side msg.add.price msg.add.quantity msg.timestampNs) := by
  rw [written, if_pos hA] at hw ⊢
  rw [Option.isSome_map, Option.isSome_iff_exists] at hw
  obtain ⟨res, hres⟩ := hw
  rw [hres]
  rfl

/-- A saturated table refuses an Add without a trace. -/
private theorem same_of_saturated (hA : msg.msgType = 'A'.toUInt8)
    (hi : book.orderTable.insert msg.orderId msg.add.side msg.add.price msg.add.quantity msg.timestampNs = none) :
    Same book (book.processMessage msg) := by
  rcases processMessage_add book hA with ⟨-, hsame⟩ | ⟨i, hs, -⟩
  · exact hsame
  · rw [OrderTable.insert_eq, hs] at hi
    cases hi

theorem find_ne_none_of_written (hA : msg.msgType ≠ 'A'.toUInt8)
    (hw : (written book.orderTable msg).isSome = true) : book.orderTable.find msg.orderId ≠ none := by
  intro hf
  have hlive : book.orderTable.liveOrder msg.orderId = none := by
    rw [OrderTable.liveOrder, hf]
    rfl
  simp [written, hA, hlive] at hw

/-- Where no new id is written, the ids stored stay the same. -/
theorem Writes.kept {t t' : OrderTable TableCapacity} (hw : Writes t msg t')
    (hold : (written t msg).isSome = true → t.find msg.orderId ≠ none) :
    t'.storedCount = t.storedCount ∧ ∀ id, t'.find id = none ↔ t.find id = none := by
  constructor
  · rw [hw.storedCount, if_neg fun hc => hold hc.1 hc.2, Nat.add_zero]
  · intro id
    rw [hw.find]
    split
    · rename_i hid
      subst hid
      cases hwr : written t msg with
      | none => simp
      | some r => simpa using hold (by rw [hwr]; rfl)
    · rfl

/-- What is stored after a run: ids that were added, and all of them unless they are too many. -/
structure Stored (t : OrderTable TableCapacity) (ids : List UInt64) : Prop where
  added : ∀ id, t.find id ≠ none → id ∈ ids
  room : ∀ id ∈ ids, t.find id = none → TableCapacity.val < ids.toFinset.card
  count : t.storedCount = min ids.toFinset.card TableCapacity.val

private theorem stored_reset (Depth : Nat) (TableCapacity : Pow2) :
    Stored (reset Depth TableCapacity).orderTable [] := by
  refine ⟨fun id h => absurd (OrderTable.find_clear TableCapacity id) h, fun id h => by simp at h, ?_⟩
  show (OrderTable.clear TableCapacity).storedCount = _
  rw [OrderTable.storedCount_clear]
  simp

/-- A message that is no Add keeps what is stored. -/
private theorem Stored.other {ids : List UInt64} (hs : Stored book.orderTable ids) (h : book.orderTable.WellFormed)
    (hA : msg.msgType ≠ 'A'.toUInt8) : Stored (book.processMessage msg).orderTable ids := by
  obtain ⟨hcount, hfind⟩ := (processMessage_writes h msg).kept (find_ne_none_of_written hA)
  refine ⟨fun id hid => hs.added id ?_, fun id hid hnone => ?_, ?_⟩
  · rwa [Ne, ← hfind]
  · exact hs.room id hid ((hfind id).1 hnone)
  · rw [hcount]
    exact hs.count

/-- The ids added so far with one more. -/
private theorem toFinset_concat (ids : List UInt64) (id : UInt64) :
    (ids ++ [id]).toFinset = insert id ids.toFinset := by
  ext x
  simp

/-- An Add that finds no room. -/
private theorem Stored.refused {ids : List UInt64} (hs : Stored book.orderTable ids) (h : book.orderTable.WellFormed)
    (hA : msg.msgType = 'A'.toUInt8) (hnew : book.orderTable.find msg.orderId = none)
    (hfull : book.orderTable.storedCount = TableCapacity.val) :
    Stored (book.processMessage msg).orderTable (ids ++ [msg.orderId]) := by
  have hcount := hs.count
  have hcard := Finset.card_le_card (Finset.subset_insert msg.orderId ids.toFinset)
  have hmore : TableCapacity.val < (insert msg.orderId ids.toFinset).card := by
    by_cases hin : msg.orderId ∈ ids
    · have := hs.room _ hin hnew
      omega
    · rw [Finset.card_insert_of_notMem (by simpa using hin)]
      omega
  rw [(same_of_saturated hA (h.insert_none.2 ⟨hnew, hfull⟩)).orderTable]
  refine ⟨fun id hid => List.mem_append_left _ (hs.added id hid), fun _ _ _ => ?_, ?_⟩
  · rw [toFinset_concat]
    exact hmore
  · rw [toFinset_concat]
    omega

/-- An Add with a new id that finds room. -/
private theorem Stored.fresh {ids : List UInt64} (hs : Stored book.orderTable ids) (h : book.orderTable.WellFormed)
    (hA : msg.msgType = 'A'.toUInt8) (hnew : book.orderTable.find msg.orderId = none)
    (hroom : book.orderTable.storedCount ≠ TableCapacity.val) :
    Stored (book.processMessage msg).orderTable (ids ++ [msg.orderId]) := by
  have hw := processMessage_writes h msg
  have hsome : (written book.orderTable msg).isSome = true := (written_isSome_add hA h).2 fun hc => hroom hc.2
  have hcount := hs.count
  have hnotin : msg.orderId ∉ ids := fun hin => by
    have := hs.room _ hin hnew
    omega
  have hle := (book.processMessage msg).orderTable.storedCount_le
  have hstored : (book.processMessage msg).orderTable.storedCount = book.orderTable.storedCount + 1 := by
    rw [hw.storedCount, if_pos ⟨hsome, hnew⟩]
  have hcard : (insert msg.orderId ids.toFinset).card = ids.toFinset.card + 1 :=
    Finset.card_insert_of_notMem (by simpa using hnotin)
  have hfind : ∀ id, id ≠ msg.orderId →
      (book.processMessage msg).orderTable.find id = book.orderTable.find id := fun id hid => by
    rw [hw.find, if_neg hid]
  refine ⟨fun id hid => ?_, fun id hid hnone => ?_, ?_⟩
  · by_cases heq : id = msg.orderId
    · simp [heq]
    · rw [hfind id heq] at hid
      exact List.mem_append_left _ (hs.added id hid)
  · by_cases heq : id = msg.orderId
    · rw [hw.find, if_pos heq] at hnone
      obtain ⟨r, hr⟩ := Option.isSome_iff_exists.1 hsome
      simp [hr] at hnone
    · rw [hfind id heq] at hnone
      have hin : id ∈ ids := by simpa [heq] using hid
      have := hs.room id hin hnone
      omega
  · rw [toFinset_concat, hcard, hstored]
    omega

/-- An Add with an id that is stored already. -/
private theorem Stored.again {ids : List UInt64} (hs : Stored book.orderTable ids) (h : book.orderTable.WellFormed)
    (hold : book.orderTable.find msg.orderId ≠ none) :
    Stored (book.processMessage msg).orderTable (ids ++ [msg.orderId]) := by
  obtain ⟨hcount, hfind⟩ := (processMessage_writes h msg).kept fun _ => hold
  have hin := hs.added _ hold
  have hset : (ids ++ [msg.orderId]).toFinset = ids.toFinset := by
    rw [toFinset_concat, Finset.insert_eq_of_mem (by simpa using hin)]
  refine ⟨fun id hid => ?_, fun id hid hnone => ?_, ?_⟩
  · rw [Ne, hfind] at hid
    exact List.mem_append_left _ (hs.added id hid)
  · have hmem : id ∈ ids := by
      rcases List.mem_append.1 hid with hid | hid
      · exact hid
      · obtain rfl : id = msg.orderId := by simpa using hid
        exact hin
    rw [hset]
    exact hs.room id hmem ((hfind id).1 hnone)
  · rw [hset, hcount]
    exact hs.count

/-- After any run the table stores the ids added so far, as far as there is room. -/
theorem run_stored (Depth : Nat) (TableCapacity : Pow2) (msgs : List WireMessage) :
    Stored (run Depth TableCapacity msgs).orderTable (addedIds msgs) := by
  induction msgs using List.reverseRecOn with
  | nil => exact stored_reset Depth TableCapacity
  | append_singleton msgs m ih =>
    have hwf := run_wellFormed Depth TableCapacity msgs
    rw [run_append]
    by_cases hA : m.msgType = 'A'.toUInt8
    · have hids : addedIds (msgs ++ [m]) = addedIds msgs ++ [m.orderId] := by simp [addedIds, hA]
      rw [hids]
      by_cases hnew : (run Depth TableCapacity msgs).orderTable.find m.orderId = none
      · by_cases hfull : (run Depth TableCapacity msgs).orderTable.storedCount = TableCapacity.val
        · exact ih.refused hwf hA hnew hfull
        · exact ih.fresh hwf hA hnew hfull
      · exact ih.again hwf hnew
    · have hids : addedIds (msgs ++ [m]) = addedIds msgs := by simp [addedIds, hA]
      rw [hids]
      exact ih.other hwf hA

/-- A run that adds at most `TableCapacity` distinct ids never finds the table exhausted. -/
theorem along_hasRoom (Depth : Nat) {TableCapacity : Pow2} {msgs : List WireMessage}
    (h : (addedIds msgs).dedup.length ≤ TableCapacity.val) :
    Runs.Along processMessage HasRoom (reset Depth TableCapacity) msgs := by
  refine Runs.along_iff_prefix.2 fun pre msg post he hA => ?_
  have hs := run_stored Depth TableCapacity pre
  have hsub : insert msg.orderId (addedIds pre).toFinset ⊆ (addedIds msgs).toFinset := by
    intro id hid
    rw [he]
    simp only [addedIds, List.filter_append, List.map_append, List.filter_cons, hA, decide_true, if_true,
      List.map_cons, List.toFinset_append, List.toFinset_cons, Finset.mem_union, Finset.mem_insert] at hid ⊢
    tauto
  have hle := Finset.card_le_card hsub
  rw [List.card_toFinset (addedIds msgs)] at hle
  have hcard := Finset.card_le_card (Finset.subset_insert msg.orderId (addedIds pre).toFinset)
  show (((run Depth TableCapacity pre).orderTable.insert _ _ _ _ _).isSome = true)
  rw [Option.isSome_iff_ne_none, Ne, (run_wellFormed Depth TableCapacity pre).insert_none]
  rintro ⟨hnone, hfull⟩
  have hcount := hs.count
  by_cases hin : msg.orderId ∈ addedIds pre
  · have := hs.room _ hin hnone
    omega
  · rw [Finset.card_insert_of_notMem (by simpa using hin)] at hle
    omega

/-- An Add with an id that was not added before is recorded when fewer than `TableCapacity` distinct ids were added so
far, and its record then follows the later messages for the id; otherwise the book stays as it is. -/
theorem add_new_id (Depth : Nat) (TableCapacity : Pow2) (msgs : List WireMessage) (msg : WireMessage)
    (hA : msg.msgType = 'A'.toUInt8) (hnew : msg.orderId ∉ addedIds msgs) :
    ((addedIds msgs).dedup.length < TableCapacity.val → ∀ more,
      (run Depth TableCapacity (msgs ++ msg :: more)).orderTable.find msg.orderId =
        some (more.foldl OrderRecord.follow
          (OrderTable.record msg.orderId msg.add.side msg.add.price msg.add.quantity msg.timestampNs))) ∧
    (TableCapacity.val ≤ (addedIds msgs).dedup.length →
      Same (run Depth TableCapacity msgs) (run Depth TableCapacity (msgs ++ [msg]))) := by
  have hs := run_stored Depth TableCapacity msgs
  have hwf := run_wellFormed Depth TableCapacity msgs
  have hnone : (run Depth TableCapacity msgs).orderTable.find msg.orderId = none := by
    by_contra hne
    exact hnew (hs.added _ hne)
  have hcount := hs.count
  rw [List.card_toFinset] at hcount
  refine ⟨fun hroom more => ?_, fun hfull => ?_⟩
  · rw [run_append, List.foldl_cons]
    refine find_follow_run (processMessage_writes hwf msg).wellFormed ?_ more
    have hsome := (written_isSome_add hA hwf).2 fun hc => by omega
    rw [(processMessage_writes hwf msg).find, if_pos rfl, written_add hA hsome]
    rfl
  · rw [run_append]
    exact same_of_saturated hA (hwf.insert_none.2 ⟨hnone, by omega⟩)

/-- In a table with one slot the first id is added, cut to 3 lots and filled. -/
theorem add_new_id_first :
    (run 1 ⟨1, by decide, by decide⟩
      ([] ++ .ofAdd ⟨'A'.toUInt8, 1, 0, 7, 'B'.toUInt8, 100, 5⟩ ::
        [.ofCancel ⟨'X'.toUInt8, 2, 0, 7, 3⟩, .ofExec ⟨'E'.toUInt8, 3, 0, 7, 3, 100⟩])).orderTable.find 7 =
      some ⟨7, 'B'.toUInt8, true, true, 100, 0, 0⟩ :=
  ((add_new_id 1 ⟨1, by decide, by decide⟩ [] (.ofAdd ⟨'A'.toUInt8, 1, 0, 7, 'B'.toUInt8, 100, 5⟩) (by decide)
    (by decide)).1 (by decide) _).trans (by decide)

/-- With one slot the cancelled order keeps it: the next id is refused though nothing is live. -/
theorem add_new_id_refused :
    ¬ ∀ (Depth : Nat) (TableCapacity : Pow2) (msgs : List WireMessage) (msg : WireMessage), 0 < Depth →
      (∀ m ∈ msgs, m.isValid = true) → msg.isValid = true → msg.msgType = 'A'.toUInt8 →
        msg.orderId ∉ addedIds msgs → liveCount (run Depth TableCapacity msgs).orderTable < TableCapacity.val →
          ((run Depth TableCapacity (msgs ++ [msg])).orderTable.liveOrder msg.orderId).isSome = true := by
  intro h
  have haccepted := h 1 ⟨1, by decide, by decide⟩
    [.ofAdd ⟨'A'.toUInt8, 1, 0, 1, 'B'.toUInt8, 100, 5⟩, .ofCancel ⟨'X'.toUInt8, 2, 0, 1, 0⟩]
    (.ofAdd ⟨'A'.toUInt8, 3, 0, 2, 'B'.toUInt8, 100, 5⟩) (by decide) (by decide) (by decide) (by decide) (by decide)
    (by decide)
  exact absurd haccepted (by decide)

end LimitOrderBook

end FeedHandler
