import FeedHandler.Foundation.RingIndex
import FeedHandler.Foundation.Runs
import FeedHandler.Foundation.Totals
import FeedHandler.OrderTable.Probe

/-!
# The order table is a finite map

The reference is a finite map from order ids to records.  Every sequence of `insert`, `erase` and `clear` calls
leaves the table in a state that represents the reference after the same calls: each id is bound to the record
last written under it, `size` counts the records that are not cancelled and `occupiedSlots` all of them.  The
capacity shows in the reference only as a bound on the number of ids.
-/

namespace FeedHandler

/-- One call of the table's interface. -/
inductive TableOp where
  | insert (orderId : UInt64) (side : UInt8) (price quantity : Int32) (ts : UInt64)
  | erase (orderId : UInt64)
  | clear
deriving DecidableEq, Repr

/-- The reference: the record last written under each id. -/
abbrev RecordMap := AList fun _ : UInt64 => OrderRecord

namespace OrderTable

variable {Capacity : Pow2}

def exec (t : OrderTable Capacity) : TableOp → OrderTable Capacity
  | .insert orderId side price quantity ts =>
    match t.insert orderId side price quantity ts with
    | some (_, t') => t'
    | none => t
  | .erase orderId => (t.erase orderId).2
  | .clear => clear Capacity

end OrderTable

namespace RecordMap

/-- The number of records that are not cancelled. -/
def live (m : RecordMap) : Nat := m.entries.countP fun e => !e.2.cancelled

def exec (Capacity : Pow2) (m : RecordMap) : TableOp → RecordMap
  | .insert orderId side price quantity ts =>
    if (m.lookup orderId).isSome ∨ m.entries.length < Capacity.val then
      m.insert orderId (OrderTable.record orderId side price quantity ts)
    else
      m
  | .erase orderId =>
    match m.lookup orderId with
    | some r => m.insert orderId { r with cancelled := true }
    | none => m
  | .clear => ∅

end RecordMap

namespace OrderTable

variable {Capacity : Pow2} {t : OrderTable Capacity} {m : RecordMap}

/-- The table `t` stores the finite map `m`. -/
structure Represents (t : OrderTable Capacity) (m : RecordMap) : Prop where
  wellFormed : t.WellFormed
  find : ∀ orderId, t.find orderId = m.lookup orderId
  stored : t.storedCount = m.entries.length
  occupied : t.occupiedCount.toNat = m.entries.length
  active : t.activeCount.toNat = m.live

theorem represents_clear (Capacity : Pow2) : (clear Capacity).Represents ∅ where
  wellFormed := wellFormed_clear Capacity
  find orderId := by
    rw [AList.lookup_empty, find_clear]
  stored := storedCount_clear Capacity
  occupied := rfl
  active := rfl

private theorem live_le (m : RecordMap) : m.live ≤ m.entries.length := List.countP_le_length

private theorem live_eq (m : RecordMap) : m.live = Totals.total (fun _ r => (!r.cancelled).toNat) m :=
  Totals.countP_entries (fun (_ : UInt64) (r : OrderRecord) => !r.cancelled) m

private theorem length_insert (m : RecordMap) (orderId : UInt64) (r : OrderRecord) :
    (m.insert orderId r).entries.length + (m.lookup orderId).elim 0 (fun _ => 1) = m.entries.length + 1 := by
  rw [Totals.length_entries, Totals.length_entries]
  exact Totals.total_insert (fun _ _ => 1) orderId r m

private theorem live_insert (m : RecordMap) (orderId : UInt64) (r : OrderRecord) :
    RecordMap.live (m.insert orderId r) + (m.lookup orderId).elim 0 (fun r => (!r.cancelled).toNat) =
      m.live + (!r.cancelled).toNat := by
  rw [live_eq, live_eq]
  exact Totals.total_insert (fun _ r => (!r.cancelled).toNat) orderId r m

namespace Represents

/-- The record of an id and the slot that holds it. -/
theorem slot_of_lookup (h : t.Represents m) {orderId : UInt64} {i : Fin Capacity.val}
    (hl : t.lookup orderId = some i) : m.lookup orderId = some (t.table.get i) := by
  rw [← h.find, OrderTable.find, hl]
  rfl

theorem lookup_none (h : t.Represents m) {orderId : UInt64} : t.lookup orderId = none ↔ m.lookup orderId = none := by
  rw [← h.find, OrderTable.find, Option.map_eq_none_iff]

/-- Overwriting the record of an id in its slot is overwriting it in the map, when `activeCount` follows the
`cancelled` flags. -/
theorem overwrite (h : t.Represents m) {t' : OrderTable Capacity} {i : Fin Capacity.val} {r : OrderRecord}
    (ht : t'.table = t.table.setIfInBounds i r) (hr : r.occupied = true) (hl : t.lookup r.orderId = some i)
    (hcount : t'.occupiedCount = t.occupiedCount)
    (hact : t'.activeCount.toNat + (!(t.table.get i).cancelled).toNat =
      t.activeCount.toNat + (!r.cancelled).toNat) :
    t'.Represents (m.insert r.orderId r) := by
  obtain ⟨hocc, hid⟩ := lookup_some hl
  have hwf := h.wellFormed.replace ht hr hocc hid
  have hstored := storedCount_set ht hr
  have hlen := length_insert m r.orderId r
  have hlive := live_insert m r.orderId r
  simp only [hocc, if_true] at hstored
  simp only [h.slot_of_lookup hl, Option.elim_some] at hlen hlive
  have hst := h.stored
  have ha := h.active
  refine ⟨hwf, fun id => ?_, by omega, ?_, by omega⟩
  · rw [find_set h.wellFormed hwf ht hr (Or.inr hid), h.find]
    split
    · rename_i hid'
      rw [hid', AList.lookup_insert]
    · rename_i hid'
      rw [AList.lookup_insert_ne hid']
  · rw [hcount, h.occupied]
    omega

/-- Writing a new id into a free slot adds it to the map. -/
theorem add (h : t.Represents m) {i : Fin Capacity.val} {r : OrderRecord} (hr : r.occupied = true)
    (hc : r.cancelled = false) (hs : OpenAddressing.stop t.occ r.orderId (probeOrder Capacity r.orderId) = some i)
    (hfree : (t.table.get i).occupied = false) (hl : t.lookup r.orderId = none) :
    (t.insertAt i r).Represents (m.insert r.orderId r) := by
  have htab : (t.insertAt i r).table = t.table.setIfInBounds i r := rfl
  have hwf := h.wellFormed.set htab hr hs
  have hcap := (t.insertAt i r).storedCount_le
  have hstored := storedCount_set htab hr
  have hlen := length_insert m r.orderId r
  have hlive := live_insert m r.orderId r
  have hle := live_le (m.insert r.orderId r)
  simp only [hfree, Bool.false_eq_true, if_false] at hstored
  simp only [h.lookup_none.1 hl, Option.elim_none] at hlen hlive
  simp only [hc, Bool.not_false, Bool.toNat_true] at hlive
  have hsize := Capacity.size_t
  have hst := h.stored
  have hocc := h.occupied
  have hact := h.active
  -- the counters do not wrap: they stay at most `Capacity`, which is a `size_t`
  refine ⟨hwf, fun id => ?_, by omega, ?_, ?_⟩
  · rw [find_set h.wellFormed hwf htab hr (Or.inl hfree), h.find]
    split
    · rename_i hid
      rw [hid, AList.lookup_insert]
    · rename_i hid
      rw [AList.lookup_insert_ne hid]
  · have hnew : (t.insertAt i r).occupiedCount = t.occupiedCount + 1 := by simp [OrderTable.insertAt, hfree]
    rw [hnew, RingIndex.toNat_succ (by omega)]
    omega
  · have hnew : (t.insertAt i r).activeCount = t.activeCount + 1 := by simp [OrderTable.insertAt, hfree]
    rw [hnew, RingIndex.toNat_succ (by omega)]
    omega

/-- Writing a live record where the probe of its id stopped is an insertion into the map. -/
theorem insertAt (h : t.Represents m) {i : Fin Capacity.val} {r : OrderRecord} (hr : r.occupied = true)
    (hc : r.cancelled = false)
    (hs : OpenAddressing.stop t.occ r.orderId (probeOrder Capacity r.orderId) = some i) :
    (t.insertAt i r).Represents (m.insert r.orderId r) := by
  rcases lookup_of_stop hs with ⟨hfree, hl⟩ | ⟨hused, hl⟩
  · exact h.add hr hc hs hfree hl
  · refine h.overwrite rfl hr hl (by simp [OrderTable.insertAt, hused]) ?_
    cases hcan : (t.table.get i).cancelled with
    | true =>
      -- a tombstone: the record becomes live again
      have hnew : (t.insertAt i r).activeCount = t.activeCount + 1 := by simp [OrderTable.insertAt, hcan]
      have hlive := live_insert m r.orderId r
      have hlen := length_insert m r.orderId r
      have hle := live_le (m.insert r.orderId r)
      simp only [h.slot_of_lookup hl, Option.elim_some, hcan, hc, Bool.not_true, Bool.not_false, Bool.toNat_true,
        Bool.toNat_false] at hlive hlen
      have hst := h.stored
      have hact := h.active
      have hcap := t.storedCount_le
      have hsize := Capacity.size_t
      rw [hnew, RingIndex.toNat_succ (by omega), hc]
      rfl
    | false =>
      have hold : (t.insertAt i r).activeCount = t.activeCount := by simp [OrderTable.insertAt, hused, hcan]
      rw [hold, hc]

/-- Cancelling the record in its slot is overwriting it in the map. -/
theorem erase (h : t.Represents m) (orderId : UInt64) :
    (t.erase orderId).2.Represents (RecordMap.exec Capacity m (.erase orderId)) := by
  unfold OrderTable.erase RecordMap.exec
  cases hl : t.lookup orderId with
  | none =>
    simp only [h.lookup_none.1 hl]
    exact h
  | some i =>
    obtain ⟨hocc, rfl⟩ := lookup_some hl
    simp only [h.slot_of_lookup hl]
    cases hcan : (t.table.get i).cancelled with
    | true =>
      -- cancelled already: the record stays as it is
      have hsame : { t.table.get i with cancelled := true } = t.table.get i := by rw [← hcan]
      refine h.overwrite (r := { t.table.get i with cancelled := true }) (i := i) ?_ hocc hl rfl (by rw [hcan]; rfl)
      rw [hsame]
      exact (VectorSlots.set_get t.table i).symm
    | false =>
      refine h.overwrite (r := { t.table.get i with cancelled := true }) (i := i) rfl hocc hl rfl ?_
      have hlive := live_insert m (t.table.get i).orderId { t.table.get i with cancelled := true }
      simp only [h.slot_of_lookup hl, Option.elim_some, hcan, Bool.not_false, Bool.toNat_true, Bool.not_true,
        Bool.toNat_false] at hlive
      have hact := h.active
      have hzero : (0 : UInt64).toNat = 0 := rfl
      have hone : (1 : UInt64).toNat = 1 := rfl
      have hpos : t.activeCount > 0 := UInt64.lt_iff_toNat_lt.2 (by omega)
      have hle : (1 : UInt64) ≤ t.activeCount := UInt64.le_iff_toNat_le.2 (by omega)
      simp only [Bool.not_false, if_true, hpos, hcan, Bool.toNat_true, Bool.not_true, Bool.toNat_false]
      rw [UInt64.toNat_sub_of_le _ _ hle]
      omega

/-- The step of the simulation: each call keeps the table a representation of the reference. -/
theorem exec (h : t.Represents m) (op : TableOp) : (t.exec op).Represents (RecordMap.exec Capacity m op) := by
  cases op with
  | insert orderId side price quantity ts =>
    simp only [OrderTable.exec, RecordMap.exec]
    cases hi : t.insert orderId side price quantity ts with
    | some res =>
      obtain ⟨i, t'⟩ := res
      obtain ⟨hs, rfl⟩ := insert_eq_some.1 hi
      have hroom : (m.lookup orderId).isSome ∨ m.entries.length < Capacity.val := by
        by_contra hno
        rw [not_or] at hno
        have hle := t.storedCount_le
        have hst := h.stored
        have hnone : t.insert orderId side price quantity ts = none :=
          h.wellFormed.insert_none.2 ⟨by rw [h.find]; simpa using hno.1, by omega⟩
        rw [hi] at hnone
        cases hnone
      simp only [hroom, if_true]
      exact h.insertAt (r := record orderId side price quantity ts) rfl rfl hs
    | none =>
      obtain ⟨hf, hfull⟩ := h.wellFormed.insert_none.1 hi
      have hroom : ¬((m.lookup orderId).isSome ∨ m.entries.length < Capacity.val) := by
        have hst := h.stored
        rw [h.find] at hf
        rw [hf]
        simp
        omega
      simp only [hroom, if_false]
      exact h
  | erase orderId => exact h.erase orderId
  | clear => exact represents_clear Capacity

end Represents

/-- The table and the reference stay together over any sequence of calls on a fresh table. -/
theorem run_represents (Capacity : Pow2) (ops : List TableOp) :
    (ops.foldl exec (clear Capacity)).Represents (ops.foldl (RecordMap.exec Capacity) ∅) := by
  have hstep : ∀ (t : OrderTable Capacity) (m : RecordMap) (op : TableOp), t.Represents m →
      (t.exec op).Represents (RecordMap.exec Capacity m op) := fun _ _ op h => h.exec op
  exact Runs.foldl_simulates hstep (represents_clear Capacity) ops

end OrderTable

namespace RecordMap

/-- A call for one id leaves the record of every other id as it was. -/
theorem lookup_insert_other {Capacity : Pow2} (m : RecordMap) {id orderId : UInt64} (side : UInt8)
    (price quantity : Int32) (ts : UInt64) (h : id ≠ orderId) :
    (exec Capacity m (.insert orderId side price quantity ts)).lookup id = m.lookup id := by
  simp only [exec]
  split
  · exact AList.lookup_insert_ne h
  · rfl

theorem lookup_erase_other {Capacity : Pow2} (m : RecordMap) {id orderId : UInt64} (h : id ≠ orderId) :
    (exec Capacity m (.erase orderId)).lookup id = m.lookup id := by
  simp only [exec]
  split
  · exact AList.lookup_insert_ne h
  · rfl

end RecordMap

/-- `OrderTable` refines a finite map, for every sequence of calls on a fresh table: `lookup` returns the record
of the map, `insert` fails exactly when the id is new and `Capacity` ids are stored (and then nothing changes), a
successful `insert` returns the slot that `lookup` finds and `erase` reports whether the id was live, calls for
one id leave the records of the others alone, and the two counters count the live and the stored ids. -/
theorem OrderTable.refines_finite_map (Capacity : Pow2) (ops : List TableOp) :
    let t := ops.foldl OrderTable.exec (OrderTable.clear Capacity)
    let m := ops.foldl (RecordMap.exec Capacity) ∅
    (∀ orderId, t.find orderId = m.lookup orderId) ∧
    (∀ orderId side price quantity ts,
      (t.insert orderId side price quantity ts = none ↔
        m.lookup orderId = none ∧ m.entries.length = Capacity.val) ∧
      (t.insert orderId side price quantity ts = none →
        t.exec (.insert orderId side price quantity ts) = t) ∧
      ∀ i t', t.insert orderId side price quantity ts = some (i, t') →
        t'.lookup orderId = some i ∧ t'.table.get i = record orderId side price quantity ts) ∧
    (∀ orderId, (t.erase orderId).1 = true ↔ ∃ r, m.lookup orderId = some r ∧ r.cancelled = false) ∧
    (∀ id orderId side price quantity ts, id ≠ orderId →
      (t.exec (.insert orderId side price quantity ts)).find id = t.find id ∧
      (t.exec (.erase orderId)).find id = t.find id) ∧
    t.size.toNat = m.live ∧ t.occupiedSlots.toNat = m.entries.length := by
  intro t m
  have h : t.Represents m := run_represents Capacity ops
  refine ⟨h.find, fun orderId side price quantity ts => ⟨?_, ?_, ?_⟩, fun orderId => ?_, ?_, h.active, h.occupied⟩
  · rw [h.wellFormed.insert_none, h.find, h.stored]
  · intro hnone
    simp only [exec, hnone]
  · intro i t' hi
    obtain ⟨hs, rfl⟩ := insert_eq_some.1 hi
    have hrep := h.insertAt (r := record orderId side price quantity ts) rfl rfl hs
    have hget : (t.insertAt i (record orderId side price quantity ts)).table.get i =
        record orderId side price quantity ts := by
      show (t.table.setIfInBounds i _).get i = _
      rw [VectorSlots.get_set, if_pos rfl]
    exact ⟨hrep.wellFormed.lookup_iff.2 (by rw [hget]; exact ⟨rfl, rfl⟩), hget⟩
  · unfold OrderTable.erase
    cases hl : t.lookup orderId with
    | none => simp [h.lookup_none.1 hl]
    | some i => cases hc : (t.table.get i).cancelled <;> simp [h.slot_of_lookup hl, hc]
  · intro id orderId side price quantity ts hid
    rw [(h.exec _).find, (h.exec _).find, h.find]
    exact ⟨RecordMap.lookup_insert_other m side price quantity ts hid, RecordMap.lookup_erase_other m hid⟩

end FeedHandler
