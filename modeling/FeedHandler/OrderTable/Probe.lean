import FeedHandler.Foundation.OpenAddressing
import FeedHandler.Foundation.VectorSlots
import FeedHandler.OrderTable.Basic

/-!
# The probe chains of the order table

The loops of `insert` and `lookup` stop at the same slot, the first one along the probe order of the id that is
free or holds the id (`lookup_eq`, `insert_eq`).  A table is well formed when every id stored in it is found by
its own probe; writing at the slot where a probe stopped keeps that, so tombstones never break a chain.

`find` is the record a caller of `lookup` sees.
-/

namespace FeedHandler

/-- Every slot is reached from every home slot: the mask is reduction modulo the capacity. -/
theorem Pow2.and_mask (C : Pow2) (hC : C.val ≠ 0) (x : Nat) : x &&& (C.val - 1) = x % C.val := by
  obtain ⟨k, -, hk⟩ := C.eq_two_pow hC
  rw [hk, Nat.and_two_pow_sub_one_eq_mod]

namespace OrderTable

open OpenAddressing VectorSlots

variable {Capacity : Pow2}

/-- The id stored in a slot. -/
def occ (t : OrderTable Capacity) (i : Fin Capacity.val) : Option UInt64 :=
  if (t.table.get i).occupied then some (t.table.get i).orderId else none

/-- The slots in the order in which the loops visit them. -/
def probeOrder (Capacity : Pow2) (orderId : UInt64) : List (Fin Capacity.val) :=
  (List.finRange Capacity.val).map (slotIndex (hash Capacity orderId))

theorem mem_probeOrder (orderId : UInt64) (i : Fin Capacity.val) : i ∈ probeOrder Capacity orderId := by
  have hC : Capacity.val ≠ 0 := by have := i.isLt; omega
  have hmod := Nat.mod_lt (hash Capacity orderId) (Nat.pos_of_ne_zero hC)
  refine List.mem_map.2
    ⟨⟨(i + (Capacity.val - hash Capacity orderId % Capacity.val)) % Capacity.val, Nat.mod_lt _ (by omega)⟩, by simp, ?_⟩
  ext
  simp only [slotIndex]
  rw [Capacity.and_mask hC, Nat.add_mod_mod, ← Nat.mod_add_mod,
    show hash Capacity orderId % Capacity.val + (i + (Capacity.val - hash Capacity orderId % Capacity.val)) =
      i + Capacity.val by omega, Nat.add_mod_right, Nat.mod_eq_of_lt i.isLt]

/-- The record in the slot where a probe has stopped. -/
def record (orderId : UInt64) (side : UInt8) (price quantity : Int32) (ts : UInt64) : OrderRecord :=
  { orderId, side, price, quantity, timestamp := ts, occupied := true, cancelled := false }

/-- `insert` at a given slot. -/
def insertAt (t : OrderTable Capacity) (i : Fin Capacity.val) (r : OrderRecord) : OrderTable Capacity where
  table := t.table.setIfInBounds i r
  occupiedCount := if (t.table.get i).occupied then t.occupiedCount else t.occupiedCount + 1
  activeCount :=
    if (t.table.get i).occupied ∧ ¬(t.table.get i).cancelled then t.activeCount else t.activeCount + 1

/-! ### The loops stop where the probe stops -/

private theorem insertLoop_eq (t : OrderTable Capacity) (orderId : UInt64) (side : UInt8) (price quantity : Int32)
    (ts : UInt64) (startIdx : Nat) (probes : List (Fin Capacity.val)) :
    t.insertLoop orderId side price quantity ts startIdx probes =
      (stop t.occ orderId (probes.map (slotIndex startIdx))).map
        fun i => (i, t.insertAt i (record orderId side price quantity ts)) := by
  induction probes with
  | nil => rfl
  | cons probe probes ih =>
    rw [insertLoop, List.map_cons, stop_cons]
    by_cases hocc : (t.table.get (slotIndex startIdx probe)).occupied
    · by_cases hid : (t.table.get (slotIndex startIdx probe)).orderId = orderId
      · by_cases hc : (t.table.get (slotIndex startIdx probe)).cancelled <;>
          simp [occ, hocc, hid, hc, insertAt, record]
      · simp [occ, hocc, hid, ih]
    · simp [occ, hocc, insertAt, record]

theorem insert_eq (t : OrderTable Capacity) (orderId : UInt64) (side : UInt8) (price quantity : Int32)
    (ts : UInt64) :
    t.insert orderId side price quantity ts =
      (stop t.occ orderId (probeOrder Capacity orderId)).map
        fun i => (i, t.insertAt i (record orderId side price quantity ts)) :=
  insertLoop_eq ..

private theorem lookupLoop_eq (t : OrderTable Capacity) (orderId : UInt64) (startIdx : Nat)
    (probes : List (Fin Capacity.val)) :
    t.lookupLoop orderId startIdx probes =
      (stop t.occ orderId (probes.map (slotIndex startIdx))).filter fun i => (t.table.get i).occupied := by
  induction probes with
  | nil => rfl
  | cons probe probes ih =>
    rw [lookupLoop, List.map_cons, stop_cons]
    by_cases hocc : (t.table.get (slotIndex startIdx probe)).occupied
    · by_cases hid : (t.table.get (slotIndex startIdx probe)).orderId = orderId
      · simp [occ, hocc, hid, Option.filter]
      · simp [occ, hocc, hid, ih]
    · simp [occ, hocc, Option.filter]

theorem lookup_eq (t : OrderTable Capacity) (orderId : UInt64) :
    t.lookup orderId =
      (stop t.occ orderId (probeOrder Capacity orderId)).filter fun i => (t.table.get i).occupied :=
  lookupLoop_eq ..

/-- What a non-null result of `lookup` points at. -/
theorem lookup_some {t : OrderTable Capacity} {orderId : UInt64} {i : Fin Capacity.val}
    (h : t.lookup orderId = some i) : (t.table.get i).occupied ∧ (t.table.get i).orderId = orderId := by
  rw [lookup_eq, Option.filter_eq_some_iff] at h
  obtain ⟨hs, hocc⟩ := h
  have := stop_free_or_self hs
  simp only [occ, hocc, if_true] at this
  simpa [hocc] using this

/-- `lookup` finds the slot where the probe stopped, unless that slot is free. -/
theorem lookup_of_stop {t : OrderTable Capacity} {orderId : UInt64} {i : Fin Capacity.val}
    (hs : stop t.occ orderId (probeOrder Capacity orderId) = some i) :
    (t.table.get i).occupied = false ∧ t.lookup orderId = none ∨
      (t.table.get i).occupied = true ∧ t.lookup orderId = some i := by
  rw [lookup_eq, hs]
  cases hocc : (t.table.get i).occupied <;> simp [Option.filter, hocc]

theorem insert_eq_some {t t' : OrderTable Capacity} {orderId : UInt64} {side : UInt8} {price quantity : Int32}
    {ts : UInt64} {i : Fin Capacity.val} :
    t.insert orderId side price quantity ts = some (i, t') ↔
      stop t.occ orderId (probeOrder Capacity orderId) = some i ∧
        t' = t.insertAt i (record orderId side price quantity ts) := by
  rw [insert_eq, Option.map_eq_some_iff]
  constructor
  · rintro ⟨j, hs, he⟩
    obtain ⟨rfl, rfl⟩ := Prod.mk.inj he
    exact ⟨hs, rfl⟩
  · rintro ⟨hs, rfl⟩
    exact ⟨i, hs, rfl⟩

/-! ### Well-formed tables -/

/-- Every id stored in the table is found by its own probe. -/
def WellFormed (t : OrderTable Capacity) : Prop := Chained (probeOrder Capacity) t.occ

@[simp] theorem get_clear (i : Fin Capacity.val) : (clear Capacity).table.get i = {} :=
  Vector.getElem_replicate i.isLt

theorem occ_set {t t' : OrderTable Capacity} {i : Fin Capacity.val} {r : OrderRecord}
    (ht : t'.table = t.table.setIfInBounds i r) (hr : r.occupied = true) :
    t'.occ = Function.update t.occ i (some r.orderId) := by
  funext j
  by_cases hj : j = i
  · subst hj
    simp [occ, ht, get_set, hr]
  · simp [occ, ht, get_set, Ne.symm hj, hj]

theorem wellFormed_clear (Capacity : Pow2) : (clear Capacity).WellFormed :=
  Chained.of_empty fun i => by simp [occ]

namespace WellFormed

variable {t t' : OrderTable Capacity}

/-- A record with the id of the probe may be written where the probe stopped. -/
theorem set (h : t.WellFormed) {i : Fin Capacity.val} {r : OrderRecord} (ht : t'.table = t.table.setIfInBounds i r)
    (hr : r.occupied = true) (hs : stop t.occ r.orderId (probeOrder Capacity r.orderId) = some i) :
    t'.WellFormed := by
  unfold WellFormed
  rw [occ_set ht hr]
  exact Chained.write h hs

/-- A record may be replaced by one with the same id. -/
theorem replace (h : t.WellFormed) {i : Fin Capacity.val} {r : OrderRecord} (ht : t'.table = t.table.setIfInBounds i r)
    (hr : r.occupied = true) (hocc : (t.table.get i).occupied = true)
    (hid : (t.table.get i).orderId = r.orderId) : t'.WellFormed :=
  h.set ht hr (h i r.orderId (by simp [occ, hocc, hid]))

theorem lookup_iff (h : t.WellFormed) {orderId : UInt64} {i : Fin Capacity.val} :
    t.lookup orderId = some i ↔ (t.table.get i).occupied = true ∧ (t.table.get i).orderId = orderId := by
  refine ⟨lookup_some, fun ⟨hocc, hid⟩ => ?_⟩
  rw [lookup_eq, Option.filter_eq_some_iff]
  exact ⟨h i orderId (by simp [occ, hocc, hid]), hocc⟩

end WellFormed

/-! ### The record of an id -/

/-- The record a caller of `lookup` sees. -/
def find (t : OrderTable Capacity) (orderId : UInt64) : Option OrderRecord :=
  (t.lookup orderId).map t.table.get

/-- The fresh table stores nothing. -/
theorem find_clear (Capacity : Pow2) (orderId : UInt64) : (clear Capacity).find orderId = none := by
  unfold find
  rw [Option.map_eq_none_iff, Option.eq_none_iff_forall_ne_some]
  intro i hi
  have hocc := (lookup_some hi).1
  rw [get_clear] at hocc
  cases hocc

theorem WellFormed.find_iff {t : OrderTable Capacity} (h : t.WellFormed) {orderId : UInt64} {r : OrderRecord} :
    t.find orderId = some r ↔ ∃ i, t.table.get i = r ∧ r.occupied = true ∧ r.orderId = orderId := by
  simp only [find, Option.map_eq_some_iff, h.lookup_iff]
  constructor
  · rintro ⟨i, ⟨hocc, hid⟩, rfl⟩
    exact ⟨i, rfl, hocc, hid⟩
  · rintro ⟨i, rfl, hocc, hid⟩
    exact ⟨i, ⟨hocc, hid⟩, rfl⟩

/-- After a record has been written at a slot that was free or held the same id, its id is bound to it and every
other id to what it was bound to before. -/
theorem find_set {t t' : OrderTable Capacity} (h : t.WellFormed) (h' : t'.WellFormed) {i : Fin Capacity.val}
    {r : OrderRecord} (ht : t'.table = t.table.setIfInBounds i r) (hr : r.occupied = true)
    (hi : (t.table.get i).occupied = false ∨ (t.table.get i).orderId = r.orderId) (orderId : UInt64) :
    t'.find orderId = if orderId = r.orderId then some r else t.find orderId := by
  split
  · rename_i hid
    exact h'.find_iff.2 ⟨i, by simp [ht, get_set], hr, hid.symm⟩
  · rename_i hid
    ext x
    rw [h'.find_iff, h.find_iff]
    constructor
    · rintro ⟨j, hj, hocc, hx⟩
      rw [ht, get_set] at hj
      split at hj
      · subst hj
        exact absurd hx.symm hid
      · exact ⟨j, hj, hocc, hx⟩
    · rintro ⟨j, hj, hocc, hx⟩
      refine ⟨j, ?_, hocc, hx⟩
      rw [ht, get_set]
      split
      · rename_i hij
        subst hij
        rw [hj] at hi
        rcases hi with hi | hi
        · simp [hi] at hocc
        · exact absurd (hx.symm.trans hi) hid
      · exact hj

/-! ### Room in the table -/

/-- The number of ids stored, tombstones included. -/
def storedCount (t : OrderTable Capacity) : Nat := t.table.toList.countP (·.occupied)

theorem storedCount_le (t : OrderTable Capacity) : t.storedCount ≤ Capacity.val := by
  have := List.countP_le_length (p := fun r : OrderRecord => r.occupied) (l := t.table.toList)
  simpa [storedCount] using this

theorem storedCount_clear (Capacity : Pow2) : (clear Capacity).storedCount = 0 := by
  simp [storedCount, clear, List.countP_replicate]

theorem getElem_toList (t : OrderTable Capacity) (i : Fin Capacity.val) (h : i.val < t.table.toList.length) :
    t.table.toList[i.val] = t.table.get i := rfl

theorem storedCount_set {t t' : OrderTable Capacity} {i : Fin Capacity.val} {r : OrderRecord}
    (ht : t'.table = t.table.setIfInBounds i r) (hr : r.occupied = true) :
    t'.storedCount = t.storedCount + if (t.table.get i).occupied then 0 else 1 := by
  have hlen : i.val < t.table.toList.length := by simp
  have hpos : (t.table.get i).occupied = true → 0 < t.storedCount := fun hocc =>
    List.countP_pos_iff.2 ⟨_, List.getElem_mem hlen, hocc⟩
  unfold storedCount at hpos ⊢
  rw [ht, Vector.toList_setIfInBounds, List.countP_set hlen, getElem_toList, hr]
  cases hocc : (t.table.get i).occupied with
  | false => simp
  | true =>
    have := hpos hocc
    simp only [if_true, Nat.add_zero]
    omega

theorem storedCount_eq_capacity {t : OrderTable Capacity} :
    t.storedCount = Capacity.val ↔ ∀ i, (t.table.get i).occupied = true := by
  have hlen : t.table.toList.length = Capacity.val := by simp
  have hall : t.storedCount = Capacity.val ↔ ∀ r ∈ t.table.toList, r.occupied = true := by
    conv => lhs; rhs; rw [← hlen]
    exact List.countP_eq_length
  rw [hall]
  constructor
  · intro h i
    exact h _ (List.getElem_mem (by simp : i.val < t.table.toList.length))
  · intro h r hr
    obtain ⟨n, hn, rfl⟩ := List.getElem_of_mem hr
    exact h ⟨n, by simpa using hn⟩

/-- `insert` fails exactly when the id is new and every slot is taken. -/
theorem WellFormed.insert_none {t : OrderTable Capacity} (h : t.WellFormed) {orderId : UInt64} {side : UInt8}
    {price quantity : Int32} {ts : UInt64} :
    t.insert orderId side price quantity ts = none ↔ t.find orderId = none ∧ t.storedCount = Capacity.val := by
  rw [insert_eq, Option.map_eq_none_iff, stop_eq_none, storedCount_eq_capacity, Option.eq_none_iff_forall_ne_some]
  constructor
  · intro hs
    have hocc : ∀ i, (t.table.get i).occupied = true := fun i => by
      have := (hs i (mem_probeOrder orderId i)).1
      simpa [occ] using this
    refine ⟨fun r hr => ?_, hocc⟩
    obtain ⟨i, rfl, -, hid⟩ := h.find_iff.1 hr
    exact (hs i (mem_probeOrder orderId i)).2 (by simp [occ, hocc i, hid])
  · rintro ⟨hf, hocc⟩ i -
    refine ⟨by simp [occ, hocc i], fun hi => ?_⟩
    have hid : (t.table.get i).orderId = orderId := by simpa [occ, hocc i] using hi
    exact hf _ (h.find_iff.2 ⟨i, rfl, hocc i, hid⟩)

end OrderTable

end FeedHandler
