import FeedHandler.Foundation.RingIndex
import Mathlib.Data.List.Nodup
import Mathlib.Logic.Function.Basic
import Mathlib.Order.Interval.Finset.Nat

/-!
# The latest values in a circular array

A value is written to the slot `head % N`, where `head` is a 64-bit counter of the values, and the latest are read from
`head - 1` backwards, `min head N` of them.  A write puts its value in front of what is read and pushes out the last
(`recent_write`), unless the counter wraps to zero, which leaves nothing to read.  So the read gives the first
`min (n % 2^64) N` of the `n` values written, the latest first (`Follows.recent_eq`), and it visits no slot twice
(`slots_nodup`).
-/

namespace RecentValues

/-! ### The indices -/

section Indices

variable {N : Nat} {head : UInt64}

/-- The indices to read, the latest first. -/
def latest (N : Nat) (head : UInt64) : List UInt64 :=
  (List.range (min head.toNat N)).map fun i => head - 1 - UInt64.ofNat i

theorem toNat_back {i : Nat} (hi : i < head.toNat) : (head - 1 - UInt64.ofNat i).toNat = head.toNat - 1 - i := by
  have hlt := head.toNat_lt
  have hone : (head - 1).toNat = head.toNat - 1 := by
    apply UInt64.toNat_sub_of_le
    rw [UInt64.le_iff_toNat_le, UInt64.toNat_one]
    omega
  have hof : (UInt64.ofNat i).toNat = i := by
    rw [UInt64.toNat_ofNat']
    exact Nat.mod_eq_of_lt (by omega)
  rw [UInt64.toNat_sub_of_le, hone, hof]
  rw [UInt64.le_iff_toNat_le, hone, hof]
  omega

theorem toNat_of_mem_latest {index : UInt64} (h : index ∈ latest N head) :
    index.toNat < head.toNat ∧ head.toNat ≤ index.toNat + N := by
  obtain ⟨i, hi, rfl⟩ := List.mem_map.1 h
  rw [List.mem_range] at hi
  rw [toNat_back (by omega)]
  omega

theorem latest_nodup (N : Nat) (head : UInt64) : (latest N head).Nodup := by
  apply List.Nodup.map_on _ List.nodup_range
  intro i hi j hj h
  rw [List.mem_range] at hi hj
  have hnat := congrArg UInt64.toNat h
  rw [toNat_back (by omega), toNat_back (by omega)] at hnat
  omega

/-- One more index in front, and the one that is `N` back no longer. -/
theorem latest_succ (N : Nat) (h : head.toNat + 1 < 2 ^ 64) :
    latest (N + 1) (head + 1) = head :: latest N head := by
  unfold latest
  rw [RingIndex.toNat_succ h, Nat.add_min_add_right, List.range_succ_eq_map, List.map_cons, List.map_map]
  congr 1
  · simp
  · apply List.map_congr_left
    intro i hi
    rw [List.mem_range] at hi
    have hback : (head + 1 - 1 - UInt64.ofNat (i + 1)).toNat = (head + 1).toNat - 1 - (i + 1) :=
      toNat_back (by rw [RingIndex.toNat_succ h]; omega)
    apply UInt64.toNat_inj.1
    rw [Function.comp_apply, Nat.succ_eq_add_one, hback, toNat_back (by omega), RingIndex.toNat_succ h]
    omega

theorem latest_take (N : Nat) (head : UInt64) : (latest (N + 1) head).take N = latest N head := by
  unfold latest
  rw [← List.map_take, List.take_range]
  congr 2
  omega

theorem latest_of_wrap (h : head.toNat + 1 = 2 ^ 64) : latest N (head + 1) = [] := by
  have hzero : (head + 1).toNat = 0 := by
    rw [UInt64.toNat_add, UInt64.toNat_one, h]
    rfl
  simp [latest, hzero]

end Indices

/-! ### The slots -/

section Slots

variable {α : Type*} {N : Nat} [NeZero N] {head : UInt64}

/-- The slot of an index. -/
def slot (N : Nat) [NeZero N] (index : UInt64) : Fin N := Fin.ofNat N index.toNat

/-- Indices less than `N` apart have different slots. -/
theorem slot_inj {i j : UInt64} (hle : i.toNat ≤ j.toNat) (hlt : j.toNat < i.toNat + N) (h : slot N i = slot N j) :
    i = j := by
  have hmod : i.toNat % N = j.toNat % N := congrArg Fin.val h
  apply UInt64.toNat_inj.1
  apply Nat.mod_injOn_Ico i.toNat N _ _ hmod <;>
    simp only [Finset.coe_Ico, Set.mem_Ico] <;> omega

/-- No slot is read twice. -/
theorem slots_nodup (N : Nat) [NeZero N] (head : UInt64) : ((latest N head).map (slot N)).Nodup := by
  apply List.Nodup.map_on _ (latest_nodup N head)
  intro i hi j hj h
  obtain ⟨hi1, hi2⟩ := toNat_of_mem_latest hi
  obtain ⟨hj1, hj2⟩ := toNat_of_mem_latest hj
  rcases Nat.le_total i.toNat j.toNat with hij | hji
  · exact slot_inj hij (by omega) h
  · exact (slot_inj hji (by omega) h.symm).symm

/-! ### What is read -/

def recent (slots : Fin N → α) (head : UInt64) : List α := (latest N head).map fun index => slots (slot N index)

theorem recent_of_wrap (slots : Fin N → α) (h : head.toNat + 1 = 2 ^ 64) : recent slots (head + 1) = [] := by
  unfold recent
  rw [latest_of_wrap h, List.map_nil]

/-- A write puts its value in front. -/
theorem recent_write (slots : Fin N → α) (value : α) (h : head.toNat + 1 < 2 ^ 64) :
    recent (Function.update slots (slot N head) value) (head + 1) = (value :: recent slots head).take N := by
  obtain ⟨n, rfl⟩ := Nat.exists_eq_succ_of_ne_zero (NeZero.ne N)
  unfold recent
  rw [latest_succ n h, List.map_cons, List.take_succ_cons, ← List.map_take, latest_take, Function.update_self]
  congr 1
  apply List.map_congr_left
  intro index hindex
  obtain ⟨hlt, hle⟩ := toNat_of_mem_latest hindex
  apply Function.update_of_ne
  intro hslot
  have heq : index = head := slot_inj (by omega) (by omega) hslot
  rw [heq] at hlt
  omega

/-! ### The values written -/

/-- `head` counts the values, the latest first in `values`, and as many of them as it says are in the slots. -/
structure Follows (slots : Fin N → α) (head : UInt64) (values : List α) : Prop where
  head_eq : head = UInt64.ofNat values.length
  recent_eq : recent slots head = values.take (min (values.length % 2 ^ 64) N)

theorem follows_nil (slots : Fin N → α) : Follows slots 0 [] where
  head_eq := rfl
  recent_eq := by simp [recent, latest]

theorem Follows.write {slots : Fin N → α} {values : List α} (h : Follows slots head values) (value : α) :
    Follows (Function.update slots (slot N head) value) (head + 1) (value :: values) := by
  have hnat : head.toNat = values.length % 2 ^ 64 := by rw [h.head_eq, UInt64.toNat_ofNat']
  have hlt := head.toNat_lt
  constructor
  · rw [h.head_eq, List.length_cons, UInt64.ofNat_add]
    rfl
  · rw [List.length_cons]
    by_cases hwrap : head.toNat + 1 = 2 ^ 64
    · have hzero : (values.length + 1) % 2 ^ 64 = 0 := by omega
      rw [recent_of_wrap _ hwrap, hzero, Nat.zero_min, List.take_zero]
    · have hsucc : (values.length + 1) % 2 ^ 64 = values.length % 2 ^ 64 + 1 := by omega
      rw [recent_write slots value (by omega), h.recent_eq, hsucc, ← List.take_succ_cons, List.take_take]
      congr 1
      omega

/-- All of the last `N` values are there unless the counter has wrapped and fewer have been written since. -/
theorem Follows.recent_eq_take_iff {slots : Fin N → α} {values : List α} (h : Follows slots head values) :
    recent slots head = values.take N ↔ values.length < 2 ^ 64 ∨ N ≤ values.length % 2 ^ 64 := by
  rw [h.recent_eq, List.take_eq_take_iff]
  omega

end Slots

end RecentValues
