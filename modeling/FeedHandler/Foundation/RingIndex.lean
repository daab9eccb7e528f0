import Mathlib.Data.Nat.ModEq
import Mathlib.Algebra.Order.Group.Int

/-!
# Free-running 64-bit indices

An index counts up from `start` and wraps modulo `2^64`; the slot of an index is the index masked with a power of
two minus one.  Everything is stated about the number `n` of increments, which does not wrap.

* The difference of two indices is the difference of their counts, as long as that is below `2^64` (`toNat_sub`).
* Counts that are less than `2^k` apart have different slots (`slot_inj`), also across the wrap, because `2^k`
  divides `2^64`.
-/

namespace RingIndex

/-- The index after `n` increments. -/
def nth (start : UInt64) (n : Nat) : UInt64 := start + UInt64.ofNat n

theorem toNat_succ {index : UInt64} (h : index.toNat + 1 < 2 ^ 64) : (index + 1).toNat = index.toNat + 1 := by
  rw [UInt64.toNat_add, UInt64.toNat_one]
  exact Nat.mod_eq_of_lt h

variable {start : UInt64} {m n k : Nat}

@[simp] theorem nth_zero (start : UInt64) : nth start 0 = start := UInt64.add_zero start

theorem nth_succ (start : UInt64) (n : Nat) : nth start n + 1 = nth start (n + 1) := by
  unfold nth
  rw [UInt64.ofNat_add, UInt64.add_assoc]
  rfl

theorem nth_nth (start : UInt64) (m n : Nat) : nth (nth start m) n = nth start (m + n) := by
  unfold nth
  rw [UInt64.ofNat_add, UInt64.add_assoc]

theorem toNat_nth (start : UInt64) (n : Nat) : (nth start n).toNat = (start.toNat + n) % 2 ^ 64 := by
  unfold nth
  rw [UInt64.toNat_add, UInt64.toNat_ofNat', Nat.add_mod_mod]

theorem toNat_sub (hle : m ≤ n) (hlt : n - m < 2 ^ 64) : (nth start n - nth start m).toNat = n - m := by
  obtain ⟨d, rfl⟩ := Nat.exists_eq_add_of_le hle
  have hsplit : nth start (m + d) - nth start m = UInt64.ofNat d := by
    unfold nth
    rw [UInt64.ofNat_add, ← UInt64.add_assoc, UInt64.add_comm (start + UInt64.ofNat m), UInt64.add_sub_cancel]
  rw [hsplit, UInt64.toNat_ofNat']
  omega

theorem nth_inj (hle : m ≤ n) (hlt : n - m < 2 ^ 64) (h : nth start m = nth start n) : m = n := by
  have hsub : (nth start n - nth start m).toNat = n - m := toNat_sub hle hlt
  rw [h, UInt64.sub_self] at hsub
  have hzero : (0 : UInt64).toNat = 0 := rfl
  omega

/-- The slot of an index. -/
theorem toNat_and_mask (start : UInt64) (n : Nat) (hk : k ≤ 64) :
    (nth start n &&& UInt64.ofNat (2 ^ k - 1)).toNat = (start.toNat + n) % 2 ^ k := by
  have hpow : 2 ^ k ≤ 2 ^ 64 := Nat.pow_le_pow_right (by decide) hk
  have hpos : 0 < 2 ^ k := Nat.two_pow_pos k
  have hmask : (UInt64.ofNat (2 ^ k - 1)).toNat = 2 ^ k - 1 := by
    rw [UInt64.toNat_ofNat']
    exact Nat.mod_eq_of_lt (by omega)
  rw [UInt64.toNat_and, hmask, Nat.and_two_pow_sub_one_eq_mod, toNat_nth]
  exact Nat.mod_mod_of_dvd _ (Nat.pow_dvd_pow 2 hk)

/-- Counts less than `2^k` apart have different slots. -/
theorem slot_inj (hk : k ≤ 64) (hle : m ≤ n) (hlt : n < m + 2 ^ k)
    (h : nth start m &&& UInt64.ofNat (2 ^ k - 1) = nth start n &&& UInt64.ofNat (2 ^ k - 1)) : m = n := by
  have hmod := congrArg UInt64.toNat h
  rw [toNat_and_mask start m hk, toNat_and_mask start n hk] at hmod
  have hcong : m ≡ n [MOD 2 ^ k] := Nat.ModEq.add_left_cancel' start.toNat hmod
  generalize 2 ^ k = c at hcong hlt
  apply hcong.eq_of_abs_lt
  rw [abs_lt]
  omega

end RingIndex
