import FeedHandler.Foundation.BitWindow
import FeedHandler.OrderTable.Probe

/-!
# The home slots of the order table

`hash` shifts the product by 43 for every capacity and masks the 21 bits that are left; ADR-003 has it shift by
`64 - log2(Capacity)`.  The products are a numbering of the order ids, as the constant is odd, so both are windows of
bits.  The documented one is balanced for every capacity (`specifiedHash_balanced`), the one of the code exactly up to
`2^21` slots (`hash_balanced_iff`); above, only the first `2^21` slots are home slots (`ncard_hash`).
-/

namespace FeedHandler

namespace OrderTable

open BitWindow

variable {Capacity : Pow2}

/-- Every slot is the home slot of its share of the order ids. -/
def Balanced (Capacity : Pow2) (home : UInt64 → Nat) : Prop :=
  ∀ slot < Capacity.val, {orderId | home orderId = slot}.ncard = 2 ^ 64 / Capacity.val

/-- The hash of ADR-003. -/
def specifiedHash (Capacity : Pow2) (orderId : UInt64) : Nat :=
  (orderId * fibonacciPrime).toNat >>> (64 - Capacity.val.log2)

/-- The inverse of the constant modulo `2^64`. -/
private def fibonacciInverse : UInt64 := 0xF1DE83E19937733D

private theorem prime_mul_inverse : fibonacciPrime * fibonacciInverse = 1 := by decide

private theorem inverse_mul_prime : fibonacciInverse * fibonacciPrime = 1 := by decide

/-- The order ids, numbered by their products. -/
def product : UInt64 ≃ Fin (2 ^ 64) where
  toFun orderId := ⟨(orderId * fibonacciPrime).toNat, UInt64.toNat_lt _⟩
  invFun n := UInt64.ofNat n * fibonacciInverse
  left_inv orderId := by
    simp only [UInt64.ofNat_toNat]
    rw [UInt64.mul_assoc, prime_mul_inverse, UInt64.mul_one]
  right_inv n := by
    ext
    simp only
    rw [UInt64.mul_assoc, inverse_mul_prime, UInt64.mul_one, UInt64.toNat_ofNat']
    exact Nat.mod_eq_of_lt n.isLt

theorem hash_eq_window {k : Nat} (hval : Capacity.val = 2 ^ k) (orderId : UInt64) :
    hash Capacity orderId = window 43 k (product orderId) := by
  unfold hash window
  rw [hval, Nat.and_two_pow_sub_one_eq_mod, UInt64.toNat_shiftRight, Nat.shiftRight_eq_div_pow]
  rfl

theorem specifiedHash_eq_window {k : Nat} (hk : k ≤ 64) (hval : Capacity.val = 2 ^ k) (orderId : UInt64) :
    specifiedHash Capacity orderId = window (64 - k) k (product orderId) := by
  rw [window_top product hk]
  unfold specifiedHash
  rw [hval, Nat.log2_two_pow, Nat.shiftRight_eq_div_pow]
  rfl

/-- The documented hash is balanced, for every capacity. -/
theorem specifiedHash_balanced (Capacity : Pow2) : Balanced Capacity (specifiedHash Capacity) := by
  intro slot hslot
  obtain ⟨k, hk, hval⟩ := Capacity.eq_two_pow (by omega)
  rw [hval] at hslot ⊢
  simp only [specifiedHash_eq_window (by omega) hval]
  exact (balanced_iff product (by omega) (by omega)).2 (by omega) slot hslot

/-- Above `2^21` slots, the first `2^21` are home slots of `2^43` ids each and the others of none. -/
theorem ncard_hash (hlarge : 2 ^ 21 ≤ Capacity.val) (slot : Nat) :
    {orderId | hash Capacity orderId = slot}.ncard = if slot < 2 ^ 21 then 2 ^ 43 else 0 := by
  obtain ⟨k, hk, hval⟩ := Capacity.eq_two_pow (by omega)
  have hk' : 21 ≤ k := by
    rw [hval] at hlarge
    exact (Nat.pow_le_pow_iff_right (by decide)).1 hlarge
  simp only [hash_eq_window hval]
  exact ncard_window_outside product (by decide) (by omega) slot

/-- The hash of the code is balanced for the capacities that need at most the 21 bits left by the shift. -/
theorem hash_balanced_iff (Capacity : Pow2) : Balanced Capacity (hash Capacity) ↔ Capacity.val ≤ 2 ^ 21 := by
  by_cases hpos : Capacity.val = 0
  · simp [Balanced, hpos]
  · obtain ⟨k, hk, hval⟩ := Capacity.eq_two_pow hpos
    have hbits : 43 + k ≤ 64 ↔ Capacity.val ≤ 2 ^ 21 := by
      rw [hval, Nat.pow_le_pow_iff_right (by decide)]
      omega
    unfold Balanced
    rw [← hbits, ← balanced_iff product (by decide) (by omega : k ≤ 64), hval]
    simp only [hash_eq_window hval]

/-- The slot `2^21` of a table with `2^22` slots is the home slot of no id. -/
theorem hash_unbalanced :
    ¬Balanced ⟨2 ^ 22, by decide, by decide⟩ (hash ⟨2 ^ 22, by decide, by decide⟩) := by
  intro h
  have hshare := h (2 ^ 21) (by decide)
  rw [ncard_hash (by decide)] at hshare
  exact absurd hshare (by decide)

/-- The two hashes agree on every id only with one slot and with `2^21` slots. -/
theorem hash_eq_specifiedHash_iff {k : Nat} (hk : k ≤ 63) (hval : Capacity.val = 2 ^ k) :
    (∀ orderId, hash Capacity orderId = specifiedHash Capacity orderId) ↔ k = 0 ∨ k = 21 := by
  simp only [hash_eq_window hval, specifiedHash_eq_window (by omega) hval]
  constructor
  · intro h
    by_contra hne
    -- the id whose product is the highest bit alone
    have hid := h (product.symm ⟨2 ^ 63, by decide⟩)
    rw [Equiv.apply_symm_apply] at hid
    have hspec : window (64 - k) k (2 ^ 63) = 2 ^ (k - 1) := by
      unfold window
      rw [Nat.pow_div (by omega) (by decide), show 63 - (64 - k) = k - 1 by omega]
      exact Nat.mod_eq_of_lt (Nat.pow_lt_pow_right (by decide) (by omega))
    have hhash : window 43 k (2 ^ 63) = 2 ^ 20 % 2 ^ k := by
      unfold window
      rw [Nat.pow_div (by decide) (by decide)]
    rw [hspec, hhash] at hid
    by_cases hsmall : k ≤ 20
    · have hpos := Nat.two_pow_pos (k - 1)
      rw [Nat.mod_eq_zero_of_dvd (Nat.pow_dvd_pow 2 hsmall)] at hid
      omega
    · rw [Nat.mod_eq_of_lt (Nat.pow_lt_pow_right (by decide) (by omega))] at hid
      have hexp : 20 = k - 1 := Nat.pow_right_injective (Nat.le_refl 2) hid
      omega
  · rintro (rfl | rfl) orderId
    · simp [window, Nat.mod_one]
    · rfl

end OrderTable

end FeedHandler
