import Mathlib.Algebra.Ring.Nat
import Mathlib.Data.Set.Card
import Mathlib.Logic.Equiv.Defs

/-!
# Hashing by a window of bits

Keys are numbered by the numbers below `2^w`, and the slot of a key is a window of its number: the `k` bits above the
lowest `s`.  A window inside the `w` bits gives each of the `2^k` slots the same number of keys (`ncard_window`).  Of
a window that sticks out, only the slots below `2^(w-s)` have keys (`window_lt`, `ncard_window_outside`); so the slots
are balanced exactly if the window lies inside (`balanced_iff`).
-/

namespace BitWindow

/-- The `k` bits of `n` above the lowest `s`. -/
def window (s k n : Nat) : Nat := n / 2 ^ s % 2 ^ k

/-! ### Counting numbers by their middle digit -/

section Digits

variable {A B C hi lo v : Nat}

private theorem join_div (hlo : lo < A) : (hi * A + lo) / A = hi := by
  rw [Nat.add_comm, Nat.add_mul_div_right _ _ (by omega), Nat.div_eq_of_lt hlo, Nat.zero_add]

private theorem join_mod (hlo : lo < A) : (hi * A + lo) % A = lo := by
  rw [Nat.add_comm, Nat.add_mul_mod_self_right, Nat.mod_eq_of_lt hlo]

private theorem join_lt (hhi : hi < C) (hlo : lo < A) : hi * A + lo < C * A := by
  calc hi * A + lo < hi * A + A := by omega
    _ = (hi + 1) * A := (Nat.succ_mul hi A).symm
    _ ≤ C * A := Nat.mul_le_mul_right A hhi

/-- The numbers below `C * B * A` whose middle digit is `v` are `(hi * B + v) * A + lo` for `hi` below `C` and `lo`
below `A`. -/
theorem card_middle_digit (A C : Nat) (hv : v < B) :
    ((Finset.range (C * B * A)).filter fun n => n / A % B = v).card = C * A := by
  have hcard : (Finset.range C ×ˢ Finset.range A).card = C * A := by simp
  rw [← hcard]
  apply Finset.card_bij' (fun n _ => (n / A / B, n % A)) (fun p _ => (p.1 * B + v) * A + p.2)
  · intro n hn
    obtain ⟨hlt, -⟩ := Finset.mem_filter.1 hn
    rw [Finset.mem_range] at hlt
    have hA : 0 < A := Nat.pos_of_ne_zero fun h => by simp [h] at hlt
    have hdiv : n / A < C * B := Nat.div_lt_of_lt_mul (by rwa [Nat.mul_comm] at hlt)
    have hhi : n / A / B < C := Nat.div_lt_of_lt_mul (by rwa [Nat.mul_comm] at hdiv)
    simpa using ⟨hhi, Nat.mod_lt n hA⟩
  · rintro ⟨hi, lo⟩ hp
    obtain ⟨hhi, hlo⟩ : hi < C ∧ lo < A := by simpa using hp
    rw [Finset.mem_filter, Finset.mem_range, join_div hlo, join_mod hv]
    exact ⟨join_lt (join_lt hhi hv) hlo, rfl⟩
  · intro n hn
    obtain ⟨-, hdigit⟩ := Finset.mem_filter.1 hn
    have hdiv : n / A / B * B + v = n / A := by rw [← hdigit, Nat.div_add_mod']
    simp only [hdiv, Nat.div_add_mod']
  · rintro ⟨hi, lo⟩ hp
    obtain ⟨hhi, hlo⟩ : hi < C ∧ lo < A := by simpa using hp
    simp only [join_div hlo, join_mod hlo, join_div hv]

end Digits

section Keys

variable {K : Type*} {w s k v : Nat} (e : K ≃ Fin (2 ^ w))

/-- As many keys as numbers are in a slot. -/
private theorem ncard_eq (f : Nat → Nat) (v : Nat) :
    {x | f (e x) = v}.ncard = ((Finset.range (2 ^ w)).filter fun n => f n = v).card := by
  have hinj : Function.Injective fun x => (e x : Nat) := Fin.val_injective.comp e.injective
  have himage : (fun x => (e x : Nat)) '' {x | f (e x) = v} =
      ((Finset.range (2 ^ w)).filter fun n => f n = v : Finset Nat) := by
    ext n
    constructor
    · rintro ⟨x, hx, rfl⟩
      simpa using hx
    · intro hn
      obtain ⟨hlt, hf⟩ : n < 2 ^ w ∧ f n = v := by simpa using hn
      exact ⟨e.symm ⟨n, hlt⟩, by simpa using hf, by simp⟩
  rw [← Set.ncard_image_of_injective _ hinj, himage, Set.ncard_coe_finset]

/-- A window inside the bits gives every slot its share of the keys. -/
theorem ncard_window (hsk : s + k ≤ w) (hv : v < 2 ^ k) : {x | window s k (e x) = v}.ncard = 2 ^ (w - k) := by
  have hbits : 2 ^ w = 2 ^ (w - (s + k)) * 2 ^ k * 2 ^ s := by
    rw [← Nat.pow_add, ← Nat.pow_add]
    congr 1
    omega
  have hshare : 2 ^ (w - k) = 2 ^ (w - (s + k)) * 2 ^ s := by
    rw [← Nat.pow_add]
    congr 1
    omega
  rw [ncard_eq e (window s k) v, hbits, hshare]
  exact card_middle_digit (2 ^ s) (2 ^ (w - (s + k))) hv

private theorem shift_lt (hs : s ≤ w) (x : K) : (e x : Nat) / 2 ^ s < 2 ^ (w - s) := by
  have hbits : 2 ^ w = 2 ^ s * 2 ^ (w - s) := by rw [← Nat.pow_add, Nat.add_sub_cancel' hs]
  exact Nat.div_lt_of_lt_mul (hbits ▸ (e x).isLt)

theorem window_lt (hs : s ≤ w) (x : K) : window s k (e x) < 2 ^ (w - s) :=
  Nat.lt_of_le_of_lt (Nat.mod_le _ _) (shift_lt e hs x)

/-- The window at the top needs no mask. -/
theorem window_top (hk : k ≤ w) (x : K) : window (w - k) k (e x) = e x / 2 ^ (w - k) := by
  have hlt := shift_lt e (Nat.sub_le w k) x
  rw [Nat.sub_sub_self hk] at hlt
  exact Nat.mod_eq_of_lt hlt

/-- A window that sticks out reads the bits up to the last. -/
theorem window_outside (hs : s ≤ w) (hout : w ≤ s + k) (x : K) : window s k (e x) = window s (w - s) (e x) := by
  have hlt := shift_lt e hs x
  have hle : 2 ^ (w - s) ≤ 2 ^ k := Nat.pow_le_pow_right (by decide) (by omega)
  unfold window
  rw [Nat.mod_eq_of_lt hlt, Nat.mod_eq_of_lt (Nat.lt_of_lt_of_le hlt hle)]

/-- The slots of a window that sticks out: `2^s` keys each for the first `2^(w-s)`, none for the others. -/
theorem ncard_window_outside (hs : s ≤ w) (hout : w ≤ s + k) (v : Nat) :
    {x | window s k (e x) = v}.ncard = if v < 2 ^ (w - s) then 2 ^ s else 0 := by
  split_ifs with hv
  · simp only [window_outside e hs hout]
    rw [ncard_window e (by omega) hv, Nat.sub_sub_self hs]
  · have hempty : {x | window s k (e x) = v} = ∅ := by
      ext x
      have hlt := window_lt (k := k) e hs x
      simp only [Set.mem_ofPred_eq, Set.mem_empty_iff_false, iff_false]
      omega
    rw [hempty, Set.ncard_empty]

/-- The slots share the keys equally exactly if the window lies inside the bits. -/
theorem balanced_iff (hs : s ≤ w) (hk : k ≤ w) :
    (∀ v < 2 ^ k, {x | window s k (e x) = v}.ncard = 2 ^ w / 2 ^ k) ↔ s + k ≤ w := by
  rw [Nat.pow_div hk (by decide)]
  constructor
  · intro h
    by_contra hout
    have hslot : 2 ^ (w - s) < 2 ^ k := Nat.pow_lt_pow_right (by decide) (by omega)
    have hshare := h (2 ^ (w - s)) hslot
    rw [ncard_window_outside e hs (by omega), if_neg (Nat.lt_irrefl _)] at hshare
    have hpos := Nat.two_pow_pos (w - k)
    omega
  · intro hsk v hv
    exact ncard_window e hsk hv

end Keys

end BitWindow
