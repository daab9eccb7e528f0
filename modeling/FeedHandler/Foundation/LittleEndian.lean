import Mathlib.Data.Nat.Digits.Defs

/-!
# Little-endian byte strings

`decode` is the value of a byte string, least significant byte first; `encode n v` writes the low `n` bytes of
`v`.  Writing and reading back is reduction modulo `256^n`.
-/

namespace LittleEndian

def decode (bytes : List UInt8) : Nat := Nat.ofDigits 256 (bytes.map UInt8.toNat)

def encode : Nat → Nat → List UInt8
  | 0, _ => []
  | n + 1, v => UInt8.ofNat v :: encode n (v / 256)

@[simp] theorem length_encode (n v : Nat) : (encode n v).length = n := by
  induction n generalizing v with
  | zero => rfl
  | succ n ih => simp [encode, ih]

/-- Reading back what was written: the value modulo the width. -/
theorem decode_encode (n v : Nat) : decode (encode n v) = v % 256 ^ n := by
  induction n generalizing v with
  | zero => simp [encode, decode, Nat.mod_one]
  | succ n ih =>
    have ih' := ih (v / 256)
    simp only [decode] at ih'
    simp only [encode, decode, List.map_cons, Nat.ofDigits_cons, ih', UInt8.toNat_ofNat']
    rw [pow_succ' 256 n, Nat.mod_mul]

end LittleEndian
