import Mathlib.Data.List.Basic

/-!
# Files of fixed-size records

A file is a list of bytes, read in records of `w` bytes each; what lies beyond its end reads as `zero`.  A file that
holds some records and then zeros (`encode records ++ List.replicate z zero`) gives each of them back
(`block_encode`), reads as zero after them (`block_zeros`), and becomes a file of one record more when that one is
written behind the last (`write_encode`).
-/

namespace RecordFile

variable {α : Type*} {w : Nat}

/-- The record at index `i`. -/
def block (w : Nat) (zero : α) (file : List α) (i : Nat) : Vector α w :=
  Vector.ofFn fun k => file.getD (i * w + k) zero

def encode (records : List (Vector α w)) : List α := records.flatMap (·.toList)

/-- The file with the bytes at `off` and behind replaced. -/
def write (file : List α) (off : Nat) (bytes : List α) : List α :=
  file.take off ++ bytes ++ file.drop (off + bytes.length)

/-- The file cut or filled up to `n` bytes. -/
def resize (zero : α) (file : List α) (n : Nat) : List α := file.take n ++ List.replicate (n - file.length) zero

/-- The record of which only the first `k` entries are stored. -/
def cut (zero : α) (r : Vector α w) (k : Nat) : Vector α w := Vector.ofFn fun i => if i < k then r.get i else zero

theorem encode_append (records records' : List (Vector α w)) :
    encode (records ++ records') = encode records ++ encode records' := List.flatMap_append

@[simp] theorem encode_singleton (r : Vector α w) : encode [r] = r.toList := by simp [encode]

@[simp] theorem length_encode (records : List (Vector α w)) : (encode records).length = records.length * w := by
  induction records with
  | nil => simp [encode]
  | cons r records ih =>
    rw [show encode (r :: records) = r.toList ++ encode records from rfl]
    rw [List.length_append, ih, List.length_cons, Vector.length_toList, Nat.add_mul, Nat.one_mul, Nat.add_comm]

/-- A file that starts with a record. -/
theorem block_append_zero (zero : α) (r : Vector α w) (rest : List α) : block w zero (r.toList ++ rest) 0 = r := by
  apply Vector.ext
  intro k hk
  have hlt : k < r.toList.length := by
    rw [Vector.length_toList]
    exact hk
  simp [block, List.getElem?_append_left hlt, hk]

theorem block_append_succ (zero : α) (r : Vector α w) (rest : List α) (i : Nat) :
    block w zero (r.toList ++ rest) (i + 1) = block w zero rest i := by
  apply Vector.ext
  intro k hk
  have hle : r.toList.length ≤ (i + 1) * w + k := by
    rw [Vector.length_toList, Nat.add_mul]
    omega
  have hsub : (i + 1) * w + k - w = i * w + k := by
    rw [Nat.add_mul]
    omega
  simp [block, List.getElem?_append_right hle, hsub]

/-- The records of a file are read back. -/
theorem block_encode (zero : α) {records : List (Vector α w)} {i : Nat} {r : Vector α w} (h : records[i]? = some r)
    (rest : List α) : block w zero (encode records ++ rest) i = r := by
  induction records generalizing i with
  | nil => cases h
  | cons x records ih =>
    rw [show encode (x :: records) = x.toList ++ encode records from rfl, List.append_assoc]
    cases i with
    | zero =>
      obtain rfl : x = r := by simpa using h
      exact block_append_zero ..
    | succ i =>
      rw [block_append_succ]
      exact ih (by simpa using h)

/-- Behind the records of a file there are zeros only. -/
theorem block_zeros (zero : α) (records : List (Vector α w)) (z : Nat) {i : Nat} (h : records.length ≤ i) :
    block w zero (encode records ++ List.replicate z zero) i = Vector.replicate w zero := by
  apply Vector.ext
  intro k hk
  have hle : (encode records).length ≤ i * w + k := by
    have hmul := Nat.mul_le_mul_right w h
    rw [length_encode]
    omega
  simp only [block, Vector.getElem_ofFn, List.getD_eq_getElem?_getD, List.getElem?_append_right hle,
    List.getElem?_replicate, Vector.getElem_replicate]
  split <;> rfl

/-- A record written behind the last one. -/
theorem write_encode (zero : α) (records : List (Vector α w)) (r : Vector α w) (z : Nat) :
    write (encode records ++ List.replicate (w + z) zero) (records.length * w) r.toList =
      encode (records ++ [r]) ++ List.replicate z zero := by
  have hlen : (encode records).length = records.length * w := length_encode records
  unfold write
  rw [List.take_left' hlen, Vector.length_toList, ← List.drop_drop, List.drop_left' hlen, List.drop_replicate,
    Nat.add_sub_cancel_left, encode_append, encode_singleton]

theorem toList_cut (zero : α) (r : Vector α w) (k : Nat) :
    (cut zero r k).toList = r.toList.take k ++ List.replicate (w - k) zero := by
  apply List.ext_getElem
  · simp
    omega
  · intro i hi hi'
    rw [List.getElem_append]
    simp only [cut, Vector.getElem_toList, Vector.getElem_ofFn, List.getElem_replicate, List.length_take,
      Vector.length_toList, List.getElem_take]
    rw [Vector.length_toList] at hi
    split
    · rw [dif_pos (by omega)]
      rfl
    · rw [dif_neg (by omega)]

/-- A record of which only the first entries are written behind the last one. -/
theorem write_take_encode (zero : α) (records : List (Vector α w)) (r : Vector α w) (k z : Nat) :
    write (encode records ++ List.replicate (w + z) zero) (records.length * w) (r.toList.take k) =
      encode (records ++ [cut zero r k]) ++ List.replicate z zero := by
  have hlen : (encode records).length = records.length * w := length_encode records
  have hzeros : w + z - min k w = (w - k) + z := by omega
  unfold write
  rw [List.take_left' hlen, List.length_take, Vector.length_toList, ← List.drop_drop, List.drop_left' hlen,
    List.drop_replicate, hzeros, encode_append, encode_singleton, toList_cut, ← List.replicate_append_replicate]
  simp

/-- Filling up a file that ends in zeros. -/
theorem resize_encode (zero : α) (records : List (Vector α w)) (z n : Nat) (h : records.length * w + z ≤ n) :
    resize zero (encode records ++ List.replicate z zero) n =
      encode records ++ List.replicate (n - records.length * w) zero := by
  have hlen : (encode records ++ List.replicate z zero).length = records.length * w + z := by simp
  have hsum : z + (n - (records.length * w + z)) = n - records.length * w := by omega
  unfold resize
  rw [List.take_of_length_le (by omega), hlen, List.append_assoc, List.replicate_append_replicate, hsum]

end RecordFile
