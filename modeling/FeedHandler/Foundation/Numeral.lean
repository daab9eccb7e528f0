import Mathlib.Algebra.Ring.Nat
import Mathlib.Data.List.TakeWhile

/-!
# Decimal numerals

A numeral is an optional sign and at least one digit.  A text may be a numeral as a whole (`value`), or start with one
(`startValue`); the printed form of an integer is the numeral of it (`value_toString`).
-/

namespace Numeral

/-- An optional sign: whether it is `-`, and what follows. -/
def sign : List Char → Bool × List Char
  | '-' :: s => (true, s)
  | '+' :: s => (false, s)
  | s => (false, s)

def signed (negative : Bool) (n : Nat) : Int := if negative then -n else n

/-- The value of a text that is a numeral from its first character to its last. -/
def value (s : List Char) : Option Int :=
  let (negative, digits) := sign s
  if digits ≠ [] ∧ digits.all Char.isDigit = true then
    some (signed negative (Nat.ofDigitChars 10 digits 0))
  else
    none

/-- The value of the numeral that a text starts with; zero if it starts with none. -/
def startValue (s : List Char) : Int :=
  let (negative, rest) := sign s
  signed negative (Nat.ofDigitChars 10 (rest.takeWhile Char.isDigit) 0)

theorem value_eq_some {s : List Char} {v : Int} :
    value s = some v ↔ (sign s).2 ≠ [] ∧ (sign s).2.all Char.isDigit = true ∧
      v = signed (sign s).1 (Nat.ofDigitChars 10 (sign s).2 0) := by
  unfold value
  dsimp only
  split
  · rename_i h
    rw [Option.some.injEq]
    exact ⟨fun hv => ⟨h.1, h.2, hv.symm⟩, fun hv => hv.2.2.symm⟩
  · rename_i h
    exact iff_of_false (by simp) fun hv => h ⟨hv.1, hv.2.1⟩

theorem takeWhile_of_all {p : Char → Bool} {s : List Char} (h : s.all p = true) : s.takeWhile p = s :=
  List.takeWhile_eq_self_iff.2 (List.all_eq_true.1 h)

/-- A numeral is all of the numeral it starts with. -/
theorem startValue_of_value {s : List Char} {v : Int} (h : value s = some v) : startValue s = v := by
  obtain ⟨-, hdigits, rfl⟩ := value_eq_some.1 h
  unfold startValue
  dsimp only
  rw [takeWhile_of_all hdigits]

/-- What holds of the ten digits. -/
theorem of_isDigit {c : Char} (h : c.isDigit = true) {P : Char → Prop} (hall : ∀ n : Fin 10, P (Char.ofNat (48 + n))) :
    P c := by
  rw [Char.isDigit_iff_toNat] at h
  have hzero : '0'.toNat = 48 := rfl
  have hnine : '9'.toNat = 57 := rfl
  have hc := hall ⟨c.toNat - 48, by omega⟩
  have hofNat : Char.ofNat (48 + (c.toNat - 48)) = c := by
    rw [Nat.add_sub_cancel' (by omega), Char.ofNat_toNat]
  rwa [hofNat] at hc

/-- A digit is no sign. -/
theorem sign_of_isDigit {c : Char} (h : c.isDigit = true) (s : List Char) : sign (c :: s) = (false, c :: s) := by
  unfold sign
  split
  · rename_i hsign
    rw [(List.cons.inj hsign).1] at h
    exact absurd h (by decide)
  · rename_i hsign
    rw [(List.cons.inj hsign).1] at h
    exact absurd h (by decide)
  · rfl

/-- A text of digits has no sign. -/
theorem sign_of_all {s : List Char} (h : s.all Char.isDigit = true) : sign s = (false, s) := by
  cases s with
  | nil => rfl
  | cons c s =>
    rw [List.all_cons, Bool.and_eq_true] at h
    exact sign_of_isDigit h.1 s

/-- The first character of a numeral. -/
theorem head_of_value {c : Char} {s : List Char} {v : Int} (h : value (c :: s) = some v) :
    c = '-' ∨ c = '+' ∨ c.isDigit = true := by
  obtain ⟨-, hdigits, -⟩ := value_eq_some.1 h
  unfold sign at hdigits
  split at hdigits
  · rename_i hsign
    exact Or.inl (List.cons.inj hsign).1
  · rename_i hsign
    exact Or.inr (Or.inl (List.cons.inj hsign).1)
  · rw [List.all_cons, Bool.and_eq_true] at hdigits
    exact Or.inr (Or.inr hdigits.1)

theorem all_isDigit_toDigits (n : Nat) : (Nat.toDigits 10 n).all Char.isDigit = true :=
  List.all_eq_true.2 fun _ hc => Nat.isDigit_of_mem_toDigits (by decide) (by decide) hc

theorem value_toDigits (n : Nat) : value (Nat.toDigits 10 n) = some (n : Int) := by
  have hsign := sign_of_all (all_isDigit_toDigits n)
  rw [value_eq_some, hsign]
  exact ⟨Nat.toDigits_ne_nil, all_isDigit_toDigits n, by rw [Nat.ofDigitChars_ten_toDigits]; rfl⟩

/-- The printed form of a positive number has no leading zero. -/
theorem exists_toDigits_eq_cons {n : Nat} (h : 0 < n) :
    ∃ c s, Nat.toDigits 10 n = c :: s ∧ c ≠ '0' ∧ c.isDigit = true := by
  induction n using Nat.strongRecOn with
  | ind n ih =>
    by_cases hlt : n < 10
    · have hdigit : ∀ d : Fin 10, d.val ≠ 0 → Nat.digitChar d ≠ '0' ∧ (Nat.digitChar d).isDigit = true := by decide
      obtain ⟨hzero, hdigit⟩ := hdigit ⟨n, hlt⟩ (Nat.ne_of_gt h)
      exact ⟨_, [], Nat.toDigits_of_lt_base hlt, hzero, hdigit⟩
    · obtain ⟨c, s, hs, hc⟩ := ih (n / 10) (by omega) (by omega)
      exact ⟨c, s ++ [Nat.digitChar (n % 10)], by rw [Nat.toDigits_of_base_le (by decide) (by omega), hs]; rfl, hc⟩

/-- The last `w` digits of a number. -/
def fixedDigits : Nat → Nat → List Char
  | 0, _ => []
  | w + 1, n => fixedDigits w (n / 10) ++ [Nat.digitChar (n % 10)]

@[simp] theorem length_fixedDigits (w n : Nat) : (fixedDigits w n).length = w := by
  induction w generalizing n with
  | zero => rfl
  | succ w ih => rw [fixedDigits, List.length_append, ih, List.length_singleton]

theorem all_isDigit_fixedDigits (w n : Nat) : (fixedDigits w n).all Char.isDigit = true := by
  induction w generalizing n with
  | zero => rfl
  | succ w ih =>
    have hdigit : ∀ d : Fin 10, (Nat.digitChar d).isDigit = true := by decide
    rw [fixedDigits, List.all_append, ih]
    simpa using hdigit ⟨n % 10, Nat.mod_lt n (by decide)⟩

/-- Digits that continue a number. -/
theorem ofDigitChars_fixedDigits (w n init : Nat) :
    Nat.ofDigitChars 10 (fixedDigits w n) init = 10 ^ w * init + n % 10 ^ w := by
  induction w generalizing n with
  | zero => simp [fixedDigits, Nat.mod_one]
  | succ w ih =>
    rw [fixedDigits, Nat.ofDigitChars_append, ih,
      Nat.ofDigitChars_cons_digitChar_of_lt_ten (Nat.mod_lt n (by decide)), Nat.ofDigitChars_nil, Nat.pow_succ',
      Nat.mod_mul, Nat.mul_add, Nat.mul_assoc]
    omega

theorem toList_toString (n : Nat) : (toString n).toList = Nat.toDigits 10 n := by simp

theorem toList_toString_negSucc (n : Nat) : (toString (Int.negSucc n)).toList = '-' :: Nat.toDigits 10 (n + 1) := by
  show ("-" ++ toString (n + 1)).toList = _
  rw [String.toList_append, toList_toString]
  rfl

/-- The characters of a printed integer. -/
theorem all_toString (i : Int) : (toString i).toList.all (fun c => c = '-' || c.isDigit) = true := by
  have hdigits (n : Nat) : (Nat.toDigits 10 n).all (fun c => c = '-' || c.isDigit) = true := by
    rw [List.all_eq_true]
    intro c hc
    rw [List.all_eq_true.1 (all_isDigit_toDigits n) c hc, Bool.or_true]
  cases i with
  | ofNat n =>
    have hprinted : (toString (Int.ofNat n)).toList = Nat.toDigits 10 n := toList_toString n
    rw [hprinted]
    exact hdigits n
  | negSucc n =>
    rw [toList_toString_negSucc, List.all_cons, hdigits]
    rfl

/-- An integer is read back as it was printed. -/
theorem value_toString (i : Int) : value (toString i).toList = some i := by
  cases i with
  | ofNat n =>
    have hprinted : (toString (Int.ofNat n)).toList = Nat.toDigits 10 n := toList_toString n
    rw [hprinted]
    exact value_toDigits n
  | negSucc n =>
    rw [toList_toString_negSucc, value_eq_some]
    refine ⟨Nat.toDigits_ne_nil, all_isDigit_toDigits _, ?_⟩
    show Int.negSucc n = signed true (Nat.ofDigitChars 10 (Nat.toDigits 10 (n + 1)) 0)
    rw [Nat.ofDigitChars_ten_toDigits]
    rfl

end Numeral
