import FeedHandler.Foundation.Int32
import FeedHandler.Foundation.Numeral
import FeedHandler.StreamServer.Command
import Mathlib.Algebra.Order.Floor.Defs
import Mathlib.Data.Rat.Floor

/-!
# Numbers read by the C library

`strtol` and `strtoull` (of `StreamServer.Command`) skip white space, read as much of a numeral as there is, and
saturate.  `strtod` and `llround` are taken in exact arithmetic.
-/

namespace FeedHandler

open Numeral

namespace Cstdlib

/-- `isspace(c)` in the C locale -/
def isspace (c : Char) : Bool := c = ' ' || ('\t'.toNat ≤ c.toNat && c.toNat ≤ '\r'.toNat)

/-- `strtol(s, nullptr, 10)`, for a `long` of 64 bits -/
def strtol (s : List Char) : Int64 := Int64.ofIntClamp (startValue (s.dropWhile isspace))

/-- `static_cast<int32_t>(strtol(s, nullptr, 10))` -/
def strtolInt32 (s : List Char) : Int32 := (strtol s).toInt32

/-! ### Decimal fractions -/

/-- `c` as a digit in base 16 -/
def hexDigitValue (c : Char) : Nat :=
  if c.isDigit then c.toNat - '0'.toNat else c.toLower.toNat - 'a'.toNat + 10

def isHexDigit (c : Char) : Bool := c.isDigit || ('a'.toNat ≤ c.toLower.toNat && c.toLower.toNat ≤ 'f'.toNat)

/-- Digits with at most one point between them: their value, and what follows; `none` if there is no digit. -/
def mantissa (isDigit : Char → Bool) (digitValue : Char → Nat) (base : Nat) (s : List Char) : Option (ℚ × List Char) :=
  let whole := s.takeWhile isDigit
  let rest := s.dropWhile isDigit
  let (fraction, rest) :=
    match rest with
    | '.' :: rest => (rest.takeWhile isDigit, rest.dropWhile isDigit)
    | rest => ([], rest)
  if whole = [] ∧ fraction = [] then
    none
  else
    some (((whole ++ fraction).foldl (fun n c => base * n + digitValue c) 0 : Nat) / (base : ℚ) ^ fraction.length, rest)

/-- The exponent that a letter, an optional sign and digits give; zero if they are not there. -/
def exponent (letter : Char) : List Char → Int
  | [] => 0
  | c :: s => if c.toLower = letter then startValue s else 0

/-- A hexadecimal number behind its `0x`. -/
def hexadecimal : List Char → Option (ℚ × List Char)
  | '0' :: x :: s => if x.toLower = 'x' then mantissa isHexDigit hexDigitValue 16 s else none
  | _ => none

/-- `strtod(s, nullptr)`; `none` stands for a value that is infinite or not a number. -/
def strtod (s : List Char) : Option ℚ :=
  let (negative, s) := sign (s.dropWhile isspace)
  let word := s.map Char.toLower
  if "inf".toList.isPrefixOf word || "nan".toList.isPrefixOf word then
    none
  else
    let magnitude : ℚ :=
      match hexadecimal s with
      | some (m, rest) => m * 2 ^ exponent 'p' rest
      | none =>
        match mantissa Char.isDigit (fun c => c.toNat - '0'.toNat) 10 s with
        | some (m, rest) => m * 10 ^ exponent 'e' rest
        | none => 0
    some (if negative then -magnitude else magnitude)

/-- `llround(x)`: a half goes away from zero. -/
def llround (x : ℚ) : Int := if 0 ≤ x then ⌊x + 1 / 2⌋ else -⌊-x + 1 / 2⌋

/-- `llround(strtod(s, nullptr) * 100.0)`; `unspecified` stands for its value when the result is no `long long`. -/
def llroundHundredths (unspecified : List Char → Int64) (s : List Char) : Int64 :=
  match strtod s with
  | none => unspecified s
  | some x =>
    if Int64.minValue.toInt ≤ llround (x * 100) ∧ llround (x * 100) ≤ Int64.maxValue.toInt then
      Int64.ofInt (llround (x * 100))
    else
      unspecified s

example : llroundHundredths (fun _ => 0) "225.505".toList = 22551 := by decide +kernel

example : llroundHundredths (fun _ => 0) "-1.5e1x".toList = -1500 := by decide +kernel

/-! ### Numerals -/

theorem isspace_of_isDigit {c : Char} (h : c.isDigit = true) : isspace c = false :=
  of_isDigit h (P := fun c => isspace c = false) (by decide)

theorem dropWhile_isspace_of_value {s : List Char} {v : Int} (h : value s = some v) : s.dropWhile isspace = s := by
  cases s with
  | nil => rfl
  | cons c s =>
    rw [List.dropWhile_cons_of_neg]
    rcases head_of_value h with rfl | rfl | hdigit
    · decide
    · decide
    · simp [isspace_of_isDigit hdigit]

theorem strtol_of_value {s : List Char} {v : Int} (h : value s = some v) : strtol s = Int64.ofIntClamp v := by
  rw [strtol, dropWhile_isspace_of_value h, startValue_of_value h]

/-- A numeral is narrowed to its value exactly when the value fits. -/
theorem strtolInt32_eq_iff {s : List Char} {v : Int} (h : value s = some v) :
    (strtolInt32 s).toInt = v ↔ Int32.InRange v := by
  unfold strtolInt32
  rw [strtol_of_value h]
  constructor
  · intro hv
    rw [← hv]
    exact ⟨Int32.le_toInt _, Int32.toInt_lt _⟩
  · rintro ⟨hlower, hupper⟩
    rw [Int64.toInt32_ofIntClamp (by omega) (by omega), Int32.toInt_ofInt_of_le hlower hupper]

/-! ### Fractions -/

theorem toLower_of_isDigit {c : Char} (h : c.isDigit = true) : c.toLower = c :=
  of_isDigit h (P := fun c => c.toLower = c) (by decide)

/-- A text of digits and points is no hexadecimal number. -/
theorem hexadecimal_eq_none {s : List Char} (h : s.all (fun c => c.isDigit || c = '.') = true) :
    hexadecimal s = none := by
  unfold hexadecimal
  split
  · rename_i x s
    rw [if_neg]
    intro hx
    simp only [List.all_cons, Bool.and_eq_true, Bool.or_eq_true, decide_eq_true_eq] at h
    rcases h.2.1 with hdigit | rfl
    · rw [toLower_of_isDigit hdigit] at hx
      rw [hx] at hdigit
      revert hdigit
      decide
    · revert hx
      decide
  · rfl

/-- Digits, a point and digits. -/
theorem mantissa_point {whole fraction : List Char} (hne : whole ≠ []) (hwhole : whole.all Char.isDigit = true)
    (hfraction : fraction.all Char.isDigit = true) :
    mantissa Char.isDigit (fun c => c.toNat - '0'.toNat) 10 (whole ++ '.' :: fraction) =
      some (((Nat.ofDigitChars 10 (whole ++ fraction) 0 : ℕ) : ℚ) / 10 ^ fraction.length, []) := by
  have htake : (whole ++ '.' :: fraction).takeWhile Char.isDigit = whole := by
    rw [List.takeWhile_append_of_pos (List.all_eq_true.1 hwhole), List.takeWhile_cons_of_neg (by decide),
      List.append_nil]
  have hdrop : (whole ++ '.' :: fraction).dropWhile Char.isDigit = '.' :: fraction := by
    rw [List.dropWhile_append_of_pos (List.all_eq_true.1 hwhole), List.dropWhile_cons_of_neg (by decide)]
  have hall : fraction.dropWhile Char.isDigit = [] := List.dropWhile_eq_nil_iff.2 (List.all_eq_true.1 hfraction)
  unfold mantissa
  dsimp only
  rw [htake, hdrop]
  show (if whole = [] ∧ fraction.takeWhile Char.isDigit = [] then none
    else some (((Nat.ofDigitChars 10 (whole ++ fraction.takeWhile Char.isDigit) 0 : ℕ) : ℚ) /
      ((10 : ℕ) : ℚ) ^ (fraction.takeWhile Char.isDigit).length, fraction.dropWhile Char.isDigit)) = _
  rw [takeWhile_of_all hfraction, hall, if_neg (by simp [hne])]
  rfl

/-- A decimal fraction is read as its value. -/
theorem strtod_point (negative : Bool) {whole fraction : List Char} (hne : whole ≠ [])
    (hwhole : whole.all Char.isDigit = true) (hfraction : fraction.all Char.isDigit = true) :
    strtod ((if negative then ['-'] else []) ++ (whole ++ '.' :: fraction)) =
      some ((signed negative (Nat.ofDigitChars 10 (whole ++ fraction) 0) : ℚ) / 10 ^ fraction.length) := by
  have hmantissa := mantissa_point hne hwhole hfraction
  have hhexadecimal : hexadecimal (whole ++ '.' :: fraction) = none := by
    apply hexadecimal_eq_none
    rw [List.all_eq_true] at hwhole hfraction ⊢
    intro c hc
    rw [List.mem_append, List.mem_cons] at hc
    rcases hc with hc | rfl | hc
    · rw [hwhole c hc, Bool.true_or]
    · decide
    · rw [hfraction c hc, Bool.true_or]
  -- behind the sign comes a digit: no white space, and no word
  obtain ⟨c, whole, rfl⟩ := List.exists_cons_of_ne_nil hne
  have hc : c.isDigit = true := by
    rw [List.all_cons, Bool.and_eq_true] at hwhole
    exact hwhole.1
  have hsign : sign (((if negative then ['-'] else []) ++ (c :: whole ++ '.' :: fraction)).dropWhile isspace) =
      (negative, c :: whole ++ '.' :: fraction) := by
    cases negative with
    | true => rfl
    | false =>
      rw [if_neg (by decide), List.nil_append, List.cons_append,
        List.dropWhile_cons_of_neg (by simp [isspace_of_isDigit hc]), sign_of_isDigit hc]
  have hword : ("inf".toList.isPrefixOf ((c :: whole ++ '.' :: fraction).map Char.toLower) ||
      "nan".toList.isPrefixOf ((c :: whole ++ '.' :: fraction).map Char.toLower)) = false := by
    rw [List.cons_append, List.map_cons, toLower_of_isDigit hc]
    have hi : c ≠ 'i' := of_isDigit hc (P := fun c => c ≠ 'i') (by decide)
    have hn : c ≠ 'n' := of_isDigit hc (P := fun c => c ≠ 'n') (by decide)
    simp [List.isPrefixOf, hi.symm, hn.symm]
  unfold strtod
  rw [hsign]
  dsimp only
  rw [hword, hhexadecimal, hmantissa, if_neg (by decide)]
  dsimp only
  have hexponent : exponent 'e' [] = 0 := rfl
  rw [hexponent, zpow_zero, mul_one]
  cases negative with
  | true => simp [signed, neg_div]
  | false => simp [signed]

theorem llround_intCast (i : Int) : llround i = i := by
  have hfloor (j : Int) : ⌊(j : ℚ) + 1 / 2⌋ = j := by
    rw [Int.floor_intCast_add]
    norm_num
  unfold llround
  split
  · exact hfloor i
  · have hneg := hfloor (-i)
    rw [Int.cast_neg] at hneg
    rw [hneg, neg_neg]

/-- A number of hundredths that is a `long long` is read as it is written. -/
theorem llroundHundredths_of_strtod (unspecified : List Char → Int64) {s : List Char} {c : Int}
    (h : strtod s = some ((c : ℚ) / 100)) :
    llroundHundredths unspecified s =
      if Int64.minValue.toInt ≤ c ∧ c ≤ Int64.maxValue.toInt then Int64.ofInt c else unspecified s := by
  unfold llroundHundredths
  rw [h]
  dsimp only
  rw [div_mul_cancel₀ _ (by norm_num), llround_intCast]

end Cstdlib

namespace StreamServer

theorem strtoull_eq (s : List Char) :
    strtoull s =
      let (negative, rest) := sign (s.dropWhile Cstdlib.isspace)
      let n := Nat.ofDigitChars 10 (rest.takeWhile Char.isDigit) 0
      if n < UInt64.size then
        if negative then -UInt64.ofNat n else UInt64.ofNat n
      else
        0xFFFFFFFFFFFFFFFF := rfl

/-- A numeral is reduced modulo `2 ^ 64`, as long as its digits fit. -/
theorem strtoull_of_value {s : List Char} {v : Int} (h : value s = some v) :
    strtoull s = if v.natAbs < UInt64.size then UInt64.ofInt v else 0xFFFFFFFFFFFFFFFF := by
  have hdrop := Cstdlib.dropWhile_isspace_of_value h
  obtain ⟨-, hdigits, rfl⟩ := value_eq_some.1 h
  rw [strtoull_eq, hdrop]
  dsimp only
  rw [takeWhile_of_all hdigits]
  generalize Nat.ofDigitChars 10 (sign s).2 0 = n
  have hofNat : UInt64.ofInt n = UInt64.ofNat n := by
    apply UInt64.toNat_inj.1
    rw [UInt64.ofInt, UInt64.toNat_ofNat', UInt64.toNat_ofNat']
    omega
  cases (sign s).1 with
  | false =>
    have hsigned : signed false n = n := rfl
    rw [hsigned, Int.natAbs_natCast, hofNat]
    rfl
  | true =>
    have hsigned : signed true n = -n := rfl
    rw [hsigned, Int.natAbs_neg, Int.natAbs_natCast, UInt64.ofInt_neg, hofNat]
    rfl

theorem toNat_strtoull {s : List Char} {v : Int} (h : value s = some v) :
    ((strtoull s).toNat : Int) = if v.natAbs < UInt64.size then v % UInt64.size else UInt64.size - 1 := by
  have hsize : UInt64.size = 2 ^ 64 := rfl
  rw [strtoull_of_value h]
  split
  · rw [UInt64.ofInt, UInt64.toNat_ofNat', hsize]
    omega
  · rfl

/-- A numeral is read as its value exactly when the value fits. -/
theorem strtoull_eq_iff {s : List Char} {v : Int} (h : value s = some v) :
    ((strtoull s).toNat : Int) = v ↔ 0 ≤ v ∧ v < UInt64.size := by
  have hsize : UInt64.size = 2 ^ 64 := rfl
  rw [toNat_strtoull h, hsize]
  split
  · omega
  · omega

end StreamServer

end FeedHandler
