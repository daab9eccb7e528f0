import FeedHandler.Foundation.Binary64
import FeedHandler.Foundation.Numeral
import Mathlib.Algebra.Order.Field.Rat
import Mathlib.Algebra.Order.Group.Unbundled.Int
import Mathlib.Data.Fintype.Basic
import Mathlib.Data.List.Forall2
import Mathlib.Tactic.FinCases

/-!
# JSON texts

The values of JSON, and a parser of the texts that stand for them.  A string is the list of its characters; a number
is the one of double precision that is nearest to the decimal in the text.  `Reads text v` says that the parser takes
`text` for `v` wherever the text stands, and each construct of the grammar has a rule that makes a longer text of
shorter ones (`Reads.elements`, `Reads.members`, …), so that what a program prints piece by piece is read back piece by
piece (`parse_of_reads`).
-/

inductive Json where
  | null
  | bool (b : Bool)
  | num (value : ℚ)
  | str (s : List Char)
  | arr (values : List Json)
  | obj (fields : List (List Char × Json))

namespace Json

/-! ### The parser -/

def isSpace (c : Char) : Bool := c = ' ' || c = '\t' || c = '\n' || c = '\r'

def skipSpaces (s : List Char) : List Char := s.dropWhile isSpace

/-- The digits before the point: no digit follows a leading zero. -/
def wholePart : List Char → Option (Nat × List Char)
  | [] => none
  | c :: s =>
    if c = '0' then some (0, s)
    else if c.isDigit then
      some (Nat.ofDigitChars 10 ((c :: s).takeWhile Char.isDigit) 0, (c :: s).dropWhile Char.isDigit)
    else none

/-- A point with the digits behind it, which may be absent. -/
def fractionPart : List Char → Option (List Char × List Char)
  | '.' :: s =>
    if s.takeWhile Char.isDigit = [] then none else some (s.takeWhile Char.isDigit, s.dropWhile Char.isDigit)
  | s => some ([], s)

/-- An exponent, which may be absent. -/
def exponentPart : List Char → Option (Int × List Char)
  | [] => some (0, [])
  | c :: s =>
    if c = 'e' ∨ c = 'E' then
      let (negative, rest) := Numeral.sign s
      if rest.takeWhile Char.isDigit = [] then none
      else
        some (Numeral.signed negative (Nat.ofDigitChars 10 (rest.takeWhile Char.isDigit) 0),
          rest.dropWhile Char.isDigit)
    else some (0, c :: s)

def minusPart : List Char → Bool × List Char
  | '-' :: s => (true, s)
  | s => (false, s)

def parseNumber (s : List Char) : Option (ℚ × List Char) := do
  let (negative, s) := minusPart s
  let (whole, s) ← wholePart s
  let (digits, s) ← fractionPart s
  let (exponent, s) ← exponentPart s
  let magnitude : ℚ := (Nat.ofDigitChars 10 digits whole : ℚ) / 10 ^ digits.length * 10 ^ exponent
  some (Binary64.nearest (if negative then -magnitude else magnitude), s)

def hexDigitValue (c : Char) : Option Nat :=
  if c.isDigit then some (c.toNat - '0'.toNat)
  else if 'a' ≤ c ∧ c ≤ 'f' then some (c.toNat - 'a'.toNat + 10)
  else if 'A' ≤ c ∧ c ≤ 'F' then some (c.toNat - 'A'.toNat + 10)
  else none

/-- `\u` and four digits; half of a surrogate pair is no character and is refused. -/
def unicodeEscape (a b c d : Char) : Option Char := do
  let n := 4096 * (← hexDigitValue a) + 256 * (← hexDigitValue b) + 16 * (← hexDigitValue c) + (← hexDigitValue d)
  if n.isValidChar then some (Char.ofNat n) else none

def simpleEscape (c : Char) : Option Char :=
  if c = '"' ∨ c = '\\' ∨ c = '/' then some c
  else if c = 'b' then some '\x08'
  else if c = 'f' then some '\x0c'
  else if c = 'n' then some '\n'
  else if c = 'r' then some '\r'
  else if c = 't' then some '\t'
  else none

/-- The rest of a string behind its opening quote. -/
def parseString : List Char → Option (List Char × List Char)
  | [] => none
  | '"' :: s => some ([], s)
  | '\\' :: 'u' :: a :: b :: c :: d :: s => do
    let e ← unicodeEscape a b c d
    let (t, rest) ← parseString s
    some (e :: t, rest)
  | '\\' :: c :: s => do
    let e ← simpleEscape c
    let (t, rest) ← parseString s
    some (e :: t, rest)
  | c :: s =>
    if c = '\\' ∨ c.toNat < 32 then none
    else do
      let (t, rest) ← parseString s
      some (c :: t, rest)

/-- `"key":` -/
def parseKey (s : List Char) : Option (List Char × List Char) :=
  match skipSpaces s with
  | '"' :: s => do
    let (key, s) ← parseString s
    match skipSpaces s with
    | ':' :: s => some (key, s)
    | _ => none
  | _ => none

mutual

def parseValue : Nat → List Char → Option (Json × List Char)
  | 0, _ => none
  | fuel + 1, s =>
    match skipSpaces s with
    | '\x7b' :: s =>
      match skipSpaces s with
      | '\x7d' :: s => some (.obj [], s)
      | _ => (parseMembers fuel s).map fun r => (.obj r.1, r.2)
    | '[' :: s =>
      match skipSpaces s with
      | ']' :: s => some (.arr [], s)
      | _ => (parseElements fuel s).map fun r => (.arr r.1, r.2)
    | '"' :: s => (parseString s).map fun r => (.str r.1, r.2)
    | 't' :: 'r' :: 'u' :: 'e' :: s => some (.bool true, s)
    | 'f' :: 'a' :: 'l' :: 's' :: 'e' :: s => some (.bool false, s)
    | 'n' :: 'u' :: 'l' :: 'l' :: s => some (.null, s)
    | s => (parseNumber s).map fun r => (.num r.1, r.2)

/-- The elements of an array that is not empty, up to its bracket. -/
def parseElements : Nat → List Char → Option (List Json × List Char)
  | 0, _ => none
  | fuel + 1, s => do
    let (v, s) ← parseValue fuel s
    match skipSpaces s with
    | ',' :: s => (parseElements fuel s).map fun r => (v :: r.1, r.2)
    | ']' :: s => some ([v], s)
    | _ => none

/-- The members of an object that is not empty, up to its brace. -/
def parseMembers : Nat → List Char → Option (List (List Char × Json) × List Char)
  | 0, _ => none
  | fuel + 1, s => do
    let (key, s) ← parseKey s
    let (v, s) ← parseValue fuel s
    match skipSpaces s with
    | ',' :: s => (parseMembers fuel s).map fun r => ((key, v) :: r.1, r.2)
    | '\x7d' :: s => some ([(key, v)], s)
    | _ => none

end

/-- The value of a text. -/
def parse (s : List Char) : Option Json := do
  let (v, rest) ← parseValue (s.length + 1) s
  if skipSpaces rest = [] then some v else none

/-- The member of an object with a key, the last one if there are several. -/
def get? (key : List Char) : Json → Option Json
  | obj fields => fields.reverse.lookup key
  | _ => none

/-! ### Reading a text wherever it stands -/

/-- No number goes on here. -/
def Stops (rest : List Char) : Prop := ∀ c ∈ rest.head?, c.isDigit = false ∧ c ≠ '.' ∧ c ≠ 'e' ∧ c ≠ 'E'

/-- The text is read as this value, whatever follows it. -/
def Reads (text : List Char) (v : Json) : Prop :=
  ∀ rest, Stops rest → ∀ fuel, text.length ≤ fuel → parseValue fuel (text ++ rest) = some (v, rest)

theorem stops_nil : Stops [] := by
  intro c hc
  cases hc

theorem stops_cons {c : Char} (h : c ∈ [',', ']', '\x7d']) (rest : List Char) : Stops (c :: rest) := by
  intro d hd
  obtain rfl : c = d := Option.some.inj hd
  revert h
  simp only [List.mem_cons, List.not_mem_nil, or_false]
  rintro (rfl | rfl | rfl) <;> decide

theorem skipSpaces_cons {c : Char} (h : isSpace c = false) (s : List Char) : skipSpaces (c :: s) = c :: s :=
  List.dropWhile_cons_of_neg (by simp [h])

/-- The parser takes a whole text for what its reading says. -/
theorem parse_of_reads {text : List Char} {v : Json} (h : Reads text v) : parse text = some v := by
  have hread := h [] stops_nil (text.length + 1) (Nat.le_succ _)
  rw [List.append_nil] at hread
  unfold parse
  rw [hread]
  rfl

theorem reads_bool (b : Bool) : Reads (if b then "true" else "false").toList (.bool b) := by
  intro rest _ fuel hfuel
  cases b with
  | true =>
    obtain ⟨fuel, rfl⟩ := Nat.exists_eq_succ_of_ne_zero (Nat.ne_of_gt (Nat.lt_of_lt_of_le (by decide) hfuel))
    rfl
  | false =>
    obtain ⟨fuel, rfl⟩ := Nat.exists_eq_succ_of_ne_zero (Nat.ne_of_gt (Nat.lt_of_lt_of_le (by decide) hfuel))
    rfl

/-! ### Strings -/

/-- A character that stands for itself in a string. -/
def isPlain (c : Char) : Bool := c ≠ '"' ∧ c ≠ '\\' ∧ 32 ≤ c.toNat

def quoted (s : List Char) : List Char := '"' :: s ++ ['"']

theorem parseString_cons {c : Char} (h : isPlain c = true) (s : List Char) :
    parseString (c :: s) = (parseString s).bind fun r => some (c :: r.1, r.2) := by
  obtain ⟨hquote, hbackslash, hcontrol⟩ := of_decide_eq_true h
  rw [parseString.eq_def]
  split
  · rename_i he
    cases he
  · rename_i he
    exact absurd (List.cons.inj he).1 hquote
  · rename_i he
    exact absurd (List.cons.inj he).1 hbackslash
  · rename_i he
    exact absurd (List.cons.inj he).1 hbackslash
  · rename_i he
    obtain ⟨rfl, rfl⟩ := List.cons.inj he
    rw [if_neg (not_or.2 ⟨hbackslash, by omega⟩)]
    rfl

theorem parseString_quoted {s : List Char} (h : s.all isPlain = true) (rest : List Char) :
    parseString (s ++ '"' :: rest) = some (s, rest) := by
  induction s with
  | nil => rfl
  | cons c s ih =>
    rw [List.all_cons, Bool.and_eq_true] at h
    rw [List.cons_append, parseString_cons h.1, ih h.2]
    rfl

theorem reads_quoted {s : List Char} (h : s.all isPlain = true) : Reads (quoted s) (.str s) := by
  intro rest _ fuel hfuel
  obtain ⟨fuel, rfl⟩ := Nat.exists_eq_succ_of_ne_zero (Nat.ne_of_gt (Nat.lt_of_lt_of_le (Nat.succ_pos _) hfuel))
  have hsplit : quoted s ++ rest = '"' :: (s ++ '"' :: rest) := by simp [quoted]
  rw [hsplit, parseValue, skipSpaces_cons (by decide)]
  show (parseString (s ++ '"' :: rest)).map _ = _
  rw [parseString_quoted h]
  rfl

/-! ### Numbers -/

theorem takeWhile_isDigit_append {digits : List Char} (h : digits.all Char.isDigit = true) {rest : List Char}
    (hrest : ∀ c ∈ rest.head?, c.isDigit = false) : (digits ++ rest).takeWhile Char.isDigit = digits := by
  rw [List.takeWhile_append_of_pos (List.all_eq_true.1 h)]
  cases rest with
  | nil => simp
  | cons c rest => simp [hrest c rfl]

theorem dropWhile_isDigit_append {digits : List Char} (h : digits.all Char.isDigit = true) {rest : List Char}
    (hrest : ∀ c ∈ rest.head?, c.isDigit = false) : (digits ++ rest).dropWhile Char.isDigit = rest := by
  rw [List.dropWhile_append_of_pos (List.all_eq_true.1 h)]
  cases rest with
  | nil => simp
  | cons c rest => simp [hrest c rfl]

/-- The printed form of a number has no leading zero. -/
theorem wholePart_toDigits (n : Nat) {rest : List Char} (hrest : ∀ c ∈ rest.head?, c.isDigit = false) :
    wholePart (Nat.toDigits 10 n ++ rest) = some (n, rest) := by
  cases n with
  | zero => rfl
  | succ n =>
    obtain ⟨c, s, hs, hzero, hdigit⟩ := Numeral.exists_toDigits_eq_cons (Nat.succ_pos n)
    have hall := Numeral.all_isDigit_toDigits (n + 1)
    have htake := takeWhile_isDigit_append hall hrest
    have hdrop := dropWhile_isDigit_append hall hrest
    rw [hs] at htake hdrop ⊢
    rw [List.cons_append, wholePart, if_neg hzero, if_pos hdigit, ← List.cons_append, htake, hdrop, ← hs,
      Nat.ofDigitChars_ten_toDigits]

theorem exponentPart_stops {rest : List Char} (h : Stops rest) : exponentPart rest = some (0, rest) := by
  cases rest with
  | nil => rfl
  | cons c rest =>
    obtain ⟨-, -, he, hE⟩ := h c rfl
    exact if_neg (not_or.2 ⟨he, hE⟩)

theorem fractionPart_stops {rest : List Char} (h : Stops rest) : fractionPart rest = some ([], rest) := by
  cases rest with
  | nil => rfl
  | cons c rest =>
    obtain ⟨-, hpoint, -⟩ := h c rfl
    unfold fractionPart
    split
    · rename_i he
      exact absurd (List.cons.inj he).1 hpoint
    · rfl

theorem parseValue_number {c : Char} (h : c = '-' ∨ c.isDigit = true) (fuel : Nat) (s : List Char) :
    parseValue (fuel + 1) (c :: s) = (parseNumber (c :: s)).map fun r => (.num r.1, r.2) := by
  obtain rfl | h := h
  · rfl
  · refine Numeral.of_isDigit (P := fun c => parseValue (fuel + 1) (c :: s) = (parseNumber (c :: s)).map _) h ?_
    intro n
    fin_cases n <;> rfl

def signPart (negative : Bool) : List Char := if negative then ['-'] else []

theorem minusPart_signPart (negative : Bool) {c : Char} (h : c.isDigit = true) (s : List Char) :
    minusPart (signPart negative ++ c :: s) = (negative, c :: s) := by
  cases negative with
  | true => rfl
  | false =>
    unfold minusPart signPart
    split
    · rename_i he
      have hc : c = '-' := (List.cons.inj he).1
      rw [hc] at h
      exact absurd h (by decide)
    · rfl

/-- The value of digits before and behind a point. -/
def decimal (negative : Bool) (whole : Nat) (digits : List Char) : ℚ :=
  let magnitude : ℚ := (Nat.ofDigitChars 10 digits whole : ℚ) / 10 ^ digits.length
  if negative then -magnitude else magnitude

/-- A fraction with its point, or none. -/
def FractionText (tail digits : List Char) : Prop :=
  tail = [] ∧ digits = [] ∨ tail = '.' :: digits ∧ digits ≠ [] ∧ digits.all Char.isDigit = true

theorem fractionPart_append {tail digits rest : List Char} (h : FractionText tail digits) (hrest : Stops rest) :
    fractionPart (tail ++ rest) = some (digits, rest) ∧ ∀ c ∈ (tail ++ rest).head?, c.isDigit = false := by
  obtain ⟨rfl, rfl⟩ | ⟨rfl, hne, hall⟩ := h
  · exact ⟨fractionPart_stops hrest, fun c hc => (hrest c hc).1⟩
  · have hstop : ∀ c ∈ rest.head?, c.isDigit = false := fun c hc => (hrest c hc).1
    constructor
    · have htext : fractionPart ('.' :: digits ++ rest) =
          if (digits ++ rest).takeWhile Char.isDigit = [] then none
          else some ((digits ++ rest).takeWhile Char.isDigit, (digits ++ rest).dropWhile Char.isDigit) := rfl
      rw [htext, takeWhile_isDigit_append hall hstop, dropWhile_isDigit_append hall hstop, if_neg hne]
    · intro c hc
      obtain rfl : '.' = c := Option.some.inj hc
      decide

theorem parseNumber_decimal (negative : Bool) (whole : Nat) {tail digits rest : List Char}
    (htail : FractionText tail digits) (hrest : Stops rest) :
    parseNumber (signPart negative ++ (Nat.toDigits 10 whole ++ (tail ++ rest))) =
      some (Binary64.nearest (decimal negative whole digits), rest) := by
  obtain ⟨hfraction, hhead⟩ := fractionPart_append htail hrest
  have hminus : minusPart (signPart negative ++ (Nat.toDigits 10 whole ++ (tail ++ rest))) =
      (negative, Nat.toDigits 10 whole ++ (tail ++ rest)) := by
    obtain ⟨c, s, hs⟩ := List.exists_cons_of_ne_nil (Nat.toDigits_ne_nil (n := whole) (b := 10))
    have hdigit := List.all_eq_true.1 (Numeral.all_isDigit_toDigits whole) c (by rw [hs]; exact List.mem_cons_self)
    rw [hs]
    exact minusPart_signPart negative hdigit _
  unfold parseNumber
  rw [hminus]
  show (wholePart (Nat.toDigits 10 whole ++ (tail ++ rest))).bind _ = _
  rw [wholePart_toDigits whole hhead]
  show (fractionPart (tail ++ rest)).bind _ = _
  rw [hfraction]
  show (exponentPart rest).bind _ = _
  rw [exponentPart_stops hrest]
  simp [decimal]

/-- A sign, digits without a leading zero, and a fraction. -/
theorem reads_decimal (negative : Bool) (whole : Nat) {tail digits : List Char} (htail : FractionText tail digits) :
    Reads (signPart negative ++ Nat.toDigits 10 whole ++ tail)
      (.num (Binary64.nearest (decimal negative whole digits))) := by
  intro rest hrest fuel hfuel
  have hparse := parseNumber_decimal negative whole htail hrest
  have hfirst : ∃ c s, signPart negative ++ (Nat.toDigits 10 whole ++ (tail ++ rest)) = c :: s ∧
      (c = '-' ∨ c.isDigit = true) := by
    obtain ⟨c, s, hs⟩ := List.exists_cons_of_ne_nil (Nat.toDigits_ne_nil (n := whole) (b := 10))
    have hdigit := List.all_eq_true.1 (Numeral.all_isDigit_toDigits whole) c (by rw [hs]; exact List.mem_cons_self)
    rw [hs]
    cases negative with
    | true => exact ⟨'-', _, rfl, Or.inl rfl⟩
    | false => exact ⟨c, _, rfl, Or.inr hdigit⟩
  obtain ⟨c, s, hs, hc⟩ := hfirst
  have hpos : 0 < (Nat.toDigits 10 whole).length := Nat.length_toDigits_pos
  rw [List.length_append, List.length_append] at hfuel
  obtain ⟨fuel, rfl⟩ := Nat.exists_eq_succ_of_ne_zero (n := fuel) (by omega)
  rw [List.append_assoc, List.append_assoc, hs, Nat.succ_eq_add_one, parseValue_number hc, ← hs, hparse]
  rfl

/-- An integer as it is printed. -/
theorem reads_toString (i : Int) : Reads (toString i).toList (.num (Binary64.nearest i)) := by
  have hnone : FractionText [] [] := Or.inl ⟨rfl, rfl⟩
  cases i with
  | ofNat n =>
    have hread := reads_decimal false n hnone
    have hprinted : (toString (Int.ofNat n)).toList = Nat.toDigits 10 n := Numeral.toList_toString n
    rw [hprinted]
    simpa [decimal, signPart] using hread
  | negSucc n =>
    have hread := reads_decimal true (n + 1) hnone
    rw [Numeral.toList_toString_negSucc]
    simpa [decimal, signPart, Int.negSucc_eq] using hread

/-! ### Arrays and objects -/

/-- The elements with their brackets and commas. -/
def elements (texts : List (List Char)) : List Char := '[' :: [','].intercalate texts ++ [']']

/-- A key and the text of its value. -/
def member (f : List Char × List Char) : List Char := quoted f.1 ++ ':' :: f.2

/-- The members with their braces and commas. -/
def members (fields : List (List Char × List Char)) : List Char :=
  '\x7b' :: [','].intercalate (fields.map member) ++ ['\x7d']

theorem parseElements_intercalate {t : List Char} {texts : List (List Char)} {v : Json} {values : List Json}
    (h : Reads t v) (hrest : List.Forall₂ Reads texts values) (rest : List Char) {fuel : Nat}
    (hfuel : ([','].intercalate (t :: texts)).length < fuel) :
    parseElements fuel ([','].intercalate (t :: texts) ++ ']' :: rest) = some (v :: values, rest) := by
  induction hrest generalizing t v fuel with
  | nil =>
    rw [List.intercalate_singleton] at hfuel ⊢
    obtain ⟨fuel, rfl⟩ := Nat.exists_eq_succ_of_ne_zero (Nat.ne_of_gt (Nat.lt_of_le_of_lt (Nat.zero_le _) hfuel))
    rw [parseElements, h _ (stops_cons (by decide) rest) fuel (by omega)]
    rfl
  | @cons t' v' texts values h' hrest ih =>
    rw [List.intercalate_cons_cons] at hfuel ⊢
    rw [List.length_append, List.length_append, List.length_singleton] at hfuel
    obtain ⟨fuel, rfl⟩ := Nat.exists_eq_succ_of_ne_zero (Nat.ne_of_gt (Nat.lt_of_le_of_lt (Nat.zero_le _) hfuel))
    have hsplit : t ++ [','] ++ [','].intercalate (t' :: texts) ++ ']' :: rest =
        t ++ ',' :: ([','].intercalate (t' :: texts) ++ ']' :: rest) := by simp
    rw [hsplit, parseElements, h _ (stops_cons (by decide) _) fuel (by omega)]
    show (parseElements fuel ([','].intercalate (t' :: texts) ++ ']' :: rest)).map _ = _
    rw [ih h' (by omega)]
    rfl

/-- No value starts with a closing bracket. -/
theorem parseValue_bracket {s s' : List Char} (h : skipSpaces s = ']' :: s') (fuel : Nat) :
    parseValue fuel s = none := by
  cases fuel with
  | zero => rfl
  | succ fuel =>
    rw [parseValue, h]
    rfl

theorem parseElements_bracket {s s' : List Char} (h : skipSpaces s = ']' :: s') (fuel : Nat) :
    parseElements fuel s = none := by
  cases fuel with
  | zero => rfl
  | succ fuel =>
    rw [parseElements, parseValue_bracket h]
    rfl

theorem parseValue_array (fuel : Nat) (s : List Char) :
    parseValue (fuel + 1) ('[' :: s) =
      match skipSpaces s with
      | ']' :: s => some (.arr [], s)
      | _ => (parseElements fuel s).map fun r => (.arr r.1, r.2) := by
  rw [parseValue, skipSpaces_cons (by decide)]
  rfl

theorem Reads.elements {texts : List (List Char)} {values : List Json} (h : List.Forall₂ Reads texts values) :
    Reads (elements texts) (.arr values) := by
  intro rest _ fuel hfuel
  unfold Json.elements at hfuel ⊢
  rw [List.length_append, List.length_cons, List.length_singleton] at hfuel
  obtain ⟨fuel, rfl⟩ := Nat.exists_eq_succ_of_ne_zero (Nat.ne_of_gt (Nat.lt_of_lt_of_le (Nat.succ_pos _) hfuel))
  rw [List.cons_append, List.cons_append, List.append_assoc, List.singleton_append, Nat.succ_eq_add_one,
    parseValue_array]
  cases h with
  | nil => rfl
  | @cons t v texts values h hrest =>
    have hparse := parseElements_intercalate h hrest rest (Nat.lt_of_succ_lt_succ hfuel)
    split
    · rename_i hbracket
      rw [parseElements_bracket hbracket] at hparse
      cases hparse
    · rw [hparse]
      rfl

/-- The members of an object, with the text of each value. -/
def ReadsMember (f : List Char × List Char) (g : List Char × Json) : Prop :=
  f.1 = g.1 ∧ f.1.all isPlain = true ∧ Reads f.2 g.2

theorem parseKey_quoted {key : List Char} (h : key.all isPlain = true) (s : List Char) :
    parseKey (quoted key ++ ':' :: s) = some (key, s) := by
  have hsplit : quoted key ++ ':' :: s = '"' :: (key ++ '"' :: ':' :: s) := by simp [quoted]
  unfold parseKey
  rw [hsplit, skipSpaces_cons (by decide)]
  show (parseString (key ++ '"' :: ':' :: s)).bind _ = _
  rw [parseString_quoted h]
  rfl

theorem parseMembers_intercalate {f : List Char × List Char} {fields : List (List Char × List Char)}
    {g : List Char × Json} {values : List (List Char × Json)} (h : ReadsMember f g)
    (hrest : List.Forall₂ ReadsMember fields values) (rest : List Char) {fuel : Nat}
    (hfuel : ([','].intercalate ((f :: fields).map member)).length < fuel) :
    parseMembers fuel ([','].intercalate ((f :: fields).map member) ++ '\x7d' :: rest) = some (g :: values, rest) := by
  induction hrest generalizing f g fuel with
  | nil =>
    obtain ⟨hkey, hplain, hread⟩ := h
    obtain ⟨fuel, rfl⟩ := Nat.exists_eq_succ_of_ne_zero (Nat.ne_of_gt (Nat.lt_of_le_of_lt (Nat.zero_le _) hfuel))
    rw [List.map_singleton, List.intercalate_singleton, member] at hfuel ⊢
    rw [List.length_append, List.length_cons] at hfuel
    rw [List.append_assoc, List.cons_append, parseMembers, parseKey_quoted hplain]
    show (parseValue fuel (f.2 ++ '\x7d' :: rest)).bind _ = _
    rw [hread _ (stops_cons (by decide) rest) fuel (by omega), hkey]
    rfl
  | @cons f' g' fields values h' hrest ih =>
    obtain ⟨hkey, hplain, hread⟩ := h
    obtain ⟨fuel, rfl⟩ := Nat.exists_eq_succ_of_ne_zero (Nat.ne_of_gt (Nat.lt_of_le_of_lt (Nat.zero_le _) hfuel))
    have hinner : [','].intercalate ((f :: f' :: fields).map member) =
        quoted f.1 ++ ':' :: (f.2 ++ ',' :: [','].intercalate ((f' :: fields).map member)) := by
      rw [List.map_cons, List.map_cons, List.intercalate_cons_cons, ← List.map_cons, member]
      simp only [List.append_assoc, List.cons_append, List.nil_append]
    rw [hinner] at hfuel ⊢
    rw [List.length_append, List.length_cons, List.length_append, List.length_cons] at hfuel
    rw [List.append_assoc, List.cons_append, List.append_assoc, List.cons_append, parseMembers, parseKey_quoted hplain]
    show (parseValue fuel (f.2 ++ ',' :: _)).bind _ = _
    rw [hread _ (stops_cons (by decide) _) fuel (by omega)]
    show (parseMembers fuel (_ ++ '\x7d' :: rest)).map _ = _
    rw [ih h' (by omega), hkey]
    rfl

theorem parseValue_object (fuel : Nat) (s : List Char) :
    parseValue (fuel + 1) ('\x7b' :: s) =
      match skipSpaces s with
      | '\x7d' :: s => some (.obj [], s)
      | _ => (parseMembers fuel s).map fun r => (.obj r.1, r.2) := by
  rw [parseValue, skipSpaces_cons (by decide)]
  rfl

theorem Reads.members {fields : List (List Char × List Char)} {values : List (List Char × Json)}
    (h : List.Forall₂ ReadsMember fields values) : Reads (members fields) (.obj values) := by
  intro rest _ fuel hfuel
  unfold Json.members at hfuel ⊢
  rw [List.length_append, List.length_cons, List.length_singleton] at hfuel
  obtain ⟨fuel, rfl⟩ := Nat.exists_eq_succ_of_ne_zero (Nat.ne_of_gt (Nat.lt_of_lt_of_le (Nat.succ_pos _) hfuel))
  rw [List.cons_append, List.cons_append, List.append_assoc, List.singleton_append, Nat.succ_eq_add_one,
    parseValue_object]
  cases h with
  | nil => rfl
  | @cons f g fields values h hrest =>
    have hparse := parseMembers_intercalate h hrest rest (Nat.lt_of_succ_lt_succ hfuel)
    have hquote : ∃ s, [','].intercalate ((f :: fields).map member) = '"' :: s := by
      cases fields with
      | nil => exact ⟨_, by rw [List.map_singleton, List.intercalate_singleton]; rfl⟩
      | cons f' fields => exact ⟨_, by rw [List.map_cons, List.map_cons, List.intercalate_cons_cons]; rfl⟩
    obtain ⟨s, hs⟩ := hquote
    rw [hs] at hparse ⊢
    rw [List.cons_append, skipSpaces_cons (by decide)]
    show (parseMembers fuel ('"' :: s ++ '\x7d' :: rest)).map _ = _
    rw [hparse]
    rfl

/-! ### Texts on one line -/

/-- No control character. -/
def isPrinted (c : Char) : Bool := 32 ≤ c.toNat

/-- The text is read as this value and has no control characters. -/
structure Writes (text : List Char) (v : Json) : Prop where
  reads : Reads text v
  printed : text.all isPrinted = true

theorem printed_isDigit {s : List Char} (h : s.all Char.isDigit = true) : s.all isPrinted = true := by
  rw [List.all_eq_true] at h ⊢
  intro c hc
  have hdigit := Char.isDigit_iff_toNat.1 (h c hc)
  have hzero : '0'.toNat = 48 := rfl
  exact decide_eq_true (by omega)

theorem printed_append {s t : List Char} (hs : s.all isPrinted = true) (ht : t.all isPrinted = true) :
    (s ++ t).all isPrinted = true := by
  rw [List.all_append, hs, ht]
  rfl

theorem printed_intercalate {texts : List (List Char)} (h : ∀ t ∈ texts, t.all isPrinted = true) :
    ([','].intercalate texts).all isPrinted = true := by
  induction texts with
  | nil => rfl
  | cons t texts ih =>
    have ht := h t List.mem_cons_self
    have hrest := ih fun t' ht' => h t' (List.mem_cons_of_mem _ ht')
    cases texts with
    | nil => rwa [List.intercalate_singleton]
    | cons t' texts =>
      rw [List.intercalate_cons_cons]
      exact printed_append (printed_append ht rfl) hrest

theorem printed_quoted {s : List Char} (h : s.all isPlain = true) : (quoted s).all isPrinted = true := by
  have hs : s.all isPrinted = true := by
    rw [List.all_eq_true] at h ⊢
    intro c hc
    exact decide_eq_true (of_decide_eq_true (h c hc)).2.2
  exact printed_append (printed_append (s := ['"']) rfl hs) rfl

theorem printed_signPart (negative : Bool) : (signPart negative).all isPrinted = true := by cases negative <;> rfl

theorem writes_bool (b : Bool) : Writes (if b then "true" else "false").toList (.bool b) :=
  ⟨reads_bool b, by cases b <;> decide⟩

theorem writes_quoted {s : List Char} (h : s.all isPlain = true) : Writes (quoted s) (.str s) :=
  ⟨reads_quoted h, printed_quoted h⟩

theorem writes_decimal (negative : Bool) (whole : Nat) {tail digits : List Char} (htail : FractionText tail digits) :
    Writes (signPart negative ++ Nat.toDigits 10 whole ++ tail)
      (.num (Binary64.nearest (decimal negative whole digits))) := by
  refine ⟨reads_decimal negative whole htail, ?_⟩
  refine printed_append (printed_append (printed_signPart negative)
    (printed_isDigit (Numeral.all_isDigit_toDigits whole))) ?_
  obtain ⟨rfl, -⟩ | ⟨rfl, -, hall⟩ := htail
  · rfl
  · exact printed_append (s := ['.']) rfl (printed_isDigit hall)

theorem writes_toString (i : Int) : Writes (toString i).toList (.num (Binary64.nearest i)) := by
  refine ⟨reads_toString i, ?_⟩
  have hall := Numeral.all_toString i
  rw [List.all_eq_true] at hall ⊢
  intro c hc
  have hc' := hall c hc
  simp only [Bool.or_eq_true, decide_eq_true_eq] at hc'
  obtain rfl | hdigit := hc'
  · rfl
  · exact List.all_eq_true.1 (printed_isDigit (s := [c]) (by simpa using hdigit)) c (List.mem_singleton_self c)

theorem Writes.elements {texts : List (List Char)} {values : List Json} (h : List.Forall₂ Writes texts values) :
    Writes (elements texts) (.arr values) := by
  refine ⟨Reads.elements (h.imp fun _ _ hw => hw.reads), ?_⟩
  refine printed_append (printed_append (s := ['[']) rfl (printed_intercalate ?_)) rfl
  intro t ht
  obtain ⟨i, hi, rfl⟩ := List.getElem_of_mem ht
  exact (h.get hi (h.length_eq ▸ hi)).printed

/-- The members of an object, with the text of each value. -/
def WritesMember (f : List Char × List Char) (g : List Char × Json) : Prop :=
  f.1 = g.1 ∧ f.1.all isPlain = true ∧ Writes f.2 g.2

theorem Writes.members {fields : List (List Char × List Char)} {values : List (List Char × Json)}
    (h : List.Forall₂ WritesMember fields values) : Writes (members fields) (.obj values) := by
  refine ⟨Reads.members (h.imp fun _ _ hw => ⟨hw.1, hw.2.1, hw.2.2.reads⟩), ?_⟩
  refine printed_append (printed_append (s := ['\x7b']) rfl (printed_intercalate ?_)) rfl
  intro t ht
  obtain ⟨f, hf, rfl⟩ := List.mem_map.1 ht
  obtain ⟨i, hi, rfl⟩ := List.getElem_of_mem hf
  obtain ⟨-, hkey, hvalue⟩ := h.get hi (h.length_eq ▸ hi)
  exact printed_append (printed_quoted hkey) (printed_append (s := [':']) rfl hvalue.printed)

end Json
