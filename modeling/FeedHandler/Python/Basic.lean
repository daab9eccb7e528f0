import FeedHandler.Foundation.Numeral
import Mathlib.Algebra.Order.Floor.Defs
import Mathlib.Data.Rat.Floor

/-!
# Python values

The values that `json.loads` returns, and the built-in functions the bridge applies to them.  A string is the list of
its code points.  What depends on the Unicode tables, on binary floating point or on the version of the interpreter is
a `Runtime`.
-/

namespace Python

abbrev Str := List Char

/-- A `float`: a rational with its sign (zero has two), infinite, or not a number. -/
inductive Double where
  | finite (negative : Bool) (magnitude : ℚ)
  | inf (negative : Bool)
  | nan
deriving DecidableEq, Repr

inductive Value where
  | none
  | bool (b : Bool)
  | int (i : Int)
  | float (x : Double)
  | str (s : Str)
  | list (items : List Value)
  | dict (items : List (Str × Value))

def isASCII (c : Char) : Bool := c.val < 128

structure Runtime where
  /-- `c.upper()` -/
  upper : Char → Str
  /-- `s.lower()` -/
  lower : Str → Str
  /-- `unicodedata.decimal(c)` -/
  decimal : Char → Option Nat
  /-- `c.isprintable()` -/
  isprintable : Char → Bool
  /-- the `float` nearest to a rational, given its sign and its absolute value -/
  nearest : Bool → ℚ → Double
  /-- `repr(x)` -/
  reprFloat : Double → Str
  /-- `sys.get_int_max_str_digits()`; `0` stands for no limit -/
  maxStrDigits : Nat
  /-- the text of the exception that `int(v)` raises -/
  intError : Value → Str
  /-- the text of the exception that `float(v)` raises -/
  floatError : Value → Str
  upper_ne_nil : ∀ c, upper c ≠ []
  upper_ascii : ∀ c, isASCII c → upper c = [c.toUpper]
  lower_ascii : ∀ s : Str, s.all isASCII → lower s = s.map Char.toLower
  decimal_ascii : ∀ c, isASCII c → decimal c = if c.isDigit then some (c.toNat - '0'.toNat) else none
  isprintable_ascii : ∀ c, isASCII c → isprintable c = (32 ≤ c.val && c.val < 127)
  /-- no letter beyond ASCII has one of these capitals, alone -/
  upper_alone : ∀ c u, upper c = [u] → u ∈ ['A', 'X', 'E', '#', '/'] → isASCII c
  /-- no letter beyond ASCII has a capital that starts with one of these -/
  upper_head : ∀ c u rest, upper c = u :: rest → u ∈ ['O', 'R', 'D', 'E', ' '] → isASCII c
  reprFloat_newline : ∀ x, '\n' ∉ reprFloat x

/-! ### Strings -/

/-- `c.isspace()` -/
def isspace (c : Char) : Bool :=
  let n := c.val.toNat
  (9 ≤ n && n ≤ 13) || (28 ≤ n && n ≤ 32) || n == 0x85 || n == 0xA0 || n == 0x1680 || (0x2000 ≤ n && n ≤ 0x200A) ||
    n == 0x2028 || n == 0x2029 || n == 0x202F || n == 0x205F || n == 0x3000

/-- The string without the characters with `p` at its end. -/
def dropEndWhile (p : Char → Bool) (s : Str) : Str := (s.reverse.dropWhile p).reverse

/-- `s.strip()` -/
def strip (s : Str) : Str := dropEndWhile isspace (s.dropWhile isspace)

/-- `s.upper()` -/
def upper (py : Runtime) (s : Str) : Str := s.flatMap py.upper

/-- `s.startswith(t)` -/
def startswith (s t : Str) : Bool := t.isPrefixOf s

/-! ### `str` and `repr` -/

def hexDigit (n : Nat) : Char := "0123456789abcdef".toList.getD (n % 16) '0'

/-- The last `w` hexadecimal digits of `n`. -/
def hex (w n : Nat) : Str := (List.range w).reverse.map fun i => hexDigit (n / 16 ^ i)

def escape (py : Runtime) (quote c : Char) : Str :=
  if c = quote ∨ c = '\\' then ['\\', c]
  else if c = '\t' then "\\t".toList
  else if c = '\r' then "\\r".toList
  else if c = '\n' then "\\n".toList
  else if py.isprintable c then [c]
  else if c.toNat < 0x100 then "\\x".toList ++ hex 2 c.toNat
  else if c.toNat < 0x10000 then "\\u".toList ++ hex 4 c.toNat
  else "\\U".toList ++ hex 8 c.toNat

/-- `repr(s)` -/
def reprStr (py : Runtime) (s : Str) : Str :=
  let quote := if '\'' ∈ s ∧ '"' ∉ s then '"' else '\''
  quote :: s.flatMap (escape py quote) ++ [quote]

def decimalStr (i : Int) : Str := (toString i).toList

mutual

/-- `repr(v)` -/
def repr (py : Runtime) : Value → Str
  | .none => "None".toList
  | .bool true => "True".toList
  | .bool false => "False".toList
  | .int i => decimalStr i
  | .float x => py.reprFloat x
  | .str s => reprStr py s
  | .list items => "[".toList ++ ", ".toList.intercalate (reprItems py items) ++ "]".toList
  | .dict items => "\x7b".toList ++ ", ".toList.intercalate (reprPairs py items) ++ "\x7d".toList

def reprItems (py : Runtime) : List Value → List Str
  | [] => []
  | v :: items => repr py v :: reprItems py items

def reprPairs (py : Runtime) : List (Str × Value) → List Str
  | [] => []
  | (key, v) :: items => (reprStr py key ++ ": ".toList ++ repr py v) :: reprPairs py items

end

/-- `str(v)` -/
def str (py : Runtime) : Value → Str
  | .str s => s
  | v => repr py v

/-! ### `int` and `float` -/

/-- Digits, with single underscores between them; their values, and what follows. -/
def digitPart (py : Runtime) : Str → List Nat × Str
  | [] => ([], [])
  | [c] =>
    match py.decimal c with
    | some d => ([d], [])
    | none => ([], [c])
  | c :: c' :: s =>
    match py.decimal c with
    | none => ([], c :: c' :: s)
    | some d =>
      if c' = '_' then
        match digitPart py s with
        | ([], _) => ([d], c' :: s)
        | (digits, rest) => (d :: digits, rest)
      else
        let (digits, rest) := digitPart py (c' :: s)
        (d :: digits, rest)

def ofDigits (digits : List Nat) : Nat := digits.foldl (fun n d => 10 * n + d) 0

/-- An optional sign: whether it is `-`, and what follows. -/
def signPart : Str → Bool × Str
  | '-' :: s => (true, s)
  | '+' :: s => (false, s)
  | s => (false, s)

def intLiteral (py : Runtime) (s : Str) : Option Int :=
  let (negative, s) := signPart (strip s)
  let (digits, rest) := digitPart py s
  if digits = [] ∨ rest ≠ [] ∨ py.maxStrDigits ≠ 0 ∧ py.maxStrDigits < digits.length then
    none
  else
    some (if negative then -ofDigits digits else ofDigits digits)

/-- `int(v)`; the text of the exception if it raises one. -/
def int (py : Runtime) (v : Value) : Except Str Int :=
  let result : Option Int :=
    match v with
    | .bool b => some b.toNat
    | .int i => some i
    | .float (.finite negative magnitude) => some (if negative then -⌊magnitude⌋ else ⌊magnitude⌋)
    | .str s => intLiteral py s
    | _ => none
  match result with
  | some i => .ok i
  | none => .error (py.intError v)

/-- An optional exponent; `none` if what is there is not one. -/
def exponentPart (py : Runtime) : Str → Option Int
  | [] => some 0
  | c :: s =>
    if c = 'e' ∨ c = 'E' then
      let (negative, s) := signPart s
      let (digits, rest) := digitPart py s
      if digits = [] ∨ rest ≠ [] then none
      else some (if negative then -ofDigits digits else ofDigits digits)
    else
      none

def floatLiteral (py : Runtime) (s : Str) : Option Double :=
  let (negative, s) := signPart (strip s)
  let word := s.map Char.toLower
  if word = "inf".toList ∨ word = "infinity".toList then
    some (.inf negative)
  else if word = "nan".toList then
    some .nan
  else
    let (whole, rest) := digitPart py s
    let (fraction, rest) :=
      match rest with
      | '.' :: rest => digitPart py rest
      | _ => ([], rest)
    if whole = [] ∧ fraction = [] then
      none
    else
      (exponentPart py rest).map fun (exponent : Int) =>
        py.nearest negative (ofDigits (whole ++ fraction) * (10 : ℚ) ^ (exponent - (fraction.length : Int)))

/-- `float(v)`; the text of the exception if it raises one. -/
def float (py : Runtime) (v : Value) : Except Str Double :=
  let ofInt (i : Int) : Option Double :=
    match py.nearest (i < 0) i.natAbs with
    | .inf _ => none -- int too large to convert to float
    | x => some x
  let result : Option Double :=
    match v with
    | .bool b => ofInt b.toNat
    | .int i => ofInt i
    | .float x => some x
    | .str s => floatLiteral py s
    | _ => none
  match result with
  | some x => .ok x
  | none => .error (py.floatError v)

/-- `x <= 0` -/
def Double.nonpos : Double → Bool
  | .finite negative magnitude => negative || magnitude = 0
  | .inf negative => negative
  | .nan => false -- every comparison with it is false

/-- The nearest integer, a half going to the even one. -/
def roundHalfEven (q : ℚ) : Int :=
  let twice := 2 * (q - ⌊q⌋)
  if twice < 1 ∨ twice = 1 ∧ ⌊q⌋ % 2 = 0 then ⌊q⌋ else ⌊q⌋ + 1

/-- `f"{x:.2f}"` -/
def Double.fixed2 : Double → Str
  | .finite negative magnitude =>
    let hundredths := (roundHalfEven (100 * magnitude)).toNat
    (if negative then ['-'] else []) ++ decimalStr (hundredths / 100 : Nat) ++
      ['.', Nat.digitChar (hundredths / 10 % 10), Nat.digitChar (hundredths % 10)]
  | .inf negative => (if negative then ['-'] else []) ++ "inf".toList
  | .nan => "nan".toList

/-! ### Capitals -/

/-- What holds of every ASCII character. -/
theorem of_isASCII {c : Char} (h : isASCII c) {P : Char → Prop}
    (hall : ∀ n : Fin 128, P (Char.ofNat n)) : P c := by
  have hlt : c.toNat < 128 := by
    simpa [isASCII, UInt32.lt_iff_toNat_lt] using h
  have hc := hall ⟨c.toNat, hlt⟩
  simpa using hc

/-- A text whose capitals start with `t` starts with the letters of `t`, in any case. -/
theorem exists_of_startswith_upper (py : Runtime) {t : Str} (ht : t.all (· ∈ ['O', 'R', 'D', 'E', ' ']) = true)
    {s : Str} (h : startswith (upper py s) t = true) :
    ∃ start rest, s = start ++ rest ∧ start.map Char.toUpper = t := by
  induction t generalizing s with
  | nil => exact ⟨[], s, rfl, rfl⟩
  | cons u t ih =>
    unfold startswith upper at h
    rw [List.isPrefixOf_iff_prefix] at h
    cases s with
    | nil => simp at h
    | cons c s =>
      rw [List.flatMap_cons] at h
      cases hc : py.upper c with
      | nil => exact absurd hc (py.upper_ne_nil c)
      | cons v rest =>
        rw [hc, List.cons_append, List.cons_prefix_cons] at h
        obtain ⟨rfl, hprefix⟩ := h
        rw [List.all_cons, Bool.and_eq_true, decide_eq_true_eq] at ht
        have hascii := py.upper_head c u rest hc ht.1
        rw [py.upper_ascii c hascii] at hc
        obtain ⟨hupper, rfl⟩ := List.cons.inj hc
        rw [List.nil_append] at hprefix
        obtain ⟨start, rest, rfl, hstart⟩ := ih ht.2 (List.isPrefixOf_iff_prefix.2 hprefix)
        exact ⟨c :: start, rest, rfl, by rw [List.map_cons, hstart, hupper]⟩

/-! ### Exceptions -/

theorem bind_eq_ok {ε α β : Type} {x : Except ε α} {f : α → Except ε β} {b : β} :
    x >>= f = .ok b ↔ ∃ a, x = .ok a ∧ f a = .ok b := by
  cases x with
  | error e =>
    constructor
    · intro h
      cases h
    · rintro ⟨a, ha, -⟩
      cases ha
  | ok a =>
    constructor
    · intro h
      exact ⟨a, rfl, h⟩
    · rintro ⟨a', ha, h⟩
      cases ha
      exact h

/-! ### Line breaks -/

theorem newline_append {s t : Str} (hs : '\n' ∉ s) (ht : '\n' ∉ t) : '\n' ∉ s ++ t := by
  rw [List.mem_append]
  exact fun h => h.elim hs ht

/-- The characters of a printed integer. -/
theorem mem_decimalStr {c : Char} {i : Int} (h : c ∈ decimalStr i) : c = '-' ∨ c.isDigit = true := by
  simpa using List.all_eq_true.1 (Numeral.all_toString i) c h

theorem isDigit_digitChar_mod (n : Nat) : (Nat.digitChar (n % 10)).isDigit = true := by
  rw [Nat.isDigit_digitChar]
  simp [Nat.mod_lt]

/-- The characters of a printed `float`. -/
theorem mem_fixed2 {c : Char} {x : Double} (h : c ∈ x.fixed2) : c ∈ "-.infa".toList ∨ c.isDigit = true := by
  have hall : ("-inf".toList ++ "nan".toList).all (· ∈ "-.infa".toList) = true := by decide
  have hword : ∀ c ∈ "-inf".toList ++ "nan".toList, c ∈ "-.infa".toList := by
    intro c hc
    exact of_decide_eq_true (List.all_eq_true.1 hall c hc)
  cases x with
  | nan => exact Or.inl (hword c (List.mem_append_right _ h))
  | inf negative =>
    left
    apply hword
    cases negative with
    | true => exact List.mem_append_left _ h
    | false => exact List.mem_append_left _ (List.mem_cons_of_mem _ h)
  | finite negative magnitude =>
    simp only [Double.fixed2, List.mem_append, List.mem_cons, List.not_mem_nil, or_false] at h
    rcases h with (hsign | hwhole) | rfl | rfl | rfl
    · left
      cases negative
      · cases hsign
      · obtain rfl := List.mem_singleton.1 hsign
        decide
    · rcases mem_decimalStr hwhole with rfl | hdigit
      · left
        decide
      · exact Or.inr hdigit
    · left
      decide
    · exact Or.inr (isDigit_digitChar_mod _)
    · exact Or.inr (isDigit_digitChar_mod _)

theorem newline_decimalStr (i : Int) : '\n' ∉ decimalStr i := by
  intro h
  exact absurd (mem_decimalStr h) (by decide)

theorem newline_fixed2 (x : Double) : '\n' ∉ x.fixed2 := by
  intro h
  exact absurd (mem_fixed2 h) (by decide)

theorem newline_hex (w n : Nat) : '\n' ∉ hex w n := by
  intro h
  obtain ⟨i, -, hi⟩ := List.mem_map.1 h
  unfold hexDigit at hi
  have hlt : n / 16 ^ i % 16 < 16 := Nat.mod_lt _ (by decide)
  generalize n / 16 ^ i % 16 = k at hi hlt
  revert hi
  revert k
  decide

theorem newline_escape (py : Runtime) {quote : Char} (hquote : quote ≠ '\n') (c : Char) :
    '\n' ∉ escape py quote c := by
  unfold escape
  split_ifs with hescaped htab hreturn hnewline hprintable hx hu
  · rcases hescaped with rfl | rfl
    · simp [hquote.symm]
    · decide
  · decide
  · decide
  · decide
  · simpa using Ne.symm hnewline
  all_goals exact newline_append (by decide) (newline_hex _ _)

theorem newline_reprStr (py : Runtime) (s : Str) : '\n' ∉ reprStr py s := by
  have hquoted : ∀ quote, quote ≠ '\n' → '\n' ∉ quote :: s.flatMap (escape py quote) ++ [quote] := by
    intro quote hquote h
    simp only [List.cons_append, List.mem_cons, List.mem_append, List.mem_flatMap, List.not_mem_nil, or_false] at h
    rcases h with h | ⟨c, -, hc⟩ | h
    · exact hquote h.symm
    · exact newline_escape py hquote c hc
    · exact hquote h.symm
  unfold reprStr
  apply hquoted
  split <;> decide

theorem newline_intercalate {sep : Str} (hsep : '\n' ∉ sep) {parts : List Str} (h : ∀ p ∈ parts, '\n' ∉ p) :
    '\n' ∉ sep.intercalate parts := by
  induction parts with
  | nil => simp
  | cons p parts ih =>
    have hp := h p (List.mem_cons_self ..)
    have hrest := ih fun q hq => h q (List.mem_cons_of_mem _ hq)
    cases parts with
    | nil => simpa using hp
    | cons q parts =>
      rw [List.intercalate_cons_cons]
      exact newline_append (newline_append hp hsep) hrest

mutual

/-- `repr` writes a line break as an escape. -/
theorem newline_repr (py : Runtime) (v : Value) : '\n' ∉ repr py v := by
  cases v with
  | none => simp only [repr]; decide
  | bool b => cases b <;> simp only [repr] <;> decide
  | int i => simpa only [repr] using newline_decimalStr i
  | float x => simpa only [repr] using py.reprFloat_newline x
  | str s => simpa only [repr] using newline_reprStr py s
  | list items =>
    simp only [repr]
    have hitems := newline_intercalate (by decide : '\n' ∉ ", ".toList) (newline_reprItems py items)
    exact newline_append (newline_append (by decide) hitems) (by decide)
  | dict items =>
    simp only [repr]
    have hitems := newline_intercalate (by decide : '\n' ∉ ", ".toList) (newline_reprPairs py items)
    exact newline_append (newline_append (by decide) hitems) (by decide)

theorem newline_reprItems (py : Runtime) (items : List Value) : ∀ p ∈ reprItems py items, '\n' ∉ p := by
  cases items with
  | nil => intro p hp; cases hp
  | cons v items =>
    intro p hp
    rw [reprItems, List.mem_cons] at hp
    rcases hp with rfl | hp
    · exact newline_repr py v
    · exact newline_reprItems py items p hp

theorem newline_reprPairs (py : Runtime) (items : List (Str × Value)) : ∀ p ∈ reprPairs py items, '\n' ∉ p := by
  match items with
  | [] => intro p hp; cases hp
  | (key, v) :: items =>
    intro p hp
    rw [reprPairs, List.mem_cons] at hp
    rcases hp with rfl | hp
    · exact newline_append (newline_append (newline_reprStr py key) (by decide)) (newline_repr py v)
    · exact newline_reprPairs py items p hp

end

/-- The text of a value has line breaks only if the value is a string with line breaks. -/
theorem newline_str (py : Runtime) {v : Value} (h : ∀ s, v = .str s → '\n' ∉ s) : '\n' ∉ str py v := by
  unfold str
  split
  · exact h _ rfl
  · exact newline_repr py v

theorem newline_strip {s : Str} (h : '\n' ∉ s) : '\n' ∉ strip s := by
  intro hmem
  unfold strip dropEndWhile at hmem
  rw [List.mem_reverse] at hmem
  replace hmem := (List.dropWhile_sublist _).subset hmem
  rw [List.mem_reverse] at hmem
  exact h ((List.dropWhile_sublist _).subset hmem)

/-- A runtime that takes every character beyond ASCII for a letter without case. -/
def ascii : Runtime where
  upper c := if isASCII c then [c.toUpper] else [c]
  lower s := s.map Char.toLower
  decimal c := if isASCII c ∧ c.isDigit then some (c.toNat - '0'.toNat) else none
  isprintable c := !isASCII c || (32 ≤ c.val && c.val < 127)
  nearest := .finite
  reprFloat := Double.fixed2
  maxStrDigits := 4300
  intError _ := "ValueError".toList
  floatError _ := "ValueError".toList
  upper_ne_nil c := by split <;> simp
  upper_ascii c h := if_pos h
  lower_ascii s _ := rfl
  decimal_ascii c h := by simp [h]
  isprintable_ascii c h := by simp [h]
  upper_alone c u h hu := by
    split at h
    · assumption
    · rename_i hc
      obtain rfl := (List.cons.inj h).1
      have hall : ['A', 'X', 'E', '#', '/'].all isASCII = true := by decide
      exact absurd (List.all_eq_true.1 hall _ hu) hc
  upper_head c u rest h hu := by
    split at h
    · assumption
    · rename_i hc
      obtain rfl := (List.cons.inj h).1
      have hall : ['O', 'R', 'D', 'E', ' '].all isASCII = true := by decide
      exact absurd (List.all_eq_true.1 hall _ hu) hc
  reprFloat_newline := newline_fixed2

end Python
