import FeedHandler.Bridge.Injection
import FeedHandler.ParserValidator.UserLine

/-!
# An order of the bridge in the engine

The engine splits the line of an order into the tokens it was printed from (`tokenize_line`) and reads the numbers back.
What it reads is what the bridge has converted, up to the rounding of the price and the widths of the fields; where the
values fit, the message carries all of them (`parseUserLine_formatOrderCommand`).
-/

namespace FeedHandler

open Cstdlib Numeral Python StreamServer WireParserValidator

namespace Bridge

/-! ### Printed tokens -/

theorem value_decimalStr (i : Int) : value (decimalStr i) = some i := value_toString i

theorem isToken_decimalStr (i : Int) : IsToken (decimalStr i) := by
  constructor
  · intro hnil
    have hvalue := value_decimalStr i
    rw [hnil] at hvalue
    cases hvalue
  · rw [List.all_eq_true]
    intro c hc
    rcases mem_decimalStr hc with rfl | hdigit
    · decide
    · simp [isSeparator_of_isDigit hdigit]

theorem isToken_fixed2 (x : Double) : IsToken x.fixed2 := by
  constructor
  · cases x with
    | nan => decide
    | inf negative => cases negative <;> decide
    | finite negative magnitude => simp [Double.fixed2]
  · rw [List.all_eq_true]
    intro c hc
    have hword : "-.infa".toList.all (!isSeparator ·) = true := by decide
    rcases mem_fixed2 hc with hmem | hdigit
    · exact List.all_eq_true.1 hword c hmem
    · simp [isSeparator_of_isDigit hdigit]

/-- The hundredths that `x.fixed2` shows; `none` if it is a word. -/
def hundredths : Double → Option Int
  | .finite negative magnitude => some (signed negative (roundHalfEven (100 * magnitude)).toNat)
  | _ => none

/-- The two digits behind the point complete the number of hundredths. -/
theorem ofDigitChars_fixed2 (n : Nat) :
    Nat.ofDigitChars 10 (Nat.toDigits 10 (n / 100) ++ [Nat.digitChar (n / 10 % 10), Nat.digitChar (n % 10)]) 0 = n := by
  rw [Nat.ofDigitChars_append, Nat.ofDigitChars_ten_toDigits,
    Nat.ofDigitChars_cons_digitChar_of_lt_ten (Nat.mod_lt _ (by decide)),
    Nat.ofDigitChars_cons_digitChar_of_lt_ten (Nat.mod_lt _ (by decide))]
  show 10 * (10 * (n / 100) + n / 10 % 10) + n % 10 = n
  omega

theorem strtod_fixed2 {x : Double} {c : Int} (h : hundredths x = some c) : strtod x.fixed2 = some ((c : ℚ) / 100) := by
  cases x with
  | nan => cases h
  | inf negative => cases h
  | finite negative magnitude =>
    unfold hundredths at h
    unfold Double.fixed2
    dsimp only at h ⊢
    generalize (roundHalfEven (100 * magnitude)).toNat = n at h ⊢
    cases h
    have hdigits : [Nat.digitChar (n / 10 % 10), Nat.digitChar (n % 10)].all Char.isDigit = true := by
      rw [List.all_cons, List.all_cons, isDigit_digitChar_mod, isDigit_digitChar_mod]
      rfl
    have hprinted : decimalStr ((n / 100 : Nat) : Int) = Nat.toDigits 10 (n / 100) := toList_toString (n / 100)
    have hread := strtod_point negative Nat.toDigits_ne_nil (all_isDigit_toDigits (n / 100)) hdigits
    rw [ofDigitChars_fixed2] at hread
    rw [hprinted, List.append_assoc, hread]
    norm_num

/-- The price that the engine reads: the hundredths as a `long long`, narrowed; zero for a word. -/
def ticks (unspecified : List Char → Int64) (x : Double) : Int32 :=
  match hundredths x with
  | some c =>
    (if Int64.minValue.toInt ≤ c ∧ c ≤ Int64.maxValue.toInt then Int64.ofInt c else unspecified x.fixed2).toInt32
  | none => 0

theorem parsePriceTicks_fixed2 (unspecified : List Char → Int64) (x : Double) :
    parsePriceTicks (llroundHundredths unspecified) x.fixed2 = ticks unspecified x := by
  unfold ticks
  cases h : hundredths x with
  | none =>
    -- a word has no point, and starts with no number
    have hword : '.' ∉ x.fixed2 ∧ strtolInt32 x.fixed2 = 0 := by
      cases x with
      | finite negative magnitude => cases h
      | inf negative => cases negative <;> decide
      | nan => decide
    unfold parsePriceTicks
    rw [if_neg hword.1, hword.2]
  | some c =>
    have hpoint : '.' ∈ x.fixed2 := by
      cases x with
      | finite negative magnitude => simp [Double.fixed2]
      | inf negative => cases h
      | nan => cases h
    unfold parsePriceTicks
    rw [if_pos hpoint, llroundHundredths_of_strtod unspecified (strtod_fixed2 h)]

theorem strtolInt32_decimalStr (i : Int) : strtolInt32 (decimalStr i) = (Int64.ofIntClamp i).toInt32 := by
  unfold strtolInt32
  rw [strtol_of_value (value_decimalStr i)]

/-! ### The line -/

namespace Order

theorem isToken_tokens (o : Order) : ∀ token ∈ o.tokens, IsToken token := by
  have hzero : IsToken ['0'] := isToken_singleton (by decide)
  cases o with
  | add id side price qty =>
    have htype : IsToken ['A'] := isToken_singleton (by decide)
    have hside : IsToken [side.1] := by
      apply isToken_singleton
      rcases side.2 with h | h <;> rw [h] <;> decide
    simp [tokens, htype, hside, isToken_decimalStr, isToken_fixed2]
  | cancel id qty =>
    have htype : IsToken ['X'] := isToken_singleton (by decide)
    simp [tokens, htype, hzero, isToken_decimalStr]
  | execute id price qty =>
    have htype : IsToken ['E'] := isToken_singleton (by decide)
    simp [tokens, htype, hzero, isToken_decimalStr, isToken_fixed2]

theorem tokenize_line (o : Order) : tokenize o.line = o.tokens := tokenize_intercalate o.isToken_tokens

/-- The tokens that are read. -/
def columns : Order → Columns
  | .add id side price qty => .add (decimalStr id) [side.1] price.fixed2 (decimalStr qty)
  | .cancel id qty => .cancel (decimalStr id) (some (decimalStr qty))
  | .execute id price qty => .execute (decimalStr id) price.fixed2 (decimalStr qty)

/-- The columns that the bridge fills with `0` are not read. -/
theorem lineColumns_line (o : Order) : lineColumns o.line = some o.columns := by
  have hignored : ignored o.line = false := by cases o <;> rfl
  unfold lineColumns
  rw [hignored, tokenize_line]
  cases o <;> rfl

theorem command_line (o : Order) : command o.line = .parseUserLine o.line := by cases o <;> rfl

/-- What the engine reads. -/
def message (unspecified : List Char → Int64) (seqNo nowNs : UInt64) : Order → WireMessage
  | .add id side price qty =>
    .ofAdd ⟨'A'.toUInt8, seqNo, nowNs, strtoull (decimalStr id), side.1.toUInt8, ticks unspecified price,
      (Int64.ofIntClamp qty).toInt32⟩
  | .cancel id qty =>
    .ofCancel ⟨'X'.toUInt8, seqNo, nowNs, strtoull (decimalStr id), (Int64.ofIntClamp qty).toInt32⟩
  | .execute id price qty =>
    .ofExec ⟨'E'.toUInt8, seqNo, nowNs, strtoull (decimalStr id), (Int64.ofIntClamp qty).toInt32,
      ticks unspecified price⟩

/-- The numbers that the engine wants to be positive are so as it reads them: the price of an Add, in ticks, and the
quantity of an Add or an execution. -/
def Fits (unspecified : List Char → Int64) : Order → Prop
  | .add _ _ price qty => 0 < ticks unspecified price ∧ 0 < (Int64.ofIntClamp qty).toInt32
  | .cancel .. => True
  | .execute _ _ qty => 0 < (Int64.ofIntClamp qty).toInt32

instance (unspecified : List Char → Int64) : (o : Order) → Decidable (o.Fits unspecified)
  | .add .. => inferInstanceAs (Decidable (_ ∧ _))
  | .cancel .. => inferInstanceAs (Decidable True)
  | .execute .. => inferInstanceAs (Decidable (_ < _))

theorem parseUserLine_line_iff (o : Order) {unspecified : List Char → Int64} {seqNo nowNs : UInt64} {m : WireMessage} :
    parseUserLine (llroundHundredths unspecified) o.line seqNo nowNs = some m ↔
      o.Fits unspecified ∧ m = o.message unspecified seqNo nowNs := by
  unfold parseUserLine
  rw [lineColumns_line, Option.bind_some]
  cases o with
  | add id side price qty =>
    have hside : upperFirst [side.1] = side.1 := by
      rcases side.2 with h | h <;> rw [h] <;> rfl
    rw [columns, message_add, hside, parsePriceTicks_fixed2, strtolInt32_decimalStr, and_iff_right side.2]
    rfl
  | cancel id qty =>
    rw [columns, message_cancel, Option.elim_some, strtolInt32_decimalStr]
    exact (and_iff_right trivial).symm
  | execute id price qty =>
    rw [columns, message_execute, parsePriceTicks_fixed2, strtolInt32_decimalStr]
    rfl

end Order

/-! ### Values that fit -/

theorem roundHalfEven_intCast (i : Int) : roundHalfEven i = i := by
  unfold roundHalfEven
  simp

theorem hundredths_div {c : Int} (h : 0 ≤ c) : hundredths (.finite false (c / 100)) = some c := by
  have hround : roundHalfEven (100 * ((c : ℚ) / 100)) = c := by
    rw [mul_div_cancel₀ _ (by norm_num), roundHalfEven_intCast]
  unfold hundredths
  dsimp only
  rw [hround]
  show some (c.toNat : Int) = some c
  rw [Int.toNat_of_nonneg h]

/-- A price in hundredths that fits is read as it is. -/
theorem ticks_div (unspecified : List Char → Int64) {c : Int} (h : 0 ≤ c) (hlt : c < 2 ^ 31) :
    (ticks unspecified (.finite false (c / 100))).toInt = c := by
  have hmin : Int64.minValue.toInt = -2 ^ 63 := rfl
  have hmax : Int64.maxValue.toInt = 2 ^ 63 - 1 := rfl
  unfold ticks
  rw [hundredths_div h]
  dsimp only
  rw [if_pos (by omega), Int64.toInt32_ofInt, Int32.toInt_ofInt_of_le (by omega) hlt]

theorem toInt_narrowed {q : Int} (h : 0 ≤ q) (hlt : q < 2 ^ 31) : (Int64.ofIntClamp q).toInt32.toInt = q := by
  rw [Int64.toInt32_ofIntClamp (by omega) (by omega), Int32.toInt_ofInt_of_le (by omega) hlt]

/-- The message has the type and the values of the order, as far as its type has fields for them. -/
def Carries (orderType side : Char) (id price qty : Int) (m : WireMessage) : Prop :=
  m.msgType = orderType.toUInt8 ∧
    (orderType = 'A' → (m.add.orderId.toNat : Int) = id ∧ m.add.side = side.toUInt8 ∧ m.add.price.toInt = price ∧
      m.add.quantity.toInt = qty) ∧
    (orderType = 'X' → (m.cancel.orderId.toNat : Int) = id ∧ m.cancel.quantity.toInt = qty) ∧
    (orderType = 'E' → (m.exec.orderId.toNat : Int) = id ∧ m.exec.matchPrice.toInt = price ∧
      m.exec.execQuantity.toInt = qty)

instance (orderType side : Char) (id price qty : Int) (m : WireMessage) :
    Decidable (Carries orderType side id price qty m) :=
  inferInstanceAs (Decidable (_ ∧ _))

theorem upper_strip_letter (py : Runtime) {c : Char} (hascii : isASCII c = true) (hspace : Python.isspace c = false)
    (hupper : c.toUpper = c) : upper py (strip (str py (.str [c]))) = [c] := by
  have hstrip : strip [c] = [c] := by
    unfold strip dropEndWhile
    simp [hspace]
  show upper py (strip [c]) = [c]
  rw [hstrip]
  unfold upper
  rw [List.flatMap_singleton, py.upper_ascii c hascii, hupper]

section

variable (py : Runtime) (unspecified : List Char → Int64) (seqNo nowNs : UInt64) {side : Char} {id price qty : Int}

/-- The values are read as an order, and the engine reads the values of the order. -/
def Carried (orderType side : Char) (id price qty : Int) : Prop :=
  ∃ o : Order,
    o.ReadFrom py (.str [orderType]) (.int id) (.str [side]) (.float (.finite false (price / 100))) (.int qty) ∧
      o.Fits unspecified ∧ Carries orderType side id price qty (o.message unspecified seqNo nowNs)

theorem toNat_strtoull_decimalStr (hid : 1 ≤ id ∧ id < UInt64.size) : ((strtoull (decimalStr id)).toNat : Int) = id :=
  (strtoull_eq_iff (value_decimalStr id)).2 ⟨by omega, hid.2⟩

theorem carried_add (hid : 1 ≤ id ∧ id < UInt64.size) (hside : side = 'B' ∨ side = 'S')
    (hprice : 1 ≤ price ∧ price < 2 ^ 31) (hqty : 1 ≤ qty ∧ qty < 2 ^ 31) :
    Carried py unspecified seqNo nowNs 'A' side id price qty := by
  have hreadPrice := ticks_div unspecified (by omega : 0 ≤ price) hprice.2
  have hreadQty := toInt_narrowed (by omega : 0 ≤ qty) hqty.2
  have hstrip : upper py (strip (str py (.str [side]))) = [side] := by
    rcases hside with rfl | rfl <;> exact upper_strip_letter py (by decide) (by decide) (by decide)
  have hnonpos : Double.nonpos (.finite false (price / 100)) = false := by
    have hne : price ≠ 0 := by omega
    simp [Double.nonpos, hne]
  refine ⟨.add id ⟨side, hside⟩ (.finite false (price / 100)) qty, ?_, ⟨?_, ?_⟩, WireMessage.msgType_ofAdd _,
    fun _ => ?_, fun h => absurd h (by decide), fun h => absurd h (by decide)⟩
  · exact ⟨upper_strip_letter py (by decide) (by decide) (by decide), rfl, by omega, hstrip, rfl, hnonpos, rfl,
      by omega⟩
  · rw [Int32.pos_iff_toInt, hreadPrice]
    omega
  · rw [Int32.pos_iff_toInt, hreadQty]
    omega
  · rw [Order.message, WireMessage.add_ofAdd]
    exact ⟨toNat_strtoull_decimalStr hid, rfl, hreadPrice, hreadQty⟩

/-- The price and the side are not printed. -/
theorem carried_cancel (hid : 1 ≤ id ∧ id < UInt64.size) (hqty : 0 ≤ qty ∧ qty < 2 ^ 31) :
    Carried py unspecified seqNo nowNs 'X' side id price qty := by
  refine ⟨.cancel id qty, ?_, trivial, WireMessage.msgType_ofCancel _, fun h => absurd h (by decide), fun _ => ?_,
    fun h => absurd h (by decide)⟩
  · exact ⟨upper_strip_letter py (by decide) (by decide) (by decide), rfl, by omega, rfl⟩
  · rw [Order.message, WireMessage.cancel_ofCancel]
    exact ⟨toNat_strtoull_decimalStr hid, toInt_narrowed hqty.1 hqty.2⟩

theorem carried_execute (hid : 1 ≤ id ∧ id < UInt64.size) (hprice : 1 ≤ price ∧ price < 2 ^ 31)
    (hqty : 1 ≤ qty ∧ qty < 2 ^ 31) : Carried py unspecified seqNo nowNs 'E' side id price qty := by
  have hreadQty := toInt_narrowed (by omega : 0 ≤ qty) hqty.2
  refine ⟨.execute id (.finite false (price / 100)) qty, ?_, ?_, WireMessage.msgType_ofExec _,
    fun h => absurd h (by decide), fun h => absurd h (by decide), fun _ => ?_⟩
  · exact ⟨upper_strip_letter py (by decide) (by decide) (by decide), rfl, by omega, rfl, rfl⟩
  · rw [Order.Fits, Int32.pos_iff_toInt, hreadQty]
    omega
  · rw [Order.message, WireMessage.exec_ofExec]
    exact ⟨toNat_strtoull_decimalStr hid, ticks_div unspecified (by omega) hprice.2, hreadQty⟩

end

/-- An order whose values fit reaches the parser of the engine, which reads all of them. -/
theorem parseUserLine_formatOrderCommand (py : Runtime) (unspecified : List Char → Int64) (seqNo nowNs : UInt64)
    {orderType side : Char} {id price qty : Int} (htype : orderType ∈ ['A', 'X', 'E'])
    (hid : 1 ≤ id ∧ id < UInt64.size) (hside : side = 'B' ∨ side = 'S') (hprice : 1 ≤ price ∧ price < 2 ^ 31)
    (hqty : (if orderType = 'X' then 0 else 1) ≤ qty ∧ qty < 2 ^ 31) :
    ∃ line m, formatOrderCommand py (.str [orderType]) (.int id) (.str [side])
          (.float (.finite false (price / 100))) (.int qty) = .ok (line ++ ['\n']) ∧
        getlines (line ++ ['\n']) = [line] ∧ command line = .parseUserLine line ∧
        parseUserLine (llroundHundredths unspecified) line seqNo nowNs = some m ∧
        Carries orderType side id price qty m := by
  obtain ⟨o, hread, hfits, hcarries⟩ : Carried py unspecified seqNo nowNs orderType side id price qty := by
    simp only [List.mem_cons, List.not_mem_nil, or_false] at htype
    rcases htype with rfl | rfl | rfl
    · exact carried_add py unspecified seqNo nowNs hid hside hprice hqty
    · exact carried_cancel py unspecified seqNo nowNs hid hqty
    · exact carried_execute py unspecified seqNo nowNs hid hprice hqty
  refine ⟨o.line, _, hread.formatOrderCommand_eq, ?_, o.command_line, o.parseUserLine_line_iff.2 ⟨hfits, rfl⟩, hcarries⟩
  rw [getlines_newline, List.splitOn_eq_singleton o.newline_line]

theorem parseUserLine_formatOrderCommand_sell :
    ∃ line m, formatOrderCommand ascii (.str ['A']) (.int 1005) (.str ['S'])
          (.float (.finite false ((22550 : Int) / 100))) (.int 300) = .ok (line ++ ['\n']) ∧
        getlines (line ++ ['\n']) = [line] ∧ command line = .parseUserLine line ∧
        parseUserLine (llroundHundredths fun _ => 0) line 7 0 = some m ∧ Carries 'A' 'S' 1005 22550 300 m :=
  parseUserLine_formatOrderCommand ascii (fun _ => 0) 7 0 (by decide) (by decide) (Or.inr rfl) (by decide) (by decide)

end Bridge

end FeedHandler
