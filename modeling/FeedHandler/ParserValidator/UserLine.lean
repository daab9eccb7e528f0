import FeedHandler.Cstdlib.Basic
import FeedHandler.Protocol

/-!
# Text orders (`parseUserLine` of `parser_validator.hpp`)

A line is split into tokens; the type, and how many tokens follow it, decide which of them are read (`columns`).  What
the columns say becomes a message, or the line is rejected (`message`).  A character stands for a byte, or for the bytes
of its UTF-8 encoding; none of the bytes that the parser looks for occurs inside the encoding of another character.
-/

namespace FeedHandler

open Cstdlib StreamServer

namespace WireParserValidator

/-- The lines that are passed over: empty ones and comments. -/
def ignored : List Char → Bool
  | [] => true
  | '#' :: _ => true
  | '/' :: '/' :: _ => true
  | _ => false

def isSeparator (c : Char) : Bool := c = ',' || c = ' ' || c = '\t' || c = '\r' || c = '\n'

/-- The loop over the characters; `current` is the token that is being read. -/
def tokensFrom (current : List Char) : List Char → List (List Char)
  | [] => if current = [] then [] else [current]
  | c :: line =>
    if isSeparator c then
      if current = [] then tokensFrom [] line else current :: tokensFrom [] line
    else
      tokensFrom (current ++ [c]) line

/-- Tokenize line by comma or whitespace. -/
def tokenize (line : List Char) : List (List Char) := tokensFrom [] line

/-- The tokens behind an optional `ORDER`. -/
def skipOrder : List (List Char) → List (List Char)
  | [] => []
  | token :: tokens => if token = "ORDER".toList ∨ token = "order".toList then tokens else token :: tokens

/-- `std::toupper` of the first character; `s[0]` of an empty string is a null character. -/
def upperFirst (s : List Char) : Char := (s.headD '\x00').toUpper

/-- The tokens from which the fields of a message are read. -/
inductive Columns where
  | add (orderId side price qty : List Char)
  /-- the new quantity is `0` when it is not there -/
  | cancel (orderId : List Char) (newQty : Option (List Char))
  | execute (orderId matchPrice execQty : List Char)
deriving DecidableEq, Repr

/-- Which of the tokens behind the type are read. -/
def columns (type : Char) (tokens : List (List Char)) : Option Columns :=
  if type = 'A' then
    match tokens with
    | orderId :: side :: price :: qty :: _ => some (.add orderId side price qty)
    | _ => none
  else if type = 'X' ∨ type = 'C' then
    match tokens with
    | [] => none
    | [orderId] => some (.cancel orderId none)
    | orderId :: _ :: _ :: newQty :: _ => some (.cancel orderId (some newQty)) -- skip side, price
    | orderId :: newQty :: _ => some (.cancel orderId (some newQty))
  else if type = 'E' then
    match tokens with
    | orderId :: _ :: matchPrice :: execQty :: _ => some (.execute orderId matchPrice execQty) -- skip side
    | [orderId, matchPrice, execQty] => some (.execute orderId matchPrice execQty)
    | _ => none
  else
    none

/-- The columns of a line, if it has any. -/
def lineColumns (line : List Char) : Option Columns :=
  if ignored line then
    none
  else
    match skipOrder (tokenize line) with
    | [] => none
    | typeStr :: tokens => columns (upperFirst typeStr) tokens

/-- `hundredths s` stands for `std::llround(std::strtod(s.c_str(), nullptr) * 100.0)`. -/
def parsePriceTicks (hundredths : List Char → Int64) (s : List Char) : Int32 :=
  if '.' ∈ s then (hundredths s).toInt32 else strtolInt32 s

/-- The message that the columns describe; `none` if they are rejected. -/
def message (hundredths : List Char → Int64) (seqNo nowNs : UInt64) : Columns → Option WireMessage
  | .add orderId side price qty =>
    let side := upperFirst side
    let price := parsePriceTicks hundredths price
    let qty := strtolInt32 qty
    if side ≠ 'B' ∧ side ≠ 'S' then none
    else if price ≤ 0 ∨ qty ≤ 0 then none
    else some (.ofAdd ⟨'A'.toUInt8, seqNo, nowNs, strtoull orderId, side.toUInt8, price, qty⟩)
  | .cancel orderId newQty => some (.ofCancel ⟨'X'.toUInt8, seqNo, nowNs, strtoull orderId, newQty.elim 0 strtolInt32⟩)
  | .execute orderId matchPrice execQty =>
    let matchPrice := parsePriceTicks hundredths matchPrice
    let execQty := strtolInt32 execQty
    if execQty ≤ 0 then none
    else some (.ofExec ⟨'E'.toUInt8, seqNo, nowNs, strtoull orderId, execQty, matchPrice⟩)

/-- Parses a user-supplied text line; `none` if it is rejected. -/
def parseUserLine (hundredths : List Char → Int64) (line : List Char) (seqNo nowNs : UInt64) : Option WireMessage :=
  (lineColumns line).bind (message hundredths seqNo nowNs)

example : parseUserLine (fun _ => 22500) "E,1006,0,225.00,500".toList 7 0 =
    some (.ofExec ⟨'E'.toUInt8, 7, 0, 1006, 500, 22500⟩) := by decide

/-! ### What is accepted -/

section

variable {hundredths : List Char → Int64} {line : List Char} {seqNo nowNs : UInt64} {m : WireMessage}

theorem parseUserLine_eq_some : parseUserLine hundredths line seqNo nowNs = some m ↔
    ∃ cols, lineColumns line = some cols ∧ message hundredths seqNo nowNs cols = some m := Option.bind_eq_some_iff

theorem message_add {orderId side price qty : List Char} :
    message hundredths seqNo nowNs (.add orderId side price qty) = some m ↔
      ((upperFirst side = 'B' ∨ upperFirst side = 'S') ∧ 0 < parsePriceTicks hundredths price ∧ 0 < strtolInt32 qty) ∧
        m = .ofAdd ⟨'A'.toUInt8, seqNo, nowNs, strtoull orderId, (upperFirst side).toUInt8,
          parsePriceTicks hundredths price, strtolInt32 qty⟩ := by
  unfold message
  dsimp only
  by_cases hside : upperFirst side = 'B' ∨ upperFirst side = 'S'
  · rw [if_neg (by rwa [ne_eq, ne_eq, ← not_or, not_not])]
    by_cases hpos : parsePriceTicks hundredths price ≤ 0 ∨ strtolInt32 qty ≤ 0
    · rw [if_pos hpos]
      refine iff_of_false (by simp) fun h => ?_
      rcases hpos with hpos | hpos
      · exact Int32.not_le.2 h.1.2.1 hpos
      · exact Int32.not_le.2 h.1.2.2 hpos
    · rw [if_neg hpos, Option.some.injEq, eq_comm]
      rw [not_or, Int32.not_le, Int32.not_le] at hpos
      simp [hside, hpos]
  · rw [if_pos (not_or.1 hside)]
    exact iff_of_false (by simp) fun h => hside h.1.1

theorem message_cancel {orderId : List Char} {newQty : Option (List Char)} :
    message hundredths seqNo nowNs (.cancel orderId newQty) = some m ↔
      m = .ofCancel ⟨'X'.toUInt8, seqNo, nowNs, strtoull orderId, newQty.elim 0 strtolInt32⟩ := by
  unfold message
  rw [Option.some.injEq, eq_comm]

theorem message_execute {orderId matchPrice execQty : List Char} :
    message hundredths seqNo nowNs (.execute orderId matchPrice execQty) = some m ↔
      0 < strtolInt32 execQty ∧ m = .ofExec ⟨'E'.toUInt8, seqNo, nowNs, strtoull orderId, strtolInt32 execQty,
        parsePriceTicks hundredths matchPrice⟩ := by
  unfold message
  dsimp only
  by_cases hqty : strtolInt32 execQty ≤ 0
  · rw [if_pos hqty]
    exact iff_of_false (by simp) fun h => Int32.not_le.2 h.1 hqty
  · rw [if_neg hqty, Option.some.injEq, eq_comm]
    rw [Int32.not_le] at hqty
    simp [hqty]

end

/-! ### Tokens -/

theorem tokensFrom_token {token : List Char} (h : token.all (!isSeparator ·) = true) (current rest : List Char) :
    tokensFrom current (token ++ rest) = tokensFrom (current ++ token) rest := by
  induction token generalizing current with
  | nil => simp
  | cons c token ih =>
    rw [List.all_cons, Bool.and_eq_true, Bool.not_eq_true'] at h
    rw [List.cons_append, tokensFrom, h.1, if_neg (by decide), ih h.2]
    simp

/-- The token before a separator. -/
theorem tokenize_cons {token : List Char} (h : token.all (!isSeparator ·) = true) (hne : token ≠ []) {c : Char}
    (hc : isSeparator c = true) (rest : List Char) : tokenize (token ++ c :: rest) = token :: tokenize rest := by
  unfold tokenize
  rw [tokensFrom_token h, List.nil_append, tokensFrom, if_pos hc, if_neg hne]

theorem tokenize_singleton {token : List Char} (h : token.all (!isSeparator ·) = true) (hne : token ≠ []) :
    tokenize token = [token] := by
  have htoken := tokensFrom_token h [] []
  rw [List.append_nil, List.nil_append] at htoken
  unfold tokenize
  rw [htoken, tokensFrom, if_neg hne]

/-- A text that is one token. -/
def IsToken (token : List Char) : Prop := token ≠ [] ∧ token.all (!isSeparator ·) = true

theorem isToken_singleton {c : Char} (h : isSeparator c = false) : IsToken [c] := by
  refine ⟨List.cons_ne_nil _ _, ?_⟩
  simp [h]

/-- Tokens with commas between them. -/
theorem tokenize_intercalate {tokens : List (List Char)} (h : ∀ token ∈ tokens, IsToken token) :
    tokenize ([','].intercalate tokens) = tokens := by
  induction tokens with
  | nil => rfl
  | cons token tokens ih =>
    obtain ⟨hne, hall⟩ := h token (List.mem_cons_self ..)
    have hrest := ih fun t ht => h t (List.mem_cons_of_mem _ ht)
    cases tokens with
    | nil =>
      rw [List.intercalate_singleton]
      exact tokenize_singleton hall hne
    | cons second tokens =>
      rw [List.intercalate_cons_cons, List.append_assoc, List.singleton_append,
        tokenize_cons hall hne (by decide), hrest]

/-- A token that is being read becomes the first one. -/
theorem exists_tokensFrom_eq {current : List Char} (h : current ≠ []) (line : List Char) :
    ∃ more tokens, tokensFrom current line = (current ++ more) :: tokens := by
  induction line generalizing current with
  | nil => exact ⟨[], [], by rw [tokensFrom, if_neg h, List.append_nil]⟩
  | cons c line ih =>
    rw [tokensFrom]
    split
    · exact ⟨[], tokensFrom [] line, by rw [List.append_nil]⟩
    · have hne : current ++ [c] ≠ [] := by simp
      obtain ⟨more, tokens, heq⟩ := ih hne
      exact ⟨c :: more, tokens, by simp [heq]⟩

theorem exists_tokenize_eq {c : Char} (h : isSeparator c = false) (line : List Char) :
    ∃ more tokens, tokenize (c :: line) = (c :: more) :: tokens := by
  unfold tokenize
  rw [tokensFrom, h, if_neg (by decide)]
  exact exists_tokensFrom_eq (List.cons_ne_nil _ _) line

theorem toUpper_of_isSeparator {c : Char} (h : isSeparator c = true) : c.toUpper = c := by
  simp only [isSeparator, Bool.or_eq_true, decide_eq_true_eq] at h
  rcases h with (((rfl | rfl) | rfl) | rfl) | rfl <;> decide

theorem isSeparator_of_isDigit {c : Char} (h : c.isDigit = true) : isSeparator c = false :=
  Numeral.of_isDigit h (P := fun c => isSeparator c = false) (by decide)

end WireParserValidator

end FeedHandler
