import Mathlib.Data.List.Basic

/-!
# The command thread (`commandThreadFunc` of `stream_server.cpp`)

The engine reads its standard input line by line and looks at the start of each line.  A character stands for its
UTF-8 bytes; none of the bytes that the engine looks for occurs inside the encoding of another character.  Only a
`BURST` line is measured and cut anywhere, and so by its bytes (`utf8`).
-/

namespace FeedHandler

namespace StreamServer

/-- The lines that `std::getline` splits the input into. -/
def getlines : List Char → List (List Char)
  | [] => []
  | c :: input =>
    if c = '\n' then
      [] :: getlines input
    else
      match getlines input with
      | [] => [[c]]
      | line :: lines => (c :: line) :: lines

/-- `line.rfind(start, 0) == 0` -/
def startsWith (line : List Char) (start : String) : Bool := start.toList.isPrefixOf line

/-- `while (!s.empty() && p(s.front())) s.erase(0, 1)` -/
def trimFront (s : List Char) : List Char := s.dropWhile fun c => c = ' ' || c = '\t'

/-- `while (!s.empty() && p(s.back())) s.pop_back()` -/
def trimBack (s : List Char) : List Char := (s.reverse.dropWhile fun c => c = ' ' || c = '\r' || c = '\n').reverse

/-- `strtoull(s, nullptr, 10)` -/
def strtoull (s : List Char) : UInt64 :=
  let s := s.dropWhile fun c => c = ' ' || ('\t'.toNat ≤ c.toNat && c.toNat ≤ '\r'.toNat)
  let (negative, s) :=
    match s with
    | '-' :: s => (true, s)
    | '+' :: s => (false, s)
    | s => (false, s)
  let value := (s.takeWhile Char.isDigit).foldl (fun n c => 10 * n + (c.toNat - '0'.toNat)) 0
  if value < UInt64.size then
    if negative then -UInt64.ofNat value else UInt64.ofNat value
  else
    0xFFFFFFFFFFFFFFFF

/-- The bytes of a line, each as the character of its code. -/
def utf8 (line : List Char) : List Char := (line.flatMap String.utf8EncodeChar).map fun b => Char.ofNat b.toNat

/-- What the command thread does with a line. -/
inductive Action where
  /-- hand the line to `parseUserLine` -/
  | parseUserLine (line : List Char)
  | loadFileIntoEngine (filepath : List Char)
  /-- store into `g_burstPending` -/
  | burst (burstAmount : UInt64)
  | reset
  | cross
  | quit
  | skip
deriving DecidableEq, Repr

/-- One round of the loop of `commandThreadFunc`. -/
def command (line : List Char) : Action :=
  if line = [] then
    .skip
  else if startsWith line "ORDER " || startsWith line "order " || startsWith line "A," || startsWith line "X," ||
      startsWith line "E," || startsWith line "A " || startsWith line "X " || startsWith line "E " then
    .parseUserLine line
  else if startsWith line "FILE " then
    .loadFileIntoEngine (trimBack (trimFront (line.drop 5)))
  else if startsWith line "LOAD_EXAMPLE " then
    let name := trimBack (trimFront (line.drop 13))
    if name = "aapl".toList ∨ name = "aapl_l2_book".toList then
      .loadFileIntoEngine "examples/aapl_l2_book.csv".toList
    else if name = "nvda".toList ∨ name = "nvda_order_flow".toList then
      .loadFileIntoEngine "examples/nvda_order_flow.csv".toList
    else if name = "sweep".toList ∨ name = "market_cross_sweep".toList then
      .loadFileIntoEngine "examples/market_cross_sweep.csv".toList
    else
      .loadFileIntoEngine name
  else if startsWith line "BURST" then
    .burst (if (utf8 line).length > 6 then strtoull ((utf8 line).drop 6) else 100000)
  else if line = "RESET".toList ∨ line = "CLEAR".toList then
    .reset
  else if line = "CROSS".toList then
    .cross
  else if line = "QUIT".toList ∨ line = "EXIT".toList then
    .quit
  else
    .skip

/-- The sixth byte of the line is the first of two. -/
example : command "BURSTé5".toList = .burst 0 := by decide

theorem utf8_ascii {line : List Char} (h : ∀ c ∈ line, c.toNat ≤ 127) : utf8 line = line := by
  induction line with
  | nil => rfl
  | cons c line ih =>
    have hc : c.toNat ≤ 127 := h c List.mem_cons_self
    have hencode : String.utf8EncodeChar c = [UInt8.ofNat c.toNat] := if_pos hc
    have hchar : Char.ofNat (UInt8.ofNat c.toNat).toNat = c := by
      rw [UInt8.toNat_ofNat_of_lt' (by show c.toNat < 256; omega), Char.ofNat_toNat]
    have hrest := ih fun d hd => h d (List.mem_cons_of_mem _ hd)
    unfold utf8 at hrest ⊢
    rw [List.flatMap_cons, hencode, List.map_append, hrest, List.map_singleton, hchar]
    rfl

/-- What a line starts with that the command thread takes for an order. -/
def orderPrefixes : List String := ["ORDER ", "order ", "A,", "X,", "E,", "A ", "X ", "E "]

theorem command_eq_parseUserLine_iff (line : List Char) :
    command line = .parseUserLine line ↔ ∃ start ∈ orderPrefixes, startsWith line start = true := by
  have htest : (∃ start ∈ orderPrefixes, startsWith line start = true) ↔
      (startsWith line "ORDER " || startsWith line "order " || startsWith line "A," || startsWith line "X," ||
        startsWith line "E," || startsWith line "A " || startsWith line "X " || startsWith line "E ") = true := by
    simp [orderPrefixes, or_assoc]
  rw [htest]
  unfold command
  split
  · rename_i hnil
    rw [hnil]
    decide
  · split
    · rename_i h
      exact iff_of_true rfl h
    · rename_i h
      refine iff_of_false ?_ h
      dsimp only
      split_ifs <;> simp

/-- The line itself is handed on. -/
theorem eq_of_command_eq_parseUserLine {line line' : List Char} (h : command line = .parseUserLine line') :
    line' = line := by
  unfold command at h
  dsimp only at h
  split_ifs at h
  cases h
  rfl

theorem command_eq_quit_iff (line : List Char) :
    command line = .quit ↔ line = "QUIT".toList ∨ line = "EXIT".toList := by
  constructor
  · intro h
    unfold command at h
    dsimp only at h
    split_ifs at h with _ _ _ _ _ _ _ _ _ _ hquit
    exact hquit
  · rintro (rfl | rfl) <;> decide

/-- What the command thread does with the lines, one after the other; it reads no more after `QUIT` or `EXIT`. -/
def commandThreadFunc : List (List Char) → List Action
  | [] => []
  | line :: lines => command line :: if command line = .quit then [] else commandThreadFunc lines

/-- The lines that the command thread reads: none behind a `QUIT` or `EXIT`. -/
def linesRead : List (List Char) → List (List Char)
  | [] => []
  | line :: lines => line :: if command line = .quit then [] else linesRead lines

theorem commandThreadFunc_eq (lines : List (List Char)) : commandThreadFunc lines = (linesRead lines).map command := by
  induction lines with
  | nil => rfl
  | cons line lines ih =>
    rw [commandThreadFunc, linesRead, List.map_cons, ih]
    split <;> rfl

/-- The round of a line comes unless an earlier line ends the thread. -/
theorem getElem?_commandThreadFunc (before : List (List Char)) (line : List Char) (after : List (List Char)) :
    (commandThreadFunc (before ++ line :: after))[before.length]? =
      if ∀ l ∈ before, command l ≠ .quit then some (command line) else none := by
  induction before with
  | nil => simp [commandThreadFunc]
  | cons l before ih =>
    rw [List.cons_append, commandThreadFunc, List.length_cons, List.getElem?_cons_succ]
    by_cases hquit : command l = .quit
    · simp [hquit]
    · rw [if_neg hquit, ih]
      simp [hquit]

/-! ### Lines -/

/-- A text up to its first line break. -/
def firstLine (text : List Char) : List Char := text.takeWhile (· ≠ '\n')

theorem splitOn_newline (text : List Char) : text.splitOn '\n' = firstLine text :: (text.splitOn '\n').tail := by
  induction text with
  | nil => rfl
  | cons c text ih =>
    unfold firstLine at ih ⊢
    rw [List.splitOn_cons_eq_if_modifyHead, List.takeWhile_cons]
    by_cases hc : c = '\n'
    · simp [hc]
    · rw [if_neg (by simpa using hc), ih, List.modifyHead_cons]
      simp [hc]

/-- The lines of a text that ends with a line break. -/
theorem getlines_append (text rest : List Char) :
    getlines (text ++ '\n' :: rest) = text.splitOn '\n' ++ getlines rest := by
  induction text with
  | nil => simp [getlines]
  | cons c text ih =>
    rw [List.cons_append, List.splitOn_cons_eq_if_modifyHead, getlines, ih]
    by_cases hc : c = '\n'
    · simp [hc]
    · rw [if_neg hc, if_neg (by simpa using hc), splitOn_newline]
      rfl

theorem getlines_newline (text : List Char) : getlines (text ++ ['\n']) = text.splitOn '\n' := by
  rw [getlines_append]
  exact List.append_nil _

/-- The lines of a text with a start that has no line break. -/
theorem splitOn_append {start : List Char} (h : '\n' ∉ start) (text : List Char) :
    (start ++ text).splitOn '\n' = (start ++ firstLine text) :: (text.splitOn '\n').tail := by
  induction start with
  | nil => exact splitOn_newline text
  | cons c start ih =>
    rw [List.mem_cons, not_or] at h
    have hc : ¬ (c == '\n') = true := by simpa using Ne.symm h.1
    rw [List.cons_append, List.splitOn_cons_eq_if_modifyHead, if_neg hc, ih h.2]
    rfl

end StreamServer

end FeedHandler
