import FeedHandler.Bridge.Injection
import FeedHandler.ParserValidator.UserLine

/-!
# Raw lines in the command thread

The bridge looks at the first character of a raw line, the text parser at its tokens, the command thread at eight
literal starts.  Of the lines that the first two accept, the command thread takes those whose type is a capital letter
before a comma or a blank, and those with `ORDER` (`pushes_iff`).
-/

namespace FeedHandler

open Python StreamServer WireParserValidator

namespace Bridge

/-- The first token is `ORDER` or `order`, or the letter of a type, as a capital, with a comma or a blank behind it. -/
def Dispatched (line : Str) : Prop :=
  ∃ token ∈ (tokenize line).head?,
    token ∈ ["ORDER".toList, "order".toList] ∨ token ∈ [['A'], ['X'], ['E']] ∧ line.tail.headD '\x00' ∈ [',', ' ']

instance (line : Str) : Decidable (Dispatched line) := inferInstanceAs (Decidable (∃ token ∈ (tokenize line).head?, _))

/-! ### The first token -/

/-- A line that starts like an order or a comment. -/
theorem dispatched_iff_of_start {c : Char} (hc : c ∈ lineStarts) (rest : Str) :
    command (c :: rest) = .parseUserLine (c :: rest) ↔ Dispatched (c :: rest) := by
  have hall : lineStarts.all (fun c => !isSeparator c && c != 'O' && c != 'o') = true := by decide
  have hstart := List.all_eq_true.1 hall c hc
  simp only [Bool.and_eq_true, Bool.not_eq_true', bne_iff_ne] at hstart
  obtain ⟨⟨hsep, hupper⟩, hlower⟩ := hstart
  rw [command_eq_parseUserLine_iff]
  unfold Dispatched
  obtain ⟨more, tokens, htokens⟩ := exists_tokenize_eq hsep rest
  rw [htokens]
  cases rest with
  | nil => simp [orderPrefixes, startsWith, hupper, hlower]
  | cons d rest =>
    -- in front of a comma or a blank the letter is the whole token
    by_cases hd : d = ',' ∨ d = ' '
    · have hone : tokenize ([c] ++ d :: rest) = [c] :: tokenize rest :=
        tokenize_cons (by simp [hsep]) (List.cons_ne_nil _ _) (by rcases hd with rfl | rfl <;> decide) rest
      rw [List.singleton_append, htokens] at hone
      obtain ⟨hmore, -⟩ := List.cons.inj hone
      rw [hmore]
      rcases hd with rfl | rfl
      · simp [orderPrefixes, startsWith, hupper, hlower, eq_comm (b := c)]
      · simp [orderPrefixes, startsWith, hupper, hlower, eq_comm (b := c)]
    · rw [not_or] at hd
      simp [orderPrefixes, startsWith, hupper, hlower, hupper.symm, hlower.symm, hd, Ne.symm hd.1, Ne.symm hd.2]

/-- Only a blank has a blank for its capital. -/
theorem eq_blank_of_toUpper {c : Char} (h : c.toUpper = ' ') : c = ' ' := by
  by_cases hascii : isASCII c
  · exact of_isASCII hascii (P := fun c => c.toUpper = ' ' → c = ' ') (by decide) h
  · unfold Char.toUpper at h
    split at h
    · rename_i hlower
      refine absurd ?_ hascii
      have hle : c.val ≤ 'z'.val := hlower.2
      rw [UInt32.le_iff_toNat_le] at hle
      simp only [isASCII, UInt32.lt_iff_toNat_lt, decide_eq_true_eq]
      exact Nat.lt_of_le_of_lt hle (by decide)
    · exact h

/-- `ORDER`, in any case, and the blank behind it. -/
theorem exists_word_of_order {start : Str} (h : start.map Char.toUpper = "ORDER ".toList) :
    ∃ word, start = word ++ [' '] ∧ word.length = 5 ∧ word.all (!isSeparator ·) = true := by
  have hsplit : "ORDER ".toList = "ORDER".toList ++ [' '] := rfl
  rw [hsplit, List.map_eq_append_iff] at h
  obtain ⟨word, blank, rfl, hword, hblank⟩ := h
  obtain ⟨c, rfl, hc⟩ := List.map_eq_singleton_iff.1 hblank
  obtain rfl := eq_blank_of_toUpper hc
  refine ⟨word, rfl, ?_, ?_⟩
  · have hlength := congrArg List.length hword
    simpa using hlength
  · -- a separator in the word would be a separator in `ORDER`
    rw [List.all_eq_true]
    intro d hd
    rw [Bool.not_eq_true']
    by_contra hsep
    rw [Bool.not_eq_false] at hsep
    have hmem := List.mem_map_of_mem (f := Char.toUpper) hd
    rw [hword, toUpper_of_isSeparator hsep] at hmem
    have hletters : "ORDER".toList.all (!isSeparator ·) = true := by decide
    have hletter := List.all_eq_true.1 hletters d hmem
    simp [hsep] at hletter

/-- A line with `ORDER`, in any case. -/
theorem dispatched_iff_of_order {start rest : Str} (h : start.map Char.toUpper = "ORDER ".toList) :
    command (start ++ rest) = .parseUserLine (start ++ rest) ↔ Dispatched (start ++ rest) := by
  obtain ⟨word, rfl, hlength, hsep⟩ := exists_word_of_order h
  have hne : word ≠ [] := by
    rintro rfl
    cases hlength
  have htokens : tokenize (word ++ [' '] ++ rest) = word :: tokenize rest := by
    rw [List.append_assoc, List.singleton_append, tokenize_cons hsep hne (by decide)]
  rw [command_eq_parseUserLine_iff]
  unfold Dispatched
  rw [htokens]
  match word, hlength with
  | [a, b, c, d, e], _ =>
    have hb : isSeparator b = false := by simpa using List.all_eq_true.1 hsep b (by simp)
    have hcomma : ',' ≠ b := by
      rintro rfl
      revert hb
      decide
    have hblank : ' ' ≠ b := by
      rintro rfl
      revert hb
      decide
    simp [orderPrefixes, startsWith, hcomma, hblank, eq_comm (b := a), eq_comm (b := b), eq_comm (b := c),
      eq_comm (b := d), eq_comm (b := e)]

theorem OrderStart.dispatched_iff {line : Str} (h : OrderStart line) :
    command line = .parseUserLine line ↔ Dispatched line := by
  rcases h with ⟨c, rest, rfl, hc⟩ | ⟨start, rest, rfl, hstart⟩
  · exact dispatched_iff_of_start hc rest
  · exact dispatched_iff_of_order hstart

/-! ### The round of a line -/

/-- The lines of some texts, each with a line break behind it. -/
def linesOf (texts : List Str) : List Str := getlines (texts.flatMap (· ++ ['\n']))

theorem linesOf_append (texts texts' : List Str) : linesOf (texts ++ texts') = linesOf texts ++ linesOf texts' := by
  induction texts with
  | nil => rfl
  | cons text texts ih =>
    unfold linesOf at ih ⊢
    rw [List.cons_append, List.flatMap_cons, List.flatMap_cons, List.append_assoc, List.singleton_append,
      getlines_append, ih, List.append_assoc, List.singleton_append, getlines_append, List.append_assoc]

theorem linesOf_cons {text : Str} (h : '\n' ∉ text) (texts : List Str) :
    linesOf (text :: texts) = text :: linesOf texts := by
  unfold linesOf
  rw [List.flatMap_cons, List.append_assoc, List.singleton_append, getlines_append, List.splitOn_eq_singleton h,
    List.singleton_append]

/-- The message that a round of the command thread pushes for an order. -/
def pushedOrder (hundredths : List Char → Int64) (seqNo nowNs : UInt64) : Action → Option WireMessage
  | .parseUserLine line => parseUserLine hundredths line seqNo nowNs
  | _ => none

/-- A raw line without a line break that the bridge and the text parser accept: in its round the command thread pushes
its message exactly when the line is dispatched and no line before it ends the thread. -/
theorem pushes_iff (py : Runtime) (hundredths : List Char → Int64) (seqNo nowNs : UInt64) {data : Command}
    {out err : Str} (h : sanitizeAndRouteCommand py data = .ok (true, out, err)) {before after : List Str} {line : Str}
    (htexts : orderTexts py data = before ++ line :: after) (hnewline : '\n' ∉ line) {m : WireMessage}
    (hparse : parseUserLine hundredths line seqNo nowNs = some m) :
    getlines out = linesOf before ++ line :: linesOf after ∧
      ((commandThreadFunc (getlines out))[(linesOf before).length]?.bind (pushedOrder hundredths seqNo nowNs) = some m ↔
        Dispatched line ∧ ∀ l ∈ linesOf before, l ≠ "QUIT".toList ∧ l ≠ "EXIT".toList) := by
  have hmem : line ∈ orderTexts py data := by simp [htexts]
  obtain ⟨hout, hstart⟩ : out = (orderTexts py data).flatMap (· ++ ['\n']) ∧ OrderStart line := by
    -- only a raw line and a batch have lines of orders
    rcases sanitizeAndRouteCommand_ok py h with ⟨-, hnone, -⟩ | ⟨-, hout, hstart⟩ | ⟨-, hnone, -⟩
    · simp [hnone] at hmem
    · exact ⟨hout, hstart line hmem⟩
    · simp [hnone] at hmem
  have hlines : getlines out = linesOf before ++ line :: linesOf after := by
    rw [hout, htexts, ← linesOf, linesOf_append, linesOf_cons hnewline]
  refine ⟨hlines, ?_⟩
  have hquit : (∀ l ∈ linesOf before, command l ≠ .quit) ↔
      ∀ l ∈ linesOf before, l ≠ "QUIT".toList ∧ l ≠ "EXIT".toList := by
    simp only [ne_eq, command_eq_quit_iff, not_or]
  have hpushed : pushedOrder hundredths seqNo nowNs (command line) = some m ↔ command line = .parseUserLine line := by
    constructor
    · intro hsome
      cases hcommand : command line with
      | parseUserLine line' => rw [eq_of_command_eq_parseUserLine hcommand]
      | _ =>
        rw [hcommand] at hsome
        cases hsome
    · intro hcommand
      rw [hcommand]
      exact hparse
  rw [hlines, getElem?_commandThreadFunc, ← hquit, ← hstart.dispatched_iff, ← hpushed]
  split
  · rename_i hread
    rw [Option.bind_some, and_iff_left hread]
  · rename_i hread
    exact iff_of_false (by simp) fun hboth => hread hboth.2

theorem pushes_order_iff :
    getlines "ORDER A 1 B 100 5\n".toList = linesOf [] ++ "ORDER A 1 B 100 5".toList :: linesOf [] ∧
      ((commandThreadFunc (getlines "ORDER A 1 B 100 5\n".toList))[(linesOf []).length]?.bind
          (pushedOrder (fun _ => 0) 7 0) = some (.ofAdd ⟨'A'.toUInt8, 7, 0, 1, 'B'.toUInt8, 100, 5⟩) ↔
        Dispatched "ORDER A 1 B 100 5".toList ∧ ∀ l ∈ linesOf [], l ≠ "QUIT".toList ∧ l ≠ "EXIT".toList) := by
  have hok : sanitizeAndRouteCommand ascii
      { command := some (.str "RAW_LINE".toList), line := some (.str "ORDER A 1 B 100 5".toList) } =
        .ok (true, "ORDER A 1 B 100 5\n".toList, []) := by decide +kernel
  exact pushes_iff ascii (fun _ => 0) 7 0 hok (by decide +kernel) (by decide) (by decide)

/-- An Add with a small letter as a raw line, and one with tabs in a batch. -/
theorem accepted_line_dropped :
    (sanitizeAndRouteCommand ascii
        { command := some (.str "RAW_LINE".toList), line := some (.str "a,1,B,100,5".toList) } =
        .ok (true, "a,1,B,100,5\n".toList, []) ∧
      parseUserLine (fun _ => 0) "a,1,B,100,5".toList 7 0 =
        some (.ofAdd ⟨'A'.toUInt8, 7, 0, 1, 'B'.toUInt8, 100, 5⟩) ∧
      commandThreadFunc (getlines "a,1,B,100,5\n".toList) = [.skip]) ∧
    sanitizeAndRouteCommand ascii
        { command := some (.str "BATCH".toList), lines := some (.list [.str "A\t1\tB\t100\t5".toList]) } =
        .ok (true, "A\t1\tB\t100\t5\n".toList, []) ∧
      parseUserLine (fun _ => 0) "A\t1\tB\t100\t5".toList 7 0 =
        some (.ofAdd ⟨'A'.toUInt8, 7, 0, 1, 'B'.toUInt8, 100, 5⟩) ∧
      commandThreadFunc (getlines "A\t1\tB\t100\t5\n".toList) = [.skip] :=
  ⟨⟨by decide +kernel, by decide, by decide⟩, by decide +kernel, by decide, by decide⟩

end Bridge

end FeedHandler
