import FeedHandler.Foundation.Json
import FeedHandler.Python.Basic

/-!
# What the bridge reads of the engine (`read_cpp_stdout_loop` of `bridge.py`)

The loop reads the output of the engine line by line, strips each line and passes on those that start with a brace.
Output that was written in lines without control characters is read in the same lines (`readlines_line`).
-/

namespace FeedHandler

open Python

namespace Bridge

/-- The lines that `readline` returns until the end of the text; every kind of line end is read as a newline. -/
def readlines : Str → List Str
  | [] => []
  | '\r' :: '\n' :: s => ['\n'] :: readlines s
  | c :: s =>
    if c = '\r' ∨ c = '\n' then
      ['\n'] :: readlines s
    else
      match readlines s with
      | [] => [[c]]
      | line :: lines => (c :: line) :: lines

/-- The text that is sent to the clients for a line; `none` if the line is passed over. -/
def broadcastLine (line : Str) : Option Str :=
  let line_str := strip line
  if line_str = [] ∨ ¬startswith line_str ['\x7b'] = true then none else some line_str

/-- The texts that are sent for the output of the engine. -/
def readStdout (output : Str) : List Str := (readlines output).filterMap broadcastLine

/-- A line without control characters. -/
theorem readlines_line {line : Str} (h : line.all Json.isPrinted = true) (rest : Str) :
    readlines (line ++ '\n' :: rest) = (line ++ ['\n']) :: readlines rest := by
  induction line with
  | nil => rfl
  | cons c line ih =>
    rw [List.all_cons, Bool.and_eq_true] at h
    have hc := h.1
    have hreturn : c ≠ '\r' := by
      rintro rfl
      exact absurd hc (by decide)
    have hnewline : c ≠ '\n' := by
      rintro rfl
      exact absurd hc (by decide)
    have hrest := ih h.2
    rw [List.cons_append, readlines.eq_def]
    split
    · rename_i he
      cases he
    · rename_i he
      exact absurd (List.cons.inj he).1 hreturn
    · rename_i he
      obtain ⟨rfl, rfl⟩ := List.cons.inj he
      rw [if_neg (not_or.2 ⟨hreturn, hnewline⟩), hrest]
      rfl

/-- The newline is stripped from a line in braces, and nothing else. -/
theorem broadcastLine_braces (inner : Str) :
    broadcastLine ('\x7b' :: inner ++ ['\x7d'] ++ ['\n']) = some ('\x7b' :: inner ++ ['\x7d']) := by
  have hstrip : strip ('\x7b' :: inner ++ ['\x7d'] ++ ['\n']) = '\x7b' :: inner ++ ['\x7d'] := by
    have hspace : isspace '\x7b' = false := by decide
    have hclose : isspace '\x7d' = false := by decide
    have hnewline : isspace '\n' = true := by decide
    simp [strip, dropEndWhile, hspace, hclose, hnewline]
  unfold broadcastLine
  dsimp only
  rw [hstrip, if_neg]
  · rw [not_or, not_not]
    exact ⟨List.cons_ne_nil _ _, by simp [startswith]⟩

end Bridge

end FeedHandler
