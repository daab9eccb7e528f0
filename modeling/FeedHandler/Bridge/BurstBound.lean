import FeedHandler.Bridge.Basic
import FeedHandler.Cstdlib.Basic

/-!
# The size of a burst

The bridge caps the count of a `BURST` from above, as an integer of Python.  The engine reads the printed count with
`strtoull`, which takes a numeral with a minus sign modulo `2 ^ 64`: a negative count passes the cap and comes out as
a huge one (`burst_bounded_iff`).
-/

namespace FeedHandler

open Python StreamServer

namespace Bridge

/-- A printed integer has a digit. -/
theorem decimalStr_ne_nil (i : Int) : decimalStr i ≠ [] := by
  intro hnil
  have hvalue : Numeral.value (decimalStr i) = some i := Numeral.value_toString i
  rw [hnil] at hvalue
  cases hvalue

/-- The command thread reads the count of a `BURST` line. -/
theorem command_burst (count : Int) :
    command ("BURST ".toList ++ decimalStr count) = .burst (strtoull (decimalStr count)) := by
  have hlength : 0 < (decimalStr count).length := List.length_pos_iff.2 (decimalStr_ne_nil count)
  have hutf8 : utf8 ("BURST ".toList ++ decimalStr count) = "BURST ".toList ++ decimalStr count := by
    refine utf8_ascii fun c hc => ?_
    rcases List.mem_append.1 hc with hword | hnumber
    · exact of_decide_eq_true (List.all_eq_true.1 (by decide : "BURST ".toList.all (·.toNat ≤ 127) = true) c hword)
    · rcases mem_decimalStr hnumber with rfl | hdigit
      · decide
      · have hrange := Char.isDigit_iff_toNat.1 hdigit
        have hnine : '9'.toNat = 57 := rfl
        omega
  generalize decimalStr count = digits at hlength hutf8 ⊢
  have hline : "BURST ".toList ++ digits = 'B' :: 'U' :: 'R' :: 'S' :: 'T' :: ' ' :: digits := rfl
  rw [hline] at hutf8 ⊢
  unfold command
  rw [hutf8]
  simp [startsWith, hlength]

theorem getlines_burst (count : Int) :
    getlines ("BURST ".toList ++ decimalStr count ++ ['\n']) = ["BURST ".toList ++ decimalStr count] := by
  rw [getlines_newline, List.splitOn_eq_singleton (newline_append (by decide) (newline_decimalStr count))]

theorem sanitizeAndRouteCommand_burst (py : Runtime) {data : Command} (hname : commandName py data = "BURST".toList) :
    sanitizeAndRouteCommand py data = routeBurst py data := by
  unfold sanitizeAndRouteCommand
  rw [hname]
  rfl

/-- The capped count comes out of `strtoull` within the cap when it is not negative, and when it is so far below zero
that it wraps around to a small number. -/
theorem strtoull_min_le_iff (n : Int) :
    (strtoull (decimalStr (min n 500000))).toNat ≤ 500000 ↔ 0 ≤ n ∨ -2 ^ 64 < n ∧ n ≤ 500000 - 2 ^ 64 := by
  have hread := toNat_strtoull (Numeral.value_toString (min n 500000))
  have hsize : UInt64.size = 2 ^ 64 := rfl
  rw [hsize] at hread
  show (strtoull (toString (min n 500000)).toList).toNat ≤ 500000 ↔ _
  generalize (strtoull (toString (min n 500000)).toList).toNat = v at hread ⊢
  split at hread
  · omega
  · omega

/-- A `BURST` with the count `n` is accepted and becomes one line; the value that the command thread stores is at most
500000 exactly when `n` is not negative, or wraps around to such a value. -/
theorem burst_bounded_iff (py : Runtime) (data : Command) (n : Int) (hname : commandName py data = "BURST".toList)
    (hcount : int py (data.count.getD (.int 100000)) = .ok n) :
    ∃ out line burstAmount, sanitizeAndRouteCommand py data = .ok (true, out, []) ∧ getlines out = [line] ∧
      command line = .burst burstAmount ∧
      (burstAmount.toNat ≤ 500000 ↔ 0 ≤ n ∨ -2 ^ 64 < n ∧ n ≤ 500000 - 2 ^ 64) := by
  refine ⟨_, _, _, ?_, getlines_burst (min n 500000), command_burst _, strtoull_min_le_iff n⟩
  rw [sanitizeAndRouteCommand_burst py hname, routeBurst, hcount]
  rfl

/-- The count 7 is stored as 7. -/
theorem burst_bounded_seven :
    ∃ out line burstAmount, sanitizeAndRouteCommand ascii
        { command := some (.str "burst".toList), count := some (.int 7) } = .ok (true, out, []) ∧
      getlines out = [line] ∧ command line = .burst burstAmount ∧
      (burstAmount.toNat ≤ 500000 ↔ 0 ≤ (7 : Int) ∨ -2 ^ 64 < (7 : Int) ∧ (7 : Int) ≤ 500000 - 2 ^ 64) :=
  burst_bounded_iff ascii { command := some (.str "burst".toList), count := some (.int 7) } 7 (by decide) (by decide)

/-- The count -1 passes the cap, and the producer is asked for `2 ^ 64 - 1` messages. -/
theorem burst_bounded_negative :
    ¬ ∀ (py : Runtime) (data : Command) (out err line : Str) (burstAmount : UInt64),
      commandName py data = "BURST".toList → sanitizeAndRouteCommand py data = .ok (true, out, err) →
        line ∈ getlines out → command line = .burst burstAmount → burstAmount.toNat ≤ 500000 := by
  intro h
  have hle := h ascii { command := some (.str "BURST".toList), count := some (.int (-1)) } "BURST -1\n".toList []
    "BURST -1".toList 0xFFFFFFFFFFFFFFFF (by decide) (by decide) (by decide) (by decide)
  exact absurd hle (by decide)

end Bridge

end FeedHandler
