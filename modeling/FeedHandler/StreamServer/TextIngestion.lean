import FeedHandler.Foundation.Runs
import FeedHandler.OrderBook.Sequencing
import FeedHandler.ParserValidator.UserLine

/-!
# The numbers of text orders (`runUserFile`, `loadFileIntoEngine`, `commandThreadFunc`)

Three loops give sequence numbers to lines of text: `runUserFile` of `main.cpp` to every line of its file,
`loadFileIntoEngine` to every line that is no comment, and the command thread to every order it is sent.  The number is
taken before the line is parsed, so a line that is rejected leaves a hole (`inSequence_iff`).
-/

namespace FeedHandler

open WireParserValidator

namespace StreamServer

/-- A line of text, and what the clock says when it is parsed. -/
structure TextLine where
  text : List Char
  nowNs : UInt64

variable (hundredths : List Char → Int64)

/-- The loop of `runUserFile` from the number `seqNo` on: the messages that are processed afterwards. -/
def userFileLoop (seqNo : UInt64) : List TextLine → List WireMessage
  | [] => []
  | line :: lines =>
    (parseUserLine hundredths line.text seqNo line.nowNs).toList ++ userFileLoop (seqNo + 1) lines

/-- `runUserFile` -/
def runUserFile (lines : List TextLine) : List WireMessage := userFileLoop hundredths 1 lines

/-- `loadFileIntoEngine`: the messages that are pushed, and `g_userSeqNo` afterwards. -/
def loadFileIntoEngine (userSeqNo : UInt64) : List TextLine → List WireMessage × UInt64
  | [] => ([], userSeqNo)
  | line :: lines =>
    if ignored line.text then
      loadFileIntoEngine userSeqNo lines
    else
      let (msgs, userSeqNo') := loadFileIntoEngine (userSeqNo + 1) lines
      ((parseUserLine hundredths line.text userSeqNo line.nowNs).toList ++ msgs, userSeqNo')

/-- The commands that bring text orders. -/
inductive TextCommand where
  /-- a line that the command thread hands to `parseUserLine` -/
  | order (line : TextLine)
  /-- a file that it hands to `loadFileIntoEngine` -/
  | load (lines : List TextLine)

/-- The messages that the command thread pushes for such commands, from a value of `g_userSeqNo` on. -/
def textCommands (userSeqNo : UInt64) : List TextCommand → List WireMessage
  | [] => []
  | .order line :: commands =>
    (parseUserLine hundredths line.text userSeqNo line.nowNs).toList ++ textCommands (userSeqNo + 1) commands
  | .load lines :: commands =>
    let (msgs, userSeqNo') := loadFileIntoEngine hundredths userSeqNo lines
    msgs ++ textCommands userSeqNo' commands

/-- The lines that the command thread numbers. -/
def numberedLines (commands : List TextCommand) : List TextLine :=
  commands.flatMap fun
    | .order line => [line]
    | .load lines => lines.filter fun line => !ignored line.text

/-- The messages carry the numbers from 1 on, and a book that processes them detects no gap. -/
structure InSequence (Depth : Nat) (TableCapacity : Pow2) (msgs : List WireMessage) : Prop where
  consecutive : msgs.map (·.seqNo) = (List.range' 1 msgs.length).map UInt64.ofNat
  noGap : (LimitOrderBook.run Depth TableCapacity msgs).sequenceGapsDetected = 0

/-- `parseUserLine` returns `true`, whatever the number and the clock say. -/
def accepts (line : TextLine) : Bool := (parseUserLine hundredths line.text 0 0).isSome

/-- The number of rejected lines, after one more line. -/
def countRejected (rejected : Nat) (line : TextLine) : Nat :=
  if accepts hundredths line then rejected else rejected + 1

/-- Wherever a line is accepted, the number of lines rejected before it is a multiple of `2^64`; so there is none, in
fewer lines than that. -/
def NoneRejectedBefore (lines : List TextLine) : Prop :=
  Runs.Along (countRejected hundredths)
    (fun rejected line => accepts hundredths line = true → UInt64.size ∣ rejected) 0 lines

instance (lines : List TextLine) : Decidable (NoneRejectedBefore hundredths lines) :=
  inferInstanceAs (Decidable (Runs.Along _ _ _ _))

variable {hundredths}

/-! ### One line -/

/-- The number and the clock have no part in accepting a line. -/
theorem isSome_parseUserLine (hundredths : List Char → Int64) (line : TextLine) (seqNo : UInt64) :
    (parseUserLine hundredths line.text seqNo line.nowNs).isSome = accepts hundredths line := by
  unfold accepts parseUserLine
  cases lineColumns line.text with
  | none => rfl
  | some cols =>
    cases cols with
    | add orderId side price qty =>
      simp only [Option.bind_some, message]
      split_ifs <;> rfl
    | cancel orderId newQty => rfl
    | execute orderId matchPrice execQty =>
      simp only [Option.bind_some, message]
      split_ifs <;> rfl

theorem seqNo_parseUserLine {text : List Char} {seqNo nowNs : UInt64} {m : WireMessage}
    (h : parseUserLine hundredths text seqNo nowNs = some m) : m.seqNo = seqNo := by
  obtain ⟨cols, -, hmessage⟩ := parseUserLine_eq_some.1 h
  cases cols with
  | add orderId side price qty =>
    obtain ⟨-, rfl⟩ := message_add.1 hmessage
    show (WireMessage.ofAdd _).add.seqNo = _
    rw [WireMessage.add_ofAdd]
  | cancel orderId newQty =>
    obtain rfl := message_cancel.1 hmessage
    show (WireMessage.ofCancel _).cancel.seqNo = _
    rw [WireMessage.cancel_ofCancel]
  | execute orderId matchPrice execQty =>
    obtain ⟨-, rfl⟩ := message_execute.1 hmessage
    show (WireMessage.ofExec _).exec.seqNo = _
    rw [WireMessage.exec_ofExec]

/-! ### The loops -/

theorem userFileLoop_append (seqNo : UInt64) (lines more : List TextLine) :
    userFileLoop hundredths seqNo (lines ++ more) =
      userFileLoop hundredths seqNo lines ++ userFileLoop hundredths (seqNo + UInt64.ofNat lines.length) more := by
  induction lines generalizing seqNo with
  | nil => simp [userFileLoop]
  | cons line lines ih =>
    have hnext : seqNo + UInt64.ofNat (line :: lines).length = seqNo + 1 + UInt64.ofNat lines.length := by
      rw [List.length_cons, Nat.add_comm, UInt64.ofNat_add, UInt64.add_assoc]
      rfl
    rw [List.cons_append, userFileLoop, userFileLoop, ih, hnext, List.append_assoc]

/-- Loading a file numbers the lines that are no comments. -/
theorem loadFileIntoEngine_eq (userSeqNo : UInt64) (lines : List TextLine) :
    loadFileIntoEngine hundredths userSeqNo lines =
      (userFileLoop hundredths userSeqNo (lines.filter fun line => !ignored line.text),
        userSeqNo + UInt64.ofNat (lines.filter fun line => !ignored line.text).length) := by
  induction lines generalizing userSeqNo with
  | nil => simp [loadFileIntoEngine, userFileLoop]
  | cons line lines ih =>
    unfold loadFileIntoEngine
    by_cases hignored : ignored line.text = true
    · rw [if_pos hignored, ih, List.filter_cons_of_neg (by simp [hignored])]
    · rw [if_neg hignored, ih, List.filter_cons_of_pos (by simpa using hignored), userFileLoop, List.length_cons,
        Nat.add_comm, UInt64.ofNat_add, ← UInt64.add_assoc]
      rfl

/-- The command thread numbers lines as `runUserFile` does. -/
theorem textCommands_eq (userSeqNo : UInt64) (commands : List TextCommand) :
    textCommands hundredths userSeqNo commands = userFileLoop hundredths userSeqNo (numberedLines commands) := by
  induction commands generalizing userSeqNo with
  | nil => rfl
  | cons command commands ih =>
    cases command with
    | order line => rw [textCommands, ih]; rfl
    | load lines =>
      have hlines : numberedLines (.load lines :: commands) =
          (lines.filter fun line => !ignored line.text) ++ numberedLines commands := rfl
      rw [textCommands, loadFileIntoEngine_eq, hlines, userFileLoop_append]
      dsimp only
      rw [ih]

theorem ofNat_eq_iff (k j : Nat) : UInt64.ofNat k = UInt64.ofNat j ↔ k % UInt64.size = j % UInt64.size := by
  rw [← UInt64.toNat_inj, UInt64.toNat_ofNat', UInt64.toNat_ofNat']

theorem ofNat_succ (k : Nat) : UInt64.ofNat k + 1 = UInt64.ofNat (k + 1) := (UInt64.ofNat_add k 1).symm

/-- The numbers of the accepted lines, when the loop is at `k` and the next message should have the number `j`. -/
theorem map_userFileLoop_iff (hundredths : List Char → Int64) (lines : List TextLine) (rejected k j : Nat)
    (h : k = j + rejected) :
    (userFileLoop hundredths (UInt64.ofNat k) lines).map (·.seqNo) =
        (List.range' j (userFileLoop hundredths (UInt64.ofNat k) lines).length).map UInt64.ofNat ↔
      Runs.Along (countRejected hundredths)
        (fun rejected line => accepts hundredths line = true → UInt64.size ∣ rejected) rejected lines := by
  induction lines generalizing rejected k j with
  | nil => exact iff_of_true rfl trivial
  | cons line lines ih =>
    have haccepts := isSome_parseUserLine hundredths line (UInt64.ofNat k)
    unfold userFileLoop Runs.Along
    cases hparse : parseUserLine hundredths line.text (UInt64.ofNat k) line.nowNs with
    | none =>
      rw [hparse, Option.isSome_none] at haccepts
      have hcount : countRejected hundredths rejected line = rejected + 1 := if_neg (by simp [← haccepts])
      rw [hcount, Option.toList_none, List.nil_append, ofNat_succ,
        ih (rejected + 1) (k + 1) j (by omega), ← haccepts]
      simp
    | some m =>
      rw [hparse, Option.isSome_some] at haccepts
      have hcount : countRejected hundredths rejected line = rejected := if_pos haccepts.symm
      have hnumber : UInt64.ofNat k = UInt64.ofNat j ↔ UInt64.size ∣ rejected := by
        have hsize : UInt64.size = 2 ^ 64 := rfl
        rw [ofNat_eq_iff, h, hsize]
        omega
      rw [hcount, Option.toList_some, List.singleton_append, List.map_cons, List.length_cons, List.range'_succ,
        List.map_cons, List.cons.injEq, seqNo_parseUserLine hparse, hnumber, ofNat_succ,
        ih rejected (k + 1) (j + 1) (by omega), ← haccepts]
      simp

/-- Numbers from 1 on leave no gap. -/
theorem inSequence_of_consecutive (Depth : Nat) (TableCapacity : Pow2) {msgs : List WireMessage}
    (h : msgs.map (·.seqNo) = (List.range' 1 msgs.length).map UInt64.ofNat) : InSequence Depth TableCapacity msgs where
  consecutive := h
  noGap := LimitOrderBook.foldl_sequenceGapsDetected (.reset Depth TableCapacity) (k := 1) rfl h

/-- The messages of either kind of ingestion are in sequence exactly when no line that got a number is rejected before
an accepted one. -/
theorem inSequence_iff (hundredths : List Char → Int64) (Depth : Nat) (TableCapacity : Pow2) (lines : List TextLine)
    (commands : List TextCommand) :
    (InSequence Depth TableCapacity (runUserFile hundredths lines) ↔ NoneRejectedBefore hundredths lines) ∧
      (InSequence Depth TableCapacity (textCommands hundredths 1 commands) ↔
        NoneRejectedBefore hundredths (numberedLines commands)) := by
  have hloop : ∀ lines, InSequence Depth TableCapacity (userFileLoop hundredths 1 lines) ↔
      NoneRejectedBefore hundredths lines := by
    intro lines
    have hiff := map_userFileLoop_iff hundredths lines 0 1 1 rfl
    exact ⟨fun h => hiff.1 h.consecutive, fun h => inSequence_of_consecutive Depth TableCapacity (hiff.2 h)⟩
  rw [textCommands_eq]
  exact ⟨hloop lines, hloop (numberedLines commands)⟩

/-- A file with a comment before its order, and an order that is rejected before another one. -/
theorem rejected_line_leaves_gap :
    ((runUserFile (fun _ => 0) [⟨"# Type,OrderId,Side,Price,Quantity".toList, 0⟩, ⟨"A,1,B,100,5".toList, 0⟩]).map
          (·.seqNo) = [2] ∧
      (LimitOrderBook.run 1 ⟨4, by decide, by decide⟩ (runUserFile (fun _ => 0)
        [⟨"# Type,OrderId,Side,Price,Quantity".toList, 0⟩, ⟨"A,1,B,100,5".toList, 0⟩])).sequenceGapsDetected = 1) ∧
    (textCommands (fun _ => 0) 1 [.order ⟨"A,1,B,0,5".toList, 0⟩, .order ⟨"A,1,B,100,5".toList, 0⟩]).map
          (·.seqNo) = [2] ∧
      (LimitOrderBook.run 1 ⟨4, by decide, by decide⟩ (textCommands (fun _ => 0) 1
        [.order ⟨"A,1,B,0,5".toList, 0⟩, .order ⟨"A,1,B,100,5".toList, 0⟩])).sequenceGapsDetected = 1 := by
  decide

end StreamServer

end FeedHandler
