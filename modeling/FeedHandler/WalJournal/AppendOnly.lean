import FeedHandler.Foundation.Runs
import FeedHandler.WalJournal.Recovery

/-!
# Records across restarts

A history is a journal together with the records whose `append` returned `true`, each with its index.  As long as
every `open` finds an end mark behind these records, the journal holds them (`Intact`), and nothing that was
appended is changed or forgotten.  Without an end mark (the file is full), or with a record that looks like one (its
type byte is `0`), `open` forgets records, and the next `append` writes over one of them.
-/

namespace FeedHandler

namespace WALJournal

/-- What a client does with a journal. -/
inductive Op where
  | openJournal
  | append (msg : WireMessage)
  | close
deriving DecidableEq, Repr

/-- A journal and the records appended to it so far, each with its index in the file. -/
structure History where
  wal : WALJournal
  appended : List (Nat × WireMessage)
deriving DecidableEq, Repr

namespace History

/-- Nothing was appended, and there is no file. -/
def start : History where
  wal := absent
  appended := []

def msgs (s : History) : List WireMessage := s.appended.map (·.2)

/-- One operation on a journal whose file has size `maxSizeBytes`. -/
def step (maxSizeBytes : Nat) (s : History) : Op → History
  | .openJournal => { s with wal := s.wal.openJournal maxSizeBytes }
  | .append msg =>
    { wal := (s.wal.append msg).2
      appended := if (s.wal.append msg).1 then s.appended ++ [(s.wal.recordCount, msg)] else s.appended }
  | .close => { s with wal := s.wal.close }

/-- The operation changes no record that was appended, and when it is `open`, the journal counts them all. -/
def AppendOnly (maxSizeBytes : Nat) (s : History) (op : Op) : Prop :=
  (∀ x ∈ s.appended, record (step maxSizeBytes s op).wal.file x.1 = record s.wal.file x.1) ∧
    (op = .openJournal → s.appended.length ≤ (step maxSizeBytes s op).wal.recordCount)

instance (maxSizeBytes : Nat) (s : History) (op : Op) : Decidable (AppendOnly maxSizeBytes s op) :=
  inferInstanceAs (Decidable (_ ∧ _))

/-- When the operation is `open`, the appended records leave room for one more, and all have a type. -/
def EndMarked (maxSizeBytes : Nat) (s : History) (op : Op) : Prop :=
  op = .openJournal →
    s.appended = [] ∨ s.appended.length < maxSizeBytes / sizeofWireMessage ∧ ∀ x ∈ s.appended, x.2.msgType ≠ 0

instance (maxSizeBytes : Nat) (s : History) (op : Op) : Decidable (EndMarked maxSizeBytes s op) :=
  inferInstanceAs (Decidable (_ → _))

/-- The journal holds what was appended, in this order. -/
structure Intact (maxSizeBytes : Nat) (s : History) : Prop where
  holds : Holds maxSizeBytes s.wal s.msgs
  index : ∀ x ∈ s.appended, s.msgs[x.1]? = some x.2

variable {maxSizeBytes : Nat} {s : History}

theorem intact_start (maxSizeBytes : Nat) : Intact maxSizeBytes start where
  holds := holds_absent maxSizeBytes
  index x hx := by cases hx

theorem length_msgs (s : History) : s.msgs.length = s.appended.length := List.length_map ..

theorem Intact.record (h : Intact maxSizeBytes s) {x : Nat × WireMessage} (hx : x ∈ s.appended) :
    WALJournal.record s.wal.file x.1 = x.2 := h.holds.record (h.index x hx)

theorem typed_msgs (s : History) : Typed s.msgs ↔ ∀ x ∈ s.appended, x.2.msgType ≠ 0 :=
  List.forall_mem_map

/-! ### One operation -/

/-- A journal that holds the records appended, and one more behind them. -/
theorem Intact.append (h : Intact maxSizeBytes s) (msg : WireMessage) :
    Intact maxSizeBytes (step maxSizeBytes s (.append msg)) := by
  by_cases hroom : s.wal.mapped = true ∧ s.wal.writeOffsetBytes + sizeofWireMessage ≤ s.wal.maxSizeBytes
  · obtain ⟨hmapped, hle⟩ := hroom
    have hsize := (h.holds.size hmapped).1
    have hoffset := h.holds.offset hmapped
    have hroom' : (s.msgs.length + 1) * sizeofWireMessage ≤ maxSizeBytes := by
      rw [Nat.succ_mul]
      omega
    obtain ⟨htrue, -, hholds⟩ := h.holds.append hmapped hroom' msg
    have hcount : s.wal.recordCount = s.msgs.length := recordCount_of_offset hoffset
    have happended : (step maxSizeBytes s (.append msg)).appended = s.appended ++ [(s.msgs.length, msg)] := by
      show (if (s.wal.append msg).1 then s.appended ++ [(s.wal.recordCount, msg)] else s.appended) = _
      rw [if_pos htrue, hcount]
    have hmsgs : (step maxSizeBytes s (.append msg)).msgs = s.msgs ++ [msg] := by
      unfold msgs
      rw [happended, List.map_append]
      rfl
    refine ⟨by rw [hmsgs]; exact hholds, fun x hx => ?_⟩
    rw [happended, List.mem_append, List.mem_singleton] at hx
    rw [hmsgs]
    rcases hx with hx | rfl
    · have hget := h.index x hx
      rw [List.getElem?_append_left (List.getElem?_eq_some_iff.1 hget).1, hget]
    · simp
  · have happend := append_of_no_room hroom msg
    have hstep : step maxSizeBytes s (.append msg) = s := by
      simp [step, happend]
    rw [hstep]
    exact h

theorem Intact.openJournal (h : Intact maxSizeBytes s) (hend : EndMarked maxSizeBytes s .openJournal) :
    Intact maxSizeBytes (step maxSizeBytes s .openJournal) := by
  refine ⟨h.holds.openJournal ?_, h.index⟩
  rcases hend rfl with hnil | ⟨hlt, htyped⟩
  · left
    simp [msgs, hnil]
  · right
    rw [length_msgs]
    exact ⟨hlt, (typed_msgs s).2 htyped⟩

theorem Intact.step (h : Intact maxSizeBytes s) {op : Op} (hend : EndMarked maxSizeBytes s op) :
    Intact maxSizeBytes (s.step maxSizeBytes op) := by
  cases op with
  | openJournal => exact h.openJournal hend
  | append msg => exact h.append msg
  | close => exact ⟨h.holds.close, h.index⟩

/-- Opening changes no record, whatever it takes for the end of the log. -/
theorem Intact.record_openJournal (h : Intact maxSizeBytes s) {x : Nat × WireMessage} (hx : x ∈ s.appended) :
    WALJournal.record (s.wal.openJournal maxSizeBytes).file x.1 = x.2 := by
  rw [h.holds.file_openJournal]
  exact record_records (h.index x hx) _

/-- Opening counts all records exactly when there is an end mark behind them. -/
theorem Intact.le_recordCount_openJournal_iff (h : Intact maxSizeBytes s) :
    s.appended.length ≤ (s.wal.openJournal maxSizeBytes).recordCount ↔ EndMarked maxSizeBytes s .openJournal := by
  constructor
  · intro hle
    by_contra hend
    unfold EndMarked at hend
    push Not at hend
    obtain ⟨-, hne, hnot⟩ := hend
    have hpos : 0 < s.appended.length := List.length_pos_of_ne_nil hne
    have hlt : (s.wal.openJournal maxSizeBytes).writeOffsetBytes < s.msgs.length * sizeofWireMessage := by
      rw [h.holds.writeOffsetBytes_openJournal]
      by_cases htyped : Typed s.msgs
      · rw [findWriteOffset_full htyped]
        · rw [length_msgs, sizeofWireMessage_eq]
          omega
        · by_contra hroom
          rw [length_msgs] at hroom
          obtain ⟨x, hx, hzero⟩ := hnot (by omega)
          exact (typed_msgs s).1 htyped x hx hzero
      · exact findWriteOffset_of_not_typed htyped _ _
    have hcount : (s.wal.openJournal maxSizeBytes).recordCount < s.msgs.length :=
      Nat.div_lt_of_lt_mul (by rw [Nat.mul_comm]; exact hlt)
    rw [length_msgs] at hcount
    omega
  · intro hend
    have hcount := recordCount_of_offset ((h.openJournal hend).holds.offset rfl)
    exact (hcount.trans (length_msgs s)).ge

theorem Intact.step_iff (h : Intact maxSizeBytes s) (op : Op) :
    AppendOnly maxSizeBytes s op ↔ EndMarked maxSizeBytes s op := by
  cases op with
  | openJournal =>
    refine ⟨fun hop => h.le_recordCount_openJournal_iff.1 (hop.2 rfl), fun hend => ⟨fun x hx => ?_, fun _ => ?_⟩⟩
    · exact (h.record_openJournal hx).trans (h.record hx).symm
    · exact h.le_recordCount_openJournal_iff.2 hend
  | append msg =>
    refine iff_of_true ⟨fun x hx => ?_, fun hop => by cases hop⟩ fun hop => by cases hop
    have hmem : x ∈ (s.step maxSizeBytes (.append msg)).appended := by
      show x ∈ if (s.wal.append msg).1 then _ else s.appended
      split
      · exact List.mem_append_left _ hx
      · exact hx
    exact ((h.append msg).record hmem).trans (h.record hx).symm
  | close => exact iff_of_true ⟨fun x _ => rfl, fun hop => by cases hop⟩ fun hop => by cases hop

/-! ### Any sequence of operations -/

/-- The records appended survive all operations exactly when every `open` meets an end mark behind them. -/
theorem appendOnly_iff (maxSizeBytes : Nat) (ops : List Op) :
    Runs.Along (step maxSizeBytes) (AppendOnly maxSizeBytes) start ops ↔
      Runs.Along (step maxSizeBytes) (EndMarked maxSizeBytes) start ops :=
  Runs.along_congr (fun _ _ h hend => h.step hend) (fun _ op h => h.step_iff op) (intact_start maxSizeBytes) ops

/-- A file with room for one record: after a restart the journal is empty, and the next message overwrites it. -/
theorem record_overwritten :
    ¬ ∀ maxSizeBytes ops, Runs.Along (step maxSizeBytes) (AppendOnly maxSizeBytes) start ops := by
  intro h
  have hfull := h 34 [.openJournal, .append (.ofCancel ⟨'X'.toUInt8, 1, 0, 7, 3⟩), .close, .openJournal,
    .append (.ofCancel ⟨'X'.toUInt8, 2, 0, 8, 3⟩)]
  revert hfull
  decide

end History

end WALJournal

end FeedHandler
