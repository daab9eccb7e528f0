import FeedHandler.Foundation.RecordFile
import FeedHandler.OrderBook.Basic

/-!
# The write-ahead log (`wal_journal.hpp`)

The journal is a file of fixed size, mapped into memory: `ftruncate` cuts it or fills it up with zeros, and every
store through the mapping is a store to the file.  The calls of the operating system succeed.  The end of the log is
not stored; `open` finds it as the first record with type byte `0`.
-/

namespace FeedHandler

/-- `sizeof(WireMessage)` -/
def sizeofWireMessage : Nat := 34

@[simp] theorem sizeofWireMessage_eq : sizeofWireMessage = 34 := rfl

structure WALJournal where
  /-- the bytes of the file behind `mappedPtr_` -/
  file : List UInt8
  maxSizeBytes : Nat
  writeOffsetBytes : Nat
  /-- `mappedPtr_ != nullptr` -/
  mapped : Bool
deriving DecidableEq, Repr

namespace WALJournal

/-- A journal object before `open`, on a file that does not exist yet. -/
def absent : WALJournal where
  file := []
  maxSizeBytes := 0
  writeOffsetBytes := 0
  mapped := false

/-- `records[i]` -/
def record (file : List UInt8) (i : Nat) : WireMessage := ⟨RecordFile.block sizeofWireMessage 0 file i⟩

/-- The offset of the first record with type `0`, and `0` when there is none. -/
def findWriteOffset (file : List UInt8) (recordsInFile : Nat) : Nat :=
  match (List.range recordsInFile).find? fun i => (record file i).msgType = 0 with
  | some i => i * sizeofWireMessage
  | none => 0

/-- Opens or creates a memory-mapped WAL file. -/
def openJournal (w : WALJournal) (maxSizeBytes : Nat) : WALJournal where
  file := RecordFile.resize 0 w.file maxSizeBytes
  maxSizeBytes := maxSizeBytes
  writeOffsetBytes :=
    findWriteOffset (RecordFile.resize 0 w.file maxSizeBytes) (maxSizeBytes / sizeofWireMessage)
  mapped := true

/-- Appends a record; `false` if the capacity of the file is reached. -/
def append (w : WALJournal) (msg : WireMessage) : Bool × WALJournal :=
  if !w.mapped || w.writeOffsetBytes + sizeofWireMessage > w.maxSizeBytes then
    (false, w)
  else
    (true, { w with
      file := RecordFile.write w.file w.writeOffsetBytes msg.bytes.toList
      writeOffsetBytes := w.writeOffsetBytes + sizeofWireMessage })

def recordCount (w : WALJournal) : Nat := w.writeOffsetBytes / sizeofWireMessage

/-- Replays all recorded messages into a book; the number of records replayed, and the book. -/
def recover {Depth : Nat} {TableCapacity : Pow2} (w : WALJournal) (book : LimitOrderBook Depth TableCapacity) :
    Nat × LimitOrderBook Depth TableCapacity :=
  if !w.mapped then
    (0, book)
  else
    (List.range w.recordCount).foldl
      (fun s i =>
        let msg := record w.file i
        if msg.msgType = 'A'.toUInt8 ∨ msg.msgType = 'X'.toUInt8 ∨ msg.msgType = 'E'.toUInt8 then
          (s.1 + 1, s.2.processMessage msg)
        else
          s)
      (0, book)

def close (w : WALJournal) : WALJournal := { w with mapped := false }

end WALJournal

end FeedHandler
