import FeedHandler.Cstdlib.Format
import FeedHandler.OrderBook.MicroPrice
import FeedHandler.StreamServer.Percentiles
import FeedHandler.StreamServer.Producers

/-!
# The snapshot line (`stream_server.cpp`)

`snapshotThreadFunc` writes the state of the engine as one line of JSON, which it puts together from pieces of text.
The line is read back as `snapshotValue`: every number as the double nearest to what was printed, an integer or the six
decimals of a `double` (`writes_snapshotJson`).  The only characters that are not fixed or part of a number are the type
and the side of the packets, which are a few letters (`Produced.lettered`).
-/

namespace FeedHandler

open Cstdlib

namespace LimitOrderBook

variable {Depth : Nat} {TableCapacity : Pow2}

def spread (book : LimitOrderBook Depth TableCapacity) : Int32 :=
  if book.hasBids && book.hasAsks then book.asks[0]!.price - book.bids[0]!.price else 0

end LimitOrderBook

namespace StreamServer

/-- What a round of `snapshotThreadFunc` reads. -/
structure SnapshotData (Depth : Nat) (TableCapacity : Pow2) where
  totalIngested : UInt64
  currentProcessed : UInt64
  currentThroughput : ℚ
  latency : LatencyFigures
  book : LimitOrderBook Depth TableCapacity
  /-- the packets of the tape, the newest first -/
  tape : List PacketRecord

variable {Depth : Nat} {TableCapacity : Pow2}

/-- `std::to_string` of an integer -/
def toStringInt (i : Int) : List Char := (toString i).toList

/-- `std::string(b ? "true" : "false")` -/
def boolText (b : Bool) : List Char := (if b then "true" else "false").toList

/-- `std::string(1, c)` -/
def charText (c : UInt8) : List Char := [Char.ofNat c.toNat]

/-- The loops over the levels and the packets: a comma before each text but the first. -/
def listText {α : Type} (text : α → List Char) (xs : List α) : List Char :=
  (xs.zipIdx.map fun x => (if x.2 > 0 then ",".toList else []) ++ text x.1).flatten

/-- A level in the sections `bids` and `asks`. -/
def levelJson (l : PriceLevel) : List Char :=
  "\x7b\"price\":".toList ++ toStringInt l.price.toInt ++ ",".toList ++
    "\"qty\":".toList ++ toStringInt l.quantity.toInt ++ ",".toList ++
    "\"orders\":".toList ++ toStringInt l.orderCount.toInt ++ ",".toList ++
    "\"active\":".toList ++ boolText l.active ++ "\x7d".toList

/-- A packet in the section `tape`. -/
def packetJson (p : PacketRecord) : List Char :=
  "\x7b\"type\":\"".toList ++ charText p.type ++ "\",".toList ++
    "\"seqNo\":".toList ++ toStringInt p.seqNo.toNat ++ ",".toList ++
    "\"ts\":".toList ++ toStringInt p.timestampNs.toNat ++ ",".toList ++
    "\"orderId\":".toList ++ toStringInt p.orderId.toNat ++ ",".toList ++
    "\"side\":\"".toList ++ charText p.side ++ "\",".toList ++
    "\"price\":".toList ++ toStringInt p.price.toInt ++ ",".toList ++
    "\"qty\":".toList ++ toStringInt p.quantity.toInt ++ "\x7d".toList

/-- Latency section. -/
def latencyJson (f : LatencyFigures) : List Char :=
  "\"latency\":\x7b".toList ++
    "\"min\":".toList ++ toStringDouble f.minNs ++ ",".toList ++
    "\"mean\":".toList ++ toStringDouble f.meanNs ++ ",".toList ++
    "\"p50\":".toList ++ toStringDouble f.p50 ++ ",".toList ++
    "\"p90\":".toList ++ toStringDouble f.p90 ++ ",".toList ++
    "\"p95\":".toList ++ toStringDouble f.p95 ++ ",".toList ++
    "\"p99\":".toList ++ toStringDouble f.p99 ++ ",".toList ++
    "\"p999\":".toList ++ toStringDouble f.p999 ++ ",".toList ++
    "\"max\":".toList ++ toStringDouble f.maxNs ++
    "\x7d,".toList

/-- Analytics. -/
def analyticsJson (book : LimitOrderBook Depth TableCapacity) : List Char :=
  "\"analytics\":\x7b".toList ++
    "\"spread\":".toList ++ toStringInt book.spread.toInt ++ ",".toList ++
    "\"mid\":".toList ++ toStringDouble book.midPrice ++ ",".toList ++
    "\"micro\":".toList ++ toStringDouble book.microPrice ++ ",".toList ++
    "\"trades\":".toList ++ toStringInt book.tradesExecutedCount.toNat ++ ",".toList ++
    "\"gaps\":".toList ++ toStringInt book.sequenceGapsDetected.toNat ++ ",".toList ++
    "\"hasBids\":".toList ++ boolText book.hasBids ++ ",".toList ++
    "\"hasAsks\":".toList ++ boolText book.hasAsks ++
    "\x7d,".toList

/-- The JSON output line, without its newline. -/
def snapshotJson (s : SnapshotData Depth TableCapacity) : List Char :=
  "\x7b\"type\":\"snapshot\",".toList ++
    "\"totalIngested\":".toList ++ toStringInt s.totalIngested.toNat ++ ",".toList ++
    "\"totalProcessed\":".toList ++ toStringInt s.currentProcessed.toNat ++ ",".toList ++
    "\"throughput\":".toList ++ toStringDouble s.currentThroughput ++ ",".toList ++
    "\"isStreaming\":true,".toList ++
    "\"targetRate\":0,".toList ++
    latencyJson s.latency ++
    "\"bids\":[".toList ++ listText levelJson s.book.bids.toList ++ "],".toList ++
    "\"asks\":[".toList ++ listText levelJson s.book.asks.toList ++ "],".toList ++
    analyticsJson s.book ++
    "\"tape\":[".toList ++ listText packetJson s.tape ++ "]\x7d".toList

/-! ### The value of the line -/

open Json

/-- The object with these members. -/
def object (fields : List (String × Json)) : Json := .obj (fields.map fun f => (f.1.toList, f.2))

/-- The double that an integer is read as. -/
def integer (i : Int) : Json := .num (Binary64.nearest i)

/-- The double that the printed decimal is read as. -/
def double (x : ℚ) : Json := .num (Binary64.nearest (sixDecimals x))

def letter (c : UInt8) : Json := .str (charText c)

def levelValue (l : PriceLevel) : Json :=
  object [("price", integer l.price.toInt), ("qty", integer l.quantity.toInt), ("orders", integer l.orderCount.toInt),
    ("active", .bool l.active)]

def packetValue (p : PacketRecord) : Json :=
  object [("type", letter p.type), ("seqNo", integer p.seqNo.toNat), ("ts", integer p.timestampNs.toNat),
    ("orderId", integer p.orderId.toNat), ("side", letter p.side), ("price", integer p.price.toInt),
    ("qty", integer p.quantity.toInt)]

def latencyValue (f : LatencyFigures) : Json :=
  object [("min", double f.minNs), ("mean", double f.meanNs), ("p50", double f.p50), ("p90", double f.p90),
    ("p95", double f.p95), ("p99", double f.p99), ("p999", double f.p999), ("max", double f.maxNs)]

def analyticsValue (book : LimitOrderBook Depth TableCapacity) : Json :=
  object [("spread", integer book.spread.toInt), ("mid", double book.midPrice), ("micro", double book.microPrice),
    ("trades", integer book.tradesExecutedCount.toNat), ("gaps", integer book.sequenceGapsDetected.toNat),
    ("hasBids", .bool book.hasBids), ("hasAsks", .bool book.hasAsks)]

def snapshotValue (s : SnapshotData Depth TableCapacity) : Json :=
  object [("type", .str "snapshot".toList), ("totalIngested", integer s.totalIngested.toNat),
    ("totalProcessed", integer s.currentProcessed.toNat), ("throughput", double s.currentThroughput),
    ("isStreaming", .bool true), ("targetRate", integer 0), ("latency", latencyValue s.latency),
    ("bids", .arr (s.book.bids.toList.map levelValue)), ("asks", .arr (s.book.asks.toList.map levelValue)),
    ("analytics", analyticsValue s.book), ("tape", .arr (s.tape.map packetValue))]

/-! ### The pieces as members -/

/-- Members as pairs of a key and a text. -/
def fieldTexts (fields : List (String × List Char)) : List (List Char × List Char) :=
  fields.map fun f => (f.1.toList, f.2)

/-- The loop puts a comma between two texts. -/
theorem listText_eq {α : Type} (text : α → List Char) (xs : List α) :
    listText text xs = [','].intercalate (xs.map text) := by
  have hlater : ∀ (ys : List α) (i : Nat), 0 < i →
      ((ys.zipIdx i).map fun x => (if x.2 > 0 then ",".toList else []) ++ text x.1).flatten =
        (ys.map fun y => ',' :: text y).flatten := by
    intro ys
    induction ys with
    | nil => exact fun _ _ => rfl
    | cons y ys ih =>
      intro i hi
      rw [List.zipIdx_cons, List.map_cons, List.flatten_cons, ih (i + 1) (Nat.succ_pos i), List.map_cons,
        List.flatten_cons, if_pos hi]
      rfl
  cases xs with
  | nil => rfl
  | cons x xs =>
    unfold listText
    rw [List.zipIdx_cons, List.map_cons, List.flatten_cons, hlater xs (0 + 1) (Nat.succ_pos 0),
      if_neg (Nat.lt_irrefl 0),
      List.nil_append]
    clear hlater
    induction xs generalizing x with
    | nil => simp
    | cons y ys ih =>
      rw [List.map_cons, List.map_cons, List.map_cons, List.intercalate_cons_cons, ← List.map_cons, ← ih y]
      simp

theorem levelJson_eq (l : PriceLevel) :
    levelJson l = members (fieldTexts [("price", toStringInt l.price.toInt), ("qty", toStringInt l.quantity.toInt),
      ("orders", toStringInt l.orderCount.toInt), ("active", boolText l.active)]) := by
  unfold levelJson fieldTexts members
  simp only [List.map_cons, List.map_nil, List.intercalate_cons_cons, List.intercalate_singleton, member, quoted,
    List.append_assoc, List.cons_append]
  rfl

theorem packetJson_eq (p : PacketRecord) :
    packetJson p = members (fieldTexts [("type", quoted (charText p.type)), ("seqNo", toStringInt p.seqNo.toNat),
      ("ts", toStringInt p.timestampNs.toNat), ("orderId", toStringInt p.orderId.toNat),
      ("side", quoted (charText p.side)), ("price", toStringInt p.price.toInt),
      ("qty", toStringInt p.quantity.toInt)]) := by
  unfold packetJson fieldTexts members
  simp only [List.map_cons, List.map_nil, List.intercalate_cons_cons, List.intercalate_singleton, member, quoted,
    List.append_assoc, List.cons_append]
  rfl

/-- The object of the section `latency`. -/
def latencyText (f : LatencyFigures) : List Char :=
  members (fieldTexts [("min", toStringDouble f.minNs), ("mean", toStringDouble f.meanNs),
    ("p50", toStringDouble f.p50), ("p90", toStringDouble f.p90), ("p95", toStringDouble f.p95),
    ("p99", toStringDouble f.p99), ("p999", toStringDouble f.p999), ("max", toStringDouble f.maxNs)])

theorem latencyJson_eq (f : LatencyFigures) : latencyJson f = member ("latency".toList, latencyText f) ++ [','] := by
  unfold latencyJson latencyText fieldTexts members
  simp only [List.map_cons, List.map_nil, List.intercalate_cons_cons, List.intercalate_singleton, member, quoted,
    List.append_assoc, List.cons_append]
  rfl

/-- The object of the section `analytics`. -/
def analyticsText (book : LimitOrderBook Depth TableCapacity) : List Char :=
  members (fieldTexts [("spread", toStringInt book.spread.toInt), ("mid", toStringDouble book.midPrice),
    ("micro", toStringDouble book.microPrice), ("trades", toStringInt book.tradesExecutedCount.toNat),
    ("gaps", toStringInt book.sequenceGapsDetected.toNat), ("hasBids", boolText book.hasBids),
    ("hasAsks", boolText book.hasAsks)])

theorem analyticsJson_eq (book : LimitOrderBook Depth TableCapacity) :
    analyticsJson book = member ("analytics".toList, analyticsText book) ++ [','] := by
  unfold analyticsJson analyticsText fieldTexts members
  simp only [List.map_cons, List.map_nil, List.intercalate_cons_cons, List.intercalate_singleton, member, quoted,
    List.append_assoc, List.cons_append]
  rfl

set_option maxRecDepth 2000 in
theorem snapshotJson_eq (s : SnapshotData Depth TableCapacity) :
    snapshotJson s = members (fieldTexts [("type", quoted "snapshot".toList),
      ("totalIngested", toStringInt s.totalIngested.toNat), ("totalProcessed", toStringInt s.currentProcessed.toNat),
      ("throughput", toStringDouble s.currentThroughput), ("isStreaming", boolText true),
      ("targetRate", toStringInt 0), ("latency", latencyText s.latency),
      ("bids", elements (s.book.bids.toList.map levelJson)), ("asks", elements (s.book.asks.toList.map levelJson)),
      ("analytics", analyticsText s.book), ("tape", elements (s.tape.map packetJson))]) := by
  unfold snapshotJson
  rw [latencyJson_eq, analyticsJson_eq, listText_eq, listText_eq, listText_eq]
  generalize latencyText s.latency = latency
  generalize analyticsText s.book = analytics
  unfold fieldTexts members elements
  simp only [List.map_cons, List.map_nil, List.intercalate_cons_cons, List.intercalate_singleton, member, quoted,
    List.append_assoc, List.cons_append]
  rfl

/-! ### Reading the line -/

theorem plain_charText {c : UInt8}
    (h : c ∈ ['A'.toUInt8, 'B'.toUInt8, 'S'.toUInt8, 'X'.toUInt8, 'E'.toUInt8]) :
    (charText c).all isPlain = true := by
  simp only [List.mem_cons, List.not_mem_nil, or_false] at h
  rcases h with rfl | rfl | rfl | rfl | rfl <;> decide

/-- A member that is written under its key. -/
def WritesField (t : String × List Char) (v : String × Json) : Prop :=
  t.1 = v.1 ∧ t.1.toList.all isPlain = true ∧ Writes t.2 v.2

theorem field (key : String) (hkey : key.toList.all isPlain = true) {text : List Char} {v : Json} (h : Writes text v) :
    WritesField (key, text) (key, v) := ⟨rfl, hkey, h⟩

theorem writes_object {texts : List (String × List Char)} {values : List (String × Json)}
    (h : List.Forall₂ WritesField texts values) : Writes (members (fieldTexts texts)) (object values) := by
  refine Writes.members ?_
  unfold fieldTexts
  rw [List.forall₂_map_left_iff, List.forall₂_map_right_iff]
  exact h.imp fun _ _ hf => ⟨congrArg String.toList hf.1, hf.2⟩

theorem writes_array {α : Type} {text : α → List Char} {value : α → Json} {xs : List α}
    (h : ∀ x ∈ xs, Writes (text x) (value x)) : Writes (elements (xs.map text)) (.arr (xs.map value)) := by
  refine Writes.elements ?_
  rw [List.forall₂_map_left_iff, List.forall₂_map_right_iff, List.forall₂_same]
  exact h

theorem writes_levelJson (l : PriceLevel) : Writes (levelJson l) (levelValue l) := by
  rw [levelJson_eq]
  exact writes_object (.cons (field "price" (by decide) (writes_toString _))
    (.cons (field "qty" (by decide) (writes_toString _))
    (.cons (field "orders" (by decide) (writes_toString _))
    (.cons (field "active" (by decide) (writes_bool _)) .nil))))

theorem writes_packetJson {p : PacketRecord} (h : p.Lettered) : Writes (packetJson p) (packetValue p) := by
  have htype : p.type ∈ ['A'.toUInt8, 'B'.toUInt8, 'S'.toUInt8, 'X'.toUInt8, 'E'.toUInt8] := by
    have htype := h.1
    simp only [List.mem_cons, List.not_mem_nil, or_false] at htype ⊢
    exact htype.imp_right fun htype => Or.inr (Or.inr htype)
  have hside : p.side ∈ ['A'.toUInt8, 'B'.toUInt8, 'S'.toUInt8, 'X'.toUInt8, 'E'.toUInt8] :=
    List.mem_cons_of_mem _ h.2
  rw [packetJson_eq]
  exact writes_object (.cons (field "type" (by decide) (writes_quoted (plain_charText htype)))
    (.cons (field "seqNo" (by decide) (writes_toString _))
    (.cons (field "ts" (by decide) (writes_toString _))
    (.cons (field "orderId" (by decide) (writes_toString _))
    (.cons (field "side" (by decide) (writes_quoted (plain_charText hside)))
    (.cons (field "price" (by decide) (writes_toString _))
    (.cons (field "qty" (by decide) (writes_toString _)) .nil)))))))

theorem writes_latencyText (f : LatencyFigures) : Writes (latencyText f) (latencyValue f) :=
  writes_object (.cons (field "min" (by decide) (writes_toStringDouble _))
    (.cons (field "mean" (by decide) (writes_toStringDouble _))
    (.cons (field "p50" (by decide) (writes_toStringDouble _))
    (.cons (field "p90" (by decide) (writes_toStringDouble _))
    (.cons (field "p95" (by decide) (writes_toStringDouble _))
    (.cons (field "p99" (by decide) (writes_toStringDouble _))
    (.cons (field "p999" (by decide) (writes_toStringDouble _))
    (.cons (field "max" (by decide) (writes_toStringDouble _)) .nil))))))))

theorem writes_analyticsText (book : LimitOrderBook Depth TableCapacity) :
    Writes (analyticsText book) (analyticsValue book) :=
  writes_object (.cons (field "spread" (by decide) (writes_toString _))
    (.cons (field "mid" (by decide) (writes_toStringDouble _))
    (.cons (field "micro" (by decide) (writes_toStringDouble _))
    (.cons (field "trades" (by decide) (writes_toString _))
    (.cons (field "gaps" (by decide) (writes_toString _))
    (.cons (field "hasBids" (by decide) (writes_bool _))
    (.cons (field "hasAsks" (by decide) (writes_bool _)) .nil)))))))

/-- The line is one text of JSON without control characters, and its value is the one of the data. -/
theorem writes_snapshotJson {s : SnapshotData Depth TableCapacity} (h : ∀ p ∈ s.tape, p.Lettered) :
    Writes (snapshotJson s) (snapshotValue s) := by
  rw [snapshotJson_eq]
  exact writes_object (.cons (field "type" (by decide) (writes_quoted (by decide)))
    (.cons (field "totalIngested" (by decide) (writes_toString _))
    (.cons (field "totalProcessed" (by decide) (writes_toString _))
    (.cons (field "throughput" (by decide) (writes_toStringDouble _))
    (.cons (field "isStreaming" (by decide) (writes_bool _))
    (.cons (field "targetRate" (by decide) (writes_toString _))
    (.cons (field "latency" (by decide) (writes_latencyText _))
    (.cons (field "bids" (by decide) (writes_array fun l _ => writes_levelJson l))
    (.cons (field "asks" (by decide) (writes_array fun l _ => writes_levelJson l))
    (.cons (field "analytics" (by decide) (writes_analyticsText _))
    (.cons (field "tape" (by decide) (writes_array fun p hp => writes_packetJson (h p hp))) .nil)))))))))))

end StreamServer

end FeedHandler
