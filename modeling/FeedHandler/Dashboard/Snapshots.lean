import FeedHandler.Bridge.Stdout
import FeedHandler.Dashboard.Fills
import FeedHandler.StreamServer.SnapshotJson

/-!
# Snapshots on their way to the dashboard

The engine prints a snapshot as a line, the bridge sends the line to the clients, and the dashboard parses it.  Beside
snapshots the engine prints only the start message of its exporter, which the bridge passes over.  So the dashboard
shows the levels of each snapshot in turn, exactly as the book had them (`snapshots_shown`).
-/

namespace FeedHandler

open Bridge StreamServer

variable {Depth : Nat} {TableCapacity : Pow2} {hundredths : List Char → Int64}

/-- The tape of the snapshot is one that an engine reaches. -/
def StreamServer.SnapshotData.Reachable (hundredths : List Char → Int64) (s : SnapshotData Depth TableCapacity) :
    Prop :=
  ∃ steps, (∀ msg, .process msg ∈ steps → Produced hundredths msg) ∧ s.tape = (Tape.run steps).snapshot

/-- The line of `PrometheusExporter::start(9090)`. -/
def listeningLine : List Char :=
  ("[PrometheusExporter] Telemetry & Health server listening on http://0.0.0.0:9090 " ++
    "(/metrics, /healthz, /readyz)").toList

/-- A line that the engine prints. -/
inductive StdoutLine (Depth : Nat) (TableCapacity : Pow2) where
  | listening
  /-- a line of `snapshotThreadFunc` -/
  | snapshot (s : SnapshotData Depth TableCapacity)

namespace StdoutLine

def text : StdoutLine Depth TableCapacity → List Char
  | listening => listeningLine
  | snapshot s => snapshotJson s

/-- What the engine prints, each line with its newline. -/
def output (lines : List (StdoutLine Depth TableCapacity)) : List Char := lines.flatMap fun line => line.text ++ ['\n']

/-- The snapshots among the lines. -/
def snapshots (lines : List (StdoutLine Depth TableCapacity)) : List (SnapshotData Depth TableCapacity) :=
  lines.filterMap fun
    | listening => none
    | snapshot s => some s

end StdoutLine

/-! ### The dashboard's end -/

namespace Dashboard

/-- An entry of `data.bids` or `data.asks`. -/
def Level.ofJson (v : Json) : Option Level :=
  match v.get? "price".toList, v.get? "qty".toList, v.get? "orders".toList, v.get? "active".toList with
  | some (.num price), some (.num qty), some (.num orders), some (.bool active) => some { price, qty, orders, active }
  | _, _, _, _ => none

/-- `data.bids` or `data.asks`, which may be absent. -/
def sideOfJson : Option Json → Option (Option (List Level))
  | none => some none
  | some (.arr values) => (values.mapM Level.ofJson).map some
  | some _ => none

/-- What the dashboard reads of a value; `none` if it has other shapes. -/
def SocketMessage.ofJson (v : Json) : Option SocketMessage :=
  match v.get? "type".toList, sideOfJson (v.get? "bids".toList), sideOfJson (v.get? "asks".toList) with
  | some (.str type), some bids, some asks => some { type := String.ofList type, bids, asks }
  | _, _, _ => none

/-- `ws.onmessage` for the text of an event: a text that is no JSON is caught. -/
def QuantDeskVisualizer.receive (desk : QuantDeskVisualizer) (text : List Char) : QuantDeskVisualizer :=
  match (Json.parse text).bind SocketMessage.ofJson with
  | some data => desk.onmessage data
  | none => desk

theorem get?_object (fields : List (String × Json)) (key : String) :
    (object fields).get? key.toList = fields.reverse.lookup key := by
  show (fields.map fun f => (f.1.toList, f.2)).reverse.lookup key.toList = _
  rw [← List.map_reverse]
  induction fields.reverse with
  | nil => rfl
  | cons f fields ih =>
    rw [List.map_cons, List.lookup_cons, List.lookup_cons, ih]
    by_cases hkey : key = f.1
    · simp [hkey]
    · have hlist : ¬ key.toList = f.1.toList := fun h => hkey (String.toList_inj.1 h)
      rw [beq_eq_false_iff_ne.2 hkey, beq_eq_false_iff_ne.2 hlist]

theorem integer_toInt (i : Int32) : integer i.toInt = .num i.toInt := by
  have hlower := i.le_toInt
  have hupper := i.toInt_lt
  have hle : |i.toInt| ≤ 2 ^ 53 := abs_le.2 ⟨by omega, by omega⟩
  unfold integer
  rw [Binary64.nearest_intCast hle]

theorem ofJson_levelValue (l : PriceLevel) : Level.ofJson (levelValue l) = some (.ofPriceLevel l) := by
  unfold Level.ofJson levelValue
  rw [get?_object, get?_object, get?_object, get?_object]
  simp [List.lookup_cons, integer_toInt, Level.ofPriceLevel]

theorem sideOfJson_levels (levels : List PriceLevel) :
    sideOfJson (some (.arr (levels.map levelValue))) = some (some (levels.map .ofPriceLevel)) := by
  have hlevels : (levels.map levelValue).mapM Level.ofJson = some (levels.map .ofPriceLevel) := by
    induction levels with
    | nil => rfl
    | cons l levels ih => rw [List.map_cons, List.mapM_cons, ofJson_levelValue, ih]; rfl
  unfold sideOfJson
  dsimp only
  rw [hlevels]
  rfl

theorem ofJson_snapshotValue (s : SnapshotData Depth TableCapacity) :
    SocketMessage.ofJson (snapshotValue s) = some (snapshot s.book) := by
  have htype : (snapshotValue s).get? "type".toList = some (.str "snapshot".toList) := by
    unfold snapshotValue
    rw [get?_object]
    simp [List.lookup_cons]
  have hbids : (snapshotValue s).get? "bids".toList = some (.arr (s.book.bids.toList.map levelValue)) := by
    unfold snapshotValue
    rw [get?_object]
    simp [List.lookup_cons]
  have hasks : (snapshotValue s).get? "asks".toList = some (.arr (s.book.asks.toList.map levelValue)) := by
    unfold snapshotValue
    rw [get?_object]
    simp [List.lookup_cons]
  unfold SocketMessage.ofJson
  rw [htype, hbids, hasks, sideOfJson_levels, sideOfJson_levels]
  simp [snapshot]

/-! ### From the engine to the dashboard -/

open StdoutLine

theorem exists_snapshotJson_eq (s : SnapshotData Depth TableCapacity) :
    ∃ inner, snapshotJson s = '\x7b' :: inner ++ ['\x7d'] := ⟨_, snapshotJson_eq s⟩

theorem broadcastLine_listening : broadcastLine (listeningLine ++ ['\n']) = none := by decide +kernel

theorem printed_listening : listeningLine.all Json.isPrinted = true := by decide +kernel

theorem writes_snapshot {s : SnapshotData Depth TableCapacity} (h : s.Reachable hundredths) :
    Json.Writes (snapshotJson s) (snapshotValue s) := by
  obtain ⟨steps, hsteps, htape⟩ := h
  refine writes_snapshotJson ?_
  rw [htape]
  exact Tape.lettered_snapshot hsteps

/-- The bridge sends the snapshots, and nothing else. -/
theorem readStdout_output {lines : List (StdoutLine Depth TableCapacity)}
    (h : ∀ s ∈ snapshots lines, s.Reachable hundredths) :
    readStdout (output lines) = (snapshots lines).map snapshotJson := by
  induction lines with
  | nil => rfl
  | cons line lines ih =>
    have hsplit : output (line :: lines) = line.text ++ '\n' :: output lines := by
      unfold output
      rw [List.flatMap_cons, List.append_assoc]
      rfl
    rw [hsplit]
    cases line with
    | listening =>
      unfold readStdout
      show (readlines (listeningLine ++ '\n' :: output lines)).filterMap broadcastLine = _
      rw [readlines_line printed_listening, List.filterMap_cons_none broadcastLine_listening]
      exact ih h
    | snapshot s =>
      have hwrites := writes_snapshot (h s List.mem_cons_self)
      obtain ⟨inner, hinner⟩ := exists_snapshotJson_eq s
      have hsent : broadcastLine (snapshotJson s ++ ['\n']) = some (snapshotJson s) := by
        rw [hinner]
        exact broadcastLine_braces inner
      have hrest := ih fun s' hs' => h s' (List.mem_cons_of_mem _ hs')
      unfold readStdout at hrest ⊢
      show (readlines (snapshotJson s ++ '\n' :: output lines)).filterMap broadcastLine = _
      rw [readlines_line hwrites.printed, List.filterMap_cons_some hsent, hrest]
      rfl

/-- The mid price is half of an integer, so six decimals and a double are enough for it. -/
theorem double_midPrice (book : LimitOrderBook Depth TableCapacity) : double book.midPrice = .num book.midPrice := by
  have hhalf : ∃ i : Int, |i| ≤ 2 ^ 53 ∧ book.midPrice = i / 2 := by
    unfold LimitOrderBook.midPrice
    split
    · have hbid := book.bids[0]!.price.le_toInt
      have hbid' := book.bids[0]!.price.toInt_lt
      have hask := book.asks[0]!.price.le_toInt
      have hask' := book.asks[0]!.price.toInt_lt
      exact ⟨book.bids[0]!.price.toInt + book.asks[0]!.price.toInt, abs_le.2 ⟨by omega, by omega⟩, by push_cast; ring⟩
    · exact ⟨0, by decide, by norm_num⟩
  obtain ⟨i, hi, hmid⟩ := hhalf
  have hprinted : Cstdlib.sixDecimals book.midPrice = book.midPrice :=
    Cstdlib.sixDecimals_eq (k := 500000 * i) (by rw [hmid]; push_cast; ring)
  unfold double
  rw [hprinted, hmid, Binary64.nearest_half hi]

/-- Whatever the engine prints, the clients get the lines of its snapshots one by one, each is the JSON text of its
data, and a dashboard that receives them shows the levels of the book of each snapshot in turn.  Integers up to
`2 ^ 53` and the mid price come through exactly. -/
theorem snapshots_shown (lines : List (StdoutLine Depth TableCapacity))
    (h : ∀ s ∈ snapshots lines, s.Reachable hundredths) (desk : QuantDeskVisualizer) :
    (readStdout (output lines)).map Json.parse = (snapshots lines).map (fun s => some (snapshotValue s)) ∧
      (readStdout (output lines)).foldl QuantDeskVisualizer.receive desk =
        (snapshots lines).foldl (fun desk s => desk.onmessage (snapshot s.book)) desk ∧
      (∀ i : Int, |i| ≤ 2 ^ 53 → integer i = .num i) ∧
      ∀ s ∈ snapshots lines, double s.book.midPrice = .num s.book.midPrice := by
  have hparse : ∀ s ∈ snapshots lines, Json.parse (snapshotJson s) = some (snapshotValue s) := fun s hs =>
    Json.parse_of_reads (writes_snapshot (h s hs)).reads
  rw [readStdout_output h]
  refine ⟨?_, ?_, fun i hi => congrArg Json.num (Binary64.nearest_intCast hi), fun s _ => double_midPrice s.book⟩
  · rw [List.map_map]
    exact List.map_congr_left hparse
  · clear h
    generalize snapshots lines = rounds at hparse
    induction rounds generalizing desk with
    | nil => rfl
    | cons s rounds ih =>
      have hreceive : desk.receive (snapshotJson s) = desk.onmessage (snapshot s.book) := by
        unfold QuantDeskVisualizer.receive
        rw [hparse s List.mem_cons_self, Option.bind_some, ofJson_snapshotValue]
      rw [List.map_cons, List.foldl_cons, List.foldl_cons, hreceive]
      exact ih _ fun s' hs' => hparse s' (List.mem_cons_of_mem _ hs')

/-- The engine after the order `A,1001,B,224.95,500`. -/
def firstOrder : WireMessage := .ofAdd ⟨'A'.toUInt8, 1, 1760000000123456789, 1001, 'B'.toUInt8, 22495, 500⟩

/-- Its snapshot. -/
def firstSnapshot : SnapshotData 5 ⟨8, by decide, by decide⟩ where
  totalIngested := 1
  currentProcessed := 1
  currentThroughput := 20
  latency := {}
  book := .run 5 ⟨8, by decide, by decide⟩ [firstOrder]
  tape := (Tape.run [.process firstOrder]).snapshot

theorem snapshots_shown_first :
    (readStdout (output [.listening, .snapshot firstSnapshot])).map Json.parse = [some (snapshotValue firstSnapshot)] ∧
      (readStdout (output [.listening, .snapshot firstSnapshot])).foldl QuantDeskVisualizer.receive {} =
        ({} : QuantDeskVisualizer).onmessage (snapshot firstSnapshot.book) := by
  have hreachable : firstSnapshot.Reachable fun _ => 22495 := by
    refine ⟨[.process firstOrder], fun msg hmsg => ?_, rfl⟩
    obtain rfl : msg = firstOrder := TapeStep.process.inj (List.mem_singleton.1 hmsg)
    exact @Produced.line _ "A,1001,B,224.95,500".toList 1 1760000000123456789 firstOrder (by decide)
  obtain ⟨hparse, hshown, -, -⟩ := @snapshots_shown 5 _ (fun _ => 22495) [.listening, .snapshot firstSnapshot]
    (fun s hs => by rwa [List.mem_singleton.1 hs]) {}
  exact ⟨hparse, hshown⟩

end Dashboard

end FeedHandler
