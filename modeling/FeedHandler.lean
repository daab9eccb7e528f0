import FeedHandler.Foundation.Runs
import FeedHandler.Foundation.RingIndex
import FeedHandler.Foundation.Int32
import FeedHandler.Foundation.Totals
import FeedHandler.OrderTable.Basic
import FeedHandler.Foundation.OpenAddressing
import FeedHandler.Foundation.VectorSlots
import FeedHandler.OrderTable.Probe
import FeedHandler.OrderTable.Refinement
import FeedHandler.Foundation.BitWindow
import FeedHandler.OrderTable.Balance
import FeedHandler.OrderBook.Basic
import FeedHandler.Foundation.SortedList
import FeedHandler.OrderBook.Side
import FeedHandler.OrderBook.Steps
import FeedHandler.OrderBook.Live
import FeedHandler.OrderBook.Transfer
import FeedHandler.OrderBook.Liquidity
import FeedHandler.OrderBook.TopOfBook
import FeedHandler.OrderBook.Exactness
import FeedHandler.OrderBook.Overfill
import FeedHandler.OrderBook.ReAdd
import FeedHandler.OrderBook.Records
import FeedHandler.OrderBook.Capacity
import FeedHandler.FeedArbitrator.Basic
import FeedHandler.FeedArbitrator.Emission
import FeedHandler.OrderBook.Reference
import FeedHandler.OrderBook.Refinement
import FeedHandler.FeedArbitrator.Draining
import FeedHandler.FeedArbitrator.Reordering
import FeedHandler.FeedArbitrator.Counters
import FeedHandler.RingBuffer.Basic
import FeedHandler.RingBuffer.Threads
import FeedHandler.RingBuffer.Spsc
import FeedHandler.StreamServer.Ingestion
import FeedHandler.Foundation.RecordFile
import FeedHandler.WalJournal.Basic
import FeedHandler.WalJournal.Recovery
import FeedHandler.WalJournal.AppendOnly
import FeedHandler.WalJournal.LiveReplay
import FeedHandler.OrderBook.Distinguishing
import FeedHandler.WalJournal.Torn
import FeedHandler.ParserValidator.Basic
import FeedHandler.UdpReceiver.LiveUdp
import FeedHandler.Bridge.Basic
import FeedHandler.Bridge.Order
import FeedHandler.StreamServer.Command
import FeedHandler.Bridge.Injection
import FeedHandler.Bridge.Containment
import FeedHandler.Bridge.StaticFiles
import FeedHandler.OrderBook.Arithmetic
import FeedHandler.StreamServer.Reset
import FeedHandler.Foundation.Skipped
import FeedHandler.OrderBook.Gaps
import FeedHandler.Cstdlib.Basic
import FeedHandler.ParserValidator.UserLine
import FeedHandler.ParserValidator.Validity
import FeedHandler.ParserValidator.Numerals
import FeedHandler.StreamServer.TextIngestion
import FeedHandler.Foundation.BatchedWindow
import FeedHandler.StreamServer.Telemetry
import FeedHandler.StreamServer.Histogram
import FeedHandler.Foundation.RecentValues
import FeedHandler.StreamServer.Tape
import FeedHandler.StreamServer.Burst
import FeedHandler.Bridge.RoundTrip
import FeedHandler.Bridge.Acceptance
import FeedHandler.Bridge.Dispatch
import FeedHandler.OrderBook.Exhaustion
import FeedHandler.OrderBook.ActiveCount
import FeedHandler.Foundation.Interpolation
import FeedHandler.Foundation.AverageCost
import FeedHandler.LatencyTracker.Basic
import FeedHandler.LatencyTracker.Percentiles
import FeedHandler.Bridge.RateLimiter
import FeedHandler.Bridge.BurstBound
import FeedHandler.ParserValidator.Tokens
import FeedHandler.ParserValidator.Wire
import FeedHandler.PcapReplayer.Basic
import FeedHandler.PcapReplayer.Extraction
import FeedHandler.PcapReplayer.ByteOrder
import FeedHandler.Foundation.IteratedSet
import FeedHandler.Bridge.Broadcast
import FeedHandler.OrderBook.MicroPrice
import FeedHandler.OrderBook.SortedMap
import FeedHandler.Dashboard.Basic
import FeedHandler.Dashboard.Accounting
import FeedHandler.Dashboard.Fills
import FeedHandler.Foundation.SwapRemove
import FeedHandler.OrderBook.OrderlyFeed
import FeedHandler.Workload.Basic
import FeedHandler.Workload.Orderly
import FeedHandler.Workload.Benchmark
import FeedHandler.Foundation.Fairness
import FeedHandler.RingBuffer.Progress
import FeedHandler.Workload.Pipeline
import FeedHandler.UdpReceiver.LossyNetwork
import FeedHandler.Bridge.Sessions
import FeedHandler.PcapReplayer.Replay
import FeedHandler.StreamServer.Shutdown
import FeedHandler.Bridge.Stdout
import FeedHandler.Cstdlib.Format
import FeedHandler.Dashboard.Snapshots
import FeedHandler.StreamServer.Intake
import FeedHandler.Dashboard.Metrics
