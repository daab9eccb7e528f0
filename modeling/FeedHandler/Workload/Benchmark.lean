import FeedHandler.OrderBook.Liquidity
import FeedHandler.Workload.Orderly

/-!
# The generators and the book

The book that is fed by a generator follows its vector: the orders in the vector are those live in the book, and some
that fills have used up meanwhile or for which the table had no room (`publisher_feed`).  The benchmark of `main.cpp`
sends at most `MAX_BENCH_MESSAGES` messages of at most 500 lots to a table of `2^21` slots; that is few enough for the
table and for the 32 bits of a level (`benchmark_book`).
-/

namespace FeedHandler

open LimitOrderBook

/-- The messages of a publisher are an orderly feed, whatever is drawn, and its vector holds the orders that are live in
the book and those that were filled or refused and not withdrawn.  None is refused while there is a slot for every
Add. -/
theorem publisher_feed (mix : ActionMix) (rounds : List Round) (hlt : rounds.length + 1 < 2 ^ 64) (Depth : Nat)
    (TableCapacity : Pow2) :
    Orderly 500 (Publisher.messages mix {} rounds) ∧
      (∀ id, id ∈ (rounds.foldl (Publisher.next mix) {}).activeOrders ↔
        (run Depth TableCapacity (Publisher.messages mix {} rounds)).orderTable.liveOrder id ≠ none ∨
          (Filled Depth TableCapacity (Publisher.messages mix {} rounds) id ∨
              Refused Depth TableCapacity (Publisher.messages mix {} rounds) id) ∧
            id ∉ withdrawnIds (Publisher.messages mix {} rounds)) ∧
      ((addedIds (Publisher.messages mix {} rounds)).length ≤ TableCapacity.val →
        ∀ id, ¬Refused Depth TableCapacity (Publisher.messages mix {} rounds) id) := by
  obtain ⟨horderly, hsent⟩ := Publisher.messages_orderly mix rounds hlt
  exact ⟨horderly, fun id => (hsent.keeps.mem id).trans (horderly.kept_iff id), not_refused⟩

/-- Three rounds in which every draw gives the lower bound of its interval. -/
def lowRounds : List Round := List.replicate 3 ⟨0, .low, .low, .low, .low, .low⟩

/-- The three rounds are Adds, and a table of two slots has no room for the third. -/
theorem publisher_feed_lows :
    3 ∈ (lowRounds.foldl (Publisher.next .mockExchange) {}).activeOrders ∧
      (run 1 ⟨2, by decide, by decide⟩ (Publisher.messages .mockExchange {} lowRounds)).orderTable.liveOrder 3 = none ∧
      (Filled 1 ⟨2, by decide, by decide⟩ (Publisher.messages .mockExchange {} lowRounds) 3 ∨
        Refused 1 ⟨2, by decide, by decide⟩ (Publisher.messages .mockExchange {} lowRounds) 3) := by
  have hmem : 3 ∈ (lowRounds.foldl (Publisher.next .mockExchange) {}).activeOrders := by decide +kernel
  have hnone : (run 1 ⟨2, by decide, by decide⟩
      (Publisher.messages .mockExchange {} lowRounds)).orderTable.liveOrder 3 = none := by decide +kernel
  obtain ⟨-, hiff, -⟩ := publisher_feed .mockExchange lowRounds (by decide) 1 ⟨2, by decide, by decide⟩
  exact ⟨hmem, hnone, (((hiff 3).1 hmem).resolve_left (not_not_intro hnone)).1⟩

/-- `LimitOrderBook<5, (1u << 21)>` -/
def benchTable : Pow2 := ⟨2097152, by decide, by decide⟩

theorem length_generateMockFeed (messageCount : Nat) (rng : Nat → Round) :
    (generateMockFeed messageCount rng).length = messageCount := by
  rw [generateMockFeed, Publisher.length_messages, List.length_map, List.length_range]

theorem generateMockFeed_orderly {messageCount : Nat} (h : messageCount ≤ MAX_BENCH_MESSAGES) (rng : Nat → Round) :
    Orderly 500 (generateMockFeed messageCount rng) := by
  unfold MAX_BENCH_MESSAGES at h
  refine (Publisher.messages_orderly _ _ ?_).1
  rw [List.length_map, List.length_range]
  omega

/-- The messages of the benchmark are admissible and find room. -/
theorem generateMockFeed_along {messageCount : Nat} (h : messageCount ≤ MAX_BENCH_MESSAGES) (rng : Nat → Round) :
    Runs.Along processMessage (fun book m => Admissible book m ∧ HasRoom book m) (reset 5 benchTable)
      (generateMockFeed messageCount rng) := by
  have hadded := Publisher.length_addedIds_le (generateMockFeed messageCount rng)
  rw [length_generateMockFeed] at hadded
  have hcapacity : benchTable.val = 2097152 := rfl
  unfold MAX_BENCH_MESSAGES at h
  exact (generateMockFeed_orderly h rng).along (by omega) (by omega)

/-- Benchmark 1: Direct In-Memory Microsecond Hot-Path Benchmark. -/
def runDirectBenchmark (messageCount : Nat) (rng : Nat → Round) : LimitOrderBook 5 benchTable :=
  run 5 benchTable (generateMockFeed messageCount rng)

/-- In every state of the benchmark, whatever is drawn, the book shows no phantom liquidity and has found no gap, and no
Add meets an exhausted table. -/
theorem benchmark_book (messageCount : Nat) (h : messageCount ≤ MAX_BENCH_MESSAGES) (rng : Nat → Round) :
    Runs.Always processMessage (fun book => book.NoPhantomLiquidity ∧ book.sequenceGapsDetected = 0)
        (reset 5 benchTable) (generateMockFeed messageCount rng) ∧
      Runs.Along processMessage HasRoom (reset 5 benchTable) (generateMockFeed messageCount rng) ∧
      (runDirectBenchmark messageCount rng).totalMessagesProcessed = UInt64.ofNat messageCount := by
  have halong := generateMockFeed_along h rng
  refine ⟨?_, ?_, ?_⟩
  · have hbacked := Runs.always_iff_prefix.1 (always_backed (by decide) (halong.mono fun _ _ hm => hm.1))
    refine Runs.always_iff_prefix.2 fun pre post he => ?_
    obtain ⟨hconsistent, hlevels⟩ := hbacked pre post he
    have hgaps := ((generateMockFeed_orderly h rng).of_append post he).sequenceGapsDetected 5 benchTable
    exact ⟨hlevels.noPhantomLiquidity hconsistent, hgaps⟩
  · exact halong.mono fun _ _ hm => hm.2
  · rw [runDirectBenchmark, totalMessagesProcessed_run, length_generateMockFeed]

/-- Three messages, of which every draw gives the lower bound of its interval. -/
theorem benchmark_book_lows :
    Runs.Always processMessage (fun book => book.NoPhantomLiquidity ∧ book.sequenceGapsDetected = 0)
        (reset 5 benchTable) (generateMockFeed 3 fun _ => ⟨0, .low, .low, .low, .low, .low⟩) :=
  (benchmark_book 3 (by decide) fun _ => ⟨0, .low, .low, .low, .low, .low⟩).1

end FeedHandler
