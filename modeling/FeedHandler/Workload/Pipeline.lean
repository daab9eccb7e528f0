import FeedHandler.Foundation.Fairness
import FeedHandler.RingBuffer.Progress
import FeedHandler.StreamServer.Ingestion
import FeedHandler.Workload.Benchmark

/-!
# The pipeline benchmark (`runSPSCBenchmark` in `main.cpp`)

The producer starts the consumer, pushes the messages of `g_benchFeed` one after the other, each until `tryPush`
succeeds, and sets `producerFinished`.  The consumer pops and processes until it sees that the producer has finished and
the ring is empty.  `empty()` compares `tail_`, which only the consumer stores, with `head_`; it is two steps.

Whenever the consumer has left its loop, the book is that of the direct benchmark (`pipeline_book`); and it does leave
it under every schedule that keeps both threads running (`pipeline_finishes`).
-/

namespace FeedHandler

open RingIndex StreamServer

/-- The consumer thread before the step that the constructor names. -/
inductive ConsumerAt where
  | awaitStart
  | loadFinished
  | emptyLoadTail
  | emptyLoadHead (tail : UInt64)
  | tryPop
  | process (msg : WireMessage)
  | exited
deriving DecidableEq, Repr

/-- The message that is popped and not yet processed. -/
def ConsumerAt.pending : ConsumerAt → List WireMessage
  | .process msg => [msg]
  | _ => []

inductive PipelineThread where
  | producer
  | consumer
deriving DecidableEq, Repr

structure Pipeline (Capacity : RingCapacity) (Depth : Nat) (TableCapacity : Pow2) where
  threads : RingThreads Unit WireMessage Capacity
  startFlag : Bool
  producerFinished : Bool
  /-- the loop variable of the producer -/
  i : Nat
  consumer : ConsumerAt
  orderBook : LimitOrderBook Depth TableCapacity

namespace Pipeline

variable {Capacity : RingCapacity} {Depth : Nat} {TableCapacity : Pow2}

def start (buffer : Vector WireMessage Capacity.val) (Depth : Nat) (TableCapacity : Pow2) :
    Pipeline Capacity Depth TableCapacity where
  threads := RingThreads.start 0 buffer
  startFlag := false
  producerFinished := false
  i := 0
  consumer := .awaitStart
  orderBook := .reset Depth TableCapacity

/-- A step of the main thread: the store of `startFlag`, a step of `while (!tryPush(g_benchFeed[i]))`, or the store of
`producerFinished`, after which the thread waits in `join`. -/
def produce (feed : List WireMessage) (s : Pipeline Capacity Depth TableCapacity) :
    Pipeline Capacity Depth TableCapacity :=
  if s.startFlag then
    match feed[s.i]? with
    | some msg =>
      { s with
        threads := s.threads.pushStep () msg
        i := s.i + ((s.threads.pushing ()).step s.threads.ring).2.2.items.length }
    | none => { s with producerFinished := true }
  else
    { s with startFlag := true }

def consume (s : Pipeline Capacity Depth TableCapacity) : Pipeline Capacity Depth TableCapacity :=
  match s.consumer with
  | .awaitStart => if s.startFlag then { s with consumer := .loadFinished } else s
  | .loadFinished => { s with consumer := if s.producerFinished then .emptyLoadTail else .tryPop }
  | .emptyLoadTail => { s with consumer := .emptyLoadHead s.threads.ring.tail }
  | .emptyLoadHead tail => { s with consumer := if tail = s.threads.ring.head then .exited else .tryPop }
  | .tryPop =>
    { s with
      threads := s.threads.popStep
      consumer :=
        match (s.threads.popping.step s.threads.ring).2.2 with
        | .running => .tryPop
        | .returnedTrue msg => .process msg
        | .returnedFalse => .loadFinished }
  | .process msg => { s with orderBook := s.orderBook.processMessage msg, consumer := .loadFinished }
  | .exited => s

def step (feed : List WireMessage) (s : Pipeline Capacity Depth TableCapacity) :
    PipelineThread → Pipeline Capacity Depth TableCapacity
  | .producer => s.produce feed
  | .consumer => s.consume

def run (feed : List WireMessage) (buffer : Vector WireMessage Capacity.val) (Depth : Nat) (TableCapacity : Pow2)
    (schedule : List PipelineThread) : Pipeline Capacity Depth TableCapacity :=
  schedule.foldl (step feed) (start buffer Depth TableCapacity)

/-! ### Safety -/

/-- What holds between the steps. -/
structure Ok (feed : List WireMessage) (s : Pipeline Capacity Depth TableCapacity) : Prop where
  inv : s.threads.Inv 0
  alone : RingThreads.Alone 0 s.threads
  pushed : s.threads.pushed = feed.take s.i
  i_le : s.i ≤ feed.length
  calling : ∀ msg, (s.threads.pushing ()).item = some msg → feed[s.i]? = some msg
  finished : s.producerFinished = true → s.i = feed.length
  awaiting : s.startFlag = false → s.consumer = .awaitStart
  popping : s.consumer ≠ .tryPop → s.threads.popping = .idle
  checking : s.consumer = .emptyLoadTail → s.producerFinished = true
  comparing : ∀ tail, s.consumer = .emptyLoadHead tail → s.producerFinished = true ∧ tail = s.threads.ring.tail
  exited : s.consumer = .exited → s.producerFinished = true ∧ s.threads.popped.length = s.threads.pushed.length
  orderBook : ∃ processed, s.threads.popped = processed ++ s.consumer.pending ∧
    s.orderBook = .run Depth TableCapacity processed

variable {feed : List WireMessage} {s : Pipeline Capacity Depth TableCapacity}

theorem ok_start (feed : List WireMessage) (buffer : Vector WireMessage Capacity.val) :
    Ok feed (start buffer Depth TableCapacity) where
  inv := RingThreads.inv_start 0 buffer
  alone := trivial
  pushed := rfl
  i_le := Nat.zero_le _
  calling _ h := nomatch h
  finished h := nomatch h
  awaiting _ := rfl
  popping _ := rfl
  checking h := nomatch h
  comparing _ h := nomatch h
  exited h := nomatch h
  orderBook := ⟨[], rfl, rfl⟩

/-- The step of a push, and the loop variable with it. -/
private theorem Ok.push (h : Ok feed s) {msg : WireMessage} (hmsg : feed[s.i]? = some msg) :
    (s.threads.pushStep () msg).pushed =
        feed.take (s.i + ((s.threads.pushing ()).step s.threads.ring).2.2.items.length) ∧
      s.i + ((s.threads.pushing ()).step s.threads.ring).2.2.items.length ≤ feed.length ∧
      ∀ x, ((s.threads.pushStep () msg).pushing ()).item = some x →
        feed[s.i + ((s.threads.pushing ()).step s.threads.ring).2.2.items.length]? = some x := by
  have hitems := (TryPush.step_item s.threads.ring (s.threads.pushing ())).1
  have hlt := (List.getElem?_eq_some_iff.1 hmsg).1
  have hidle := fun hne => RingThreads.idle_of_items (s := s.threads) hne msg
  rw [RingThreads.pushed_pushStep, h.pushed]
  revert hitems hidle
  cases ((s.threads.pushing ()).step s.threads.ring).2.2 with
  | returnedTrue x =>
    intro hitems hidle
    have hx : feed[s.i]? = some x := h.calling x (hitems x (List.mem_singleton_self x))
    refine ⟨?_, hlt, fun y hy => ?_⟩
    · show feed.take s.i ++ [x] = feed.take (s.i + 1)
      rw [List.take_add_one, hx]
      rfl
    · rw [hidle (List.cons_ne_nil x [])] at hy
      cases hy
  | _ =>
    intro _ _
    refine ⟨List.append_nil _, h.i_le, fun x hx => ?_⟩
    rcases RingThreads.item_pushStep hx with ⟨rfl, -⟩ | hcall
    · exact hmsg
    · exact h.calling x hcall

theorem Ok.produce (h : Ok feed s) : Ok feed (s.produce feed) := by
  unfold Pipeline.produce
  split
  · split
    · rename_i msg hmsg
      obtain ⟨hpopping, hpopped, htail, -⟩ := s.threads.pushStep_frame msg
      obtain ⟨hpushed, hle, hcalling⟩ := h.push hmsg
      have hnot : s.producerFinished ≠ true := fun hfin => by
        have hlt := (List.getElem?_eq_some_iff.1 hmsg).1
        have := h.finished hfin
        omega
      exact {
        inv := h.inv.pushStep () msg (h.alone.undisturbed _)
        alone := h.alone.pushStep h.inv msg
        pushed := hpushed
        i_le := hle
        calling := hcalling
        finished := fun hfin => absurd hfin hnot
        awaiting := h.awaiting
        popping := fun hne => hpopping.trans (h.popping hne)
        checking := h.checking
        comparing := fun tail hc => ⟨(h.comparing tail hc).1, (h.comparing tail hc).2.trans htail.symm⟩
        exited := fun he => absurd (h.exited he).1 hnot
        orderBook := by
          obtain ⟨processed, hprocessed, hbook⟩ := h.orderBook
          exact ⟨processed, hpopped.trans hprocessed, hbook⟩ }
    · rename_i hnone
      have hi : s.i = feed.length := Nat.le_antisymm h.i_le (List.getElem?_eq_none_iff.1 hnone)
      exact { h with
        finished := fun _ => hi
        checking := fun _ => rfl
        comparing := fun tail hc => ⟨rfl, (h.comparing tail hc).2⟩
        exited := fun he => ⟨rfl, (h.exited he).2⟩ }
  · exact { h with awaiting := fun hf => nomatch hf }

theorem Ok.started (h : Ok feed s) (hc : s.consumer ≠ .awaitStart) : s.startFlag = true := by
  by_contra hstart
  exact hc (h.awaiting (Bool.not_eq_true _ ▸ hstart))

/-- The consumer goes on without a change to what it works on. -/
private theorem Ok.goto (h : Ok feed s) {c : ConsumerAt} (hidle : s.threads.popping = .idle)
    (hpending : s.consumer.pending = c.pending) (hstart : s.startFlag = true)
    (hchecking : c = .emptyLoadTail → s.producerFinished = true)
    (hcomparing : ∀ tail, c = .emptyLoadHead tail → s.producerFinished = true ∧ tail = s.threads.ring.tail)
    (hexited : c = .exited → s.producerFinished = true ∧ s.threads.popped.length = s.threads.pushed.length) :
    Ok feed { s with consumer := c } :=
  { h with
    awaiting := fun hf => absurd (hstart.symm.trans hf) (by decide)
    popping := fun _ => hidle
    checking := hchecking
    comparing := hcomparing
    exited := hexited
    orderBook := by
      obtain ⟨processed, hprocessed, hbook⟩ := h.orderBook
      exact ⟨processed, hpending ▸ hprocessed, hbook⟩ }

/-- When the producer has finished, the indices are equal only if everything was popped. -/
theorem Ok.empty_iff (h : Ok feed s) :
    s.threads.ring.tail = s.threads.ring.head ↔ s.threads.popped.length = s.threads.pushed.length := by
  have hroom := h.inv.room
  have hcap := Capacity.le
  rw [h.inv.tail, h.inv.head]
  constructor
  · exact nth_inj h.inv.order.length_le (by omega)
  · intro heq
    rw [heq]

/-- A step of `tryPop`. -/
private theorem Ok.pop (h : Ok feed s) (hc : s.consumer = .tryPop) {c : ConsumerAt}
    (hidle : c ≠ .tryPop → s.threads.popStep.popping = .idle)
    (hpending : c.pending = (s.threads.popping.step s.threads.ring).2.2.items)
    (hkind : c ≠ .emptyLoadTail ∧ (∀ tail, c ≠ .emptyLoadHead tail) ∧ c ≠ .exited) :
    Ok feed { s with threads := s.threads.popStep, consumer := c } := by
  obtain ⟨hpushing, hpushed, -⟩ := RingThreads.popStep_frame s.threads
  have hstart := h.started (by simp [hc])
  exact {
    inv := h.inv.popStep
    alone := h.alone.popStep
    pushed := hpushed.trans h.pushed
    i_le := h.i_le
    calling := fun msg hmsg => h.calling msg (hpushing ▸ hmsg)
    finished := h.finished
    awaiting := fun hf => absurd (hstart.symm.trans hf) (by decide)
    popping := hidle
    checking := fun he => absurd he hkind.1
    comparing := fun tail he => absurd he (hkind.2.1 tail)
    exited := fun he => absurd he hkind.2.2
    orderBook := by
      obtain ⟨processed, hprocessed, hbook⟩ := h.orderBook
      rw [hc] at hprocessed
      refine ⟨processed, ?_, hbook⟩
      show s.threads.popStep.popped = processed ++ c.pending
      rw [RingThreads.popped_popStep, hprocessed, hpending]
      simp [ConsumerAt.pending] }

theorem Ok.consume (h : Ok feed s) : Ok feed s.consume := by
  obtain ⟨processed, hprocessed, hbook⟩ := h.orderBook
  unfold Pipeline.consume
  cases hc : s.consumer with
  | awaitStart =>
    dsimp only
    split
    · rename_i hstart
      exact h.goto (h.popping (by simp [hc])) (by rw [hc]; rfl) hstart (fun he => nomatch he) (fun _ he => nomatch he)
        fun he => nomatch he
    · exact h
  | loadFinished =>
    have hidle := h.popping (by simp [hc])
    have hstart := h.started (by simp [hc])
    dsimp only
    split
    · rename_i hfin
      exact h.goto hidle (by rw [hc]; rfl) hstart (fun _ => hfin) (fun _ he => nomatch he) fun he => nomatch he
    · exact h.goto hidle (by rw [hc]; rfl) hstart (fun he => nomatch he) (fun _ he => nomatch he) fun he => nomatch he
  | emptyLoadTail =>
    refine h.goto (h.popping (by simp [hc])) (by rw [hc]; rfl) (h.started (by simp [hc])) (fun he => nomatch he)
      (fun tail he => ⟨h.checking hc, ?_⟩) fun he => nomatch he
    exact (ConsumerAt.emptyLoadHead.inj he).symm
  | emptyLoadHead tail =>
    have hidle := h.popping (by simp [hc])
    have hstart := h.started (by simp [hc])
    obtain ⟨hfin, htail⟩ := h.comparing tail hc
    dsimp only
    split
    · rename_i heq
      refine h.goto hidle (by rw [hc]; rfl) hstart (fun he => nomatch he) (fun _ he => nomatch he) fun _ => ⟨hfin, ?_⟩
      exact h.empty_iff.1 (htail.symm.trans heq)
    · exact h.goto hidle (by rw [hc]; rfl) hstart (fun he => nomatch he) (fun _ he => nomatch he) fun he => nomatch he
  | tryPop =>
    have hreturned := RingThreads.popping_popStep (s := s.threads)
    cases hout : (s.threads.popping.step s.threads.ring).2.2 with
    | running => exact h.pop hc (fun hne => absurd rfl hne) (by rw [hout]; rfl) (by simp)
    | returnedTrue msg => exact h.pop hc (fun _ => hreturned (by rw [hout]; simp)) (by rw [hout]; rfl) (by simp)
    | returnedFalse => exact h.pop hc (fun _ => hreturned (by rw [hout]; simp)) (by rw [hout]; rfl) (by simp)
  | process msg =>
    have hidle := h.popping (by simp [hc])
    have hstart := h.started (by simp [hc])
    rw [hc] at hprocessed
    have hgoto : Ok feed { s with orderBook := s.orderBook.processMessage msg, consumer := .loadFinished } :=
      { h with
        awaiting := fun hf => absurd (hstart.symm.trans hf) (by decide)
        popping := fun _ => hidle
        checking := fun he => nomatch he
        comparing := fun _ he => nomatch he
        exited := fun he => nomatch he
        orderBook := by
          refine ⟨processed ++ [msg], ?_, ?_⟩
          · rw [hprocessed]
            exact (List.append_nil _).symm
          · rw [LimitOrderBook.run_append_singleton, ← hbook] }
    exact hgoto
  | exited => exact h

theorem Ok.step (h : Ok feed s) (a : PipelineThread) : Ok feed (s.step feed a) := by
  cases a with
  | producer => exact h.produce
  | consumer => exact h.consume

/-- When the consumer has left its loop, the whole feed is processed. -/
theorem Ok.orderBook_exited (h : Ok feed s) (hexited : s.consumer = .exited) :
    s.orderBook = .run Depth TableCapacity feed := by
  obtain ⟨hfin, hlength⟩ := h.exited hexited
  obtain ⟨processed, hprocessed, hbook⟩ := h.orderBook
  have hpushed := h.pushed
  rw [h.finished hfin, List.take_length] at hpushed
  rw [hexited, show ConsumerAt.pending .exited = [] from rfl, List.append_nil] at hprocessed
  rw [hbook, ← hprocessed, h.inv.order.eq_of_length hlength, hpushed]

/-! ### Progress -/

inductive Phase where
  /-- the producer has yet to start the consumer -/
  | starting
  /-- a message waits in the ring -/
  | draining
  /-- the ring is empty, and a message is to be pushed -/
  | pushing
  /-- everything is processed, and the producer has yet to say so -/
  | finishing
  | leaving
deriving DecidableEq, Repr

def phase (feed : List WireMessage) (s : Pipeline Capacity Depth TableCapacity) : Phase :=
  if s.startFlag then
    if s.threads.popped.length < s.threads.pushed.length then .draining
    else if s.threads.pushed.length < feed.length then .pushing
    else if s.producerFinished then .leaving
    else .finishing
  else
    .starting

/-- The thread whose step brings the pipeline on. -/
def helper (feed : List WireMessage) (s : Pipeline Capacity Depth TableCapacity) : PipelineThread :=
  match s.phase feed with
  | .starting | .pushing | .finishing => .producer
  | .draining | .leaving => .consumer

/-- What the consumer has still to do until it pops, when a message waits. -/
def toPop (s : Pipeline Capacity Depth TableCapacity) : Nat :=
  4 * RingThreads.stepsToPop s.threads.ring.cachedHead s.threads.popping +
    match s.consumer with
    | .tryPop | .exited => 0
    | .emptyLoadHead _ => 1
    | .emptyLoadTail => 2
    | .loadFinished => 3
    | .awaitStart | .process _ => 4

/-- What the consumer has still to do until it leaves its loop, when everything is processed. -/
def toExit (s : Pipeline Capacity Depth TableCapacity) : Nat :=
  match s.consumer with
  | .exited => 0
  | .emptyLoadHead _ => 1
  | .emptyLoadTail => 2
  | .loadFinished => 3
  | .awaitStart | .process _ => 4
  | .tryPop => 3 + RingThreads.stepsToFail s.threads.popping

/-- What is left of the phase. -/
def inner (feed : List WireMessage) (s : Pipeline Capacity Depth TableCapacity) : Nat :=
  match s.phase feed with
  | .starting | .finishing => 0
  | .draining => s.toPop
  | .pushing => RingThreads.stepsToPush Capacity s.threads.ring.cachedTail (s.threads.pushing ())
  | .leaving => s.toExit

/-- The pushes, pops and stores of a flag that are left. -/
def outer (feed : List WireMessage) (s : Pipeline Capacity Depth TableCapacity) : Nat :=
  2 * (feed.length - s.threads.pushed.length) + (s.threads.pushed.length - s.threads.popped.length) +
    (!s.startFlag).toNat + (!s.producerFinished).toNat

def rank (feed : List WireMessage) (s : Pipeline Capacity Depth TableCapacity) : Nat := 64 * s.outer feed + s.inner feed

theorem inner_lt (feed : List WireMessage) (s : Pipeline Capacity Depth TableCapacity) : s.inner feed < 64 := by
  have hpop := RingThreads.stepsToPop_le s.threads.ring.cachedHead s.threads.popping
  have hpush := RingThreads.stepsToPush_le Capacity s.threads.ring.cachedTail (s.threads.pushing ())
  have hfail := RingThreads.stepsToFail_range s.threads.popping
  unfold inner toPop toExit
  split
  · decide
  · decide
  · split <;> omega
  · omega
  · split <;> omega

variable {s' : Pipeline Capacity Depth TableCapacity}

theorem rank_lt_of_outer (h : s'.outer feed < s.outer feed) : s'.rank feed < s.rank feed := by
  have hlt := inner_lt feed s'
  unfold rank
  omega

/-- The flags and the numbers of pushes and pops are the same. -/
structure SameProgress (s s' : Pipeline Capacity Depth TableCapacity) : Prop where
  startFlag : s'.startFlag = s.startFlag
  producerFinished : s'.producerFinished = s.producerFinished
  pushed : s'.threads.pushed.length = s.threads.pushed.length
  popped : s'.threads.popped.length = s.threads.popped.length

namespace SameProgress

theorem phase (h : SameProgress s s') (feed : List WireMessage) : s'.phase feed = s.phase feed := by
  unfold Pipeline.phase
  rw [h.startFlag, h.producerFinished, h.pushed, h.popped]

theorem outer (h : SameProgress s s') (feed : List WireMessage) : s'.outer feed = s.outer feed := by
  unfold Pipeline.outer
  rw [h.startFlag, h.producerFinished, h.pushed, h.popped]

theorem rank_lt (h : SameProgress s s') (hinner : s'.inner feed < s.inner feed) : s'.rank feed < s.rank feed := by
  have houter := h.outer feed
  unfold Pipeline.rank
  omega

theorem rank_eq (h : SameProgress s s') (hinner : s'.inner feed = s.inner feed) :
    s'.rank feed = s.rank feed ∧ s'.helper feed = s.helper feed := by
  have hphase := h.phase feed
  unfold Pipeline.rank Pipeline.helper
  rw [h.outer, hinner, hphase]
  exact ⟨rfl, rfl⟩

end SameProgress

/-! ### The steps, phase by phase -/

/-- The consumer changes nothing that the producer works on. -/
theorem consume_frame (s : Pipeline Capacity Depth TableCapacity) :
    s.consume.startFlag = s.startFlag ∧ s.consume.producerFinished = s.producerFinished ∧
      s.consume.threads.pushed = s.threads.pushed ∧ s.consume.threads.pushing = s.threads.pushing ∧
      s.consume.threads.ring.cachedTail = s.threads.ring.cachedTail ∧
      s.threads.popped.length ≤ s.consume.threads.popped.length := by
  obtain ⟨hpushing, hpushed, -, -, hcached, -, hpopped⟩ := RingThreads.popStep_frame s.threads
  unfold Pipeline.consume
  cases s.consumer with
  | tryPop => exact ⟨rfl, rfl, hpushed, hpushing, hcached, hpopped⟩
  | awaitStart =>
    dsimp only
    split <;> exact ⟨rfl, rfl, rfl, rfl, rfl, le_refl _⟩
  | _ => exact ⟨rfl, rfl, rfl, rfl, rfl, le_refl _⟩

/-- The producer, once it has started the consumer and while there is a message to push. -/
theorem Ok.produce_push (h : Ok feed s) (hstart : s.startFlag = true)
    (hlt : s.threads.pushed.length < feed.length) :
    ∃ msg, (s.produce feed).threads = s.threads.pushStep () msg ∧ (s.produce feed).startFlag = s.startFlag ∧
      (s.produce feed).producerFinished = s.producerFinished ∧ (s.produce feed).consumer = s.consumer := by
  have hi := congrArg List.length h.pushed
  rw [List.length_take] at hi
  have hlt' : s.i < feed.length := by omega
  refine ⟨feed[s.i], ?_⟩
  unfold Pipeline.produce
  rw [if_pos hstart, List.getElem?_eq_getElem hlt']
  exact ⟨rfl, rfl, rfl, rfl⟩

/-- The producer after the last message. -/
theorem Ok.produce_finish (h : Ok feed s) (hstart : s.startFlag = true)
    (hge : ¬s.threads.pushed.length < feed.length) : s.produce feed = { s with producerFinished := true } := by
  have hi := congrArg List.length h.pushed
  rw [List.length_take] at hi
  have hle := h.i_le
  unfold Pipeline.produce
  rw [if_pos hstart, List.getElem?_eq_none (by omega)]

/-- What a push in progress does to the number of items pushed. -/
private theorem pushed_length_pushStep (t : RingThreads Unit WireMessage Capacity) (msg : WireMessage) :
    (t.pushStep () msg).pushed.length = t.pushed.length + 1 ∨
      (t.pushStep () msg).pushed.length = t.pushed.length := by
  rw [RingThreads.pushed_pushStep, List.length_append]
  cases ((t.pushing ()).step t.ring).2.2 with
  | returnedTrue x => exact Or.inl rfl
  | _ => exact Or.inr rfl

/-- The consumer pops, or comes closer to it. -/
theorem Ok.consume_draining (h : Ok feed s) (hstart : s.startFlag = true)
    (hlt : s.threads.popped.length < s.threads.pushed.length) :
    s.consume.threads.popped.length = s.threads.popped.length + 1 ∨
      s.consume.threads.popped = s.threads.popped ∧ s.consume.toPop < s.toPop := by
  have hprogress := h.inv.popStep_progress hlt
  unfold Pipeline.consume
  cases hc : s.consumer with
  | awaitStart =>
    right
    simp only [hstart, if_true]
    exact ⟨trivial, by simp [toPop, hc]⟩
  | loadFinished =>
    right
    refine ⟨rfl, ?_⟩
    dsimp only
    split <;> simp [toPop, hc]
  | emptyLoadTail => exact Or.inr ⟨rfl, by simp [toPop, hc]⟩
  | emptyLoadHead tail =>
    right
    refine ⟨rfl, ?_⟩
    dsimp only
    split <;> simp [toPop, hc]
  | tryPop =>
    dsimp only
    rcases hprogress with hpop | ⟨hsame, hless⟩
    · exact Or.inl hpop
    · refine Or.inr ⟨hsame, ?_⟩
      unfold toPop
      rw [hc]
      cases hout : (s.threads.popping.step s.threads.ring).2.2 with
      | running => dsimp only; omega
      | returnedTrue msg =>
        have hpopped := RingThreads.popped_popStep s.threads
        rw [hout, hsame] at hpopped
        simp [Outcome.items] at hpopped
      | returnedFalse => dsimp only; omega
  | process msg =>
    right
    refine ⟨rfl, ?_⟩
    simp [toPop, hc]
  | exited =>
    have hall := (h.exited hc).2
    omega

/-- The consumer leaves its loop, or comes closer to it. -/
theorem Ok.consume_leaving (h : Ok feed s) (hstart : s.startFlag = true) (hfin : s.producerFinished = true)
    (hempty : s.threads.popped.length = s.threads.pushed.length) (hgoal : s.consumer ≠ .exited) :
    s.consume.threads.popped = s.threads.popped ∧ s.consume.toExit < s.toExit := by
  obtain ⟨hpopped, hcall⟩ := h.inv.popStep_empty (Nat.le_of_eq hempty.symm)
  unfold Pipeline.consume
  cases hc : s.consumer with
  | awaitStart =>
    simp only [hstart, if_true]
    exact ⟨trivial, by simp [toExit, hc]⟩
  | loadFinished => exact ⟨rfl, by simp [toExit, hc, hfin]⟩
  | emptyLoadTail => exact ⟨rfl, by simp [toExit, hc]⟩
  | emptyLoadHead tail =>
    have htail := (h.comparing tail hc).2
    have heq : tail = s.threads.ring.head := htail.trans (h.empty_iff.2 hempty)
    exact ⟨rfl, by simp [toExit, hc, heq]⟩
  | tryPop =>
    have hpos := (RingThreads.stepsToFail_range s.threads.popping).1
    refine ⟨hpopped, ?_⟩
    unfold toExit
    rw [hc]
    rcases hcall with ⟨hout, -⟩ | ⟨hout, hless⟩
    · rw [hout]
      dsimp only
      omega
    · rw [hout]
      dsimp only
      omega
  | process msg => exact ⟨rfl, by simp [toExit, hc]⟩
  | exited => exact absurd hc hgoal

theorem phase_starting (feed : List WireMessage) (h : s.startFlag = false) : s.phase feed = .starting := by
  simp [phase, h]

theorem phase_draining (feed : List WireMessage) (h : s.startFlag = true)
    (hlt : s.threads.popped.length < s.threads.pushed.length) : s.phase feed = .draining := by
  simp [phase, h, hlt]

theorem phase_pushing (h : s.startFlag = true) (hempty : s.threads.popped.length = s.threads.pushed.length)
    (hlt : s.threads.pushed.length < feed.length) : s.phase feed = .pushing := by
  simp [phase, h, hempty, hlt]

theorem phase_ended (feed : List WireMessage) (h : s.startFlag = true)
    (hempty : s.threads.popped.length = s.threads.pushed.length)
    (hge : ¬s.threads.pushed.length < feed.length) :
    s.phase feed = if s.producerFinished then .leaving else .finishing := by
  simp [phase, h, hempty, hge]

private theorem helpful_of {a : PipelineThread} (ha : s.helper feed = a)
    (hhelps : (s.step feed a).rank feed < s.rank feed)
    (hother : ∀ b, b ≠ a → (s.step feed b).rank feed < s.rank feed ∨
      (s.step feed b).rank feed = s.rank feed ∧ (s.step feed b).helper feed = s.helper feed) :
    Fairness.Helpful (Pipeline.step feed) (fun s => s.consumer = .exited) (rank feed) (helper feed) s where
  helps := Or.inr (ha.symm ▸ hhelps)
  harmless b := by
    by_cases hb : b = a
    · exact Or.inr (Or.inl (hb ▸ hhelps))
    · exact Or.inr (hother b hb)

private theorem Ok.helpful_starting (h : Ok feed s) (hstart : s.startFlag = false) :
    Fairness.Helpful (Pipeline.step feed) (fun s => s.consumer = .exited) (rank feed) (helper feed) s := by
  refine helpful_of (a := .producer) (by rw [helper, phase_starting feed hstart]) ?_ fun b hb => ?_
  · apply rank_lt_of_outer
    have hproduce : s.produce feed = { s with startFlag := true } := by simp [Pipeline.produce, hstart]
    show (s.produce feed).outer feed < _
    rw [hproduce]
    simp [outer, hstart]
  · cases b with
    | producer => exact absurd rfl hb
    | consumer =>
      have hconsume : s.consume = s := by simp [Pipeline.consume, h.awaiting hstart, hstart]
      exact Or.inr ⟨congrArg (rank feed) hconsume, congrArg (helper feed) hconsume⟩

/-- A step of the producer while a message waits. -/
private theorem Ok.produce_draining (h : Ok feed s) (hstart : s.startFlag = true)
    (hlt : s.threads.popped.length < s.threads.pushed.length) :
    (s.produce feed).rank feed < s.rank feed ∨
      (s.produce feed).rank feed = s.rank feed ∧ (s.produce feed).helper feed = s.helper feed := by
  have hphase := phase_draining feed hstart hlt
  by_cases hpush : s.threads.pushed.length < feed.length
  · obtain ⟨msg, hthreads, hflag, hfin, hconsumer⟩ := h.produce_push hstart hpush
    obtain ⟨hpopping, hpopped, -, hcached⟩ := s.threads.pushStep_frame msg
    rcases pushed_length_pushStep s.threads msg with hmore | hsame
    · left
      apply rank_lt_of_outer
      unfold outer
      rw [hthreads, hflag, hfin, hpopped, hmore]
      omega
    · right
      have hprogress : SameProgress s (s.produce feed) :=
        ⟨hflag, hfin, by rw [hthreads, hsame], by rw [hthreads, hpopped]⟩
      refine hprogress.rank_eq ?_
      unfold inner
      rw [hprogress.phase, hphase]
      show (s.produce feed).toPop = s.toPop
      unfold toPop
      rw [hthreads, hconsumer, hpopping, hcached]
  · rw [h.produce_finish hstart hpush]
    by_cases hfin : s.producerFinished = true
    · right
      have heq : { s with producerFinished := true } = s := by rw [← hfin]
      rw [heq]
      exact ⟨rfl, rfl⟩
    · left
      apply rank_lt_of_outer
      simp [outer, hfin]

private theorem Ok.helpful_draining (h : Ok feed s) (hstart : s.startFlag = true)
    (hlt : s.threads.popped.length < s.threads.pushed.length) :
    Fairness.Helpful (Pipeline.step feed) (fun s => s.consumer = .exited) (rank feed) (helper feed) s := by
  obtain ⟨hcStart, hcFin, hcPushed, -⟩ := s.consume_frame
  have hphase := phase_draining feed hstart hlt
  refine helpful_of (a := .consumer) (by rw [helper, hphase]) ?_ fun b hb => ?_
  · show s.consume.rank feed < _
    rcases h.consume_draining hstart hlt with hpop | ⟨hsame, hless⟩
    · apply rank_lt_of_outer
      unfold outer
      rw [hcStart, hcFin, hcPushed, hpop]
      omega
    · have hprogress : SameProgress s s.consume := ⟨hcStart, hcFin, by rw [hcPushed], by rw [hsame]⟩
      refine hprogress.rank_lt ?_
      unfold inner
      rw [hprogress.phase, hphase]
      exact hless
  · cases b with
    | producer => exact h.produce_draining hstart hlt
    | consumer => exact absurd rfl hb

private theorem Ok.helpful_pushing (h : Ok feed s) (hstart : s.startFlag = true)
    (hempty : s.threads.popped.length = s.threads.pushed.length) (hpush : s.threads.pushed.length < feed.length)
    (hsame : SameProgress s s.consume) :
    Fairness.Helpful (Pipeline.step feed) (fun s => s.consumer = .exited) (rank feed) (helper feed) s := by
  obtain ⟨-, -, -, hcPushing, hcCached, -⟩ := s.consume_frame
  have hphase := phase_pushing hstart hempty hpush
  refine helpful_of (a := .producer) (by rw [helper, hphase]) ?_ fun b hb => ?_
  · show (s.produce feed).rank feed < _
    have htwo := Capacity.atLeastTwo
    obtain ⟨msg, hthreads, hflag, hfin, -⟩ := h.produce_push hstart hpush
    obtain ⟨-, hpopped, -, -⟩ := s.threads.pushStep_frame msg
    rcases h.alone.pushStep_progress h.inv (by omega) msg with hmore | ⟨hpushed, hless⟩
    · apply rank_lt_of_outer
      unfold outer
      rw [hthreads, hflag, hfin, hpopped, hmore]
      omega
    · have hprogress : SameProgress s (s.produce feed) :=
        ⟨hflag, hfin, by rw [hthreads, hpushed], by rw [hthreads, hpopped]⟩
      refine hprogress.rank_lt ?_
      unfold inner
      rw [hprogress.phase, hphase, hthreads]
      exact hless
  · cases b with
    | producer => exact absurd rfl hb
    | consumer =>
      refine Or.inr (hsame.rank_eq ?_)
      unfold inner
      rw [hsame.phase, hphase, hcPushing, hcCached]

private theorem Ok.helpful_ended (h : Ok feed s) (hgoal : s.consumer ≠ .exited) (hstart : s.startFlag = true)
    (hempty : s.threads.popped.length = s.threads.pushed.length) (hpush : ¬s.threads.pushed.length < feed.length)
    (hsame : SameProgress s s.consume) :
    Fairness.Helpful (Pipeline.step feed) (fun s => s.consumer = .exited) (rank feed) (helper feed) s := by
  have hphase := phase_ended feed hstart hempty hpush
  have hproduce := h.produce_finish hstart hpush
  by_cases hfin : s.producerFinished = true
  · rw [if_pos hfin] at hphase
    refine helpful_of (a := .consumer) (by rw [helper, hphase]) ?_ fun b hb => ?_
    · refine hsame.rank_lt ?_
      unfold inner
      rw [hsame.phase, hphase]
      exact (h.consume_leaving hstart hfin hempty hgoal).2
    · cases b with
      | producer =>
        have heq : s.produce feed = s := by rw [hproduce, ← hfin]
        exact Or.inr ⟨congrArg (rank feed) heq, congrArg (helper feed) heq⟩
      | consumer => exact absurd rfl hb
  · rw [if_neg hfin] at hphase
    refine helpful_of (a := .producer) (by rw [helper, hphase]) ?_ fun b hb => ?_
    · apply rank_lt_of_outer
      show (s.produce feed).outer feed < _
      rw [hproduce]
      simp [outer, hfin]
    · cases b with
      | producer => exact absurd rfl hb
      | consumer =>
        refine Or.inr (hsame.rank_eq ?_)
        unfold inner
        rw [hsame.phase, hphase]

/-- In each state that is not the last one, one of the two threads helps. -/
theorem Ok.helpful (h : Ok feed s) (hgoal : s.consumer ≠ .exited) :
    Fairness.Helpful (Pipeline.step feed) (fun s => s.consumer = .exited) (rank feed) (helper feed) s := by
  by_cases hstart : s.startFlag = true
  · by_cases hlt : s.threads.popped.length < s.threads.pushed.length
    · exact h.helpful_draining hstart hlt
    · -- the consumer finds nothing to pop
      obtain ⟨hcStart, hcFin, hcPushed, -, -, hmore⟩ := s.consume_frame
      have horder := h.inv.order.length_le
      have hnext := h.consume.inv.order.length_le
      rw [hcPushed] at hnext
      have hempty : s.threads.popped.length = s.threads.pushed.length := by omega
      have hsame : SameProgress s s.consume := ⟨hcStart, hcFin, by rw [hcPushed], by omega⟩
      by_cases hpush : s.threads.pushed.length < feed.length
      · exact h.helpful_pushing hstart hempty hpush hsame
      · exact h.helpful_ended hgoal hstart hempty hpush hsame
  · exact h.helpful_starting (Bool.not_eq_true _ ▸ hstart)

/-! ### The results -/

theorem ok_run (feed : List WireMessage) (buffer : Vector WireMessage Capacity.val) (schedule : List PipelineThread) :
    Ok feed (run feed buffer Depth TableCapacity schedule) :=
  Runs.foldl_invariant (fun _ a h => h.step a) (ok_start feed buffer) schedule

/-- In every interleaving the book is at every moment the one of the direct benchmark over a part of its messages, from
the first one on, and over all of them once the consumer has left its loop. -/
theorem pipeline_book (messageCount : Nat) (rng : Nat → Round) (buffer : Vector WireMessage Capacity.val)
    (schedule : List PipelineThread) :
    let s := run (generateMockFeed messageCount rng) buffer 5 benchTable schedule
    (∃ k, s.orderBook = .run 5 benchTable ((generateMockFeed messageCount rng).take k)) ∧
      (s.consumer = .exited → s.orderBook = runDirectBenchmark messageCount rng) := by
  intro s
  have h : Ok (generateMockFeed messageCount rng) s := ok_run _ buffer schedule
  refine ⟨?_, fun hexited => h.orderBook_exited hexited⟩
  obtain ⟨processed, hprocessed, hbook⟩ := h.orderBook
  have hpart : processed <+: generateMockFeed messageCount rng :=
    calc processed <+: s.threads.popped := by rw [hprocessed]; exact List.prefix_append ..
      _ <+: s.threads.pushed := h.inv.order
      _ <+: generateMockFeed messageCount rng := by rw [h.pushed]; exact List.take_prefix ..
  exact ⟨processed.length, by rw [hbook, ← List.prefix_iff_eq_take.1 hpart]⟩

theorem exited_step (h : s.consumer = .exited) (a : PipelineThread) : (s.step feed a).consumer = .exited := by
  cases a with
  | producer =>
    show (s.produce feed).consumer = .exited
    unfold Pipeline.produce
    split
    · split <;> exact h
    · exact h
  | consumer =>
    show s.consume.consumer = .exited
    unfold Pipeline.consume
    rw [h]
    exact h

/-- Under every schedule that keeps both threads running, the consumer leaves its loop at some moment, and from then on
the book is the one that processes the feed directly. -/
theorem pipeline_finishes (feed : List WireMessage) (buffer : Vector WireMessage Capacity.val) (Depth : Nat)
    (TableCapacity : Pow2) (schedule : ℕ → PipelineThread) (hfair : Fairness.Fair schedule) :
    ∃ n, ∀ m, n ≤ m →
      (run feed buffer Depth TableCapacity ((List.range m).map schedule)).consumer = .exited ∧
        (run feed buffer Depth TableCapacity ((List.range m).map schedule)).orderBook =
          .run Depth TableCapacity feed := by
  obtain ⟨n, hn⟩ := Fairness.reaches (fun _ a h => h.step a) (ok_start feed buffer)
    (fun s h hgoal => h.helpful hgoal) hfair
  refine ⟨n, fun m hm => ?_⟩
  have hexited : (run feed buffer Depth TableCapacity ((List.range m).map schedule)).consumer = .exited := by
    obtain ⟨d, rfl⟩ := Nat.exists_eq_add_of_le hm
    clear hm
    rw [Fairness.trace_eq_foldl] at hn
    induction d with
    | zero => exact hn
    | succ d ih =>
      rw [← Nat.add_assoc, List.range_succ, List.map_append]
      unfold run at ih ⊢
      rw [List.foldl_append]
      exact exited_step ih _
  exact ⟨hexited, (ok_run feed buffer _).orderBook_exited hexited⟩

/-- The threads take turns. -/
theorem pipeline_finishes_in_turn :
    ∃ n, ∀ m, n ≤ m →
      (run [.ofCancel ⟨'X'.toUInt8, 1, 0, 7, 4⟩] (Vector.replicate ringCapacity.val .zero) 5 benchTable
          ((List.range m).map fun k => if k % 2 = 0 then .producer else .consumer)).consumer = .exited ∧
        (run [.ofCancel ⟨'X'.toUInt8, 1, 0, 7, 4⟩] (Vector.replicate ringCapacity.val .zero) 5 benchTable
          ((List.range m).map fun k => if k % 2 = 0 then .producer else .consumer)).orderBook =
          .run 5 benchTable [.ofCancel ⟨'X'.toUInt8, 1, 0, 7, 4⟩] :=
  pipeline_finishes _ _ _ _ _ fun i n =>
    match i with
    | .producer => ⟨2 * n, by omega, by simp⟩
    | .consumer => ⟨2 * n + 1, by omega, by simp [Nat.add_mod]⟩

end Pipeline

end FeedHandler
