import FeedHandler.Foundation.Fairness
import FeedHandler.Protocol
import FeedHandler.RingBuffer.Progress

/-!
# Shutdown (`main` of `stream_server.cpp`)

When the command thread reads `QUIT`, or has no more input, `g_running` becomes `false` and `main` joins the threads.
The consumer leaves its loop in its next round, whatever waits in the ring.  The producer looks at `g_running` only
between two bursts, and `pushWireMessage` waits as long as the ring is full.  So `main` gets past the joins of the
command thread, the producer and the consumer exactly when all that is left of the burst fits into the ring that the
consumer leaves behind (`shutdown`).  What `main` does then is left out: the join of the snapshot thread, and the stop
of the exporter, whose thread may wait for a client.

The command thread only sets bursts here: its own messages would make it a second producer of the ring.
-/

namespace FeedHandler

open RingIndex Fairness

namespace StreamServer

/-- The producer thread before the step that the constructor names. -/
inductive ProducerAt where
  | loadRunning
  | exchange
  /-- in `pushWireMessage`, with `k` messages of the burst to come after this one -/
  | push (k : Nat)
  | exited
deriving DecidableEq, Repr

/-- The producer thread with this many messages to generate. -/
def ProducerAt.burst : Nat → ProducerAt
  | 0 => .loadRunning
  | k + 1 => .push k

/-- The consumer thread before the step that the constructor names. -/
inductive EngineConsumerAt where
  | loadRunning
  | tryPop
  | process (msg : WireMessage)
  | exited
deriving DecidableEq, Repr

inductive ServerThread where
  | producer
  | consumer
  | commander
deriving DecidableEq, Repr

structure Server (Capacity : RingCapacity) where
  threads : RingThreads Unit WireMessage Capacity
  running : Bool
  burstPending : UInt64
  /-- the amounts of the `BURST` commands still to be read, before `QUIT` or the end of the input -/
  amounts : List UInt64
  producer : ProducerAt
  consumer : EngineConsumerAt

namespace Server

variable {Capacity : RingCapacity} {generate : Nat → WireMessage} {s : Server Capacity}

def start (buffer : Vector WireMessage Capacity.val) (amounts : List UInt64) : Server Capacity where
  threads := RingThreads.start 0 buffer
  running := true
  burstPending := 0
  amounts
  producer := .loadRunning
  consumer := .loadRunning

/-- `producerThreadFunc`; `generate` gives the messages of the bursts. -/
def produce (generate : Nat → WireMessage) (s : Server Capacity) : Server Capacity :=
  match s.producer with
  | .loadRunning => { s with producer := if s.running then .exchange else .exited }
  | .exchange => { s with burstPending := 0, producer := .burst s.burstPending.toNat }
  | .push k =>
    { s with
      threads := s.threads.pushStep () (generate s.threads.pushed.length)
      producer :=
        match ((s.threads.pushing ()).step s.threads.ring).2.2 with
        | .returnedTrue _ => .burst k
        | _ => .push k }
  | .exited => s

/-- `consumerThreadFunc` -/
def consume (s : Server Capacity) : Server Capacity :=
  match s.consumer with
  | .loadRunning => { s with consumer := if s.running then .tryPop else .exited }
  | .tryPop =>
    { s with
      threads := s.threads.popStep
      consumer :=
        match (s.threads.popping.step s.threads.ring).2.2 with
        | .running => .tryPop
        | .returnedTrue msg => .process msg
        | .returnedFalse => .loadRunning }
  | .process _ => { s with consumer := .loadRunning }
  | .exited => s

/-- `commandThreadFunc`, and the store of `main` after it has ended. -/
def command (s : Server Capacity) : Server Capacity :=
  if s.running then
    match s.amounts with
    | [] => { s with running := false }
    | burstAmount :: amounts => { s with burstPending := burstAmount, amounts }
  else
    s

def step (generate : Nat → WireMessage) (s : Server Capacity) : ServerThread → Server Capacity
  | .producer => s.produce generate
  | .consumer => s.consume
  | .commander => s.command

/-- `main` is past `commander.join()`, `producer.join()` and `consumer.join()`; `snapshotter.join()` and
`g_prometheusExporter.stop()` follow. -/
def Joined (s : Server Capacity) : Prop := s.running = false ∧ s.producer = .exited ∧ s.consumer = .exited

/-- The messages of its burst that the producer has not yet pushed. -/
def toPush (s : Server Capacity) : Nat :=
  match s.producer with
  | .exchange => s.burstPending.toNat
  | .push k => k + 1
  | _ => 0

/-- What holds between the steps. -/
structure Ok (s : Server Capacity) : Prop where
  inv : s.threads.Inv 0
  alone : RingThreads.Alone 0 s.threads
  stopped : s.consumer = .exited → s.running = false

theorem ok_start (buffer : Vector WireMessage Capacity.val) (amounts : List UInt64) : Ok (start buffer amounts) where
  inv := RingThreads.inv_start 0 buffer
  alone := trivial
  stopped h := nomatch h

/-! ### What the threads leave alone -/

theorem produce_frame (generate : Nat → WireMessage) (s : Server Capacity) :
    (s.produce generate).running = s.running ∧ (s.produce generate).amounts = s.amounts ∧
      (s.produce generate).consumer = s.consumer ∧ (s.produce generate).threads.popping = s.threads.popping ∧
      (s.produce generate).threads.popped = s.threads.popped := by
  unfold produce
  cases s.producer with
  | push k =>
    obtain ⟨hpopping, hpopped, -, -⟩ := s.threads.pushStep_frame (generate s.threads.pushed.length)
    exact ⟨rfl, rfl, rfl, hpopping, hpopped⟩
  | _ => exact ⟨rfl, rfl, rfl, rfl, rfl⟩

theorem consume_frame (s : Server Capacity) :
    s.consume.running = s.running ∧ s.consume.amounts = s.amounts ∧ s.consume.producer = s.producer ∧
      s.consume.burstPending = s.burstPending ∧ s.consume.threads.pushed = s.threads.pushed := by
  unfold consume
  cases s.consumer with
  | tryPop => exact ⟨rfl, rfl, rfl, rfl, s.threads.popStep_frame.2.1⟩
  | _ => exact ⟨rfl, rfl, rfl, rfl, rfl⟩

theorem consume_exited (h : s.consumer = .exited) : s.consume = s := by
  unfold consume
  rw [h]

theorem command_stopped (h : s.running = false) : s.command = s := by
  simp [command, h]

theorem Ok.step (h : Ok s) (a : ServerThread) : Ok (s.step generate a) := by
  cases a with
  | producer =>
    obtain ⟨hrunning, -, hconsumer, -, -⟩ := s.produce_frame generate
    have hthreads : (s.produce generate).threads.Inv 0 ∧ RingThreads.Alone 0 (s.produce generate).threads := by
      unfold produce
      cases s.producer with
      | push k => exact ⟨h.inv.pushStep () _ (h.alone.undisturbed (.push () _)), h.alone.pushStep h.inv _⟩
      | _ => exact ⟨h.inv, h.alone⟩
    exact ⟨hthreads.1, hthreads.2, fun hexited => hrunning.trans (h.stopped (hconsumer ▸ hexited))⟩
  | consumer =>
    show Ok s.consume
    unfold consume
    cases hc : s.consumer with
    | loadRunning =>
      refine ⟨h.inv, h.alone, fun hexited => ?_⟩
      cases hrunning : s.running with
      | false => rfl
      | true =>
        rw [hrunning] at hexited
        cases hexited
    | tryPop =>
      refine ⟨h.inv.popStep, h.alone.popStep, fun hexited => ?_⟩
      dsimp only at hexited
      split at hexited <;> cases hexited
    | process msg => exact ⟨h.inv, h.alone, fun hexited => nomatch hexited⟩
    | exited => exact h
  | commander =>
    show Ok s.command
    unfold command
    split
    · split
      · exact ⟨h.inv, h.alone, fun _ => rfl⟩
      · exact ⟨h.inv, h.alone, h.stopped⟩
    · exact h

/-! ### The consumer leaves its loop -/

/-- The steps that a call of `tryPop` can still take. -/
def stepsLeft : TryPop WireMessage → Nat
  | .storeTail _ _ => 1
  | .readSlot _ => 2
  | .reloadCachedHead _ => 3
  | .storeCachedHead _ _ => 4
  | .loadHead _ => 5
  | .loadCachedHead _ => 6
  | .loadTail => 7
  | .idle => 8

theorem stepsLeft_le (call : TryPop WireMessage) : stepsLeft call ≤ 8 := by
  unfold stepsLeft
  split <;> omega

theorem stepsLeft_popStep {threads : RingThreads Unit WireMessage Capacity}
    (h : (threads.popping.step threads.ring).2.2 = .running) :
    stepsLeft threads.popStep.popping < stepsLeft threads.popping := by
  unfold RingThreads.popStep
  cases hcall : threads.popping with
  | idle => exact (by decide : 7 < 8)
  | loadTail => exact (by decide : 6 < 7)
  | loadCachedHead t =>
    dsimp only [TryPop.step]
    split
    · exact (by decide : 5 < 6)
    · exact (by decide : 2 < 6)
  | loadHead t => exact (by decide : 4 < 5)
  | storeCachedHead t x => exact (by decide : 3 < 4)
  | reloadCachedHead t =>
    rw [hcall] at h
    dsimp only [TryPop.step] at h ⊢
    split
    · rename_i he
      rw [if_pos he] at h
      cases h
    · exact (by decide : 2 < 3)
  | readSlot t => exact (by decide : 1 < 2)
  | storeTail t x =>
    rw [hcall] at h
    cases h

/-- How far the consumer is from leaving its loop, once `g_running` is `false`. -/
def toLeave (s : Server Capacity) : Nat :=
  match s.consumer with
  | .exited => 0
  | .loadRunning => 1
  | .process _ => 2
  | .tryPop => 2 + stepsLeft s.threads.popping

theorem toLeave_le (s : Server Capacity) : s.toLeave ≤ 10 := by
  have hle := stepsLeft_le s.threads.popping
  unfold toLeave
  split <;> omega

def leaveRank (s : Server Capacity) : Nat := if s.running then 11 + s.amounts.length else s.toLeave

def leaveHelper (s : Server Capacity) : ServerThread := if s.running then .commander else .consumer

theorem consume_toLeave (hrunning : s.running = false) (hne : s.consumer ≠ .exited) :
    s.consume.toLeave < s.toLeave := by
  unfold consume toLeave
  cases hc : s.consumer with
  | loadRunning => simp [hrunning]
  | tryPop =>
    dsimp only
    cases hout : (s.threads.popping.step s.threads.ring).2.2 with
    | running => exact Nat.add_lt_add_left (stepsLeft_popStep hout) 2
    | returnedTrue msg =>
      have hpos : 0 < stepsLeft s.threads.popping := by
        unfold stepsLeft
        split <;> omega
      dsimp only
      omega
    | returnedFalse => dsimp only; omega
  | process msg => exact (by decide : 1 < 2)
  | exited => exact absurd hc hne

/-- Until `g_running` is `false` the command thread helps, then the consumer. -/
theorem helpful_leave (hne : s.consumer ≠ .exited) :
    Helpful (step generate) (fun s => s.consumer = .exited) leaveRank leaveHelper s := by
  obtain ⟨hpRunning, hpAmounts, hpConsumer, hpPopping, -⟩ := s.produce_frame generate
  obtain ⟨hcRunning, hcAmounts, -⟩ := s.consume_frame
  have hproduce : (s.produce generate).toLeave = s.toLeave := by
    unfold toLeave
    rw [hpConsumer, hpPopping]
  by_cases hrunning : s.running = true
  · have hcommand : s.command.leaveRank < s.leaveRank := by
      unfold leaveRank command
      rw [if_pos hrunning, if_pos hrunning]
      cases hamounts : s.amounts with
      | nil =>
        have hle := toLeave_le { s with running := false }
        show Server.toLeave { s with running := false } < _
        omega
      | cons burstAmount amounts =>
        dsimp only
        rw [if_pos hrunning, List.length_cons]
        omega
    refine ⟨Or.inr ?_, fun a => ?_⟩
    · rw [leaveHelper, if_pos hrunning]
      exact hcommand
    · cases a with
      | producer =>
        refine Or.inr (Or.inr ⟨?_, ?_⟩)
        · show (s.produce generate).leaveRank = _
          rw [leaveRank, leaveRank, hpRunning, hpAmounts, if_pos hrunning, if_pos hrunning]
        · show (s.produce generate).leaveHelper = _
          rw [leaveHelper, leaveHelper, hpRunning]
      | consumer =>
        refine Or.inr (Or.inr ⟨?_, ?_⟩)
        · show s.consume.leaveRank = _
          rw [leaveRank, leaveRank, hcRunning, hcAmounts, if_pos hrunning, if_pos hrunning]
        · show s.consume.leaveHelper = _
          rw [leaveHelper, leaveHelper, hcRunning]
      | commander => exact Or.inr (Or.inl hcommand)
  · have hstopped : s.running = false := Bool.not_eq_true _ ▸ hrunning
    have hconsume : s.consume.leaveRank < s.leaveRank := by
      rw [leaveRank, leaveRank, hcRunning, if_neg hrunning, if_neg hrunning]
      exact consume_toLeave hstopped hne
    refine ⟨Or.inr ?_, fun a => ?_⟩
    · rw [leaveHelper, if_neg hrunning]
      exact hconsume
    · cases a with
      | producer =>
        refine Or.inr (Or.inr ⟨?_, ?_⟩)
        · show (s.produce generate).leaveRank = _
          rw [leaveRank, leaveRank, hpRunning, if_neg hrunning, if_neg hrunning, hproduce]
        · show (s.produce generate).leaveHelper = _
          rw [leaveHelper, leaveHelper, hpRunning]
      | consumer => exact Or.inr (Or.inl hconsume)
      | commander =>
        have hsame : s.step generate .commander = s := command_stopped hstopped
        rw [hsame]
        exact Or.inr (Or.inr ⟨rfl, rfl⟩)

/-! ### The producer pushes what is left of its burst -/

theorem toPush_burst (s : Server Capacity) (k : Nat) :
    ({ s with producer := .burst k } : Server Capacity).toPush = k := by
  cases k <;> rfl

/-- A message of the burst is pushed, or the call goes on. -/
theorem produce_push {k : Nat} (h : s.producer = .push k) (generate : Nat → WireMessage) :
    (s.produce generate).threads = s.threads.pushStep () (generate s.threads.pushed.length) ∧
      ((s.produce generate).threads.pushed.length = s.threads.pushed.length + 1 ∧
          (s.produce generate).producer = .burst k ∨
        (s.produce generate).threads.pushed = s.threads.pushed ∧ (s.produce generate).producer = .push k) := by
  have hpushed := RingThreads.pushed_pushStep s.threads (generate s.threads.pushed.length)
  unfold produce
  rw [h]
  refine ⟨rfl, ?_⟩
  dsimp only
  rw [hpushed]
  cases hout : ((s.threads.pushing ()).step s.threads.ring).2.2 with
  | returnedTrue x => exact Or.inl ⟨by simp [Outcome.items], rfl⟩
  | _ => exact Or.inr ⟨List.append_nil _, rfl⟩

/-- Once `g_running` is `false`, the messages pushed and those still to push stay the same together. -/
theorem pushed_add_toPush_step (h : s.running = false) (a : ServerThread) :
    (s.step generate a).threads.pushed.length + (s.step generate a).toPush = s.threads.pushed.length + s.toPush := by
  cases a with
  | producer =>
    show (s.produce generate).threads.pushed.length + (s.produce generate).toPush = _
    cases hp : s.producer with
    | loadRunning => simp [produce, toPush, hp, h]
    | exchange =>
      have hproduce : s.produce generate =
          { ({ s with burstPending := 0 } : Server Capacity) with producer := .burst s.burstPending.toNat } := by
        simp [produce, hp]
      have htoPush : s.toPush = s.burstPending.toNat := by simp [toPush, hp]
      rw [hproduce, toPush_burst, htoPush]
    | push k =>
      have htoPush : s.toPush = k + 1 := by simp [toPush, hp]
      obtain ⟨-, ⟨hmore, hproducer⟩ | ⟨hsame, hproducer⟩⟩ := produce_push hp generate
      · have hleft : (s.produce generate).toPush = k := by
          rw [← toPush_burst (s.produce generate) k, ← hproducer]
        omega
      · have hleft : (s.produce generate).toPush = k + 1 := by simp [toPush, hproducer]
        rw [hsame]
        omega
    | exited => simp [produce, hp]
  | consumer =>
    obtain ⟨-, -, hproducer, hpending, hpushed⟩ := s.consume_frame
    show s.consume.threads.pushed.length + s.consume.toPush = _
    rw [hpushed, toPush, toPush, hproducer, hpending]
  | commander =>
    have hsame : s.step generate .commander = s := command_stopped h
    rw [hsame]

/-- The consumer has left its loop; `total` messages were pushed or are still to be, and `popped` were popped. -/
structure Left (total popped : Nat) (s : Server Capacity) : Prop where
  ok : Ok s
  exited : s.consumer = .exited
  total : s.threads.pushed.length + s.toPush = total
  popped : s.threads.popped.length = popped

variable {total popped : Nat}

theorem Left.running (h : Left total popped s) : s.running = false := h.ok.stopped h.exited

theorem Left.step (h : Left total popped s) (a : ServerThread) : Left total popped (s.step generate a) := by
  refine ⟨h.ok.step a, ?_, (pushed_add_toPush_step h.running a).trans h.total, ?_⟩
  · cases a with
    | producer => exact (s.produce_frame generate).2.2.1.trans h.exited
    | consumer => exact (congrArg Server.consumer (consume_exited h.exited)).trans h.exited
    | commander => exact (congrArg Server.consumer (command_stopped h.running)).trans h.exited
  · cases a with
    | producer =>
      have hpopped := (s.produce_frame generate).2.2.2.2
      exact (congrArg List.length hpopped).trans h.popped
    | consumer => exact (congrArg (·.threads.popped.length) (consume_exited h.exited)).trans h.popped
    | commander => exact (congrArg (·.threads.popped.length) (command_stopped h.running)).trans h.popped

/-- How far the producer is from leaving its loop, while there is room. -/
def pushRank (s : Server Capacity) : Nat :=
  12 * s.toPush +
    match s.producer with
    | .exited => 0
    | .loadRunning => 1
    | .exchange => 11
    | .push _ => RingThreads.stepsToPush Capacity s.threads.ring.cachedTail (s.threads.pushing ())

theorem pushRank_burst_lt (s : Server Capacity) (k : Nat) :
    ({ s with producer := .burst k } : Server Capacity).pushRank < 12 * k + 11 := by
  have hle := RingThreads.stepsToPush_le Capacity s.threads.ring.cachedTail (s.threads.pushing ())
  unfold pushRank
  rw [toPush_burst]
  cases k with
  | zero => exact (by decide : 1 < 11)
  | succ k =>
    show 12 * (k + 1) + RingThreads.stepsToPush Capacity s.threads.ring.cachedTail (s.threads.pushing ()) < _
    omega

/-- While what is left of the burst fits into the ring, each step of the producer brings it closer to its end. -/
theorem Left.produce_closer (h : Left total popped s) (hroom : total ≤ popped + Capacity.val)
    (hne : s.producer ≠ .exited) : (s.produce generate).pushRank < s.pushRank := by
  cases hp : s.producer with
  | loadRunning => simp [produce, pushRank, toPush, hp, h.running]
  | exchange =>
    have hproduce : s.produce generate =
        { ({ s with burstPending := 0 } : Server Capacity) with producer := .burst s.burstPending.toNat } := by
      simp [produce, hp]
    have hrank : s.pushRank = 12 * s.burstPending.toNat + 11 := by simp [pushRank, toPush, hp]
    rw [hproduce, hrank]
    exact pushRank_burst_lt _ _
  | push k =>
    have htoPush : s.toPush = k + 1 := by simp [toPush, hp]
    have hrank : s.pushRank = 12 * (k + 1) +
        RingThreads.stepsToPush Capacity s.threads.ring.cachedTail (s.threads.pushing ()) := by
      simp [pushRank, toPush, hp]
    have htotal := h.total
    have hpopped := h.popped
    obtain ⟨hthreads, hcases⟩ := produce_push hp generate
    have hprogress := h.ok.alone.pushStep_progress h.ok.inv (by omega) (generate s.threads.pushed.length)
    rw [← hthreads] at hprogress
    rcases hcases with ⟨hmore, hproducer⟩ | ⟨hsame, hproducer⟩
    · have hlt := pushRank_burst_lt (s.produce generate) k
      rw [← hproducer] at hlt
      have heq : ({ s.produce generate with producer := (s.produce generate).producer } : Server Capacity) =
          s.produce generate := rfl
      rw [heq] at hlt
      omega
    · have hnext : (s.produce generate).pushRank = 12 * (k + 1) +
          RingThreads.stepsToPush Capacity (s.produce generate).threads.ring.cachedTail
            ((s.produce generate).threads.pushing ()) := by
        simp [pushRank, toPush, hproducer]
      rcases hprogress with hlength | ⟨-, hless⟩
      · rw [hsame] at hlength
        omega
      · omega
  | exited => exact absurd hp hne

theorem Left.helpful (h : Left total popped s) (hroom : total ≤ popped + Capacity.val) (hne : s.producer ≠ .exited) :
    Helpful (Server.step generate) (fun s => s.producer = .exited) pushRank (fun _ => .producer) s where
  helps := Or.inr (h.produce_closer hroom hne)
  harmless a := by
    cases a with
    | producer => exact Or.inr (Or.inl (h.produce_closer hroom hne))
    | consumer => exact Or.inr (Or.inr ⟨congrArg pushRank (consume_exited h.exited), rfl⟩)
    | commander => exact Or.inr (Or.inr ⟨congrArg pushRank (command_stopped h.running), rfl⟩)

/-! ### The result -/

theorem Ok.length_waiting (h : Ok s) :
    s.threads.pushed.length = s.threads.popped.length + s.threads.waiting.length := by
  rw [← h.inv.popped_append_waiting, List.length_append]

/-- Under every schedule that keeps the threads running, for all bursts asked for before `QUIT`: the consumer leaves its
loop, and the three joins of `main` return exactly when what waits in the ring then and what is left of the burst fit
into the ring together.  Otherwise the producer waits in `pushWireMessage` for ever. -/
theorem shutdown (generate : Nat → WireMessage) (buffer : Vector WireMessage Capacity.val) (amounts : List UInt64)
    (schedule : ℕ → ServerThread) (hfair : Fair schedule) :
    let run := trace (step generate) (start buffer amounts) schedule
    (∃ n, (run n).consumer = .exited) ∧
      ∀ n, (run n).consumer = .exited →
        ((∃ m, (run m).Joined) ↔ (run n).threads.waiting.length + (run n).toPush ≤ Capacity.val) := by
  intro run
  have hok : ∀ n, Ok (run n) := trace_invariant (fun _ a h => h.step a) (ok_start buffer amounts) schedule
  refine ⟨reaches (I := fun _ => True) (fun _ _ _ => trivial) trivial (fun _ _ hne => helpful_leave hne) hfair,
    fun n hexited => ?_⟩
  have hlength := (hok n).length_waiting
  have hleft : ∀ k, (run k).consumer = .exited → ∀ d,
      Left ((run k).threads.pushed.length + (run k).toPush) (run k).threads.popped.length (run (k + d)) := by
    intro k hk d
    have hadd : run (k + d) = trace (step generate) (run k) (fun i => schedule (k + i)) d := trace_add ..
    rw [hadd]
    exact trace_invariant (fun _ a h => h.step a) ⟨hok k, hk, rfl, rfl⟩ _ d
  constructor
  · rintro ⟨m, -, hproducer, hconsumer⟩
    -- all has been pushed by then, and the consumer pops nothing any more
    have hdone : (run m).toPush = 0 := by simp [toPush, hproducer]
    have hroom := (hok m).inv.room
    rcases Nat.le_total n m with hle | hle
    · obtain ⟨d, rfl⟩ := Nat.exists_eq_add_of_le hle
      obtain ⟨-, -, htotal, hpopped⟩ := hleft n hexited d
      omega
    · obtain ⟨d, rfl⟩ := Nat.exists_eq_add_of_le hle
      obtain ⟨-, -, htotal, hpopped⟩ := hleft m hconsumer d
      omega
  · intro hroom
    obtain ⟨total, htotal⟩ : ∃ total, (run n).threads.pushed.length + (run n).toPush = total := ⟨_, rfl⟩
    have hstart : Left total (run n).threads.popped.length (run n) := ⟨hok n, hexited, htotal, rfl⟩
    obtain ⟨m, hm⟩ := reaches (I := Left total (run n).threads.popped.length) (fun _ a h => h.step a) hstart
      (fun s h hne => h.helpful (by omega) hne) (hfair.shift n)
    rw [← trace_add] at hm
    have hend := hleft n hexited m
    exact ⟨n + m, hend.running, hm, hend.exited⟩

/-- `BURST`, which the producer takes up, and `QUIT`, at which the consumer leaves; then the threads take turns. -/
def quitInBurst : ℕ → ServerThread
  | 0 => .commander
  | 1 => .producer
  | 2 => .producer
  | 3 => .commander
  | 4 => .consumer
  | k + 5 => if k % 3 = 0 then .producer else if k % 3 = 1 then .consumer else .commander

theorem fair_quitInBurst : Fair quitInBurst := fun a n => by
  cases a with
  | producer => exact ⟨3 * n + 5, by omega, by simp [quitInBurst]⟩
  | consumer => exact ⟨3 * n + 1 + 5, by omega, by simp [quitInBurst, Nat.add_mod]⟩
  | commander => exact ⟨3 * n + 2 + 5, by omega, by simp [quitInBurst, Nat.add_mod]⟩

/-- A burst of three messages on a ring of two slots: `producer.join()` does not return. -/
theorem shutdown_hangs :
    ¬∃ m, (trace (step fun _ => .zero) (start (Vector.replicate 2 .zero) [3] :
      Server ⟨⟨2, by decide, by decide⟩, by decide⟩) quitInBurst m).Joined := by
  have hreturns := (@shutdown ⟨⟨2, by decide, by decide⟩, by decide⟩ (fun _ => .zero) (Vector.replicate 2 .zero) [3]
    quitInBurst fair_quitInBurst).2 5 (by decide)
  rw [hreturns]
  decide

end Server

end StreamServer

end FeedHandler
