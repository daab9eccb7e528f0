import FeedHandler.Foundation.Runs
import FeedHandler.StreamServer.Command

/-!
# Bursts (`stream_server.cpp`)

The command thread stores the amount of a `BURST` into `g_burstPending`, and the producer thread swaps it out when it
polls and generates that many messages before it polls again.  A store over an amount that was not swapped out yet
loses that amount (`generated_add_lost`), so all messages that were asked for are generated exactly when this never
happens (`generated_eq_requested_iff`).
-/

namespace FeedHandler

namespace StreamServer

/-- `g_running`, `g_burstPending` and the loop of the producer thread. -/
structure Generator where
  running : Bool := true
  burstPending : UInt64 := 0
  /-- rounds left in `for (uint64_t k = 0; k < burst; ++k)` -/
  remaining : UInt64 := 0
  /-- messages generated so far -/
  generated : Nat := 0
deriving DecidableEq, Repr

inductive GeneratorStep where
  /-- the command thread reads a line -/
  | command (line : List Char)
  /-- the command thread has ended, and `main` stores `false` into `g_running` -/
  | join
  /-- the producer thread polls, or generates a message -/
  | producer
deriving DecidableEq, Repr

namespace Generator

/-- What the command thread does to the burst: `BURST` stores its amount, `QUIT` stops the loops. -/
def handle (s : Generator) : Action → Generator
  | .burst amount => { s with burstPending := amount }
  | .quit => { s with running := false }
  | _ => s

def step (s : Generator) : GeneratorStep → Generator
  | .command line => if s.running then s.handle (command line) else s
  | .join => { s with running := false }
  | .producer =>
    if s.remaining > 0 then
      { s with remaining := s.remaining - 1, generated := s.generated + 1 }
    else if s.running then
      { s with burstPending := 0, remaining := s.burstPending } -- `exchange(0)`
    else
      s

def run (steps : List GeneratorStep) : Generator := steps.foldl step {}

def amountOf : Action → Option UInt64
  | .burst amount => some amount
  | _ => none

/-- The amount that a step stores into `g_burstPending`. -/
def burstAmount (s : Generator) : GeneratorStep → Option UInt64
  | .command line => if s.running then amountOf (command line) else none
  | .join => none
  | .producer => none

/-- The sum of the amounts that `BURST` commands ask for on the way. -/
def requested : Generator → List GeneratorStep → Nat
  | _, [] => 0
  | s, a :: steps => ((s.burstAmount a).elim 0 (·.toNat)) + requested (s.step a) steps

/-- The sum of the amounts that are written over on the way. -/
def lost : Generator → List GeneratorStep → Nat
  | _, [] => 0
  | s, a :: steps => (if s.burstAmount a = none then 0 else s.burstPending.toNat) + lost (s.step a) steps

/-- The messages generated, to be generated in this burst, and waited for by the next poll. -/
def total (s : Generator) : Nat := s.generated + s.remaining.toNat + s.burstPending.toNat

theorem total_handle (s : Generator) (action : Action) :
    (s.handle action).total + (if amountOf action = none then 0 else s.burstPending.toNat) =
      s.total + (amountOf action).elim 0 (·.toNat) := by
  cases action with
  | burst amount =>
    show s.generated + s.remaining.toNat + amount.toNat + s.burstPending.toNat = s.total + amount.toNat
    unfold total
    omega
  | _ => rfl

/-- One step keeps the total, except that a `BURST` puts its amount in the place of the pending one. -/
theorem total_step (s : Generator) (a : GeneratorStep) :
    (s.step a).total + (if s.burstAmount a = none then 0 else s.burstPending.toNat) =
      s.total + (s.burstAmount a).elim 0 (·.toNat) := by
  cases a with
  | command line =>
    unfold step burstAmount
    dsimp only
    by_cases hrunning : s.running = true
    · simp only [if_pos hrunning]
      exact s.total_handle (command line)
    · simp only [if_neg hrunning]
      rfl
  | join => rfl
  | producer =>
    unfold step burstAmount total
    by_cases hremaining : s.remaining > 0
    · have hpos : 0 < s.remaining.toNat := UInt64.lt_iff_toNat_lt.1 hremaining
      have hone : (1 : UInt64) ≤ s.remaining := UInt64.le_iff_toNat_le.2 hpos
      have hnext : (s.remaining - 1).toNat = s.remaining.toNat - 1 := UInt64.toNat_sub_of_le _ _ hone
      simp only [if_pos hremaining, if_true, Option.elim_none, hnext]
      omega
    · have hzero : s.remaining.toNat = 0 := by
        rw [gt_iff_lt, UInt64.lt_iff_toNat_lt] at hremaining
        exact Nat.eq_zero_of_not_pos hremaining
      have hnone : (0 : UInt64).toNat = 0 := rfl
      rw [if_neg hremaining]
      by_cases hrunning : s.running = true
      · simp only [if_pos hrunning, if_true, Option.elim_none, hnone]
        omega
      · simp only [if_neg hrunning, if_true, Option.elim_none]

/-- What is asked for is generated, waits to be, or is lost. -/
theorem total_add_lost (s : Generator) (steps : List GeneratorStep) :
    (steps.foldl step s).total + lost s steps = s.total + requested s steps := by
  induction steps generalizing s with
  | nil => rfl
  | cons a steps ih =>
    have hstep := s.total_step a
    have hrest := ih (s.step a)
    rw [List.foldl_cons]
    unfold lost requested
    omega

/-- Nothing is lost when every `BURST` finds that the last amount was swapped out. -/
theorem lost_eq_zero_iff (s : Generator) (steps : List GeneratorStep) :
    lost s steps = 0 ↔ Runs.Along step (fun s a => s.burstAmount a ≠ none → s.burstPending = 0) s steps := by
  induction steps generalizing s with
  | nil => exact iff_of_true rfl trivial
  | cons a steps ih =>
    unfold lost Runs.Along
    rw [Nat.add_eq_zero_iff, ih]
    refine and_congr_left fun _ => ?_
    by_cases hnone : s.burstAmount a = none
    · rw [if_pos hnone]
      exact iff_of_true rfl fun hsome => absurd hnone hsome
    · have hzero : s.burstPending.toNat = 0 ↔ s.burstPending = 0 := UInt64.toNat_inj (b := 0)
      rw [if_neg hnone, hzero]
      exact ⟨fun h _ => h, fun h => h hnone⟩

/-- For every interleaving of the command thread and the producer thread at whose end the producer has swapped out what
was pending and generated it: the number of messages generated is the sum of the amounts that the `BURST` commands asked
for, exactly when every `BURST` came after the producer had swapped out the amount of the one before. -/
theorem generated_eq_requested_iff (steps : List GeneratorStep) (hpolled : (run steps).burstPending = 0)
    (hdone : (run steps).remaining = 0) :
    (run steps).generated = requested {} steps ↔
      Runs.Along step (fun s a => s.burstAmount a ≠ none → s.burstPending = 0) {} steps := by
  have hsum := total_add_lost {} steps
  have hend : (steps.foldl step {}).total = (run steps).generated := by
    show (run steps).generated + (run steps).remaining.toNat + (run steps).burstPending.toNat = _
    rw [hpolled, hdone]
    rfl
  have hstart : ({} : Generator).total = 0 := rfl
  rw [hend, hstart] at hsum
  rw [← lost_eq_zero_iff]
  omega

/-- A burst of two messages, and another one after the first poll. -/
theorem generated_eq_requested_iff_two_bursts :
    (run [.command "BURST 2".toList, .producer, .command "BURST 1".toList, .producer, .producer, .producer,
        .producer]).generated =
        requested {} [.command "BURST 2".toList, .producer, .command "BURST 1".toList, .producer, .producer, .producer,
          .producer] ↔
      Runs.Along step (fun s a => s.burstAmount a ≠ none → s.burstPending = 0) {}
        [.command "BURST 2".toList, .producer, .command "BURST 1".toList, .producer, .producer, .producer,
          .producer] :=
  generated_eq_requested_iff _ (by decide) (by decide)

/-- Two bursts before the producer polls: three messages are asked for and one is generated. -/
theorem burst_overwritten :
    ¬ ∀ steps : List GeneratorStep, (run steps).burstPending = 0 → (run steps).remaining = 0 →
      (run steps).generated = requested {} steps := by
  intro h
  have heq := h [.command "BURST 2".toList, .command "BURST 1".toList, .producer, .producer] (by decide) (by decide)
  revert heq
  decide

end Generator

end StreamServer

end FeedHandler
