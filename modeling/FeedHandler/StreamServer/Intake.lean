import FeedHandler.OrderBook.CoherentFeed
import FeedHandler.StreamServer.Ingestion
import FeedHandler.StreamServer.Producers
import FeedHandler.StreamServer.TextIngestion
import FeedHandler.Workload.Orderly

/-!
# The two senders of the stream server (`stream_server.cpp`)

The burst generator (`producerThreadFunc`) and the command thread (`commandThreadFunc`) number their messages from one
counter, `g_userSeqNo`.  For an Add the generator loads the counter, which gives the order its id, and takes the number
afterwards; the command thread may take numbers in between.

Even so, no number is given twice, no two orders of the generator share an id, and what the generator sends is coherent
(`intake_sound`).  So the book is right as long as the orders of the user have ids of their own (`intake_book`).

A run begins with the engine, or with a RESET during which the generator is polling and no message is on its way to the
book, and it ends before the next RESET.  RESET does not stop a burst: it sets the counter back under a generator that
may hold an id or a message, and what follows is not a run in this sense.
-/

namespace FeedHandler

open LimitOrderBook WireParserValidator

namespace StreamServer

/-- Where the producer thread stands. -/
inductive BurstAt where
  /-- about to swap out the pending amount -/
  | polling
  /-- at the head of the loop, with so many rounds to come -/
  | round (remaining : UInt64) (activeOrders : List UInt64)
  /-- the id of an Add is loaded, the number is not taken yet -/
  | loaded (remaining : UInt64) (activeOrders : List UInt64) (r : Round) (orderId : UInt64)
  /-- in `pushWireMessage(msg)` -/
  | pushing (remaining : UInt64) (activeOrders : List UInt64) (msg : WireMessage)

/-- What the command thread makes a message of. -/
inductive UserOrder (Depth : Nat) (TableCapacity : Pow2) where
  /-- a line of the input or of a file, for `parseUserLine` -/
  | line (line : TextLine)
  /-- `CROSS`, and the book as it is then -/
  | cross (orderBook : LimitOrderBook Depth TableCapacity) (nowNs : UInt64)

/-- The next step is taken by the producer thread, which finds the amount if it polls and draws the round if it starts
one, or by the command thread, which reads the order if it is in no call. -/
inductive IntakeStep (Depth : Nat) (TableCapacity : Pow2) where
  | producer (burst : UInt64) (r : Round)
  | command (order : UserOrder Depth TableCapacity)

def IntakeStep.thread {Depth : Nat} {TableCapacity : Pow2} : IntakeStep Depth TableCapacity → Pusher
  | .producer .. => .producerThread
  | .command _ => .commandThread

/-- `g_userSeqNo`, the two threads, and the messages whose `pushWireMessage` call has returned. -/
structure Intake where
  userSeqNo : UInt64 := 1
  producer : BurstAt := .polling
  /-- the message of the call that the command thread is in -/
  inCommand : Option WireMessage := none
  pushed : List (Pusher × WireMessage) := []

variable {Depth : Nat} {TableCapacity : Pow2} (hundredths : List Char → Int64)

/-- The message, or `none` when `parseUserLine` rejects the line. -/
def UserOrder.message (seqNo : UInt64) : UserOrder Depth TableCapacity → Option WireMessage
  | .line l => parseUserLine hundredths l.text seqNo l.nowNs
  | .cross orderBook nowNs => some (crossOrder orderBook seqNo nowNs)

namespace Intake

/-- `g_userSeqNo.fetch_add(1)` by the producer thread, and the rest of the round up to `pushWireMessage`. -/
def generate (s : Intake) (remaining : UInt64) (activeOrders : List UInt64) (r : Round) (orderId : UInt64) : Intake :=
  let (msg, activeOrders') := r.generate .burst activeOrders orderId s.userSeqNo
  { s with userSeqNo := s.userSeqNo + 1, producer := .pushing remaining activeOrders' msg }

/-- The next step of `producerThreadFunc`. -/
def produce (s : Intake) (burst : UInt64) (r : Round) : Intake :=
  match s.producer with
  | .polling => { s with producer := .round burst [] }
  | .round remaining activeOrders =>
    if remaining > 0 then
      if r.actionRoll < ActionMix.burst.cancelFrom ∨ activeOrders = [] then
        { s with producer := .loaded remaining activeOrders r s.userSeqNo }
      else
        s.generate remaining activeOrders r s.userSeqNo -- an X or E has no use for the last argument
    else
      { s with producer := .polling }
  | .loaded remaining activeOrders r orderId => s.generate remaining activeOrders r orderId
  | .pushing remaining activeOrders msg =>
    { s with producer := .round (remaining - 1) activeOrders, pushed := s.pushed ++ [(.producerThread, msg)] }

/-- The next step of `commandThreadFunc`; the number is taken before the line is parsed. -/
def command (s : Intake) (order : UserOrder Depth TableCapacity) : Intake :=
  match s.inCommand with
  | none => { s with userSeqNo := s.userSeqNo + 1, inCommand := order.message hundredths s.userSeqNo }
  | some msg => { s with inCommand := none, pushed := s.pushed ++ [(.commandThread, msg)] }

def step (s : Intake) : IntakeStep Depth TableCapacity → Intake
  | .producer burst r => s.produce burst r
  | .command order => s.command hundredths order

/-- A run without a RESET, from the start of the engine or from a RESET while both senders are idle. -/
def run (steps : List (IntakeStep Depth TableCapacity)) : Intake := steps.foldl (step hundredths) {}

/-- What a thread has pushed. -/
def sentBy (s : Intake) (i : Pusher) : List WireMessage := (s.pushed.filter (·.1 = i)).map (·.2)

end Intake

def BurstAt.message : BurstAt → Option WireMessage
  | .pushing _ _ msg => some msg
  | _ => none

def BurstAt.activeOrders : BurstAt → List UInt64
  | .polling => []
  | .round _ activeOrders | .loaded _ activeOrders _ _ | .pushing _ activeOrders _ => activeOrders

namespace Intake

/-- What the generator has made, the message of its call included. -/
def generated (s : Intake) : List WireMessage := s.sentBy .producerThread ++ s.producer.message.toList

/-- The messages that have a number. -/
def numbered (s : Intake) : List WireMessage :=
  s.pushed.map (·.2) ++ (s.producer.message.toList ++ s.inCommand.toList)

/-- The id of the next Add of the generator is not below this. -/
def nextId (s : Intake) : UInt64 :=
  match s.producer with
  | .loaded _ _ _ orderId => orderId
  | _ => s.userSeqNo

/-- All that a step of a thread can do. -/
inductive Moves (s s' : Intake) : Pusher → Prop where
  /-- nothing is numbered; the vector is kept, or dropped when the burst is over -/
  | quiet {i : Pusher} (huserSeqNo : s'.userSeqNo = s.userSeqNo) (hnumbered : s'.numbered.Perm s.numbered)
      (hgenerated : s'.generated = s.generated)
      (hactive : s'.producer.activeOrders = s.producer.activeOrders ∨ s'.producer.activeOrders = [])
      (hnextId : s'.nextId = s.nextId ∨ s'.nextId = s'.userSeqNo) : Moves s s' i
  /-- the generator takes a number -/
  | generates {m : WireMessage} (huserSeqNo : s'.userSeqNo = s.userSeqNo + 1)
      (hnumbered : s'.numbered.Perm (m :: s.numbered)) (hgenerated : s'.generated = s.generated ++ [m])
      (hmade : Made s.producer.activeOrders s.nextId m s'.producer.activeOrders) (hvalid : m.isValid = true)
      (hseqNo : m.seqNo = s.userSeqNo) (hnextId : s'.nextId = s.userSeqNo + 1) : Moves s s' .producerThread
  /-- the command thread takes a number -/
  | numbers {new : Option WireMessage} (huserSeqNo : s'.userSeqNo = s.userSeqNo + 1)
      (hnumbered : s'.numbered.Perm (new.toList ++ s.numbered)) (hseqNo : ∀ m ∈ new, m.seqNo = s.userSeqNo)
      (hproducer : s'.producer = s.producer) (hgenerated : s'.generated = s.generated)
      (hnextId : s'.nextId = s.nextId ∨ s'.nextId = s'.userSeqNo) : Moves s s' .commandThread

variable {hundredths} {s s' : Intake}

/-! ### One step -/

theorem moves_generate {remaining : UInt64} {activeOrders : List UInt64} {r : Round} {orderId : UInt64}
    (hmessage : s.producer.message = none) (hactive : s.producer.activeOrders = activeOrders)
    (hnextId : s.nextId = orderId) : Moves s (s.generate remaining activeOrders r orderId) .producerThread := by
  obtain ⟨hmade, hvalid, hseqNo⟩ := r.sends_generate .burst activeOrders orderId s.userSeqNo
  refine .generates rfl ?_ ?_ (by rwa [hactive, hnextId]) hvalid hseqNo rfl
  · rw [numbered, numbered, hmessage]
    exact List.perm_middle
  · rw [generated, generated, hmessage, Option.toList_none, List.append_nil]
    rfl

theorem moves_produce (s : Intake) (burst : UInt64) (r : Round) : Moves s (s.produce burst r) .producerThread := by
  unfold produce
  cases hproducer : s.producer with
  | polling =>
    refine .quiet rfl ?_ ?_ (Or.inr rfl) (Or.inr rfl)
    · rw [numbered, numbered, hproducer]
      exact .refl _
    · rw [generated, generated, hproducer]
      rfl
  | round remaining activeOrders =>
    dsimp only
    split_ifs
    · refine .quiet rfl ?_ ?_ (Or.inl ?_) (Or.inr rfl)
      · rw [numbered, numbered, hproducer]
        exact .refl _
      · rw [generated, generated, hproducer]
        rfl
      · rw [hproducer]
        rfl
    · exact moves_generate (by rw [hproducer]; rfl) (by rw [hproducer]; rfl) (by rw [nextId, hproducer])
    · refine .quiet rfl ?_ ?_ (Or.inr rfl) (Or.inr rfl)
      · rw [numbered, numbered, hproducer]
        exact .refl _
      · rw [generated, generated, hproducer]
        rfl
  | loaded remaining activeOrders r orderId =>
    exact moves_generate (by rw [hproducer]; rfl) (by rw [hproducer]; rfl) (by rw [nextId, hproducer])
  | pushing remaining activeOrders msg =>
    refine .quiet rfl ?_ ?_ (Or.inl ?_) (Or.inr rfl)
    · simp [numbered, hproducer, BurstAt.message]
    · simp [generated, sentBy, hproducer, BurstAt.message]
    · rw [hproducer]
      rfl

theorem seqNo_message {order : UserOrder Depth TableCapacity} {seqNo : UInt64} {m : WireMessage}
    (h : order.message hundredths seqNo = some m) : m.seqNo = seqNo := by
  cases order with
  | line l => exact seqNo_parseUserLine h
  | cross orderBook nowNs =>
    cases h
    exact congrArg AddOrderMsg.seqNo (WireMessage.add_ofAdd _)

theorem moves_command (s : Intake) (order : UserOrder Depth TableCapacity) :
    Moves s (s.command hundredths order) .commandThread := by
  unfold command
  cases hcommand : s.inCommand with
  | none =>
    have hseqNo : ∀ m ∈ order.message hundredths s.userSeqNo, m.seqNo = s.userSeqNo := fun m hm => seqNo_message hm
    refine .numbers rfl ?_ hseqNo rfl rfl ?_
    · rw [numbered, numbered, hcommand, Option.toList_none, List.append_nil, ← List.append_assoc]
      exact List.perm_append_comm
    · unfold nextId
      cases s.producer with
      | loaded => exact Or.inl rfl
      | _ => exact Or.inr rfl
  | some msg =>
    refine .quiet rfl ?_ ?_ (Or.inl rfl) (Or.inl rfl)
    · have hlast := (List.perm_append_singleton msg s.producer.message.toList).symm
      rw [numbered, numbered, hcommand]
      simpa using hlast.append_left (s.pushed.map (·.2))
    · simp [generated, sentBy]

theorem moves_step (hundredths : List Char → Int64) (s : Intake) (a : IntakeStep Depth TableCapacity) :
    Moves s (s.step hundredths a) a.thread := by
  cases a with
  | producer burst r => exact s.moves_produce burst r
  | command order => exact s.moves_command order

/-! ### Every run -/

/-- What every step keeps. -/
structure Ok (s : Intake) : Prop where
  nextId_le : s.nextId ≤ s.userSeqNo
  numbers : (s.numbered.map (·.seqNo)).Nodup
  below : ∀ m ∈ s.numbered, m.seqNo < s.userSeqNo
  coherent : Coherent 500 s.generated
  /-- this burst is coherent by itself, and the vector holds what it has added and not withdrawn -/
  keeps : ∃ earlier burst, s.generated = earlier ++ burst ∧ Coherent 500 burst ∧ Keeps burst s.producer.activeOrders
  ascending : (addedIds s.generated).Pairwise (· < ·)
  fresh : ∀ id ∈ addedIds s.generated, id < s.nextId

theorem ok_start : Ok {} where
  nextId_le := UInt64.le_refl _
  numbers := List.nodup_nil
  below m hm := by cases hm
  coherent := coherent_nil 500
  keeps := ⟨[], [], rfl, coherent_nil 500, .nil⟩
  ascending := List.Pairwise.nil
  fresh id hid := by cases hid

/-- A new number is larger than all that were given. -/
theorem Ok.numbered_new (h : Ok s) (hlt : s.userSeqNo.toNat + 1 < 2 ^ 64) (new : Option WireMessage)
    (hnumbered : s'.numbered.Perm (new.toList ++ s.numbered)) (hseqNo : ∀ m ∈ new, m.seqNo = s.userSeqNo) :
    (s'.numbered.map (·.seqNo)).Nodup ∧ ∀ m ∈ s'.numbered, m.seqNo < s.userSeqNo + 1 := by
  have hsucc : s.userSeqNo < s.userSeqNo + 1 := by
    rw [UInt64.lt_iff_toNat_lt, RingIndex.toNat_succ hlt]
    omega
  constructor
  · rw [(hnumbered.map _).nodup_iff]
    cases new with
    | none => exact h.numbers
    | some m =>
      show (m.seqNo :: s.numbered.map (·.seqNo)).Nodup
      rw [List.nodup_cons, hseqNo m rfl]
      refine ⟨fun hmem => ?_, h.numbers⟩
      obtain ⟨x, hx, he⟩ := List.mem_map.1 hmem
      have hbelow := h.below x hx
      rw [he] at hbelow
      exact UInt64.lt_irrefl _ hbelow
  · intro m hm
    rcases List.mem_append.1 (hnumbered.subset hm) with hnew | hold
    · rw [hseqNo m (Option.mem_toList.1 hnew)]
      exact hsucc
    · exact UInt64.lt_trans (h.below m hold) hsucc

/-- One more message of the generator. -/
theorem Ok.generates (h : Ok s) {m : WireMessage} {rest : List UInt64} (hvalid : m.isValid = true)
    (hmade : Made s.producer.activeOrders s.nextId m rest) :
    Coherent 500 (s.generated ++ [m]) ∧
      (∃ earlier burst, s.generated ++ [m] = earlier ++ burst ∧ Coherent 500 burst ∧ Keeps burst rest) ∧
      (addedIds (s.generated ++ [m])).Pairwise (· < ·) ∧ ∀ id ∈ addedIds (s.generated ++ [m]), id ≤ s.nextId := by
  obtain ⟨earlier, burst, hparts, hburst, hkeeps⟩ := h.keeps
  have hold : ∀ {ids}, ids ⊆ addedIds s.generated → s.nextId ∉ ids :=
    fun hsub hin => UInt64.lt_irrefl _ (h.fresh _ (hsub hin))
  have hearlier : addedIds earlier ⊆ addedIds s.generated := by
    rw [hparts, addedIds_append]
    exact List.subset_append_left ..
  have hnew : s.nextId ∉ addedIds burst := hold <| by
    rw [hparts, addedIds_append]
    exact List.subset_append_right ..
  have hfollow : MayFollow 500 burst m := hkeeps.mayFollow hnew hmade hvalid
  have hlast : ∀ id ∈ addedIds [m], id = s.nextId := fun id hid => by
    obtain ⟨hA, rfl⟩ := mem_addedIds_singleton.1 hid
    exact hmade.orderId_add hA
  refine ⟨h.coherent.append_singleton ?_, ⟨earlier, burst ++ [m], by rw [hparts, List.append_assoc],
    hburst.append_singleton hfollow, hkeeps.made (fun id hid => hburst.withdrawn_added hid) hnew hmade⟩, ?_, ?_⟩
  · rw [hparts]
    refine hfollow.after (h.coherent.of_append burst hparts) ?_ fun hA => by
      rw [hmade.orderId_add hA]
      exact hold hearlier
    -- the ids of the earlier bursts are smaller than those of this one
    have hascending := h.ascending
    rw [hparts, addedIds_append, List.pairwise_append] at hascending
    exact fun id hin hin' => UInt64.lt_irrefl _ (hascending.2.2 id hin id hin')
  · rw [addedIds_append, List.pairwise_append]
    refine ⟨h.ascending, ?_, fun id hin id' hin' => by rw [hlast id' hin']; exact h.fresh id hin⟩
    by_cases hA : m.msgType = 'A'.toUInt8 <;> simp [addedIds, hA]
  · intro id hid
    rw [addedIds_append] at hid
    rcases List.mem_append.1 hid with hin | hin
    · exact UInt64.le_of_lt (h.fresh id hin)
    · rw [hlast id hin]
      exact UInt64.le_refl _

theorem Ok.nextId_mono (h : Ok s) (hle : s.userSeqNo ≤ s'.userSeqNo)
    (hnextId : s'.nextId = s.nextId ∨ s'.nextId = s'.userSeqNo) : s.nextId ≤ s'.nextId ∧ s'.nextId ≤ s'.userSeqNo := by
  have hall := UInt64.le_trans h.nextId_le hle
  rcases hnextId with hnextId | hnextId
  · rw [hnextId]
    exact ⟨UInt64.le_refl _, hall⟩
  · rw [hnextId]
    exact ⟨hall, UInt64.le_refl _⟩

theorem Ok.step (h : Ok s) (hlt : s.userSeqNo.toNat + 1 < 2 ^ 64) {i : Pusher} (hmoves : Moves s s' i) : Ok s' := by
  have hsucc : s.userSeqNo < s.userSeqNo + 1 := by
    rw [UInt64.lt_iff_toNat_lt, RingIndex.toNat_succ hlt]
    omega
  cases hmoves with
  | quiet huserSeqNo hnumbered hgenerated hactive hnextId =>
    obtain ⟨hmono, hle⟩ := h.nextId_mono (by rw [huserSeqNo]; exact UInt64.le_refl _) hnextId
    refine ⟨hle, ?_, ?_, by rw [hgenerated]; exact h.coherent, ?_, by rw [hgenerated]; exact h.ascending, ?_⟩
    · rw [(hnumbered.map _).nodup_iff]
      exact h.numbers
    · rw [huserSeqNo]
      exact fun m hm => h.below m (hnumbered.subset hm)
    · rcases hactive with hactive | hactive
      · rw [hgenerated, hactive]
        exact h.keeps
      · rw [hactive]
        exact ⟨s'.generated, [], (List.append_nil _).symm, coherent_nil 500, .nil⟩
    · rw [hgenerated]
      exact fun id hid => UInt64.lt_of_lt_of_le (h.fresh id hid) hmono
  | generates huserSeqNo hnumbered hgenerated hmade hvalid hseqNo hnextId =>
    obtain ⟨hcoherent, hkeeps, hascending, hfresh⟩ := h.generates hvalid hmade
    obtain ⟨hnumbers, hbelow⟩ := h.numbered_new hlt (some _) hnumbered fun m hm => by
      cases hm
      exact hseqNo
    rw [← hgenerated] at hcoherent hkeeps hascending hfresh
    rw [← huserSeqNo] at hbelow
    refine ⟨by rw [hnextId, huserSeqNo]; exact UInt64.le_refl _, hnumbers, hbelow, hcoherent, hkeeps, hascending, ?_⟩
    rw [hnextId]
    exact fun id hid => UInt64.lt_of_le_of_lt (UInt64.le_trans (hfresh id hid) h.nextId_le) hsucc
  | numbers huserSeqNo hnumbered hseqNo hproducer hgenerated hnextId =>
    obtain ⟨hnumbers, hbelow⟩ := h.numbered_new hlt _ hnumbered hseqNo
    obtain ⟨hmono, hle⟩ := h.nextId_mono (by rw [huserSeqNo]; exact UInt64.le_of_lt hsucc) hnextId
    rw [← huserSeqNo] at hbelow
    refine ⟨hle, hnumbers, hbelow, ?_, ?_, ?_, ?_⟩
    · rw [hgenerated]
      exact h.coherent
    · rw [hgenerated, hproducer]
      exact h.keeps
    · rw [hgenerated]
      exact h.ascending
    · rw [hgenerated]
      exact fun id hid => UInt64.lt_of_lt_of_le (h.fresh id hid) hmono

theorem Moves.userSeqNo_le {i : Pusher} (h : Moves s s' i) (hlt : s.userSeqNo.toNat + 1 < 2 ^ 64) :
    s'.userSeqNo.toNat ≤ s.userSeqNo.toNat + 1 := by
  cases h with
  | quiet huserSeqNo =>
    rw [huserSeqNo]
    omega
  | generates huserSeqNo => rw [huserSeqNo, RingIndex.toNat_succ hlt]
  | numbers huserSeqNo => rw [huserSeqNo, RingIndex.toNat_succ hlt]

variable {steps : List (IntakeStep Depth TableCapacity)}

theorem run_append_singleton (steps : List (IntakeStep Depth TableCapacity)) (a : IntakeStep Depth TableCapacity) :
    run hundredths (steps ++ [a]) = (run hundredths steps).step hundredths a := by
  rw [run, List.foldl_append]
  rfl

theorem ok_run (hundredths : List Char → Int64) (h : steps.length + 1 < 2 ^ 64) :
    Ok (run hundredths steps) ∧ (run hundredths steps).userSeqNo.toNat ≤ steps.length + 1 := by
  induction steps using List.reverseRecOn with
  | nil => exact ⟨ok_start, le_refl _⟩
  | append_singleton steps a ih =>
    rw [List.length_append, List.length_singleton] at h ⊢
    obtain ⟨hok, hle⟩ := ih (by omega)
    have hmoves := moves_step hundredths (run hundredths steps) a
    have hnext := hmoves.userSeqNo_le (by omega)
    rw [run_append_singleton]
    exact ⟨hok.step (by omega) hmoves, by omega⟩

/-- The generator by itself sends an orderly feed. -/
theorem orderly_alone (h : steps.length + 1 < 2 ^ 64) (halone : ∀ a ∈ steps, a.thread = .producerThread) :
    Orderly 500 (run hundredths steps).generated ∧
      (run hundredths steps).userSeqNo.toNat = (run hundredths steps).generated.length + 1 := by
  induction steps using List.reverseRecOn with
  | nil => exact ⟨orderly_nil 500, rfl⟩
  | append_singleton steps a ih =>
    rw [List.length_append, List.length_singleton] at h
    rw [List.forall_mem_append] at halone
    obtain ⟨horderly, hcount⟩ := ih (by omega) halone.1
    have hlt : steps.length + 1 < 2 ^ 64 := by omega
    obtain ⟨hok, hle⟩ := ok_run hundredths hlt
    have hmoves := moves_step hundredths (run hundredths steps) a
    rw [halone.2 a (List.mem_singleton_self a)] at hmoves
    rw [run_append_singleton]
    cases hmoves with
    | quiet huserSeqNo _ hgenerated =>
      rw [hgenerated, huserSeqNo]
      exact ⟨horderly, hcount⟩
    | generates huserSeqNo _ hgenerated hmade hvalid hseqNo =>
      have hfollow := (hok.generates hvalid hmade).1.last
      rw [hgenerated, huserSeqNo, RingIndex.toNat_succ (by omega), hcount, List.length_append]
      exact ⟨orderly_append_singleton.2 ⟨horderly, hfollow.maySend (by rw [hseqNo, hcount])⟩, rfl⟩

/-- No number is given twice, the generator gives its orders rising ids, and an X or E of it is about an order that it
added and did not withdraw. -/
structure Sound (s : Intake) : Prop where
  numbers : (s.pushed.map (·.2.seqNo)).Nodup
  ids : (addedIds (s.sentBy .producerThread)).Pairwise (· < ·)
  coherent : Coherent 500 (s.sentBy .producerThread)

theorem Ok.sound (h : Ok s) : Sound s := by
  refine ⟨?_, ?_, h.coherent.of_append _ rfl⟩
  · have hnumbers := h.numbers
    rw [numbered, List.map_append, List.map_map] at hnumbers
    exact (List.nodup_append'.1 hnumbers).1
  · have hascending := h.ascending
    rw [generated, addedIds_append] at hascending
    exact (List.pairwise_append.1 hascending).1

/-- Every interleaving of the two threads in a run is sound, whatever is drawn and read, and the generator sends an
orderly feed as long as the user sends nothing. -/
theorem intake_sound (hundredths : List Char → Int64) (steps : List (IntakeStep Depth TableCapacity))
    (h : steps.length + 1 < 2 ^ 64) :
    Sound (run hundredths steps) ∧
      ((∀ a ∈ steps, a.thread = .producerThread) → Orderly 500 ((run hundredths steps).sentBy .producerThread)) :=
  ⟨(ok_run hundredths h).1.sound, fun halone => (orderly_alone h halone).1.of_append _ rfl⟩

/-- A burst of one Add, and a `CROSS` between the load of its id and its number. -/
def interleaved : List (IntakeStep 1 ⟨4, by decide, by decide⟩) :=
  let r : Round := ⟨0, .low, .low, .low, .low, .low⟩
  let cross : IntakeStep 1 ⟨4, by decide, by decide⟩ := .command (.cross (.reset 1 ⟨4, by decide, by decide⟩) 0)
  [.producer 1 r, .producer 0 r, cross, .producer 0 r, cross, .producer 0 r]

theorem intake_sound_interleaved :
    Sound (run (fun _ => 0) interleaved) ∧
      (run (fun _ => 0) interleaved).pushed.map (fun p => (p.2.orderId, p.2.seqNo)) = [(9999999, 1), (1, 2)] :=
  ⟨(intake_sound (fun _ => 0) interleaved (by decide)).1, by decide⟩

/-- What is pushed is what the two threads have sent. -/
theorem sentBy_perm (s : Intake) :
    (s.sentBy .producerThread ++ s.sentBy .commandThread).Perm (s.pushed.map (·.2)) := by
  have hcommand : s.pushed.filter (fun p => !decide (p.1 = .producerThread)) =
      s.pushed.filter (fun p => p.1 = .commandThread) := by
    refine List.filter_congr fun p _ => ?_
    cases p.1 <;> rfl
  have hperm := (List.filter_append_perm (fun p => decide (p.1 = .producerThread)) s.pushed).map (·.2)
  rw [hcommand, List.map_append] at hperm
  exact hperm

/-- The book is right, whichever of the messages of the two threads it gets and in whatever order, if the orders of the
user are valid and have ids of their own, there is room for all, and as many of the largest lot as there are Adds stay
below `2 ^ 31`. -/
theorem intake_book (hundredths : List Char → Int64) (steps : List (IntakeStep Depth TableCapacity))
    (h : steps.length + 1 < 2 ^ 64) {lot : ℕ} (hlot : 500 ≤ lot)
    (huser : Steady lot ((run hundredths steps).sentBy .commandThread))
    (hids : ∀ id ∈ addedIds ((run hundredths steps).sentBy .commandThread),
      id ∉ addedIds ((run hundredths steps).sentBy .producerThread))
    (received : List WireMessage) (hreceived : received.Subperm ((run hundredths steps).pushed.map (·.2)))
    (hDepth : 0 < Depth) (hroom : (addedIds received).length ≤ TableCapacity.val)
    (hlots : lot * (addedIds received).length < 2 ^ 31) :
    (LimitOrderBook.run Depth TableCapacity received).NoPhantomLiquidity := by
  have hsound := (ok_run hundredths h).1.sound
  have hall := hsound.coherent.steady.append huser hlot hids
  have hsteady : Steady lot received := hall.subperm (hreceived.trans (sentBy_perm _).symm.subperm)
  have halways := always_backed hDepth ((hsteady.along hroom hlots).mono fun _ _ h => h.1)
  obtain ⟨hconsistent, hbacked⟩ := Runs.always_iff_prefix.1 halways received [] (List.append_nil _).symm
  exact hbacked.noPhantomLiquidity hconsistent

/-- The book gets the two messages the other way round. -/
theorem intake_book_interleaved :
    (LimitOrderBook.run 1 ⟨4, by decide, by decide⟩
      ((run (fun _ => 0) interleaved).pushed.map (·.2)).reverse).NoPhantomLiquidity :=
  intake_book (fun _ => 0) interleaved (by decide) (le_refl 500) ⟨by decide, by decide, by decide, by decide⟩
    (fun id hid => by
      have huser : addedIds ((run (fun _ => 0) interleaved).sentBy .commandThread) = [9999999] := by decide
      obtain rfl := List.mem_singleton.1 (huser ▸ hid)
      decide)
    _ (List.reverse_perm _).subperm (by decide) (by decide) (by decide)

end Intake

end StreamServer

end FeedHandler
