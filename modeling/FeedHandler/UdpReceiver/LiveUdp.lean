import FeedHandler.Foundation.Runs
import FeedHandler.ParserValidator.Basic

/-!
# Live UDP mode (`udp_receiver.hpp` and `runLiveUDP` of `main.cpp`)

`receive` writes the bytes of a datagram over the first bytes of `packet`, which the loop of `runLiveUDP` declares
once and never clears.  The loop pushes `packet` whenever a datagram came; it does not validate it.  So what it pushes
are the messages that the parser accepts exactly when the parser accepts every datagram and no byte behind a message
is left over (`receiveLoop_eq_parsed_iff`).
-/

namespace FeedHandler

open WireParserValidator

namespace LiveUdp

/-- What `::recv` does. -/
inductive Recv where
  | datagram (bytes : List UInt8)
  | wouldBlock
  | error
deriving DecidableEq, Repr

/-- Receives a single packet non-blockingly: the number of bytes received, `0` if no packet is waiting, or `-1`, and
the output buffer. -/
def receive (msg : WireMessage) : Recv → Int × WireMessage
  | .datagram bytes => (min bytes.length 34, msg.memcpy bytes)
  | .wouldBlock => (0, msg)
  | .error => (-1, msg)

/-- The receive loop of `runLiveUDP`: the packets that it pushes.  The loop around `tryPush` ends with one push. -/
def receiveLoop (packet : WireMessage) : List Recv → List WireMessage
  | [] => []
  | r :: rs =>
    let (bytes, packet) := receive packet r
    if bytes > 0 then
      packet :: receiveLoop packet rs
    else
      receiveLoop packet rs

/-- The packets that `runLiveUDP` pushes into the ring buffer. -/
def runLiveUDP (rs : List Recv) : List WireMessage := receiveLoop .zero rs

/-- The messages that the parser finds in the datagrams it accepts. -/
def parsed (rs : List Recv) : List WireMessage :=
  rs.filterMap fun
    | .datagram bytes => parse bytes
    | _ => none

/-- The buffer of the next iteration. -/
def nextPacket (packet : WireMessage) (r : Recv) : WireMessage := (receive packet r).2

/-! ### One datagram -/

theorem receiveLoop_cons (packet : WireMessage) (r : Recv) (rs : List Recv) :
    receiveLoop packet (r :: rs) =
      if (receive packet r).1 > 0 then
        nextPacket packet r :: receiveLoop (nextPacket packet r) rs
      else
        receiveLoop (nextPacket packet r) rs := rfl

theorem receiveLoop_datagram (packet : WireMessage) {bytes : List UInt8} (h : bytes ≠ []) (rs : List Recv) :
    receiveLoop packet (.datagram bytes :: rs) = packet.memcpy bytes :: receiveLoop (packet.memcpy bytes) rs := by
  have hpos : 0 < bytes.length := List.length_pos_of_ne_nil h
  have hreceived : (receive packet (.datagram bytes)).1 > 0 := by
    show (min bytes.length 34 : Int) > 0
    omega
  rw [receiveLoop_cons, if_pos hreceived]
  rfl

/-- No datagram, or an empty one: nothing is pushed, and the parser finds nothing. -/
theorem receiveLoop_none (packet : WireMessage) {r : Recv} (h : ∀ bytes, r = .datagram bytes → bytes = [])
    (rs : List Recv) :
    receiveLoop packet (r :: rs) = receiveLoop (nextPacket packet r) rs ∧ parsed (r :: rs) = parsed rs := by
  cases r with
  | wouldBlock => exact ⟨receiveLoop_cons .., List.filterMap_cons_none rfl⟩
  | error => exact ⟨receiveLoop_cons .., List.filterMap_cons_none rfl⟩
  | datagram bytes =>
    obtain rfl := h bytes rfl
    exact ⟨receiveLoop_cons .., List.filterMap_cons_none parse_nil⟩

/-- Either there is no datagram with any bytes, or there is one. -/
theorem Recv.cases_bytes (r : Recv) :
    (∀ bytes, r = .datagram bytes → bytes = []) ∨ ∃ bytes, r = .datagram bytes ∧ bytes ≠ [] := by
  by_cases h : ∃ bytes, r = .datagram bytes ∧ bytes ≠ []
  · exact Or.inr h
  · push Not at h
    exact Or.inl h

/-- The parser accepts the datagram, and `f` does not tell the packet from the message parsed. -/
def Agrees {α : Type*} (f : WireMessage → α) (packet : WireMessage) (r : Recv) : Prop :=
  ∀ bytes, r = .datagram bytes → bytes ≠ [] → ∃ m, parse bytes = some m ∧ f (packet.memcpy bytes) = f m

theorem length_parsed_le (packet : WireMessage) (rs : List Recv) :
    (parsed rs).length ≤ (receiveLoop packet rs).length := by
  induction rs generalizing packet with
  | nil => exact Nat.le_refl 0
  | cons r rs ih =>
    rcases r.cases_bytes with hnone | ⟨bytes, rfl, hne⟩
    · obtain ⟨hloop, hparsed⟩ := receiveLoop_none packet hnone rs
      rw [hloop, hparsed]
      exact ih _
    · have hrest := ih (packet.memcpy bytes)
      rw [receiveLoop_datagram packet hne, List.length_cons]
      cases hparse : parse bytes with
      | none =>
        rw [show parsed (.datagram bytes :: rs) = parsed rs from List.filterMap_cons_none hparse]
        omega
      | some m =>
        rw [show parsed (.datagram bytes :: rs) = m :: parsed rs from List.filterMap_cons_some hparse,
          List.length_cons]
        omega

/-- What the loop pushes and what the parser accepts are the same to `f` exactly when they are for every datagram. -/
theorem map_receiveLoop_eq_iff {α : Type*} (f : WireMessage → α) (packet : WireMessage) (rs : List Recv) :
    (receiveLoop packet rs).map f = (parsed rs).map f ↔ Runs.Along nextPacket (Agrees f) packet rs := by
  induction rs generalizing packet with
  | nil => exact iff_of_true rfl trivial
  | cons r rs ih =>
    rcases r.cases_bytes with hnone | ⟨bytes, rfl, hne⟩
    · obtain ⟨hloop, hparsed⟩ := receiveLoop_none packet hnone rs
      have hagrees : Agrees f packet r := fun bytes hr hne => absurd (hnone bytes hr) hne
      rw [hloop, hparsed, ih]
      exact (and_iff_right hagrees).symm
    · rw [receiveLoop_datagram packet hne]
      cases hparse : parse bytes with
      | none =>
        -- the loop pushes a packet that the parser drops
        have hparsed : parsed (.datagram bytes :: rs) = parsed rs := List.filterMap_cons_none hparse
        refine iff_of_false (fun h => ?_) fun h => ?_
        · have hlen := congrArg List.length h
          have hle := length_parsed_le (packet.memcpy bytes) rs
          rw [hparsed, List.length_map, List.length_map, List.length_cons] at hlen
          omega
        · obtain ⟨m, hm, -⟩ := h.1 bytes rfl hne
          rw [hparse] at hm
          cases hm
      | some m =>
        have hparsed : parsed (.datagram bytes :: rs) = m :: parsed rs := List.filterMap_cons_some hparse
        have hagrees : Agrees f packet (.datagram bytes) ↔ f (packet.memcpy bytes) = f m := by
          constructor
          · intro h
            obtain ⟨m', hm', hf⟩ := h bytes rfl hne
            rw [hparse] at hm'
            rw [hf, Option.some.inj hm']
          · rintro hf _ ⟨⟩ -
            exact ⟨m, hparse, hf⟩
        rw [hparsed, List.map_cons, List.map_cons, List.cons.injEq, ih, ← hagrees]
        rfl

/-! ### Leftovers -/

/-- The parser accepts the datagram (if there is one), and the buffer is zero behind the message in it. -/
def Clean (packet : WireMessage) : Recv → Prop
  | .datagram (msgType :: rest) =>
    (parse (msgType :: rest)).isSome = true ∧
      ∀ i, (h : i < 34) → WireMessage.expectedSize msgType ≤ i → (msgType :: rest).getD i packet.bytes[i] = 0
  | _ => True

/-- A packet received over old bytes is the message parsed from it when no byte is left over behind. -/
theorem memcpy_eq_iff (packet : WireMessage) {bytes : List UInt8} {n : Nat} (hn : n ≤ bytes.length) :
    packet.memcpy bytes = WireMessage.zero.memcpy (bytes.take n) ↔
      ∀ i, (h : i < 34) → n ≤ i → bytes.getD i packet.bytes[i] = 0 := by
  have hbyte : ∀ i, (h : i < 34) → (WireMessage.zero.memcpy (bytes.take n)).bytes[i] =
      if i < n then (packet.memcpy bytes).bytes[i] else 0 := by
    intro i h
    rw [WireMessage.getElem_memcpy, WireMessage.getElem_memcpy]
    simp only [List.getD_eq_getElem?_getD, List.getElem?_take]
    split
    · rw [List.getElem?_eq_getElem (by omega)]
      rfl
    · simp [WireMessage.zero]
  constructor
  · intro heq i h hle
    have hi := hbyte i h
    rw [← heq, if_neg (by omega), WireMessage.getElem_memcpy] at hi
    exact hi
  · intro hzero
    refine congrArg WireMessage.mk (Vector.ext fun i h => ?_)
    show (packet.memcpy bytes).bytes[i] = (WireMessage.zero.memcpy (bytes.take n)).bytes[i]
    rw [hbyte i h]
    split
    · rfl
    · rw [WireMessage.getElem_memcpy]
      exact hzero i h (by omega)

theorem agrees_id_iff (packet : WireMessage) (r : Recv) : Agrees id packet r ↔ Clean packet r := by
  match r with
  | .wouldBlock => exact iff_of_true (fun _ h => nomatch h) trivial
  | .error => exact iff_of_true (fun _ h => nomatch h) trivial
  | .datagram [] => exact iff_of_true (fun _ h hne => absurd (Recv.datagram.inj h).symm hne) trivial
  | .datagram (msgType :: rest) =>
    unfold Agrees Clean
    constructor
    · intro h
      obtain ⟨m, hm, hf⟩ := h _ rfl (List.cons_ne_nil _ _)
      obtain ⟨-, hlen, -, hmem⟩ := (parse_cons msgType rest m).1 hm
      exact ⟨by rw [hm]; rfl, (memcpy_eq_iff packet hlen).1 (hf.trans hmem)⟩
    · rintro ⟨hsome, hzero⟩ _ ⟨⟩ -
      obtain ⟨m, hm⟩ := Option.isSome_iff_exists.1 hsome
      obtain ⟨-, hlen, -, hmem⟩ := (parse_cons msgType rest m).1 hm
      exact ⟨m, hm, ((memcpy_eq_iff packet hlen).2 hzero).trans hmem.symm⟩

/-- The packets pushed are the messages parsed exactly when every datagram is accepted and nothing is left over behind
its message. -/
theorem receiveLoop_eq_parsed_iff (rs : List Recv) :
    runLiveUDP rs = parsed rs ↔ Runs.Along nextPacket Clean .zero rs := by
  have hmap := map_receiveLoop_eq_iff id .zero rs
  rw [List.map_id, List.map_id] at hmap
  have hcongr : Runs.Along nextPacket (Agrees id) .zero rs ↔ Runs.Along nextPacket Clean .zero rs :=
    Runs.along_congr (I := fun _ => True) (fun _ _ _ _ => trivial) (fun packet r _ => agrees_id_iff packet r) trivial rs
  exact hmap.trans hcongr

/-- One byte that says `A` is pushed as an order with price and quantity 0. -/
theorem truncated_pushed : ¬ ∀ rs, runLiveUDP rs = parsed rs := by
  intro h
  have hone := h [.datagram ['A'.toUInt8]]
  revert hone
  decide

/-- The bytes of a message that belong to its type. -/
def ownBytes (m : WireMessage) : List UInt8 := m.bytes.toList.take (WireMessage.expectedSize m.msgType)

theorem ownBytes_memcpy (packet : WireMessage) {msgType : UInt8} {rest : List UInt8} {m : WireMessage}
    (h : parse (msgType :: rest) = some m) : ownBytes (packet.memcpy (msgType :: rest)) = ownBytes m := by
  obtain ⟨hknown, hlen, -, rfl⟩ := (parse_cons msgType rest m).1 h
  have hle := WireMessage.expectedSize_le msgType
  have hlen' : WireMessage.expectedSize msgType ≤
      ((msgType :: rest).take (WireMessage.expectedSize msgType)).length := by
    rw [List.length_take]
    omega
  have htype : (packet.memcpy (msgType :: rest)).msgType = msgType := by
    unfold WireMessage.msgType
    rw [WireMessage.getElem_memcpy]
    rfl
  have htype' : (WireMessage.zero.memcpy ((msgType :: rest).take (WireMessage.expectedSize msgType))).msgType =
      msgType := by
    obtain ⟨n, hn⟩ := Nat.exists_eq_succ_of_ne_zero hknown
    unfold WireMessage.msgType
    rw [WireMessage.getElem_memcpy, hn]
    rfl
  unfold ownBytes
  rw [htype, htype', WireMessage.take_memcpy _ hle hlen, WireMessage.take_memcpy _ hle hlen', List.take_take,
    Nat.min_self]

/-- Apart from what is left over behind the messages, the packets pushed are the messages parsed exactly when every
datagram is accepted. -/
theorem ownBytes_receiveLoop_eq_iff (rs : List Recv) :
    (runLiveUDP rs).map ownBytes = (parsed rs).map ownBytes ↔
      ∀ r ∈ rs, ∀ bytes, r = .datagram bytes → bytes ≠ [] → (parse bytes).isSome = true := by
  have hagrees : ∀ packet r, Agrees ownBytes packet r ↔
      ∀ bytes, r = .datagram bytes → bytes ≠ [] → (parse bytes).isSome = true := by
    intro packet r
    refine forall_congr' fun bytes => imp_congr_right fun _ => imp_congr_right fun hne => ?_
    obtain ⟨msgType, rest, rfl⟩ := List.exists_cons_of_ne_nil hne
    constructor
    · rintro ⟨m, hm, -⟩
      rw [hm]
      rfl
    · intro hsome
      obtain ⟨m, hm⟩ := Option.isSome_iff_exists.1 hsome
      exact ⟨m, hm, ownBytes_memcpy packet hm⟩
  have hmap := map_receiveLoop_eq_iff ownBytes .zero rs
  rw [Runs.along_congr (I := fun _ => True) (fun _ _ _ _ => trivial) (fun packet r _ => hagrees packet r) trivial,
    Runs.along_iff_forall] at hmap
  exact hmap

end LiveUdp

end FeedHandler
