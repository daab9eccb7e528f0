import FeedHandler.PcapReplayer.Extraction

/-!
# Captures of the other byte order

A capture may be written in either byte order, and the reader accepts both magic numbers; but it reads the fields of the
headers in its own order whatever the magic number is.  So in a capture of the other order every packet length is read
with its bytes swapped, and the first length that this changes ends the agreement (`byte_order_iff`).
-/

namespace FeedHandler

namespace PcapReplayer

/-! ### Well-formed captures -/

/-- A packet as it was captured: the header says how many bytes follow. -/
structure Packet where
  header : PcapPacketHeader
  data : List UInt8
  inclLen_eq : header.inclLen.toNat = data.length

/-- A capture file with the magic number of the format. -/
structure Capture where
  header : PcapGlobalHeader
  packets : List Packet
  magicNumber_eq : header.magicNumber = 0xa1b2c3d4

/-- A field of `n` bytes, least significant byte first, or last when the order is swapped. -/
def fieldBytes (swapped : Bool) (n value : Nat) : List UInt8 :=
  if swapped then (LittleEndian.encode n value).reverse else LittleEndian.encode n value

def PcapGlobalHeader.bytes (swapped : Bool) (h : PcapGlobalHeader) : List UInt8 :=
  fieldBytes swapped 4 h.magicNumber.toNat ++ fieldBytes swapped 2 h.versionMajor.toNat ++
    fieldBytes swapped 2 h.versionMinor.toNat ++ fieldBytes swapped 4 h.thisZone.toBitVec.toNat ++
    fieldBytes swapped 4 h.sigFigs.toNat ++ fieldBytes swapped 4 h.snapLen.toNat ++ fieldBytes swapped 4 h.network.toNat

def PcapPacketHeader.bytes (swapped : Bool) (h : PcapPacketHeader) : List UInt8 :=
  fieldBytes swapped 4 h.tsSec.toNat ++ fieldBytes swapped 4 h.tsUsec.toNat ++ fieldBytes swapped 4 h.inclLen.toNat ++
    fieldBytes swapped 4 h.origLen.toNat

def Packet.bytes (swapped : Bool) (p : Packet) : List UInt8 := p.header.bytes swapped ++ p.data

/-- The packets of a file, one behind the other. -/
def packetBytes (swapped : Bool) (packets : List Packet) : List UInt8 := packets.flatMap (·.bytes swapped)

/-- The capture file. -/
def Capture.bytes (swapped : Bool) (c : Capture) : List UInt8 := c.header.bytes swapped ++ packetBytes swapped c.packets

/-- `__builtin_bswap32(v)` -/
def swapBytes (v : UInt32) : UInt32 := .ofNat (LittleEndian.decode (fieldBytes true 4 v.toNat))

/-! ### Reading the headers -/

@[simp] theorem length_fieldBytes (swapped : Bool) (n value : Nat) : (fieldBytes swapped n value).length = n := by
  cases swapped <;> simp [fieldBytes]

theorem length_globalHeader (swapped : Bool) (h : PcapGlobalHeader) : (h.bytes swapped).length = globalHeaderSize := by
  simp [PcapGlobalHeader.bytes, globalHeaderSize]

theorem length_packetHeader (swapped : Bool) (h : PcapPacketHeader) : (h.bytes swapped).length = packetHeaderSize := by
  simp [PcapPacketHeader.bytes, packetHeaderSize]

/-- A field that starts where the bytes before it end. -/
theorem field_append {before bytes after : List UInt8} {off n : Nat} (hoff : before.length = off)
    (hn : bytes.length = n) : field (before ++ bytes ++ after) off n = LittleEndian.decode bytes := by
  rw [field, List.append_assoc, List.drop_left' hoff, List.take_left' hn]

/-- A length is read as it was written, or with its bytes swapped. -/
theorem inclLen_read (swapped : Bool) (h : PcapPacketHeader) (rest : List UInt8) :
    (PcapPacketHeader.read (h.bytes swapped ++ rest)).inclLen = if swapped then swapBytes h.inclLen else h.inclLen := by
  have hfield : field (h.bytes swapped ++ rest) 8 4 = LittleEndian.decode (fieldBytes swapped 4 h.inclLen.toNat) := by
    have hsplit : h.bytes swapped ++ rest =
        (fieldBytes swapped 4 h.tsSec.toNat ++ fieldBytes swapped 4 h.tsUsec.toNat) ++
          fieldBytes swapped 4 h.inclLen.toNat ++ (fieldBytes swapped 4 h.origLen.toNat ++ rest) := by
      simp [PcapPacketHeader.bytes]
    rw [hsplit, field_append (by simp) (by simp)]
  show UInt32.ofNat (field (h.bytes swapped ++ rest) 8 4) = _
  rw [hfield]
  cases swapped with
  | true => rfl
  | false =>
    have hlt : h.inclLen.toNat < 256 ^ 4 := h.inclLen.toNat_lt
    show UInt32.ofNat (LittleEndian.decode (LittleEndian.encode 4 h.inclLen.toNat)) = h.inclLen
    rw [LittleEndian.decode_encode, Nat.mod_eq_of_lt hlt, UInt32.ofNat_toNat]

/-- Both magic numbers are accepted, and the packets behind the header are read. -/
theorem messagesToReplay_bytes (swapped : Bool) (c : Capture) :
    messagesToReplay (c.bytes swapped) = readPackets (packetBytes swapped c.packets) := by
  have hmagic : (PcapGlobalHeader.read (c.bytes swapped)).magicNumber = if swapped then 0xd4c3b2a1 else 0xa1b2c3d4 := by
    have hfield : field (c.bytes swapped) 0 4 =
        LittleEndian.decode (fieldBytes swapped 4 c.header.magicNumber.toNat) := by
      unfold Capture.bytes PcapGlobalHeader.bytes
      simp only [List.append_assoc]
      exact field_append (n := 4) List.length_nil (length_fieldBytes ..)
    show UInt32.ofNat (field (c.bytes swapped) 0 4) = _
    rw [hfield, c.magicNumber_eq]
    cases swapped <;> decide
  have hlength := length_globalHeader swapped c.header
  unfold messagesToReplay
  rw [if_neg (by rw [Capture.bytes, List.length_append]; omega), if_pos]
  · rw [Capture.bytes, List.drop_left' hlength]
  · rw [hmagic]
    cases swapped
    · exact Or.inl rfl
    · exact Or.inr rfl

/-! ### Reading the packets -/

/-- A packet whose length is read as it was written. -/
theorem readPackets_packet {swapped : Bool} {p : Packet}
    (h : (if swapped then swapBytes p.header.inclLen else p.header.inclLen) = p.header.inclLen) (rest : List UInt8) :
    readPackets (p.bytes swapped ++ rest) = (extract p.data).toList ++ readPackets rest := by
  have hlength := length_packetHeader swapped p.header
  have hincl := inclLen_read swapped p.header (p.data ++ rest)
  rw [h] at hincl
  rw [Packet.bytes, List.append_assoc, readPackets, dif_neg (by rw [List.length_append]; omega)]
  dsimp only
  rw [hincl, List.drop_left' hlength, p.inclLen_eq, if_neg (by rw [List.length_append]; omega), List.take_left,
    List.drop_left]

/-- A packet whose length is read as more than there is left. -/
theorem readPackets_misread {p : Packet} {rest : List UInt8}
    (h : (p.data ++ rest).length < (swapBytes p.header.inclLen).toNat) : readPackets (p.bytes true ++ rest) = [] := by
  have hlength := length_packetHeader true p.header
  have hincl := inclLen_read true p.header (p.data ++ rest)
  rw [if_pos rfl] at hincl
  rw [Packet.bytes, List.append_assoc, readPackets, dif_neg (by rw [List.length_append]; omega)]
  dsimp only
  rw [hincl, List.drop_left' hlength, if_pos h]

/-- The messages in the packets. -/
def found (packets : List Packet) : List WireMessage := packets.flatMap fun p => (extract p.data).toList

theorem found_eq_nil_iff (packets : List Packet) : found packets = [] ↔ ∀ p ∈ packets, extract p.data = none := by
  simp [found]

/-- In its own byte order a capture is read packet by packet. -/
theorem readPackets_inOrder (packets : List Packet) : readPackets (packetBytes false packets) = found packets := by
  induction packets with
  | nil =>
    rw [readPackets]
    rfl
  | cons p packets ih =>
    show readPackets (p.bytes false ++ packetBytes false packets) = _
    rw [readPackets_packet (by simp), ih]
    rfl

/-- Up to the first packet whose length changes with the byte order; and from there on the length read is more than what
is left of the file, and no packet has a message. -/
def Steady : List Packet → Prop
  | [] => True
  | p :: packets =>
    if swapBytes p.header.inclLen = p.header.inclLen then
      Steady packets
    else
      (p.data ++ packetBytes true packets).length < (swapBytes p.header.inclLen).toNat ∧
        ∀ q ∈ p :: packets, extract q.data = none

/-- The first length that changes with the byte order is read as no more than what is left of the file, so that the
reader goes on in the middle of a packet. -/
def Realigned : List Packet → Prop
  | [] => False
  | p :: packets =>
    if swapBytes p.header.inclLen = p.header.inclLen then
      Realigned packets
    else
      (swapBytes p.header.inclLen).toNat ≤ (p.data ++ packetBytes true packets).length

theorem Steady.not_realigned {packets : List Packet} (h : Steady packets) : ¬Realigned packets := by
  induction packets with
  | nil => exact id
  | cons p packets ih =>
    unfold Steady at h
    unfold Realigned
    split
    · rename_i hsame
      rw [if_pos hsame] at h
      exact ih h
    · rename_i hsame
      rw [if_neg hsame] at h
      exact not_le.2 h.1

theorem readPackets_swapped_iff {packets : List Packet} (h : ¬Realigned packets) :
    readPackets (packetBytes true packets) = found packets ↔ Steady packets := by
  induction packets with
  | nil =>
    refine iff_of_true ?_ trivial
    rw [readPackets]
    rfl
  | cons p packets ih =>
    show readPackets (p.bytes true ++ packetBytes true packets) = (extract p.data).toList ++ found packets ↔ _
    unfold Realigned at h
    unfold Steady
    by_cases hsame : swapBytes p.header.inclLen = p.header.inclLen
    · -- this packet is read as in the other file, so its message counts on both sides
      rw [if_pos hsame] at h ⊢
      rw [readPackets_packet (by rw [if_pos rfl, hsame]), List.append_cancel_left_eq]
      exact ih h
    · -- the reader stops here, so there must be nothing left to find
      rw [if_neg hsame, not_le] at h
      rw [if_neg hsame, readPackets_misread h]
      have hnone := found_eq_nil_iff (p :: packets)
      rw [← hnone]
      exact ⟨fun hnil => ⟨h, hnil.symm⟩, fun hnil => hnil.2.symm⟩

/-- A capture and its copy in the other byte order give the same messages when no packet length changes with the order,
up to packets without messages at the end of the file; and only then, unless a changed length stays within the file. -/
theorem byte_order_iff (c : Capture) :
    (Steady c.packets → messagesToReplay (c.bytes true) = messagesToReplay (c.bytes false)) ∧
    (¬Realigned c.packets →
      (messagesToReplay (c.bytes true) = messagesToReplay (c.bytes false) ↔ Steady c.packets)) := by
  rw [messagesToReplay_bytes, messagesToReplay_bytes, readPackets_inOrder]
  exact ⟨fun h => (readPackets_swapped_iff h.not_realigned).2 h, readPackets_swapped_iff⟩

/-- The bytes of an Add. -/
def addBytes : List UInt8 := (WireMessage.ofAdd ⟨'A'.toUInt8, 1, 0, 7, 'B'.toUInt8, 100, 5⟩).wireBytes

/-- An Add in a packet of `0x10100` bytes, a length that is the same in either order, and five zeros behind it. -/
def longAdd : Capture where
  header := ⟨0xa1b2c3d4, 2, 4, 0, 0, 65535, 1⟩
  packets := [⟨⟨0, 0, 65792, 65792⟩, addBytes ++ List.replicate 65758 0, by
      rw [List.length_append, List.length_replicate]
      rfl⟩,
    ⟨⟨0, 0, 5, 5⟩, List.replicate 5 0, by decide⟩]
  magicNumber_eq := rfl

/-- The Add is found in both files; the zeros are no loss in either. -/
theorem byte_order_long :
    messagesToReplay (longAdd.bytes true) = messagesToReplay (longAdd.bytes false) ∧
      (messagesToReplay (longAdd.bytes true)).map (·.wireBytes) = [addBytes] := by
  have hsteady : Steady longAdd.packets := by
    unfold longAdd
    rw [Steady, if_pos (by decide), Steady, if_neg (by decide)]
    decide
  have hsame := (byte_order_iff longAdd).1 hsteady
  have hlen : 34 ≤ (addBytes ++ List.replicate 65758 0).length := by
    rw [List.length_append, List.length_replicate]
    omega
  obtain ⟨m, hm, hbytes⟩ : ∃ m, extract (addBytes ++ List.replicate 65758 0) = some m ∧ m.wireBytes = addBytes :=
    extract_wireBytes (by decide) hlen
  have hfound : found longAdd.packets = [m] := by
    have hzeros : extract (List.replicate 5 0) = none := by decide
    unfold found longAdd
    rw [List.flatMap_cons, List.flatMap_cons, hm, hzeros]
    rfl
  refine ⟨hsame, ?_⟩
  rw [hsame, messagesToReplay_bytes, readPackets_inOrder, hfound, List.map_singleton, hbytes]

/-- A capture of one packet with the bytes of an Add. -/
def oneAdd : Capture where
  header := ⟨0xa1b2c3d4, 2, 4, 0, 0, 65535, 1⟩
  packets := [⟨⟨0, 0, 34, 34⟩, (WireMessage.ofAdd ⟨'A'.toUInt8, 1, 0, 7, 'B'.toUInt8, 100, 5⟩).wireBytes, by decide⟩]
  magicNumber_eq := rfl

/-- A packet of 34 bytes is read as one of 570425344 bytes. -/
theorem byte_order_one_packet :
    ¬ ∀ c : Capture, messagesToReplay (c.bytes true) = messagesToReplay (c.bytes false) := by
  intro h
  have hone := h oneAdd
  rw [messagesToReplay_bytes, messagesToReplay_bytes, readPackets_inOrder] at hone
  have hmisread : readPackets (packetBytes true oneAdd.packets) = [] := readPackets_misread (by decide)
  rw [hmisread] at hone
  revert hone
  decide

end PcapReplayer

end FeedHandler
