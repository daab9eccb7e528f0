import FeedHandler.ParserValidator.Wire

/-!
# The capture replayer (`pcap_replayer.cpp`)

`main` reads a capture file, a list of bytes here, and looks in each packet for one wire message.  The fields of the
headers are read as they lie in memory, on a little-endian machine.
-/

namespace FeedHandler

namespace PcapReplayer

open WireParserValidator

/-- The value of the `n` bytes at offset `off`. -/
def field (bytes : List UInt8) (off n : Nat) : Nat := LittleEndian.decode ((bytes.drop off).take n)

structure PcapGlobalHeader where
  magicNumber : UInt32
  versionMajor : UInt16
  versionMinor : UInt16
  thisZone : Int32
  sigFigs : UInt32
  snapLen : UInt32
  network : UInt32
deriving DecidableEq, Repr

structure PcapPacketHeader where
  tsSec : UInt32
  tsUsec : UInt32
  inclLen : UInt32
  origLen : UInt32
deriving DecidableEq, Repr

/-- `sizeof(PcapGlobalHeader)` -/
def globalHeaderSize : Nat := 24

/-- `sizeof(PcapPacketHeader)` -/
def packetHeaderSize : Nat := 16

/-- The header in the first bytes of a file. -/
def PcapGlobalHeader.read (bytes : List UInt8) : PcapGlobalHeader where
  magicNumber := .ofNat (field bytes 0 4)
  versionMajor := .ofNat (field bytes 4 2)
  versionMinor := .ofNat (field bytes 6 2)
  thisZone := .ofBitVec (.ofNat 32 (field bytes 8 4))
  sigFigs := .ofNat (field bytes 12 4)
  snapLen := .ofNat (field bytes 16 4)
  network := .ofNat (field bytes 20 4)

def PcapPacketHeader.read (bytes : List UInt8) : PcapPacketHeader where
  tsSec := .ofNat (field bytes 0 4)
  tsUsec := .ofNat (field bytes 4 4)
  inclLen := .ofNat (field bytes 8 4)
  origLen := .ofNat (field bytes 12 4)

/-- The loop over `offset`; the argument is what lies from `offset` on. -/
def search : List UInt8 → Option WireMessage
  | [] => none
  | byte :: rest =>
    -- `offset + sizeof(AddOrderMsg) <= inclLen`
    if WireMessage.expectedSize 'A'.toUInt8 ≤ (byte :: rest).length then
      match parse (byte :: rest) with
      | some parsedMsg => some parsedMsg
      | none => search rest
    else
      none

/-- The message that a packet adds to `messagesToReplay`, if any. -/
def extract (pktData : List UInt8) : Option WireMessage :=
  -- `inclLen >= sizeof(WireMessage)`
  if 34 ≤ pktData.length then search pktData else none

/-- The loop over the packets, on what is left of the file. -/
def readPackets (file : List UInt8) : List WireMessage :=
  if _ : file.length < packetHeaderSize then
    []
  else
    let pktHeader := PcapPacketHeader.read file
    let rest := file.drop packetHeaderSize
    if rest.length < pktHeader.inclLen.toNat then
      []
    else
      (extract (rest.take pktHeader.inclLen.toNat)).toList ++ readPackets (rest.drop pktHeader.inclLen.toNat)
termination_by file.length
decreasing_by
  simp only [packetHeaderSize, List.length_drop] at *
  omega

/-- `messagesToReplay` after the capture file has been read. -/
def messagesToReplay (file : List UInt8) : List WireMessage :=
  if file.length < globalHeaderSize then
    []
  else
    let globalHeader := PcapGlobalHeader.read file
    if globalHeader.magicNumber = 0xa1b2c3d4 ∨ globalHeader.magicNumber = 0xd4c3b2a1 then
      readPackets (file.drop globalHeaderSize)
    else
      []

/-- The datagrams that the send loop makes of the messages. -/
def datagrams (messages : List WireMessage) : List (List UInt8) := messages.map (·.wireBytes)

end PcapReplayer

end FeedHandler
