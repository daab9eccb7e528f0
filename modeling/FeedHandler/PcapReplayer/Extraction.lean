import FeedHandler.PcapReplayer.Basic

/-!
# What the extraction loop finds

The bound of the loop, and the size below which a packet is passed over, are those of an Add.  A message at the end of a
packet is therefore found when it is an Add, and never when it is a Cancel or an Execution, which are shorter
(`extract_iff`).  What is found is valid, and is sent in a form that the parser accepts (`parse_datagram`).
-/

namespace FeedHandler

namespace PcapReplayer

open WireParserValidator WireMessage

/-- The loop stops where less than an Add is left. -/
theorem search_of_short {pktData : List UInt8} (h : pktData.length < 34) : search pktData = none := by
  cases pktData with
  | nil => rfl
  | cons byte rest => rw [search, expectedSize_add, if_neg (by omega)]

/-- Offsets at which nothing is accepted are passed over. -/
theorem search_append {header payload : List UInt8}
    (h : ∀ k < header.length, parse ((header ++ payload).drop k) = none) :
    search (header ++ payload) = search payload := by
  induction header with
  | nil => rfl
  | cons byte header ih =>
    have hrest := ih fun k hk => h (k + 1) (by simpa using hk)
    have hfirst : parse (byte :: (header ++ payload)) = none := h 0 (by simp)
    rw [List.cons_append, search, hfirst, expectedSize_add]
    split
    · exact hrest
    · -- the loop ends before the message, which is then too short to be looked for
      rename_i hshort
      rw [List.length_cons, List.length_append] at hshort
      rw [search_of_short (by omega)]

/-- A valid message is parsed from its bytes, whatever follows them. -/
theorem parse_wireBytes {m : WireMessage} (h : m.isValid = true) (rest : List UInt8) :
    ∃ parsed, parse (m.wireBytes ++ rest) = some parsed ∧ parsed.wireBytes = m.wireBytes := by
  obtain ⟨parsed, hparsed, -, hbytes⟩ := validateAndParse_wireBytes h rest .zero
  exact ⟨parsed, by rw [parse, hparsed]; rfl, hbytes⟩

/-- A valid message at the start of enough bytes is found. -/
theorem search_wireBytes {m : WireMessage} (h : m.isValid = true) {rest : List UInt8}
    (hlen : 34 ≤ (m.wireBytes ++ rest).length) :
    ∃ found, search (m.wireBytes ++ rest) = some found ∧ found.wireBytes = m.wireBytes := by
  obtain ⟨parsed, hparsed, hbytes⟩ := parse_wireBytes h rest
  obtain ⟨more, hmore⟩ := exists_wireBytes_eq (expectedSize_of_isValid h)
  refine ⟨parsed, ?_, hbytes⟩
  rw [hmore, List.cons_append] at hparsed hlen ⊢
  rw [search, expectedSize_add, if_pos hlen, hparsed]

theorem extract_wireBytes {m : WireMessage} (h : m.isValid = true) {rest : List UInt8}
    (hlen : 34 ≤ (m.wireBytes ++ rest).length) :
    ∃ found, extract (m.wireBytes ++ rest) = some found ∧ found.wireBytes = m.wireBytes := by
  unfold extract
  rw [if_pos hlen]
  exact search_wireBytes h hlen

/-! ### What is replayed -/

theorem isValid_of_search {pktData : List UInt8} {m : WireMessage} (h : search pktData = some m) :
    m.isValid = true := by
  induction pktData with
  | nil => cases h
  | cons byte rest ih =>
    rw [search] at h
    split at h
    · split at h
      · rename_i parsedMsg hparsed
        rw [← Option.some.inj h]
        exact isValid_of_parse hparsed
      · exact ih h
    · cases h

theorem isValid_of_extract {pktData : List UInt8} {m : WireMessage} (h : extract pktData = some m) :
    m.isValid = true := by
  unfold extract at h
  split at h
  · exact isValid_of_search h
  · cases h

theorem isValid_of_mem_readPackets {file : List UInt8} {m : WireMessage} (h : m ∈ readPackets file) :
    m.isValid = true := by
  fun_induction readPackets file with
  | case1 => cases h
  | case2 => cases h
  | case3 file _ pktHeader rest _ ih =>
    rw [List.mem_append, Option.mem_toList] at h
    rcases h with hfirst | hlater
    · exact isValid_of_extract hfirst
    · exact ih hlater

theorem isValid_of_mem_messagesToReplay {file : List UInt8} {m : WireMessage} (h : m ∈ messagesToReplay file) :
    m.isValid = true := by
  unfold messagesToReplay at h
  dsimp only at h
  split_ifs at h
  · cases h
  · exact isValid_of_mem_readPackets h
  · cases h

/-- Whatever the capture holds, the parser reads every datagram that is sent, and finds all of its bytes in it. -/
theorem parse_datagram {file bytes : List UInt8} (h : bytes ∈ datagrams (messagesToReplay file)) :
    ∃ parsed, parse bytes = some parsed ∧ parsed.wireBytes = bytes := by
  obtain ⟨m, hm, rfl⟩ := List.mem_map.1 h
  simpa only [List.append_nil] using parse_wireBytes (isValid_of_mem_messagesToReplay hm) []

/-! ### What is found -/

/-- An Add is as long as the union, the other messages are shorter. -/
theorem expectedSize_eq_iff {m : WireMessage} (h : m.isValid = true) :
    expectedSize m.msgType = 34 ↔ m.msgType = 'A'.toUInt8 := by
  have hknown := (expectedSize_ne_zero_iff m.msgType).1 (expectedSize_of_isValid h)
  rcases hknown with hA | hX | hE
  · simp [hA, expectedSize_add]
  · simp [hX, expectedSize_cancel]
  · simp [hE, expectedSize_exec]

/-- A packet that ends with the bytes of a valid message, and in which nothing is accepted before them, adds that
message exactly when it is an Add. -/
theorem extract_iff (header : List UInt8) (m : WireMessage) (hvalid : m.isValid = true)
    (hearlier : ∀ k < header.length, parse ((header ++ m.wireBytes).drop k) = none) :
    (∃ found, extract (header ++ m.wireBytes) = some found ∧ found.wireBytes = m.wireBytes) ↔
      m.msgType = 'A'.toUInt8 := by
  have hlength := length_wireBytes m
  have hle := expectedSize_le m.msgType
  rw [← expectedSize_eq_iff hvalid, extract, search_append hearlier, List.length_append]
  constructor
  · rintro ⟨found, hfound, -⟩
    by_contra hne
    rw [search_of_short (by omega), ite_self] at hfound
    cases hfound
  · intro hsize
    have hlen : 34 ≤ (m.wireBytes ++ []).length := by
      rw [List.append_nil]
      omega
    rw [if_pos (by omega)]
    simpa only [List.append_nil] using search_wireBytes hvalid hlen

/-- An Add behind 42 zeros is found. -/
theorem extract_add :
    (∃ found, extract (List.replicate 42 0 ++ (ofAdd ⟨'A'.toUInt8, 1, 0, 7, 'B'.toUInt8, 100, 5⟩).wireBytes) =
        some found ∧
      found.wireBytes = (ofAdd ⟨'A'.toUInt8, 1, 0, 7, 'B'.toUInt8, 100, 5⟩).wireBytes) ↔
      (ofAdd ⟨'A'.toUInt8, 1, 0, 7, 'B'.toUInt8, 100, 5⟩).msgType = 'A'.toUInt8 :=
  extract_iff (List.replicate 42 0) (ofAdd ⟨'A'.toUInt8, 1, 0, 7, 'B'.toUInt8, 100, 5⟩) (by decide) (by decide)

/-- A Cancel behind 42 zeros is missed. -/
theorem extract_cancel_missed :
    ¬ ∀ (header : List UInt8) (m : WireMessage), m.isValid = true →
      (∀ k < header.length, parse ((header ++ m.wireBytes).drop k) = none) →
        ∃ found, extract (header ++ m.wireBytes) = some found ∧ found.wireBytes = m.wireBytes := by
  intro h
  obtain ⟨found, hfound, -⟩ := h (List.replicate 42 0) (ofCancel ⟨'X'.toUInt8, 1, 0, 7, 3⟩) (by decide) (by decide)
  have hnone : extract (List.replicate 42 0 ++ (ofCancel ⟨'X'.toUInt8, 1, 0, 7, 3⟩).wireBytes) = none := by decide
  rw [hnone] at hfound
  cases hfound

end PcapReplayer

end FeedHandler
