import FeedHandler.ParserValidator.UserLine

/-!
# A line is read by its tokens

The checks of `parseUserLine` for empty lines and comments look at the characters of the line.  They change nothing: a
line that they pass over has no first token, or one that is no type.  So the message depends on the tokens alone, and
an `ORDER` in front of them is passed over (`parseUserLine_by_tokens`).

`parseIndexed` is the function with the subscripts of the source, each of them checked: it never reads outside a token
list or a token.
-/

namespace FeedHandler

open Cstdlib StreamServer

namespace WireParserValidator

/-- The non-empty pieces of a line between its separators. -/
def fields (line : List Char) : List (List Char) := (line.splitOnP isSeparator).filter (· ≠ [])

/-! ### The loop over the characters splits the line -/

theorem tokensFrom_eq (current line : List Char) :
    tokensFrom current line = (line.splitOnPPrepend isSeparator current.reverse).filter (· ≠ []) := by
  induction line generalizing current with
  | nil =>
    rw [tokensFrom, List.splitOnPPrepend_nil, List.reverse_reverse]
    by_cases hcurrent : current = [] <;> simp [hcurrent]
  | cons c line ih =>
    rw [tokensFrom, List.splitOnPPrepend_cons_eq_if]
    by_cases hc : isSeparator c = true
    · rw [if_pos hc, if_pos hc, List.reverse_reverse, ih []]
      by_cases hcurrent : current = [] <;> simp [hcurrent]
    · rw [if_neg hc, if_neg hc, ih (current ++ [c]), List.reverse_append]
      rfl

theorem tokenize_eq_fields (line : List Char) : tokenize line = fields line := tokensFrom_eq [] line

theorem ne_nil_of_mem_tokenize {line token : List Char} (h : token ∈ tokenize line) : token ≠ [] := by
  rw [tokenize_eq_fields, fields, List.mem_filter] at h
  simpa using h.2

/-! ### The checks on the line -/

/-- The columns of tokens that begin with the type. -/
def typeColumns : List (List Char) → Option Columns
  | [] => none
  | typeStr :: tokens => columns (upperFirst typeStr) tokens

/-- The columns that a list of tokens has, if any. -/
def tokenColumns (tokens : List (List Char)) : Option Columns := typeColumns (skipOrder tokens)

/-- A line that starts like a comment has a first token that is no type. -/
private theorem tokenColumns_of_start {c : Char} (hc : c = '#' ∨ c = '/') (line : List Char) :
    tokenColumns (tokenize (c :: line)) = none := by
  have hsep : isSeparator c = false := by rcases hc with rfl | rfl <;> decide
  obtain ⟨more, tokens, htokens⟩ := exists_tokenize_eq hsep line
  rw [htokens, tokenColumns, skipOrder, if_neg]
  · rcases hc with rfl | rfl <;> rfl
  · rcases hc with rfl | rfl <;> simp

theorem lineColumns_eq (line : List Char) : lineColumns line = tokenColumns (tokenize line) := by
  unfold lineColumns
  split
  · rename_i hignored
    unfold ignored at hignored
    split at hignored
    · rfl
    · exact (tokenColumns_of_start (Or.inl rfl) _).symm
    · exact (tokenColumns_of_start (Or.inr rfl) _).symm
    · cases hignored
  · rfl

/-- The words that may stand in front of an order. -/
def orderWords : List (List Char) := ["ORDER".toList, "order".toList]

theorem tokenColumns_order {word : List Char} {tokens : List (List Char)} (hword : word ∈ orderWords)
    (hfirst : ∀ token ∈ tokens.head?, token ∉ orderWords) :
    tokenColumns (word :: tokens) = tokenColumns tokens := by
  have hskip : skipOrder (word :: tokens) = tokens := by
    rw [skipOrder, if_pos (by simpa [orderWords] using hword)]
  have hkeep : skipOrder tokens = tokens := by
    cases tokens with
    | nil => rfl
    | cons token tokens => rw [skipOrder, if_neg (by simpa [orderWords] using hfirst token rfl)]
  rw [tokenColumns, hskip, tokenColumns, hkeep]

/-! ### The subscripts of the source -/

/-- A subscript that is not below the size. -/
inductive OutOfBounds where
  | token
  | character
deriving DecidableEq, Repr

/-- `tokens[idx]` -/
def tokenAt (tokens : List (List Char)) (idx : Nat) : Except OutOfBounds (List Char) :=
  match tokens[idx]? with
  | some token => .ok token
  | none => .error .token

/-- `s[i]` -/
def charAt (s : List Char) (i : Nat) : Except OutOfBounds Char :=
  match s[i]? with
  | some c => .ok c
  | none => .error .character

/-- `tokens.size() - idx`, which wraps around below zero. -/
def sizeMinus (tokens : List (List Char)) (idx : Nat) : Nat :=
  if idx ≤ tokens.length then tokens.length - idx else UInt64.size + tokens.length - idx

/-- The first line of `parseUserLine`. -/
def ignoredIndexed (line : List Char) : Except OutOfBounds Bool :=
  if line = [] then
    .ok true
  else do
    let first ← charAt line 0
    if first = '#' then
      .ok true
    else if line.length ≥ 2 then do
      let first ← charAt line 0
      if first = '/' then do
        let second ← charAt line 1
        .ok (second = '/')
      else
        .ok false
    else
      .ok false

/-- The branches of the types, with `idx` behind the type. -/
def columnsIndexed (type : Char) (tokens : List (List Char)) (idx : Nat) : Except OutOfBounds (Option Columns) :=
  if type = 'A' then
    if sizeMinus tokens idx < 4 then
      .ok none
    else do
      let orderId ← tokenAt tokens idx
      let side ← tokenAt tokens (idx + 1)
      let _ ← charAt side 0
      let price ← tokenAt tokens (idx + 2)
      let qty ← tokenAt tokens (idx + 3)
      .ok (some (.add orderId side price qty))
  else if type = 'X' ∨ type = 'C' then
    if sizeMinus tokens idx < 1 then
      .ok none
    else do
      let orderId ← tokenAt tokens idx
      let idx := idx + 1
      if idx < tokens.length then
        if sizeMinus tokens idx ≥ 3 then do
          let newQty ← tokenAt tokens (idx + 2) -- skip side, price
          .ok (some (.cancel orderId (some newQty)))
        else do
          let newQty ← tokenAt tokens idx
          .ok (some (.cancel orderId (some newQty)))
      else
        .ok (some (.cancel orderId none))
  else if type = 'E' then
    if sizeMinus tokens idx < 2 then
      .ok none
    else do
      let orderId ← tokenAt tokens idx
      let idx := idx + 1
      if sizeMinus tokens idx ≥ 3 then do
        let matchPrice ← tokenAt tokens (idx + 1) -- skip side or dummy column
        let execQty ← tokenAt tokens (idx + 2)
        .ok (some (.execute orderId matchPrice execQty))
      else if sizeMinus tokens idx = 2 then do
        let matchPrice ← tokenAt tokens idx
        let execQty ← tokenAt tokens (idx + 1)
        .ok (some (.execute orderId matchPrice execQty))
      else
        .ok none
  else
    .ok none

/-- The type at `idx`, and the columns behind it. -/
def typeIndexed (tokens : List (List Char)) (idx : Nat) : Except OutOfBounds (Option Columns) :=
  if idx ≥ tokens.length then
    .ok none
  else do
    let typeStr ← tokenAt tokens idx
    let type ← charAt typeStr 0
    columnsIndexed type.toUpper tokens (idx + 1)

/-- `parseUserLine` with the subscripts of the source. -/
def parseIndexed (hundredths : List Char → Int64) (line : List Char) (seqNo nowNs : UInt64) :
    Except OutOfBounds (Option WireMessage) := do
  let isIgnored ← ignoredIndexed line
  if isIgnored then
    .ok none
  else
    let tokens := tokenize line
    if tokens = [] then
      .ok none
    else do
      let first ← tokenAt tokens 0
      let cols ← typeIndexed tokens (if first = "ORDER".toList ∨ first = "order".toList then 1 else 0)
      .ok (cols.bind (message hundredths seqNo nowNs))

/-! ### No subscript is out of bounds -/

theorem sizeMinus_append (before rest : List (List Char)) {k : Nat} (hk : k ≤ rest.length) :
    sizeMinus (before ++ rest) (before.length + k) = rest.length - k := by
  unfold sizeMinus
  rw [List.length_append, if_pos (by omega)]
  omega

theorem charAt_zero {s : List Char} (h : s ≠ []) : charAt s 0 = .ok (s.headD '\x00') := by
  cases s with
  | nil => exact absurd rfl h
  | cons c s => rfl

theorem ignoredIndexed_eq (line : List Char) : ignoredIndexed line = .ok (ignored line) := by
  match line with
  | [] => rfl
  | [c] =>
    have hignored : ignored [c] = decide (c = '#') := by
      unfold ignored
      split <;> simp_all
    rw [hignored]
    by_cases hc : c = '#' <;> simp [ignoredIndexed, charAt, bind, Except.bind, hc]
  | c :: d :: rest =>
    have hignored : ignored (c :: d :: rest) = (decide (c = '#') || decide (c = '/') && decide (d = '/')) := by
      unfold ignored
      split <;> simp_all
    rw [hignored]
    by_cases hc : c = '#'
    · simp [ignoredIndexed, charAt, bind, Except.bind, hc]
    · by_cases hslash : c = '/' <;> simp [ignoredIndexed, charAt, bind, Except.bind, hc, hslash]

/-- The comparisons of `tokens.size() - idx` guard the subscripts of each branch. -/
theorem columnsIndexed_append (type : Char) (before rest : List (List Char)) (hne : ∀ token ∈ rest, token ≠ []) :
    columnsIndexed type (before ++ rest) before.length = .ok (columns type rest) := by
  have hsize0 := sizeMinus_append before rest (Nat.zero_le _)
  rw [Nat.add_zero] at hsize0
  unfold columnsIndexed columns
  rw [hsize0]
  by_cases hA : type = 'A'
  · rw [if_pos hA, if_pos hA]
    match rest, hne with
    | [], _ => rfl
    | [_], _ => rfl
    | [_, _], _ => rfl
    | [_, _, _], _ => rfl
    | orderId :: side :: price :: qty :: more, hne =>
      -- `tokens[idx + 1][0]` is there because tokens are not empty
      have hside := charAt_zero (hne side (by simp))
      simp [tokenAt, hside, bind, Except.bind]
  · rw [if_neg hA, if_neg hA]
    by_cases hX : type = 'X' ∨ type = 'C'
    · rw [if_pos hX, if_pos hX]
      match rest with
      | [] => rfl
      | [orderId] => simp [tokenAt, bind, Except.bind]
      | [orderId, newQty] =>
        -- the quantity behind the id; with three more tokens it is the third of them
        have hsize1 := sizeMinus_append before [orderId, newQty] (k := 1) (by simp)
        simp [hsize1, tokenAt, bind, Except.bind]
      | [orderId, newQty, third] =>
        have hsize1 := sizeMinus_append before [orderId, newQty, third] (k := 1) (by simp)
        simp [hsize1, tokenAt, bind, Except.bind]
      | orderId :: second :: third :: newQty :: more =>
        have hsize1 := sizeMinus_append before (orderId :: second :: third :: newQty :: more) (k := 1) (by simp)
        simp [hsize1, tokenAt, bind, Except.bind, Nat.add_assoc]
    · rw [if_neg hX, if_neg hX]
      by_cases hE : type = 'E'
      · rw [if_pos hE, if_pos hE]
        match rest with
        | [] => rfl
        | [_] => rfl
        | [orderId, second] =>
          have hsize1 := sizeMinus_append before [orderId, second] (k := 1) (by simp)
          simp [hsize1, tokenAt, bind, Except.bind]
        | [orderId, matchPrice, execQty] =>
          have hsize1 := sizeMinus_append before [orderId, matchPrice, execQty] (k := 1) (by simp)
          simp [hsize1, tokenAt, bind, Except.bind, Nat.add_assoc]
        | orderId :: second :: matchPrice :: execQty :: more =>
          have hsize1 := sizeMinus_append before (orderId :: second :: matchPrice :: execQty :: more) (k := 1) (by simp)
          simp [hsize1, tokenAt, bind, Except.bind, Nat.add_assoc]
      · rw [if_neg hE, if_neg hE]

theorem typeIndexed_append (before rest : List (List Char)) (hne : ∀ token ∈ rest, token ≠ []) :
    typeIndexed (before ++ rest) before.length = .ok (typeColumns rest) := by
  cases rest with
  | nil => simp [typeIndexed, typeColumns]
  | cons typeStr tokens =>
    have htype := charAt_zero (hne typeStr (by simp))
    have hcols := columnsIndexed_append (upperFirst typeStr) (before ++ [typeStr]) tokens fun token htoken =>
      hne token (by simp [htoken])
    rw [List.append_assoc, List.singleton_append, List.length_append, List.length_singleton] at hcols
    have hat : tokenAt (before ++ typeStr :: tokens) before.length = .ok typeStr := by simp [tokenAt]
    unfold typeIndexed
    rw [if_neg (by simp), hat]
    show charAt typeStr 0 >>= _ = _
    rw [htype]
    exact hcols

/-- The subscripts stay in bounds, and the result is that of `parseUserLine`. -/
theorem parseIndexed_eq (hundredths : List Char → Int64) (line : List Char) (seqNo nowNs : UInt64) :
    parseIndexed hundredths line seqNo nowNs = .ok (parseUserLine hundredths line seqNo nowNs) := by
  have hne : ∀ token ∈ tokenize line, token ≠ [] := fun token => ne_nil_of_mem_tokenize
  rw [parseUserLine, lineColumns_eq]
  unfold parseIndexed
  rw [ignoredIndexed_eq]
  cases hignored : ignored line with
  | true =>
    have hcols := lineColumns_eq line
    rw [lineColumns, if_pos hignored] at hcols
    rw [← hcols]
    rfl
  | false =>
    cases htokens : tokenize line with
    | nil => rfl
    | cons first tokens =>
      rw [htokens] at hne
      show (typeIndexed (first :: tokens) (if first = "ORDER".toList ∨ first = "order".toList then 1 else 0) >>= _) = _
      by_cases horder : first = "ORDER".toList ∨ first = "order".toList
      · have htype := typeIndexed_append [first] tokens fun token htoken => hne token (List.mem_cons_of_mem _ htoken)
        have hskip : skipOrder (first :: tokens) = tokens := if_pos horder
        rw [tokenColumns, hskip, if_pos horder]
        show (typeIndexed ([first] ++ tokens) [first].length >>= _) = _
        rw [htype]
        rfl
      · have htype := typeIndexed_append [] (first :: tokens) hne
        have hskip : skipOrder (first :: tokens) = first :: tokens := if_neg horder
        rw [tokenColumns, hskip, if_neg horder]
        show (typeIndexed ([] ++ first :: tokens) ([] : List (List Char)).length >>= _) = _
        rw [htype]
        rfl

/-- `parseUserLine` is a function of the non-empty pieces between the separators, and passes over one `ORDER` in
front of them; its subscripts are in bounds for every line. -/
theorem parseUserLine_by_tokens (hundredths : List Char → Int64) (seqNo nowNs : UInt64) :
    (∀ line line', fields line = fields line' →
      parseUserLine hundredths line seqNo nowNs = parseUserLine hundredths line' seqNo nowNs) ∧
    (∀ line line' word, word ∈ orderWords → fields line' = word :: fields line →
      (∀ token ∈ (fields line).head?, token ∉ orderWords) →
        parseUserLine hundredths line' seqNo nowNs = parseUserLine hundredths line seqNo nowNs) ∧
    ∀ line, parseIndexed hundredths line seqNo nowNs = .ok (parseUserLine hundredths line seqNo nowNs) := by
  have htokens (line : List Char) : parseUserLine hundredths line seqNo nowNs =
      (tokenColumns (fields line)).bind (message hundredths seqNo nowNs) := by
    rw [parseUserLine, lineColumns_eq, tokenize_eq_fields]
  refine ⟨fun line line' h => ?_, fun line line' word hword h hfirst => ?_, fun line =>
    parseIndexed_eq hundredths line seqNo nowNs⟩
  · rw [htokens, htokens, h]
  · rw [htokens, htokens, h, tokenColumns_order hword hfirst]

/-- Commas and blanks in other places, and an `ORDER` in front. -/
theorem parseUserLine_by_tokens_order :
    parseUserLine (fun _ => 0) " A,,7\tB 100,,5\r".toList 1 0 = parseUserLine (fun _ => 0) "A,7,B,100,5".toList 1 0 ∧
    parseUserLine (fun _ => 0) "ORDER A 7 B 100 5".toList 1 0 = parseUserLine (fun _ => 0) "A,7,B,100,5".toList 1 0 :=
  have h := parseUserLine_by_tokens (fun _ => 0) 1 0
  ⟨h.1 _ _ (by decide), h.2.1 _ _ "ORDER".toList (by decide) (by decide) (by decide)⟩

end WireParserValidator

end FeedHandler
