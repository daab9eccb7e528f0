import FeedHandler.Bridge.Order
import FeedHandler.StreamServer.Command

/-!
# The lines that the engine receives

The bridge looks at the start and the length of a whole text; the engine splits what it receives at line breaks.  The
first line of every text that the bridge accepts is of a kind that it permits, though an `EXIT` is taken for an order;
the lines behind a line break in the text are not looked at (`lines_permitted_iff`).
-/

namespace FeedHandler

open Python StreamServer

namespace Bridge

/-- A path that passes the check of the bridge. -/
def PathChecked (path : Str) : Prop := pathAllowed (PosixPath.normpath path) = true

/-- The characters that an order or a comment starts with. -/
def lineStarts : List Char := ['A', 'a', 'X', 'x', 'E', 'e', '#', '/']

/-- A line of one of the kinds that a client may have the engine receive. -/
def OfKind (line : Str) : Prop :=
  (∃ c rest, line = c :: rest ∧ c ∈ lineStarts) ∨
  (line.take 5).map Char.toUpper = "ORDER".toList ∨
  (∃ name ∈ exampleNames, line = "LOAD_EXAMPLE ".toList ++ name) ∨
  line = "RESET".toList ∨
  (∃ count : Int, line = "BURST ".toList ++ decimalStr count) ∨
  line = "CROSS".toList ∨
  ∃ path, line = "FILE ".toList ++ path ∧ PathChecked path

/-- A line that a client may have the engine receive. -/
structure Permitted (line : Str) : Prop where
  kind : OfKind line
  ne_quit : line ≠ "QUIT".toList
  ne_exit : line ≠ "EXIT".toList

/-- How a text of orders starts: like an order or a comment, or with `ORDER` and a blank. -/
def OrderStart (text : Str) : Prop :=
  (∃ c rest, text = c :: rest ∧ c ∈ lineStarts) ∨
    ∃ start rest, text = start ++ rest ∧ start.map Char.toUpper = "ORDER ".toList

/-- The texts in a command that are lines of orders: the raw line, the lines of a batch. -/
def orderTexts (py : Runtime) (data : Command) : List Str :=
  let cmd := commandName py data
  if cmd = "RAW_LINE".toList then [rawLine py data]
  else if cmd = "BATCH".toList then
    match data.lines.getD (.list []) with
    | .list lines => batchLines py lines
    | _ => []
  else []

/-- The texts in a command that are passed on as they are: those, and the path of a file. -/
def passedOn (py : Runtime) (data : Command) : List Str :=
  orderTexts py data ++ if commandName py data = "FILE".toList then [cleanPath py data] else []

/-- The lines of a text behind its first line break. -/
def furtherLines (text : Str) : List Str := (text.splitOn '\n').tail

/-! ### First lines -/

theorem pathAllowed_iff {path : Str} :
    pathAllowed path = true ↔ ¬ PosixPath.pardir <+: path ∧ PosixPath.isabs path = false := by
  simp [pathAllowed, startswith, ← List.isPrefixOf_iff_prefix]

theorem isabs_of_prefix {start path : Str} (h : start <+: path) (habs : PosixPath.isabs path = false) :
    PosixPath.isabs start = false := by
  cases start with
  | nil => rfl
  | cons c start =>
    obtain ⟨rest, rfl⟩ := h
    exact habs

/-- The lines of some texts, each behind the same start. -/
theorem forall_getlines_texts (start : Str) (h : '\n' ∉ start) (texts : List Str) {p : Str → Prop} :
    (∀ line ∈ getlines (texts.flatMap fun text => start ++ text ++ ['\n']), p line) ↔
      ∀ text ∈ texts, p (start ++ firstLine text) ∧ ∀ line ∈ furtherLines text, p line := by
  induction texts with
  | nil => simp [getlines]
  | cons text texts ih =>
    have hlines : getlines ((text :: texts).flatMap fun text => start ++ text ++ ['\n']) =
        ((start ++ firstLine text) :: furtherLines text) ++
          getlines (texts.flatMap fun text => start ++ text ++ ['\n']) := by
      rw [List.flatMap_cons, List.append_assoc _ ['\n'], List.singleton_append, getlines_append, splitOn_append h]
      rfl
    rw [hlines, List.forall_mem_append, List.forall_mem_cons, List.forall_mem_cons, ih]

/-- The first character of a raw line that is accepted. -/
theorem mem_lineStarts_of_upper (py : Runtime) {c : Char} (h : py.upper c ∈ [['A'], ['X'], ['E'], ['#'], ['/']]) :
    c ∈ lineStarts := by
  have hupper : ∃ u ∈ ['A', 'X', 'E', '#', '/'], py.upper c = [u] := by
    revert h
    generalize py.upper c = capitals
    simp
  obtain ⟨u, hu, hc⟩ := hupper
  have hascii := py.upper_alone c u hc hu
  rw [py.upper_ascii c hascii] at hc
  obtain ⟨rfl, -⟩ := List.cons.inj hc
  have hall : ∀ n : Fin 128, (Char.ofNat n).toUpper ∈ ['A', 'X', 'E', '#', '/'] → Char.ofNat n ∈ lineStarts := by
    decide
  exact of_isASCII hascii (P := fun c => c.toUpper ∈ ['A', 'X', 'E', '#', '/'] → c ∈ lineStarts) hall hu

/-- The first line of such a text. -/
theorem OrderStart.ofKind {text : Str} (h : OrderStart text) : OfKind (firstLine text) := by
  rcases h with ⟨c, rest, rfl, hstart⟩ | ⟨start, rest, rfl, hstart⟩
  · have hc : c ≠ '\n' := by
      rintro rfl
      revert hstart
      decide
    refine Or.inl ⟨c, firstLine rest, ?_, hstart⟩
    simp [firstLine, hc]
  · have hnewline : '\n' ∉ start := by
      intro hmem
      have hmem' := List.mem_map_of_mem (f := Char.toUpper) hmem
      rw [hstart] at hmem'
      revert hmem'
      decide
    have hfirst : firstLine (start ++ rest) = start ++ firstLine rest := by
      unfold firstLine
      rw [List.takeWhile_append_of_pos]
      intro c hc
      have hne : c ≠ '\n' := by
        rintro rfl
        exact hnewline hc
      simpa using hne
    have hlen : start.length = 6 := by
      have hlength := congrArg List.length hstart
      simpa using hlength
    right
    left
    rw [hfirst, List.take_append_of_le_length (by omega), List.map_take, hstart]
    decide

theorem OfKind.ne_quit {line : Str} (h : OfKind line) : line ≠ "QUIT".toList := by
  rintro rfl
  rcases h with ⟨c, rest, hline, hc⟩ | horder | ⟨name, -, hload⟩ | hreset | ⟨count, hburst⟩ | hcross | ⟨path, hfile, -⟩
  · obtain ⟨rfl, -⟩ := List.cons.inj hline
    revert hc
    decide
  · revert horder
    decide
  · cases hload
  · cases hreset
  · cases hburst
  · cases hcross
  · cases hfile

/-- The path of a line of these kinds is checked. -/
theorem OfKind.pathChecked {path : Str} (h : OfKind ("FILE ".toList ++ path)) : PathChecked path := by
  rcases h with ⟨c, rest, hline, hc⟩ | horder | ⟨name, -, hload⟩ | hreset | ⟨count, hburst⟩ | hcross |
    ⟨path', hfile, hpath⟩
  · obtain ⟨rfl, -⟩ := List.cons.inj hline
    have hstart : 'F' ∉ lineStarts := by decide
    exact absurd hc hstart
  · cases horder
  · cases hload
  · cases hreset
  · cases hburst
  · cases hcross
  · obtain rfl := List.append_cancel_left hfile
    exact hpath

theorem permitted_iff {line : Str} : Permitted line ↔ OfKind line ∧ line ≠ "EXIT".toList := by
  constructor
  · intro h
    exact ⟨h.kind, h.ne_exit⟩
  · rintro ⟨hkind, hexit⟩
    exact ⟨hkind, hkind.ne_quit, hexit⟩

/-- A line whose second character is not that of `EXIT`. -/
theorem OfKind.permitted {c d : Char} {rest : Str} (h : OfKind (c :: d :: rest)) (hd : d ≠ 'X') :
    Permitted (c :: d :: rest) := by
  refine permitted_iff.2 ⟨h, ?_⟩
  intro hexit
  obtain ⟨-, hrest⟩ := List.cons.inj hexit
  exact hd (List.cons.inj hrest).1

/-- The first line of an accepted path passes the check too. -/
theorem pathChecked_firstLine {path : Str} (h : pathAllowed (PosixPath.normpath path) = true) :
    PathChecked (firstLine (PosixPath.normpath path)) := by
  obtain ⟨hpar, habs⟩ := pathAllowed_iff.1 h
  rcases PosixPath.normpath_plain habs hpar with hcur | ⟨c, comps, hjoin, hplain⟩
  · unfold PathChecked
    rw [hcur]
    decide
  · have hprefix : firstLine (PosixPath.normpath path) <+: PosixPath.normpath path := List.takeWhile_prefix _
    have habs' : PosixPath.isabs (firstLine (PosixPath.normpath path)) = false := isabs_of_prefix hprefix habs
    have hpar' : ¬ PosixPath.pardir <+: firstLine (PosixPath.normpath path) := fun hp => hpar (hp.trans hprefix)
    rw [hjoin] at hprefix
    obtain ⟨whole, part, hsplit, hwhole⟩ := PosixPath.splitOn_of_prefix (List.cons_ne_nil _ _)
      (fun d hd => (hplain d hd).no_slash) hprefix
    rw [← hjoin] at hsplit
    refine pathAllowed_iff.2 ⟨?_, PosixPath.isabs_normpath habs'⟩
    exact PosixPath.not_pardir_prefix_normpath hsplit (fun d hd => hplain d (hwhole.subset hd)) habs' hpar'

/-! ### The branches -/

/-- One permitted line. -/
def Single (out : Str) : Prop := ∃ line, out = line ++ ['\n'] ∧ '\n' ∉ line ∧ Permitted line

/-- A formatted order is one permitted line. -/
theorem single_line (o : Order) : Single (o.line ++ ['\n']) := by
  refine ⟨o.line, rfl, o.newline_line, ?_⟩
  cases o with
  | add => exact OfKind.permitted (Or.inl ⟨'A', _, rfl, by decide⟩) (by decide)
  | cancel => exact OfKind.permitted (Or.inl ⟨'X', _, rfl, by decide⟩) (by decide)
  | execute => exact OfKind.permitted (Or.inl ⟨'E', _, rfl, by decide⟩) (by decide)

theorem accept_ok {cmdStr out err : Str} (h : accept cmdStr = (true, out, err)) : out = cmdStr := by
  cases h
  rfl

theorem single_routeOrder (py : Runtime) {data : Command} {out err : Str}
    (h : routeOrder py data = (true, out, err)) : Single out := by
  unfold routeOrder at h
  split at h
  · rename_i cmdStr horder
    obtain rfl := accept_ok h
    obtain ⟨o, -, rfl⟩ := exists_readFrom horder
    exact single_line o
  · cases h

theorem routeRawLine_ok (py : Runtime) {data : Command} {out err : Str}
    (h : routeRawLine py data = (true, out, err)) :
    out = rawLine py data ++ ['\n'] ∧ OrderStart (rawLine py data) := by
  unfold routeRawLine at h
  generalize rawLine py data = raw at h ⊢
  cases raw with
  | nil => cases h
  | cons firstChar rest =>
    dsimp only at h
    split_ifs at h with hlen hfirst horder
    · cases h
    · exact ⟨accept_ok h, Or.inl ⟨firstChar, rest, rfl, mem_lineStarts_of_upper py hfirst⟩⟩
    · exact ⟨accept_ok h, Or.inr (exists_of_startswith_upper py (by decide) horder)⟩
    · cases h

/-- A line of a batch that is kept. -/
theorem orderStart_of_keepBatchLine {text : Str} (h : keepBatchLine text = true) : OrderStart text := by
  cases text with
  | nil => cases h
  | cons firstChar rest =>
    simp only [keepBatchLine, Bool.and_eq_true, decide_eq_true_eq] at h
    have hall : batchStarts.all (· ∈ lineStarts) = true := by decide
    exact Or.inl ⟨firstChar, rest, rfl, by simpa using List.all_eq_true.1 hall firstChar h.2⟩

theorem routeBatch_ok (py : Runtime) {data : Command} {out err : Str} (h : routeBatch py data = (true, out, err)) :
    ∃ lines, data.lines.getD (.list []) = .list lines ∧ out = (batchLines py lines).flatMap (· ++ ['\n']) := by
  unfold routeBatch at h
  split at h
  · rename_i lines hlines
    split at h
    · cases h
    · exact ⟨lines, hlines, accept_ok h⟩
  · cases h

theorem single_routeLoadExample (py : Runtime) {data : Command} {out err : Str}
    (h : routeLoadExample py data = (true, out, err)) : Single out := by
  unfold routeLoadExample at h
  dsimp only at h
  split at h
  · rename_i hname
    obtain rfl := accept_ok h
    have hnewline : ∀ name ∈ exampleNames, '\n' ∉ "LOAD_EXAMPLE ".toList ++ name := by decide
    refine ⟨_, rfl, hnewline _ hname, OfKind.permitted ?_ (by decide)⟩
    right; right; left
    exact ⟨_, hname, rfl⟩
  · cases h

theorem single_routeBurst (py : Runtime) {data : Command} {out err : Str}
    (h : routeBurst py data = .ok (true, out, err)) : Single out := by
  obtain ⟨count, -, h⟩ := bind_eq_ok.1 h
  obtain rfl := accept_ok (Except.ok.inj h)
  refine ⟨_, rfl, ?_, OfKind.permitted ?_ (by decide)⟩
  · exact newline_append (by decide) (newline_decimalStr _)
  · right; right; right; right; left
    exact ⟨_, rfl⟩

theorem routeFile_ok (py : Runtime) {data : Command} {out err : Str} (h : routeFile py data = (true, out, err)) :
    pathAllowed (cleanPath py data) = true ∧ out = "FILE ".toList ++ cleanPath py data ++ ['\n'] := by
  unfold routeFile at h
  split at h
  · cases h
  · rename_i hallowed
    rw [Bool.not_eq_true', Bool.not_eq_false] at hallowed
    exact ⟨hallowed, accept_ok h⟩

/-- What an accepted command becomes: one line, texts of orders, or the path of a file. -/
theorem sanitizeAndRouteCommand_ok (py : Runtime) {data : Command} {out err : Str}
    (h : sanitizeAndRouteCommand py data = .ok (true, out, err)) :
    (passedOn py data = [] ∧ orderTexts py data = [] ∧ Single out) ∨
    (passedOn py data = orderTexts py data ∧ out = (orderTexts py data).flatMap (· ++ ['\n']) ∧
      ∀ text ∈ orderTexts py data, OrderStart text) ∨
    (passedOn py data = [cleanPath py data] ∧ orderTexts py data = [] ∧
      out = "FILE ".toList ++ cleanPath py data ++ ['\n'] ∧ pathAllowed (cleanPath py data) = true) := by
  unfold sanitizeAndRouteCommand at h
  unfold passedOn orderTexts
  dsimp only at h ⊢
  generalize commandName py data = cmd at h ⊢
  split_ifs at h with hallowed horder hraw hbatch hload hreset hburst hcross hfile
  · subst horder
    exact Or.inl ⟨rfl, rfl, single_routeOrder py (Except.ok.inj h)⟩
  · -- the raw line is passed on
    subst hraw
    obtain ⟨hout, hfirst⟩ := routeRawLine_ok py (Except.ok.inj h)
    refine Or.inr (Or.inl ⟨rfl, ?_, ?_⟩)
    · simpa using hout
    · simpa using hfirst
  · -- the lines of the batch that are kept are passed on
    subst hbatch
    obtain ⟨lines, hlines, hout⟩ := routeBatch_ok py (Except.ok.inj h)
    refine Or.inr (Or.inl ⟨List.append_nil _, ?_, ?_⟩)
    · simpa [hlines] using hout
    · intro text htext
      replace htext : text ∈ batchLines py lines := by simpa [hlines] using htext
      exact orderStart_of_keepBatchLine (List.mem_filter.1 htext).2
  · subst hload
    exact Or.inl ⟨rfl, rfl, single_routeLoadExample py (Except.ok.inj h)⟩
  · -- `CLEAR` becomes `RESET`
    obtain rfl := accept_ok (Except.ok.inj h)
    have hline : Permitted "RESET".toList := OfKind.permitted (by right; right; right; left; rfl) (by decide)
    rcases hreset with rfl | rfl
    · exact Or.inl ⟨rfl, rfl, _, rfl, by decide, hline⟩
    · exact Or.inl ⟨rfl, rfl, _, rfl, by decide, hline⟩
  · subst hburst
    exact Or.inl ⟨rfl, rfl, single_routeBurst py h⟩
  · subst hcross
    obtain rfl := accept_ok (Except.ok.inj h)
    have hline : Permitted "CROSS".toList :=
      OfKind.permitted (by right; right; right; right; right; left; rfl) (by decide)
    exact Or.inl ⟨rfl, rfl, _, rfl, by decide, hline⟩
  · -- the path is passed on
    subst hfile
    obtain ⟨hpath, hout⟩ := routeFile_ok py (Except.ok.inj h)
    exact Or.inr (Or.inr ⟨rfl, rfl, hout, hpath⟩)
  · cases h
  · cases h

/-! ### The lines of an accepted command -/

/-- No line of orders is `EXIT`, and the lines behind a line break are permitted. -/
structure Harmless (py : Runtime) (data : Command) : Prop where
  no_exit : ∀ text ∈ orderTexts py data, firstLine text ≠ "EXIT".toList
  further : ∀ text ∈ passedOn py data, ∀ line ∈ furtherLines text, Permitted line

theorem lines_permitted_iff (py : Runtime) {data : Command} {out err : Str}
    (h : sanitizeAndRouteCommand py data = .ok (true, out, err)) :
    (∀ line ∈ getlines out, Permitted line) ↔ Harmless py data := by
  rcases sanitizeAndRouteCommand_ok py h with ⟨hpassed, horders, hsingle⟩ | ⟨hpassed, hout, hkind⟩ |
    ⟨hpassed, horders, hout, hpath⟩
  · -- one line, made of converted values
    obtain ⟨line, rfl, hnewline, hline⟩ := hsingle
    rw [getlines_newline, List.splitOn_eq_singleton hnewline, List.forall_mem_singleton]
    refine iff_of_true hline ⟨?_, ?_⟩
    · simp [horders]
    · simp [hpassed]
  · have hlines := forall_getlines_texts [] (by decide) (orderTexts py data) (p := Permitted)
    simp only [List.nil_append] at hlines
    rw [hout, hlines]
    constructor
    · intro hall
      refine ⟨fun text htext => (hall text htext).1.ne_exit, ?_⟩
      rw [hpassed]
      exact fun text htext => (hall text htext).2
    · intro hharmless text htext
      refine ⟨permitted_iff.2 ⟨(hkind text htext).ofKind, hharmless.no_exit text htext⟩, ?_⟩
      exact hharmless.further text (hpassed ▸ htext)
  · have hlines := forall_getlines_texts "FILE ".toList (by decide) [cleanPath py data] (p := Permitted)
    simp only [List.flatMap_singleton, List.forall_mem_singleton] at hlines
    have hfirst : Permitted ("FILE ".toList ++ firstLine (cleanPath py data)) := by
      refine OfKind.permitted ?_ (by decide)
      right; right; right; right; right; right
      exact ⟨_, rfl, pathChecked_firstLine hpath⟩
    rw [hout, hlines]
    constructor
    · intro hall
      refine ⟨by simp [horders], ?_⟩
      rw [hpassed]
      simpa using hall.2
    · intro hharmless
      refine ⟨hfirst, ?_⟩
      exact hharmless.further _ (by simp [hpassed])

theorem lines_permitted_order_iff :
    (∀ line ∈ getlines "A,1001,B,100.00,500\n".toList, Permitted line) ↔
      Harmless ascii
        { command := some (.str "RAW_LINE".toList), line := some (.str "A,1001,B,100.00,500".toList) } := by
  have hok : sanitizeAndRouteCommand ascii
      { command := some (.str "RAW_LINE".toList), line := some (.str "A,1001,B,100.00,500".toList) } =
        .ok (true, "A,1001,B,100.00,500\n".toList, []) := by decide +kernel
  exact lines_permitted_iff ascii hok

/-- `EXIT` is accepted as an order of type `E`; `QUIT` and an unchecked path are accepted behind a comment. -/
theorem exit_quit_file_accepted :
    (sanitizeAndRouteCommand ascii { command := some (.str "RAW_LINE".toList), line := some (.str "EXIT".toList) } =
        .ok (true, "EXIT\n".toList, []) ∧
      getlines "EXIT\n".toList = ["EXIT".toList] ∧ ¬ Permitted "EXIT".toList) ∧
    sanitizeAndRouteCommand ascii
        { command := some (.str "RAW_LINE".toList), line := some (.str "#\nQUIT\nFILE /etc/passwd".toList) } =
        .ok (true, "#\nQUIT\nFILE /etc/passwd\n".toList, []) ∧
      getlines "#\nQUIT\nFILE /etc/passwd\n".toList = ["#".toList, "QUIT".toList, "FILE /etc/passwd".toList] ∧
      ¬ Permitted "QUIT".toList ∧ ¬ Permitted "FILE /etc/passwd".toList := by
  refine ⟨⟨by decide +kernel, by decide, fun h => h.ne_exit rfl⟩, by decide +kernel, by decide,
    fun h => h.ne_quit rfl, ?_⟩
  intro h
  have hpath : PathChecked "/etc/passwd".toList := OfKind.pathChecked h.kind
  unfold PathChecked at hpath
  revert hpath
  decide

/-! ### Commands without line breaks -/

/-- No string that is passed on has a line break. -/
structure OneLine (data : Command) : Prop where
  line : ∀ s, data.line = some (.str s) → '\n' ∉ s
  lines : ∀ items, data.lines = some (.list items) → ∀ s, .str s ∈ items → '\n' ∉ s
  path : ∀ s, data.path = some (.str s) → '\n' ∉ s

theorem newline_getD (py : Runtime) {field : Option Value} (h : ∀ s, field = some (.str s) → '\n' ∉ s) :
    '\n' ∉ str py (field.getD (.str [])) := by
  apply newline_str
  intro s hs
  cases field with
  | none =>
    cases hs
    exact List.not_mem_nil
  | some v => exact h s (congrArg some hs)

theorem newline_cleanPath (py : Runtime) {data : Command} (h : ∀ s, data.path = some (.str s) → '\n' ∉ s) :
    '\n' ∉ cleanPath py data := by
  intro hmem
  rcases PosixPath.of_mem_normpath hmem with hslash | hdot | hpath
  · cases hslash
  · cases hdot
  · exact newline_strip (newline_getD py h) hpath

theorem OneLine.newline_orderTexts (py : Runtime) {data : Command} (h : OneLine data) :
    ∀ text ∈ orderTexts py data, '\n' ∉ text := by
  intro text htext
  unfold orderTexts at htext
  dsimp only at htext
  split at htext
  · obtain rfl := List.mem_singleton.1 htext
    exact newline_strip (newline_getD py h.line)
  · split at htext
    · split at htext
      · rename_i items hitems
        obtain ⟨v, hv, rfl⟩ := List.mem_map.1 (List.mem_filter.1 htext).1
        apply newline_strip
        apply newline_str
        rintro s rfl
        cases hlines : data.lines with
        | none =>
          rw [hlines] at hitems
          cases hitems
          cases hv
        | some w =>
          rw [hlines] at hitems
          exact h.lines items (hlines.trans (congrArg some hitems)) s hv
      · cases htext
    · cases htext

theorem OneLine.newline_passedOn (py : Runtime) {data : Command} (h : OneLine data) :
    ∀ text ∈ passedOn py data, '\n' ∉ text := by
  intro text htext
  unfold passedOn at htext
  rw [List.mem_append] at htext
  rcases htext with htext | htext
  · exact h.newline_orderTexts py text htext
  · split at htext
    · obtain rfl := List.mem_singleton.1 htext
      exact newline_cleanPath py h.path
    · cases htext

/-- Without line breaks only `EXIT` itself does harm. -/
theorem OneLine.harmless_iff (py : Runtime) {data : Command} (h : OneLine data) :
    Harmless py data ↔ "EXIT".toList ∉ orderTexts py data := by
  have hfirst : ∀ text ∈ orderTexts py data, firstLine text = text := by
    intro text htext
    have hsplit := splitOn_newline text
    rw [List.splitOn_eq_singleton (h.newline_orderTexts py text htext)] at hsplit
    exact (List.cons.inj hsplit).1.symm
  constructor
  · intro hharmless hexit
    exact hharmless.no_exit _ hexit (hfirst _ hexit)
  · intro hexit
    constructor
    · intro text htext heq
      rw [hfirst text htext] at heq
      exact hexit (heq ▸ htext)
    · intro text htext line hline
      unfold furtherLines at hline
      rw [List.splitOn_eq_singleton (h.newline_passedOn py text htext)] at hline
      cases hline

end Bridge

end FeedHandler
