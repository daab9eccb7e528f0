import FeedHandler.Bridge.Injection

/-!
# The file that the engine opens

The bridge checks a normalised path; the engine trims what it receives before it opens it.  Blanks at the ends of the
path are gone before the path is normalised, but a component may start or end with blanks, and normalising can make it
the first or the last one.
-/

namespace FeedHandler

open Python StreamServer

namespace Bridge

/-- The path that the engine opens. -/
def opened (path : Str) : Str := trimBack (trimFront path)

/-- What the components of an accepted path must be for the trimmed path to stay inside. -/
def Contained (path : Str) : Prop :=
  match path.splitOn '/' with
  | [] => True
  | [comp] => opened comp ≠ PosixPath.pardir
  | first :: second :: rest =>
    trimFront first ≠ [] ∧ trimFront first ≠ PosixPath.pardir ∧
      ¬ (trimFront first = PosixPath.curdir ∧ rest = [] ∧ trimBack second = PosixPath.pardir)

instance (path : Str) : Decidable (Contained path) := by
  unfold Contained
  split <;> infer_instance

/-! ### Trimming -/

theorem dropWhile_append_cons {p : Char → Bool} {c : Char} (hc : p c = false) (s rest : Str) :
    (s ++ c :: rest).dropWhile p = s.dropWhile p ++ c :: rest := by
  induction s with
  | nil => simp [hc]
  | cons d s ih =>
    rw [List.cons_append, List.dropWhile_cons, List.dropWhile_cons]
    split
    · exact ih
    · rfl

/-- The front is trimmed inside the first component. -/
theorem trimFront_slash (first rest : Str) : trimFront (first ++ '/' :: rest) = trimFront first ++ '/' :: rest :=
  dropWhile_append_cons (by decide) first rest

/-- The back is trimmed inside the last component. -/
theorem trimBack_slash (rest last : Str) : trimBack (rest ++ '/' :: last) = rest ++ '/' :: trimBack last := by
  unfold trimBack
  rw [List.reverse_append, List.reverse_cons, List.append_assoc, List.singleton_append,
    dropWhile_append_cons (by decide)]
  simp

theorem mem_of_mem_trimFront {c : Char} {s : Str} (h : c ∈ trimFront s) : c ∈ s :=
  (List.dropWhile_sublist _).subset h

theorem mem_of_mem_trimBack {c : Char} {s : Str} (h : c ∈ trimBack s) : c ∈ s := by
  unfold trimBack at h
  rw [List.mem_reverse] at h
  exact List.mem_reverse.1 ((List.dropWhile_sublist _).subset h)

theorem trimFront_join {first : Str} {comps : List Str} (h : comps ≠ []) :
    trimFront (PosixPath.join (first :: comps)) = PosixPath.join (trimFront first :: comps) := by
  obtain ⟨second, rest, rfl⟩ := List.exists_cons_of_ne_nil h
  rw [PosixPath.join_cons_cons, PosixPath.join_cons_cons, trimFront_slash]

theorem trimBack_join {comps : List Str} (h : comps ≠ []) (last : Str) :
    trimBack (PosixPath.join (comps ++ [last])) = PosixPath.join (comps ++ [trimBack last]) := by
  rw [PosixPath.join_append_singleton h, PosixPath.join_append_singleton h, trimBack_slash]

/-- The components of the opened path. -/
theorem opened_join (first : Str) (mid : List Str) (last : Str) :
    opened (PosixPath.join (first :: (mid ++ [last]))) =
      PosixPath.join (trimFront first :: (mid ++ [trimBack last])) := by
  unfold opened
  rw [trimFront_join (by simp), ← List.cons_append, trimBack_join (by simp), List.cons_append]

/-! ### Paths that lead out -/

/-- A path with more than one component is absolute when the first one is empty. -/
theorem isabs_join {first : Str} (hslash : '/' ∉ first) (comps : List Str) (h : comps ≠ []) :
    PosixPath.isabs (PosixPath.join (first :: comps)) = true ↔ first = [] := by
  obtain ⟨second, rest, rfl⟩ := List.exists_cons_of_ne_nil h
  rw [PosixPath.join_cons_cons]
  cases first with
  | nil => simp [PosixPath.isabs]
  | cons c first =>
    rw [List.mem_cons, not_or] at hslash
    simp [PosixPath.isabs, Ne.symm hslash.1]

/-- A trimmed single component. -/
theorem escapes_comp {comp : Str} (hslash : '/' ∉ comp) : PosixPath.Escapes comp ↔ comp = PosixPath.pardir := by
  have habs : PosixPath.isabs comp = false := by
    cases comp with
    | nil => rfl
    | cons c comp =>
      rw [List.mem_cons, not_or] at hslash
      simpa [PosixPath.isabs] using Ne.symm hslash.1
  rw [PosixPath.escapes_iff habs, PosixPath.relComps, List.splitOn_eq_singleton hslash,
    PosixPath.head?_normComps_singleton]

theorem escapes_join {first last : Str} {mid : List Str} (hfirst : '/' ∉ first)
    (hmid : ∀ comp ∈ mid, PosixPath.Plain comp) (hlast : '/' ∉ last) :
    PosixPath.Escapes (PosixPath.join (first :: (mid ++ [last]))) ↔
      first = [] ∨ first = PosixPath.pardir ∨
        first = PosixPath.curdir ∧ mid = [] ∧ last = PosixPath.pardir := by
  have hsplit : (PosixPath.join (first :: (mid ++ [last]))).splitOn '/' = first :: (mid ++ [last]) := by
    apply PosixPath.splitOn_join (List.cons_ne_nil _ _)
    intro comp hcomp
    rw [List.mem_cons, List.mem_append, List.mem_singleton] at hcomp
    rcases hcomp with rfl | hcomp | rfl
    · exact hfirst
    · exact (hmid comp hcomp).no_slash
    · exact hlast
  have habs := isabs_join hfirst (mid ++ [last]) (by simp)
  by_cases hnil : first = []
  · exact iff_of_true (Or.inl (habs.2 hnil)) (Or.inl hnil)
  · have hrel : PosixPath.isabs (PosixPath.join (first :: (mid ++ [last]))) = false := by
      simpa using mt habs.1 hnil
    rw [PosixPath.escapes_iff hrel, PosixPath.relComps, hsplit, PosixPath.head?_normComps hmid]
    simp [hnil]

/-- Of the paths that the bridge accepts, the engine opens those inside its directory exactly when they are
contained. -/
theorem not_escapes_opened_iff {path : Str} (h : pathAllowed (PosixPath.normpath path) = true) :
    ¬ PosixPath.Escapes (opened (PosixPath.normpath path)) ↔ Contained (PosixPath.normpath path) := by
  obtain ⟨hpar, habs⟩ := pathAllowed_iff.1 h
  rcases PosixPath.normpath_plain habs hpar with hcur | ⟨first, comps, hjoin, hplain⟩
  · rw [hcur]
    decide
  · have hslash : ∀ comp ∈ first :: comps, '/' ∉ comp := fun comp hcomp => (hplain comp hcomp).no_slash
    have hfirst := hslash first (List.mem_cons_self ..)
    unfold Contained
    rw [hjoin, PosixPath.splitOn_join (List.cons_ne_nil _ _) hslash]
    rcases List.eq_nil_or_concat comps with rfl | ⟨mid, last, rfl⟩
    · -- both ends of a single component are trimmed
      have hopened : '/' ∉ opened first := fun hmem => hfirst (mem_of_mem_trimFront (mem_of_mem_trimBack hmem))
      rw [PosixPath.join_singleton, escapes_comp hopened]
    · -- the front of the first component and the back of the last one are trimmed
      rw [List.concat_eq_append] at hslash hplain ⊢
      have hmid : ∀ comp ∈ mid, PosixPath.Plain comp := fun comp hcomp => hplain comp (by simp [hcomp])
      have hlast := hslash last (by simp)
      rw [opened_join, escapes_join (fun hmem => hfirst (mem_of_mem_trimFront hmem)) hmid
        fun hmem => hlast (mem_of_mem_trimBack hmem)]
      cases mid with
      | nil => simp
      | cons second mid => simp

/-- Only trimming lets an accepted path lead out. -/
theorem contained_of_opened_eq {path : Str} (h : pathAllowed (PosixPath.normpath path) = true)
    (heq : opened (PosixPath.normpath path) = PosixPath.normpath path) : Contained (PosixPath.normpath path) := by
  rw [← not_escapes_opened_iff h, heq]
  obtain ⟨hpar, habs⟩ := pathAllowed_iff.1 h
  rcases PosixPath.normpath_plain habs hpar with hcur | ⟨first, comps, hjoin, hplain⟩
  · rw [hcur]
    decide
  · have hfirst := hplain first (List.mem_cons_self ..)
    rw [hjoin]
    rcases List.eq_nil_or_concat comps with rfl | ⟨mid, last, rfl⟩
    · rw [PosixPath.join_singleton, escapes_comp hfirst.no_slash]
      exact hfirst.ne_pardir
    · rw [List.concat_eq_append] at hplain ⊢
      have hlast := hplain last (by simp)
      rw [escapes_join hfirst.no_slash (fun comp hcomp => hplain comp (by simp [hcomp])) hlast.no_slash]
      simp [hfirst.ne_nil, hfirst.ne_curdir, hfirst.ne_pardir]

/-! ### The file of an accepted command -/

/-- What the command thread does with a line that loads a file. -/
theorem command_file (path : Str) : command ("FILE ".toList ++ path) = .loadFileIntoEngine (opened path) := by
  unfold command
  rw [if_neg (by simp), if_neg (by simp [startsWith]), if_pos (by simp [startsWith])]
  rfl

theorem opened_contained_iff (py : Runtime) {data : Command} {out err : Str}
    (hcmd : commandName py data = "FILE".toList) (hpath : ∀ s, data.path = some (.str s) → '\n' ∉ s)
    (h : sanitizeAndRouteCommand py data = .ok (true, out, err)) :
    ∃ filepath, (getlines out).map command = [.loadFileIntoEngine filepath] ∧
      (¬ PosixPath.Escapes filepath ↔ Contained (cleanPath py data)) := by
  have hfile : routeFile py data = (true, out, err) := by
    unfold sanitizeAndRouteCommand at h
    dsimp only at h
    rw [hcmd] at h
    exact Except.ok.inj h
  obtain ⟨hallowed, rfl⟩ := routeFile_ok py hfile
  refine ⟨opened (cleanPath py data), ?_, not_escapes_opened_iff hallowed⟩
  have hnewline : '\n' ∉ "FILE ".toList ++ cleanPath py data :=
    newline_append (by decide) (newline_cleanPath py hpath)
  rw [getlines_newline, List.splitOn_eq_singleton hnewline, List.map_singleton, command_file]

theorem opened_contained_example_iff :
    ∃ filepath, (getlines "FILE examples/aapl.csv\n".toList).map command = [.loadFileIntoEngine filepath] ∧
      (¬ PosixPath.Escapes filepath ↔ Contained (cleanPath ascii
        { command := some (.str "FILE".toList), path := some (.str "examples/./aapl.csv".toList) })) := by
  have hok : sanitizeAndRouteCommand ascii
      { command := some (.str "FILE".toList), path := some (.str "examples/./aapl.csv".toList) } =
        .ok (true, "FILE examples/aapl.csv\n".toList, []) := by decide +kernel
  refine opened_contained_iff ascii (by decide) ?_ hok
  intro s hs
  cases hs
  decide

/-- A component of a blank becomes the root, and one of a blank and `..` the parent directory. -/
theorem blank_component_escapes :
    (sanitizeAndRouteCommand ascii
        { command := some (.str "FILE".toList), path := some (.str "./ /etc/passwd".toList) } =
        .ok (true, "FILE  /etc/passwd\n".toList, []) ∧
      (getlines "FILE  /etc/passwd\n".toList).map command = [.loadFileIntoEngine "/etc/passwd".toList] ∧
      PosixPath.Escapes "/etc/passwd".toList) ∧
    sanitizeAndRouteCommand ascii
        { command := some (.str "FILE".toList), path := some (.str "./ ../secret".toList) } =
        .ok (true, "FILE  ../secret\n".toList, []) ∧
      (getlines "FILE  ../secret\n".toList).map command = [.loadFileIntoEngine "../secret".toList] ∧
      PosixPath.Escapes "../secret".toList :=
  ⟨⟨by decide +kernel, by decide, by decide⟩, by decide +kernel, by decide, by decide⟩

end Bridge

end FeedHandler
