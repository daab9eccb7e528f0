import FeedHandler.Foundation.PosixPath
import Mathlib.Data.List.DropRight

/-!
# Directories and the paths below them

An absolute path has the components that `normpath` leaves of it: plain ones, since `..` takes back the component
before it and goes no higher than the root (`plain_rootedComps`).  A path that is joined to a directory continues its
components (`rootedComps_joinPath`), unless it is absolute.  Two slashes at the start stand for the root, as one does.
-/

namespace PosixPath

/-- `os.path.join(a, b)` -/
def joinPath (a b : List Char) : List Char :=
  if isabs b then b
  else if a = [] ∨ a.getLast? = some '/' then a ++ b
  else a ++ '/' :: b

/-- `os.path.dirname` -/
def dirname (path : List Char) : List Char :=
  let head := path.rdropWhile (· ≠ '/')
  if head.all (· = '/') then head else head.rdropWhile (· = '/')

/-- `os.path.abspath`, in the working directory `cwd` -/
def abspath (cwd path : List Char) : List Char := normpath (if isabs path then path else joinPath cwd path)

example : joinPath "/srv".toList "/etc".toList = "/etc".toList := by decide

example : dirname (abspath "/srv/app".toList "./bridge.py".toList) = "/srv/app".toList := by decide

/-- The components of an absolute path, normalised. -/
def rootedComps (path : List Char) : List (List Char) := normComps true (path.splitOn '/')

/-- Lexically, the path is the directory or lies below it. -/
def Inside (dir path : List Char) : Prop := isabs path = true ∧ rootedComps dir <+: rootedComps path

instance (dir path : List Char) : Decidable (Inside dir path) := inferInstanceAs (Decidable (_ ∧ _))

/-! ### Absolute paths -/

theorem isabs_iff {path : List Char} : isabs path = true ↔ ∃ rest, path = '/' :: rest := by
  cases path with
  | nil => simp [isabs]
  | cons c path => simp [isabs]

theorem isabs_append {a : List Char} (h : isabs a = true) (b : List Char) : isabs (a ++ b) = true := by
  obtain ⟨rest, rfl⟩ := isabs_iff.1 h
  rfl

theorem isabs_joinPath {a : List Char} (h : isabs a = true) (b : List Char) : isabs (joinPath a b) = true := by
  unfold joinPath
  split_ifs with hb
  · exact hb
  · exact isabs_append h b
  · exact isabs_append h _

theorem isabs_of_prefix {path start : List Char} (h : isabs path = true) (hstart : start <+: path) (hne : start ≠ []) :
    isabs start = true := by
  cases start with
  | nil => exact absurd rfl hne
  | cons c start =>
    obtain ⟨rest, rfl⟩ := hstart
    exact h

theorem isabs_dirname {path : List Char} (h : isabs path = true) : isabs (dirname path) = true := by
  have hhead : isabs (path.rdropWhile (· ≠ '/')) = true := by
    apply isabs_of_prefix h (List.rdropWhile_prefix _ _)
    obtain ⟨rest, rfl⟩ := isabs_iff.1 h
    rw [ne_eq, List.rdropWhile_eq_nil_iff]
    intro hall
    have hslash := hall '/' (by simp)
    simp at hslash
  unfold dirname
  dsimp only
  split
  · exact hhead
  · rename_i hall
    apply isabs_of_prefix hhead (List.rdropWhile_prefix _ _)
    rw [ne_eq, List.rdropWhile_eq_nil_iff, ← List.all_eq_true]
    exact hall

theorem isabs_abspath {cwd : List Char} (h : isabs cwd = true) (path : List Char) :
    isabs (abspath cwd path) = true := by
  apply isabs_normpath_of_isabs
  split
  · assumption
  · exact isabs_joinPath h path

/-! ### The components of an absolute path -/

theorem pushComp_nil (rooted : Bool) (newComps : List (List Char)) : pushComp rooted newComps [] = newComps :=
  if_pos (Or.inl rfl)

theorem plain_pushComp {newComps : List (List Char)} (h : ∀ c ∈ newComps, Plain c) {comp : List Char}
    (hslash : '/' ∉ comp) : ∀ c ∈ pushComp true newComps comp, Plain c := by
  unfold pushComp
  split
  · exact h
  · rename_i hdot
    push Not at hdot
    by_cases hpar : comp = pardir
    · -- the component before it is plain, so `..` takes it back
      have hlast : newComps.getLast? ≠ some pardir :=
        fun hlast => (h pardir (List.mem_of_getLast? hlast)).ne_pardir rfl
      rw [if_neg (by simp [hpar, hlast])]
      exact fun c hc => h c (List.dropLast_subset _ hc)
    · rw [if_pos (Or.inl hpar)]
      intro c hc
      rw [List.mem_append, List.mem_singleton] at hc
      rcases hc with hc | rfl
      · exact h c hc
      · exact ⟨hdot.1, hdot.2, hpar, hslash⟩

theorem plain_rootedComps (path : List Char) : ∀ c ∈ rootedComps path, Plain c := by
  have hfold : ∀ comps : List (List Char), (∀ c ∈ comps, '/' ∉ c) → ∀ newComps, (∀ c ∈ newComps, Plain c) →
      ∀ c ∈ comps.foldl (pushComp true) newComps, Plain c := by
    intro comps
    induction comps with
    | nil => exact fun _ _ h => h
    | cons d comps ih =>
      intro hslash newComps h
      exact ih (fun c hc => hslash c (List.mem_cons_of_mem _ hc)) _
        (plain_pushComp h (hslash d (List.mem_cons_self ..)))
  exact hfold _ (fun _ hc => not_mem_of_mem_splitOn hc) [] fun c hc => by cases hc

/-- The components of two paths with a slash between them. -/
theorem rootedComps_append (a b : List Char) :
    rootedComps (a ++ '/' :: b) = (b.splitOn '/').foldl (pushComp true) (rootedComps a) := by
  unfold rootedComps normComps
  rw [List.splitOn_append_cons_self, List.foldl_append]

theorem rootedComps_joinPath {a : List Char} (ha : a ≠ []) {b : List Char} (hb : isabs b = false) :
    rootedComps (joinPath a b) = (b.splitOn '/').foldl (pushComp true) (rootedComps a) := by
  unfold joinPath
  rw [if_neg (by simp [hb])]
  split
  · rename_i hlast
    obtain ⟨init, rfl⟩ := List.getLast?_eq_some_iff.1 (hlast.resolve_left ha)
    rw [List.append_assoc, List.singleton_append, rootedComps_append, rootedComps_append]
    simp [List.splitOn_nil, pushComp_nil]
  · exact rootedComps_append a b

/-- Plain components are what the path made of them has. -/
theorem foldl_splitOn_join {comps : List (List Char)} (h : ∀ c ∈ comps, Plain c) (newComps : List (List Char)) :
    ((join comps).splitOn '/').foldl (pushComp true) newComps = newComps ++ comps := by
  cases comps with
  | nil =>
    show ([[]] : List (List Char)).foldl (pushComp true) newComps = _
    simp [pushComp_nil]
  | cons c comps =>
    rw [splitOn_join (List.cons_ne_nil _ _) fun d hd => (h d hd).no_slash, foldl_plain _ _ h]

/-- Normalising an absolute path keeps its components. -/
theorem rootedComps_normpath {path : List Char} (h : isabs path = true) :
    rootedComps (normpath path) = rootedComps path := by
  obtain ⟨rest, rfl⟩ := isabs_iff.1 h
  have hslashes : initialSlashes ('/' :: rest) = 1 ∨ initialSlashes ('/' :: rest) = 2 := by
    unfold initialSlashes
    split
    · exact Or.inr rfl
    · exact Or.inl rfl
  have hnormpath : normpath ('/' :: rest) =
      List.replicate (initialSlashes ('/' :: rest)) '/' ++ join (rootedComps ('/' :: rest)) := by
    unfold normpath
    rcases hslashes with hslashes | hslashes
    all_goals
      rw [hslashes]
      rfl
  have hcomps := foldl_splitOn_join (plain_rootedComps ('/' :: rest)) []
  have hone : rootedComps ('/' :: join (rootedComps ('/' :: rest))) = rootedComps ('/' :: rest) :=
    (rootedComps_append [] _).trans hcomps
  rw [hnormpath]
  rcases hslashes with hslashes | hslashes
  · rw [hslashes]
    exact hone
  · rw [hslashes]
    exact (rootedComps_append ['/'] _).trans hcomps

theorem inside_normpath_iff {dir path : List Char} (h : isabs path = true) :
    Inside dir (normpath path) ↔ Inside dir path := by
  unfold Inside
  rw [rootedComps_normpath h]
  simp [h, isabs_normpath_of_isabs h]

/-- A normalised relative path that does not start with `..` stays inside the directory that it is joined to. -/
theorem inside_joinPath {dir path : List Char} (hdir : isabs dir = true) (habs : isabs (normpath path) = false)
    (hpar : ¬ pardir <+: normpath path) : Inside dir (joinPath dir (normpath path)) := by
  have hne : dir ≠ [] := by
    rintro rfl
    cases hdir
  refine ⟨isabs_joinPath hdir _, ?_⟩
  rw [rootedComps_joinPath hne habs]
  rcases normpath_plain habs hpar with hcur | ⟨c, comps, hjoin, hplain⟩
  · rw [hcur]
    exact List.prefix_refl _
  · rw [hjoin, foldl_splitOn_join hplain]
    exact List.prefix_append ..

theorem joinPath_of_isabs (a : List Char) {b : List Char} (h : isabs b = true) : joinPath a b = b := if_pos h

end PosixPath
