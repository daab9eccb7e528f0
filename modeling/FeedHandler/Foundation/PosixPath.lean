import Mathlib.Data.List.Basic

/-!
# POSIX paths, lexically

`normpath` drops empty components and `.`, and lets `..` take back the component before it, without a look at any
file.  What is left of a relative path are some `..` and then plain components (`normal_normComps`).
-/

namespace PosixPath

/-- `.` -/
def curdir : List Char := ['.']

/-- `..` -/
def pardir : List Char := ['.', '.']

def isabs (path : List Char) : Bool := path.head? = some '/'

/-- One round of the loop of `normpath` over the components. -/
def pushComp (rooted : Bool) (newComps : List (List Char)) (comp : List Char) : List (List Char) :=
  if comp = [] ∨ comp = curdir then
    newComps
  else if comp ≠ pardir ∨ rooted = false ∧ newComps = [] ∨ newComps.getLast? = some pardir then
    newComps ++ [comp]
  else
    newComps.dropLast

def normComps (rooted : Bool) (comps : List (List Char)) : List (List Char) := comps.foldl (pushComp rooted) []

/-- Two slashes at the start are kept, three or more are one. -/
def initialSlashes (path : List Char) : Nat :=
  if path.take 2 = ['/', '/'] ∧ path.take 3 ≠ ['/', '/', '/'] then 2
  else if isabs path then 1
  else 0

def join (comps : List (List Char)) : List Char := ['/'].intercalate comps

/-- `os.path.normpath` -/
def normpath (path : List Char) : List Char :=
  let slashes := initialSlashes path
  let norm := List.replicate slashes '/' ++ join (normComps (slashes ≠ 0) (path.splitOn '/'))
  if path = [] ∨ norm = [] then curdir else norm

example : normpath "a/./b//../c".toList = "a/c".toList := by decide

example : normpath "../a/../../b".toList = "../../b".toList := by decide

/-! ### Joining and splitting -/

theorem not_mem_of_mem_splitOn {path comp : List Char} (h : comp ∈ path.splitOn '/') : '/' ∉ comp := by
  induction path generalizing comp with
  | nil =>
    rw [List.splitOn_nil, List.mem_singleton] at h
    simp [h]
  | cons c path ih =>
    rw [List.splitOn_cons_eq_if_modifyHead] at h
    split at h
    · rw [List.mem_cons] at h
      rcases h with rfl | h
      · simp
      · exact ih h
    · rename_i hc
      cases hsplit : path.splitOn '/' with
      | nil => exact absurd hsplit (List.splitOn_ne_nil _ _)
      | cons first comps =>
        rw [hsplit] at h ih
        rw [List.modifyHead_cons, List.mem_cons] at h
        rcases h with rfl | h
        · have hfirst := ih (List.mem_cons_self ..)
          have hc' : c ≠ '/' := by simpa using hc
          simp [hfirst, hc'.symm]
        · exact ih (List.mem_cons_of_mem _ h)

theorem join_cons_cons (c d : List Char) (comps : List (List Char)) :
    join (c :: d :: comps) = c ++ '/' :: join (d :: comps) := by
  simp [join, List.intercalate]

@[simp] theorem join_singleton (c : List Char) : join [c] = c := by simp [join, List.intercalate]

theorem join_append_singleton {comps : List (List Char)} (h : comps ≠ []) (c : List Char) :
    join (comps ++ [c]) = join comps ++ '/' :: c := by
  induction comps with
  | nil => exact absurd rfl h
  | cons d comps ih =>
    cases comps with
    | nil => simp [join_cons_cons]
    | cons e comps =>
      have hrest := ih (List.cons_ne_nil _ _)
      rw [List.cons_append, List.cons_append, join_cons_cons, ← List.cons_append, hrest, join_cons_cons]
      simp

/-- Components without a slash are what their path splits into. -/
theorem splitOn_join {comps : List (List Char)} (hne : comps ≠ []) (h : ∀ c ∈ comps, '/' ∉ c) :
    (join comps).splitOn '/' = comps := List.splitOn_intercalate '/' h hne

theorem mem_join_of_mem {c : Char} {comp : List Char} {comps : List (List Char)} (hcomp : comp ∈ comps)
    (h : c ∈ comp) : c ∈ join comps := by
  induction comps with
  | nil => cases hcomp
  | cons d comps ih =>
    rw [List.mem_cons] at hcomp
    cases comps with
    | nil =>
      rcases hcomp with rfl | hcomp
      · rwa [join_singleton]
      · cases hcomp
    | cons e comps =>
      rw [join_cons_cons, List.mem_append, List.mem_cons]
      rcases hcomp with rfl | hcomp
      · exact Or.inl h
      · exact Or.inr (Or.inr (ih hcomp))

theorem of_mem_join {c : Char} {comps : List (List Char)} (h : c ∈ join comps) :
    c = '/' ∨ ∃ comp ∈ comps, c ∈ comp := by
  induction comps with
  | nil => cases h
  | cons d comps ih =>
    cases comps with
    | nil =>
      rw [join_singleton] at h
      exact Or.inr ⟨d, List.mem_cons_self .., h⟩
    | cons e comps =>
      rw [join_cons_cons, List.mem_append, List.mem_cons] at h
      rcases h with h | h | h
      · exact Or.inr ⟨d, List.mem_cons_self .., h⟩
      · exact Or.inl h
      · rcases ih h with hslash | ⟨comp, hcomp, hc⟩
        · exact Or.inl hslash
        · exact Or.inr ⟨comp, List.mem_cons_of_mem _ hcomp, hc⟩

/-- Normalising makes no component. -/
theorem mem_of_mem_normComps {rooted : Bool} {comps : List (List Char)} {comp : List Char}
    (h : comp ∈ normComps rooted comps) : comp ∈ comps := by
  have hfold : ∀ newComps, comp ∈ comps.foldl (pushComp rooted) newComps → comp ∈ newComps ∨ comp ∈ comps := by
    clear h
    induction comps with
    | nil => exact fun _ h => Or.inl h
    | cons d comps ih =>
      intro newComps h
      have hpush : comp ∈ pushComp rooted newComps d → comp ∈ newComps ∨ comp = d := by
        unfold pushComp
        split
        · exact Or.inl
        · split
          · simp
          · exact fun h => Or.inl ((List.dropLast_sublist _).subset h)
      rw [List.mem_cons]
      rcases ih _ h with h | h
      · rcases hpush h with h | h
        · exact Or.inl h
        · exact Or.inr (Or.inl h)
      · exact Or.inr (Or.inr h)
  exact (hfold [] h).resolve_left (by simp)

/-- The characters of a normalised path. -/
theorem of_mem_normpath {c : Char} {path : List Char} (h : c ∈ normpath path) : c = '/' ∨ c = '.' ∨ c ∈ path := by
  unfold normpath at h
  dsimp only at h
  split at h
  · exact Or.inr (Or.inl (List.mem_singleton.1 h))
  · rw [List.mem_append] at h
    rcases h with h | h
    · exact Or.inl (List.eq_of_mem_replicate h)
    · rcases of_mem_join h with hslash | ⟨comp, hcomp, hc⟩
      · exact Or.inl hslash
      · right
        right
        have hpath : join (path.splitOn '/') = path := List.intercalate_splitOn '/'
        rw [← hpath]
        exact mem_join_of_mem (mem_of_mem_normComps hcomp) hc

/-! ### The shape of a normalised path -/

/-- A component that `normpath` leaves as it is. -/
structure Plain (c : List Char) : Prop where
  ne_nil : c ≠ []
  ne_curdir : c ≠ curdir
  ne_pardir : c ≠ pardir
  no_slash : '/' ∉ c

/-- Some `..`, then plain components. -/
def Normal (comps : List (List Char)) : Prop :=
  ∃ k plain, comps = List.replicate k pardir ++ plain ∧ ∀ c ∈ plain, Plain c

theorem pushComp_plain (rooted : Bool) (newComps : List (List Char)) {c : List Char} (h : Plain c) :
    pushComp rooted newComps c = newComps ++ [c] := by
  unfold pushComp
  rw [if_neg (by simp [h.ne_nil, h.ne_curdir]), if_pos (Or.inl h.ne_pardir)]

theorem foldl_plain (rooted : Bool) (newComps : List (List Char)) {comps : List (List Char)}
    (h : ∀ c ∈ comps, Plain c) : comps.foldl (pushComp rooted) newComps = newComps ++ comps := by
  induction comps generalizing newComps with
  | nil => simp
  | cons c comps ih =>
    rw [List.foldl_cons, pushComp_plain _ _ (h c (List.mem_cons_self ..)),
      ih _ fun d hd => h d (List.mem_cons_of_mem _ hd), List.append_assoc]
    rfl

theorem Normal.pushComp {newComps : List (List Char)} (h : Normal newComps) {comp : List Char} (hslash : '/' ∉ comp) :
    Normal (pushComp false newComps comp) := by
  obtain ⟨k, plain, rfl, hplain⟩ := h
  unfold PosixPath.pushComp
  split
  · exact ⟨k, plain, rfl, hplain⟩
  · rename_i hdot
    push Not at hdot
    by_cases hpar : comp = pardir
    · -- `..` goes behind another `..` or takes a plain component back
      rcases List.eq_nil_or_concat plain with rfl | ⟨init, last, rfl⟩
      · refine ⟨k + 1, [], ?_, fun c hc => by cases hc⟩
        rw [if_pos, List.append_nil, List.append_nil, List.replicate_succ', hpar]
        cases k with
        | zero => exact Or.inr (Or.inl ⟨rfl, rfl⟩)
        | succ k =>
          right
          right
          rw [List.append_nil, List.replicate_succ', List.getLast?_append, List.getLast?_singleton]
          rfl
      · rw [List.concat_eq_append] at hplain ⊢
        have hlast := hplain last (by simp)
        rw [if_neg]
        · refine ⟨k, init, ?_, fun c hc => hplain c (List.mem_append_left _ hc)⟩
          rw [← List.append_assoc, List.dropLast_concat]
        · rw [← List.append_assoc, List.getLast?_concat]
          simp [hpar, hlast.ne_pardir]
    · rw [if_pos (Or.inl hpar)]
      refine ⟨k, plain ++ [comp], by rw [List.append_assoc], fun c hc => ?_⟩
      rw [List.mem_append, List.mem_singleton] at hc
      rcases hc with hc | rfl
      · exact hplain c hc
      · exact ⟨hdot.1, hdot.2, hpar, hslash⟩

/-- The components of a relative path, normalised. -/
theorem normal_normComps {comps : List (List Char)} (h : ∀ c ∈ comps, '/' ∉ c) : Normal (normComps false comps) := by
  have hfold : ∀ newComps, Normal newComps → Normal (comps.foldl (pushComp false) newComps) := by
    induction comps with
    | nil => exact fun _ hnormal => hnormal
    | cons c comps ih =>
      intro newComps hnormal
      exact ih (fun d hd => h d (List.mem_cons_of_mem _ hd)) _ (hnormal.pushComp (h c (List.mem_cons_self ..)))
  exact hfold [] ⟨0, [], rfl, fun c hc => by cases hc⟩

theorem Normal.no_slash {comps : List (List Char)} (h : Normal comps) : ∀ c ∈ comps, '/' ∉ c := by
  obtain ⟨k, plain, rfl, hplain⟩ := h
  intro c hc
  rw [List.mem_append] at hc
  rcases hc with hc | hc
  · rw [List.eq_of_mem_replicate hc]
    decide
  · exact (hplain c hc).no_slash

theorem Normal.ne_nil {comps : List (List Char)} (h : Normal comps) : ∀ c ∈ comps, c ≠ [] := by
  obtain ⟨k, plain, rfl, hplain⟩ := h
  intro c hc
  rw [List.mem_append] at hc
  rcases hc with hc | hc
  · rw [List.eq_of_mem_replicate hc]
    decide
  · exact (hplain c hc).ne_nil

/-- The components of a path, normalised as those of a relative one. -/
def relComps (path : List Char) : List (List Char) := normComps false (path.splitOn '/')

theorem normal_relComps (path : List Char) : Normal (relComps path) :=
  normal_normComps fun _ hc => not_mem_of_mem_splitOn hc

/-- The first character of a path is that of its first component. -/
theorem head?_join {c : List Char} (h : c ≠ []) (comps : List (List Char)) :
    (join (c :: comps)).head? = c.head? := by
  cases comps with
  | nil => rw [join_singleton]
  | cons d comps =>
    rw [join_cons_cons]
    cases c with
    | nil => exact absurd rfl h
    | cons x c => rfl

theorem normpath_of_relative {path : List Char} (h : isabs path = false) :
    normpath path = if relComps path = [] then curdir else join (relComps path) := by
  have hslashes : initialSlashes path = 0 := by
    unfold initialSlashes
    rw [if_neg, h]
    · rfl
    · rintro ⟨htwo, -⟩
      cases path with
      | nil => cases htwo
      | cons c path =>
        obtain ⟨rfl, -⟩ := List.cons.inj htwo
        cases h
  have hnil : join (relComps path) = [] ↔ relComps path = [] := by
    constructor
    · intro hjoin
      cases hcomps : relComps path with
      | nil => rfl
      | cons c comps =>
        have hne := (normal_relComps path).ne_nil c (by simp [hcomps])
        have hhead := head?_join hne comps
        rw [hcomps] at hjoin
        rw [hjoin] at hhead
        exact absurd (List.head?_eq_none_iff.1 hhead.symm) hne
    · intro hcomps
      rw [hcomps]
      rfl
  unfold normpath
  rw [hslashes]
  dsimp only
  rw [List.replicate_zero, List.nil_append]
  show (if path = [] ∨ join (relComps path) = [] then curdir else join (relComps path)) = _
  simp only [hnil]
  by_cases hpath : path = []
  · subst hpath
    rfl
  · simp [hpath]

/-- Normalising keeps a path relative. -/
theorem isabs_normpath {path : List Char} (h : isabs path = false) : isabs (normpath path) = false := by
  rw [normpath_of_relative h]
  split
  · rfl
  · rename_i hne
    obtain ⟨c, comps, hcomps⟩ := List.exists_cons_of_ne_nil hne
    have hnormal := normal_relComps path
    have hc := hnormal.ne_nil c (by simp [hcomps])
    have hslash := hnormal.no_slash c (by simp [hcomps])
    rw [hcomps]
    unfold isabs
    rw [head?_join hc]
    cases c with
    | nil => exact absurd rfl hc
    | cons x c =>
      have hx : x ≠ '/' := by
        rintro rfl
        simp at hslash
      simpa using hx

theorem isabs_normpath_of_isabs {path : List Char} (h : isabs path = true) : isabs (normpath path) = true := by
  cases path with
  | nil => cases h
  | cons c path =>
    obtain rfl : c = '/' := by simpa [isabs] using h
    have hpos : ∃ n, initialSlashes ('/' :: path) = n + 1 := by
      unfold initialSlashes
      split
      · exact ⟨1, rfl⟩
      · exact ⟨0, rfl⟩
    obtain ⟨n, hn⟩ := hpos
    unfold normpath
    rw [hn]
    rfl

/-! ### Paths that lead out -/

/-- The path is absolute, or it leads out of the directory it starts in. -/
def Escapes (path : List Char) : Prop :=
  isabs path = true ∨ ((normpath path).splitOn '/').head? = some pardir

instance (path : List Char) : Decidable (Escapes path) := inferInstanceAs (Decidable (_ ∨ _))

theorem escapes_iff {path : List Char} (h : isabs path = false) :
    Escapes path ↔ (relComps path).head? = some pardir := by
  unfold Escapes
  rw [h, normpath_of_relative h]
  split
  · rename_i hnil
    rw [hnil]
    decide
  · rename_i hne
    rw [splitOn_join hne (normal_relComps path).no_slash]
    simp

/-- A single component leads out when it is `..`. -/
theorem head?_normComps_singleton (c : List Char) : (normComps false [c]).head? = some pardir ↔ c = pardir := by
  show (pushComp false [] c).head? = some pardir ↔ c = pardir
  unfold pushComp
  split
  · rename_i hdot
    refine iff_of_false (by simp) ?_
    rintro rfl
    revert hdot
    decide
  · rw [if_pos (Or.inr (Or.inl ⟨rfl, rfl⟩))]
    simp

theorem head?_pushComp (c : List Char) (newComps : List (List Char)) (comp : List Char) :
    (pushComp false (c :: newComps) comp).head? = some pardir ↔ c = pardir := by
  unfold pushComp
  split
  · simp
  · split
    · simp
    · rename_i hpop
      push Not at hpop
      cases newComps with
      | nil =>
        have hc : c ≠ pardir := by simpa using hpop.2.2
        simp [hc]
      | cons d newComps => simp

/-- The first component stays the first one, if any is left. -/
theorem eq_of_pushComp {c d comp : List Char} {newComps rest : List (List Char)}
    (h : pushComp false (c :: newComps) comp = d :: rest) : c = d := by
  unfold pushComp at h
  split at h
  · exact (List.cons.inj h).1
  · split at h
    · exact (List.cons.inj h).1
    · cases newComps with
      | nil => cases h
      | cons e newComps => exact (List.cons.inj h).1

/-- Of a path whose inner components are plain, the first one leads out, or the last one when no other is left. -/
theorem head?_normComps {first last : List Char} {mid : List (List Char)} (hmid : ∀ c ∈ mid, Plain c) :
    (normComps false (first :: (mid ++ [last]))).head? = some pardir ↔
      first = pardir ∨ (first = [] ∨ first = curdir) ∧ mid = [] ∧ last = pardir := by
  have hfold : normComps false (first :: (mid ++ [last])) = pushComp false (pushComp false [] first ++ mid) last := by
    unfold normComps
    rw [List.foldl_cons, List.foldl_append, foldl_plain _ _ hmid]
    rfl
  rw [hfold]
  by_cases hdot : first = [] ∨ first = curdir
  · have hpush : pushComp false [] first = [] := if_pos hdot
    have hpar : first ≠ pardir := by
      rintro rfl
      revert hdot
      decide
    rw [hpush, List.nil_append]
    cases mid with
    | nil =>
      have hlast : (pushComp false [] last).head? = some pardir ↔ last = pardir := head?_normComps_singleton last
      simpa [hdot, hpar] using hlast
    | cons c mid =>
      have hc := (hmid c (List.mem_cons_self ..)).ne_pardir
      rw [head?_pushComp]
      simp [hc, hpar]
  · have hpush : pushComp false [] first = [first] := by
      unfold pushComp
      rw [if_neg hdot, if_pos (Or.inr (Or.inl ⟨rfl, rfl⟩))]
      rfl
    rw [hpush, List.singleton_append, head?_pushComp]
    simp [hdot]

/-! ### Paths that do not start with `..` -/

theorem pardir_prefix_join {c : List Char} (h : c ≠ []) (comps : List (List Char)) :
    pardir <+: join (c :: comps) ↔ pardir <+: c := by
  cases comps with
  | nil => rw [join_singleton]
  | cons d comps =>
    rw [join_cons_cons]
    match c with
    | [] => exact absurd rfl h
    | [x] => simp [pardir]
    | x :: y :: c => simp [pardir]

/-- A normalised path that is neither absolute nor starts with `..` is `.` or made of plain components. -/
theorem normpath_plain {path : List Char} (habs : isabs (normpath path) = false) (hpar : ¬ pardir <+: normpath path) :
    normpath path = curdir ∨ ∃ c comps, normpath path = join (c :: comps) ∧ ∀ d ∈ c :: comps, Plain d := by
  have hrel : isabs path = false := by
    by_contra h
    rw [isabs_normpath_of_isabs (by simpa using h)] at habs
    cases habs
  rw [normpath_of_relative hrel] at hpar ⊢
  split at hpar
  · rename_i hnil
    exact Or.inl (if_pos hnil)
  · rename_i hne
    rw [if_neg hne]
    obtain ⟨k, plain, hcomps, hplain⟩ := normal_relComps path
    cases k with
    | zero =>
      rw [List.replicate_zero, List.nil_append] at hcomps
      rw [hcomps] at hne ⊢
      obtain ⟨c, comps, rfl⟩ := List.exists_cons_of_ne_nil hne
      exact Or.inr ⟨c, comps, rfl, hplain⟩
    | succ k =>
      rw [hcomps, List.replicate_succ, List.cons_append, pardir_prefix_join (by decide)] at hpar
      exact absurd (List.prefix_refl pardir) hpar

/-- The components of the start of a path. -/
theorem splitOn_of_prefix {comps : List (List Char)} (hne : comps ≠ []) (hslash : ∀ c ∈ comps, '/' ∉ c)
    {path : List Char} (h : path <+: join comps) :
    ∃ whole part, path.splitOn '/' = whole ++ [part] ∧ whole <+: comps := by
  induction comps generalizing path with
  | nil => exact absurd rfl hne
  | cons c comps ih =>
    have hc := hslash c (List.mem_cons_self ..)
    have hsingle : path <+: c → ∃ whole part, path.splitOn '/' = whole ++ [part] ∧ whole <+: c :: comps := by
      intro hpath
      refine ⟨[], path, ?_, List.nil_prefix⟩
      rw [List.splitOn_eq_singleton fun hmem => hc (hpath.subset hmem)]
      rfl
    cases comps with
    | nil =>
      rw [join_singleton] at h
      exact hsingle h
    | cons d comps =>
      rw [join_cons_cons] at h
      rcases Nat.le_total path.length c.length with hle | hle
      · exact hsingle (List.prefix_of_prefix_length_le h (List.prefix_append ..) hle)
      · obtain ⟨q, rfl⟩ := List.prefix_of_prefix_length_le (List.prefix_append ..) h hle
        rw [List.prefix_append_right_inj, List.prefix_cons_iff] at h
        rcases h with rfl | ⟨t, rfl, ht⟩
        · exact hsingle (by simp)
        · obtain ⟨whole, part, hsplit, hwhole⟩ := ih (List.cons_ne_nil _ _)
            (fun e he => hslash e (List.mem_cons_of_mem _ he)) ht
          refine ⟨c :: whole, part, ?_, List.cons_prefix_cons.2 ⟨rfl, hwhole⟩⟩
          rw [List.splitOn_append_cons_self_of_not_mem hc, hsplit]
          rfl

/-- When all components but the last are plain, normalising makes no `..` at the start. -/
theorem not_pardir_prefix_normpath {path : List Char} {whole : List (List Char)} {part : List Char}
    (hsplit : path.splitOn '/' = whole ++ [part]) (hplain : ∀ c ∈ whole, Plain c) (habs : isabs path = false)
    (hpar : ¬ pardir <+: path) : ¬ pardir <+: normpath path := by
  have hjoin : path = join (whole ++ [part]) := by
    rw [← hsplit]
    exact (List.intercalate_splitOn '/').symm
  have hcomps : relComps path = pushComp false whole part := by
    unfold relComps normComps
    rw [hsplit, List.foldl_append, foldl_plain _ _ hplain]
    rfl
  rw [normpath_of_relative habs]
  split
  · decide
  · rename_i hne
    obtain ⟨c, comps, hcons⟩ := List.exists_cons_of_ne_nil hne
    have hc := (normal_relComps path).ne_nil c (by simp [hcons])
    rw [hcons, pardir_prefix_join hc]
    intro hprefix
    rw [hcons] at hcomps
    cases whole with
    | nil =>
      unfold pushComp at hcomps
      split at hcomps
      · cases hcomps
      · rw [if_pos (Or.inr (Or.inl ⟨rfl, rfl⟩))] at hcomps
        obtain ⟨rfl, -⟩ := List.cons.inj hcomps
        rw [hjoin] at hpar
        exact hpar (by simpa using hprefix)
    | cons first whole =>
      obtain rfl := eq_of_pushComp hcomps.symm
      rw [hjoin, List.cons_append, pardir_prefix_join hc] at hpar
      exact hpar hprefix

end PosixPath
