import Mathlib.Data.List.Sort

/-!
# Lists in strict order of a key

A list sorted by a key is determined by its elements, and holds at most one element of each key.  Its elements
are split as `A ++ x :: B` around a position; taking out, replacing and inserting at that position keep the order.
A sorted list whose elements come first in another one is a prefix of it (`Sorted.eq_take`).
-/

namespace SortedList

variable {α κ : Type*} [LinearOrder κ] {key : α → κ} {l A B : List α} {x y : α}

/-- Strictly increasing by a key. -/
def Sorted (key : α → κ) (l : List α) : Prop := l.Pairwise fun a b => key a < key b

namespace Sorted

theorem nil : Sorted key [] := List.Pairwise.nil

theorem head_lt (h : Sorted key (x :: l)) (hy : y ∈ l) : key x < key y := (List.pairwise_cons.1 h).1 y hy

theorem head_le (h : Sorted key (x :: l)) (hy : y ∈ x :: l) : key x ≤ key y := by
  rcases List.mem_cons.1 hy with rfl | hy
  · exact le_refl _
  · exact (h.head_lt hy).le

theorem lt_last (h : Sorted key (l ++ [x])) (hy : y ∈ l) : key y < key x :=
  (List.pairwise_append.1 h).2.2 y hy x (by simp)

theorem lt_of_last_lt (h : Sorted key (l ++ [x])) (hxy : key x < key y) : ∀ a ∈ l ++ [x], key a < key y := by
  intro a ha
  rcases List.mem_append.1 ha with ha | ha
  · exact (h.lt_last ha).trans hxy
  · rwa [List.mem_singleton.1 ha]

theorem lt_of_mem_left (h : Sorted key (A ++ x :: B)) (hy : y ∈ A) : key y < key x :=
  (List.pairwise_append.1 h).2.2 y hy x (by simp)

theorem lt_of_mem_right (h : Sorted key (A ++ x :: B)) (hy : y ∈ B) : key x < key y :=
  (List.pairwise_cons.1 (List.pairwise_append.1 h).2.1).1 y hy

/-- A key occurs at most once. -/
theorem inj (h : Sorted key l) (hx : x ∈ l) (hy : y ∈ l) (hkey : key x = key y) : x = y := by
  obtain ⟨A, B, rfl⟩ := List.append_of_mem hx
  rcases List.mem_append.1 hy with hy | hy
  · exact absurd hkey (h.lt_of_mem_left hy).ne'
  · rcases List.mem_cons.1 hy with rfl | hy
    · rfl
    · exact absurd hkey (h.lt_of_mem_right hy).ne

theorem erase (h : Sorted key (A ++ x :: B)) : Sorted key (A ++ B) :=
  h.sublist ((List.sublist_cons_self x B).append_left A)

theorem insert (h : Sorted key (A ++ B)) (hA : ∀ a ∈ A, key a < key x) (hB : ∀ b ∈ B, key x < key b) :
    Sorted key (A ++ x :: B) := by
  obtain ⟨h1, h2, h3⟩ := List.pairwise_append.1 h
  refine List.pairwise_append.2 ⟨h1, List.pairwise_cons.2 ⟨hB, h2⟩, fun a ha b hb => ?_⟩
  rcases List.mem_cons.1 hb with rfl | hb
  · exact hA a ha
  · exact h3 a ha b hb

theorem replace (h : Sorted key (A ++ x :: B)) (hkey : key y = key x) : Sorted key (A ++ y :: B) :=
  h.erase.insert (fun _ ha => hkey ▸ h.lt_of_mem_left ha) (fun _ hb => hkey ▸ h.lt_of_mem_right hb)

/-- What is left when the element with the key of `x` goes. -/
theorem mem_erase (h : Sorted key (A ++ x :: B)) : y ∈ A ++ B ↔ y ∈ A ++ x :: B ∧ key y ≠ key x := by
  constructor
  · intro hy
    refine ⟨by simp only [List.mem_append, List.mem_cons] at hy ⊢; tauto, ?_⟩
    rcases List.mem_append.1 hy with hy | hy
    · exact (h.lt_of_mem_left hy).ne
    · exact (h.lt_of_mem_right hy).ne'
  · rintro ⟨hy, hne⟩
    simp only [List.mem_append, List.mem_cons] at hy ⊢
    rcases hy with hy | rfl | hy
    · exact Or.inl hy
    · exact absurd rfl hne
    · exact Or.inr hy

/-- A sorted list `l` whose elements lie in the sorted list `m`, where an element of `m` is left out only when `l`
has length `n` and comes before it altogether, consists of the first `n` elements of `m`. -/
theorem eq_take {m : List α} {n : Nat} (h : Sorted key l) (hm : Sorted key m) (hn : l.length ≤ n)
    (hsub : ∀ a ∈ l, a ∈ m) (hrest : ∀ b ∈ m, b ∉ l → l.length = n ∧ ∀ a ∈ l, key a < key b) : l = m.take n := by
  induction l generalizing m n with
  | nil =>
    cases m with
    | nil => simp
    | cons b m =>
      obtain ⟨hlen, -⟩ := hrest b (by simp) (by simp)
      simp [← hlen]
  | cons a l ih =>
    cases m with
    | nil => exact absurd (hsub a (by simp)) (by simp)
    | cons b m =>
      obtain ⟨hal, hl⟩ := List.pairwise_cons.1 h
      obtain ⟨hbm, hm'⟩ := List.pairwise_cons.1 hm
      have hab : a = b := by
        -- `a` lies in the tail of `m` otherwise, and then `b` is not in `l`
        rcases List.mem_cons.1 (hsub a (by simp)) with hab | ham
        · exact hab
        · have hba := hbm a ham
          by_cases hbl : b ∈ a :: l
          · exact absurd (Sorted.head_le h hbl) (not_le.2 hba)
          · exact absurd ((hrest b (by simp) hbl).2 a (by simp)) (not_lt.2 hba.le)
      subst hab
      cases n with
      | zero => simp at hn
      | succ n =>
        rw [List.take_succ_cons, ← ih hl hm' (by simpa using hn)]
        · intro c hc
          rcases List.mem_cons.1 (hsub c (by simp [hc])) with rfl | hcm
          · exact absurd (hal c hc) (lt_irrefl _)
          · exact hcm
        · intro c hc hcl
          have hca : c ≠ a := by
            rintro rfl
            exact absurd (hbm c hc) (lt_irrefl _)
          obtain ⟨hlen, hlt⟩ := hrest c (by simp [hc]) (by simp [hca, hcl])
          exact ⟨by simpa using hlen, fun d hd => hlt d (by simp [hd])⟩

end Sorted

/-! ### Inserting by a key -/

/-- Puts an element in front of the first one whose key is not below its own. -/
def insertBy (key : α → κ) (x : α) (l : List α) : List α := l.orderedInsert (fun a b => key a ≤ key b) x

theorem insertBy_cons : insertBy key x (y :: l) = if key x ≤ key y then x :: y :: l else y :: insertBy key x l := rfl

@[simp] theorem mem_insertBy : y ∈ insertBy key x l ↔ y = x ∨ y ∈ l := List.mem_orderedInsert _

@[simp] theorem length_insertBy : (insertBy key x l).length = l.length + 1 := List.orderedInsert_length _ _ _

theorem insertBy_append (hA : ∀ a ∈ A, key a < key x) (hB : ∀ b ∈ B, key x < key b) :
    insertBy key x (A ++ B) = A ++ x :: B := by
  induction A with
  | nil =>
    cases B with
    | nil => rfl
    | cons b B => exact if_pos (hB b (by simp)).le
  | cons a A ih =>
    have hrest := ih fun c hc => hA c (by simp [hc])
    rw [List.cons_append, insertBy_cons, if_neg (not_le.2 (hA a (by simp))), hrest, List.cons_append]

/-- An element behind all of a list goes to its end. -/
theorem insertBy_of_lt (hl : ∀ a ∈ l, key a < key x) : insertBy key x l = l ++ [x] := by
  have := insertBy_append (B := []) hl (by simp)
  simpa using this

/-- An element goes in front of a last one with a greater key. -/
theorem insertBy_append_singleton (hxy : key x < key y) :
    insertBy key x (l ++ [y]) = insertBy key x l ++ [y] := by
  induction l with
  | nil => exact if_pos hxy.le
  | cons a l ih =>
    rw [List.cons_append, insertBy_cons, insertBy_cons, ih]
    split <;> rfl

/-- What is behind all of a list is cut off again. -/
theorem take_insertBy_of_lt {n : Nat} (hl : ∀ a ∈ l, key a < key x) (hn : l.length = n) :
    (insertBy key x l).take n = l := by
  rw [insertBy_of_lt hl, List.take_left' hn]

/-- The last element of a list is cut off when one is inserted in front of it. -/
theorem take_insertBy_append_singleton {n : Nat} (hxy : key x < key y) (hn : l.length + 1 = n) :
    (insertBy key x (l ++ [y])).take n = insertBy key x l := by
  have hlen : (insertBy key x l).length = n := by rw [length_insertBy, hn]
  rw [insertBy_append_singleton hxy, List.take_left' hlen]

theorem Sorted.insertBy (h : Sorted key l) (hne : ∀ a ∈ l, key a ≠ key x) : Sorted key (insertBy key x l) := by
  induction l with
  | nil => exact List.pairwise_singleton _ _
  | cons a l ih =>
    obtain ⟨hal, hl⟩ := List.pairwise_cons.1 h
    rw [insertBy_cons]
    rcases (hne a (by simp)).lt_or_gt with hax | hxa
    · rw [if_neg (not_le.2 hax)]
      refine List.pairwise_cons.2 ⟨fun b hb => ?_, ih hl fun b hb => hne b (by simp [hb])⟩
      rcases mem_insertBy.1 hb with rfl | hb
      · exact hax
      · exact hal b hb
    · rw [if_pos hxa.le]
      exact List.pairwise_cons.2 ⟨fun b hb => hxa.trans_le (h.head_le hb), h⟩

/-- Inserting into a sorted list and cutting off what is behind the first `n` elements keeps the other elements, save
the last one of a list that has `n` already. -/
theorem Sorted.mem_take_insertBy {n : Nat} (h : Sorted key l) (hne : ∀ a ∈ l, key a ≠ key x) (hn : l.length ≤ n)
    (hyx : y ≠ x) :
    (y ∈ (SortedList.insertBy key x l).take n ↔ y ∈ l) ∨
      l.length = n ∧ l.getLast? = some y ∧ y ∉ (SortedList.insertBy key x l).take n := by
  rcases hn.lt_or_eq with hroom | hfull
  · -- nothing is cut off
    have hall : (SortedList.insertBy key x l).length ≤ n := by
      rw [length_insertBy]
      omega
    rw [List.take_of_length_le hall, mem_insertBy]
    exact Or.inl (or_iff_right hyx)
  · rcases List.eq_nil_or_concat l with rfl | ⟨L, w, hl⟩
    · subst hfull
      exact Or.inl Iff.rfl
    · rw [List.concat_eq_append] at hl
      subst hl
      rcases (hne w (by simp)).lt_or_gt with hlast | hlast
      · rw [take_insertBy_of_lt (h.lt_of_last_lt hlast) hfull]
        exact Or.inl Iff.rfl
      · have hL : L.length + 1 = n := by simpa using hfull
        have hw : w ∉ L := fun hw => absurd (h.lt_last hw) (lt_irrefl _)
        rw [take_insertBy_append_singleton hlast hL, mem_insertBy, or_iff_right hyx]
        by_cases hyw : y = w
        · subst hyw
          exact Or.inr ⟨hfull, by simp, hw⟩
        · exact Or.inl (by simp [hyw])

/-! ### Sorting by a key -/

/-- The elements of a list in the order of their keys. -/
def sortBy (key : α → κ) (l : List α) : List α := l.insertionSort fun a b => key a ≤ key b

@[simp] theorem mem_sortBy : x ∈ sortBy key l ↔ x ∈ l := List.mem_insertionSort _

/-- A list without two elements of one key is put in strict order. -/
theorem sorted_sortBy (hkey : ∀ a ∈ l, ∀ b ∈ l, key a = key b → a = b) (hl : l.Nodup) : Sorted key (sortBy key l) := by
  have : Std.Total fun a b : α => key a ≤ key b := ⟨fun a b => le_total (key a) (key b)⟩
  have : IsTrans α fun a b => key a ≤ key b := ⟨fun _ _ _ hab hbc => hab.trans hbc⟩
  have hle : (sortBy key l).Pairwise fun a b => key a ≤ key b := List.pairwise_insertionSort _ l
  have hnodup : (sortBy key l).Nodup := (List.perm_insertionSort _ l).nodup_iff.2 hl
  refine (hle.and hnodup).imp_of_mem fun {a b} ha hb hab => ?_
  exact lt_of_le_of_ne hab.1 fun heq => hab.2 (hkey a (mem_sortBy.1 ha) b (mem_sortBy.1 hb) heq)

end SortedList
