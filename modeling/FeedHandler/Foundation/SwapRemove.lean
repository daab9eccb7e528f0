import Mathlib.Data.List.Induction
import Mathlib.Data.List.Nodup
import Mathlib.Data.List.Perm.Basic

/-!
# Removal by the last element

An element of a vector is removed by moving the last one into its place.  The order of the others is lost, the
elements are kept (`swapRemove_perm`).
-/

namespace SwapRemove

variable {α : Type*}

/-- `v[idx] = v.back(); v.pop_back();` -/
def swapRemove (l : List α) (idx : Nat) : List α :=
  match l.getLast? with
  | none => []
  | some last => (l.set idx last).dropLast

theorem swapRemove_concat (init : List α) (last : α) (idx : Nat) :
    swapRemove (init ++ [last]) idx = if idx < init.length then init.set idx last else init := by
  unfold swapRemove
  simp only [List.getLast?_append, List.getLast?_singleton, Option.some_or]
  split
  · rename_i h
    rw [List.set_append_left _ _ h, List.dropLast_concat]
  · rename_i h
    rw [List.set_append_right _ _ (Nat.le_of_not_lt h)]
    cases hd : idx - init.length with
    | zero => simp
    | succ d => simp

theorem swapRemove_perm {l : List α} {idx : Nat} (h : idx < l.length) : (swapRemove l idx).Perm (l.eraseIdx idx) := by
  induction l using List.reverseRecOn with
  | nil => cases h
  | append_singleton init last _ =>
    rw [List.length_append, List.length_singleton] at h
    rw [swapRemove_concat]
    split
    · rename_i hlt
      have herase : (init ++ [last]).eraseIdx idx = init.eraseIdx idx ++ [last] :=
        List.eraseIdx_append_of_lt_length hlt _
      rw [herase]
      exact (List.set_perm_cons_eraseIdx hlt last).trans (List.perm_append_singleton last _).symm
    · rename_i hge
      obtain rfl : idx = init.length := by omega
      simp [List.eraseIdx_append_of_length_le]

/-- Without repetitions, exactly the element at the index is gone. -/
theorem mem_swapRemove [DecidableEq α] {l : List α} (hl : l.Nodup) {idx : Nat} (h : idx < l.length) {x : α} :
    x ∈ swapRemove l idx ↔ x ∈ l ∧ x ≠ l[idx] := by
  rw [(swapRemove_perm h).mem_iff, ← hl.erase_getElem idx h, hl.mem_erase_iff]
  exact and_comm

theorem nodup_swapRemove {l : List α} (hl : l.Nodup) {idx : Nat} (h : idx < l.length) : (swapRemove l idx).Nodup :=
  (swapRemove_perm h).nodup_iff.2 (hl.sublist (List.eraseIdx_sublist l idx))

end SwapRemove
