import Mathlib.Logic.Function.Basic

/-!
# Writing a slot of a vector
-/

namespace VectorSlots

variable {α : Type*} {n : Nat}

theorem get_set (v : Vector α n) (i j : Fin n) (a : α) :
    (v.setIfInBounds i a).get j = if i = j then a else v.get j := by
  show (v.setIfInBounds i a)[j.val] = if i = j then a else v[j.val]
  simp only [Vector.getElem_setIfInBounds, Fin.ext_iff]

/-- A slot written with what it holds. -/
theorem set_get (v : Vector α n) (i : Fin n) : v.setIfInBounds i (v.get i) = v := by
  ext j hj
  rw [Vector.getElem_setIfInBounds]
  split
  · rename_i hij
    subst hij
    rfl
  · rfl

theorem get_set_eq_update (v : Vector α n) (i : Fin n) (a : α) :
    (v.setIfInBounds i a).get = Function.update v.get i a := by
  funext j
  rw [get_set, Function.update_apply]
  simp only [eq_comm]

end VectorSlots
