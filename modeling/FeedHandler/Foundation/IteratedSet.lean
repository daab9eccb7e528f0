import Mathlib.Data.List.Basic
import Mathlib.Data.List.Perm.Basic
import Mathlib.Data.List.Nodup

/-!
# Sets with an order of iteration

A hash set is iterated in an order that stays as long as the set does, and may be any other once the set has changed.
So after a sequence of additions and removals that change nothing the order is the old one, and after any other it is an
arbitrary order of the members (`changes_iff`).
-/

universe u

/-- A set as it is iterated. -/
structure IteratedSet (α : Type u) where
  order : List α
  nodup : order.Nodup

namespace IteratedSet

inductive Change (α : Type u) where
  | add (x : α)
  | discard (x : α)

variable {α : Type u} [DecidableEq α]

/-- The members after a change, in one of their orders. -/
def Change.apply : Change α → List α → List α
  | .add x, members => members.insert x
  | .discard x, members => members.erase x

/-- A change that does nothing keeps the order. -/
def Step (s : IteratedSet α) (change : Change α) (t : IteratedSet α) : Prop :=
  if change.apply s.order = s.order then t = s else t.order.Perm (change.apply s.order)

/-- The sets that a sequence of changes can lead to. -/
def Changes (s : IteratedSet α) : List (Change α) → IteratedSet α → Prop
  | [], t => t = s
  | change :: changes, t => ∃ mid, s.Step change mid ∧ mid.Changes changes t

/-- The members after a sequence of changes, in one of their orders. -/
def members (changes : List (Change α)) (l : List α) : List α := changes.foldl (fun l change => change.apply l) l

/-- Not all of the changes do nothing. -/
def Changed : List (Change α) → List α → Prop
  | [], _ => False
  | change :: changes, l => change.apply l ≠ l ∨ Changed changes (change.apply l)

instance decidableChanged : (changes : List (Change α)) → (l : List α) → Decidable (Changed changes l)
  | [], _ => isFalse id
  | change :: changes, l =>
    have := decidableChanged changes (change.apply l)
    inferInstanceAs (Decidable (change.apply l ≠ l ∨ Changed changes (change.apply l)))

variable {s t : IteratedSet α} {change : Change α} {changes : List (Change α)} {l l₁ l₂ : List α} {x y : α}

@[simp] theorem members_nil (l : List α) : members [] l = l := rfl

@[simp] theorem members_cons (change : Change α) (changes : List (Change α)) (l : List α) :
    members (change :: changes) l = members changes (change.apply l) := rfl

theorem add_apply_eq_self : (Change.add x).apply l = l ↔ x ∈ l := by
  constructor
  · intro h
    rw [← h]
    exact List.mem_insert_self
  · exact List.insert_of_mem

theorem discard_apply_eq_self : (Change.discard x).apply l = l ↔ x ∉ l := List.erase_eq_self_iff

theorem Change.apply_perm (change : Change α) (h : l₁.Perm l₂) : (change.apply l₁).Perm (change.apply l₂) := by
  cases change with
  | add x => exact h.insert x
  | discard x => exact h.erase x

theorem Change.apply_nodup (change : Change α) (h : l.Nodup) : (change.apply l).Nodup := by
  cases change with
  | add x => exact h.insert
  | discard x => exact h.erase x

/-- Whether a change does nothing is a matter of the members. -/
theorem apply_eq_self_congr (h : l₁.Perm l₂) : change.apply l₁ = l₁ ↔ change.apply l₂ = l₂ := by
  cases change with
  | add x => rw [add_apply_eq_self, add_apply_eq_self, h.mem_iff]
  | discard x => rw [discard_apply_eq_self, discard_apply_eq_self, h.mem_iff]

theorem members_perm (changes : List (Change α)) (h : l₁.Perm l₂) : (members changes l₁).Perm (members changes l₂) := by
  induction changes generalizing l₁ l₂ with
  | nil => exact h
  | cons change changes ih => exact ih (change.apply_perm h)

theorem members_nodup (changes : List (Change α)) (h : l.Nodup) : (members changes l).Nodup := by
  induction changes generalizing l with
  | nil => exact h
  | cons change changes ih => exact ih (change.apply_nodup h)

theorem changed_congr (h : l₁.Perm l₂) : Changed changes l₁ ↔ Changed changes l₂ := by
  induction changes generalizing l₁ l₂ with
  | nil => exact Iff.rfl
  | cons change changes ih =>
    have hhead : change.apply l₁ = l₁ ↔ change.apply l₂ = l₂ := apply_eq_self_congr h
    exact or_congr (not_congr hhead) (ih (change.apply_perm h))

theorem members_of_not_changed (h : ¬Changed changes l) : members changes l = l := by
  induction changes with
  | nil => rfl
  | cons change changes ih =>
    rw [Changed, not_or, not_ne_iff] at h
    obtain ⟨hsame, hrest⟩ := h
    rw [hsame] at hrest
    rw [members_cons, hsame, ih hrest]

theorem Changes.perm (h : s.Changes changes t) : t.order.Perm (members changes s.order) := by
  induction changes generalizing s with
  | nil =>
    have heq : t = s := h
    rw [heq, members_nil]
  | cons change changes ih =>
    obtain ⟨mid, hstep, hrest⟩ := h
    unfold Step at hstep
    rw [members_cons]
    refine (ih hrest).trans (members_perm changes ?_)
    split at hstep
    · rename_i hsame
      rw [hstep, hsame]
    · exact hstep

/-- Once a change has done something every order is possible, and it stays possible to the end. -/
theorem changes_iff :
    s.Changes changes t ↔ if Changed changes s.order then t.order.Perm (members changes s.order) else t = s := by
  induction changes generalizing s with
  | nil => rw [if_neg (show ¬Changed [] s.order from id), Changes]
  | cons change changes ih =>
    by_cases hsame : change.apply s.order = s.order
    · have hmid : s.Changes (change :: changes) t ↔ s.Changes changes t := by simp [Changes, Step, hsame]
      rw [hmid, ih, members_cons, hsame]
      simp [Changed, hsame]
    · rw [if_pos (show Changed (change :: changes) s.order from Or.inl hsame)]
      refine ⟨Changes.perm, fun hperm => ?_⟩
      by_cases hchanged : Changed changes (change.apply s.order)
      · -- a later change is going to do something, so the order in between does not matter
        refine ⟨⟨change.apply s.order, change.apply_nodup s.nodup⟩, ?_, ?_⟩
        · rw [Step, if_neg hsame]
        · rw [ih, if_pos hchanged]
          exact hperm
      · -- this was the last change that does something, and it leads to the order at the end
        rw [members_cons, members_of_not_changed hchanged] at hperm
        refine ⟨t, ?_, ?_⟩
        · rw [Step, if_neg hsame]
          exact hperm
        · rw [ih, if_neg (by rwa [changed_congr hperm])]

end IteratedSet
