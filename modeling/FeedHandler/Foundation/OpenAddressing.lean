import Mathlib.Data.List.Basic
import Mathlib.Logic.Function.Basic

/-!
# Open addressing

A table with slots `ι` stores at most one key in each slot: `occ i` is the key in slot `i`.  Every key `k` has a
probe order `order k`, a list of slots; a probe for `k` stops at the first slot of the order that is free or holds
`k`.  Nothing is assumed about the orders but, for a probe that finds no place, that they reach every slot; linear
probing is the case of a cyclic order.

In a chained table every stored key is found by its own probe, so that a key is stored at most once.  The property is
kept when a key is written where its probe stops (`Chained.write`), so keys that are never taken out stay findable.
-/

namespace OpenAddressing

variable {ι K : Type*} [DecidableEq K] {occ : ι → Option K} {order : K → List ι}

/-- The slot at which a probe for `k` along `probes` stops. -/
def stop (occ : ι → Option K) (k : K) (probes : List ι) : Option ι :=
  probes.find? fun i => occ i = none ∨ occ i = some k

/-- Every stored key is found by its own probe. -/
def Chained (order : K → List ι) (occ : ι → Option K) : Prop :=
  ∀ i k, occ i = some k → stop occ k (order k) = some i

theorem stop_cons (k : K) (i : ι) (probes : List ι) :
    stop occ k (i :: probes) = if occ i = none ∨ occ i = some k then some i else stop occ k probes := by
  by_cases h : occ i = none ∨ occ i = some k <;> simp [stop, h]

theorem stop_eq_some {k : K} {probes : List ι} {i : ι} :
    stop occ k probes = some i ↔ (occ i = none ∨ occ i = some k) ∧
      ∃ as bs, probes = as ++ i :: bs ∧ ∀ a ∈ as, occ a ≠ none ∧ occ a ≠ some k := by
  unfold stop
  rw [List.find?_eq_some_iff_append]
  simp

/-- A probe that stops nowhere has met other keys only. -/
theorem stop_eq_none {k : K} {probes : List ι} :
    stop occ k probes = none ↔ ∀ i ∈ probes, occ i ≠ none ∧ occ i ≠ some k := by
  unfold stop
  rw [List.find?_eq_none]
  simp

theorem stop_free_or_self {k : K} {probes : List ι} {i : ι} (h : stop occ k probes = some i) :
    occ i = none ∨ occ i = some k := (stop_eq_some.1 h).1

namespace Chained

/-- A table with no key in it is chained. -/
theorem of_empty (h : ∀ i, occ i = none) : Chained order occ := by
  intro i k hi
  rw [h i] at hi
  cases hi

/-- Writing a key where its probe stops keeps every key findable: the slots before the one written are untouched
and occupied by other keys, and the slot written was free or held the key already. -/
theorem write [DecidableEq ι] (h : Chained order occ) {k : K} {i : ι} (hs : stop occ k (order k) = some i) :
    Chained order (Function.update occ i (some k)) := by
  obtain ⟨hi, as, bs, hord, has⟩ := stop_eq_some.1 hs
  intro j k' hj
  by_cases hji : j = i
  · subst hji
    obtain rfl : k = k' := by simpa using hj
    refine stop_eq_some.2 ⟨by simp, as, bs, hord, fun a ha => ?_⟩
    have hne : a ≠ j := by
      rintro rfl
      rcases hi with hi | hi
      · exact (has a ha).1 hi
      · exact (has a ha).2 hi
    simpa [hne] using has a ha
  · rw [Function.update_of_ne hji] at hj
    have hk : k' ≠ k := by
      rintro rfl
      exact hji (Option.some.inj ((h j k' hj).symm.trans hs))
    obtain ⟨-, as', bs', hord', has'⟩ := stop_eq_some.1 (h j k' hj)
    refine stop_eq_some.2 ⟨by simp [hji, hj], as', bs', hord', fun a ha => ?_⟩
    by_cases hai : a = i
    · subst hai
      simpa using hk.symm
    · simpa [hai] using has' a ha

end Chained

end OpenAddressing
