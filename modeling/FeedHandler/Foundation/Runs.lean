import Mathlib.Data.List.Basic
import Mathlib.Data.List.Induction

/-!
# Runs of a deterministic system

A system is a step function `step : σ → μ → σ`; a run feeds it a list of messages.

* `Along step P s ms`: the condition `P` holds of every message of the run and the state that message meets.
* `Always step Q s ms`: the property `Q` holds of every state of the run, the first and the last included.

An inductive invariant is proved once, by `Along.always`; the claim about every state of a run then follows by
`Always.mono`.
-/

namespace Runs

variable {σ μ : Type*} {step : σ → μ → σ} {P P' : σ → μ → Prop} {Q Q' I : σ → Prop}

/-- `P s m` holds of every message `m` of the run and the state `s` it meets. -/
def Along (step : σ → μ → σ) (P : σ → μ → Prop) : σ → List μ → Prop
  | _, [] => True
  | s, m :: ms => P s m ∧ Along step P (step s m) ms

/-- `Q` holds of every state of the run. -/
def Always (step : σ → μ → σ) (Q : σ → Prop) : σ → List μ → Prop
  | s, [] => Q s
  | s, m :: ms => Q s ∧ Always step Q (step s m) ms

instance Along.decidable [∀ s m, Decidable (P s m)] : ∀ s ms, Decidable (Along step P s ms)
  | _, [] => inferInstanceAs (Decidable True)
  | s, m :: ms => @instDecidableAnd _ _ _ (Along.decidable (step s m) ms)

instance Always.decidable [∀ s, Decidable (Q s)] : ∀ s ms, Decidable (Always step Q s ms)
  | s, [] => inferInstanceAs (Decidable (Q s))
  | s, m :: ms => @instDecidableAnd _ _ _ (Always.decidable (step s m) ms)

theorem Always.head {s : σ} {ms : List μ} (h : Always step Q s ms) : Q s := by
  cases ms with
  | nil => exact h
  | cons m ms => exact h.1

theorem Always.last {s : σ} {ms : List μ} (h : Always step Q s ms) : Q (ms.foldl step s) := by
  induction ms generalizing s with
  | nil => exact h
  | cons m ms ih => exact ih h.2

theorem Always.mono (h : ∀ s, Q s → Q' s) {s : σ} {ms : List μ} (hs : Always step Q s ms) :
    Always step Q' s ms := by
  induction ms generalizing s with
  | nil => exact h s hs
  | cons m ms ih => exact ⟨h s hs.1, ih hs.2⟩

theorem Along.mono (h : ∀ s m, P s m → P' s m) {s : σ} {ms : List μ} (hs : Along step P s ms) :
    Along step P' s ms := by
  induction ms generalizing s with
  | nil => trivial
  | cons m ms ih => exact ⟨h s m hs.1, ih hs.2⟩

/-- `Always` read at the states of the run. -/
theorem always_iff_prefix {s : σ} {ms : List μ} :
    Always step Q s ms ↔ ∀ pre post, ms = pre ++ post → Q (pre.foldl step s) := by
  induction ms generalizing s with
  | nil =>
    constructor
    · intro h pre post he
      obtain ⟨rfl, -⟩ := List.append_eq_nil_iff.1 he.symm
      exact h
    · exact fun h => h [] [] rfl
  | cons m ms ih =>
    constructor
    · rintro ⟨h, hs⟩ pre post he
      cases pre with
      | nil => exact h
      | cons x pre =>
        obtain ⟨rfl, he'⟩ := List.cons.inj he
        exact ih.1 hs pre post he'
    · intro h
      refine ⟨h [] (m :: ms) rfl, ih.2 fun pre post he => ?_⟩
      exact h (m :: pre) post (by rw [he]; rfl)

/-- `Along` read at the messages of the run and the states they meet. -/
theorem along_iff_prefix {s : σ} {ms : List μ} :
    Along step P s ms ↔ ∀ pre m post, ms = pre ++ m :: post → P (pre.foldl step s) m := by
  induction ms generalizing s with
  | nil => exact iff_of_true trivial fun pre m post he => by simp at he
  | cons m ms ih =>
    constructor
    · rintro ⟨h, hs⟩ pre m' post he
      cases pre with
      | nil =>
        obtain ⟨rfl, -⟩ := List.cons.inj he
        exact h
      | cons x pre =>
        obtain ⟨rfl, he'⟩ := List.cons.inj he
        exact ih.1 hs pre m' post he'
    · intro h
      refine ⟨h [] m ms rfl, ih.2 fun pre m' post he => ?_⟩
      exact h (m :: pre) m' post (by rw [he]; rfl)

/-- `Along` with one more message. -/
theorem along_append_singleton {s : σ} {ms : List μ} {m : μ} :
    Along step P s (ms ++ [m]) ↔ Along step P s ms ∧ P (ms.foldl step s) m := by
  induction ms generalizing s with
  | nil => exact and_comm
  | cons x ms ih =>
    show P s x ∧ Along step P (step s x) (ms ++ [m]) ↔ (P s x ∧ Along step P (step s x) ms) ∧ _
    rw [ih, and_assoc]
    rfl

/-- A property of histories that one more message keeps exactly when it meets the condition `C` holds of every part of
a history exactly when the run meets `C` throughout. -/
theorem forall_prefix_iff_along {C : σ → μ → Prop} {s : σ} {H J : List μ → Prop} (h0 : J [] ∧ H [])
    (hstep : ∀ ms m, J ms → H ms →
      (H (ms ++ [m]) ↔ C (ms.foldl step s) m) ∧ (C (ms.foldl step s) m → J (ms ++ [m]))) (ms : List μ) :
    (∀ pre, pre <+: ms → H pre) ↔ Along step C s ms := by
  -- along `C` the invariant holds as well
  suffices hboth : ((∀ pre, pre <+: ms → H pre) ↔ Along step C s ms) ∧ (Along step C s ms → J ms) from hboth.1
  induction ms using List.reverseRecOn with
  | nil =>
    refine ⟨iff_of_true (fun pre hpre => ?_) trivial, fun _ => h0.1⟩
    rw [List.prefix_nil.1 hpre]
    exact h0.2
  | append_singleton ms m ih =>
    obtain ⟨hiff, hJ⟩ := ih
    rw [along_append_singleton]
    constructor
    · constructor
      · intro h
        have hpre : ∀ pre, pre <+: ms → H pre := fun pre hpre => h pre (hpre.trans (List.prefix_append ..))
        have hrun := hiff.1 hpre
        exact ⟨hrun, (hstep ms m (hJ hrun) (hpre ms List.prefix_rfl)).1.1 (h _ List.prefix_rfl)⟩
      · rintro ⟨hrun, hm⟩ pre hpre
        have hall := hiff.2 hrun
        rcases List.prefix_concat_iff.1 hpre with rfl | hpre
        · exact (hstep ms m (hJ hrun) (hall ms List.prefix_rfl)).1.2 hm
        · exact hall pre hpre
    · rintro ⟨hrun, hm⟩
      exact (hstep ms m (hJ hrun) (hiff.2 hrun ms List.prefix_rfl)).2 hm

/-- A condition on the messages alone. -/
theorem along_iff_forall {C : μ → Prop} {s : σ} {ms : List μ} :
    Along step (fun _ m => C m) s ms ↔ ∀ m ∈ ms, C m := by
  induction ms generalizing s with
  | nil => simp [Along]
  | cons m ms ih => rw [Along, ih, List.forall_mem_cons]

/-- The invariant rule: what holds at the start and is kept by every step that meets `P` holds of every state of
a run along which `P` holds. -/
theorem Along.always (hstep : ∀ s m, I s → P s m → I (step s m)) {s : σ} {ms : List μ} (h0 : I s)
    (h : Along step P s ms) : Always step I s ms := by
  induction ms generalizing s with
  | nil => exact h0
  | cons m ms ih => exact ⟨h0, ih (hstep s m h0 h.1) h.2⟩

/-- A property that a step keeps exactly when it meets the condition `C` holds of every state of a run exactly when
the run meets `C` throughout. -/
theorem Along.always_iff {C : σ → μ → Prop} (hI : ∀ s m, I s → P s m → I (step s m))
    (hQ : ∀ s m, I s → P s m → Q s → (Q (step s m) ↔ C s m)) {s : σ} {ms : List μ} (hs : I s) (hq : Q s)
    (h : Along step P s ms) : Always step Q s ms ↔ Along step C s ms := by
  induction ms generalizing s with
  | nil => exact ⟨fun _ => trivial, fun _ => hq⟩
  | cons m ms ih =>
    obtain ⟨hP, hrest⟩ := h
    have hstep := hQ s m hs hP hq
    constructor
    · rintro ⟨-, hall⟩
      have hq' := hall.head
      exact ⟨hstep.1 hq', (ih (hI s m hs hP) hq' hrest).1 hall⟩
    · rintro ⟨hC, hall⟩
      have hq' := hstep.2 hC
      exact ⟨hq, (ih (hI s m hs hP) hq' hrest).2 hall⟩

/-- Along a run that meets `C`, two conditions that agree wherever the invariant holds are met or not met together. -/
theorem Along.congr {C : σ → μ → Prop} (hstep : ∀ s m, I s → C s m → I (step s m))
    (hiff : ∀ s m, I s → C s m → (P s m ↔ P' s m)) {s : σ} {ms : List μ} (h0 : I s) (hC : Along step C s ms) :
    Along step P s ms ↔ Along step P' s ms := by
  induction ms generalizing s with
  | nil => exact Iff.rfl
  | cons m ms ih => exact and_congr (hiff s m h0 hC.1) (ih (hstep s m h0 hC.1) hC.2)

/-- Two conditions that agree wherever the invariant holds are met along the same runs, when a step that meets them
keeps the invariant. -/
theorem along_congr (hstep : ∀ s m, I s → P' s m → I (step s m)) (hiff : ∀ s m, I s → (P s m ↔ P' s m)) {s : σ}
    (h0 : I s) (ms : List μ) : Along step P s ms ↔ Along step P' s ms := by
  induction ms generalizing s with
  | nil => exact Iff.rfl
  | cons m ms ih =>
    constructor
    · rintro ⟨h, hrest⟩
      have h' := (hiff s m h0).1 h
      exact ⟨h', (ih (hstep s m h0 h')).1 hrest⟩
    · rintro ⟨h', hrest⟩
      exact ⟨(hiff s m h0).2 h', (ih (hstep s m h0 h')).2 hrest⟩

/-- The simulation rule: two systems that are fed the same messages stay related, when every message that meets the
condition of either system keeps them related. -/
theorem Along.simulates {τ : Type*} {step' : τ → μ → τ} {R : σ → τ → Prop} {C : τ → μ → Prop}
    (hstep : ∀ s t m, R s t → P s m → C t m → R (step s m) (step' t m)) {s : σ} {t : τ} {ms : List μ} (h0 : R s t)
    (hs : Along step P s ms) (ht : Along step' C t ms) :
    ∀ pre post, ms = pre ++ post → R (pre.foldl step s) (pre.foldl step' t) := by
  induction ms generalizing s t with
  | nil =>
    intro pre post he
    obtain ⟨rfl, rfl⟩ := List.append_eq_nil_iff.mp he.symm
    exact h0
  | cons m ms ih =>
    intro pre post he
    cases pre with
    | nil => exact h0
    | cons m' pre =>
      obtain ⟨rfl, he'⟩ := List.cons.inj he
      exact ih (hstep s t m h0 hs.1 ht.1) hs.2 ht.2 pre post he'

/-- The invariant rule with no condition on the messages, at the end of the run. -/
theorem foldl_invariant (hstep : ∀ s m, I s → I (step s m)) {s : σ} (h0 : I s) (ms : List μ) :
    I (ms.foldl step s) := by
  induction ms generalizing s with
  | nil => exact h0
  | cons m ms ih => exact ih (hstep s m h0)

/-- The simulation rule with no condition on the messages, at the end of the run. -/
theorem foldl_simulates {τ : Type*} {step' : τ → μ → τ} {R : σ → τ → Prop}
    (hstep : ∀ s t m, R s t → R (step s m) (step' t m)) {s : σ} {t : τ} (h0 : R s t) (ms : List μ) :
    R (ms.foldl step s) (ms.foldl step' t) := by
  induction ms generalizing s t with
  | nil => exact h0
  | cons m ms ih => exact ih (hstep s t m h0)

end Runs
