/-
  SensorServer.Framework.Transition — guarded reachability of a partial step function.

  A system is a partial step function `step : σ → α → Option σ` over labels `α`: a label
  names one move together with every choice the environment makes in it.  A run is a list
  of labels.  Assumptions about the environment, and conditions a run is asked to meet,
  are predicates `ok : σ → α → Prop` on the state before a step and the step's label.

  `Reach step ok s₀ s` says that `s` is reached from `s₀` by steps that all meet `ok`.
  The file gives the induction rule for invariants, an executable form of the same notion for
  closed runs, and a rule for comparing two conditions on the steps of a run.
-/
import Mathlib.Algebra.GroupWithZero.Nat
import Mathlib.Tactic.Common

namespace SensorServer.Framework

variable {σ α : Type*}

/-! ## §1. Reachability under a guard. -/

/-- The states reached from `s₀` by steps whose labels `ok` allows in the state before. -/
inductive Reach (step : σ → α → Option σ) (ok : σ → α → Prop) (s₀ : σ) : σ → Prop where
  /-- The initial state is reached. -/
  | init : Reach step ok s₀ s₀
  /-- One more allowed step. -/
  | step {s s' : σ} {a : α} :
      Reach step ok s₀ s → ok s a → step s a = some s' → Reach step ok s₀ s'

namespace Reach

variable {step : σ → α → Option σ} {ok : σ → α → Prop} {s₀ s : σ}

/-- **The invariant rule.**  What holds at the start and is kept by every allowed step from
a reached state holds of every reached state. -/
theorem invariant {P : σ → Prop} (hinit : P s₀)
    (hstep : ∀ s a s', Reach step ok s₀ s → P s → ok s a → step s a = some s' → P s')
    (h : Reach step ok s₀ s) : P s := by
  induction h with
  | init => exact hinit
  | step hr hok hs ih => exact hstep _ _ _ hr ih hok hs

/-- A guard that asks for less reaches more. -/
theorem mono {ok' : σ → α → Prop} (hok : ∀ s a, ok s a → ok' s a) (h : Reach step ok s₀ s) :
    Reach step ok' s₀ s := by
  induction h with
  | init => exact .init
  | step _ hallowed hs ih => exact ih.step (hok _ _ hallowed) hs

/-- A condition that every allowed step meets may be added to the guard. -/
theorem and {ok' : σ → α → Prop} (hok : ∀ s a, Reach step ok s₀ s → ok s a → ok' s a)
    (h : Reach step ok s₀ s) : Reach step (fun s a => ok s a ∧ ok' s a) s₀ s := by
  induction h with
  | init => exact .init
  | step hr hallowed hs ih => exact ih.step ⟨hallowed, hok _ _ hr hallowed⟩ hs

end Reach

/-! ## §2. Closed runs. -/

/-- Replay a list of labels, checking the guard before each step. -/
def execute (step : σ → α → Option σ) (ok : σ → α → Prop) [∀ s a, Decidable (ok s a)] :
    σ → List α → Option σ
  | s, [] => some s
  | s, a :: as => if ok s a then (step s a).bind fun s' => execute step ok s' as else none

/-- A replayed run ends in a reached state. -/
theorem Reach.of_execute {step : σ → α → Option σ} {ok : σ → α → Prop}
    [∀ s a, Decidable (ok s a)] {s₀ s' : σ} :
    ∀ {as : List α} {s : σ}, Reach step ok s₀ s → execute step ok s as = some s' →
      Reach step ok s₀ s'
  | [], s, hr, h => by
      cases h
      exact hr
  | a :: as, s, hr, h => by
      rw [execute] at h
      split at h
      · rename_i hok
        obtain ⟨t, ht, hrest⟩ := Option.bind_eq_some_iff.mp h
        exact of_execute (hr.step hok ht) hrest
      · cases h

/-- A guard that asks for less replays the same. -/
theorem execute_mono {step : σ → α → Option σ} {ok ok' : σ → α → Prop}
    [∀ s a, Decidable (ok s a)] [∀ s a, Decidable (ok' s a)] (hok : ∀ s a, ok s a → ok' s a) :
    ∀ {as : List α} {s s' : σ}, execute step ok s as = some s' → execute step ok' s as = some s'
  | [], _, _, h => h
  | a :: as, s, s', h => by
      rw [execute] at h ⊢
      split at h
      · rename_i hallowed
        obtain ⟨t, ht, hrest⟩ := Option.bind_eq_some_iff.mp h
        rw [if_pos (hok s a hallowed), ht]
        exact execute_mono hok hrest
      · cases h

section Replay

variable {step : σ → α → Option σ} {ok : σ → α → Prop} [∀ s a, Decidable (ok s a)]
  {P Q : σ → Prop} [DecidablePred P] {s₀ : σ} {as : List α}

/-- The end of a replayed run, with a property that can be evaluated there. -/
theorem exists_execute (h : (execute step ok s₀ as).any (fun s => decide (P s)) = true) :
    ∃ s, execute step ok s₀ as = some s ∧ P s := by
  obtain ⟨s, hs, hP⟩ := (Option.any_eq_true _ _).mp h
  exact ⟨s, hs, of_decide_eq_true hP⟩

/-- What is known of reached states holds at the end of a replayed run. -/
theorem execute_reaches (h : (execute step ok s₀ as).any (fun s => decide (P s)) = true)
    (hQ : ∀ s, Reach step ok s₀ s → P s → Q s) : ∃ s, execute step ok s₀ as = some s ∧ Q s := by
  obtain ⟨s, hs, hP⟩ := exists_execute h
  exact ⟨s, hs, hQ s (.of_execute .init hs) hP⟩

end Replay

section Bounds

variable {step : σ → α → Option σ} {ok : σ → α → Prop} [∀ s a, Decidable (ok s a)]

/-- **The measure rule.**  Where every step costs more of what a state can afford than it
gains (`g`), a replayed run is no longer than that and its gains, and its end can afford what is
left. -/
theorem execute_affords {A : σ → ℕ → Prop} {g : α → ℕ}
    (hstep : ∀ s a s' N, A s N → ok s a → step s a = some s' →
      ∃ N', N' < N + g a ∧ A s' N') :
    ∀ {as : List α} {s s' : σ} {N : ℕ}, A s N → execute step ok s as = some s' →
      ∃ N', as.length + N' ≤ N + (as.map g).sum ∧ A s' N'
  | [], s, s', N, hN, h => by
      cases h
      exact ⟨N, Nat.le_of_eq (Nat.zero_add N), hN⟩
  | a :: as, s, s', N, hN, h => by
      rw [execute] at h
      split at h
      · rename_i hok
        obtain ⟨t, ht, hrest⟩ := Option.bind_eq_some_iff.mp h
        obtain ⟨N', hlt, hN'⟩ := hstep s a t N hN hok ht
        obtain ⟨N'', hle, hN''⟩ := execute_affords hstep hN' hrest
        refine ⟨N'', ?_, hN''⟩
        rw [List.length_cons, List.map_cons, List.sum_cons]
        omega
      · cases h

end Bounds

/-! ## §3. Properties of the steps of a run. -/

/-- `P` holds of every step a replayed list of labels takes: of the state before it and of
its label. -/
def Along (step : σ → α → Option σ) (P : σ → α → Prop) : σ → List α → Prop
  | _, [] => True
  | s, a :: as => P s a ∧ ∀ s', step s a = some s' → Along step P s' as

/-- **The two-conditions rule.**  Two conditions on steps that agree wherever an invariant
holds, one of which keeps the invariant, hold along the same runs. -/
theorem along_congr {step : σ → α → Option σ} {ok P Q : σ → α → Prop} {I : σ → Prop}
    (hiff : ∀ s a, I s → ok s a → (P s a ↔ Q s a))
    (hstep : ∀ s a s', I s → ok s a → Q s a → step s a = some s' → I s') :
    ∀ {as : List α} {s : σ}, I s → Along step ok s as →
      (Along step P s as ↔ Along step Q s as)
  | [], _, _, _ => Iff.rfl
  | a :: as, s, hinv, hok => by
      have hhead := hiff s a hinv hok.1
      constructor
      · rintro ⟨hP, hrest⟩
        have hQ := hhead.mp hP
        -- the invariant holds again behind this step, so the rest agrees by induction
        refine ⟨hQ, fun s' hs => ?_⟩
        have hinv' := hstep s a s' hinv hok.1 hQ hs
        exact (along_congr hiff hstep hinv' (hok.2 s' hs)).mp (hrest s' hs)
      · rintro ⟨hQ, hrest⟩
        refine ⟨hhead.mpr hQ, fun s' hs => ?_⟩
        have hinv' := hstep s a s' hinv hok.1 hQ hs
        exact (along_congr hiff hstep hinv' (hok.2 s' hs)).mpr (hrest s' hs)

end SensorServer.Framework
