/-
  SensorServer.Framework.Simulation — what a system can be seen to do, and when an abstract
  system explains it.

  Some steps of a system are visible: `event s a` is what the step `a` from `s` shows.  `Emits`
  collects the events of a run.  An abstract system is a step relation over the events alone.  A
  `Simulation` relates the states of the two so that a visible step is a step of the abstract
  system and an invisible one is none; then every run shows a run of the abstract system
  (`Simulation.run`).
-/
import SensorServer.Framework.Transition

namespace SensorServer.Framework

variable {σ α ε ρ : Type*}

/-! ## §1. Events. -/

/-- The states reached, with the events on the way. -/
inductive Emits (step : σ → α → Option σ) (ok : σ → α → Prop) (event : σ → α → Option ε) (s₀ : σ) :
    List ε → σ → Prop where
  | init : Emits step ok event s₀ [] s₀
  | step {es : List ε} {s s' : σ} {a : α} : Emits step ok event s₀ es s → ok s a →
      step s a = some s' → Emits step ok event s₀ (es ++ (event s a).toList) s'

section Emits

variable {step : σ → α → Option σ} {ok : σ → α → Prop} {event : σ → α → Option ε} {s₀ s : σ}
  {es : List ε}

theorem Emits.reach (h : Emits step ok event s₀ es s) : Reach step ok s₀ s := by
  induction h with
  | init => exact .init
  | step _ hok hs ih => exact ih.step hok hs

/-- **The rule for events.**  What holds at the start, and is kept by every allowed step together
with what the step shows, holds of every reached state and the events on the way. -/
theorem Emits.invariant {Q : List ε → σ → Prop} (hinit : Q [] s₀)
    (hstep : ∀ es s a s', Reach step ok s₀ s → Q es s → ok s a → step s a = some s' →
      Q (es ++ (event s a).toList) s') (h : Emits step ok event s₀ es s) : Q es s := by
  induction h with
  | init => exact hinit
  | step hes hok hs ih => exact hstep _ _ _ _ hes.reach ih hok hs

/-- A guard that asks for less shows more. -/
theorem Emits.mono {ok' : σ → α → Prop} (hok : ∀ s a, ok s a → ok' s a)
    (h : Emits step ok event s₀ es s) : Emits step ok' event s₀ es s := by
  induction h with
  | init => exact .init
  | step _ hallowed hs ih => exact ih.step (hok _ _ hallowed) hs

/-- What a list of labels shows. -/
def shows (step : σ → α → Option σ) (event : σ → α → Option ε) : σ → List α → List ε
  | _, [] => []
  | s, a :: as =>
      (event s a).toList ++ match step s a with
        | some s' => shows step event s' as
        | none => []

/-- A replayed run shows what its labels show. -/
theorem Emits.of_execute [∀ s a, Decidable (ok s a)] :
    ∀ {as : List α} {es : List ε} {s s' : σ}, Emits step ok event s₀ es s →
      execute step ok s as = some s' → Emits step ok event s₀ (es ++ shows step event s as) s'
  | [], es, s, s', hes, h => by
      cases h
      rw [shows, List.append_nil]
      exact hes
  | a :: as, es, s, s', hes, h => by
      rw [execute] at h
      split at h
      · rename_i hok
        obtain ⟨t, ht, hrest⟩ := Option.bind_eq_some_iff.mp h
        have hrun := (hes.step hok ht).of_execute hrest
        rw [List.append_assoc] at hrun
        rw [shows, ht]
        exact hrun
      · cases h

end Emits

/-! ## §2. Abstract runs. -/

/-- The abstract states reached by taking events one after the other. -/
inductive Explains (step : ρ → ε → ρ → Prop) (r₀ : ρ) : List ε → ρ → Prop where
  | nil : Explains step r₀ [] r₀
  | snoc {es : List ε} {r r' : ρ} {e : ε} : Explains step r₀ es r → step r e r' →
      Explains step r₀ (es ++ [e]) r'

/-- The last event of an abstract run. -/
theorem explains_snoc_iff {step : ρ → ε → ρ → Prop} {r₀ r' : ρ} {es : List ε} {e : ε} :
    Explains step r₀ (es ++ [e]) r' ↔ ∃ r, Explains step r₀ es r ∧ step r e r' := by
  constructor
  · intro h
    generalize hes : es ++ [e] = all at h
    cases h with
    | nil => exact absurd hes (List.append_ne_nil_of_right_ne_nil _ (List.cons_ne_nil _ _))
    | snoc hr hs =>
        obtain ⟨rfl, he⟩ := List.append_inj' hes rfl
        cases he
        exact ⟨_, hr, hs⟩
  · rintro ⟨r, hr, hs⟩
    exact hr.snoc hs

/-- **The rule for abstract runs.**  What holds at the start, and is kept by every event, holds
behind every run, together with its events. -/
theorem Explains.invariant {step : ρ → ε → ρ → Prop} {r₀ r : ρ} {es : List ε}
    {P : List ε → ρ → Prop} (hinit : P [] r₀)
    (hstep : ∀ es r e r', P es r → step r e r' → P (es ++ [e]) r')
    (h : Explains step r₀ es r) : P es r := by
  induction h with
  | nil => exact hinit
  | snoc _ hs ih => exact hstep _ _ _ _ ih hs

/-! ## §3. Simulation. -/

/-- `R` relates what is reached to abstract states, and a visible step is a step of the
abstract system. -/
structure Simulation (step : σ → α → Option σ) (ok : σ → α → Prop) (event : σ → α → Option ε)
    (s₀ : σ) (astep : ρ → ε → ρ → Prop) (r₀ : ρ) (R : σ → ρ → Prop) : Prop where
  init : R s₀ r₀
  silent : ∀ s a s' r, Reach step ok s₀ s → R s r → ok s a → step s a = some s' →
    event s a = none → R s' r
  visible : ∀ s a s' r e, Reach step ok s₀ s → R s r → ok s a → step s a = some s' →
    event s a = some e → ∃ r', astep r e r' ∧ R s' r'

/-- **Every run shows a run of the abstract system.** -/
theorem Simulation.run {step : σ → α → Option σ} {ok : σ → α → Prop} {event : σ → α → Option ε}
    {s₀ s : σ} {astep : ρ → ε → ρ → Prop} {r₀ : ρ} {R : σ → ρ → Prop} {es : List ε}
    (hsim : Simulation step ok event s₀ astep r₀ R) (h : Emits step ok event s₀ es s) :
    ∃ r, Explains astep r₀ es r ∧ R s r := by
  induction h with
  | init => exact ⟨r₀, .nil, hsim.init⟩
  | @step es s s' a hes hok hs ih =>
      obtain ⟨r, hr, hR⟩ := ih
      cases hev : event s a with
      | none =>
          refine ⟨r, ?_, hsim.silent s a s' r hes.reach hR hok hs hev⟩
          rw [Option.toList_none, List.append_nil]
          exact hr
      | some e =>
          obtain ⟨r', hr', hR'⟩ := hsim.visible s a s' r e hes.reach hR hok hs hev
          exact ⟨r', hr.snoc hr', hR'⟩

/-- **The rule for runs of another system.**  If every step of a system is none or one of another
system that is allowed there, what is reached, with the events on the way, is related to something
that the other one reaches. -/
theorem Emits.simulate {β : Type*} {step : σ → α → Option σ} {ok : σ → α → Prop}
    {event : σ → α → Option ε} {s₀ s : σ} {es : List ε} {step' : ρ → β → Option ρ}
    {ok' : ρ → β → Prop} {r₀ : ρ} {R : List ε → σ → ρ → Prop} (hinit : R [] s₀ r₀)
    (hstep : ∀ es s a s' r, Reach step ok s₀ s → R es s r → ok s a → step s a = some s' →
      R (es ++ (event s a).toList) s' r
        ∨ ∃ b r', ok' r b ∧ step' r b = some r' ∧ R (es ++ (event s a).toList) s' r')
    (h : Emits step ok event s₀ es s) : ∃ r, Reach step' ok' r₀ r ∧ R es s r := by
  induction h with
  | init => exact ⟨r₀, .init, hinit⟩
  | @step es s s' a hes hok hs ih =>
      obtain ⟨r, hr, hR⟩ := ih
      rcases hstep es s a s' r hes.reach hR hok hs with hsame | ⟨b, r', hok', hs', hR'⟩
      · exact ⟨r, hr, hsame⟩
      · exact ⟨r', hr.step hok' hs', hR'⟩

end SensorServer.Framework
