/-
  SensorServer.Framework.Traced — computations that emit events and may stop early.

  `Traced ε α` is a list of emitted events together with a value, or with no value when the
  computation stopped (a `return` in the middle of a procedure, or an abort).  Sequencing
  appends the traces; what follows a stop emits nothing.

  `Traced.Spec P Q m` is the rule-based way to bound a computation: every event of `m`
  satisfies `P`, and a value `m` returns satisfies `Q`.
-/
import Mathlib.Tactic.Common

namespace SensorServer.Framework

/-- A trace of events and the value returned, `none` when the computation stopped. -/
structure Traced (ε α : Type) where
  trace : List ε
  result : Option α
  deriving DecidableEq

namespace Traced

variable {ε α β : Type}

/-! ## §1. The monad. -/

/-- Emit one event. -/
def emit (e : ε) : Traced ε Unit := ⟨[e], some ()⟩

/-- Stop without emitting anything. -/
def stop : Traced ε α := ⟨[], none⟩

/-- Run `f` on the value of `m`, after the events of `m`. -/
def andThen (m : Traced ε α) (f : α → Traced ε β) : Traced ε β :=
  match m.result with
  | some a => ⟨m.trace ++ (f a).trace, (f a).result⟩
  | none => ⟨m.trace, none⟩

instance : Monad (Traced ε) where
  pure a := ⟨[], some a⟩
  bind := andThen

@[simp] theorem pure_def (a : α) : (pure a : Traced ε α) = ⟨[], some a⟩ := rfl

@[simp] theorem emit_bind (e : ε) (f : Unit → Traced ε β) :
    emit e >>= f = ⟨e :: (f ()).trace, (f ()).result⟩ := rfl

@[simp] theorem some_bind (t : List ε) (a : α) (f : α → Traced ε β) :
    (⟨t, some a⟩ : Traced ε α) >>= f = ⟨t ++ (f a).trace, (f a).result⟩ := rfl

@[simp] theorem none_bind (t : List ε) (f : α → Traced ε β) :
    (⟨t, none⟩ : Traced ε α) >>= f = ⟨t, none⟩ := rfl

/-- A bind begins with the events of what is bound. -/
theorem bind_trace (m : Traced ε α) (f : α → Traced ε β) :
    ∃ rest, (m >>= f).trace = m.trace ++ rest := by
  obtain ⟨t, _ | a⟩ := m
  · exact ⟨[], (List.append_nil t).symm⟩
  · exact ⟨_, rfl⟩

@[simp] theorem stop_trace : (stop : Traced ε α).trace = [] := rfl

@[simp] theorem stop_result : (stop : Traced ε α).result = none := rfl

/-! ## §2. Bounding events and values. -/

/-- Every event satisfies `P` and a returned value satisfies `Q`. -/
structure Spec (P : ε → Prop) (Q : α → Prop) (m : Traced ε α) : Prop where
  events : ∀ e ∈ m.trace, P e
  value : ∀ a, m.result = some a → Q a

namespace Spec

variable {P : ε → Prop} {Q : α → Prop} {R : β → Prop}

theorem pure {a : α} (h : Q a) : Spec P Q (pure a : Traced ε α) where
  events := by simp
  value := by
    intro b hb
    cases hb
    exact h

theorem stop : Spec P Q (stop : Traced ε α) where
  events := by simp
  value := by simp

theorem emit {e : ε} {Q : Unit → Prop} (he : P e) (h : Q ()) : Spec P Q (emit e) where
  events := by
    intro e' he'
    rw [Traced.emit, List.mem_singleton] at he'
    exact he' ▸ he
  value := by
    intro _ _
    exact h

/-- Sequencing: what `m` returns satisfies `Q`, and from there `f` is bounded. -/
theorem bind {m : Traced ε α} {f : α → Traced ε β} (hm : Spec P Q m)
    (hf : ∀ a, Q a → Spec P R (f a)) : Spec P R (m >>= f) := by
  obtain ⟨t, r⟩ := m
  cases r with
  | none => exact ⟨by simpa using hm.events, by simp⟩
  | some a =>
      have hfa := hf a (hm.value a rfl)
      refine ⟨?_, hfa.value⟩
      intro e he
      rw [some_bind, List.mem_append] at he
      rcases he with he | he
      · exact hm.events e he
      · exact hfa.events e he

/-- A computation that returned is bounded with what follows it exactly when its events and
what follows are. -/
theorem some_bind_iff {t : List ε} {a : α} {f : α → Traced ε β} :
    Spec P R ((⟨t, some a⟩ : Traced ε α) >>= f) ↔ (∀ e ∈ t, P e) ∧ Spec P R (f a) := by
  constructor
  · intro h
    refine ⟨fun e he => ?_, fun e he => ?_, h.value⟩
    · exact h.events e (List.mem_append_left _ he)
    · exact h.events e (List.mem_append_right _ he)
  · rintro ⟨ht, hf⟩
    refine ⟨fun e he => ?_, hf.value⟩
    rcases List.mem_append.mp he with he | he
    · exact ht e he
    · exact hf.events e he

/-- A computation that stopped is bounded by its events. -/
theorem none_iff {t : List ε} :
    Spec P R (⟨t, none⟩ : Traced ε β) ↔ ∀ e ∈ t, P e := by
  constructor
  · intro h
    exact h.events
  · intro ht
    refine ⟨ht, fun b hb => ?_⟩
    cases hb

/-- Emitting an event first. -/
theorem emit_then {e : ε} {f : Unit → Traced ε β} (he : P e) (hf : Spec P R (f ())) :
    Spec P R (Traced.emit e >>= f) :=
  (Spec.emit (Q := fun _ => True) he trivial).bind fun _ _ => hf

end Spec

end Traced

end SensorServer.Framework
