/-
  SensorServer.Framework.Heap — sized blocks of memory, and giving a resource up.

  A program's use of memory is a list of `MemOp`s: blocks obtained, ranges of them read or
  written, blocks given back.  `InBounds` is the discipline that every range lies in the
  block it is a range of, whose size is the one the block was last obtained with.

  `GivenUpOnce` is the other discipline: in a trace of events, the event that gives a
  resource up happens once, and nothing that uses the resource comes after it.
-/
import Mathlib.Data.List.Count
import Mathlib.Logic.Function.Basic

namespace SensorServer.Framework

/-! ## §1. Sized blocks. -/

/-- A step's use of memory, over block names `β`. -/
inductive MemOp (β : Type) where
  /-- `b` becomes a block of `size` bytes; with a negative `size` there is no block. -/
  | alloc (b : β) (size : Int)
  /-- `len` bytes of `b` from `off` on are read or written. -/
  | touch (b : β) (off len : Int)
  | release (b : β)
  deriving Repr, DecidableEq

/-- The blocks there are, with their sizes. -/
abbrev Sizes (β : Type) := β → Option Int

namespace MemOp

variable {β : Type}

/-- The range lies in its block; what is given back is a block. -/
def Fits (σ : Sizes β) : MemOp β → Prop
  | alloc _ _ => True
  | touch b off len => ∃ size, σ b = some size ∧ 0 ≤ off ∧ 0 ≤ len ∧ off + len ≤ size
  | release b => σ b ≠ none

/-- The blocks after the step. -/
def after [DecidableEq β] (σ : Sizes β) : MemOp β → Sizes β
  | alloc b size => Function.update σ b (if 0 ≤ size then some size else none)
  | touch _ _ _ => σ
  | release b => Function.update σ b none

variable {σ : Sizes β} {b : β} {size off len : Int}

@[simp] theorem fits_alloc : (alloc b size).Fits σ := trivial

@[simp] theorem fits_touch : (touch b off len).Fits σ ↔
    ∃ size, σ b = some size ∧ 0 ≤ off ∧ 0 ≤ len ∧ off + len ≤ size := Iff.rfl

@[simp] theorem fits_release : (release b).Fits σ ↔ σ b ≠ none := Iff.rfl

section After

variable [DecidableEq β]

@[simp] theorem after_alloc :
    (alloc b size).after σ = Function.update σ b (if 0 ≤ size then some size else none) := rfl

@[simp] theorem after_touch : (touch b off len).after σ = σ := rfl

@[simp] theorem after_release : (release b).after σ = Function.update σ b none := rfl

end After

end MemOp

section InBounds

variable {β : Type} [DecidableEq β]

/-- From the blocks `σ` on, every step fits the blocks there are when it is made. -/
def InBounds : Sizes β → List (MemOp β) → Prop
  | _, [] => True
  | σ, op :: ops => op.Fits σ ∧ InBounds (op.after σ) ops

@[simp] theorem inBounds_nil (σ : Sizes β) : InBounds σ [] := trivial

@[simp] theorem inBounds_cons {σ : Sizes β} {op : MemOp β} {ops : List (MemOp β)} :
    InBounds σ (op :: ops) ↔ op.Fits σ ∧ InBounds (op.after σ) ops := Iff.rfl

theorem inBounds_append {σ : Sizes β} {ops ops' : List (MemOp β)} :
    InBounds σ (ops ++ ops') ↔ InBounds σ ops ∧ InBounds (ops.foldl MemOp.after σ) ops' := by
  induction ops generalizing σ with
  | nil => simp
  | cons op ops ih =>
      rw [List.cons_append, inBounds_cons, inBounds_cons, ih, and_assoc]
      rfl

end InBounds

/-! ## §2. Giving a resource up. -/

section GivingUp

variable {ε : Type} {f : ε} {Uses : ε → Prop} {t u : List ε}

/-- Nothing that uses the resource comes after `f`. -/
def QuietAfter (f : ε) (Uses : ε → Prop) (t : List ε) : Prop :=
  t.Pairwise fun e e' => e = f → ¬ Uses e'

/-- Before `f` has happened, everything is allowed. -/
theorem quietAfter_append_left (h : f ∉ u) : QuietAfter f Uses (u ++ t) ↔ QuietAfter f Uses t := by
  unfold QuietAfter
  rw [List.pairwise_append]
  have hu : u.Pairwise fun e e' => e = f → ¬ Uses e' := by
    rw [List.pairwise_iff_forall_sublist]
    rintro e e' hsub rfl
    exact absurd (hsub.subset List.mem_cons_self) h
  constructor
  · intro hall
    exact hall.2.1
  · intro ht
    refine ⟨hu, ht, ?_⟩
    rintro e he - - rfl
    exact absurd he h

theorem quietAfter_of_not_mem (h : f ∉ t) : QuietAfter f Uses t := by
  rw [← List.append_nil t, quietAfter_append_left h]
  exact .nil

/-- A resource that nothing uses is not used after it is given up. -/
theorem quietAfter_of_not_uses (h : ∀ e ∈ t, ¬ Uses e) : QuietAfter f Uses t := by
  unfold QuietAfter
  rw [List.pairwise_iff_forall_sublist]
  intro e e' hsub _
  exact h e' (hsub.subset (by simp))

/-- What follows `f` uses nothing. -/
theorem quietAfter_cons_self :
    QuietAfter f Uses (f :: t) ↔ (∀ e ∈ t, ¬ Uses e) ∧ QuietAfter f Uses t := by
  unfold QuietAfter
  rw [List.pairwise_cons]
  simp only [forall_const]

/-- The resource is given up exactly once, and not used afterwards. -/
structure GivenUpOnce [DecidableEq ε] (f : ε) (Uses : ε → Prop) (t : List ε) : Prop where
  once : t.count f = 1
  last : QuietAfter f Uses t

variable [DecidableEq ε]

theorem givenUpOnce_append_left (h : f ∉ u) :
    GivenUpOnce f Uses (u ++ t) ↔ GivenUpOnce f Uses t := by
  have hcount : (u ++ t).count f = t.count f := by
    rw [List.count_append, List.count_eq_zero_of_not_mem h, Nat.zero_add]
  constructor
  · rintro ⟨honce, hlast⟩
    exact ⟨hcount ▸ honce, (quietAfter_append_left h).mp hlast⟩
  · rintro ⟨honce, hlast⟩
    exact ⟨hcount ▸ honce, (quietAfter_append_left h).mpr hlast⟩

/-- A trace that begins by giving the resource up uses it nowhere. -/
theorem givenUpOnce_cons_self :
    GivenUpOnce f Uses (f :: t) ↔ f ∉ t ∧ ∀ e ∈ t, ¬ Uses e := by
  constructor
  · rintro ⟨honce, hlast⟩
    refine ⟨?_, (quietAfter_cons_self.mp hlast).1⟩
    rw [List.count_cons_self] at honce
    exact List.count_eq_zero.mp (by omega)
  · rintro ⟨hnot, huses⟩
    refine ⟨?_, quietAfter_cons_self.mpr ⟨huses, quietAfter_of_not_mem hnot⟩⟩
    rw [List.count_cons_self, List.count_eq_zero_of_not_mem hnot]

/-- A resource that is kept is not given up. -/
theorem not_givenUpOnce_of_not_mem (h : f ∉ t) : ¬ GivenUpOnce f Uses t := by
  rintro ⟨honce, -⟩
  rw [List.count_eq_zero_of_not_mem h] at honce
  cases honce

end GivingUp

end SensorServer.Framework
