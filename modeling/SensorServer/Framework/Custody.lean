/-
  SensorServer.Framework.Custody — allocated cells that are in a container or in one hand.

  A cell of memory that threads pass around is either in the shared container or in the hand of
  one thread.  `Custody live cells hand` says so of all cells, and that nothing else is
  allocated: no cell is lost, none is in two places, and none that is in use has been freed.
  The lemmas are the ways a cell goes.
-/
import Mathlib.Data.List.Nodup
import Mathlib.Logic.Function.Basic

namespace SensorServer.Framework

variable {ι τ : Type}

/-- The allocated cells are those of the container and those in hand. -/
structure Custody (live : ι → Bool) (cells : List ι) (hand : τ → Option ι) : Prop where
  /-- What is allocated is somewhere, and what is somewhere is allocated. -/
  live_iff : ∀ a, live a = true ↔ a ∈ cells ∨ ∃ t, hand t = some a
  /-- What is in hand is not in the container. -/
  apart : ∀ t a, hand t = some a → a ∉ cells
  /-- A cell is in one hand. -/
  single : ∀ t u a, hand t = some a → hand u = some a → t = u

namespace Custody

variable {live live' : ι → Bool} {cells cells' : List ι} {hand : τ → Option ι} {t : τ} {a : ι}

theorem live_of_mem (h : Custody live cells hand) (ha : a ∈ cells) : live a = true :=
  (h.live_iff a).mpr (.inl ha)

theorem live_of_hand (h : Custody live cells hand) (ht : hand t = some a) : live a = true :=
  (h.live_iff a).mpr (.inr ⟨t, ht⟩)

/-- No cells at all. -/
theorem empty (hlive : ∀ a, live a = false) (hhand : ∀ t, hand t = none) :
    Custody live [] hand where
  live_iff a := by simp [hlive, hhand]
  apart t a ht := by
    rw [hhand] at ht
    cases ht
  single t u a ht _ := by
    rw [hhand] at ht
    cases ht

theorem congr (h : Custody live cells hand) (hlive : ∀ a, live' a = live a) :
    Custody live' cells hand :=
  ⟨fun a => by rw [hlive, h.live_iff], h.apart, h.single⟩

/-- A new cell goes into the container at once. -/
theorem add (h : Custody live cells hand) (ha : live a = false)
    (hlive : ∀ b, live' b = true ↔ live b = true ∨ b = a)
    (hcells : ∀ b, b ∈ cells' ↔ b ∈ cells ∨ b = a) : Custody live' cells' hand where
  live_iff b := by
    rw [hlive, h.live_iff, hcells]
    exact or_right_comm
  apart t b ht hb := by
    rcases (hcells b).mp hb with hb | rfl
    · exact h.apart t b ht hb
    · rw [h.live_of_hand ht] at ha
      cases ha
  single := h.single

section Hands

variable [DecidableEq τ]

/-- Who has the cell `b` after `t` has got `x`. -/
theorem update_eq_some_iff {x : Option ι} {u : τ} {b : ι} :
    Function.update hand t x u = some b ↔ u = t ∧ x = some b ∨ u ≠ t ∧ hand u = some b := by
  by_cases hu : u = t
  · subst hu
    simp
  · simp [hu]

/-- `t` puts its cell into the container. -/
theorem put (h : Custody live cells hand) (ht : hand t = some a)
    (hcells : ∀ b, b ∈ cells' ↔ b ∈ cells ∨ b = a) :
    Custody live cells' (Function.update hand t none) where
  live_iff b := by
    rw [h.live_iff, hcells]
    constructor
    · rintro (hb | ⟨u, hu⟩)
      · exact .inl (.inl hb)
      · by_cases hut : u = t
        · subst hut
          rw [ht] at hu
          exact .inl (.inr (Option.some.inj hu).symm)
        · exact .inr ⟨u, update_eq_some_iff.mpr (.inr ⟨hut, hu⟩)⟩
    · rintro ((hb | rfl) | ⟨u, hu⟩)
      · exact .inl hb
      · exact .inr ⟨t, ht⟩
      · obtain ⟨-, hnone⟩ | ⟨-, hu⟩ := update_eq_some_iff.mp hu
        · cases hnone
        · exact .inr ⟨u, hu⟩
  apart u b hu hb := by
    obtain ⟨-, hnone⟩ | ⟨hut, hu⟩ := update_eq_some_iff.mp hu
    · cases hnone
    · rcases (hcells b).mp hb with hb | rfl
      · exact h.apart u b hu hb
      · -- the cell put in was in no hand but that of `t`
        exact hut (h.single u t b hu ht)
  single u v b hu hv := by
    obtain ⟨-, hnone⟩ | ⟨-, hu⟩ := update_eq_some_iff.mp hu
    · cases hnone
    · obtain ⟨-, hnone⟩ | ⟨-, hv⟩ := update_eq_some_iff.mp hv
      · cases hnone
      · exact h.single u v b hu hv

/-- `t` takes a cell out of the container. -/
theorem take (h : Custody live cells hand) (ht : hand t = none) (ha : a ∈ cells)
    (hcells : ∀ b, b ∈ cells' ↔ b ∈ cells ∧ b ≠ a) :
    Custody live cells' (Function.update hand t (some a)) where
  live_iff b := by
    rw [h.live_iff, hcells]
    constructor
    · rintro (hb | ⟨u, hu⟩)
      · by_cases hba : b = a
        · subst hba
          exact .inr ⟨t, update_eq_some_iff.mpr (.inl ⟨rfl, rfl⟩)⟩
        · exact .inl ⟨hb, hba⟩
      · have hut : u ≠ t := by
          rintro rfl
          rw [ht] at hu
          cases hu
        exact .inr ⟨u, update_eq_some_iff.mpr (.inr ⟨hut, hu⟩)⟩
    · rintro (⟨hb, -⟩ | ⟨u, hu⟩)
      · exact .inl hb
      · obtain ⟨-, heq⟩ | ⟨-, hu⟩ := update_eq_some_iff.mp hu
        · cases heq
          exact .inl ha
        · exact .inr ⟨u, hu⟩
  apart u b hu hb := by
    obtain ⟨hb, hne⟩ := (hcells b).mp hb
    obtain ⟨-, heq⟩ | ⟨-, hu⟩ := update_eq_some_iff.mp hu
    · cases heq
      exact hne rfl
    · exact h.apart u b hu hb
  single u v b hu hv := by
    -- the cell taken was in the container, and so in no hand before
    obtain ⟨rfl, heq⟩ | ⟨-, hu'⟩ := update_eq_some_iff.mp hu
    · cases heq
      obtain ⟨rfl, -⟩ | ⟨-, hv⟩ := update_eq_some_iff.mp hv
      · rfl
      · exact absurd ha (h.apart v a hv)
    · obtain ⟨rfl, heq⟩ | ⟨-, hv⟩ := update_eq_some_iff.mp hv
      · cases heq
        exact absurd ha (h.apart u a hu')
      · exact h.single u v b hu' hv

/-- `t` frees its cell. -/
theorem free (h : Custody live cells hand) (ht : hand t = some a)
    (hlive : ∀ b, live' b = true ↔ live b = true ∧ b ≠ a) :
    Custody live' cells (Function.update hand t none) where
  live_iff b := by
    rw [hlive, h.live_iff]
    constructor
    · rintro ⟨hb | ⟨u, hu⟩, hne⟩
      · exact .inl hb
      · have hut : u ≠ t := by
          rintro rfl
          rw [ht] at hu
          exact hne (Option.some.inj hu).symm
        exact .inr ⟨u, update_eq_some_iff.mpr (.inr ⟨hut, hu⟩)⟩
    · rintro (hb | ⟨u, hu⟩)
      · exact ⟨.inl hb, fun heq => h.apart t a ht (heq ▸ hb)⟩
      · obtain ⟨-, hnone⟩ | ⟨hut, hu⟩ := update_eq_some_iff.mp hu
        · cases hnone
        · -- a cell in another hand is not the one freed, which `t` alone had
          refine ⟨.inr ⟨u, hu⟩, ?_⟩
          rintro rfl
          exact hut (h.single u t b hu ht)
  apart u b hu := by
    obtain ⟨-, hnone⟩ | ⟨-, hu⟩ := update_eq_some_iff.mp hu
    · cases hnone
    · exact h.apart u b hu
  single u v b hu hv := by
    obtain ⟨-, hnone⟩ | ⟨-, hu⟩ := update_eq_some_iff.mp hu
    · cases hnone
    · obtain ⟨-, hnone⟩ | ⟨-, hv⟩ := update_eq_some_iff.mp hv
      · cases hnone
      · exact h.single u v b hu hv

/-- `t` allocates a cell. -/
theorem alloc (h : Custody live cells hand) (ht : hand t = none) (ha : live a = false)
    (hlive : ∀ b, live' b = true ↔ live b = true ∨ b = a) :
    Custody live' cells (Function.update hand t (some a)) where
  live_iff b := by
    rw [hlive, h.live_iff]
    constructor
    · rintro ((hb | ⟨u, hu⟩) | rfl)
      · exact .inl hb
      · have hut : u ≠ t := by
          rintro rfl
          rw [ht] at hu
          cases hu
        exact .inr ⟨u, update_eq_some_iff.mpr (.inr ⟨hut, hu⟩)⟩
      · exact .inr ⟨t, update_eq_some_iff.mpr (.inl ⟨rfl, rfl⟩)⟩
    · rintro (hb | ⟨u, hu⟩)
      · exact .inl (.inl hb)
      · obtain ⟨-, heq⟩ | ⟨-, hu⟩ := update_eq_some_iff.mp hu
        · cases heq
          exact .inr rfl
        · exact .inl (.inr ⟨u, hu⟩)
  apart u b hu hb := by
    obtain ⟨-, heq⟩ | ⟨-, hu⟩ := update_eq_some_iff.mp hu
    · cases heq
      rw [h.live_of_mem hb] at ha
      cases ha
    · exact h.apart u b hu hb
  single u v b hu hv := by
    -- the new cell was not live, and so in nobody's hand
    have hfresh : ∀ w, hand w ≠ some a := by
      intro w hw
      rw [h.live_of_hand hw] at ha
      cases ha
    obtain ⟨rfl, heq⟩ | ⟨-, hu'⟩ := update_eq_some_iff.mp hu
    · cases heq
      obtain ⟨rfl, -⟩ | ⟨-, hv⟩ := update_eq_some_iff.mp hv
      · rfl
      · exact absurd hv (hfresh v)
    · obtain ⟨rfl, heq⟩ | ⟨-, hv⟩ := update_eq_some_iff.mp hv
      · cases heq
        exact absurd hu' (hfresh u)
      · exact h.single u v b hu' hv

end Hands

end Custody

end SensorServer.Framework
