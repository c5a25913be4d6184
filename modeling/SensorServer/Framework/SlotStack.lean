/-
  SensorServer.Framework.SlotStack — a stack kept in the slots of an array.

  A stack of `n` elements occupies the slots `1..n` of an array, bottom first; slot `0` and
  the slots above `n` are empty.  Pushing writes the slot after the top, popping clears the
  top slot.
-/
import Mathlib.Data.List.Nodup

namespace SensorServer.Framework

variable {α : Type*}

/-- Overwrite one slot. -/
def setSlot (slots : Nat → Option α) (i : Nat) (x : Option α) : Nat → Option α :=
  fun j => if j = i then x else slots j

@[simp] theorem setSlot_same (slots : Nat → Option α) (i : Nat) (x : Option α) :
    setSlot slots i x i = x := if_pos rfl

theorem setSlot_of_ne (slots : Nat → Option α) {i j : Nat} (x : Option α) (h : j ≠ i) :
    setSlot slots i x j = slots j := if_neg h

/-- The slots `1..xs.length` hold `xs`, bottom first, and the others are empty. -/
def Holds (slots : Nat → Option α) (xs : List α) : Prop :=
  slots 0 = none ∧ ∀ i, slots (i + 1) = xs[i]?

namespace Holds

variable {slots : Nat → Option α} {xs : List α} {x : α}

theorem empty : Holds (fun _ => (none : Option α)) [] :=
  ⟨rfl, fun _ => rfl⟩

/-- Pushing writes the slot after the top. -/
theorem push (h : Holds slots xs) (x : α) :
    Holds (setSlot slots (xs.length + 1) (some x)) (xs ++ [x]) := by
  refine ⟨?_, fun i => ?_⟩
  · rw [setSlot_of_ne _ _ (by omega)]
    exact h.1
  · rcases Nat.lt_trichotomy i xs.length with hi | hi | hi
    · rw [setSlot_of_ne _ _ (by omega), h.2, List.getElem?_append_left hi]
    · rw [hi, setSlot_same, List.getElem?_concat_length]
    · rw [setSlot_of_ne _ _ (by omega), h.2, List.getElem?_eq_none (by omega),
        List.getElem?_eq_none (by simp; omega)]

/-- Popping clears the top slot. -/
theorem pop (h : Holds slots (xs ++ [x])) : Holds (setSlot slots (xs.length + 1) none) xs := by
  refine ⟨?_, fun i => ?_⟩
  · rw [setSlot_of_ne _ _ (by omega)]
    exact h.1
  · rcases Nat.lt_trichotomy i xs.length with hi | hi | hi
    · rw [setSlot_of_ne _ _ (by omega), h.2, List.getElem?_append_left hi]
    · rw [hi, setSlot_same, List.getElem?_eq_none (by omega)]
    · rw [setSlot_of_ne _ _ (by omega), h.2, List.getElem?_eq_none (by simp; omega),
        List.getElem?_eq_none (by omega)]

/-- The top slot holds the last element pushed. -/
theorem top (h : Holds slots (xs ++ [x])) : slots (xs.length + 1) = some x := by
  rw [h.2, List.getElem?_concat_length]

/-- Elements with pairwise different keys sit in different slots. -/
theorem slot_unique {κ : Type*} (h : Holds slots xs) {key : α → κ}
    (hnodup : (xs.map key).Nodup) {y : α} {i j : Nat} (hi : slots i = some x)
    (hj : slots j = some y) (hkey : key x = key y) : i = j := by
  cases i with
  | zero => rw [h.1] at hi; cases hi
  | succ i =>
      cases j with
      | zero => rw [h.1] at hj; cases hj
      | succ j =>
          rw [h.2] at hi hj
          have hlt : i < (xs.map key).length := by
            rw [List.length_map]
            exact (List.getElem?_eq_some_iff.mp hi).1
          have hij : (xs.map key)[i]? = (xs.map key)[j]? := by
            rw [List.getElem?_map, List.getElem?_map, hi, hj, Option.map_some, Option.map_some, hkey]
          exact congrArg Nat.succ ((List.getElem?_inj hlt hnodup).mp hij)

end Holds

end SensorServer.Framework
