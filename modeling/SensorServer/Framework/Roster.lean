/-
  SensorServer.Framework.Roster — a list in place of a table.

  An abstract system keeps what is under way in a list, where a concrete one has a slot for each
  of its workers.  `Roster f l` says that `l` lists the entries of the table `f`, in some order.
  The lemmas are the ways an entry comes, changes and goes.
-/
import Mathlib.Data.Fintype.Card
import Mathlib.Data.List.Nodup
import Mathlib.Logic.Function.Basic

namespace SensorServer.Framework

variable {ι β : Type*}

/-- `l` lists the entries of `f`. -/
def Roster (f : ι → Option β) (l : List β) : Prop :=
  ∃ is : List ι, is.Nodup ∧ is.map f = l.map some ∧ ∀ i, i ∉ is → f i = none

namespace Roster

variable {f f' : ι → Option β} {l : List β} {i : ι} {x : β}

/-- An empty table. -/
theorem empty (h : ∀ i, f i = none) : Roster f [] := ⟨[], List.nodup_nil, rfl, fun i _ => h i⟩

theorem congr (h : Roster f l) (hsame : ∀ i, f' i = f i) : Roster f' l := by
  rw [show f' = f from funext hsame]
  exact h

theorem eq_nil (h : Roster f l) (hnone : ∀ i, f i = none) : l = [] := by
  obtain ⟨is, -, hmap, -⟩ := h
  cases l with
  | nil => rfl
  | cons x l =>
      cases is with
      | nil => cases hmap
      | cons i is =>
          obtain ⟨hi, -⟩ := List.cons.inj hmap
          rw [hnone] at hi
          cases hi

/-- There are no more entries than slots, and one less while a slot is empty. -/
theorem length_add_le [Fintype ι] [DecidableEq ι] (h : Roster f l) :
    l.length + (Finset.univ.filter fun i => f i = none).card ≤ Fintype.card ι := by
  obtain ⟨is, hnodup, hmap, -⟩ := h
  have hlength : is.length = l.length := by
    rw [← List.length_map f, hmap, List.length_map]
  have hdisjoint : Disjoint is.toFinset (Finset.univ.filter fun i => f i = none) := by
    rw [Finset.disjoint_left]
    intro i hi hnone
    have hsome : f i ∈ l.map some := by
      rw [← hmap]
      exact List.mem_map_of_mem (List.mem_toFinset.mp hi)
    rw [(Finset.mem_filter.mp hnone).2] at hsome
    simp at hsome
  rw [← hlength, ← List.toFinset_card_of_nodup hnodup, ← Finset.card_union_of_disjoint hdisjoint]
  exact Finset.card_le_univ _

/-- A slot is empty, so there is room. -/
theorem length_lt [Fintype ι] [DecidableEq ι] (h : Roster f l) (hi : f i = none) :
    l.length < Fintype.card ι := by
  have hle := h.length_add_le
  have hpos : 0 < (Finset.univ.filter fun i => f i = none).card :=
    Finset.card_pos.mpr ⟨i, Finset.mem_filter.mpr ⟨Finset.mem_univ i, hi⟩⟩
  omega

section Slots

variable [DecidableEq ι]

/-- What the others have does not change. -/
theorem map_update {is : List ι} (hi : i ∉ is) (y : Option β) :
    is.map (Function.update f i y) = is.map f := by
  refine List.map_congr_left fun j hj => Function.update_of_ne ?_ _ _
  rintro rfl
  exact hi hj

/-- An entry comes to an empty slot. -/
theorem enter (h : Roster f l) (hi : f i = none) (x : β) :
    Roster (Function.update f i (some x)) (l ++ [x]) := by
  obtain ⟨is, hnodup, hmap, hrest⟩ := h
  have hnot : i ∉ is := by
    intro hmem
    have hsome : f i ∈ l.map some := by
      rw [← hmap]
      exact List.mem_map_of_mem hmem
    rw [hi] at hsome
    simp at hsome
  refine ⟨is ++ [i], ?_, ?_, fun j hj => ?_⟩
  · exact List.nodup_append.mpr ⟨hnodup, List.nodup_singleton i, by
      rintro j hj k hk rfl
      exact hnot (List.mem_singleton.mp hk ▸ hj)⟩
  · rw [List.map_append, map_update hnot, hmap, List.map_append, List.map_singleton,
      Function.update_self]
    rfl
  · rw [List.mem_append, List.mem_singleton, not_or] at hj
    rw [Function.update_of_ne hj.2]
    exact hrest j hj.1

/-- An entry is found in the list, where it can be changed or left out. -/
theorem find (h : Roster f l) (hi : f i = some x) :
    ∃ w, l[w]? = some x ∧ (∀ y, Roster (Function.update f i (some y)) (l.set w y))
      ∧ Roster (Function.update f i none) (l.eraseIdx w) := by
  obtain ⟨is, hnodup, hmap, hrest⟩ := h
  have hmem : i ∈ is := by
    by_contra hnot
    rw [hrest i hnot] at hi
    cases hi
  obtain ⟨front, back, rfl⟩ := List.append_of_mem hmem
  rw [List.map_append, List.map_cons, hi] at hmap
  obtain ⟨before, after, rfl, hbefore, hcons⟩ := List.map_eq_append_iff.mp hmap.symm
  obtain ⟨x', after, rfl, hx', hafter⟩ := List.map_eq_cons_iff.mp hcons
  obtain rfl : x' = x := Option.some.inj hx'
  -- the slots behind and in front are other ones
  rw [List.nodup_middle, List.nodup_cons, List.mem_append, not_or] at hnodup
  obtain ⟨⟨hfront, hback⟩, hothers⟩ := hnodup
  have hout : ∀ (y : Option β) j, j ∉ front ++ i :: back → Function.update f i y j = none := by
    intro y j hj
    rw [Function.update_of_ne]
    · exact hrest j hj
    · rintro rfl
      exact hj hmem
  refine ⟨before.length, by simp, fun y => ?_, ?_⟩
  · refine ⟨front ++ i :: back, ?_, ?_, hout _⟩
    · rw [List.nodup_middle, List.nodup_cons, List.mem_append, not_or]
      exact ⟨⟨hfront, hback⟩, hothers⟩
    · rw [List.map_append, List.map_cons, map_update hfront, map_update hback,
        Function.update_self, ← hbefore, ← hafter]
      simp
  · refine ⟨front ++ back, hothers, ?_, fun j hj => ?_⟩
    · rw [List.map_append, map_update hfront, map_update hback, ← hbefore, ← hafter]
      simp [List.eraseIdx_append_of_length_le]
    · by_cases hji : j = i
      · rw [hji, Function.update_self]
      · refine hout _ j fun hmem => hj ?_
        rw [List.mem_append, List.mem_cons] at hmem
        rw [List.mem_append]
        exact hmem.imp_right fun hback => hback.resolve_left hji

end Slots

end Roster

end SensorServer.Framework
