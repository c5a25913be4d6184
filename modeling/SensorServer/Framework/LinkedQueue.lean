/-
  SensorServer.Framework.LinkedQueue — a queue as a chain of nodes in memory.

  A node holds a value and a link to the node behind it.  `Chain heap p l` says that the links
  from `p` on lead through the nodes of `l` and end there; `Queued` adds the pointer to the last
  node, and that no node occurs twice.  The lemmas say what appending a node, taking the first
  one and writing to other memory do to the list.
-/
import Mathlib.Data.List.Nodup
import Mathlib.Logic.Function.Basic

namespace SensorServer.Framework

variable {ι β : Type}

/-- A node of a chain. -/
structure Node (ι β : Type) where
  value : β
  link : Option ι
  deriving Repr, DecidableEq

/-- Memory that holds nodes. -/
abbrev Nodes (ι β : Type) := ι → Option (Node ι β)

/-- The links from `p` on lead through `l`. -/
def Chain (heap : Nodes ι β) : Option ι → List (ι × β) → Prop
  | p, [] => p = none
  | p, (a, v) :: l => p = some a ∧ ∃ link, heap a = some ⟨v, link⟩ ∧ Chain heap link l

/-! ## §1. Chains. -/

section Chains

variable {heap heap' : Nodes ι β} {p : Option ι} {a r : ι} {v w : β} {l l' : List (ι × β)}

@[simp] theorem chain_nil : Chain heap p [] ↔ p = none := Iff.rfl

@[simp] theorem chain_cons :
    Chain heap p ((a, v) :: l) ↔ p = some a ∧ ∃ link, heap a = some ⟨v, link⟩ ∧ Chain heap link l :=
  Iff.rfl

/-- A chain is read from its nodes only. -/
theorem Chain.congr (h : Chain heap p l) (hsame : ∀ b ∈ l.map Prod.fst, heap' b = heap b) :
    Chain heap' p l := by
  induction l generalizing p with
  | nil => exact h
  | cons cell l ih =>
      obtain ⟨b, u⟩ := cell
      obtain ⟨rfl, link, hnode, hrest⟩ := h
      refine ⟨rfl, link, ?_, ih hrest fun c hc => hsame c (List.mem_cons_of_mem _ hc)⟩
      rw [hsame b List.mem_cons_self]
      exact hnode

/-- Every node of a chain is there, with its value. -/
theorem Chain.node (h : Chain heap p l) (hmem : (a, v) ∈ l) :
    ∃ link, heap a = some ⟨v, link⟩ := by
  induction l generalizing p with
  | nil => cases hmem
  | cons cell l ih =>
      obtain ⟨b, u⟩ := cell
      obtain ⟨-, link, hnode, hrest⟩ := h
      rcases List.mem_cons.mp hmem with heq | hmem
      · cases heq
        exact ⟨link, hnode⟩
      · exact ih hrest hmem

/-- The last node links to nothing. -/
theorem Chain.last_node (h : Chain heap p (l ++ [(r, v)])) : heap r = some ⟨v, none⟩ := by
  induction l generalizing p with
  | nil =>
      obtain ⟨-, link, hnode, hend⟩ := h
      obtain rfl : link = none := hend
      exact hnode
  | cons cell l ih =>
      obtain ⟨-, link, -, hrest⟩ := h
      exact ih hrest

/-- A new node behind the last one. -/
theorem Chain.snoc [DecidableEq ι] (h : Chain heap p (l ++ [(r, v)])) (hr : r ∉ l.map Prod.fst)
    (ha : a ∉ (l ++ [(r, v)]).map Prod.fst) (hnew : heap a = some ⟨w, none⟩) :
    Chain (Function.update heap r (some ⟨v, some a⟩)) p (l ++ [(r, v)] ++ [(a, w)]) := by
  induction l generalizing p with
  | nil =>
      obtain ⟨rfl, -⟩ := h
      have hne : a ≠ r := fun heq => ha (by simp [heq])
      refine ⟨rfl, some a, Function.update_self .., rfl, none, ?_, rfl⟩
      rw [Function.update_of_ne hne]
      exact hnew
  | cons cell l ih =>
      obtain ⟨b, u⟩ := cell
      obtain ⟨rfl, link, hnode, hrest⟩ := h
      have hne : b ≠ r := fun heq => hr (by simp [heq])
      refine ⟨rfl, link, ?_, ih hrest ?_ ?_⟩
      · rw [Function.update_of_ne hne]
        exact hnode
      · exact fun hmem => hr (List.mem_cons_of_mem _ hmem)
      · exact fun hmem => ha (List.mem_cons_of_mem _ hmem)

end Chains

/-! ## §2. Queues. -/

/-- The queue between `front` and `rear` holds `l`, oldest first. -/
structure Queued (heap : Nodes ι β) (front rear : Option ι) (l : List (ι × β)) : Prop where
  chain : Chain heap front l
  last : rear = (l.map Prod.fst).getLast?
  nodup : (l.map Prod.fst).Nodup

namespace Queued

variable {heap heap' : Nodes ι β} {front rear : Option ι} {a r : ι} {v w : β}
  {l l' : List (ι × β)}

theorem empty (heap : Nodes ι β) : Queued heap none none [] := ⟨rfl, rfl, List.nodup_nil⟩

/-- The first node. -/
theorem front_eq (h : Queued heap front rear l) : front = (l.map Prod.fst).head? := by
  cases l with
  | nil => exact h.chain
  | cons cell l => exact h.chain.1

theorem congr (h : Queued heap front rear l) (hsame : ∀ b ∈ l.map Prod.fst, heap' b = heap b) :
    Queued heap' front rear l :=
  ⟨h.chain.congr hsame, h.last, h.nodup⟩

/-- The queue of one node. -/
theorem single (hnew : heap a = some ⟨v, none⟩) : Queued heap (some a) (some a) [(a, v)] :=
  ⟨⟨rfl, none, hnew, rfl⟩, rfl, List.nodup_singleton a⟩

/-- Taking the first node. -/
theorem pop (h : Queued heap front rear ((a, v) :: l)) :
    ∃ link, heap a = some ⟨v, link⟩ ∧ Chain heap link l ∧ a ∉ l.map Prod.fst
      ∧ (l.map Prod.fst).Nodup := by
  obtain ⟨-, link, hnode, hrest⟩ := h.chain
  have hnodup := List.nodup_cons.mp h.nodup
  exact ⟨link, hnode, hrest, hnodup.1, hnodup.2⟩

/-- Taking the first of several nodes leaves the last one. -/
theorem pop_more (h : Queued heap front rear ((a, v) :: l)) (hmore : l ≠ []) :
    ∃ link, heap a = some ⟨v, link⟩ ∧ Queued heap link rear l ∧ a ∉ l.map Prod.fst := by
  obtain ⟨link, hnode, hrest, hnot, hnodup⟩ := h.pop
  refine ⟨link, hnode, ⟨hrest, ?_, hnodup⟩, hnot⟩
  obtain ⟨cell, l, rfl⟩ := List.exists_cons_of_ne_nil hmore
  rw [h.last]
  exact List.getLast?_cons_cons

/-- **Appending a node.**  The last node is there, and linking the new one to it puts the new one
at the end. -/
theorem push [DecidableEq ι] (h : Queued heap front rear l) (hmore : l ≠ [])
    (hnew : heap a = some ⟨w, none⟩) (ha : a ∉ l.map Prod.fst) :
    ∃ r v, rear = some r ∧ heap r = some ⟨v, none⟩
      ∧ Queued (Function.update heap r (some ⟨v, some a⟩)) front (some a) (l ++ [(a, w)]) := by
  obtain ⟨init, ⟨r, v⟩, hl⟩ := (List.eq_nil_or_concat l).resolve_left hmore
  rw [List.concat_eq_append] at hl
  subst hl
  have hnodup := h.nodup
  rw [List.map_append, List.nodup_append] at hnodup
  have hr : r ∉ init.map Prod.fst := fun hmem => hnodup.2.2 r hmem r (by simp) rfl
  refine ⟨r, v, ?_, h.chain.last_node, h.chain.snoc hr ha hnew, ?_, ?_⟩
  · rw [h.last, List.map_append]
    exact List.getLast?_concat ..
  · rw [List.map_append]
    exact (List.getLast?_concat ..).symm
  · rw [List.map_append, List.nodup_append]
    refine ⟨h.nodup, List.nodup_singleton a, ?_⟩
    rintro b hb c hc rfl
    obtain rfl : b = a := List.mem_singleton.mp hc
    exact ha hb

end Queued

end SensorServer.Framework
