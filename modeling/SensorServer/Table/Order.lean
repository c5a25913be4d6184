/-
  SensorServer.Table.Order — the table under the two orders of evaluation.

  C does not say whether `connections[global_connection_id] = new_connection(..)` reads its
  index before or after the call.  While the counter stays within the array, reading it
  after the call keeps the table a dense prefix numbered by `connection_id`
  (`table_dense`).  Reading it before puts the first entry into slot `0`, which no deletion
  clears: the two orders agree on the empty sequence of calls only (`orders_agree_iff`).
-/
import Mathlib.Data.Set.Card
import Mathlib.Order.Interval.Finset.Nat
import SensorServer.Table.Capacity

namespace SensorServer.Table

open SensorServer.Framework

/-! ## §1. Runs within the array. -/

/-- The counter stays between `0` and `2047`, and no deletion happens at `0`. -/
def InRange (ops : List Op) : Prop := ∀ pre, pre <+: ops → 0 ≤ lead pre ∧ lead pre ≤ 2047

instance (ops : List Op) : Decidable (InRange ops) :=
  decidable_of_iff (∀ pre ∈ ops.inits, 0 ≤ lead pre ∧ lead pre ≤ 2047) <| by
    unfold InRange
    simp only [List.mem_inits]

theorem InRange.initial {pre ops : List Op} (h : InRange ops) (hpre : pre <+: ops) :
    InRange pre :=
  fun _ hle => h _ (hle.trans hpre)

theorem InRange.covered {ops : List Op} (h : InRange ops) : Covered ops :=
  fun _ hpre => (h _ hpre).1

/-- Every call within the range returns and leaves the mutex free. -/
theorem exists_run (order : IndexRead) {ops : List Op} (h : InRange ops) :
    ∃ p, run order ops = some p ∧ p.mutex_locked = false
      ∧ (p.global_connection_id.toNat : Int) = lead ops := by
  induction ops using List.reverseRecOn with
  | nil => exact ⟨.init, rfl, rfl, rfl⟩
  | append_singleton ops op ih =>
      have hbefore := h.initial (List.prefix_append ops [op])
      obtain ⟨p, hp, hfree, hcount⟩ := ih hbefore
      have hcall : ∃ p', call order p op = some p' ∧ p'.mutex_locked = false := by
        cases op with
        | del fd => exact ⟨_, rfl, by rw [epollDelFd_mutex, hfree]⟩
        | add socket =>
            have hrange := h _ List.prefix_rfl
            rw [lead_concat] at hrange
            simp only [Op.delta] at hrange
            obtain ⟨p', hadd, -, hmutex⟩ := addNewConnection_free order socket hfree
            -- the lead stays within the limit, so the mutex is given back
            refine ⟨p', by simp only [call, hadd], ?_⟩
            rw [hmutex, decide_eq_false_iff_not, gt_iff_lt, UInt32.lt_iff_toNat_lt,
              toNat_succ (by omega), maxConnections_toNat]
            omega
      obtain ⟨p', hcall, hfree'⟩ := hcall
      have hrun : run order (ops ++ [op]) = some p' := by
        rw [run_concat, hp]
        exact hcall
      exact ⟨p', hrun, hfree', (counted_of_run h.covered hrun).count⟩

/-! ## §2. Index read after the call. -/

/-- The table holds `entries` from slot `1` on, and each entry is numbered by its slot. -/
structure Dense (p : Proc) (entries : List Connection) : Prop where
  count : p.global_connection_id.toNat = entries.length
  holds : Holds p.connections entries
  ids : ∀ i c, entries[i]? = some c → c.connection_id.toNat = i + 1

namespace Dense

variable {p p' : Proc} {entries : List Connection}

theorem init : Dense .init [] where
  count := rfl
  holds := Holds.empty
  ids := by
    intro i c hc
    rw [List.getElem?_nil] at hc
    cases hc

theorem add (h : Dense p entries) {socket : Int} (hfree : p.mutex_locked = false)
    (hroom : p.global_connection_id.toNat < 2048)
    (hcall : call .after p (.add socket) = some p') : ∃ c, Dense p' (entries ++ [c]) := by
  have hsucc := toNat_succ (g := p.global_connection_id) (by omega)
  have hcount := h.count
  simp only [call, addNewConnection_admitted .after socket hfree hroom] at hcall
  cases hcall
  refine ⟨⟨p.fresh, p.global_connection_id + 1, socket⟩, ?_, ?_, ?_⟩
  · show (p.global_connection_id + 1).toNat = _
    rw [hsucc, hcount, List.length_append, List.length_singleton]
  · show Holds (setSlot p.connections (p.global_connection_id.toNat + 1) _) _
    rw [hcount]
    exact h.holds.push _
  · intro i c hc
    -- the new entry is numbered by the counter, which is its slot
    rcases Nat.lt_trichotomy i entries.length with hi | hi | hi
    · rw [List.getElem?_append_left hi] at hc
      exact h.ids i c hc
    · rw [hi, List.getElem?_concat_length] at hc
      cases hc
      show (p.global_connection_id + 1).toNat = i + 1
      rw [hsucc, hcount, hi]
    · rw [List.getElem?_eq_none (by rw [List.length_append, List.length_singleton]; omega)] at hc
      cases hc

theorem del (h : Dense p entries) (fd : Int) (hpos : 1 ≤ p.global_connection_id.toNat) :
    ∃ below, Dense (epollDelFd p fd) below := by
  have hcount := h.count
  rcases List.eq_nil_or_concat' entries with rfl | ⟨below, c, rfl⟩
  · rw [List.length_nil] at hcount
    omega
  · rw [List.length_append, List.length_singleton] at hcount
    refine ⟨below, ?_, ?_, ?_⟩
    · rw [epollDelFd_count, toNat_pred hpos]
      omega
    · rw [epollDelFd_connections, hcount]
      exact h.holds.pop
    · intro i d hd
      have hlt := (List.getElem?_eq_some_iff.mp hd).1
      exact h.ids i d (by rw [List.getElem?_append_left hlt, hd])

theorem of_run {ops : List Op} (hrange : InRange ops) (hrun : run .after ops = some p) :
    ∃ entries, Dense p entries := by
  induction ops using List.reverseRecOn generalizing p with
  | nil =>
      cases hrun
      exact ⟨[], init⟩
  | append_singleton ops op ih =>
      have hbefore := hrange.initial (List.prefix_append ops [op])
      obtain ⟨q, hq, hfree, hcount⟩ := exists_run .after hbefore
      obtain ⟨entries, hdense⟩ := ih hbefore hq
      have hnow := hrange _ List.prefix_rfl
      rw [lead_concat] at hnow
      rw [run_concat, hq] at hrun
      cases op with
      | add socket =>
          simp only [Op.delta] at hnow
          obtain ⟨c, hc⟩ := hdense.add hfree (by omega) hrun
          exact ⟨_, hc⟩
      | del fd =>
          simp only [Op.delta] at hnow
          cases hrun
          exact hdense.del fd (by omega)

/-- The slots in use are those from `1` to the counter. -/
theorem used_iff (h : Dense p entries) (i : Nat) :
    p.connections i ≠ none ↔ 1 ≤ i ∧ i ≤ p.global_connection_id.toNat := by
  rw [h.count]
  cases i with
  | zero =>
      rw [h.holds.1]
      exact ⟨fun hne => absurd rfl hne, fun hle => absurd hle.1 (by omega)⟩
  | succ i =>
      rw [h.holds.2, Ne, List.getElem?_eq_none_iff]
      omega

/-- An entry is numbered by its slot. -/
theorem id_eq (h : Dense p entries) {i : Nat} {c : Connection}
    (hc : p.connections i = some c) : c.connection_id.toNat = i := by
  cases i with
  | zero =>
      rw [h.holds.1] at hc
      cases hc
  | succ i =>
      rw [h.holds.2] at hc
      exact h.ids i c hc

end Dense

/-- **Density.**  With the index read after the call, every run within the range returns and
leaves entries in exactly the slots from `1` to the counter, each numbered by its slot; so
no two have the same number, and the counter is the number of slots in use. -/
theorem table_dense {ops : List Op} (hrange : InRange ops) :
    ∃ p, run .after ops = some p
      ∧ (∀ i, p.connections i ≠ none ↔ 1 ≤ i ∧ i ≤ p.global_connection_id.toNat)
      ∧ (∀ i c, p.connections i = some c → c.connection_id.toNat = i)
      ∧ (∀ i j c d, p.connections i = some c → p.connections j = some d →
          c.connection_id = d.connection_id → i = j)
      ∧ p.global_connection_id.toNat = Set.ncard {i | p.connections i ≠ none} := by
  obtain ⟨p, hrun, -⟩ := exists_run .after hrange
  obtain ⟨entries, hdense⟩ := Dense.of_run hrange hrun
  refine ⟨p, hrun, hdense.used_iff, fun i c => hdense.id_eq, ?_, ?_⟩
  · intro i j c d hc hd hid
    rw [← hdense.id_eq hc, hid, hdense.id_eq hd]
  · have hset : {i | p.connections i ≠ none}
        = (Finset.Icc 1 p.global_connection_id.toNat : Finset Nat) := by
      ext i
      rw [Set.mem_ofPred_eq, hdense.used_iff, Finset.coe_Icc, Set.mem_Icc]
    rw [hset, Set.ncard_coe_finset, Nat.card_Icc]
    omega

/-- Two connections join, one leaves, one joins. -/
theorem table_dense_two :
    ∃ p, run .after [.add 5, .add 6, .del 5, .add 7] = some p
      ∧ p.global_connection_id.toNat = Set.ncard {i | p.connections i ≠ none} := by
  have hrange : InRange [.add 5, .add 6, .del 5, .add 7] := by decide
  obtain ⟨p, hrun, -, -, -, hcard⟩ := table_dense hrange
  exact ⟨p, hrun, hcard⟩

/-! ## §3. The two orders. -/

/-- With the index read before the call, slot `0` is in use from the first call on. -/
theorem slot_zero_used {ops : List Op} {p : Proc} (hne : ops ≠ []) (hrange : InRange ops)
    (hrun : run .before ops = some p) : p.connections 0 ≠ none := by
  induction ops using List.reverseRecOn generalizing p with
  | nil => exact absurd rfl hne
  | append_singleton ops op ih =>
      have hbefore := hrange.initial (List.prefix_append ops [op])
      obtain ⟨q, hq, hfree, hcount⟩ := exists_run .before hbefore
      have hnow := hrange _ List.prefix_rfl
      rw [lead_concat] at hnow
      rw [run_concat, hq] at hrun
      -- a slot other than `0` is written, unless nothing has happened yet
      have hkeep : q.global_connection_id.toNat ≠ 0 → q.connections 0 ≠ none := by
        intro hpos
        refine ih ?_ hbefore hq
        rintro rfl
        have hzero : lead [] = 0 := rfl
        omega
      cases op with
      | add socket =>
          simp only [Op.delta] at hnow
          have hadd := addNewConnection_admitted .before socket hfree (by omega)
          replace hrun : call .before q (.add socket) = some p := hrun
          simp only [call, hadd] at hrun
          cases hrun
          show setSlot q.connections q.global_connection_id.toNat _ 0 ≠ none
          by_cases hzero : q.global_connection_id.toNat = 0
          · rw [hzero, setSlot_same]
            exact Option.some_ne_none _
          · rw [setSlot_of_ne _ _ (fun h0 => hzero h0.symm)]
            exact hkeep hzero
      | del fd =>
          simp only [Op.delta] at hnow
          cases hrun
          rw [epollDelFd_connections, setSlot_of_ne _ _ (by omega)]
          exact hkeep (by omega)

/-- **Order of evaluation.**  Within the range both orders return with the same counter, and
they give the same table exactly when no call was made. -/
theorem orders_agree_iff {ops : List Op} (hrange : InRange ops) :
    ∃ before after, run .before ops = some before ∧ run .after ops = some after
      ∧ before.global_connection_id = after.global_connection_id
      ∧ (before.connections = after.connections ↔ ops = []) := by
  obtain ⟨before, hbefore, -, hcountb⟩ := exists_run .before hrange
  obtain ⟨after, hafter, -, hcounta⟩ := exists_run .after hrange
  refine ⟨before, after, hbefore, hafter, ?_, ?_, ?_⟩
  · apply UInt32.toNat_inj.mp
    omega
  · intro heq
    by_contra hne
    obtain ⟨entries, hdense⟩ := Dense.of_run hrange hafter
    exact slot_zero_used hne hrange hbefore (by rw [heq]; exact hdense.holds.1)
  · rintro rfl
    cases hbefore
    cases hafter
    rfl

/-- A connection that comes and goes is still in slot `0` under one of the orders. -/
theorem orders_agree_one :
    ∃ before after, run .before [.add 5, .del 5] = some before
      ∧ run .after [.add 5, .del 5] = some after
      ∧ before.global_connection_id = after.global_connection_id
      ∧ (before.connections = after.connections ↔ [Op.add 5, .del 5] = []) :=
  orders_agree_iff (by decide)

/-- One connection is in slot `0` under one order and in slot `1` under the other. -/
theorem orders_differ :
    InRange [.add 5] ∧ ∃ before after, run .before [.add 5] = some before
      ∧ run .after [.add 5] = some after
      ∧ ¬ (before.global_connection_id = after.global_connection_id
        ∧ before.connections = after.connections) := by
  refine ⟨by decide, _, _, rfl, rfl, fun h => ?_⟩
  have hslot := congrFun h.2 0
  cases hslot

end SensorServer.Table
