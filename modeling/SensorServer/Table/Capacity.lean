/-
  SensorServer.Table.Capacity — the table when it is full.

  `new_connection` refuses a connection when the counter, already advanced, is above
  `2 << 10`, the length of the array.  So a counter of 2048 is still admitted, and slot 2048
  lies behind the array: `writes_inside_iff` says which runs stay inside it.  A refusal
  leaves with the mutex held and the counter advanced, whatever came before it:
  `refusal_leaves_traces`.
-/
import Mathlib.Data.List.Infix
import Mathlib.Data.List.Induction
import Mathlib.Algebra.BigOperators.Group.List.Basic
import Mathlib.Algebra.Ring.Int.Defs
import SensorServer.Table.Disconnect

namespace SensorServer.Table

open SensorServer.Framework

/-! ## §1. Runs of calls. -/

/-- One call on the globals.  A call that waits for the mutex never returns. -/
def call (order : IndexRead) (p : Proc) : Op → Option Proc
  | .add socket =>
      match addNewConnection order p socket with
      | .blocked _ => none
      | .returned p' _ => some p'
  | .del fd => some (epollDelFd p fd)

/-- The globals after a sequence of calls that all return. -/
def run (order : IndexRead) (ops : List Op) : Option Proc := ops.foldlM (call order) .init

/-- The index at which a call writes `connections`. -/
def writes (order : IndexRead) (p : Proc) : Op → Option Nat
  | .add socket =>
      match newConnection p socket with
      | .blocked _ => none
      | .returned p' _ =>
          match order with
          | .before => some p.global_connection_id.toNat
          | .after => some p'.global_connection_id.toNat
  | .del _ => some p.global_connection_id.toNat

/-- What an operation adds to the number of connections. -/
def Op.delta : Op → Int
  | .add _ => 1
  | .del _ => -1

/-- By how much additions lead deletions. -/
def lead (ops : List Op) : Int := (ops.map Op.delta).sum

/-- Deletions never exceed additions. -/
def Covered (ops : List Op) : Prop := ∀ pre, pre <+: ops → 0 ≤ lead pre

instance (ops : List Op) : Decidable (Covered ops) :=
  decidable_of_iff (∀ pre ∈ ops.inits, 0 ≤ lead pre) <| by
    unfold Covered
    simp only [List.mem_inits]

theorem run_concat (order : IndexRead) (ops : List Op) (op : Op) :
    run order (ops ++ [op]) = (run order ops).bind (fun p => call order p op) := by
  unfold run
  rw [List.foldlM_append]
  show Option.bind _ _ = Option.bind _ _
  congr 1
  funext p
  show Option.bind (call order p op) some = _
  rw [Option.bind_fun_some]

theorem lead_concat (ops : List Op) (op : Op) : lead (ops ++ [op]) = lead ops + op.delta := by
  unfold lead
  rw [List.map_append, List.sum_append, List.map_singleton, List.sum_singleton]

theorem Covered.initial {pre ops : List Op} (h : Covered ops) (hpre : pre <+: ops) :
    Covered pre :=
  fun _ hle => h _ (hle.trans hpre)

/-- A run that returns has returned from every call. -/
theorem run_initial {order : IndexRead} {pre ops : List Op} (hpre : pre <+: ops)
    (h : (run order ops).isSome) : (run order pre).isSome := by
  obtain ⟨rest, rfl⟩ := hpre
  unfold run at *
  rw [List.foldlM_append] at h
  obtain ⟨p, hp⟩ := Option.isSome_iff_exists.mp h
  obtain ⟨q, hq, -⟩ := Option.bind_eq_some_iff.mp hp
  exact Option.isSome_iff_exists.mpr ⟨q, hq⟩

/-! ## §2. What one call does. -/

/-- An addition that returns has found the mutex free, counts the connection, keeps the
mutex when there are too many, and writes the slot the order of evaluation selects. -/
theorem call_add {order : IndexRead} {p p' : Proc} {socket : Int}
    (h : call order p (.add socket) = some p') :
    p.mutex_locked = false
      ∧ p'.global_connection_id = p.global_connection_id + 1
      ∧ p'.mutex_locked = decide (p.global_connection_id + 1 > maxConnections)
      ∧ ∃ i c, writes order p (.add socket) = some i
          ∧ i = (match order with
              | .before => p.global_connection_id.toNat
              | .after => (p.global_connection_id + 1).toNat)
          ∧ p'.connections = setSlot p.connections i c
          ∧ (p'.mutex_locked = true → c = none) := by
  have hret : addNewConnection order p socket = .returned p' () := by
    cases hadd : addNewConnection order p socket with
    | blocked q =>
        simp only [call, hadd] at h
        cases h
    | returned q u =>
        simp only [call, hadd] at h
        cases h
        rfl
  obtain ⟨hfree, hcount, hmutex⟩ := addNewConnection_returned hret
  refine ⟨hfree, hcount, hmutex, ?_⟩
  unfold addNewConnection at hret
  unfold writes
  unfold newConnection Proc.malloc at *
  -- over the limit `new_connection` returns NULL and keeps the mutex
  by_cases hfull : p.global_connection_id + 1 > maxConnections
  · cases order <;> simp only [hfree, hfull, if_true, if_false, Bool.false_eq_true] at hret ⊢ <;>
      cases hret <;> exact ⟨_, none, rfl, rfl, rfl, fun _ => rfl⟩
  · have hnot : p'.mutex_locked ≠ true := by
      rw [hmutex]
      simp [hfull]
    cases order <;> simp only [hfree, hfull, if_false, Bool.false_eq_true] at hret ⊢ <;>
      cases hret <;> exact ⟨_, _, rfl, rfl, rfl, fun hl => absurd hl hnot⟩

/-- The globals of a run agree with the calls counted. -/
structure Counted (p : Proc) (n : Int) : Prop where
  count : (p.global_connection_id.toNat : Int) = n
  /-- The call that keeps the mutex is the last addition that returns. -/
  bound : n ≤ 2049 ∧ (p.mutex_locked = false → n ≤ 2048)

theorem Counted.add {order : IndexRead} {p p' : Proc} {n : Int} {socket : Int}
    (hp : Counted p n) (h : call order p (.add socket) = some p') : Counted p' (n + 1) := by
  obtain ⟨hfree, hcount, hmutex, -⟩ := call_add h
  have hle := hp.bound.2 hfree
  have hn := hp.count
  have hsucc := toNat_succ (g := p.global_connection_id) (by omega)
  refine ⟨?_, by omega, fun hopen => ?_⟩
  · rw [hcount, hsucc]
    omega
  · rw [hmutex, decide_eq_false_iff_not, gt_iff_lt, UInt32.lt_iff_toNat_lt, hsucc,
      maxConnections_toNat] at hopen
    omega

theorem Counted.del {p : Proc} {n : Int} {fd : Int} (hp : Counted p n) (hpos : 1 ≤ n) :
    Counted (epollDelFd p fd) (n - 1) := by
  have hn := hp.count
  refine ⟨?_, ?_, fun hopen => ?_⟩
  · rw [epollDelFd_count, toNat_pred (by omega)]
    omega
  · have hle := hp.bound.1
    omega
  · rw [epollDelFd_mutex] at hopen
    have hle := hp.bound.2 hopen
    omega

/-- While deletions never exceed additions the counter is the lead of the additions. -/
theorem counted_of_run {order : IndexRead} {ops : List Op} {p : Proc} (hcov : Covered ops)
    (h : run order ops = some p) : Counted p (lead ops) := by
  induction ops using List.reverseRecOn generalizing p with
  | nil =>
      cases h
      exact ⟨rfl, by decide, fun _ => by decide⟩
  | append_singleton ops op ih =>
      rw [run_concat] at h
      obtain ⟨q, hq, hcall⟩ := Option.bind_eq_some_iff.mp h
      have hbefore := ih (hcov.initial (List.prefix_append _ _)) hq
      have hlead := lead_concat ops op
      have hnonneg := hcov _ List.prefix_rfl
      rw [hlead]
      cases op with
      | add socket => exact hbefore.add hcall
      | del fd =>
          cases hcall
          have hdelta : (Op.del fd).delta = -1 := rfl
          rw [hdelta] at hlead ⊢
          exact hbefore.del (by omega)

/-! ## §3. Writes inside the array. -/

/-- Every index at which a call of the run writes is one of the array's. -/
def WritesInside (order : IndexRead) (ops : List Op) : Prop :=
  ∀ pre op p i, pre ++ [op] <+: ops → run order pre = some p → writes order p op = some i →
    i ≤ 2047

/-- Additions lead deletions by at most 2047, before every call and, when the index is read
after `new_connection`, also at the end. -/
def Room : IndexRead → List Op → Prop
  | .before, ops => ∀ pre, pre <+: ops → pre ≠ ops → lead pre ≤ 2047
  | .after, ops => ∀ pre, pre <+: ops → lead pre ≤ 2047

/-- How far the slot a call writes is above the counter before the call. -/
def IndexRead.above : IndexRead → Op → Int
  | .after, .add _ => 1
  | _, _ => 0

theorem Counted.writes {order : IndexRead} {p p' : Proc} {n : Int} {op : Op}
    (hp : Counted p n) (h : call order p op = some p') :
    ∃ i, writes order p op = some i ∧ (i : Int) = n + order.above op := by
  have hn := hp.count
  cases op with
  | del fd =>
      refine ⟨_, rfl, ?_⟩
      cases order <;> simp only [IndexRead.above] <;> omega
  | add socket =>
      obtain ⟨hfree, -, -, i, c, hwrites, hi, -⟩ := call_add h
      have hle := hp.bound.2 hfree
      have hsucc := toNat_succ (g := p.global_connection_id) (by omega)
      refine ⟨i, hwrites, ?_⟩
      cases order with
      | before =>
          rw [hi]
          simp only [IndexRead.above]
          omega
      | after =>
          rw [hi, hsucc]
          simp only [IndexRead.above]
          omega

/-- The slot written by the call behind a prefix of a run. -/
theorem exists_writes {order : IndexRead} {ops pre : List Op} {op : Op} (hcov : Covered ops)
    (hret : (run order ops).isSome) (hpre : pre ++ [op] <+: ops) :
    ∃ p i, run order pre = some p ∧ writes order p op = some i
      ∧ (i : Int) = lead pre + order.above op := by
  obtain ⟨p', hp'⟩ := Option.isSome_iff_exists.mp (run_initial hpre hret)
  rw [run_concat] at hp'
  obtain ⟨p, hp, hcall⟩ := Option.bind_eq_some_iff.mp hp'
  have hle : pre <+: ops := (List.prefix_append _ _).trans hpre
  obtain ⟨i, hi, heq⟩ := (counted_of_run (hcov.initial hle) hp).writes hcall
  exact ⟨p, i, hp, hi, heq⟩

/-- **Capacity.**  In a run from the empty table in which deletions never exceed additions
and every call returns, every write to `connections` is inside the array exactly when
additions never lead by more than 2047 before a call, nor, with the index read after
`new_connection`, at the end. -/
theorem writes_inside_iff (order : IndexRead) (ops : List Op) (hcov : Covered ops)
    (hret : (run order ops).isSome) : WritesInside order ops ↔ Room order ops := by
  constructor
  · intro hin
    -- the slot written is as far up as additions lead: before the call, or behind it
    cases order with
    | before =>
        -- the call behind this prefix writes the slot that the lead names
        rintro pre ⟨rest, rfl⟩ hne
        cases rest with
        | nil => exact absurd (List.append_nil pre).symm hne
        | cons op rest =>
            have hpre : pre ++ [op] <+: pre ++ op :: rest :=
              ⟨rest, by rw [List.append_assoc]; rfl⟩
            obtain ⟨p, i, hp, hi, heq⟩ := exists_writes hcov hret hpre
            have hle := hin pre op p i hpre hp hi
            simp only [IndexRead.above] at heq
            omega
    | after =>
        intro pre hpre
        rcases List.eq_nil_or_concat' pre with rfl | ⟨before, op, rfl⟩
        · decide
        · obtain ⟨p, i, hp, hi, heq⟩ := exists_writes hcov hret hpre
          have hle := hin before op p i hpre hp hi
          rw [lead_concat]
          cases op <;> simp only [IndexRead.above, Op.delta] at heq ⊢ <;> omega
  · intro hroom pre op p i hpre hp hi
    obtain ⟨q, j, hq, hj, heq⟩ := exists_writes hcov hret hpre
    rw [hp] at hq
    cases hq
    rw [hi] at hj
    cases hj
    have hle : pre <+: ops := (List.prefix_append _ _).trans hpre
    cases order with
    | before =>
        have hne : pre ≠ ops := by
          rintro rfl
          have hlen := hpre.length_le
          rw [List.length_append, List.length_singleton] at hlen
          omega
        have hbound := hroom pre hle hne
        simp only [IndexRead.above] at heq
        omega
    | after =>
        cases op with
        | add socket =>
            have hbound := hroom _ hpre
            rw [lead_concat] at hbound
            simp only [IndexRead.above, Op.delta] at heq hbound
            omega
        | del fd =>
            have hbound := hroom pre hle
            simp only [IndexRead.above] at heq
            omega

/-- A connection that comes and goes. -/
theorem writes_inside_one : WritesInside .before [.add 5, .del 5] :=
  (writes_inside_iff .before [.add 5, .del 5] (by decide) rfl).mpr (by
    intro pre hpre hne
    have hshort : ∀ l ∈ [Op.add 5, .del 5].inits, lead l ≤ 2047 := by decide
    exact hshort pre ((List.mem_inits _ _).mpr hpre))

/-! ## §4. Filling the table. -/

theorem lead_replicate (n : Nat) (socket : Int) :
    lead (List.replicate n (.add socket)) = n := by
  induction n with
  | zero => rfl
  | succ n ih =>
      rw [List.replicate_succ', lead_concat, ih]
      show (n : Int) + 1 = ((n + 1 : Nat) : Int)
      omega

/-- Additions alone are covered. -/
theorem covered_replicate (n : Nat) (socket : Int) :
    Covered (List.replicate n (.add socket)) := by
  intro pre hpre
  rw [(List.prefix_replicate_iff.mp hpre).2, lead_replicate]
  omega

/-- The first 2048 additions are admitted. -/
theorem run_replicate (order : IndexRead) (socket : Int) {n : Nat} (hn : n ≤ 2048) :
    ∃ p, run order (List.replicate n (.add socket)) = some p
      ∧ p.global_connection_id.toNat = n ∧ p.mutex_locked = false := by
  induction n with
  | zero => exact ⟨.init, rfl, rfl, rfl⟩
  | succ n ih =>
      obtain ⟨p, hp, hcount, hfree⟩ := ih (by omega)
      obtain ⟨p', hadd, hcount', hmutex⟩ := addNewConnection_free order socket hfree
      have hsucc := toNat_succ (g := p.global_connection_id) (by omega)
      have hcall : call order p (.add socket) = some p' := by simp only [call, hadd]
      refine ⟨p', ?_, ?_, ?_⟩
      · rw [List.replicate_succ', run_concat, hp]
        exact hcall
      · rw [hcount', hsucc, hcount]
      · rw [hmutex, decide_eq_false_iff_not, gt_iff_lt, UInt32.lt_iff_toNat_lt, hsucc,
          maxConnections_toNat]
        omega

/-- The 2048th connection is stored behind the array when the index is read after the call. -/
theorem full_table_write_outside :
    Covered (List.replicate 2048 (.add 5))
      ∧ (run .after (List.replicate 2048 (.add 5))).isSome
      ∧ ¬ WritesInside .after (List.replicate 2048 (.add 5)) := by
  obtain ⟨p, hp, -⟩ := run_replicate .after 5 (Nat.le_refl 2048)
  have hcov := covered_replicate 2048 5
  have hret : (run .after (List.replicate 2048 (.add 5))).isSome := by
    rw [hp]
    rfl
  refine ⟨hcov, hret, fun hin => ?_⟩
  have hpre : List.replicate 2047 (Op.add 5) ++ [.add 5] <+: List.replicate 2048 (.add 5) := by
    rw [← List.replicate_succ']
  obtain ⟨q, i, hq, hi, heq⟩ := exists_writes hcov hret hpre
  have hle := hin _ _ q i hpre hq hi
  rw [lead_replicate] at heq
  simp only [IndexRead.above] at heq
  omega

/-! ## §5. Refusals. -/

/-- Where a run can have left entries.  A deletion from the empty table takes the counter to
its largest value, from where additions are refused or wrap back to slot `0`. -/
structure Proc.Bounded (p : Proc) : Prop where
  above : ∀ i, p.global_connection_id.toNat < i → i < 4294967295 → p.connections i = none
  wrapped : 2048 < p.global_connection_id.toNat → p.mutex_locked = false →
    ∀ i, i < 4294967295 → p.connections i = none
  last : 2048 < p.global_connection_id.toNat → p.global_connection_id.toNat < 4294967295 →
    p.mutex_locked = false → p.connections 4294967295 = none

namespace Proc.Bounded

variable {p p' : Proc}

theorem init : Proc.init.Bounded where
  above := fun _ _ _ => rfl
  wrapped := fun _ _ _ _ => rfl
  last := fun _ _ _ => rfl

theorem del (h : p.Bounded) (fd : Int) : (epollDelFd p fd).Bounded := by
  have hlt := p.global_connection_id.toNat_lt
  have hempty : ∀ i, p.connections i = none →
      setSlot p.connections p.global_connection_id.toNat none i = none := by
    intro i hi
    unfold setSlot
    split
    · rfl
    · exact hi
  by_cases hzero : p.global_connection_id.toNat = 0
  · -- the counter wraps to its largest value, and slot `0` is empty now
    have hcount : (p.global_connection_id - 1).toNat = 4294967295 := by
      rw [UInt32.toNat_sub, UInt32.toNat_one, hzero]
    refine ⟨?_, ?_, ?_⟩
    · rw [epollDelFd_count, hcount]
      intro i hi hi'
      omega
    · intro _ _ i hi
      rw [epollDelFd_connections]
      by_cases hi0 : i = 0
      · rw [hzero, hi0, setSlot_same]
      · exact hempty i (h.above i (by omega) hi)
    · rw [epollDelFd_count, hcount]
      intro _ hi
      omega
  · have hcount : (p.global_connection_id - 1).toNat = p.global_connection_id.toNat - 1 :=
      toNat_pred (by omega)
    refine ⟨?_, ?_, ?_⟩
    · rw [epollDelFd_count, hcount, epollDelFd_connections]
      intro i hi hi'
      by_cases hslot : i = p.global_connection_id.toNat
      · rw [hslot, setSlot_same]
      · exact hempty i (h.above i (by omega) hi')
    · rw [epollDelFd_count, hcount, epollDelFd_connections, epollDelFd_mutex]
      intro hbig hfree i hi
      exact hempty i (h.wrapped (by omega) hfree i hi)
    · rw [epollDelFd_count, hcount, epollDelFd_connections, epollDelFd_mutex]
      intro hbig hsmall hfree
      by_cases hslot : 4294967295 = p.global_connection_id.toNat
      · rw [← hslot, setSlot_same]
      · exact hempty _ (h.last (by omega) (by omega) hfree)

theorem add (h : p.Bounded) {order : IndexRead} {socket : Int}
    (hcall : call order p (.add socket) = some p') : p'.Bounded := by
  obtain ⟨hfree, hcount, hmutex, i, c, -, hi, hconn, -⟩ := call_add hcall
  have hlt := p.global_connection_id.toNat_lt
  -- an admitted connection leaves a small counter
  have hsmall : p'.mutex_locked = false → p'.global_connection_id.toNat ≤ 2048 := by
    intro hopen
    rw [hmutex, ← hcount, decide_eq_false_iff_not, gt_iff_lt, UInt32.lt_iff_toNat_lt,
      maxConnections_toNat] at hopen
    omega
  refine ⟨?_, fun hbig hopen => ?_, fun hbig _ hopen => ?_⟩
  · intro j hj hj'
    rw [hconn]
    rw [hcount] at hj
    by_cases hwrap : p.global_connection_id.toNat = 4294967295
    · have hzero : (p.global_connection_id + 1).toNat = 0 := by
        rw [UInt32.toNat_add, UInt32.toNat_one, hwrap]
      have hne : j ≠ i := by
        cases order <;> simp only at hi <;> omega
      rw [setSlot_of_ne _ _ hne]
      exact h.wrapped (by omega) hfree j hj'
    · have hsucc := toNat_succ (g := p.global_connection_id) (by omega)
      have hne : j ≠ i := by
        cases order <;> simp only at hi <;> omega
      rw [setSlot_of_ne _ _ hne]
      exact h.above j (by omega) hj'
  · have hle := hsmall hopen
    omega
  · have hle := hsmall hopen
    omega

theorem of_run {order : IndexRead} {ops : List Op} (h : run order ops = some p) :
    p.Bounded := by
  induction ops using List.reverseRecOn generalizing p with
  | nil =>
      cases h
      exact init
  | append_singleton ops op ih =>
      rw [run_concat] at h
      obtain ⟨q, hq, hcall⟩ := Option.bind_eq_some_iff.mp h
      cases op with
      | add socket => exact (ih hq).add hcall
      | del fd =>
          cases hcall
          exact (ih hq).del fd

/-- When a connection is refused, the slot the counter then names is empty. -/
theorem next_empty (h : p.Bounded) (hfree : p.mutex_locked = false)
    (hfull : p.global_connection_id + 1 > maxConnections) :
    p.connections (p.global_connection_id + 1).toNat = none := by
  have hlt := p.global_connection_id.toNat_lt
  rw [gt_iff_lt, UInt32.lt_iff_toNat_lt, maxConnections_toNat] at hfull
  have hnowrap : p.global_connection_id.toNat ≠ 4294967295 := by
    intro hwrap
    rw [UInt32.toNat_add, UInt32.toNat_one, hwrap] at hfull
    exact absurd hfull (by decide)
  have hsucc := toNat_succ (g := p.global_connection_id) (by omega)
  rw [hsucc]
  by_cases hlast : p.global_connection_id.toNat + 1 = 4294967295
  · rw [hlast]
    exact h.last (by omega) (by omega) hfree
  · exact h.above _ (by omega) (by omega)

end Proc.Bounded

/-- A refusal, from `p` to `p'`, that leaves the server as it was: the next connection does
not wait, and once the caller has stored the result, a disconnect removes an entry. -/
structure LeavesAsItWas (order : IndexRead) (socket : Int) (p p' : Proc) : Prop where
  mutex : p'.mutex_locked = false
  count : p'.global_connection_id = p.global_connection_id
  entries : p'.connections = p.connections
  next : ∀ socket', ∃ q c, newConnection p' socket' = .returned q c
  disconnect : ∀ fd q, call order p (.add socket) = some q →
    ∃ i c, q.connections i = some c ∧ (epollDelFd q fd).connections i = none

/-- A refusal keeps the mutex and the advanced counter. -/
theorem newConnection_refused {p p' : Proc} {socket : Int}
    (h : newConnection p socket = .returned p' none) :
    p.mutex_locked = false ∧ p.global_connection_id + 1 > maxConnections
      ∧ p'.mutex_locked = true ∧ p'.global_connection_id = p.global_connection_id + 1 := by
  unfold newConnection Proc.malloc at h
  cases hmutex : p.mutex_locked with
  | true =>
      simp only [hmutex, if_true] at h
      cases h
  | false =>
      by_cases hfull : p.global_connection_id + 1 > maxConnections
      · simp only [hmutex, hfull, if_true, if_false, Bool.false_eq_true] at h
        cases h
        exact ⟨rfl, hfull, rfl, rfl⟩
      · simp only [hmutex, hfull, if_false, Bool.false_eq_true] at h
        cases h

/-- A caller that finds the mutex held waits. -/
theorem newConnection_waits {p : Proc} (hheld : p.mutex_locked = true) (socket : Int) :
    ∃ q, newConnection p socket = .blocked q := by
  unfold newConnection Proc.malloc
  simp [hheld]

/-- **Refusals.**  No refusal, in any state reached by additions and deletions, leaves the
server as it was: it keeps the mutex and the advanced counter, so the next connection waits
for ever, and the next disconnect removes nothing. -/
theorem refusal_leaves_traces {order : IndexRead} {ops : List Op} {p p' : Proc}
    {socket : Int} (hrun : run order ops = some p)
    (href : newConnection p socket = .returned p' none) :
    ¬ LeavesAsItWas order socket p p'
      ∧ p'.mutex_locked = true
      ∧ p'.global_connection_id = p.global_connection_id + 1
      ∧ (∀ socket', ∃ q, newConnection p' socket' = .blocked q)
      ∧ ∀ fd q, call order p (.add socket) = some q →
          (epollDelFd q fd).connections = q.connections := by
  obtain ⟨hfree, hfull, hheld, hcount⟩ := newConnection_refused href
  refine ⟨?_, hheld, hcount, newConnection_waits hheld, ?_⟩
  · intro hclean
    have hmutex := hclean.mutex
    rw [hheld] at hmutex
    cases hmutex
  · intro fd q hcall
    obtain ⟨-, hq, hmutex, i, c, -, -, hconn, hnull⟩ := call_add hcall
    have hc : c = none := hnull (by rw [hmutex]; exact decide_eq_true hfull)
    have hslot : q.connections q.global_connection_id.toNat = none := by
      rw [hq, hconn, hc]
      unfold setSlot
      split
      · rfl
      · exact (Proc.Bounded.of_run hrun).next_empty hfree hfull
    -- the slot that is cleared holds nothing
    rw [epollDelFd_connections]
    funext j
    unfold setSlot
    split
    · rename_i hj
      rw [hj, hslot]
    · rfl

/-- The table full of 2048 connections, and one more. -/
theorem exists_refusal (order : IndexRead) :
    ∃ p p', run order (List.replicate 2048 (.add 5)) = some p
      ∧ newConnection p 6 = .returned p' none := by
  obtain ⟨p, hp, hcount, hfree⟩ := run_replicate order 5 (Nat.le_refl 2048)
  have hfull : p.global_connection_id + 1 > maxConnections := by
    rw [gt_iff_lt, UInt32.lt_iff_toNat_lt, toNat_succ (by omega), maxConnections_toNat]
    omega
  refine ⟨p, ?_⟩
  unfold newConnection Proc.malloc
  simp only [hfree, hfull, if_true, if_false, Bool.false_eq_true]
  exact ⟨_, hp, rfl⟩

/-- The traces of the refusal of the 2049th connection. -/
theorem refusal_traces_2049 :
    ∃ p p', run .after (List.replicate 2048 (.add 5)) = some p
      ∧ newConnection p 6 = .returned p' none
      ∧ ¬ LeavesAsItWas .after 6 p p' ∧ p'.mutex_locked = true := by
  obtain ⟨p, p', hp, href⟩ := exists_refusal .after
  have htraces := refusal_leaves_traces hp href
  exact ⟨p, p', hp, href, htraces.1, htraces.2.1⟩

/-- The 2049th connection is not refused cleanly. -/
theorem refusal_2049_not_clean :
    ∃ p p', run .after (List.replicate 2048 (.add 5)) = some p
      ∧ newConnection p 6 = .returned p' none ∧ ¬ LeavesAsItWas .after 6 p p' := by
  obtain ⟨p, p', hp, href⟩ := exists_refusal .after
  refine ⟨p, p', hp, href, fun hclean => ?_⟩
  have hmutex := hclean.mutex
  rw [(newConnection_refused href).2.2.1] at hmutex
  cases hmutex

end SensorServer.Table
