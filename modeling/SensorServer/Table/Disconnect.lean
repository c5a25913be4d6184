/-
  SensorServer.Table.Disconnect — which entry a disconnect removes.

  The table is meant as a map from sockets to connections.  The code addresses it through
  the counter alone, so it behaves as a stack: joining pushes an entry, and every
  disconnect pops the latest one, whoever has left.  `along_removes_iff` says which runs of
  joins and leaves nevertheless remove the right entry each time: those in which clients
  leave in the reverse order of joining.
-/
import SensorServer.Framework.Transition
import SensorServer.Table.Connections

namespace SensorServer.Table

open SensorServer.Framework

/-! ## §1. Joins and leaves. -/

/-- A join or a leave. -/
inductive Op where
  /-- `add_new_connection(socket)`. -/
  | add (socket : Int)
  /-- `epoll_del_fd(fd)`. -/
  | del (fd : Int)
  deriving Repr, DecidableEq

/-- The table and the client sockets that are open. -/
structure Members where
  proc : Proc
  sockets : List Int

/-- The empty table. -/
def Members.init : Members := ⟨.init, []⟩

/-- One operation, with the index read after `new_connection` returns.  A join that blocks
never completes. -/
def Members.step (s : Members) : Op → Option Members
  | .add socket =>
      match addNewConnection .after s.proc socket with
      | .blocked _ => none
      | .returned p _ => some ⟨p, s.sockets ++ [socket]⟩
  | .del fd => some ⟨epollDelFd s.proc fd, s.sockets.filter (· ≠ fd)⟩

/-- `socket` has the entry in slot `i`. -/
def Members.EntryAt (s : Members) (socket : Int) (i : Nat) : Prop :=
  ∃ c, s.proc.connections i = some c ∧ c.listen_socket = socket

/-- The operations considered: joins of sockets that are not open, while fewer than 2047
are, and leaves of sockets with an entry. -/
def Members.Allowed (s : Members) : Op → Prop
  | .add socket => socket ∉ s.sockets ∧ s.sockets.length < 2047
  | .del fd => ∃ i, s.EntryAt fd i

/-- What a map would do: the entry of `fd` goes, every other socket keeps exactly one. -/
def Members.Removes (s : Members) : Op → Prop
  | .add _ => True
  | .del fd => ∀ s', s.step (.del fd) = some s' →
      (∀ i, ¬ s'.EntryAt fd i)
        ∧ ∀ socket, socket ≠ fd → (∃ i, s.EntryAt socket i) → ∃! i, s'.EntryAt socket i

/-- What a stack does: the client that leaves is the latest that joined, in the slot the
counter names. -/
def Members.Latest (s : Members) : Op → Prop
  | .add _ => True
  | .del fd => s.EntryAt fd s.proc.global_connection_id.toNat

/-! ## §2. The table is a stack. -/

/-- The table holds one entry for each open socket, in the order of joining. -/
structure Members.Stacked (s : Members) (entries : List Connection) : Prop where
  mutex : s.proc.mutex_locked = false
  count : s.proc.global_connection_id.toNat = entries.length
  holds : Holds s.proc.connections entries
  sockets : entries.map (·.listen_socket) = s.sockets
  nodup : s.sockets.Nodup
  bound : s.sockets.length ≤ 2047

namespace Members.Stacked

variable {s s' : Members} {entries : List Connection}

theorem init : Members.init.Stacked [] where
  mutex := rfl
  count := rfl
  holds := Holds.empty
  sockets := rfl
  nodup := List.nodup_nil
  bound := by decide

theorem length_eq (h : s.Stacked entries) : entries.length = s.sockets.length := by
  rw [← h.sockets, List.length_map]

/-- A join pushes an entry. -/
theorem add (h : s.Stacked entries) {socket : Int} (hok : s.Allowed (.add socket))
    (hs : s.step (.add socket) = some s') : ∃ c, s'.Stacked (entries ++ [c]) := by
  obtain ⟨hnew, hroom⟩ := hok
  have hlen := h.length_eq
  have hcount := h.count
  have hsucc : (s.proc.global_connection_id + 1).toNat = entries.length + 1 := by
    rw [toNat_succ (by omega), hcount]
  simp only [Members.step, addNewConnection_admitted .after socket h.mutex
    (by omega : s.proc.global_connection_id.toNat < 2048)] at hs
  cases hs
  refine ⟨⟨s.proc.fresh, s.proc.global_connection_id + 1, socket⟩, h.mutex, ?_, ?_, ?_, ?_, ?_⟩
  · show (s.proc.global_connection_id + 1).toNat = _
    rw [hsucc, List.length_append]
    rfl
  · show Holds (setSlot s.proc.connections (s.proc.global_connection_id.toNat + 1) _) _
    rw [hcount]
    exact h.holds.push _
  · rw [List.map_append, h.sockets]
    rfl
  · rw [List.nodup_append]
    refine ⟨h.nodup, List.nodup_singleton _, ?_⟩
    intro a ha b hb hab
    rw [List.mem_singleton] at hb
    exact hnew (hb ▸ hab ▸ ha)
  · show (s.sockets ++ [socket]).length ≤ 2047
    rw [List.length_append, List.length_singleton]
    omega

/-- The slot the counter names is the top of the stack. -/
theorem latest_top (h : s.Stacked entries) {fd : Int} (hlast : s.Latest (.del fd)) :
    ∃ below c, entries = below ++ [c] ∧ c.listen_socket = fd := by
  obtain ⟨c, hc, hfd⟩ := hlast
  rw [h.count] at hc
  rcases List.eq_nil_or_concat' entries with hnil | ⟨below, c', rfl⟩
  · rw [hnil] at hc
    have h0 := h.holds.1
    rw [show (([] : List Connection).length) = 0 from rfl, h0] at hc
    cases hc
  · rw [List.length_append] at hc
    have htop := h.holds.top
    have heq : some c = some c' := hc.symm.trans htop
    cases heq
    exact ⟨below, c, rfl, hfd⟩

/-- A leave of the latest client pops its entry. -/
theorem del (h : s.Stacked entries) {fd : Int} (hlast : s.Latest (.del fd))
    (hs : s.step (.del fd) = some s') : ∃ below, s'.Stacked below := by
  obtain ⟨below, c, rfl, hfd⟩ := h.latest_top hlast
  have hcount := h.count
  rw [List.length_append, List.length_singleton] at hcount
  have hsockets : below.map (·.listen_socket) ++ [fd] = s.sockets := by
    rw [← h.sockets, List.map_append, ← hfd]
    rfl
  have hnodup := h.nodup
  rw [← hsockets, List.nodup_append] at hnodup
  -- the socket that leaves is on top, and no other entry has it
  have hfilter : s.sockets.filter (· ≠ fd) = below.map (·.listen_socket) := by
    rw [← hsockets, List.filter_append, List.filter_eq_self.mpr]
    · simp
    · intro a ha
      exact decide_eq_true (hnodup.2.2 a ha fd (List.mem_singleton_self fd))
  cases hs
  refine ⟨below, ?_, ?_, ?_, ?_, ?_, ?_⟩
  · exact (epollDelFd_mutex s.proc fd).trans h.mutex
  · rw [epollDelFd_count, toNat_pred (by omega)]
    omega
  · rw [epollDelFd_connections, hcount]
    exact h.holds.pop
  · exact hfilter.symm
  · rw [hfilter]
    exact hnodup.1
  · rw [hfilter]
    have hbound := h.bound
    rw [← hsockets, List.length_append] at hbound
    show (below.map (·.listen_socket)).length ≤ 2047
    omega

/-- No socket has two entries. -/
theorem entry_unique (h : s.Stacked entries) {socket : Int} {i j : Nat}
    (hi : s.EntryAt socket i) (hj : s.EntryAt socket j) : i = j := by
  obtain ⟨c, hc, hcs⟩ := hi
  obtain ⟨d, hd, hds⟩ := hj
  have hnodup := h.nodup
  rw [← h.sockets] at hnodup
  exact h.holds.slot_unique hnodup hc hd (hcs.trans hds.symm)

end Members.Stacked

/-! ## §3. Leaves that remove the right entry. -/

/-- After a leave the entries are those of before outside the slot the counter named. -/
theorem Members.entryAt_del {s s' : Members} {fd : Int} (hs : s.step (.del fd) = some s')
    (socket : Int) (i : Nat) :
    s'.EntryAt socket i
      ↔ i ≠ s.proc.global_connection_id.toNat ∧ s.EntryAt socket i := by
  cases hs
  unfold Members.EntryAt
  show (∃ c, (epollDelFd s.proc fd).connections i = some c ∧ _) ↔ _
  rw [epollDelFd_connections]
  by_cases hi : i = s.proc.global_connection_id.toNat
  · rw [hi, setSlot_same]
    simp
  · rw [setSlot_of_ne _ _ hi]
    exact ⟨fun h => ⟨hi, h⟩, fun h => h.2⟩

/-- A leave removes the right entry exactly when the client is the latest. -/
theorem Members.removes_iff_latest {s : Members} {entries : List Connection}
    (h : s.Stacked entries) {op : Op} (hok : s.Allowed op) : s.Removes op ↔ s.Latest op := by
  cases op with
  | add socket => exact Iff.rfl
  | del fd =>
      obtain ⟨i, hi⟩ := hok
      constructor
      · intro hrem
        have hgone := (hrem _ rfl).1 i
        rw [Members.entryAt_del rfl] at hgone
        -- only the slot the counter names is emptied
        have hat : i = s.proc.global_connection_id.toNat := by
          by_contra hne
          exact hgone ⟨hne, hi⟩
        rw [hat] at hi
        exact hi
      · intro hlast s' hs
        refine ⟨?_, ?_⟩
        · intro j hj
          rw [Members.entryAt_del hs] at hj
          exact hj.1 (h.entry_unique hj.2 hlast)
        · rintro socket hne ⟨j, hj⟩
          -- the others stand in other slots
          have hjg : j ≠ s.proc.global_connection_id.toNat := by
            rintro rfl
            obtain ⟨c, hc, hcs⟩ := hj
            obtain ⟨d, hd, hds⟩ := hlast
            rw [hc] at hd
            cases hd
            exact hne (hcs.symm.trans hds)
          refine ⟨j, (Members.entryAt_del hs _ _).mpr ⟨hjg, hj⟩, ?_⟩
          intro k hk
          exact h.entry_unique ((Members.entryAt_del hs _ _).mp hk).2 hj

/-- **Disconnects.**  In a run of joins and leaves from the empty table every leave removes
the entry of the client that leaves and no other, exactly when every leave is of the latest
client that joined and has not left. -/
theorem along_removes_iff (ops : List Op)
    (hok : Along Members.step Members.Allowed Members.init ops) :
    Along Members.step Members.Removes Members.init ops
      ↔ Along Members.step Members.Latest Members.init ops := by
  refine along_congr (I := fun s => ∃ entries, s.Stacked entries) ?_ ?_ ⟨[], .init⟩ hok
  · rintro s op ⟨entries, h⟩ hop
    exact Members.removes_iff_latest h hop
  · rintro s op s' ⟨entries, h⟩ hop hlast hs
    cases op with
    | add socket =>
        obtain ⟨c, hc⟩ := h.add hop hs
        exact ⟨_, hc⟩
    | del fd => exact h.del hlast hs

/-- Two clients that leave in the reverse order of joining. -/
theorem along_removes_reverse :
    Along Members.step Members.Removes Members.init [.add 5, .add 6, .del 6, .del 5] := by
  have hallowed : Along Members.step Members.Allowed Members.init
      [.add 5, .add 6, .del 6, .del 5] := by
    refine ⟨⟨by decide, by decide⟩, fun _ hs => ?_⟩
    cases hs
    refine ⟨⟨by decide, by decide⟩, fun _ hs => ?_⟩
    cases hs
    refine ⟨⟨2, _, rfl, rfl⟩, fun _ hs => ?_⟩
    cases hs
    exact ⟨⟨1, _, rfl, rfl⟩, fun _ _ => trivial⟩
  refine (along_removes_iff _ hallowed).mpr ?_
  refine ⟨trivial, fun _ hs => ?_⟩
  cases hs
  refine ⟨trivial, fun _ hs => ?_⟩
  cases hs
  refine ⟨⟨_, rfl, rfl⟩, fun _ hs => ?_⟩
  cases hs
  exact ⟨⟨_, rfl, rfl⟩, fun _ _ => trivial⟩

/-- When the first of two clients leaves first, its entry stays in slot `1`. -/
theorem first_leaver_stays :
    Along Members.step Members.Allowed Members.init [.add 5, .add 6, .del 5]
      ∧ ¬ Along Members.step Members.Removes Members.init [.add 5, .add 6, .del 5] := by
  constructor
  · refine ⟨⟨by decide, by decide⟩, fun _ hs => ?_⟩
    cases hs
    refine ⟨⟨by decide, by decide⟩, fun _ hs => ?_⟩
    cases hs
    exact ⟨⟨1, _, rfl, rfl⟩, fun _ _ => trivial⟩
  · intro h
    have hdel := (((h.2 _ rfl).2 _ rfl).1 _ rfl).1
    exact hdel 1 ⟨_, rfl, rfl⟩

end SensorServer.Table
