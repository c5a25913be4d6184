/-
  SensorServer.Table.Connections — the connection table and its counter.

  `global_connection_id` is an unsigned 32-bit counter that numbers connections, counts
  them and addresses the table `connections`.  `newConnection` advances it, takes the mutex
  and may leave without releasing it; `addNewConnection` stores the result, with the index
  read before or after the call as the compiler chooses; `epollDelFd` clears the slot the
  counter names and steps the counter back.

  `Proc` is the part of the process memory these functions use.  It also keeps the blocks
  the event loop has allocated and not freed.
-/
import SensorServer.Framework.SlotStack

namespace SensorServer.Table

open SensorServer.Framework

/-! ## §1. Memory. -/

/-- `struct connection`, with the address of its block. -/
structure Connection where
  addr : Nat
  connection_id : UInt32
  listen_socket : Int
  deriving Repr, DecidableEq

/-- The globals of the server and its heap. -/
structure Proc where
  global_connection_id : UInt32
  /-- The array, and behind slot `2047` whatever lies behind it. -/
  connections : Nat → Option Connection
  mutex_locked : Bool
  /-- The addresses of allocated blocks. -/
  live : List Nat
  /-- The address the next `malloc` returns. -/
  fresh : Nat

/-- The globals before the first connection. -/
def Proc.init : Proc where
  global_connection_id := 0
  connections := fun _ => none
  mutex_locked := false
  live := []
  fresh := 0

/-- `malloc`. -/
def Proc.malloc (p : Proc) : Nat × Proc :=
  (p.fresh, { p with live := p.fresh :: p.live, fresh := p.fresh + 1 })

/-- `free`. -/
def Proc.free (p : Proc) (addr : Nat) : Proc := { p with live := p.live.erase addr }

/-- `connections[i] = c`. -/
def Proc.store (p : Proc) (i : Nat) (c : Option Connection) : Proc :=
  { p with connections := setSlot p.connections i c }

/-- What a call that may wait for the mutex does: it never returns, or it returns. -/
inductive Blocking (α : Type) where
  | blocked (p : Proc)
  | returned (p : Proc) (a : α)

/-! ## §2. The functions. -/

/-- `2 << 10`, the bound `new_connection` compares with. -/
def maxConnections : UInt32 := UInt32.ofNat (2 <<< 10)

/-- `new_connection`.  The mutex is not recursive: when it is still held the caller waits
for itself. -/
def newConnection (p : Proc) (listen_socket : Int) : Blocking (Option Connection) :=
  let p := { p with global_connection_id := p.global_connection_id + 1 }
  let (c, p) := p.malloc
  if p.mutex_locked then .blocked p
  else
    let p := { p with mutex_locked := true }
    if p.global_connection_id > maxConnections then .returned p none
    else
      .returned { p with mutex_locked := false }
        (some ⟨c, p.global_connection_id, listen_socket⟩)

/-- When the index of `connections[global_connection_id] = new_connection(..)` is read. -/
inductive IndexRead where
  | before
  | after
  deriving Repr, DecidableEq

/-- `add_new_connection`. -/
def addNewConnection (order : IndexRead) (p : Proc) (new_socket : Int) : Blocking Unit :=
  match newConnection p new_socket with
  | .blocked p' => .blocked p'
  | .returned p' c =>
      match order with
      | .before => .returned (p'.store p.global_connection_id.toNat c) ()
      | .after => .returned (p'.store p'.global_connection_id.toNat c) ()

/-- `epoll_del_fd`, without its two system calls.  The descriptor is not used: the slot
that is cleared is the one the counter names. -/
def epollDelFd (p : Proc) (_fd : Int) : Proc :=
  let p := p.store p.global_connection_id.toNat none
  let p := { p with global_connection_id := p.global_connection_id - 1 }
  if p.global_connection_id < 0 then { p with global_connection_id := 0 } else p

/-! ## §3. The counter. -/

/-- The test after the decrement is never true of an unsigned counter. -/
theorem epollDelFd_eq (p : Proc) (fd : Int) :
    epollDelFd p fd =
      { p.store p.global_connection_id.toNat none with
        global_connection_id := p.global_connection_id - 1 } := by
  unfold epollDelFd
  exact if_neg (UInt32.not_lt_zero)

@[simp] theorem epollDelFd_count (p : Proc) (fd : Int) :
    (epollDelFd p fd).global_connection_id = p.global_connection_id - 1 := by
  rw [epollDelFd_eq]

@[simp] theorem epollDelFd_connections (p : Proc) (fd : Int) :
    (epollDelFd p fd).connections
      = setSlot p.connections p.global_connection_id.toNat none := by
  rw [epollDelFd_eq]
  rfl

@[simp] theorem epollDelFd_mutex (p : Proc) (fd : Int) :
    (epollDelFd p fd).mutex_locked = p.mutex_locked := by
  rw [epollDelFd_eq]
  rfl

/-- Counting up, below the largest value. -/
theorem toNat_succ {g : UInt32} (h : g.toNat + 1 < 4294967296) :
    (g + 1).toNat = g.toNat + 1 := by
  rw [UInt32.toNat_add, UInt32.toNat_one]
  exact Nat.mod_eq_of_lt h

/-- Counting down from a positive value. -/
theorem toNat_pred {g : UInt32} (h : 1 ≤ g.toNat) : (g - 1).toNat = g.toNat - 1 := by
  have hg := g.toNat_lt
  rw [UInt32.toNat_sub, UInt32.toNat_one]
  omega

theorem maxConnections_toNat : maxConnections.toNat = 2048 := rfl

/-- What an admitted connection leaves behind: the mutex free, the counter one higher, and
its entry in the slot the order of evaluation selects. -/
theorem addNewConnection_admitted (order : IndexRead) {p : Proc} (new_socket : Int)
    (hfree : p.mutex_locked = false) (hroom : p.global_connection_id.toNat < 2048) :
    addNewConnection order p new_socket = .returned
      ({ p.malloc.2 with global_connection_id := p.global_connection_id + 1 }.store
        (match order with
          | .before => p.global_connection_id.toNat
          | .after => p.global_connection_id.toNat + 1)
        (some ⟨p.fresh, p.global_connection_id + 1, new_socket⟩)) () := by
  have hsucc := toNat_succ (g := p.global_connection_id) (by omega)
  have hle : ¬ (p.global_connection_id + 1 > maxConnections) := by
    rw [gt_iff_lt, UInt32.lt_iff_toNat_lt, hsucc, maxConnections_toNat]
    omega
  have hnew : newConnection p new_socket = .returned
      { p.malloc.2 with global_connection_id := p.global_connection_id + 1 }
      (some ⟨p.fresh, p.global_connection_id + 1, new_socket⟩) := by
    unfold newConnection Proc.malloc
    simp [hfree, hle]
  unfold addNewConnection
  rw [hnew]
  cases order with
  | before => rfl
  | after =>
      show Blocking.returned (Proc.store _ (p.global_connection_id + 1).toNat _) () = _
      rw [hsucc]

/-- A caller that finds the mutex held never comes back, but has counted its connection. -/
theorem addNewConnection_held (order : IndexRead) {p : Proc} (new_socket : Int)
    (hheld : p.mutex_locked = true) :
    ∃ p', addNewConnection order p new_socket = .blocked p' ∧
      p'.global_connection_id = p.global_connection_id + 1 := by
  unfold addNewConnection newConnection Proc.malloc
  simp [hheld]

/-- A caller that finds the mutex free counts the connection, and keeps the mutex when there
are too many. -/
theorem addNewConnection_free (order : IndexRead) {p : Proc} (new_socket : Int)
    (hfree : p.mutex_locked = false) :
    ∃ p', addNewConnection order p new_socket = .returned p' () ∧
      p'.global_connection_id = p.global_connection_id + 1 ∧
      p'.mutex_locked = decide (p.global_connection_id + 1 > maxConnections) := by
  unfold addNewConnection newConnection Proc.malloc
  by_cases hfull : p.global_connection_id + 1 > maxConnections
  · cases order <;>
      exact ⟨_, by simp [hfree, hfull]; rfl, by simp [Proc.store], by simp [Proc.store, hfull]⟩
  · cases order <;>
      exact ⟨_, by simp [hfree, hfull]; rfl, by simp [Proc.store], by simp [Proc.store, hfull]⟩

/-- A call that returned had found the mutex free. -/
theorem addNewConnection_returned {order : IndexRead} {p p' : Proc} {new_socket : Int}
    (h : addNewConnection order p new_socket = .returned p' ()) :
    p.mutex_locked = false ∧ p'.global_connection_id = p.global_connection_id + 1 ∧
      p'.mutex_locked = decide (p.global_connection_id + 1 > maxConnections) := by
  cases hmutex : p.mutex_locked with
  | true =>
      obtain ⟨q, hq, -⟩ := addNewConnection_held order new_socket hmutex
      rw [hq] at h
      cases h
  | false =>
      obtain ⟨q, hq, hspec⟩ := addNewConnection_free order new_socket hmutex
      rw [hq] at h
      cases h
      exact ⟨rfl, hspec⟩

/-- A call that waits had found the mutex held. -/
theorem addNewConnection_blocked {order : IndexRead} {p p' : Proc} {new_socket : Int}
    (h : addNewConnection order p new_socket = .blocked p') :
    p.mutex_locked = true ∧ p'.global_connection_id = p.global_connection_id + 1 := by
  cases hmutex : p.mutex_locked with
  | true =>
      obtain ⟨q, hq, hspec⟩ := addNewConnection_held order new_socket hmutex
      rw [hq] at h
      cases h
      exact ⟨rfl, hspec⟩
  | false =>
      obtain ⟨q, hq, -⟩ := addNewConnection_free order new_socket hmutex
      rw [hq] at h
      cases h

/-- A caller allocates, and frees nothing, whether it comes back or not. -/
theorem addNewConnection_fresh_le {order : IndexRead} {p p' : Proc} {new_socket : Int}
    (h : addNewConnection order p new_socket = .returned p' ()
      ∨ addNewConnection order p new_socket = .blocked p') : p.fresh ≤ p'.fresh := by
  -- the block is allocated before the mutex is asked for
  have hnew : (∃ q, newConnection p new_socket = .blocked q ∧ q.fresh = p.fresh + 1)
      ∨ ∃ q c, newConnection p new_socket = .returned q c ∧ q.fresh = p.fresh + 1 := by
    unfold newConnection Proc.malloc
    by_cases hheld : p.mutex_locked
    · exact .inl ⟨_, by simp only [hheld, if_true]; rfl, rfl⟩
    · by_cases hfull : p.global_connection_id + 1 > maxConnections
      · exact .inr ⟨_, _, by simp only [hheld, hfull, if_true]; rfl, rfl⟩
      · exact .inr ⟨_, _, by simp only [hheld, hfull]; rfl, rfl⟩
  unfold addNewConnection at h
  rcases hnew with ⟨q, hq, hfresh⟩ | ⟨q, c, hq, hfresh⟩
  · rw [hq] at h
    rcases h with h | h
    · cases h
    · obtain rfl : q = p' := by simpa using h
      omega
  · rw [hq] at h
    cases order with
    | before | after =>
        rcases h with h | h
        · obtain rfl : _ = p' := by simpa using h
          show p.fresh ≤ q.fresh
          omega
        · cases h

end SensorServer.Table
