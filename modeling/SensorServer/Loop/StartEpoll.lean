/-
  SensorServer.Loop.StartEpoll — the control flow of `start_epoll`.

  The event loop is a machine that alternates with its environment: at each program counter
  `LoopPc` it makes one call (`LoopPc.call`), and from the reply to that call it goes on to
  the next program counter and memory (`resume`).  Calls are the places where anything else
  may happen in between: system calls, the hand-over to the thread pool, and the wait for the
  mutex.

  Events carry a tag and received chunks a source, of a type `γ` the machine is generic in.
  It passes them on and never looks at them; they let a user of the machine say which
  connection an event or a chunk came from.
-/
import SensorServer.Parser.Syntax
import SensorServer.Table.Connections

namespace SensorServer.Loop

open SensorServer.Parser (ThArgs RECV_BUFFER_LEN)
open SensorServer.Table

/-! ## §1. Events. -/

/-- The bits of an event mask the code uses. -/
structure EpollFlags where
  epollin : Bool := false
  epollout : Bool := false
  epollrdhup : Bool := false
  epollhup : Bool := false
  epollet : Bool := false
  deriving Repr, DecidableEq

/-- One of the flags of the hang-up branch is set. -/
def EpollFlags.HangsUp (flags : EpollFlags) : Prop := flags.epollrdhup ∨ flags.epollhup

instance (flags : EpollFlags) : Decidable flags.HangsUp := by
  unfold EpollFlags.HangsUp
  infer_instance

/-- `struct epoll_event`. -/
structure EpollEvent where
  fd : Int
  events : EpollFlags
  deriving Repr, DecidableEq

/-- `MAX_WAIT_FD_NUM`. -/
def MAX_WAIT_FD_NUM : Nat := 64

/-- The interest set a new client is registered with. -/
def acceptInterest : EpollFlags := { epollin := true, epollet := true, epollrdhup := true }

/-- The interest set a client is registered with again after each chunk. -/
def rearmInterest : EpollFlags := { epollin := true, epollet := true, epollout := true }

/-! ## §2. Program counters. -/

/-- Where the loop is.  `e` is the event `g_events[i]` under way, `todo` the events behind it
in the batch. -/
inductive LoopPc (γ : Type) where
  /-- About to call `epoll_wait`. -/
  | wait
  /-- At the beginning of the loop body. -/
  | event (e : EpollEvent × γ) (todo : List (EpollEvent × γ))
  /-- `accept` returned `new_socket`; about to register it. -/
  | accepted (new_socket : Int) (e : EpollEvent × γ) (todo : List (EpollEvent × γ))
  /-- About to call `add_new_connection(new_socket)`. -/
  | registered (new_socket : Int) (e : EpollEvent × γ) (todo : List (EpollEvent × γ))
  /-- `recv` filled the block at `addr` from `src`; about to hand it to the pool. -/
  | received (addr : Nat) (args : ThArgs) (src : γ) (e : EpollEvent × γ)
      (todo : List (EpollEvent × γ))
  /-- The chunk from `src` is handed over; about to register `old_socket` again. -/
  | submitted (old_socket : Int) (src : γ) (e : EpollEvent × γ)
      (todo : List (EpollEvent × γ))
  /-- Waiting in `pthread_mutex_lock` for a mutex this thread holds. -/
  | blocked (e : EpollEvent × γ) (todo : List (EpollEvent × γ))

/-- The head of the `for` loop: the next event, or `epoll_wait` again. -/
def LoopPc.next {γ : Type} : List (EpollEvent × γ) → LoopPc γ
  | [] => .wait
  | e :: todo => .event e todo

instance {γ : Type} : DecidablePred fun pc : LoopPc γ => pc = .wait
  | .wait => .isTrue rfl
  | .event _ _ | .accepted _ _ _ | .registered _ _ _ | .received _ _ _ _ _
  | .submitted _ _ _ _ | .blocked _ _ => .isFalse nofun

/-- The event under way. -/
def LoopPc.current {γ : Type} : LoopPc γ → Option (EpollEvent × γ)
  | .wait => none
  | .event e _ | .accepted _ e _ | .registered _ e _ | .received _ _ _ e _
  | .submitted _ _ e _ | .blocked e _ => some e

/-- The events behind it. -/
def LoopPc.behind {γ : Type} : LoopPc γ → List (EpollEvent × γ)
  | .wait => []
  | .event _ todo | .accepted _ _ todo | .registered _ _ todo | .received _ _ _ _ todo
  | .submitted _ _ _ todo | .blocked _ todo => todo

/-- The part of the batch the loop is not done with. -/
def LoopPc.events {γ : Type} (pc : LoopPc γ) : List (EpollEvent × γ) :=
  pc.current.toList ++ pc.behind

@[simp] theorem LoopPc.events_next {γ : Type} (todo : List (EpollEvent × γ)) :
    (LoopPc.next todo).events = todo := by
  cases todo <;> rfl

/-- Being done with an event leaves those behind it. -/
theorem LoopPc.events_done {γ : Type} {pc : LoopPc γ} {todo : List (EpollEvent × γ)}
    (h : pc.behind = todo) : (LoopPc.next todo).events.Sublist pc.events := by
  rw [LoopPc.events_next, ← h]
  exact List.sublist_append_right _ _

/-- The events the loop has not begun with. -/
def LoopPc.ahead {γ : Type} : LoopPc γ → List (EpollEvent × γ)
  | .event e todo => e :: todo
  | pc => pc.behind

@[simp] theorem LoopPc.ahead_next {γ : Type} (todo : List (EpollEvent × γ)) :
    (LoopPc.next todo).ahead = todo := by
  cases todo <;> rfl

theorem LoopPc.mem_events_of_ahead {γ : Type} {pc : LoopPc γ} {x : EpollEvent × γ}
    (h : x ∈ pc.ahead) : x ∈ pc.events := by
  cases pc with
  | wait => exact h
  | event e todo => exact h
  | _ => exact List.mem_cons_of_mem _ h

/-- Going on behind the current event begins with nothing new. -/
theorem LoopPc.ahead_subset {γ : Type} {pc pc' : LoopPc γ} (h : pc'.ahead = pc.behind) :
    ∀ x ∈ pc'.ahead, x ∈ pc.ahead := by
  intro x hx
  rw [h] at hx
  cases pc with
  | event e todo => exact List.mem_cons_of_mem e hx
  | _ => exact hx

/-- Being done with an event begins with nothing new. -/
theorem LoopPc.ahead_done {γ : Type} {pc : LoopPc γ} {todo : List (EpollEvent × γ)}
    (h : pc.behind = todo) : ∀ x ∈ (LoopPc.next todo).ahead, x ∈ pc.ahead :=
  LoopPc.ahead_subset ((LoopPc.ahead_next todo).trans h.symm)

/-- The branch of the loop body an event selects. -/
inductive Branch where
  | accept
  | epollDelFd
  | recv
  | skip
  deriving Repr, DecidableEq

/-- The tests of the loop body, in order. -/
def branch (listen_socket : Int) (e : EpollEvent) : Branch :=
  if e.fd = listen_socket ∧ e.events.epollin then .accept
  else if e.fd < 0 then .skip
  else if e.events.epollrdhup ∨ e.events.epollhup then .epollDelFd
  else if e.events.epollin then .recv
  else .skip

section Branch

variable {listen_socket : Int} {e : EpollEvent}

theorem branch_eq_accept :
    branch listen_socket e = .accept ↔ e.fd = listen_socket ∧ e.events.epollin := by
  unfold branch
  grind

theorem branch_eq_epollDelFd :
    branch listen_socket e = .epollDelFd ↔
      ¬ (e.fd = listen_socket ∧ e.events.epollin) ∧ ¬ e.fd < 0
        ∧ (e.events.epollrdhup ∨ e.events.epollhup) := by
  unfold branch
  grind

theorem branch_eq_recv :
    branch listen_socket e = .recv ↔
      ¬ (e.fd = listen_socket ∧ e.events.epollin) ∧ ¬ e.fd < 0
        ∧ ¬ (e.events.epollrdhup ∨ e.events.epollhup) ∧ e.events.epollin := by
  unfold branch
  grind

theorem branch_eq_skip :
    branch listen_socket e = .skip ↔
      ¬ (e.fd = listen_socket ∧ e.events.epollin)
        ∧ (e.fd < 0 ∨ ¬ (e.events.epollrdhup ∨ e.events.epollhup) ∧ ¬ e.events.epollin) := by
  unfold branch
  grind

end Branch

/-! ## §3. Calls and replies. -/

/-- What the loop calls. -/
inductive Call (γ : Type) where
  | epollWait
  | accept
  | epollAddFd (fd : Int) (events : EpollFlags)
  | addNewConnection (fd : Int)
  | epollDelFd (fd : Int)
  | recv (fd : Int) (len : Nat)
  | thpoolAddWork (addr : Nat) (args : ThArgs) (src : γ)
  | epollModFd (fd : Int) (events : EpollFlags)
  /-- Nothing outside the process memory. -/
  | skip

/-- The call made at a program counter. -/
def LoopPc.call {γ : Type} (listen_socket : Int) : LoopPc γ → Call γ
  | .wait => .epollWait
  | .event e _ =>
      match branch listen_socket e.1 with
      | .accept => .accept
      | .epollDelFd => .epollDelFd e.1.fd
      | .recv => .recv e.1.fd RECV_BUFFER_LEN
      | .skip => .skip
  | .accepted new_socket _ _ => .epollAddFd new_socket acceptInterest
  | .registered new_socket _ _ => .addNewConnection new_socket
  | .received addr args src _ _ => .thpoolAddWork addr args src
  | .submitted old_socket _ _ _ => .epollModFd old_socket rearmInterest
  | .blocked _ _ => .skip

instance {γ : Type} (fd : Int) : DecidablePred fun c : Call γ => c = .epollDelFd fd
  | .epollDelFd fd' => decidable_of_iff (fd' = fd) ⟨congrArg _, fun h => by cases h; rfl⟩
  | .epollWait | .accept | .epollAddFd _ _ | .addNewConnection _ | .recv _ _
  | .thpoolAddWork _ _ _ | .epollModFd _ _ | .skip => .isFalse nofun

/-- Only a hang-up calls `epoll_del_fd`. -/
theorem LoopPc.call_eq_epollDelFd {γ : Type} {listen_socket fd : Int} {pc : LoopPc γ}
    (h : pc.call listen_socket = .epollDelFd fd) :
    ∃ e todo, pc = .event e todo ∧ branch listen_socket e.1 = .epollDelFd ∧ e.1.fd = fd := by
  cases pc with
  | event e todo =>
      unfold LoopPc.call at h
      cases hb : branch listen_socket e.1 with
      | epollDelFd =>
          simp only [hb, Call.epollDelFd.injEq] at h
          exact ⟨e, todo, rfl, hb, h⟩
      | _ => simp [hb] at h
  | _ => cases h

/-- What a call answers. -/
inductive Reply (γ : Type) where
  /-- The batch `epoll_wait` fills in; empty for the results `-1` and `0`. -/
  | ready (events : List (EpollEvent × γ))
  /-- A result of `accept` or `epoll_ctl`. -/
  | ret (n : Int)
  /-- A result of `recv`, the bytes it stored, and where they came from. -/
  | data (n : Int) (bytes : List UInt8) (src : γ)
  /-- A call whose result is not used. -/
  | done

/-! ## §4. The machine. -/

/-- The code between one call and the next.  `none` for a reply that does not belong to the
call, and while blocked. -/
def resume {γ : Type} (listen_socket : Int) (order : IndexRead) :
    LoopPc γ → Proc → Reply γ → Option (LoopPc γ × Proc)
  | .wait, p, .ready events => some (.next events, p)
  | .event e todo, p, r =>
      -- every event begins by allocating a `th_args`; only a hang-up frees it here
      let (args, p) := p.malloc
      match branch listen_socket e.1, r with
      | .accept, .ret new_socket =>
          if new_socket < 0 then some (.next todo, p)
          else some (.accepted new_socket e todo, p)
      | .epollDelFd, .done => some (.next todo, (epollDelFd p e.1.fd).free args)
      | .recv, .data recv_len bytes src =>
          -- both `break`s leave the `for` loop
          if recv_len = 0 then some (.wait, p)
          else if recv_len < 0 then some (.wait, p)
          else if recv_len > RECV_BUFFER_LEN then some (.next todo, p)
          else some (.received args (.received e.1.fd bytes) src e todo, p)
      | .skip, .done => some (.next todo, p)
      | _, _ => none
  | .accepted new_socket e todo, p, .ret n =>
      if n < 0 then some (.next todo, p) else some (.registered new_socket e todo, p)
  | .registered new_socket e todo, p, .done =>
      match addNewConnection order p new_socket with
      | .blocked p => some (.blocked e todo, p)
      | .returned p _ => some (.next todo, p)
  | .received _ args src e todo, p, .done => some (.submitted args.socket_fd src e todo, p)
  | .submitted _ _ _ todo, p, .done => some (.next todo, p)
  | _, _, _ => none

/-! ## §5. What one event leads to. -/

section Event

variable {γ : Type} {listen_socket : Int} {order : IndexRead} {e : EpollEvent × γ}
  {todo : List (EpollEvent × γ)} {p : Proc}

/-- A listen event: the descriptor `accept` returned, unless it failed. -/
theorem resume_accept (hb : branch listen_socket e.1 = .accept) (new_socket : Int) :
    resume listen_socket order (.event e todo) p (.ret new_socket) =
      if new_socket < 0 then some (.next todo, p.malloc.2)
      else some (.accepted new_socket e todo, p.malloc.2) := by
  unfold resume
  simp only [hb]

/-- A hang-up: the connection is removed and the loop goes on. -/
theorem resume_hangup (hb : branch listen_socket e.1 = .epollDelFd) :
    resume listen_socket order (.event e todo) p .done =
      some (.next todo, (epollDelFd p.malloc.2 e.1.fd).free p.malloc.1) := by
  unfold resume
  simp only [hb]

/-- A read that returned nothing leaves the batch. -/
theorem resume_recv_nothing (hb : branch listen_socket e.1 = .recv) {recv_len : Int}
    (h : recv_len ≤ 0) (bytes : List UInt8) (src : γ) :
    resume listen_socket order (.event e todo) p (.data recv_len bytes src)
      = some (.wait, p.malloc.2) := by
  unfold resume
  simp only [hb]
  by_cases h0 : recv_len = 0
  · rw [if_pos h0]
  · rw [if_neg h0, if_pos (by omega)]

/-- A read that returned something is handed over, unless it is longer than the buffer. -/
theorem resume_recv_chunk (hb : branch listen_socket e.1 = .recv) {recv_len : Int}
    (h : 0 < recv_len) (bytes : List UInt8) (src : γ) :
    resume listen_socket order (.event e todo) p (.data recv_len bytes src) =
      if recv_len > RECV_BUFFER_LEN then some (.next todo, p.malloc.2)
      else some (.received p.fresh (.received e.1.fd bytes) src e todo, p.malloc.2) := by
  unfold resume
  simp only [hb]
  rw [if_neg (by omega), if_neg (by omega)]
  rfl

/-- Any other event only costs its argument block. -/
theorem resume_skip (hb : branch listen_socket e.1 = .skip) :
    resume listen_socket order (.event e todo) p .done = some (.next todo, p.malloc.2) := by
  unfold resume
  simp only [hb]

end Event

end SensorServer.Loop
