/-
  SensorServer.System.Kernel — connections as the kernel keeps them.

  A connection begins in the backlog, and once accepted is a client: an open descriptor with
  unread bytes, perhaps registered with epoll.  Connections are numbered by `conn`, which is
  never used twice; descriptor numbers are.

  Registrations are edge-triggered: `pending` is the mark the kernel sets when something
  happens to a registered socket, or when a registration finds it ready, and that
  `epoll_wait` clears when it reports the socket.
-/
import SensorServer.Loop.StartEpoll

namespace SensorServer.System

open SensorServer.Loop

/-! ## §1. Sockets. -/

/-- A connection. -/
structure Sock where
  conn : Nat
  /-- Bytes that have arrived and were not read. -/
  unread : List UInt8
  /-- The peer has closed its side. -/
  fin : Bool
  /-- The peer has reset the connection. -/
  rst : Bool
  deriving Repr, DecidableEq

/-- What arrives on a connection. -/
inductive Traffic where
  | data (bytes : List UInt8)
  | fin
  | rst
  /-- Nothing to read, but something to report, such as room to send. -/
  | wake
  deriving Repr, DecidableEq

/-- The bytes that arrive. -/
def Traffic.bytes : Traffic → List UInt8
  | .data bytes => bytes
  | _ => []

/-- The effect on the connection. -/
def Sock.receive (k : Sock) : Traffic → Sock
  | .data bytes => { k with unread := k.unread ++ bytes }
  | .fin => { k with fin := true }
  | .rst => { k with rst := true }
  | .wake => k

/-- An accepted connection whose socket is open. -/
structure Client extends Sock where
  fd : Int
  /-- The interest set the socket is registered with, if it is. -/
  interest : Option EpollFlags
  pending : Bool
  deriving Repr, DecidableEq

/-- A connection fresh from `accept`. -/
def Sock.accepted (k : Sock) (fd : Int) : Client := ⟨k, fd, none, false⟩

/-! ## §2. Readiness. -/

namespace Client

/-- What `epoll_wait` would report: input for unread bytes and at the end of the stream, the
peer's close only where the interest set asks for it, a hang-up always. -/
def readiness (c : Client) : EpollFlags :=
  match c.interest with
  | none => {}
  | some i =>
      { epollin := i.epollin && (!c.unread.isEmpty || c.fin || c.rst)
        epollout := i.epollout
        epollrdhup := i.epollrdhup && (c.fin || c.rst)
        epollhup := c.rst }

/-- There is something to report. -/
def ready (c : Client) : Bool := c.readiness ≠ {}

/-- Something arrives; a registered socket becomes pending. -/
def receive (t : Traffic) (c : Client) : Client :=
  { c with toSock := c.toSock.receive t, pending := c.pending || c.interest.isSome }

/-- `EPOLL_CTL_ADD` and `EPOLL_CTL_MOD`: a ready socket becomes pending. -/
def register (interest : EpollFlags) (c : Client) : Client :=
  let c := { c with interest := some interest }
  { c with pending := c.pending || c.ready }

/-- `epoll_wait` has reported the socket. -/
def reported (c : Client) : Client := { c with pending := false }

/-- `recv` has taken `n` bytes. -/
def read (n : Nat) (c : Client) : Client :=
  { c with toSock := { c.toSock with unread := c.unread.drop n } }

/-! ## §3. What stays the same. -/

variable (c : Client)

@[simp] theorem receive_conn (t : Traffic) : (c.receive t).conn = c.conn := by cases t <;> rfl
@[simp] theorem receive_fd (t : Traffic) : (c.receive t).fd = c.fd := rfl
@[simp] theorem receive_interest (t : Traffic) : (c.receive t).interest = c.interest := rfl
@[simp] theorem register_conn (i : EpollFlags) : (c.register i).conn = c.conn := rfl
@[simp] theorem register_fd (i : EpollFlags) : (c.register i).fd = c.fd := rfl
@[simp] theorem register_interest (i : EpollFlags) : (c.register i).interest = some i := rfl
@[simp] theorem register_unread (i : EpollFlags) : (c.register i).unread = c.unread := rfl
@[simp] theorem reported_conn : c.reported.conn = c.conn := rfl
@[simp] theorem reported_fd : c.reported.fd = c.fd := rfl
@[simp] theorem reported_interest : c.reported.interest = c.interest := rfl
@[simp] theorem reported_unread : c.reported.unread = c.unread := rfl
@[simp] theorem read_conn (n : Nat) : (c.read n).conn = c.conn := rfl
@[simp] theorem read_fd (n : Nat) : (c.read n).fd = c.fd := rfl
@[simp] theorem read_interest (n : Nat) : (c.read n).interest = c.interest := rfl
@[simp] theorem read_unread (n : Nat) : (c.read n).unread = c.unread.drop n := rfl
@[simp] theorem accepted_conn (k : Sock) (fd : Int) : (k.accepted fd).conn = k.conn := rfl
@[simp] theorem accepted_fd (k : Sock) (fd : Int) : (k.accepted fd).fd = fd := rfl
@[simp] theorem accepted_interest (k : Sock) (fd : Int) : (k.accepted fd).interest = none := rfl
@[simp] theorem accepted_unread (k : Sock) (fd : Int) : (k.accepted fd).unread = k.unread := rfl

theorem receive_sock_unread (k : Sock) (t : Traffic) :
    (k.receive t).unread = k.unread ++ t.bytes := by
  cases t <;> simp [Sock.receive, Traffic.bytes]

@[simp] theorem receive_sock_conn (k : Sock) (t : Traffic) : (k.receive t).conn = k.conn := by
  cases t <;> rfl

/-- A registration for input finds unread bytes. -/
theorem register_pending {i : EpollFlags} (hi : i.epollin = true) (h : c.unread ≠ []) :
    (c.register i).pending = true := by
  have hin : (c.register i).readiness.epollin = true := by
    show (i.epollin && (!c.unread.isEmpty || c.fin || c.rst)) = true
    simp [hi, h]
  have hready : (c.register i).ready = true := by
    unfold ready
    rw [decide_eq_true_eq]
    intro heq
    rw [heq] at hin
    cases hin
  show (c.pending || (c.register i).ready) = true
  rw [hready, Bool.or_true]

end Client

end SensorServer.System
