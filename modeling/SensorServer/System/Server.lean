/-
  SensorServer.System.Server — the event loop, the workers and the kernel together.

  A state of the system holds the accept backlog, the open client sockets, the process
  memory, the place where the event loop is, the queue of the thread pool and the jobs its
  workers run.  A label of `step` names one move of one party and every choice made in it:
  what arrives, what `epoll_wait` reports, what a system call returns, which job a worker
  takes.  The event loop is the machine of `Loop.StartEpoll`; here the kernel answers its
  calls.

  The pool runs every queued job once, on some worker, at some later time; nothing else is
  assumed of it.  `step` restricts the kernel as little as possible.  What a result assumes of
  it beyond that is a guard of the runs the result is about.
-/
import SensorServer.Parser.ParsePacket
import SensorServer.System.Kernel

namespace SensorServer.System

open SensorServer.Parser (ThArgs Event Residue parsePacketCall)
open SensorServer.Table
open SensorServer.Loop

/-! ## §1. States. -/

/-- What does not change during a run. -/
structure Config where
  listen_socket : Int
  order : IndexRead

/-- What an event was reported for: the listening socket, or a client as it was then. -/
abbrev Tag := Option Client

/-- A queued call of `parse_packet`: its block, and the connection `recv` read it from. -/
structure Job where
  addr : Nat
  conn : Option Nat
  args : ThArgs

/-- A job under way: the events of the current call still to come, and the block of the
next one. -/
structure Worker where
  job : Job
  todo : List Event
  next : Option ThArgs

/-- One call of the job, on the block `args`. -/
def Job.call (job : Job) (ρ : Residue) (args : ThArgs) : Worker :=
  ⟨job, (parsePacketCall ρ args).trace, (parsePacketCall ρ args).result⟩

/-- A job a worker has just taken. -/
def Job.start (job : Job) : Worker := ⟨job, [], some job.args⟩

/-- What has happened, for results that speak about the past. -/
inductive Obs where
  /-- Bytes arrived on a connection. -/
  | arrived (conn : Nat) (bytes : List UInt8)
  /-- Bytes of a connection were handed to the thread pool. -/
  | handed (conn : Nat) (bytes : List UInt8)
  /-- `epoll_del_fd` was called for an event, and counted one connection less. -/
  | decremented (tag : Tag)
  /-- The loop is done with an event. -/
  | handled (e : EpollEvent × Tag)
  deriving DecidableEq

/-- The whole system. -/
structure Server where
  backlog : List Sock
  /-- The listening socket is pending. -/
  listenPending : Bool
  clients : List Client
  /-- The number of the next connection. -/
  nextConn : Nat
  proc : Proc
  pc : LoopPc Tag
  queue : List Job
  workers : List Worker
  /-- The process has died. -/
  crashed : Bool
  log : List Obs

/-- Before the first connection, about to call `epoll_wait`. -/
def Server.init : Server where
  backlog := []
  listenPending := false
  clients := []
  nextConn := 0
  proc := .init
  pc := .wait
  queue := []
  workers := []
  crashed := false
  log := []

/-! ## §2. Labels. -/

/-- The choice the kernel makes when it answers a call of the loop. -/
inductive Choice where
  /-- The sockets `epoll_wait` reports, the listening one as `none`, each with its flags. -/
  | ready (reports : List (Option Nat × EpollFlags))
  /-- The descriptor `accept` returns; `none` when it fails. -/
  | accept (fd : Option Int)
  /-- Whether `epoll_ctl` succeeds. -/
  | ctl (ok : Bool)
  /-- The result of `recv`. -/
  | recv (n : Int)
  /-- No choice. -/
  | go
  deriving Repr, DecidableEq

/-- One move. -/
inductive Act where
  /-- A connection arrives. -/
  | connect
  /-- Something arrives on a connection. -/
  | traffic (conn : Nat) (t : Traffic)
  /-- The loop makes its call and goes on. -/
  | loop (c : Choice)
  /-- A worker takes the `k`-th queued job. -/
  | take (k : Nat)
  /-- The `w`-th job goes on; a call that begins finds the residue `ρ`. -/
  | work (w : Nat) (ρ : Residue)

/-! ## §3. The kernel's answers. -/

namespace Server

variable (cfg : Config) (s : Server)

/-- Change the clients that satisfy `p`. -/
def modify (p : Client → Bool) (f : Client → Client) : Server :=
  { s with clients := s.clients.map fun c => if p c then f c else c }

/-- `close(fd)`: the client at `fd` is gone, and with it its registration. -/
def closeFd (fd : Int) : Server := { s with clients := s.clients.filter fun c => c.fd ≠ fd }

/-- A connection that has arrived and is not closed. -/
def Knows (conn : Nat) : Prop :=
  (∃ k ∈ s.backlog, k.conn = conn) ∨ ∃ c ∈ s.clients, c.conn = conn

instance (conn : Nat) : Decidable (s.Knows conn) := by unfold Knows; infer_instance

/-- Something arrives on a connection, in the backlog or accepted. -/
def deliver (conn : Nat) (t : Traffic) : Server :=
  { s.modify (fun c => c.conn = conn) (Client.receive t) with
    backlog := s.backlog.map fun k => if k.conn = conn then k.receive t else k
    log := s.log ++ match t with
      | .data bytes => [.arrived conn bytes]
      | _ => [] }

/-- The event for a reported socket.  Only registered sockets are reported, and hang-ups only
for clients. -/
def report : Option Nat × EpollFlags → Option (EpollEvent × Tag)
  | (none, flags) =>
      if flags.epollrdhup ∨ flags.epollhup then none else some (⟨cfg.listen_socket, flags⟩, none)
  | (some conn, flags) =>
      (s.clients.find? fun c => c.conn = conn ∧ c.interest.isSome).map fun c =>
        (⟨c.fd, flags⟩, some c)

/-- The reported sockets are no longer pending. -/
def clearPending (reports : List (Option Nat × EpollFlags)) : Server :=
  { s.modify (fun c => some c.conn ∈ reports.map Prod.fst) Client.reported with
    listenPending := s.listenPending && !(none ∈ reports.map Prod.fst) }

/-- The kernel's side of a call of the loop.  `none` for a choice that does not belong to the
call or is not possible. -/
def serve : Call Tag → Choice → Option (Server × Reply Tag)
  | .epollWait, .ready reports =>
      if reports.length ≤ MAX_WAIT_FD_NUM ∧ (reports.map Prod.fst).Nodup then
        some (s.clearPending reports, .ready (reports.filterMap (s.report cfg)))
      else none
  | .accept, .accept none => some (s, .ret (-1))
  | .accept, .accept (some fd) =>
      match s.backlog with
      | [] => none
      | k :: backlog =>
          -- any number that is not in use, in particular one freed by a `close`
          if 0 ≤ fd ∧ fd ≠ cfg.listen_socket ∧ ∀ c ∈ s.clients, c.fd ≠ fd then
            some ({ s with backlog, clients := s.clients ++ [k.accepted fd] }, .ret fd)
          else none
  | .epollAddFd fd interest, .ctl true =>
      if ∃ c ∈ s.clients, c.fd = fd then
        some (s.modify (fun c => c.fd = fd) (Client.register interest), .ret 0)
      else none
  | .epollAddFd _ _, .ctl false => some (s, .ret (-1))
  | .addNewConnection _, .go => some (s, .done)
  | .epollDelFd fd, .go => some (s.closeFd fd, .done)
  | .recv fd len, .recv n =>
      if n ≤ 0 then some (s, .data n [] none)
      else
        match s.clients.find? fun c => c.fd = fd with
        | none => none
        | some c =>
            if n ≤ len ∧ n ≤ c.unread.length then
              some (s.modify (fun c => c.fd = fd) (Client.read n.toNat),
                .data n (c.unread.take n.toNat) (some c))
            else none
  | .thpoolAddWork addr args src, .go =>
      some ({ s with queue := s.queue ++ [⟨addr, src.map (·.conn), args⟩] }, .done)
  | .epollModFd fd interest, .ctl true =>
      if ∃ c ∈ s.clients, c.fd = fd ∧ c.interest.isSome then
        some (s.modify (fun c => c.fd = fd) (Client.register interest), .done)
      else none
  | .epollModFd _ _, .ctl false => some (s, .done)
  | .skip, .go => some (s, .done)
  | _, _ => none

end Server

/-! ## §4. Steps. -/

/-- What the call at a program counter has done. -/
def called (cfg : Config) : LoopPc Tag → List Obs
  | .event e _ =>
      if branch cfg.listen_socket e.1 = .epollDelFd then [.decremented e.2] else []
  | .received _ args src _ _ => src.toList.map fun c => .handed c.conn args.bytes
  | _ => []

/-- The event the loop is done with when it goes from `pc` to `pc'`. -/
def finished (pc : LoopPc Tag) : LoopPc Tag → List Obs
  | .wait | .event _ _ => pc.current.toList.map .handled
  | _ => []

@[simp] theorem finished_next (pc : LoopPc Tag) (todo : List (EpollEvent × Tag)) :
    finished pc (.next todo) = pc.current.toList.map .handled := by
  cases todo <;> rfl

namespace Server

variable (cfg : Config) (s : Server)

/-- The loop makes the call it is at, the kernel answers, and the code goes on. -/
def loop (c : Choice) : Option Server :=
  (s.serve cfg (s.pc.call cfg.listen_socket) c).bind fun (s', reply) =>
    (resume cfg.listen_socket cfg.order s.pc s.proc reply).map fun (pc, proc) =>
      { s' with pc, proc, log := s.log ++ called cfg s.pc ++ finished s.pc pc }

/-- The effect of one event of a job. -/
def perform (addr : Nat) : Event → Server
  | .close fd => s.closeFd fd
  | .freeArgs => { s with proc := s.proc.free addr }
  | .fault => { s with crashed := true }
  | _ => s

/-- A job goes on: with its next event, with its next call, or it is finished. -/
def work (w : Nat) (ρ : Residue) : Option Server :=
  match s.workers[w]? with
  | none => none
  | some x =>
      match x.todo, x.next with
      | e :: todo, _ =>
          some { s.perform x.job.addr e with workers := s.workers.set w ⟨x.job, todo, x.next⟩ }
      | [], some args => some { s with workers := s.workers.set w (x.job.call ρ args) }
      | [], none => some { s with workers := s.workers.eraseIdx w }

/-- A worker takes a queued job. -/
def take (k : Nat) : Option Server :=
  match s.queue[k]? with
  | none => none
  | some job =>
      some { s with
        queue := s.queue.eraseIdx k
        workers := s.workers ++ [job.start] }

/-- A connection arrives. -/
def connect : Server :=
  { s with
    backlog := s.backlog ++ [⟨s.nextConn, [], false, false⟩]
    listenPending := true
    nextConn := s.nextConn + 1 }

/-- One step.  A process that has died takes none. -/
def step : Act → Option Server
  | a =>
      if s.crashed then none
      else
        match a with
        | .connect => some s.connect
        | .traffic conn t => if s.Knows conn then some (s.deliver conn t) else none
        | .loop c => s.loop cfg c
        | .take k => s.take k
        | .work w ρ => s.work w ρ

/-- What holds of the clients after a change of some of them. -/
theorem forall_modify {P : Client → Prop} {p : Client → Bool} {f : Client → Client}
    (hf : ∀ c ∈ s.clients, p c = true → P (f c)) (hrest : ∀ c ∈ s.clients, p c = false → P c) :
    ∀ c ∈ (s.modify p f).clients, P c := by
  intro c hc
  obtain ⟨d, hd, rfl⟩ := List.mem_map.mp hc
  cases hp : p d with
  | true =>
      rw [if_pos rfl]
      exact hf d hd hp
  | false =>
      rw [if_neg Bool.false_ne_true]
      exact hrest d hd hp

/-- A client after a change of some of them comes from one before it. -/
theorem exists_of_modify {R : Client → Client → Prop} {p : Client → Bool} {f : Client → Client}
    (hf : ∀ c, R c (f c)) (hrefl : ∀ c, R c c) :
    ∀ c' ∈ (s.modify p f).clients, ∃ c ∈ s.clients, R c c' :=
  s.forall_modify (fun c hc _ => ⟨c, hc, hf c⟩) (fun c hc _ => ⟨c, hc, hrefl c⟩)

/-- A client is still there after a change that keeps connections. -/
theorem exists_modify {p : Client → Bool} {f : Client → Client} (hkey : ∀ c, (f c).conn = c.conn)
    {n : Nat} (h : ∃ c ∈ s.clients, c.conn = n) : ∃ c ∈ (s.modify p f).clients, c.conn = n := by
  obtain ⟨c, hc, hn⟩ := h
  refine ⟨_, List.mem_map_of_mem hc, ?_⟩
  split
  · exact (hkey c).trans hn
  · exact hn

section Perform

variable (addr : Nat) (e : Event)

@[simp] theorem perform_backlog : (s.perform addr e).backlog = s.backlog := by cases e <;> rfl
@[simp] theorem perform_listenPending :
    (s.perform addr e).listenPending = s.listenPending := by cases e <;> rfl
@[simp] theorem perform_nextConn : (s.perform addr e).nextConn = s.nextConn := by cases e <;> rfl
@[simp] theorem perform_pc : (s.perform addr e).pc = s.pc := by cases e <;> rfl
@[simp] theorem perform_queue : (s.perform addr e).queue = s.queue := by cases e <;> rfl
@[simp] theorem perform_log : (s.perform addr e).log = s.log := by cases e <;> rfl

theorem perform_clients (h : e.isClose = false) : (s.perform addr e).clients = s.clients := by
  cases e with
  | close fd => cases h
  | _ => rfl

end Perform

/-! ## §5. Linux. -/

/-- What `epoll_wait` reports of the listening socket. -/
def listenReadiness : EpollFlags := { epollin := !s.backlog.isEmpty }

/-- A report of a pending socket, with its readiness of the moment. -/
def Current : Option Nat × EpollFlags → Prop
  | (none, flags) => s.listenPending = true ∧ flags = s.listenReadiness
  | (some conn, flags) => ∃ c ∈ s.clients, c.conn = conn ∧ c.pending = true ∧ flags = c.readiness

instance : DecidablePred s.Current
  | (none, flags) => inferInstanceAs (Decidable (_ ∧ flags = _))
  | (some _, flags) => inferInstanceAs (Decidable (∃ c ∈ s.clients, _ ∧ _ ∧ flags = _))

/-- `epoll_wait` makes only such reports. -/
def Linux : Act → Prop
  | .loop (.ready reports) => ∀ r ∈ reports, s.Current r
  | _ => True

instance : DecidablePred s.Linux
  | .loop (.ready reports) => inferInstanceAs (Decidable (∀ r ∈ reports, s.Current r))
  | .loop (.accept _) | .loop (.ctl _) | .loop (.recv _) | .loop .go => .isTrue trivial
  | .connect | .traffic _ _ | .take _ | .work _ _ => .isTrue trivial

end Server

end SensorServer.System
