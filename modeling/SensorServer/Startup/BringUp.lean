/-
  SensorServer.Startup.BringUp — from the address to the loop.

  `start_tcp_server` makes a socket, binds it, listens, makes the epoll instance, and registers
  the socket there once it does not block any more.  Each call may fail, and all failures but
  one end the process.  `startTcpServer_follows` says that this is a list of checked calls,
  carried out up to the first that fails, and `start_tcp_server_cases` what has been done then;
  `process_enters` follows the process from its command line into the loop.
-/
import SensorServer.Framework.Traced
import SensorServer.Loop.StartEpoll
import SensorServer.Startup.Main

namespace SensorServer.Startup

open SensorServer.Framework
open SensorServer.Loop (EpollFlags)

/-! ## §1. System calls. -/

/-- `O_NONBLOCK`. -/
def O_NONBLOCK : Nat := 2048

/-- `SOCK_STREAM` and `SOCK_DGRAM`. -/
inductive SocketType where
  | SOCK_STREAM
  | SOCK_DGRAM
  deriving Repr, DecidableEq

/-- A system call of the start. -/
inductive SysCall where
  | socket (domain : Nat) (type : SocketType)
  | setsockopt (fd : Int)
  | bind (fd : Int) (addr : SockAddrIn)
  | listen (fd : Int) (backlog : Nat)
  | epollCreate (size : Nat)
  | fcntlGetfl (fd : Int)
  | fcntlSetfl (fd : Int) (flags : Int)
  | epollCtlAdd (epoll_fd : Int) (fd : Int) (events : EpollFlags)
  deriving Repr, DecidableEq

/-- What a system call returns, and `errno` after it. -/
structure Returned where
  value : Int
  errno : Int
  deriving Repr, DecidableEq

/-- The system the program is started on.  No call is made twice, so that what it returns is a
function of the call. -/
structure Host where
  inetAddr : CString → Nat
  answer : SysCall → Returned
  /-- `errno` after a log line, from what it was before. -/
  logged : Int → Int

/-- The log lines of the start. -/
inductive LogLine where
  /-- `log_error("<what>: %d", errno)`. -/
  | error (what : String) (errno : Int)
  /-- `log_error("fcntl")`. -/
  | errorFcntl
  /-- `log_debug("fcntl")`. -/
  | debugFcntl
  /-- `log_debug("Server started %s@[%s:%d]", ..)`. -/
  | started (type : String) (ip : CString) (port : Int)
  deriving DecidableEq

/-- What the start does. -/
inductive StartEvent where
  | call (c : SysCall)
  | log (line : LogLine)
  | exit (status : Int)
  deriving DecidableEq

/-! ## §2. The functions. -/

section Functions

variable (h : Host)

/-- Make a call. -/
def ask (c : SysCall) : Traced StartEvent Returned := do
  Traced.emit (.call c)
  pure (h.answer c)

/-- A log line, then `exit`. -/
def giveUp {α : Type} (line : LogLine) (status : Int) : Traced StartEvent α := do
  Traced.emit (.log line)
  Traced.emit (.exit status)
  Traced.stop

/-- `format_type(type)`, for the two types there are. -/
def formatType : SocketType → String
  | .SOCK_STREAM => "TCP"
  | .SOCK_DGRAM => "UCP"

/-- `set_no_block(fd)`. -/
def setNoBlock (fd : Int) : Traced StartEvent Unit := do
  let fl ← ask h (.fcntlGetfl fd)
  if fl.value < 0 then giveUp .debugFcntl 1
  else
    let r ← ask h (.fcntlSetfl fd (fl.value.toNat ||| O_NONBLOCK))
    if r.value ≠ 0 then giveUp .errorFcntl 1
    else pure ()

/-- `init_socket(ip, port, type)`. -/
def initSocket (ip : CString) (port : Int) (type : SocketType) : Traced StartEvent Int := do
  let listen_socket ← ask h (.socket AF_INET type)
  if listen_socket.value < 0 then giveUp (.error "init_socket" listen_socket.errno) 1
  else
    let _ ← ask h (.setsockopt listen_socket.value)
    let r ← ask h (.bind listen_socket.value (localAddr h.inetAddr ip port))
    if r.value < 0 then giveUp (.error "bind" r.errno) 1
    else if type = .SOCK_STREAM then
      let r ← ask h (.listen listen_socket.value 5)
      if r.value < 0 then giveUp (.error "listen" r.errno) 3
      else
        Traced.emit (.log (.started (formatType type) ip port))
        pure listen_socket.value
    else pure listen_socket.value

/-- `init_tcp_socket(ip, port)`. -/
def initTcpSocket (ip : CString) (port : Int) : Traced StartEvent Int :=
  initSocket h ip port .SOCK_STREAM

/-- If the event binds a socket, it binds it to `addr`. -/
def BindsOnly (addr : SockAddrIn) (e : StartEvent) : Prop :=
  ∀ fd addr', e = .call (.bind fd addr') → addr' = addr

theorem ask_bindsOnly {addr : SockAddrIn} {c : SysCall}
    (hc : ∀ fd addr', c = .bind fd addr' → addr' = addr) :
    Traced.Spec (BindsOnly addr) (fun _ => True) (ask h c) :=
  .emit_then (fun fd addr' he => hc fd addr' (StartEvent.call.inj he)) (.pure trivial)

theorem giveUp_bindsOnly {addr : SockAddrIn} {line : LogLine} {status : Int} :
    Traced.Spec (BindsOnly addr) (fun _ => True) (giveUp line status : Traced StartEvent Int) := by
  refine .emit_then ?_ (.emit_then ?_ .stop) <;> intro fd addr' he <;> cases he

/-- **The address that is bound**: the only one `init_socket` binds is the one it has filled,
whatever the system answers. -/
theorem initSocket_binds (ip : CString) (port : Int) (type : SocketType) :
    Traced.Spec (BindsOnly (localAddr h.inetAddr ip port)) (fun _ => True)
      (initSocket h ip port type) := by
  refine (ask_bindsOnly h (by rintro fd addr' ⟨⟩)).bind fun listen_socket _ => ?_
  split
  · exact giveUp_bindsOnly
  refine (ask_bindsOnly h (by rintro fd addr' ⟨⟩)).bind fun _ _ => ?_
  refine (ask_bindsOnly h fun _ _ hcall => (SysCall.bind.inj hcall).2.symm).bind fun bound _ => ?_
  split
  · exact giveUp_bindsOnly
  split
  · refine (ask_bindsOnly h (by rintro fd addr' ⟨⟩)).bind fun listens _ => ?_
    split
    · exact giveUp_bindsOnly
    · exact .emit_then (by rintro fd addr' ⟨⟩) (.pure trivial)
  · exact .pure trivial

/-- The interest set of the listening socket. -/
def listenInterest : EpollFlags := { epollin := true, epollet := true }

/-- `init_epoll(listen_socket)`. -/
def initEpoll (listen_socket : Int) : Traced StartEvent Int := do
  let epoll_fd ← ask h (.epollCreate 1)
  if epoll_fd.value < 0 then
    giveUp (.error "epoll_create" epoll_fd.errno) (h.logged epoll_fd.errno)
  else
    setNoBlock h listen_socket
    let r ← ask h (.epollCtlAdd epoll_fd.value listen_socket listenInterest)
    if r.value < 0 then giveUp (.error "epoll_ctl" r.errno) (h.logged r.errno)
    else pure epoll_fd.value

/-- `start_epoll(epoll_fd, listen_socket)`, up to its loop; `errno` is what it is at the call. -/
def startEpoll (epoll_fd listen_socket errno : Int) : Traced StartEvent (Int × Int) :=
  if epoll_fd < 0 then giveUp (.error "init_epoll" errno) (h.logged errno)
  else pure (epoll_fd, listen_socket)

/-- `start_tcp_server(ip, port)`, up to the loop. -/
def startTcpServer (ip : CString) (port errno : Int) : Traced StartEvent (Int × Int) := do
  let listen_socket ← initTcpSocket h ip port
  let epoll_fd ← initEpoll h listen_socket
  startEpoll h epoll_fd listen_socket errno

/-! ## §3. The calls as a list. -/

/-- A call, when what it returns is a failure, and what a failure does. -/
structure Checked where
  call : SysCall
  fails : Int → Bool
  line : Int → LogLine
  status : Int → Int
  /-- The log lines after a success. -/
  success : List LogLine

/-- A call whose answer is not looked at. -/
def ignored (call : SysCall) : Checked :=
  ⟨call, fun _ => false, fun _ => .errorFcntl, fun _ => 0, []⟩

/-- Make the calls up to the first that fails. -/
def carryOut : List Checked → List StartEvent
  | [] => []
  | c :: cs =>
      if c.fails (h.answer c.call).value then
        [.call c.call, .log (c.line (h.answer c.call).errno),
          .exit (c.status (h.answer c.call).errno)]
      else .call c.call :: (c.success.map .log ++ carryOut cs)

/-- The listening socket and the epoll instance, where they could be made. -/
def listenFd : Int := (h.answer (.socket AF_INET .SOCK_STREAM)).value
def epollFd : Int := (h.answer (.epollCreate 1)).value

/-- The flags `set_no_block` sets. -/
def flags : Int := (h.answer (.fcntlGetfl (listenFd h))).value.toNat ||| O_NONBLOCK

def negative (r : Int) : Bool := r < 0

def checkSocket : Checked :=
  ⟨.socket AF_INET .SOCK_STREAM, negative, .error "init_socket", fun _ => 1, []⟩

def checkBind (ip : CString) (port : Int) : Checked :=
  ⟨.bind (listenFd h) ⟨AF_INET, htons port, h.inetAddr ip⟩, negative, .error "bind",
    fun _ => 1, []⟩

def checkListen (ip : CString) (port : Int) : Checked :=
  ⟨.listen (listenFd h) 5, negative, .error "listen", fun _ => 3, [.started "TCP" ip port]⟩

def checkEpollCreate : Checked :=
  ⟨.epollCreate 1, negative, .error "epoll_create", h.logged, []⟩

def checkGetfl : Checked :=
  ⟨.fcntlGetfl (listenFd h), negative, fun _ => .debugFcntl, fun _ => 1, []⟩

def checkSetfl : Checked :=
  ⟨.fcntlSetfl (listenFd h) (flags h), fun r => r ≠ 0, fun _ => .errorFcntl, fun _ => 1, []⟩

def checkEpollCtl : Checked :=
  ⟨.epollCtlAdd (epollFd h) (listenFd h) listenInterest, negative, .error "epoll_ctl",
    h.logged, []⟩

/-- The calls of `start_tcp_server`, in order. -/
def plan (ip : CString) (port : Int) : List Checked :=
  [checkSocket, ignored (.setsockopt (listenFd h)), checkBind h ip port, checkListen h ip port]
    ++ ([checkEpollCreate h] ++ ([checkGetfl h, checkSetfl h] ++ [checkEpollCtl h]))

/-- The call succeeds. -/
def Checked.Passes (c : Checked) : Prop := c.fails (h.answer c.call).value = false

instance (c : Checked) : Decidable (c.Passes h) := by
  unfold Checked.Passes
  infer_instance

variable {h}

theorem carryOut_cons_pos {c : Checked} (hc : c.Passes h) (cs : List Checked) :
    carryOut h (c :: cs) = .call c.call :: (c.success.map .log ++ carryOut h cs) :=
  if_neg (by rw [hc]; exact Bool.false_ne_true)

theorem carryOut_cons_neg {c : Checked} (hc : ¬ c.Passes h) (cs : List Checked) :
    carryOut h (c :: cs) = [.call c.call, .log (c.line (h.answer c.call).errno),
      .exit (c.status (h.answer c.call).errno)] :=
  if_pos (Bool.of_not_eq_false hc)

theorem carryOut_append {cs : List Checked} (hcs : ¬ ∀ c ∈ cs, c.Passes h) (ds : List Checked) :
    carryOut h (cs ++ ds) = carryOut h cs := by
  induction cs with
  | nil => exact absurd (fun c hc => absurd hc List.not_mem_nil) hcs
  | cons c cs ih =>
      rw [List.cons_append]
      by_cases hc : c.Passes h
      · have hrest : ¬ ∀ c ∈ cs, c.Passes h := fun h' => hcs (List.forall_mem_cons.mpr ⟨hc, h'⟩)
        rw [carryOut_cons_pos hc, carryOut_cons_pos hc, ih hrest]
      · rw [carryOut_cons_neg hc, carryOut_cons_neg hc]

theorem carryOut_append_of_passes {cs : List Checked} (hcs : ∀ c ∈ cs, c.Passes h)
    (ds : List Checked) : carryOut h (cs ++ ds) = carryOut h cs ++ carryOut h ds := by
  induction cs with
  | nil => rfl
  | cons c cs ih =>
      obtain ⟨hc, hrest⟩ := List.forall_mem_cons.mp hcs
      rw [List.cons_append, carryOut_cons_pos hc, carryOut_cons_pos hc, ih hrest,
        List.cons_append, List.append_assoc]

/-- A piece of the start carries out the calls `cs` and returns `v` if none fails. -/
structure Follows {α : Type} (h : Host) (m : Traced StartEvent α) (cs : List Checked) (v : α) :
    Prop where
  trace : m.trace = carryOut h cs
  result : m.result = if ∀ c ∈ cs, c.Passes h then some v else none

namespace Follows

variable {α β : Type} {cs ds : List Checked} {v : α} {w : β}

theorem pure (v : α) : Follows h (pure v) [] v where
  trace := rfl
  result := by simp

theorem of_eq {m m' : Traced StartEvent α} (heq : m = m') (hm : Follows h m' cs v) :
    Follows h m cs v := by
  rw [heq]
  exact hm

/-- A call, and what follows it. -/
theorem ask (c : Checked) {k : Returned → Traced StartEvent α}
    (hfail : ¬ c.Passes h → k (h.answer c.call)
      = giveUp (c.line (h.answer c.call).errno) (c.status (h.answer c.call).errno))
    (htrace : c.Passes h → (k (h.answer c.call)).trace = c.success.map .log ++ carryOut h cs)
    (hresult : c.Passes h → (k (h.answer c.call)).result
      = if ∀ c ∈ cs, c.Passes h then some v else none) :
    Follows h (Startup.ask h c.call >>= k) (c :: cs) v := by
  have hask : Startup.ask h c.call >>= k
      = ⟨.call c.call :: (k (h.answer c.call)).trace, (k (h.answer c.call)).result⟩ := rfl
  by_cases hc : c.Passes h
  · constructor
    · rw [hask, carryOut_cons_pos hc, ← htrace hc]
    · rw [hask, hresult hc]
      exact if_congr (by rw [List.forall_mem_cons, and_iff_right hc]) rfl rfl
  · constructor
    · rw [hask, carryOut_cons_neg hc, hfail hc]
      rfl
    · rw [hask, hfail hc, if_neg (fun h' => hc (h' c List.mem_cons_self))]
      rfl

/-- A call, and a piece after it. -/
theorem ask_then (c : Checked) {k : Returned → Traced StartEvent α} (hsuccess : c.success = [])
    (hfail : ¬ c.Passes h → k (h.answer c.call)
      = giveUp (c.line (h.answer c.call).errno) (c.status (h.answer c.call).errno))
    (hpass : c.Passes h → Follows h (k (h.answer c.call)) cs v) :
    Follows h (Startup.ask h c.call >>= k) (c :: cs) v := by
  apply ask c hfail
  · intro hc
    rw [(hpass hc).trace, hsuccess]
    rfl
  · intro hc
    exact (hpass hc).result

/-- One piece after another. -/
theorem bind {m : Traced StartEvent α} {f : α → Traced StartEvent β} (hm : Follows h m cs v)
    (hf : (∀ c ∈ cs, c.Passes h) → Follows h (f v) ds w) : Follows h (m >>= f) (cs ++ ds) w := by
  obtain ⟨trace, result⟩ := m
  obtain ⟨htrace, hresult⟩ := hm
  dsimp only at htrace hresult
  by_cases hcs : ∀ c ∈ cs, c.Passes h
  · rw [if_pos hcs] at hresult
    subst hresult
    have hnext := hf hcs
    constructor
    · rw [Traced.some_bind, carryOut_append_of_passes hcs, ← htrace, ← hnext.trace]
    · rw [Traced.some_bind, hnext.result]
      refine if_congr ?_ rfl rfl
      rw [List.forall_mem_append, and_iff_right hcs]
  · rw [if_neg hcs] at hresult
    subst hresult
    constructor
    · rw [Traced.none_bind, carryOut_append hcs, ← htrace]
    · rw [Traced.none_bind, if_neg]
      intro h'
      exact hcs (List.forall_mem_append.mp h').1

end Follows

/-- A call that fails with a negative answer, and the branch on it. -/
theorem branch_of_fails {α : Type} {c : Checked} (hc : c.fails = negative)
    (m m' : Traced StartEvent α) :
    (¬ c.Passes h → (if (h.answer c.call).value < 0 then m else m') = m)
      ∧ (c.Passes h → (if (h.answer c.call).value < 0 then m else m') = m') := by
  unfold Checked.Passes
  rw [hc]
  constructor
  · intro hfails
    exact if_pos (of_decide_eq_true (Bool.of_not_eq_false hfails))
  · intro hpasses
    exact if_neg (of_decide_eq_false hpasses)

/-! ## §4. The functions carry out the list. -/

theorem setNoBlock_follows :
    Follows h (setNoBlock h (listenFd h)) [checkGetfl h, checkSetfl h] () := by
  apply Follows.ask_then (checkGetfl h) rfl
  · exact (branch_of_fails rfl _ _).1
  · intro hget
    apply Follows.of_eq ((branch_of_fails rfl _ _).2 hget)
    apply Follows.ask_then (checkSetfl h) rfl
    · intro hset
      exact if_pos (of_decide_eq_true (Bool.of_not_eq_false hset))
    · intro hset
      apply Follows.of_eq (if_neg (of_decide_eq_false hset))
      exact Follows.pure ()

theorem initTcpSocket_follows (ip : CString) (port : Int) :
    Follows h (initTcpSocket h ip port)
      [checkSocket, ignored (.setsockopt (listenFd h)), checkBind h ip port,
        checkListen h ip port] (listenFd h) := by
  apply Follows.ask_then checkSocket rfl
  · exact (branch_of_fails rfl _ _).1
  intro hsocket
  apply Follows.of_eq ((branch_of_fails rfl _ _).2 hsocket)
  apply Follows.ask_then (ignored (.setsockopt (listenFd h))) rfl
  · intro hnever
    exact absurd rfl hnever
  intro _
  apply Follows.ask_then (checkBind h ip port) rfl
  · exact (branch_of_fails rfl _ _).1
  intro hbind
  apply Follows.of_eq ((branch_of_fails rfl _ _).2 hbind)
  -- `listen` is followed by a log line
  apply Follows.ask (checkListen h ip port)
  · exact (branch_of_fails rfl _ _).1
  · intro hlisten
    exact congrArg Traced.trace ((branch_of_fails rfl _ _).2 hlisten)
  · intro hlisten
    exact congrArg Traced.result ((branch_of_fails rfl _ _).2 hlisten)

theorem initEpoll_follows :
    Follows h (initEpoll h (listenFd h))
      ([checkEpollCreate h] ++ ([checkGetfl h, checkSetfl h] ++ [checkEpollCtl h])) (epollFd h) := by
  apply Follows.ask_then (checkEpollCreate h) rfl
  · exact (branch_of_fails rfl _ _).1
  intro hcreate
  apply Follows.of_eq ((branch_of_fails rfl _ _).2 hcreate)
  apply Follows.bind setNoBlock_follows
  intro _
  apply Follows.ask_then (checkEpollCtl h) rfl
  · exact (branch_of_fails rfl _ _).1
  intro hctl
  apply Follows.of_eq ((branch_of_fails rfl _ _).2 hctl)
  exact Follows.pure _

/-- The check `start_epoll` makes of its argument has been made before. -/
theorem epollFd_nonneg (hpass : (checkEpollCreate h).Passes h) : ¬ epollFd h < 0 :=
  of_decide_eq_false hpass

theorem startTcpServer_follows (ip : CString) (port errno : Int) :
    Follows h (startTcpServer h ip port errno) (plan h ip port) (epollFd h, listenFd h) := by
  apply Follows.bind (initTcpSocket_follows ip port)
  intro _
  have hloop : (∀ c ∈ [checkEpollCreate h] ++ ([checkGetfl h, checkSetfl h] ++ [checkEpollCtl h]),
      c.Passes h) →
      Follows h (startEpoll h (epollFd h) (listenFd h) errno) [] (epollFd h, listenFd h) := by
    intro hpasses
    have hcreate := hpasses (checkEpollCreate h) List.mem_cons_self
    exact Follows.of_eq (if_neg (epollFd_nonneg hcreate)) (Follows.pure _)
  have hinit := initEpoll_follows.bind
    (f := fun epoll_fd => startEpoll h epoll_fd (listenFd h) errno) hloop
  rw [List.append_nil] at hinit
  exact hinit

/-! ## §5. The two outcomes. -/

/-- What a call that succeeds does. -/
def Checked.events (c : Checked) : List StartEvent := .call c.call :: c.success.map .log

theorem carryOut_of_passes {cs : List Checked} (hcs : ∀ c ∈ cs, c.Passes h) :
    carryOut h cs = cs.flatMap Checked.events := by
  induction cs with
  | nil => rfl
  | cons c cs ih =>
      obtain ⟨hc, hrest⟩ := List.forall_mem_cons.mp hcs
      rw [carryOut_cons_pos hc, ih hrest]
      rfl

/-- A list of calls goes through, or up to its first failure. -/
theorem carryOut_cases (cs : List Checked) :
    ((∀ c ∈ cs, c.Passes h) ∧ carryOut h cs = cs.flatMap Checked.events)
      ∨ ∃ before c later, cs = before ++ c :: later ∧ (∀ b ∈ before, b.Passes h) ∧ ¬ c.Passes h
        ∧ carryOut h cs = before.flatMap Checked.events
          ++ [.call c.call, .log (c.line (h.answer c.call).errno),
            .exit (c.status (h.answer c.call).errno)] := by
  induction cs with
  | nil => exact .inl ⟨fun c hc => absurd hc List.not_mem_nil, rfl⟩
  | cons c cs ih =>
      by_cases hc : c.Passes h
      · rcases ih with ⟨hpass, -⟩ | ⟨before, d, later, rfl, hbefore, hd, htrace⟩
        · left
          have hall : ∀ d ∈ c :: cs, d.Passes h := List.forall_mem_cons.mpr ⟨hc, hpass⟩
          exact ⟨hall, carryOut_of_passes hall⟩
        · right
          refine ⟨c :: before, d, later, rfl, List.forall_mem_cons.mpr ⟨hc, hbefore⟩, hd, ?_⟩
          rw [carryOut_cons_pos hc, htrace, List.flatMap_cons, List.append_assoc]
          rfl
      · right
        refine ⟨[], c, cs, rfl, fun b hb => absurd hb List.not_mem_nil, hc, ?_⟩
        exact carryOut_cons_neg hc cs

/-- **The start**, whatever the system answers: either no call fails, and the loop is entered on an
epoll instance that is one, the socket bound, listening, not blocking and registered; or the
process ends at the first call that fails, with that call's log line and status, and no call after
it is made. -/
theorem start_tcp_server_cases (h : Host) (ip : CString) (port errno : Int) :
    ((∀ c ∈ plan h ip port, c.Passes h)
        ∧ (startTcpServer h ip port errno).result = some (epollFd h, listenFd h)
        ∧ 0 ≤ epollFd h ∧ 0 ≤ listenFd h
        ∧ (startTcpServer h ip port errno).trace = (plan h ip port).flatMap Checked.events)
      ∨ ∃ before c later, plan h ip port = before ++ c :: later
        ∧ (∀ b ∈ before, b.Passes h) ∧ ¬ c.Passes h
        ∧ (startTcpServer h ip port errno).result = none
        ∧ (startTcpServer h ip port errno).trace = before.flatMap Checked.events
          ++ [.call c.call, .log (c.line (h.answer c.call).errno),
            .exit (c.status (h.answer c.call).errno)] := by
  obtain ⟨htrace, hresult⟩ := startTcpServer_follows (h := h) ip port errno
  rcases carryOut_cases (h := h) (plan h ip port) with
    ⟨hpass, hall⟩ | ⟨before, c, later, hplan, hbefore, hc, hfirst⟩
  · left
    have hepoll : 0 ≤ epollFd h :=
      Int.not_lt.mp (epollFd_nonneg (hpass _ (by simp [plan])))
    have hlisten : 0 ≤ listenFd h :=
      Int.not_lt.mp (of_decide_eq_false (hpass checkSocket (by simp [plan])))
    refine ⟨hpass, ?_, hepoll, hlisten, htrace.trans hall⟩
    rw [hresult, if_pos hpass]
  · right
    refine ⟨before, c, later, hplan, hbefore, hc, ?_, htrace.trans hfirst⟩
    rw [hresult, if_neg]
    intro hpass
    apply hc
    apply hpass
    rw [hplan]
    exact List.mem_append_right _ List.mem_cons_self

end Functions

/-- A system on which `bind` fails: the process ends with the status 1. -/
example : (startTcpServer ⟨fun _ => 0, fun c => ⟨match c with | .bind _ _ => -1 | _ => 3, 98⟩, id⟩
      [] 80 0).trace
    = [.call (.socket AF_INET .SOCK_STREAM), .call (.setsockopt 3),
      .call (.bind 3 ⟨AF_INET, htons 80, 0⟩), .log (.error "bind" 98), .exit 1] := by
  decide

/-! ## §6. From the command line to the loop. -/

/-- The process, from its command line to the loop: `main`, then `start_tcp_server`. -/
def process (h : Host) (ρ : MainResidue) (posix : Bool) (argv : List CString) (errno : Int) :
    Traced StartEvent (Int × Int) :=
  match main ρ posix argv with
  | .ok s => startTcpServer h s.ip s.port errno
  | .error (.exit code) => do
      Traced.emit (.exit code)
      Traced.stop
  | .error .fault => Traced.stop

section Process

variable {h : Host} {ρ : MainResidue} {posix : Bool} {argv : List CString} {errno : Int}

/-- The loop is entered from `main` only. -/
theorem main_of_process {fds : Int × Int}
    (hfds : (process h ρ posix argv errno).result = some fds) :
    ∃ s, main ρ posix argv = .ok s
      ∧ (startTcpServer h s.ip s.port errno).result = some fds := by
  unfold process at hfds
  cases hmain : main ρ posix argv with
  | ok s =>
      rw [hmain] at hfds
      exact ⟨s, rfl, hfds⟩
  | error stop =>
      rw [hmain] at hfds
      cases stop <;> cases hfds

theorem process_of_main {s : Started} (hmain : main ρ posix argv = .ok s) :
    process h ρ posix argv errno = startTcpServer h s.ip s.port errno := by
  unfold process
  rw [hmain]

/-- What has been called where the loop is entered. -/
theorem calls_of_enters {ip : CString} {port : Int} {fds : Int × Int}
    (hfds : (startTcpServer h ip port errno).result = some fds) :
    (∀ c ∈ plan h ip port, c.Passes h) ∧ fds = (epollFd h, listenFd h)
      ∧ ∀ c ∈ plan h ip port, .call c.call ∈ (startTcpServer h ip port errno).trace := by
  obtain ⟨htrace, hresult⟩ := startTcpServer_follows (h := h) ip port errno
  by_cases hpass : ∀ c ∈ plan h ip port, c.Passes h
  · rw [if_pos hpass] at hresult
    refine ⟨hpass, Option.some.inj (hfds.symm.trans hresult), ?_⟩
    intro c hc
    rw [htrace, carryOut_of_passes hpass, List.mem_flatMap]
    exact ⟨c, hc, List.mem_cons_self⟩
  · rw [if_neg hpass, hfds] at hresult
    cases hresult

/-- **From the command line to the loop.**  The loop is entered exactly if `main` gets through its
options and no system call of the start fails.  If moreover the options ask well, then the socket
the loop is given was bound to the last address and port among them, listens, and is registered
with the epoll instance the loop is given. -/
theorem process_enters (h : Host) (ρ : MainResidue) (posix : Bool) (argv : List CString)
    (errno : Int) :
    ((∃ fds, (process h ρ posix argv errno).result = some fds)
        ↔ ∃ s, main ρ posix argv = .ok s ∧ ∀ c ∈ plan h s.ip s.port, c.Passes h)
      ∧ ∀ fds, (process h ρ posix argv errno).result = some fds → AsksWell (getopt posix argv) →
        ∃ host port sin_port, (hosts (getopt posix argv)).getLast? = some host
          ∧ (ports (getopt posix argv)).getLast? = some port
          ∧ (ntohs sin_port : Int) = CString.number port
          ∧ .call (.bind fds.2 ⟨AF_INET, sin_port, h.inetAddr host⟩)
            ∈ (process h ρ posix argv errno).trace
          ∧ .call (.listen fds.2 5) ∈ (process h ρ posix argv errno).trace
          ∧ .call (.epollCtlAdd fds.1 fds.2 listenInterest)
            ∈ (process h ρ posix argv errno).trace := by
  refine ⟨⟨?_, ?_⟩, ?_⟩
  · rintro ⟨fds, hfds⟩
    obtain ⟨s, hmain, hstart⟩ := main_of_process hfds
    exact ⟨s, hmain, (calls_of_enters hstart).1⟩
  · rintro ⟨s, hmain, hpass⟩
    refine ⟨(epollFd h, listenFd h), ?_⟩
    rw [process_of_main hmain, (startTcpServer_follows s.ip s.port errno).result, if_pos hpass]
  · intro fds hfds hwell
    obtain ⟨s, hmain, hstart⟩ := main_of_process hfds
    obtain ⟨-, rfl, hcalls⟩ := calls_of_enters hstart
    obtain ⟨-, host, port, hhost, hport, hip, -, hnumber⟩ :=
      startsOn_asked h.inetAddr (main_ok hmain) hwell
    refine ⟨host, port, htons s.port, hhost, hport, hnumber, ?_, ?_, ?_⟩
    · rw [process_of_main hmain, ← hip]
      exact hcalls (checkBind h s.ip s.port) (by simp [plan])
    · rw [process_of_main hmain]
      exact hcalls (checkListen h s.ip s.port) (by simp [plan])
    · rw [process_of_main hmain]
      exact hcalls (checkEpollCtl h) (by simp [plan])

end Process

/-- A system on which nothing fails. -/
def allWell : Host where
  inetAddr _ := 0
  answer
    | .fcntlSetfl _ _ => ⟨0, 0⟩
    | _ => ⟨3, 0⟩
  logged := id

theorem allWell_passes (ip : CString) (port : Int) :
    ∀ c ∈ plan allWell ip port, c.Passes allWell := by
  simp only [plan, List.cons_append, List.nil_append, List.forall_mem_cons, List.not_mem_nil,
    false_implies, implies_true, and_true]
  exact ⟨rfl, rfl, rfl, rfl, rfl, rfl, rfl, rfl⟩

/-- The options `-h 127.0.0.1 -p 80`. -/
def plainly : List (CChar × CString) :=
  [(optHost, CString.ofBytes [49, 50, 55, 46, 48, 46, 48, 46, 49]),
    (optPort, CString.ofBytes [56, 48])]

/-- The command line `sserver -h 127.0.0.1 -p 80` ends in the loop, on a socket bound to port
80. -/
theorem process_enters_plainly :
    ∃ fds, (process allWell ⟨List.replicate 15 0, 0, fun _ port => some port⟩ false
        (CString.ofBytes [115] :: plainly.flatMap (GetOpt.write dash)) 0).result = some fds
      ∧ ∃ sin_port, ntohs sin_port = 80
        ∧ .call (.bind fds.2 ⟨AF_INET, sin_port, 0⟩)
          ∈ (process allWell ⟨List.replicate 15 0, 0, fun _ port => some port⟩ false
            (CString.ofBytes [115] :: plainly.flatMap (GetOpt.write dash)) 0).trace := by
  have hopts := getopt_write false (CString.ofBytes [115]) plainly (by decide)
  have hthrough : GetsThrough ⟨List.replicate 15 0, 0, fun _ port => some port⟩
      (getopt false (CString.ofBytes [115] :: plainly.flatMap (GetOpt.write dash))) := by
    rw [hopts]
    refine ⟨?_, ⟨_, rfl, by decide⟩, 80, by decide, by decide⟩
    intro o ho
    rcases List.mem_cons.mp ho with rfl | ho
    · exact ⟨_, .inl rfl⟩
    · exact ⟨_, .inr (List.mem_singleton.mp ho)⟩
  have hwell : AsksWell (getopt false
      (CString.ofBytes [115] :: plainly.flatMap (GetOpt.write dash))) := by
    rw [hopts]
    exact ⟨by decide, by decide, _, rfl, by decide, by decide⟩
  obtain ⟨henters, hcalls⟩ := process_enters allWell
    ⟨List.replicate 15 0, 0, fun _ port => some port⟩ false
    (CString.ofBytes [115] :: plainly.flatMap (GetOpt.write dash)) 0
  obtain ⟨s, hmain⟩ := main_gets_through hthrough
  obtain ⟨fds, hfds⟩ := henters.mpr ⟨s, hmain, allWell_passes _ _⟩
  obtain ⟨host, port, sin_port, -, hport, hnumber, hbind, -, -⟩ := hcalls fds hfds hwell
  rw [hopts] at hport
  obtain rfl : CString.ofBytes [56, 48] = port := Option.some.inj hport
  have heighty : (ntohs sin_port : Int) = 80 := hnumber
  exact ⟨fds, hfds, sin_port, by omega, hbind⟩

end SensorServer.Startup
