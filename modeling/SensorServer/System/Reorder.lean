/-
  SensorServer.System.Reorder — the order of the events in a batch.

  Hang-ups all do the same to the counter and the table, whoever they are of, and what an event
  does to sockets and chunks concerns its own descriptor.  So events of different clients
  commute, and every permutation of a batch leads to the same counter, the same table, the same
  sockets and the same chunks: `batch_order_irrelevant`.

  `View.effect` is what one event of a batch does, without the loop's program counters and
  without the addresses of blocks; `serve_batch` says that the loop computes it.
-/
import SensorServer.Framework.Transition
import SensorServer.System.Server

namespace SensorServer.System

open SensorServer.Framework
open SensorServer.Parser (ThArgs RECV_BUFFER_LEN)
open SensorServer.Table
open SensorServer.Loop

/-! ## §1. Events and answers. -/

/-- What the kernel answers for each descriptor: how many bytes `recv` returns, and whether
registering again succeeds. -/
structure Answers where
  recv : Int → Nat
  ctl : Int → Bool

/-- The moves of the loop for one event. -/
def Answers.moves (ans : Answers) (x : EpollEvent × Tag) : List Act :=
  if x.1.events.HangsUp then [.loop .go]
  else [.loop (.recv (ans.recv x.1.fd)), .loop .go, .loop (.ctl (ans.ctl x.1.fd))]

/-- The client at a descriptor. -/
def clientAt (clients : List Client) (fd : Int) : Option Client :=
  clients.find? fun c => c.fd = fd

/-- The event is of an open client, and a hang-up or input of which `recv` returns at least a
byte.  Only a registered client can be registered again. -/
def Answers.Serves (ans : Answers) (cfg : Config) (clients : List Client)
    (x : EpollEvent × Tag) : Prop :=
  0 ≤ x.1.fd ∧ x.1.fd ≠ cfg.listen_socket
    ∧ ∃ c, clientAt clients x.1.fd = some c
      ∧ (x.1.events.HangsUp ∨ x.1.events.epollin = true ∧ 0 < ans.recv x.1.fd
        ∧ ans.recv x.1.fd ≤ RECV_BUFFER_LEN ∧ ans.recv x.1.fd ≤ c.unread.length
        ∧ (ans.ctl x.1.fd = true → c.interest.isSome = true))

/-- What a chunk does to its client: the bytes are read, and it is registered again. -/
def Answers.serve (ans : Answers) (c : Client) : Client :=
  if ans.ctl c.fd then (c.read (ans.recv c.fd)).register rearmInterest else c.read (ans.recv c.fd)

/-- The client at `fd` is served. -/
def Answers.serveAt (ans : Answers) (fd : Int) (c : Client) : Client :=
  if c.fd = fd then ans.serve c else c

namespace Answers

variable (ans : Answers) {fd a b : Int} {c : Client}

@[simp] theorem serve_fd : (ans.serve c).fd = c.fd := by
  unfold serve
  split <;> rfl

theorem serveAt_same (h : c.fd = fd) : ans.serveAt fd c = ans.serve c := if_pos h

theorem serveAt_of_ne (h : c.fd ≠ fd) : ans.serveAt fd c = c := if_neg h

@[simp] theorem serveAt_fd : (ans.serveAt fd c).fd = c.fd := by
  unfold serveAt
  split
  · exact ans.serve_fd
  · rfl

theorem serveAt_comm (hne : a ≠ b) :
    ans.serveAt b (ans.serveAt a c) = ans.serveAt a (ans.serveAt b c) := by
  by_cases ha : c.fd = a
  · have hb : c.fd ≠ b := fun h => hne (ha.symm.trans h)
    have hb' : (ans.serveAt a c).fd ≠ b := by rwa [serveAt_fd]
    rw [ans.serveAt_of_ne hb, ans.serveAt_of_ne hb']
  · have ha' : (ans.serveAt b c).fd ≠ a := by rwa [serveAt_fd]
    rw [ans.serveAt_of_ne ha, ans.serveAt_of_ne ha']

/-- Reading a client and registering it again is serving it. -/
theorem served (fd : Int) (clients : List Client) :
    (if ans.ctl fd then
        (clients.map fun c => if c.fd = fd then c.read (ans.recv fd) else c).map fun c =>
          if c.fd = fd then c.register rearmInterest else c
      else clients.map fun c => if c.fd = fd then c.read (ans.recv fd) else c)
      = clients.map (ans.serveAt fd) := by
  cases hok : ans.ctl fd with
  | false =>
      rw [if_neg Bool.false_ne_true]
      refine List.map_congr_left fun c _ => ?_
      by_cases hc : c.fd = fd
      · rw [if_pos hc, ans.serveAt_same hc, serve, hc, hok, if_neg Bool.false_ne_true]
      · rw [if_neg hc, ans.serveAt_of_ne hc]
  | true =>
      rw [if_pos rfl, List.map_map]
      refine List.map_congr_left fun c _ => ?_
      by_cases hc : c.fd = fd
      · have hread : (c.read (ans.recv fd)).fd = fd := hc
        rw [Function.comp_apply, if_pos hc, if_pos hread, ans.serveAt_same hc, serve, hc, hok,
          if_pos rfl]
      · rw [Function.comp_apply, if_neg hc, if_neg hc, ans.serveAt_of_ne hc]

end Answers

/-! ## §2. The view. -/

/-- The counter, the table, the open sockets with their registrations, and the chunks handed to
the pool for each descriptor. -/
@[ext]
structure View where
  global_connection_id : UInt32
  connections : Nat → Option Connection
  clients : List Client
  handed : Int → List (Option Nat × ThArgs)

/-- The view of a state. -/
def Server.view (s : Server) : View where
  global_connection_id := s.proc.global_connection_id
  connections := s.proc.connections
  clients := s.clients
  handed := fun fd => (s.queue.filter fun j => j.args.socket_fd = fd).map fun j => (j.conn, j.args)

namespace View

/-- A hang-up at `fd`. -/
def hangup (v : View) (fd : Int) : View :=
  { v with
    global_connection_id := v.global_connection_id - 1
    connections := setSlot v.connections v.global_connection_id.toNat none
    clients := v.clients.filter fun c => c.fd ≠ fd }

/-- A chunk from `fd`. -/
def chunk (ans : Answers) (v : View) (fd : Int) : View :=
  { v with
    clients := v.clients.map (ans.serveAt fd)
    handed := fun fd' => v.handed fd' ++
      if fd' = fd then
        (clientAt v.clients fd).toList.map fun c =>
          (some c.conn, .received fd (c.unread.take (ans.recv fd)))
      else [] }

/-- One event. -/
def effect (ans : Answers) (v : View) (x : EpollEvent × Tag) : View :=
  if x.1.events.HangsUp then v.hangup x.1.fd else v.chunk ans x.1.fd

/-! ## §3. Events of different clients commute. -/

section Commute

variable {ans : Answers} {v : View} {a b : Int}

theorem clientAt_filter (hne : a ≠ b) (clients : List Client) :
    clientAt (clients.filter fun c => c.fd ≠ b) a = clientAt clients a := by
  unfold clientAt
  rw [List.find?_filter]
  congr 1
  funext c
  by_cases ha : c.fd = a
  · simp [ha, hne]
  · simp [ha]

theorem clientAt_serve (hne : a ≠ b) (clients : List Client) :
    clientAt (clients.map (ans.serveAt b)) a = clientAt clients a := by
  unfold clientAt
  induction clients with
  | nil => rfl
  | cons c clients ih =>
      rw [List.map_cons, List.find?_cons, List.find?_cons, ih, ans.serveAt_fd]
      by_cases ha : c.fd = a
      · rw [ans.serveAt_of_ne fun hb => hne (ha.symm.trans hb)]
      · simp [ha]

theorem hangup_hangup : (v.hangup a).hangup b = (v.hangup b).hangup a := by
  unfold hangup
  congr 1
  rw [List.filter_filter, List.filter_filter]
  congr 1
  funext c
  exact Bool.and_comm _ _

theorem hangup_chunk (hne : a ≠ b) :
    (v.hangup a).chunk ans b = (v.chunk ans b).hangup a := by
  unfold hangup chunk
  dsimp only
  rw [clientAt_filter hne.symm, List.filter_map]
  congr 2
  apply List.filter_congr
  intro c _
  show _ = decide ((ans.serveAt b c).fd ≠ a)
  rw [ans.serveAt_fd]

theorem chunk_chunk (hne : a ≠ b) :
    (v.chunk ans a).chunk ans b = (v.chunk ans b).chunk ans a := by
  unfold chunk
  dsimp only
  rw [clientAt_serve hne, clientAt_serve hne.symm, List.map_map, List.map_map]
  congr 1
  · apply List.map_congr_left
    intro c _
    exact ans.serveAt_comm hne
  · funext fd
    by_cases ha : fd = a
    · have hb : fd ≠ b := fun h => hne (ha.symm.trans h)
      rw [if_pos ha, if_neg hb, List.append_nil, List.append_nil]
    · rw [if_neg ha, List.append_nil, List.append_nil]

/-- Events of different descriptors commute. -/
theorem effect_comm (x y : EpollEvent × Tag) (hne : x.1.fd ≠ y.1.fd) :
    effect ans (effect ans v x) y = effect ans (effect ans v y) x := by
  unfold effect
  by_cases hx : x.1.events.HangsUp
  · by_cases hy : y.1.events.HangsUp
    · rw [if_pos hx, if_pos hy, if_pos hy, if_pos hx]
      exact hangup_hangup
    · rw [if_pos hx, if_neg hy, if_neg hy, if_pos hx]
      exact hangup_chunk hne
  · by_cases hy : y.1.events.HangsUp
    · rw [if_neg hx, if_pos hy, if_pos hy, if_neg hx]
      exact (hangup_chunk hne.symm).symm
    · rw [if_neg hx, if_neg hy, if_neg hy, if_neg hx]
      exact chunk_chunk hne

end Commute

end View

/-! ## §4. One event. -/

namespace Server

variable {cfg : Config} {ans : Answers} {s : Server} {x : EpollEvent × Tag}
  {todo : List (EpollEvent × Tag)}

/-- The loop makes its call, is answered and goes on. -/
theorem step_loop (hcrashed : s.crashed = false) {c : Choice} {t : Server} {reply : Reply Tag}
    {pc : LoopPc Tag} {proc : Proc}
    (hserve : s.serve cfg (s.pc.call cfg.listen_socket) c = some (t, reply))
    (hresume : resume cfg.listen_socket cfg.order s.pc s.proc reply = some (pc, proc)) :
    ∃ s', s.step cfg (.loop c) = some s' ∧ s'.crashed = t.crashed ∧ s'.pc = pc ∧ s'.proc = proc
      ∧ s'.clients = t.clients ∧ s'.queue = t.queue := by
  have hstep : s.step cfg (.loop c)
      = some { t with pc, proc, log := s.log ++ called cfg s.pc ++ finished s.pc pc } := by
    unfold step
    rw [if_neg (by simp [hcrashed])]
    show (s.serve cfg (s.pc.call cfg.listen_socket) c).bind _ = _
    rw [hserve]
    show (resume cfg.listen_socket cfg.order s.pc s.proc reply).map _ = _
    rw [hresume]
    rfl
  exact ⟨_, hstep, rfl, rfl, rfl, rfl, rfl⟩

/-- A hang-up is one move. -/
theorem serve_hangup (hcrashed : s.crashed = false) (hpc : s.pc = .event x todo)
    (hx : ans.Serves cfg s.clients x) (hup : x.1.events.HangsUp) :
    ∃ s', s.step cfg (.loop .go) = some s' ∧ s'.crashed = false ∧ s'.pc = .next todo
      ∧ s'.view = s.view.hangup x.1.fd := by
  obtain ⟨hfd, hlisten, -⟩ := hx
  -- the descriptor is that of a client, so the branch is the hang-up
  have hb : branch cfg.listen_socket x.1 = .epollDelFd :=
    branch_eq_epollDelFd.mpr ⟨fun h => hlisten h.1, Int.not_lt.mpr hfd, hup⟩
  have hserve : s.serve cfg (s.pc.call cfg.listen_socket) .go
      = some (s.closeFd x.1.fd, .done) := by
    rw [hpc]
    simp only [LoopPc.call, hb]
    rfl
  have hresume : resume cfg.listen_socket cfg.order s.pc s.proc .done
      = some (.next todo, (epollDelFd s.proc.malloc.2 x.1.fd).free s.proc.malloc.1) := by
    rw [hpc]
    exact resume_hangup hb
  obtain ⟨s', hs, hcrashed', hpc', hproc, hclients, hqueue⟩ := step_loop hcrashed hserve hresume
  refine ⟨s', hs, hcrashed'.trans hcrashed, hpc', ?_⟩
  apply View.ext
  · show s'.proc.global_connection_id = s.proc.global_connection_id - 1
    rw [hproc]
    exact epollDelFd_count s.proc.malloc.2 x.1.fd
  · show s'.proc.connections = setSlot s.proc.connections s.proc.global_connection_id.toNat none
    rw [hproc]
    exact epollDelFd_connections s.proc.malloc.2 x.1.fd
  · exact hclients
  · unfold view
    rw [hqueue]
    rfl

/-- A chunk is read. -/
theorem serve_read {n : Nat} {c : Client} (hcrashed : s.crashed = false)
    (hpc : s.pc = .event x todo) (hb : branch cfg.listen_socket x.1 = .recv)
    (hc : clientAt s.clients x.1.fd = some c) (hpos : 0 < n) (hlen : n ≤ RECV_BUFFER_LEN)
    (hunread : n ≤ c.unread.length) :
    ∃ s', s.step cfg (.loop (.recv n)) = some s' ∧ s'.crashed = false
      ∧ s'.pc = .received s.proc.fresh (.received x.1.fd (c.unread.take n)) (some c) x todo
      ∧ s'.proc = s.proc.malloc.2
      ∧ s'.clients = s.clients.map (fun d => if d.fd = x.1.fd then d.read n else d)
      ∧ s'.queue = s.queue := by
  have hserve : s.serve cfg (s.pc.call cfg.listen_socket) (.recv n)
      = some (s.modify (fun c => c.fd = x.1.fd) (Client.read n),
          .data n (c.unread.take n) (some c)) := by
    have hnonneg : ¬ (n : Int) ≤ 0 := by omega
    have hfits : (n : Int) ≤ (RECV_BUFFER_LEN : Nat) ∧ (n : Int) ≤ c.unread.length := by omega
    unfold clientAt at hc
    rw [hpc]
    simp only [LoopPc.call, hb, serve, if_neg hnonneg, hc, if_pos hfits, Int.toNat_natCast]
  have hresume : resume cfg.listen_socket cfg.order s.pc s.proc
      (.data n (c.unread.take n) (some c))
      = some (.received s.proc.fresh (.received x.1.fd (c.unread.take n)) (some c) x todo,
          s.proc.malloc.2) := by
    rw [hpc, resume_recv_chunk hb (by omega), if_neg (by omega)]
  obtain ⟨s', hs, hcrashed', hpc', hproc, hclients, hqueue⟩ := step_loop hcrashed hserve hresume
  refine ⟨s', hs, hcrashed'.trans hcrashed, hpc', hproc, ?_, hqueue⟩
  rw [hclients]
  unfold modify
  simp only [decide_eq_true_eq]

/-- A chunk is handed over. -/
theorem serve_submit (cfg : Config) {addr : Nat} {args : ThArgs} {c : Client}
    (hcrashed : s.crashed = false) (hpc : s.pc = .received addr args (some c) x todo) :
    ∃ s', s.step cfg (.loop .go) = some s' ∧ s'.crashed = false
      ∧ s'.pc = .submitted args.socket_fd (some c) x todo ∧ s'.proc = s.proc
      ∧ s'.clients = s.clients ∧ s'.queue = s.queue ++ [⟨addr, some c.conn, args⟩] := by
  have hserve : s.serve cfg (s.pc.call cfg.listen_socket) .go
      = some ({ s with queue := s.queue ++ [⟨addr, some c.conn, args⟩] }, .done) := by
    have hcall : s.pc.call cfg.listen_socket = .thpoolAddWork addr args (some c) := by
      rw [hpc]
      rfl
    rw [hcall]
    rfl
  have hresume : resume cfg.listen_socket cfg.order s.pc s.proc .done
      = some (.submitted args.socket_fd (some c) x todo, s.proc) := by
    rw [hpc]
    rfl
  obtain ⟨s', hs, hcrashed', hrest⟩ := step_loop hcrashed hserve hresume
  exact ⟨s', hs, hcrashed'.trans hcrashed, hrest⟩

/-- A client is registered again, or that fails; the loop does not look. -/
theorem serve_rearm (cfg : Config) {fd : Int} {src : Tag} {ok : Bool} (hcrashed : s.crashed = false)
    (hpc : s.pc = .submitted fd src x todo)
    (hreg : ok = true → ∃ c ∈ s.clients, c.fd = fd ∧ c.interest.isSome = true) :
    ∃ s', s.step cfg (.loop (.ctl ok)) = some s' ∧ s'.crashed = false
      ∧ s'.pc = .next todo ∧ s'.proc = s.proc
      ∧ s'.clients = (if ok then
          s.clients.map fun c => if c.fd = fd then c.register rearmInterest else c else s.clients)
      ∧ s'.queue = s.queue := by
  have hserve : s.serve cfg (s.pc.call cfg.listen_socket) (.ctl ok)
      = some (if ok then s.modify (fun c => c.fd = fd) (Client.register rearmInterest) else s,
          .done) := by
    rw [hpc]
    cases ok with
    | false => rfl
    | true => simp only [LoopPc.call, serve, if_pos (hreg rfl), if_true]
  have hresume : resume cfg.listen_socket cfg.order s.pc s.proc .done
      = some (.next todo, s.proc) := by
    rw [hpc]
    rfl
  obtain ⟨s', hs, hcrashed', hpc', hproc, hclients, hqueue⟩ := step_loop hcrashed hserve hresume
  refine ⟨s', hs, ?_, hpc', hproc, ?_, ?_⟩
  · rw [hcrashed']
    cases ok <;> exact hcrashed
  · rw [hclients]
    cases ok with
    | false => rfl
    | true =>
        unfold modify
        simp only [if_true, decide_eq_true_eq]
  · rw [hqueue]
    cases ok <;> rfl

/-- A job at the end of the queue is one chunk more for its descriptor. -/
theorem handed_concat {s' : Server} {addr : Nat} {conn : Option Nat} {args : ThArgs}
    (hqueue : s'.queue = s.queue ++ [⟨addr, conn, args⟩]) (fd : Int) :
    s'.view.handed fd
      = s.view.handed fd ++ if fd = args.socket_fd then [(conn, args)] else [] := by
  show (s'.queue.filter fun j => decide (j.args.socket_fd = fd)).map _
    = (s.queue.filter fun j => decide (j.args.socket_fd = fd)).map _ ++ _
  rw [hqueue, List.filter_append, List.map_append]
  congr 1
  by_cases hfd : fd = args.socket_fd
  · simp [hfd]
  · have hne : args.socket_fd ≠ fd := fun h => hfd h.symm
    simp [hfd, hne]

/-- A chunk is three moves: it is read, handed over, and its client registered again. -/
theorem serve_chunk (hcrashed : s.crashed = false) (hpc : s.pc = .event x todo)
    (hx : ans.Serves cfg s.clients x) (hup : ¬ x.1.events.HangsUp) :
    ∃ s', [Act.loop (.recv (ans.recv x.1.fd)), .loop .go, .loop (.ctl (ans.ctl x.1.fd))].foldlM
        (step cfg) s = some s'
      ∧ s'.crashed = false ∧ s'.pc = .next todo ∧ s'.view = s.view.chunk ans x.1.fd := by
  obtain ⟨hfd, hlisten, c, hc, hevent⟩ := hx
  obtain ⟨hin, hpos, hlen, hunread, hreg⟩ := hevent.resolve_left hup
  have hb : branch cfg.listen_socket x.1 = .recv :=
    branch_eq_recv.mpr ⟨fun h => hlisten h.1, Int.not_lt.mpr hfd, hup, hin⟩
  have hmem : c ∈ s.clients := List.mem_of_find?_eq_some hc
  have hcfd : c.fd = x.1.fd := by simpa using List.find?_some hc
  obtain ⟨s₁, hs₁, hcrashed₁, hpc₁, hproc₁, hclients₁, hqueue₁⟩ :=
    serve_read hcrashed hpc hb hc hpos hlen hunread
  obtain ⟨s₂, hs₂, hcrashed₂, hpc₂, hproc₂, hclients₂, hqueue₂⟩ :=
    serve_submit cfg hcrashed₁ hpc₁
  -- the client that was read is still there
  have hreg₂ : ans.ctl x.1.fd = true →
      ∃ c ∈ s₂.clients, c.fd = x.1.fd ∧ c.interest.isSome = true := by
    intro hok
    refine ⟨c.read (ans.recv x.1.fd), ?_, hcfd, hreg hok⟩
    rw [hclients₂, hclients₁]
    exact List.mem_map.mpr ⟨c, hmem, if_pos hcfd⟩
  obtain ⟨s₃, hs₃, hcrashed₃, hpc₃, hproc₃, hclients₃, hqueue₃⟩ :=
    serve_rearm cfg hcrashed₂ hpc₂ hreg₂
  refine ⟨s₃, ?_, hcrashed₃, hpc₃, ?_⟩
  · simp only [List.foldlM_cons, List.foldlM_nil, hs₁, hs₂, hs₃, Option.bind_eq_bind,
      Option.bind_some]
    rfl
  have hproc : s₃.proc = s.proc.malloc.2 := hproc₃.trans (hproc₂.trans hproc₁)
  apply View.ext
  · show s₃.proc.global_connection_id = s.proc.global_connection_id
    rw [hproc]
    rfl
  · show s₃.proc.connections = s.proc.connections
    rw [hproc]
    rfl
  · show s₃.clients = s.clients.map (ans.serveAt x.1.fd)
    rw [hclients₃, hclients₂, hclients₁]
    exact ans.served x.1.fd s.clients
  · have hqueue : s₃.queue = s.queue ++
        [⟨s.proc.fresh, some c.conn, .received x.1.fd (c.unread.take (ans.recv x.1.fd))⟩] := by
      rw [hqueue₃, hqueue₂, hqueue₁]
    funext fd
    rw [handed_concat hqueue fd]
    show _ = s.view.handed fd ++
      if fd = x.1.fd then (clientAt s.clients x.1.fd).toList.map _ else []
    rw [hc]
    rfl

/-! ## §5. A batch. -/

/-- Serving one client leaves what the events of the others need. -/
theorem serves_effect {v : View} {x y : EpollEvent × Tag} (hne : y.1.fd ≠ x.1.fd)
    (hy : ans.Serves cfg v.clients y) : ans.Serves cfg (v.effect ans x).clients y := by
  obtain ⟨hfd, hlisten, c, hc, hrest⟩ := hy
  refine ⟨hfd, hlisten, c, ?_, hrest⟩
  unfold View.effect
  split
  · exact (View.clientAt_filter hne v.clients).trans hc
  · exact (View.clientAt_serve hne v.clients).trans hc

/-- One event: the loop computes its effect. -/
theorem serve_event (hcrashed : s.crashed = false) (hpc : s.pc = .event x todo)
    (hx : ans.Serves cfg s.clients x) :
    ∃ s', (ans.moves x).foldlM (step cfg) s = some s' ∧ s'.crashed = false
      ∧ s'.pc = .next todo ∧ s'.view = s.view.effect ans x := by
  unfold Answers.moves View.effect
  by_cases hup : x.1.events.HangsUp
  · rw [if_pos hup, if_pos hup]
    obtain ⟨s', hs, hrest⟩ := serve_hangup hcrashed hpc hx hup
    refine ⟨s', ?_, hrest⟩
    simp only [List.foldlM_cons, List.foldlM_nil, hs, Option.bind_eq_bind, Option.bind_some]
    rfl
  · rw [if_neg hup, if_neg hup]
    exact serve_chunk hcrashed hpc hx hup

/-- **A batch.**  The loop goes through the events one by one and computes their effects in
the order of the batch. -/
theorem serve_batch {batch : List (EpollEvent × Tag)} (hcrashed : s.crashed = false)
    (hpc : s.pc = .next batch) (hserves : ∀ x ∈ batch, ans.Serves cfg s.clients x)
    (hnodup : (batch.map fun x => x.1.fd).Nodup) :
    ∃ s', (batch.flatMap ans.moves).foldlM (step cfg) s = some s' ∧ s'.pc = .wait
      ∧ s'.view = batch.foldl (View.effect ans) s.view := by
  induction batch generalizing s with
  | nil => exact ⟨s, rfl, hpc, rfl⟩
  | cons x todo ih =>
      rw [List.map_cons, List.nodup_cons] at hnodup
      have hevent : s.pc = .event x todo := hpc
      obtain ⟨s₁, hs₁, hcrashed₁, hpc₁, hview₁⟩ :=
        serve_event hcrashed hevent (hserves x List.mem_cons_self)
      -- the events behind are of other clients
      have hserves₁ : ∀ y ∈ todo, ans.Serves cfg s₁.clients y := by
        intro y hy
        have hne : y.1.fd ≠ x.1.fd := by
          intro heq
          exact hnodup.1 (heq ▸ List.mem_map_of_mem hy)
        have hclients : s₁.clients = (s.view.effect ans x).clients := congrArg View.clients hview₁
        rw [hclients]
        exact serves_effect hne (hserves y (List.mem_cons_of_mem x hy))
      obtain ⟨s', hs', hpc', hview'⟩ := ih hcrashed₁ hpc₁ hserves₁ hnodup.2
      refine ⟨s', ?_, hpc', ?_⟩
      · rw [List.flatMap_cons, List.foldlM_append, hs₁]
        exact hs'
      · rw [hview', hview₁]
        rfl

end Server

/-! ## §6. The theorem. -/

/-- **The order of a batch.**  From every state, a batch of events of different open clients,
each a hang-up or input that `recv` returns bytes for, leads in every order to the same counter,
the same table, the same sockets with the same interest sets, and the same chunk of each client
in the queue of the pool. -/
theorem batch_order_irrelevant (cfg : Config) (ans : Answers) (s : Server)
    {batch batch' : List (EpollEvent × Tag)} (hperm : batch.Perm batch')
    (hcrashed : s.crashed = false) (hserves : ∀ x ∈ batch, ans.Serves cfg s.clients x)
    (hnodup : (batch.map fun x => x.1.fd).Nodup) :
    ∃ t t', (batch.flatMap ans.moves).foldlM (Server.step cfg) { s with pc := .next batch }
        = some t
      ∧ (batch'.flatMap ans.moves).foldlM (Server.step cfg) { s with pc := .next batch' }
        = some t'
      ∧ t.pc = .wait ∧ t'.pc = .wait ∧ t.view = t'.view := by
  obtain ⟨t, ht, hpc, hview⟩ := Server.serve_batch (s := { s with pc := .next batch }) hcrashed rfl
    hserves hnodup
  have hserves' : ∀ x ∈ batch', ans.Serves cfg s.clients x :=
    fun x hx => hserves x (hperm.mem_iff.mpr hx)
  have hnodup' := (hperm.map fun x => x.1.fd).nodup_iff.mp hnodup
  obtain ⟨t', ht', hpc', hview'⟩ := Server.serve_batch (s := { s with pc := .next batch' }) hcrashed
    rfl hserves' hnodup'
  refine ⟨t, t', ht, ht', hpc, hpc', ?_⟩
  rw [hview, hview']
  show batch.foldl (View.effect ans) s.view = batch'.foldl (View.effect ans) s.view
  apply hperm.foldl_eq'
  intro x hx y hy v
  by_cases heq : x = y
  · rw [heq]
  · apply View.effect_comm
    intro hfd
    exact heq (List.inj_on_of_nodup_map hnodup hx hy hfd)

/-- Two clients are accepted, the first closes its connection and the second sends a `PING`; both
are reported. -/
def twoReported : List Act :=
  [.connect, .loop (.ready [(none, { epollin := true })]), .loop (.accept (some 5)),
    .loop (.ctl true), .loop .go,
    .connect, .loop (.ready [(none, { epollin := true })]), .loop (.accept (some 6)),
    .loop (.ctl true), .loop .go,
    .traffic 0 .fin, .traffic 1 (.data [83, 83, 80, 0]),
    .loop (.ready [(some 0, { epollin := true, epollrdhup := true }),
      (some 1, { epollin := true })])]

/-- The hang-up of the first and the `PING` of the second, in both orders, with the two in the
table. -/
theorem batch_order_irrelevant_two :
    ∃ (ans : Answers) (s t t' : Server) (x y : EpollEvent × Tag),
      execute (Server.step ⟨3, .after⟩) Server.Linux .init twoReported = some s
      ∧ s.proc.global_connection_id = 2
      ∧ Holds s.proc.connections [⟨1, 1, 5⟩, ⟨3, 2, 6⟩]
      ∧ x.1.events.HangsUp ∧ ¬ y.1.events.HangsUp
      ∧ ([x, y].flatMap ans.moves).foldlM (Server.step ⟨3, .after⟩) { s with pc := .next [x, y] }
        = some t
      ∧ ([y, x].flatMap ans.moves).foldlM (Server.step ⟨3, .after⟩) { s with pc := .next [y, x] }
        = some t'
      ∧ t.view = t'.view := by
  have hreported : ∃ s, execute (Server.step ⟨3, .after⟩) Server.Linux .init twoReported = some s
      ∧ s.crashed = false ∧ s.proc.global_connection_id = 2
      ∧ s.clients = [⟨⟨0, [], true, false⟩, 5, some acceptInterest, false⟩,
        ⟨⟨1, [83, 83, 80, 0], false, false⟩, 6, some acceptInterest, false⟩] :=
    exists_execute (by decide)
  obtain ⟨s, hs, hcrashed, hcount, hclients⟩ := hreported
  have htable : Holds s.proc.connections [⟨1, 1, 5⟩, ⟨3, 2, 6⟩] := by
    cases hs
    exact (Holds.empty.push _).push _
  obtain ⟨t, t', ht, ht', -, -, hview⟩ := batch_order_irrelevant ⟨3, .after⟩
    ⟨fun _ => 4, fun _ => true⟩ s
    (List.Perm.swap (⟨6, { epollin := true }⟩, none)
      (⟨5, { epollin := true, epollrdhup := true }⟩, none) []) hcrashed
    (by
      intro x hx
      rw [hclients]
      rcases List.mem_pair.mp hx with rfl | rfl
      · exact ⟨by decide, by decide, _, rfl, .inl (.inl rfl)⟩
      · exact ⟨by decide, by decide, _, rfl,
          .inr ⟨rfl, by decide, by decide, by decide, fun _ => rfl⟩⟩)
    (by decide)
  exact ⟨_, s, t, t', _, _, hs, hcount, htable, by decide, by decide, ht, ht', hview⟩

end SensorServer.System
