/-
  SensorServer.System.Census — the counter and the open clients.

  The counter is raised for every socket that is accepted and registered, and lowered by
  `epoll_del_fd` for every hang-up.  A socket that `parse_packet` closes is not taken off, and
  one that could not be registered was never put on.  `counter_eq_clients` says that nothing
  else goes wrong: while neither happens, the counter is the number of open clients whenever
  the loop waits.

  `closing_chunk` names the chunks a job may close a socket for.
-/
import SensorServer.Parser.Effects
import SensorServer.System.Undisturbed

namespace SensorServer.System

open SensorServer.Framework
open SensorServer.Parser (ThArgs Event Harmless ClosesSocket parsePacketCall)
open SensorServer.Table
open SensorServer.Loop

/-- The socket just accepted, which the counter does not include yet. -/
def uncounted : LoopPc Tag → Nat
  | .accepted _ _ _ | .registered _ _ _ => 1
  | _ => 0

@[simp] theorem uncounted_next (todo : List (EpollEvent × Tag)) : uncounted (.next todo) = 0 := by
  cases todo <;> rfl

namespace Server

/-! ## §1. Runs. -/

/-- The event the `w`-th job goes on with. -/
def nextEvent (s : Server) (w : Nat) : Option Event := s.workers[w]?.bind fun x => x.todo.head?

theorem nextEvent_eq {s : Server} {w : Nat} {x : Worker} {e : Event} {todo : List Event}
    (hx : s.workers[w]? = some x) (htodo : x.todo = e :: todo) : s.nextEvent w = some e := by
  unfold nextEvent
  rw [hx, Option.bind_some, htodo]
  rfl

/-- No more than 2047 clients at once. -/
def Roomy (s : Server) : Act → Prop
  | .loop (.accept (some _)) => s.clients.length < 2047
  | _ => True

/-- An accepted socket is registered, and no job closes the socket of an open client. -/
def Balanced (s : Server) : Act → Prop
  | .loop (.ctl ok) => (adopting s.pc).isSome → ok = true
  | .work w _ => ∀ c ∈ s.clients, s.nextEvent w ≠ some (.close c.fd)
  | _ => True

instance (s : Server) : DecidablePred s.Roomy
  | .loop (.accept (some _)) => inferInstanceAs (Decidable (_ < 2047))
  | .loop (.accept none) | .loop (.ready _) | .loop (.ctl _) | .loop (.recv _) | .loop .go
  | .connect | .traffic _ _ | .take _ | .work _ _ => .isTrue trivial

instance (s : Server) : DecidablePred s.Balanced
  | .loop (.ctl ok) => inferInstanceAs (Decidable ((adopting s.pc).isSome → ok = true))
  | .work w _ =>
      inferInstanceAs (Decidable (∀ c ∈ s.clients, s.nextEvent w ≠ some (.close c.fd)))
  | .loop (.accept _) | .loop (.ready _) | .loop (.recv _) | .loop .go
  | .connect | .traffic _ _ | .take _ => .isTrue trivial

/-! ## §2. Numbers of clients. -/

theorem length_modify (s : Server) (p : Client → Bool) (f : Client → Client) :
    (s.modify p f).clients.length = s.clients.length :=
  List.length_map _

/-- Closing the socket of an open client leaves one client less. -/
theorem length_closeFd {cfg : Config} {s : Server} (hid : s.Identified cfg) {c : Client}
    (hc : c ∈ s.clients) : (s.closeFd c.fd).clients.length + 1 = s.clients.length := by
  have hnodup : s.clients.Nodup := hid.fds.of_map.of_map
  have herase : (s.closeFd c.fd).clients = s.clients.erase c := by
    rw [hnodup.erase_eq_filter]
    apply List.filter_congr
    intro d hd
    rw [Bool.eq_iff_iff, decide_eq_true_eq, bne_iff_ne]
    -- the descriptor is that of one client only
    refine not_congr ⟨fun hfd => hid.eq_of_fd hd hc hfd, fun heq => heq ▸ rfl⟩
  rw [herase, List.length_erase_of_mem hc]
  have hpos := List.length_pos_of_mem hc
  omega

/-- A job that closes no client's socket leaves the clients alone. -/
theorem perform_clients_of_ne {s : Server} {addr : Nat} {e : Event}
    (h : ∀ c ∈ s.clients, e ≠ .close c.fd) : (s.perform addr e).clients = s.clients := by
  cases e with
  | close fd =>
      show s.clients.filter _ = s.clients
      rw [List.filter_eq_self]
      intro c hc
      rw [decide_eq_true_eq]
      exact fun hfd => h c hc (hfd ▸ rfl)
  | _ => rfl

/-! ## §3. The invariant. -/

/-- The counter is the number of open clients, but for the one being accepted. -/
structure Counted (s : Server) : Prop where
  unlocked : s.proc.mutex_locked = false
  count : s.proc.global_connection_id.toNat + uncounted s.pc = s.clients.length
  bound : s.clients.length ≤ 2047
  /-- The clients of the events to come are still there. -/
  live : ∀ x ∈ s.pc.ahead, ∀ n, tagConn x = some n → ∃ c ∈ s.clients, c.conn = n

namespace Counted

variable {cfg : Config} {s s' : Server}

theorem init : Server.init.Counted where
  unlocked := rfl
  count := rfl
  bound := Nat.zero_le _
  live := fun _ hx => absurd hx List.not_mem_nil

/-- Steps that open, close and count nothing. -/
theorem keep (h : s.Counted) (hmutex : s'.proc.mutex_locked = s.proc.mutex_locked)
    (hcount : s'.proc.global_connection_id = s.proc.global_connection_id)
    (huncounted : uncounted s'.pc = uncounted s.pc)
    (hlength : s'.clients.length = s.clients.length)
    (hclients : ∀ n, (∃ c ∈ s.clients, c.conn = n) → ∃ c ∈ s'.clients, c.conn = n)
    (hahead : ∀ x ∈ s'.pc.ahead, x ∈ s.pc.ahead) : s'.Counted where
  unlocked := hmutex.trans h.unlocked
  count := by
    rw [hcount, huncounted, hlength]
    exact h.count
  bound := hlength ▸ h.bound
  live := fun x hx n hn => hclients n (h.live x (hahead x hx) n hn)

/-- A change of some clients. -/
theorem modify (h : s.Counted) {p : Client → Bool} {f : Client → Client}
    (hkey : ∀ c, (f c).conn = c.conn) (hclients : s'.clients = (s.modify p f).clients)
    (hproc : s'.proc = s.proc) (huncounted : uncounted s'.pc = uncounted s.pc)
    (hahead : ∀ x ∈ s'.pc.ahead, x ∈ s.pc.ahead) : s'.Counted := by
  refine h.keep (by rw [hproc]) (by rw [hproc]) huncounted ?_ ?_ hahead
  · rw [hclients, s.length_modify]
  · intro n hn
    rw [hclients]
    exact s.exists_modify hkey hn

/-- `add_new_connection` counts the socket that was accepted. -/
theorem count_accepted (h : s.Counted) {fd : Int} {e : EpollEvent × Tag}
    {todo : List (EpollEvent × Tag)} {proc : Proc} (hpc : s.pc = .registered fd e todo)
    (hadd : addNewConnection cfg.order s.proc fd = .returned proc ()) (log : List Obs) :
    ({ s with pc := .next todo, proc, log } : Server).Counted := by
  obtain ⟨-, hcount, hmutex⟩ := addNewConnection_returned hadd
  have hlength := h.count
  rw [hpc] at hlength
  have hlength' : s.proc.global_connection_id.toNat + 1 = s.clients.length := hlength
  have hbound := h.bound
  have hsucc : (s.proc.global_connection_id + 1).toNat = s.proc.global_connection_id.toNat + 1 :=
    toNat_succ (by omega)
  refine ⟨?_, ?_, hbound, ?_⟩
  · -- the mutex is kept only above the limit
    rw [hmutex, decide_eq_false_iff_not, gt_iff_lt, UInt32.lt_iff_toNat_lt, hsucc,
      maxConnections_toNat]
    omega
  · rw [uncounted_next, hcount, hsucc]
    omega
  · intro x hx
    exact h.live x (LoopPc.ahead_done (by rw [hpc]; rfl) x hx)

/-- **A hang-up takes its own client off the count.** -/
theorem hangup (h : s.Counted) (hid : s.Identified cfg) {e : EpollEvent × Tag}
    {todo : List (EpollEvent × Tag)} (hpc : s.pc = .event e todo)
    (hb : branch cfg.listen_socket e.1 = .epollDelFd) {proc : Proc}
    (hmutex : proc.mutex_locked = s.proc.mutex_locked)
    (hcount : proc.global_connection_id = s.proc.global_connection_id - 1) (log : List Obs) :
    ({ s.closeFd e.1.fd with pc := .next todo, proc, log } : Server).Counted := by
  have hahead : s.pc.ahead = e :: todo := by rw [hpc]; rfl
  have hevents : s.pc.events = e :: todo := by rw [hpc]; rfl
  have he : e ∈ s.pc.events := hevents ▸ List.mem_cons_self
  obtain ⟨n, hn⟩ := hid.hangup_tagged he hb
  obtain ⟨c, hc, hconn⟩ := h.live e (hahead ▸ List.mem_cons_self) n hn
  have hfd : c.fd = e.1.fd := (hid.tagged e he n hn).2.2.1 c.key (List.mem_map_of_mem hc) hconn
  have hlength := length_closeFd hid hc
  rw [hfd] at hlength
  have hold := h.count
  rw [hpc] at hold
  have hold' : s.proc.global_connection_id.toNat = s.clients.length := hold
  have hbound := h.bound
  refine ⟨hmutex.trans h.unlocked, ?_, ?_, ?_⟩
  · show proc.global_connection_id.toNat + uncounted (.next todo) = (s.closeFd e.1.fd).clients.length
    rw [uncounted_next, hcount, toNat_pred (by omega)]
    omega
  · show (s.closeFd e.1.fd).clients.length ≤ 2047
    omega
  · intro x hx m hm
    have hx' : x ∈ todo := LoopPc.ahead_next todo ▸ hx
    obtain ⟨d, hd, hdconn⟩ := h.live x (hahead ▸ List.mem_cons_of_mem e hx') m hm
    refine ⟨d, List.mem_filter.mpr ⟨hd, ?_⟩, hdconn⟩
    rw [decide_eq_true_eq]
    intro hdfd
    -- no other event was reported for the client that left
    obtain rfl := hid.eq_of_fd hd hc (hdfd.trans hfd.symm)
    have hdistinct := hid.distinct
    rw [hevents, List.filterMap_cons_some hn, List.nodup_cons] at hdistinct
    rw [← hconn, hdconn] at hdistinct
    exact hdistinct.1 (List.mem_filterMap.mpr ⟨x, hx', hm⟩)

theorem step {a : Act} (h : s.Counted) (hid : s.Identified cfg) (hroom : s.Roomy a)
    (hok : s.Balanced a) (hs : s.step cfg a = some s') : s'.Counted := by
  cases move_of_step hs with
  -- the peers
  | connect => exact ⟨h.unlocked, h.count, h.bound, h.live⟩
  | traffic conn t hknown =>
      exact h.modify (fun c => c.receive_conn t) rfl rfl rfl fun _ hx => hx
  -- the event loop
  | wait reports hpc hlen hnodup =>
      have hcount := h.count
      rw [hpc] at hcount
      refine ⟨h.unlocked, ?_, ?_, ?_⟩
      · rw [uncounted_next]
        exact hcount.trans (s.length_modify _ _).symm
      · show (s.modify _ _).clients.length ≤ 2047
        rw [s.length_modify]
        exact h.bound
      · intro x hx n hn
        rw [LoopPc.ahead_next] at hx
        obtain ⟨r, -, hr⟩ := List.mem_filterMap.mp hx
        rcases report_eq_some hr with ⟨-, rfl, -⟩ | ⟨c, hc, -, rfl, -⟩
        · cases hn
        · exact s.exists_modify Client.reported_conn ⟨c, hc, Option.some.inj hn⟩
  | refuse e todo hpc hb =>
      exact h.keep rfl rfl (by rw [uncounted_next, hpc]; rfl) rfl (fun _ hn => hn)
        (LoopPc.ahead_done (by rw [hpc]; rfl))
  | accept e todo fd k backlog hpc hb hbacklog hfd hlisten hfresh =>
      have hcount := h.count
      rw [hpc] at hcount
      have hcount' : s.proc.global_connection_id.toNat = s.clients.length := hcount
      have hlength : (s.clients ++ [k.accepted fd]).length = s.clients.length + 1 :=
        List.length_append
      refine ⟨h.unlocked, ?_, ?_, ?_⟩
      · show s.proc.global_connection_id.toNat + 1 = (s.clients ++ [k.accepted fd]).length
        omega
      · show (s.clients ++ [k.accepted fd]).length ≤ 2047
        have hroom' : s.clients.length < 2047 := hroom
        omega
      · intro x hx n hn
        have hsub : ∀ y ∈ (LoopPc.accepted fd e todo).ahead, y ∈ s.pc.ahead :=
          LoopPc.ahead_subset (by rw [hpc]; rfl)
        obtain ⟨c, hc, hcn⟩ := h.live x (hsub x hx) n hn
        exact ⟨c, List.mem_append_left _ hc, hcn⟩
  | register fd e todo hpc hopen =>
      exact h.modify (fun c => c.register_conn _) rfl rfl (by rw [hpc]; rfl)
        (LoopPc.ahead_subset (by rw [hpc]; rfl))
  | registerFails fd e todo hpc =>
      have hfalse := hok (by rw [hpc]; rfl)
      cases hfalse
  | count fd e todo proc hpc hadd => exact h.count_accepted hpc hadd _
  | block fd e todo proc hpc hadd =>
      have hlocked := (addNewConnection_blocked hadd).1
      rw [h.unlocked] at hlocked
      cases hlocked
  | hangup e todo hpc hb =>
      refine h.hangup hid hpc hb ?_ ?_ _
      · exact epollDelFd_mutex s.proc.malloc.2 e.1.fd
      · exact epollDelFd_count s.proc.malloc.2 e.1.fd
  | readNothing e todo n hpc hb hn =>
      exact h.keep rfl rfl (by rw [hpc]; rfl) rfl (fun _ hn => hn)
        fun _ hx => absurd hx List.not_mem_nil
  | read e todo n c hpc hb hc hfd hn hlen hunread =>
      refine h.keep rfl rfl (by rw [hpc]; rfl) (s.length_modify _ _) (fun m hm => ?_)
        (LoopPc.ahead_subset (by rw [hpc]; rfl))
      exact s.exists_modify (fun c => c.read_conn n) hm
  | skip e todo hpc hb =>
      exact h.keep rfl rfl (by rw [uncounted_next, hpc]; rfl) rfl (fun _ hn => hn)
        (LoopPc.ahead_done (by rw [hpc]; rfl))
  | submit addr args src e todo hpc =>
      exact h.keep rfl rfl (by rw [hpc]; rfl) rfl (fun _ hn => hn)
        (LoopPc.ahead_subset (by rw [hpc]; rfl))
  | rearm fd src e todo hpc hopen =>
      exact h.modify (fun c => c.register_conn _) rfl rfl (by rw [uncounted_next, hpc]; rfl)
        (LoopPc.ahead_done (by rw [hpc]; rfl))
  | rearmFails fd src e todo hpc =>
      exact h.keep rfl rfl (by rw [uncounted_next, hpc]; rfl) rfl (fun _ hn => hn)
        (LoopPc.ahead_done (by rw [hpc]; rfl))
  -- the workers
  | take k job hjob => exact ⟨h.unlocked, h.count, h.bound, h.live⟩
  | perform w ρ x e todo hx htodo =>
      have hsame : (s.perform x.job.addr e).clients = s.clients := by
        apply perform_clients_of_ne
        intro c hc heq
        exact hok c hc (heq ▸ nextEvent_eq hx htodo)
      have hpc := s.perform_pc x.job.addr e
      refine h.keep ?_ ?_ (congrArg uncounted hpc) (congrArg List.length hsame) ?_ ?_
      · cases e <;> rfl
      · cases e <;> rfl
      · intro n hn
        show ∃ c ∈ (s.perform x.job.addr e).clients, c.conn = n
        rw [hsame]
        exact hn
      · exact fun y hy => hpc ▸ hy
  | call w ρ x args hx htodo hnext => exact ⟨h.unlocked, h.count, h.bound, h.live⟩
  | retire w ρ x hx htodo hnext => exact ⟨h.unlocked, h.count, h.bound, h.live⟩

end Counted

end Server

/-! ## §4. Jobs that close nothing. -/

/-- The chunk the loop has read and not handed over yet. -/
def holding : LoopPc Tag → Option ThArgs
  | .received _ args _ _ _ => some args
  | _ => none

@[simp] theorem holding_next (todo : List (EpollEvent × Tag)) : holding (.next todo) = none := by
  cases todo <;> rfl

/-- A worker that has no socket to close, neither in its current call nor in the next one. -/
def Worker.ClosesNothing (x : Worker) : Prop :=
  (∀ e ∈ x.todo, e.isClose = false) ∧ ∀ args, x.next = some args → Harmless args

namespace Server

/-- Every job works on a chunk as it was received, and closes something only if the chunk is
one of `ClosesSocket`. -/
structure Sourced (s : Server) : Prop where
  hand : ∀ args, holding s.pc = some args → ∃ fd bytes, args = .received fd bytes
  queue : ∀ job ∈ s.queue, ∃ fd bytes, job.args = .received fd bytes
  workers : ∀ x ∈ s.workers, ¬ ClosesSocket x.job.args.bytes → x.ClosesNothing

namespace Sourced

variable {cfg : Config} {s s' : Server}

theorem init : Server.init.Sourced where
  hand := nofun
  queue := fun _ hjob => absurd hjob List.not_mem_nil
  workers := fun _ hx => absurd hx List.not_mem_nil

/-- Steps of the loop that read nothing and hand nothing over. -/
theorem keep (h : s.Sourced) (hholding : holding s'.pc = none) (hqueue : s'.queue = s.queue)
    (hworkers : s'.workers = s.workers) : s'.Sourced where
  hand := by
    rw [hholding]
    nofun
  queue := hqueue ▸ h.queue
  workers := hworkers ▸ h.workers

/-- A job that goes on. -/
theorem set (h : s.Sourced) {w : Nat} {x : Worker} (hpc : s'.pc = s.pc)
    (hqueue : s'.queue = s.queue) (hworkers : s'.workers = s.workers.set w x)
    (hx : ¬ ClosesSocket x.job.args.bytes → x.ClosesNothing) : s'.Sourced where
  hand := hpc ▸ h.hand
  queue := hqueue ▸ h.queue
  workers := by
    intro y hy
    rw [hworkers] at hy
    rcases List.mem_or_eq_of_mem_set hy with hy | rfl
    · exact h.workers y hy
    · exact hx

theorem step {a : Act} (h : s.Sourced) (hs : s.step cfg a = some s') : s'.Sourced := by
  cases move_of_step hs with
  | connect | traffic => exact ⟨h.hand, h.queue, h.workers⟩
  -- the event loop
  | wait | refuse | registerFails | count | hangup | skip | rearm | rearmFails =>
      exact h.keep (holding_next _) rfl rfl
  | accept | register | block | readNothing => exact h.keep rfl rfl rfl
  | read e todo n c hpc hb hc hfd hn hlen hunread =>
      refine ⟨fun args hargs => ?_, h.queue, h.workers⟩
      exact ⟨e.1.fd, c.unread.take n, (Option.some.inj hargs).symm⟩
  | submit addr args src e todo hpc =>
      refine ⟨nofun, fun job hjob => ?_, h.workers⟩
      rcases List.mem_append.mp hjob with hjob | hjob
      · exact h.queue job hjob
      · rw [List.mem_singleton] at hjob
        rw [hjob]
        exact h.hand args (by rw [hpc]; rfl)
  -- the workers
  | take k job hjob =>
      refine ⟨h.hand, fun job' hjob' => h.queue job' (List.mem_of_mem_eraseIdx hjob'), ?_⟩
      intro x hx hchunk
      rcases List.mem_append.mp hx with hx | hx
      · exact h.workers x hx hchunk
      · rw [List.mem_singleton] at hx
        rw [hx] at hchunk ⊢
        obtain ⟨fd, bytes, hargs⟩ := h.queue job (List.mem_of_getElem? hjob)
        refine ⟨fun _ he => absurd he List.not_mem_nil, fun args hnext => .inl ⟨fd, bytes, ?_, ?_⟩⟩
        · exact (Option.some.inj hnext).symm.trans hargs
        · have hchunk' : ¬ ClosesSocket job.args.bytes := hchunk
          rwa [hargs, ThArgs.bytes_received] at hchunk'
  | perform w ρ x e todo hx htodo =>
      refine h.set (s.perform_pc x.job.addr e) (s.perform_queue x.job.addr e) rfl fun hchunk => ?_
      obtain ⟨htrace, hcall⟩ := h.workers x (List.mem_of_getElem? hx) hchunk
      refine ⟨fun e' he' => htrace e' ?_, hcall⟩
      rw [htodo]
      exact List.mem_cons_of_mem e he'
  | call w ρ x args hx htodo hnext =>
      refine h.set rfl rfl rfl fun hchunk => ?_
      obtain ⟨-, hcall⟩ := h.workers x (List.mem_of_getElem? hx) hchunk
      exact (hcall args hnext).call ρ
  | retire w ρ x hx htodo hnext =>
      exact ⟨h.hand, h.queue, fun y hy => h.workers y (List.mem_of_mem_eraseIdx hy)⟩

end Sourced

end Server

/-- **Only closing chunks close sockets.**  A job that still has a socket to close was handed a
chunk of `ClosesSocket`. -/
theorem closing_chunk {cfg : Config} {s : Server} {ok : Server → Act → Prop}
    (hreach : Reach (Server.step cfg) ok .init s) {x : Worker} (hx : x ∈ s.workers) {fd : Int}
    (hclose : .close fd ∈ x.todo) : ClosesSocket x.job.args.bytes := by
  have hsourced : s.Sourced := hreach.invariant .init fun _ _ _ _ h _ hs => h.step hs
  by_contra hchunk
  have hspares := (hsourced.workers x hx hchunk).1 _ hclose
  cases hspares

/-! ## §5. The theorem. -/

/-- **The counter counts open clients.**  In every run with at most 2047 clients at once in
which every accepted socket is registered and no job closes the socket of an open client, the
counter is the number of open clients whenever the loop waits, whatever the jobs are doing. -/
theorem counter_eq_clients (cfg : Config) {s : Server}
    (hreach : Reach (Server.step cfg) (fun s a => s.Roomy a ∧ s.Balanced a) .init s)
    (hpc : s.pc = .wait) : s.proc.global_connection_id.toNat = s.clients.length := by
  have hcounted : s.Counted := by
    refine hreach.invariant (P := Server.Counted) .init ?_
    intro t a t' ht hcounted hok hs
    exact hcounted.step (Server.identified_of_reach ht) hok.1 hok.2 hs
  have hcount := hcounted.count
  rw [hpc] at hcount
  exact hcount

/-- A client has sent a `PING`, and its job is over. -/
theorem counter_eq_clients_ping :
    ∃ s, execute (Server.step ⟨3, .after⟩) (fun s a => s.Roomy a ∧ s.Balanced a)
        .init ([.connect, .loop (.ready [(none, { epollin := true })]),
          .loop (.accept (some 5)), .loop (.ctl true), .loop .go,
          .traffic 0 (.data [83, 83, 80, 0]), .loop (.ready [(some 0, { epollin := true })]),
          .loop (.recv 4), .loop .go, .loop (.ctl true), .take 0]
          ++ List.replicate 10 (.work 0 (.strict 5))) = some s
      ∧ s.workers.length = 0 ∧ s.proc.global_connection_id.toNat = s.clients.length := by
  apply execute_reaches (P := fun s : Server => s.pc = .wait ∧ s.workers.length = 0) (by decide)
  intro s hreach hdone
  exact ⟨hdone.2, counter_eq_clients ⟨3, .after⟩ hreach hdone.1⟩

/-- After `DIS_CONN` the counter still counts a client, and there is none. -/
theorem counter_after_dis_conn :
    ∃ s, execute (Server.step ⟨3, .after⟩) (fun s a => s.Linux a ∧ s.Roomy a)
        .init ([.connect, .loop (.ready [(none, { epollin := true })]),
          .loop (.accept (some 5)), .loop (.ctl true), .loop .go,
          .traffic 0 (.data [83, 83, 80, 4]), .loop (.ready [(some 0, { epollin := true })]),
          .loop (.recv 4), .loop .go, .loop (.ctl true), .take 0]
          ++ List.replicate 10 (.work 0 (.strict 5))) = some s
      ∧ s.pc = .wait ∧ s.queue.length = 0 ∧ s.workers.length = 0
      ∧ s.proc.global_connection_id = 1 ∧ s.clients.length = 0 :=
  exists_execute (P := fun s : Server => s.pc = .wait ∧ s.queue.length = 0 ∧ s.workers.length = 0
    ∧ s.proc.global_connection_id = 1 ∧ s.clients.length = 0) (by decide)

end SensorServer.System
