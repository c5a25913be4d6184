/-
  SensorServer.System.Undisturbed — runs in which every client stays.

  In the runs considered here no peer closes or resets its connection, no job closes a socket,
  and the kernel keeps its word: `recv` returns bytes when there are some, `epoll_ctl` succeeds
  on open sockets.  `Orderly` is what the loop can rely on then: no event is a hang-up, every
  event's client is still there, every client but the one just accepted is registered for
  input, and the chunk in hand is that of the event under way.
-/
import SensorServer.System.Identity

namespace SensorServer.System

open SensorServer.Framework
open SensorServer.Loop

/-! ## §1. Places of the loop. -/

/-- The client the loop has accepted and not registered yet. -/
def adopting : LoopPc Tag → Option Int
  | .accepted fd _ _ => some fd
  | _ => none

/-- The descriptor that was read, and the connection its bytes came from. -/
def reading : LoopPc Tag → Option (Int × Option Nat)
  | .received _ args src _ _ => some (args.socket_fd, src.map (·.conn))
  | .submitted fd src _ _ => some (fd, src.map (·.conn))
  | _ => none

@[simp] theorem adopting_next (todo : List (EpollEvent × Tag)) : adopting (.next todo) = none := by
  cases todo <;> rfl

@[simp] theorem reading_next (todo : List (EpollEvent × Tag)) : reading (.next todo) = none := by
  cases todo <;> rfl

namespace Server

/-! ## §2. Runs. -/

/-- No departures, no closing jobs, and a kernel that delivers. -/
def Undisturbed (s : Server) : Act → Prop
  | .traffic _ .fin | .traffic _ .rst => False
  | .loop (.ctl ok) => ok = true
  | .loop (.recv n) => n ≤ 0 →
      ∀ e ∈ s.pc.current.toList, ∀ c ∈ s.clients, c.fd = e.1.fd → c.unread = []
  | .work w _ => ∀ x ∈ s.workers[w]?.toList, ∀ e ∈ x.todo.head?.toList, e.isClose = false
  | _ => True

instance (s : Server) : DecidablePred s.Undisturbed
  | .traffic _ .fin | .traffic _ .rst => .isFalse id
  | .loop (.ctl ok) => inferInstanceAs (Decidable (ok = true))
  | .loop (.recv n) => inferInstanceAs (Decidable (n ≤ 0 → _))
  | .work w _ => inferInstanceAs (Decidable (∀ x ∈ s.workers[w]?.toList, _))
  | .traffic _ (.data _) | .traffic _ .wake | .loop (.ready _) | .loop (.accept _) | .loop .go
  | .connect | .take _ => .isTrue trivial

/-! ## §3. The invariant. -/

/-- What the loop can rely on in undisturbed runs. -/
structure Orderly (s : Server) : Prop where
  waiting : ∀ k ∈ s.backlog, k.fin = false ∧ k.rst = false
  quiet : ∀ c ∈ s.clients, c.fin = false ∧ c.rst = false
  /-- Every client is registered for input, or about to be. -/
  watched : ∀ c ∈ s.clients, (∃ i, c.interest = some i ∧ i.epollin = true)
    ∨ (c.interest = none ∧ adopting s.pc = some c.fd)
  calm : ∀ x ∈ s.pc.events, ¬ (x.1.events.epollrdhup ∨ x.1.events.epollhup)
  live : ∀ x ∈ s.pc.events, ∀ n, tagConn x = some n → ∃ c ∈ s.clients, c.conn = n
  /-- The chunk in hand came from the client the event under way was reported for. -/
  hand : ∀ r, reading s.pc = some r →
    ∃ c ∈ s.clients, r = (c.fd, some c.conn) ∧ s.pc.current.bind tagConn = some c.conn

namespace Orderly

variable {cfg : Config} {s s' : Server}

theorem init : Server.init.Orderly := by
  constructor
  · exact fun _ hk => absurd hk List.not_mem_nil
  · exact fun _ hc => absurd hc List.not_mem_nil
  · exact fun _ hc => absurd hc List.not_mem_nil
  · exact fun _ hx => absurd hx List.not_mem_nil
  · exact fun _ hx => absurd hx List.not_mem_nil
  · nofun

/-- A `recv` is made for the client at its descriptor. -/
theorem recv_tag (h : s.Orderly) (hid : s.Identified cfg) {e : EpollEvent × Tag}
    (he : e ∈ s.pc.events) (hb : branch cfg.listen_socket e.1 = .recv) {c : Client}
    (hc : c ∈ s.clients) (hfd : c.fd = e.1.fd) : tagConn e = some c.conn := by
  obtain ⟨hlisten, -, -, hin⟩ := branch_eq_recv.mp hb
  cases htag : tagConn e with
  | none =>
      have hnone : e.2 = none := Option.map_eq_none_iff.mp htag
      exact absurd ⟨(hid.listened e he hnone).1, hin⟩ hlisten
  | some n =>
      obtain ⟨d, hd, rfl⟩ := h.live e he n htag
      have hdfd := (hid.tagged e he _ htag).2.2.1 d.key (List.mem_map_of_mem hd) rfl
      rw [hid.eq_of_fd hd hc (hdfd.trans hfd.symm)]

/-- Steps that keep the clients as they are. -/
theorem keep (h : s.Orderly) (hbacklog : s'.backlog = s.backlog)
    (hclients : s'.clients = s.clients)
    (hadopting : adopting s.pc = none ∨ adopting s'.pc = adopting s.pc)
    (hevents : ∀ x ∈ s'.pc.events, x ∈ s.pc.events)
    (hreading : reading s'.pc = none
      ∨ (reading s'.pc = reading s.pc ∧ s'.pc.current = s.pc.current)) :
    s'.Orderly where
  waiting := hbacklog ▸ h.waiting
  quiet := hclients ▸ h.quiet
  watched := by
    intro c hc
    rw [hclients] at hc
    refine (h.watched c hc).imp_right fun hw => ⟨hw.1, ?_⟩
    rcases hadopting with hnone | heq
    · rw [hnone] at hw
      cases hw.2
    · exact heq ▸ hw.2
  calm := fun x hx => h.calm x (hevents x hx)
  live := by
    rw [hclients]
    exact fun x hx => h.live x (hevents x hx)
  hand := by
    intro r hr
    rcases hreading with hnone | ⟨heq, hcur⟩
    · rw [hnone] at hr
      cases hr
    · rw [hclients, hcur]
      exact h.hand r (heq ▸ hr)

/-- Steps that change clients without moving them. -/
theorem change (h : s.Orderly) {p : Client → Bool} {f : Client → Client}
    (hclients : s'.clients = (s.modify p f).clients) (hkey : ∀ c, (f c).key = c.key)
    (hquiet : ∀ c, (f c).fin = c.fin ∧ (f c).rst = c.rst)
    (hbacklog : ∀ k ∈ s'.backlog, k.fin = false ∧ k.rst = false)
    (hwatched : ∀ c ∈ s'.clients, (∃ i, c.interest = some i ∧ i.epollin = true)
      ∨ (c.interest = none ∧ adopting s'.pc = some c.fd))
    (hcalm : ∀ x ∈ s'.pc.events, ¬ (x.1.events.epollrdhup ∨ x.1.events.epollhup))
    (hlive : ∀ x ∈ s'.pc.events, ∀ n, tagConn x = some n → ∃ c ∈ s.clients, c.conn = n)
    (hhand : ∀ r, reading s'.pc = some r →
      ∃ c ∈ s.clients, r = (c.fd, some c.conn) ∧ s'.pc.current.bind tagConn = some c.conn) :
    s'.Orderly where
  waiting := hbacklog
  quiet := by
    rw [hclients]
    refine s.forall_modify (fun c hc _ => ?_) (fun c hc _ => h.quiet c hc)
    rw [(hquiet c).1, (hquiet c).2]
    exact h.quiet c hc
  watched := hwatched
  calm := hcalm
  live := by
    intro x hx n hn
    rw [hclients]
    exact s.exists_modify (fun c => congrArg Prod.fst (hkey c)) (hlive x hx n hn)
  hand := by
    intro r hr
    obtain ⟨c, hc, rfl, hcur⟩ := hhand r hr
    rw [hclients]
    refine ⟨if p c then f c else c, List.mem_map_of_mem hc, ?_⟩
    split
    · have hconn : (f c).conn = c.conn := congrArg Prod.fst (hkey c)
      have hfd : (f c).fd = c.fd := congrArg Prod.snd (hkey c)
      rw [hconn, hfd]
      exact ⟨rfl, hcur⟩
    · exact ⟨rfl, hcur⟩

/-- A client's readiness shows no hang-up. -/
theorem readiness_calm (h : s.Orderly) {c : Client} (hc : c ∈ s.clients) :
    ¬ (c.readiness.epollrdhup ∨ c.readiness.epollhup) := by
  obtain ⟨hfin, hrst⟩ := h.quiet c hc
  unfold Client.readiness
  cases c.interest with
  | none => simp
  | some i => simp [hfin, hrst]

/-- No event is a hang-up. -/
theorem not_hangup (h : s.Orderly) {x : EpollEvent × Tag} (hx : x ∈ s.pc.events) :
    branch cfg.listen_socket x.1 ≠ .epollDelFd :=
  fun hb => h.calm x hx (branch_eq_epollDelFd.mp hb).2.2

/-- While no socket waits to be registered, every client is registered for input. -/
theorem registered (h : s.Orderly) (hadopting : adopting s.pc = none) :
    ∀ c ∈ s.clients, ∃ i, c.interest = some i ∧ i.epollin = true := by
  intro c hc
  refine (h.watched c hc).resolve_right fun hw => ?_
  rw [hadopting] at hw
  cases hw.2

/-- Being done with an event. -/
theorem done (h : s.Orderly) {todo : List (EpollEvent × Tag)} (hbacklog : s'.backlog = s.backlog)
    (hclients : s'.clients = s.clients) (hadopting : adopting s.pc = none)
    (hbehind : s.pc.behind = todo) (hpc : s'.pc = .next todo) : s'.Orderly := by
  refine h.keep hbacklog hclients (.inl hadopting) ?_ (.inl ?_)
  · rw [hpc]
    exact (LoopPc.events_done hbehind).subset
  · rw [hpc, reading_next]

/-- Data and wake-ups close nothing. -/
theorem deliver (h : s.Orderly) (conn : Nat) {t : Traffic}
    (hreceive : ∀ k : Sock, (k.receive t).fin = k.fin ∧ (k.receive t).rst = k.rst) :
    (s.deliver conn t).Orderly := by
  refine h.change (p := fun c => c.conn = conn) (f := Client.receive t) rfl
    (Client.receive_key t) (fun c => hreceive c.toSock) ?_ ?_ h.calm h.live h.hand
  · intro k hk
    obtain ⟨j, hj, rfl⟩ := List.mem_map.mp hk
    split
    · rw [(hreceive j).1, (hreceive j).2]
      exact h.waiting j hj
    · exact h.waiting j hj
  · exact s.forall_modify (fun c hc _ => h.watched c hc) (fun c hc _ => h.watched c hc)

/-- A batch reports clients that are there, as calm as they are. -/
theorem wait (h : s.Orderly) {reports : List (Option Nat × EpollFlags)}
    (hlinux : ∀ r ∈ reports, s.Current r) (hpc : s.pc = .wait) :
    Orderly { s.clearPending reports with pc := .next (reports.filterMap (s.report cfg)) } := by
  have hadopting : adopting s.pc = none := by
    rw [hpc]
    rfl
  refine h.change (p := fun c => some c.conn ∈ reports.map Prod.fst) (f := Client.reported) rfl
    Client.reported_key (fun c => ⟨rfl, rfl⟩) h.waiting ?_ ?_ ?_ ?_
  · intro c hc
    exact .inl (s.forall_modify (p := fun c => some c.conn ∈ reports.map Prod.fst)
      (f := Client.reported) (P := fun c => ∃ i, c.interest = some i ∧ i.epollin = true)
      (fun c hc _ => h.registered hadopting c hc) (fun c hc _ => h.registered hadopting c hc) c hc)
  · intro x hx
    rw [LoopPc.events_next] at hx
    obtain ⟨r, hr, hx⟩ := List.mem_filterMap.mp hx
    -- events of the listening socket name no client
    rcases report_eq_some hx with ⟨-, rfl, hno⟩ | ⟨c, hc, hconn, rfl, -⟩
    · exact hno
    · have hcurrent := hlinux r hr
      obtain ⟨rconn, flags⟩ := r
      cases hconn
      obtain ⟨d, hd, hdc, -, hflags⟩ := hcurrent
      have hcalm := h.readiness_calm hd
      rw [← hflags] at hcalm
      exact hcalm
  · intro x hx n hn
    rw [LoopPc.events_next] at hx
    obtain ⟨r, hr, hx⟩ := List.mem_filterMap.mp hx
    rcases report_eq_some hx with ⟨-, rfl, -⟩ | ⟨c, hc, -, rfl, -⟩
    · cases hn
    · exact ⟨c, hc, Option.some.inj hn⟩
  · intro r hr
    rw [reading_next] at hr
    cases hr

/-- A connection comes out of the backlog. -/
theorem accept (h : s.Orderly) {e : EpollEvent × Tag} {todo : List (EpollEvent × Tag)} {fd : Int}
    {k : Sock} {backlog : List Sock} (hpc : s.pc = .event e todo)
    (hbacklog : s.backlog = k :: backlog) :
    Orderly { s with
      backlog, clients := s.clients ++ [k.accepted fd], pc := .accepted fd e todo
      proc := s.proc.malloc.2 } := by
  have hk : k.fin = false ∧ k.rst = false := h.waiting k (hbacklog ▸ List.mem_cons_self)
  have hadopting : adopting s.pc = none := by
    rw [hpc]
    rfl
  -- what holds of the clients there are and of the new one holds of all
  have hall : ∀ {P : Client → Prop}, (∀ c ∈ s.clients, P c) → P (k.accepted fd) →
      ∀ c ∈ s.clients ++ [k.accepted fd], P c := by
    intro P hold hnew c hc
    rcases List.mem_append.mp hc with hc | hc
    · exact hold c hc
    · rw [List.mem_singleton] at hc
      exact hc ▸ hnew
  refine ⟨?_, ?_, ?_, ?_, ?_, ?_⟩
  · exact fun j hj => h.waiting j (hbacklog ▸ List.mem_cons_of_mem k hj)
  · exact hall h.quiet hk
  · exact hall (fun c hc => .inl (h.registered hadopting c hc)) (.inr ⟨rfl, rfl⟩)
  · exact fun x hx => h.calm x (by rw [hpc]; exact hx)
  · intro x hx n hn
    obtain ⟨c, hc, hcn⟩ := h.live x (by rw [hpc]; exact hx) n hn
    exact ⟨c, List.mem_append_left _ hc, hcn⟩
  · nofun

theorem step {a : Act} (h : s.Orderly) (hid : s.Identified cfg) (hlinux : s.Linux a)
    (hok : s.Undisturbed a) (hs : s.step cfg a = some s') : s'.Orderly := by
  cases move_of_step hs with
  -- the peers
  | connect =>
      refine ⟨?_, h.quiet, h.watched, h.calm, h.live, h.hand⟩
      intro k hk
      rcases List.mem_append.mp hk with hk | hk
      · exact h.waiting k hk
      · rw [List.mem_singleton] at hk
        rw [hk]
        exact ⟨rfl, rfl⟩
  | traffic conn t hknown =>
      refine h.deliver conn fun k => ?_
      cases t with
      | fin | rst => exact absurd hok id
      | data bytes => exact ⟨rfl, rfl⟩
      | wake => exact ⟨rfl, rfl⟩
  -- the event loop
  | wait reports hpc hlen hnodup => exact h.wait hlinux hpc
  | refuse e todo hpc hb => exact h.done rfl rfl (by rw [hpc]; rfl) (by rw [hpc]; rfl) rfl
  | accept e todo fd k backlog hpc hb hbacklog hfd hlisten hfresh => exact h.accept hpc hbacklog
  | register fd e todo hpc hopen =>
      have hevents : ∀ x ∈ e :: todo, x ∈ s.pc.events := by
        rw [hpc]
        exact fun x hx => hx
      refine h.change (p := fun c => c.fd = fd) (f := Client.register acceptInterest) rfl
        (Client.register_key _) (fun c => ⟨rfl, rfl⟩) h.waiting ?_
        (fun x hx => h.calm x (hevents x hx)) (fun x hx => h.live x (hevents x hx)) nofun
      refine s.forall_modify (fun c hc _ => .inl ⟨_, rfl, rfl⟩) (fun c hc hother => ?_)
      -- only the client just accepted was not registered
      refine .inl ((h.watched c hc).resolve_right fun hw => ?_)
      rw [hpc] at hw
      rw [Option.some.inj hw.2] at hother
      simp at hother
  | registerFails fd e todo hpc => cases hok
  | count fd e todo proc hpc hadd =>
      exact h.done rfl rfl (by rw [hpc]; rfl) (by rw [hpc]; rfl) rfl
  | block fd e todo proc hpc hadd =>
      exact h.keep rfl rfl (.inl (by rw [hpc]; rfl)) (fun x hx => by rw [hpc]; exact hx) (.inl rfl)
  | hangup e todo hpc hb =>
      exact absurd hb (h.not_hangup (by rw [hpc]; exact List.mem_cons_self))
  | readNothing e todo n hpc hb hn =>
      exact h.keep rfl rfl (.inl (by rw [hpc]; rfl)) (fun x hx => absurd hx List.not_mem_nil)
        (.inl rfl)
  | read e todo n c hpc hb hc hfd hn hlen hunread =>
      have he : e ∈ s.pc.events := by
        rw [hpc]
        exact List.mem_cons_self
      have htag := h.recv_tag hid he hb hc hfd
      have hevents : ∀ x ∈ e :: todo, x ∈ s.pc.events := by
        rw [hpc]
        exact fun x hx => hx
      have hregistered := h.registered (by rw [hpc]; rfl)
      refine h.change (p := fun c => c.fd = e.1.fd) (f := Client.read n) rfl
        (Client.read_key n) (fun c => ⟨rfl, rfl⟩) h.waiting ?_ (fun x hx => h.calm x (hevents x hx))
        (fun x hx => h.live x (hevents x hx)) ?_
      · exact s.forall_modify (fun c hc _ => .inl (hregistered c hc))
          (fun c hc _ => .inl (hregistered c hc))
      · intro r hr
        refine ⟨c, hc, ?_, htag⟩
        rw [hfd]
        exact (Option.some.inj hr).symm
  | skip e todo hpc hb => exact h.done rfl rfl (by rw [hpc]; rfl) (by rw [hpc]; rfl) rfl
  | submit addr args src e todo hpc =>
      exact h.keep rfl rfl (.inl (by rw [hpc]; rfl)) (fun x hx => by rw [hpc]; exact hx)
        (.inr ⟨by rw [hpc]; rfl, by rw [hpc]; rfl⟩)
  | rearm fd src e todo hpc hopen =>
      have hevents : ∀ x ∈ (LoopPc.next todo).events, x ∈ s.pc.events :=
        (LoopPc.events_done (by rw [hpc]; rfl)).subset
      have hregistered := h.registered (by rw [hpc]; rfl)
      refine h.change (p := fun c => c.fd = fd) (f := Client.register rearmInterest) rfl
        (Client.register_key _) (fun c => ⟨rfl, rfl⟩) h.waiting ?_
        (fun x hx => h.calm x (hevents x hx)) (fun x hx => h.live x (hevents x hx)) ?_
      · exact s.forall_modify (fun c hc _ => .inl ⟨_, rfl, rfl⟩)
          (fun c hc _ => .inl (hregistered c hc))
      · intro r hr
        rw [reading_next] at hr
        cases hr
  | rearmFails fd src e todo hpc => cases hok
  -- the workers
  | take k job hjob => exact h.keep rfl rfl (.inr rfl) (fun _ hx => hx) (.inr ⟨rfl, rfl⟩)
  | perform w ρ x e todo hx htodo =>
      have hstays : e.isClose = false := hok x (by simp [hx]) e (by simp [htodo])
      have hpc := s.perform_pc x.job.addr e
      refine h.keep (s.perform_backlog _ e) (s.perform_clients _ e hstays) (.inr ?_) ?_ (.inr ?_)
      · exact congrArg adopting hpc
      · exact fun y hy => hpc ▸ hy
      · exact ⟨congrArg reading hpc, congrArg LoopPc.current hpc⟩
  | call w ρ x args hx htodo hnext =>
      exact h.keep rfl rfl (.inr rfl) (fun _ hx => hx) (.inr ⟨rfl, rfl⟩)
  | retire w ρ x hx htodo hnext =>
      exact h.keep rfl rfl (.inr rfl) (fun _ hx => hx) (.inr ⟨rfl, rfl⟩)

end Orderly

end Server

end SensorServer.System
