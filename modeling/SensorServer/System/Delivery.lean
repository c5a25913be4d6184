/-
  SensorServer.System.Delivery — no received byte is stranded.

  The loop reads once per event, at most 10240 bytes, from sockets registered edge-triggered.
  What saves the rest is that it registers the socket again after each chunk, which makes it
  pending if anything is left or has arrived in the meantime.  `Served` is the invariant: a
  client with unread bytes is pending, or has an event of the batch that will read it, or is
  the one being read, or is not registered yet; and an event that will read finds bytes, so
  that `recv` never returns nothing and the batch is never left early.
-/
import SensorServer.System.Accounts
import SensorServer.System.Undisturbed

namespace SensorServer.System

open SensorServer.Framework
open SensorServer.Loop

/-- The batch has an event, not begun with, that will read connection `n`. -/
def Queued (pc : LoopPc Tag) (n : Nat) : Prop :=
  ∃ x ∈ pc.ahead, tagConn x = some n ∧ x.1.events.epollin = true

namespace Server

/-! ## §1. The invariant. -/

/-- A client with unread bytes will be read. -/
structure Served (s : Server) : Prop where
  served : ∀ c ∈ s.clients, c.unread ≠ [] →
    c.pending = true ∨ adopting s.pc = some c.fd ∨ Queued s.pc c.conn
      ∨ ∃ fd, reading s.pc = some (fd, some c.conn)
  ready : ∀ c ∈ s.clients, Queued s.pc c.conn → c.unread ≠ []

namespace Served

variable {cfg : Config} {s s' : Server}

theorem init : Server.init.Served where
  served := fun _ hc => absurd hc List.not_mem_nil
  ready := fun _ hc => absurd hc List.not_mem_nil

/-- Steps that leave the clients and what is done for them alone. -/
theorem keep (h : s.Served) (hclients : s'.clients = s.clients)
    (hadopting : adopting s'.pc = adopting s.pc) (hahead : s'.pc.ahead = s.pc.ahead)
    (hreading : reading s'.pc = reading s.pc) : s'.Served := by
  refine ⟨?_, ?_⟩
  · rw [hclients, hadopting, hreading]
    unfold Queued
    rw [hahead]
    exact h.served
  · rw [hclients]
    unfold Queued
    rw [hahead]
    exact h.ready

/-- Something arrives: a registered client becomes pending. -/
theorem deliver (h : s.Served) (hord : s.Orderly) (conn : Nat) (t : Traffic) :
    (s.deliver conn t).Served := by
  refine ⟨?_, ?_⟩
  · refine s.forall_modify (fun c hc _ hne => ?_) (fun c hc _ => h.served c hc)
    rcases hord.watched c hc with ⟨i, hi, -⟩ | ⟨-, hadopting⟩
    · left
      show (c.pending || c.interest.isSome) = true
      rw [hi]
      exact Bool.or_true _
    · exact .inr (.inl hadopting)
  · refine s.forall_modify (fun c hc _ hq => ?_) (fun c hc _ => h.ready c hc)
    have hunread : (c.receive t).unread = c.unread ++ t.bytes :=
      Client.receive_sock_unread c.toSock t
    rw [Client.receive_conn] at hq
    rw [hunread]
    exact List.append_ne_nil_of_left_ne_nil (h.ready c hc hq) _

/-- The event at hand is behind the loop and read nobody. -/
theorem next (h : s.Served) {e : EpollEvent × Tag} {todo : List (EpollEvent × Tag)}
    (hpc : s.pc = .event e todo) (he : ∀ n, tagConn e = some n → e.1.events.epollin = false)
    (hahead : s'.pc.ahead = todo)
    (hclients : ∀ c ∈ s'.clients, c ∈ s.clients
      ∨ adopting s'.pc = some c.fd ∧ ¬ Queued s.pc c.conn) :
    s'.Served := by
  -- the event let go had no bytes to read
  have hqueued : ∀ n, Queued s.pc n ↔ Queued s'.pc n := by
    intro n
    unfold Queued
    rw [hahead, hpc]
    constructor
    · intro hx
      obtain ⟨x, hx, htag, hin⟩ := hx
      rcases List.mem_cons.mp hx with rfl | hx
      · rw [he n htag] at hin
        cases hin
      · exact ⟨x, hx, htag, hin⟩
    · intro hx
      obtain ⟨x, hx, hrest⟩ := hx
      exact ⟨x, List.mem_cons_of_mem e hx, hrest⟩
  refine ⟨?_, ?_⟩
  · intro c hc hne
    rcases hclients c hc with hold | ⟨hadopting, -⟩
    · rcases h.served c hold hne with hp | ha | hq | ⟨fd, hr⟩
      · exact .inl hp
      · rw [hpc] at ha
        cases ha
      · exact .inr (.inr (.inl ((hqueued _).mp hq)))
      · rw [hpc] at hr
        cases hr
    · exact .inr (.inl hadopting)
  · intro c hc hq
    rcases hclients c hc with hold | ⟨-, hno⟩
    · exact h.ready c hold ((hqueued _).mpr hq)
    · exact absurd ((hqueued _).mpr hq) hno

/-- A new batch has an event for every client that is no longer pending. -/
theorem wait (h : s.Served) (hid : s.Identified cfg) (hord : s.Orderly) (hpc : s.pc = .wait)
    {reports : List (Option Nat × EpollFlags)} (hcurrent : ∀ r ∈ reports, s.Current r) :
    ({ s.clearPending reports with pc := .next (reports.filterMap (s.report cfg)) } :
      Server).Served := by
  -- a report of a client is one of its readiness, and that shows unread bytes
  have hreport : ∀ c ∈ s.clients, ∀ flags, (some c.conn, flags) ∈ reports →
      (flags.epollin = true ↔ c.unread ≠ []) := by
    intro c hc flags hr
    obtain ⟨d, hd, hconn, -, rfl⟩ := hcurrent _ hr
    obtain rfl := hid.eq_of_conn hd hc hconn
    obtain ⟨hfin, hrst⟩ := hord.quiet d hd
    rcases hord.watched d hd with ⟨i, hi, hin⟩ | ⟨-, hadopting⟩
    · simp [Client.readiness, hi, hin, hfin, hrst]
    · rw [hpc] at hadopting
      cases hadopting
  have hqueued : ∀ c ∈ s.clients, Queued (.next (reports.filterMap (s.report cfg))) c.conn →
      c.unread ≠ [] := by
    intro c hc hq
    obtain ⟨x, hx, htag, hin⟩ := hq
    rw [LoopPc.ahead_next] at hx
    obtain ⟨r, hr, hx⟩ := List.mem_filterMap.mp hx
    obtain ⟨rconn, flags⟩ := r
    rcases report_eq_some hx with ⟨-, rfl, -⟩ | ⟨d, -, hconn, rfl, -⟩
    · cases htag
    · have hd : rconn = some c.conn := hconn.trans htag
      rw [hd] at hr
      exact (hreport c hc flags hr).mp hin
  refine ⟨?_, ?_⟩
  · refine s.forall_modify (p := fun c => some c.conn ∈ reports.map Prod.fst)
      (f := Client.reported) (fun c hc hp hne => ?_) (fun c hc _ hne => ?_)
    · -- a reported client has its event now
      rw [decide_eq_true_eq] at hp
      obtain ⟨r, hr, hrc⟩ := List.mem_map.mp hp
      obtain ⟨rconn, flags⟩ := r
      obtain rfl : rconn = some c.conn := hrc
      have hregistered : c.interest.isSome = true := by
        rcases hord.watched c hc with ⟨i, hi, -⟩ | ⟨-, hadopting⟩
        · rw [hi]
          rfl
        · rw [hpc] at hadopting
          cases hadopting
      have hfind : s.report cfg (some c.conn, flags) = some (⟨c.fd, flags⟩, some c) := by
        unfold report
        rw [Option.map_eq_some_iff]
        refine ⟨c, ?_, rfl⟩
        cases hf : s.clients.find? fun d => d.conn = c.conn ∧ d.interest.isSome with
        | none =>
            have hno := List.find?_eq_none.mp hf c hc
            simp [hregistered] at hno
        | some d =>
            have hd := List.find?_some hf
            rw [decide_eq_true_eq] at hd
            rw [hid.eq_of_conn (List.mem_of_find?_eq_some hf) hc hd.1]
      refine .inr (.inr (.inl ⟨(⟨c.fd, flags⟩, some c), ?_, rfl, ?_⟩))
      · rw [LoopPc.ahead_next]
        exact List.mem_filterMap.mpr ⟨_, hr, hfind⟩
      · exact (hreport c hc flags hr).mpr hne
    · -- any other is still pending
      rcases h.served c hc hne with hp | ha | ⟨x, hx, -⟩ | ⟨fd, hr⟩
      · exact .inl hp
      · rw [hpc] at ha
        cases ha
      · rw [hpc] at hx
        cases hx
      · rw [hpc] at hr
        cases hr
  · exact s.forall_modify (p := fun c => some c.conn ∈ reports.map Prod.fst)
      (f := Client.reported) (fun c hc _ hq => hqueued c hc hq) (fun c hc _ hq => hqueued c hc hq)

/-- A client whose bytes were read is registered again before the loop goes on. -/
theorem read (h : s.Served) (hid : s.Identified cfg) {e : EpollEvent × Tag}
    {todo : List (EpollEvent × Tag)} {c : Client} {n : Nat} (hpc : s.pc = .event e todo)
    (hc : c ∈ s.clients) (hfd : c.fd = e.1.fd) (htag : tagConn e = some c.conn)
    (hahead : s'.pc.ahead = todo) (hreading : reading s'.pc = some (e.1.fd, some c.conn))
    (hclients : s'.clients = (s.modify (fun c => c.fd = e.1.fd) (Client.read n)).clients) :
    s'.Served := by
  -- one client has the descriptor that was read
  have hother : ∀ d ∈ s.clients, decide (d.fd = e.1.fd) = false → d.conn ≠ c.conn := by
    intro d hd hp heq
    obtain rfl := hid.eq_of_conn hd hc heq
    simp [hfd] at hp
  have hdistinct := hid.distinct
  have hevents : s.pc.events = e :: todo := by rw [hpc]; rfl
  rw [hevents, List.filterMap_cons_some htag, List.nodup_cons] at hdistinct
  refine ⟨?_, ?_⟩
  · rw [hclients]
    refine s.forall_modify (fun d hd hp _ => ?_) (fun d hd hp hne => ?_)
    · obtain rfl := hid.eq_of_fd hd hc (by simpa [hfd] using hp)
      exact .inr (.inr (.inr ⟨_, hreading⟩))
    · rcases h.served d hd hne with hpend | ha | ⟨x, hx, hxtag, hin⟩ | ⟨fd, hr⟩
      · exact .inl hpend
      · rw [hpc] at ha
        cases ha
      · rw [hpc] at hx
        rcases List.mem_cons.mp hx with rfl | hx
        · exact absurd (Option.some.inj (hxtag.symm.trans htag)) (hother d hd hp)
        · exact .inr (.inr (.inl ⟨x, hahead ▸ hx, hxtag, hin⟩))
      · rw [hpc] at hr
        cases hr
  · rw [hclients]
    refine s.forall_modify (fun d hd hp hq => ?_) (fun d hd _ hq => ?_)
    · -- the client that was read has no other event
      obtain rfl := hid.eq_of_fd hd hc (by simpa [hfd] using hp)
      obtain ⟨x, hx, hxtag, -⟩ := hq
      exact absurd (List.mem_filterMap.mpr ⟨x, hahead ▸ hx, hxtag⟩) hdistinct.1
    · obtain ⟨x, hx, hrest⟩ := hq
      refine h.ready d hd ⟨x, ?_, hrest⟩
      rw [hpc]
      exact List.mem_cons_of_mem e (hahead ▸ hx)

/-- Registering the client at a descriptor makes it pending if it has unread bytes. -/
theorem register (h : s.Served) {fd : Int} {i : EpollFlags} (hin : i.epollin = true)
    (hahead : s'.pc.ahead = s.pc.ahead)
    (hclients : s'.clients = (s.modify (fun c => c.fd = fd) (Client.register i)).clients)
    (hother : ∀ c ∈ s.clients, c.fd ≠ fd →
      adopting s.pc ≠ some c.fd ∧ ∀ gd, reading s.pc ≠ some (gd, some c.conn)) :
    s'.Served := by
  refine ⟨?_, ?_⟩
  · rw [hclients]
    refine s.forall_modify (fun c hc _ hne => .inl (c.register_pending hin hne))
      (fun c hc hp hne => ?_)
    obtain ⟨hadopting, hreading⟩ := hother c hc (by simpa using hp)
    rcases h.served c hc hne with hpend | ha | hq | ⟨gd, hr⟩
    · exact .inl hpend
    · exact absurd ha hadopting
    · refine .inr (.inr (.inl ?_))
      unfold Queued
      rw [hahead]
      exact hq
    · exact absurd hr (hreading gd)
  · rw [hclients]
    unfold Queued
    rw [hahead]
    exact s.forall_modify (fun c hc _ hq => h.ready c hc hq) (fun c hc _ hq => h.ready c hc hq)

theorem step {a : Act} (h : s.Served) (hid : s.Identified cfg) (hord : s.Orderly)
    (hlinux : s.Linux a) (hok : s.Undisturbed a) (hs : s.step cfg a = some s') : s'.Served := by
  -- an event of a client is at a descriptor of its own
  have hclient : ∀ {e todo}, s.pc = .event e todo → ∀ n, tagConn e = some n →
      0 ≤ e.1.fd ∧ e.1.fd ≠ cfg.listen_socket := by
    intro e todo hpc n hn
    exact (hid.tagged e (by rw [hpc]; exact List.mem_cons_self) n hn).2.2.2
  cases move_of_step hs with
  -- the peers
  | connect => exact h.keep rfl rfl rfl rfl
  | traffic conn t hknown => exact h.deliver hord conn t
  -- the event loop
  | wait reports hpc hlen hnodup => exact h.wait hid hord hpc hlinux
  | refuse e todo hpc hb =>
      refine h.next hpc (fun n hn => ?_) (LoopPc.ahead_next todo) (fun c hc => .inl hc)
      exact absurd (branch_eq_accept.mp hb).1 (hclient hpc n hn).2
  | accept e todo fd k backlog hpc hb hbacklog hfd hlisten hfresh =>
      refine h.next hpc (fun n hn => ?_) rfl (fun c hc => ?_)
      · exact absurd (branch_eq_accept.mp hb).1 (hclient hpc n hn).2
      · refine (List.mem_append.mp hc).imp_right fun hnew => ?_
        rw [List.mem_singleton] at hnew
        rw [hnew]
        refine ⟨rfl, fun hq => ?_⟩
        -- a connection that waited has no event
        obtain ⟨x, hx, hxtag, -⟩ := hq
        refine (hid.tagged x (LoopPc.mem_events_of_ahead hx) _ hxtag).2.1 ?_
        rw [waiting, hbacklog]
        exact List.mem_cons_self
  | register fd e todo hpc hopen =>
      refine h.register rfl (by rw [hpc]; rfl) rfl (fun c hc hne => ?_)
      rw [hpc]
      exact ⟨fun hadopting => hne (Option.some.inj hadopting).symm, nofun⟩
  | registerFails fd e todo hpc => cases hok
  | count fd e todo proc hpc hadd =>
      exact h.keep rfl (by rw [hpc, adopting_next]; rfl) (by rw [hpc, LoopPc.ahead_next]; rfl)
        (by rw [hpc, reading_next]; rfl)
  | block fd e todo proc hpc hadd =>
      exact h.keep rfl (by rw [hpc]; rfl) (by rw [hpc]; rfl) (by rw [hpc]; rfl)
  | hangup e todo hpc hb =>
      exact absurd hb (hord.not_hangup (by rw [hpc]; exact List.mem_cons_self))
  | readNothing e todo n hpc hb hn =>
      -- an event that reads finds bytes
      have he : e ∈ s.pc.events := by
        rw [hpc]
        exact List.mem_cons_self
      obtain ⟨hlisten, -, -, hin⟩ := branch_eq_recv.mp hb
      cases htag : tagConn e with
      | none =>
          have hnone : e.2 = none := Option.map_eq_none_iff.mp htag
          exact absurd ⟨(hid.listened e he hnone).1, hin⟩ hlisten
      | some m =>
          obtain ⟨d, hd, rfl⟩ := hord.live e he m htag
          have hfd := (hid.tagged e he _ htag).2.2.1 d.key (List.mem_map_of_mem hd) rfl
          have hempty := hok hn e (by rw [hpc]; exact List.mem_cons_self) d hd hfd
          have hq : Queued s.pc d.conn := ⟨e, by rw [hpc]; exact List.mem_cons_self, htag, hin⟩
          exact absurd hempty (h.ready d hd hq)
  | read e todo n c hpc hb hc hfd hn hlen hunread =>
      have htag := hord.recv_tag hid (by rw [hpc]; exact List.mem_cons_self) hb hc hfd
      exact h.read hid hpc hc hfd htag rfl rfl rfl
  | skip e todo hpc hb =>
      refine h.next hpc (fun n hn => ?_) (LoopPc.ahead_next todo) (fun c hc => .inl hc)
      rcases (branch_eq_skip.mp hb).2 with hneg | ⟨-, hno⟩
      · exact absurd hneg (Int.not_lt.mpr (hclient hpc n hn).1)
      · simpa using hno
  | submit addr args src e todo hpc =>
      exact h.keep rfl (by rw [hpc]; rfl) (by rw [hpc]; rfl) (by rw [hpc]; rfl)
  | rearm fd src e todo hpc hopen =>
      obtain ⟨c, hc, hhand, -⟩ := hord.hand (fd, src.map (·.conn)) (by rw [hpc]; rfl)
      obtain ⟨rfl, hsrc⟩ := Prod.mk.inj hhand
      refine h.register rfl (by rw [hpc, LoopPc.ahead_next]; rfl) rfl (fun d hd hne => ?_)
      rw [hpc]
      refine ⟨nofun, fun gd hr => ?_⟩
      -- the client that was read is the one at the descriptor
      have hconn : src.map (·.conn) = some d.conn := congrArg Prod.snd (Option.some.inj hr)
      rw [hsrc] at hconn
      exact hne (congrArg Client.fd (hid.eq_of_conn hc hd (Option.some.inj hconn))).symm
  | rearmFails fd src e todo hpc => cases hok
  -- the workers
  | take k job hjob => exact h.keep rfl rfl rfl rfl
  | perform w ρ x e todo hx htodo =>
      have hstays : e.isClose = false := hok x (by simp [hx]) e (by simp [htodo])
      have hpc := s.perform_pc x.job.addr e
      exact h.keep (s.perform_clients _ e hstays) (congrArg adopting hpc)
        (congrArg LoopPc.ahead hpc) (congrArg reading hpc)
  | call w ρ x args hx htodo hnext => exact h.keep rfl rfl rfl rfl
  | retire w ρ x hx htodo hnext => exact h.keep rfl rfl rfl rfl

end Served

end Server

/-! ## §2. The theorem. -/

/-- The loop is inside no event: it waits, or is about to begin with one. -/
def Between : LoopPc Tag → Prop
  | .wait | .event _ _ => True
  | _ => False

instance : DecidablePred Between
  | .wait | .event _ _ => .isTrue trivial
  | .accepted _ _ _ | .registered _ _ _ | .received _ _ _ _ _ | .submitted _ _ _ _
  | .blocked _ _ => .isFalse id

/-- Between events the loop holds nothing. -/
theorem Between.holds_nothing {pc : LoopPc Tag} (h : Between pc) :
    pc.events = pc.ahead ∧ adopting pc = none ∧ ∀ n, inHand n pc = [] := by
  cases pc with
  | wait | event => exact ⟨rfl, rfl, fun _ => rfl⟩
  | _ => exact absurd h id

/-- **No byte is lost, duplicated, reordered or stranded.**  In every run in which no client
leaves, no job closes a socket and the kernel delivers, for every client: what was handed to
the thread pool, followed by the chunk in the loop's hand and the kernel's unread bytes, is
what the client has sent; and if bytes are unread, the client is pending, or has an event of
the batch the loop is not done with, or is about to be registered.  Between events nothing is
in the loop's hand, and unread bytes have a pending client or an event still ahead. -/
theorem bytes_delivered (cfg : Config) {s : Server}
    (hreach : Reach (Server.step cfg) (fun s a => s.Linux a ∧ s.Undisturbed a) .init s)
    {c : Client} (hc : c ∈ s.clients) :
    (handedBytes c.conn s.log ++ inHand c.conn s.pc ++ c.unread = arrivedBytes c.conn s.log
        ∧ (c.unread ≠ [] → c.pending = true ∨ (∃ x ∈ s.pc.events, tagConn x = some c.conn)
          ∨ adopting s.pc = some c.fd))
      ∧ (Between s.pc → handedBytes c.conn s.log ++ c.unread = arrivedBytes c.conn s.log
        ∧ (c.unread ≠ [] → c.pending = true ∨ ∃ x ∈ s.pc.ahead, tagConn x = some c.conn)) := by
  -- two invariants: where the clients stand, and who still hears of unread bytes
  have hinv : s.Orderly ∧ s.Served := by
    refine hreach.invariant (P := fun s => s.Orderly ∧ s.Served) ⟨.init, .init⟩ ?_
    intro t a t' ht hinv hok hs
    have hid := Server.identified_of_reach ht
    exact ⟨hinv.1.step hid hok.1 hok.2 hs, hinv.2.step hid hinv.1 hok.1 hok.2 hs⟩
  have hbytes : handedBytes c.conn s.log ++ inHand c.conn s.pc ++ c.unread
      = arrivedBytes c.conn s.log := (Server.accounted_of_reach hreach).open_clients c hc
  have hserved : c.unread ≠ [] → c.pending = true
      ∨ (∃ x ∈ s.pc.events, tagConn x = some c.conn) ∨ adopting s.pc = some c.fd := by
    intro hne
    rcases hinv.2.served c hc hne with hpending | hadopting | ⟨x, hx, htag, -⟩ | ⟨fd, hr⟩
    · exact .inl hpending
    · exact .inr (.inr hadopting)
    · exact .inr (.inl ⟨x, LoopPc.mem_events_of_ahead hx, htag⟩)
    · -- the chunk in hand is that of the event under way
      obtain ⟨d, hd, hhand, hcur⟩ := hinv.1.hand _ hr
      obtain ⟨x, hx, htag⟩ := Option.bind_eq_some_iff.mp hcur
      have hconn : c.conn = d.conn := Option.some.inj (congrArg Prod.snd hhand)
      refine .inr (.inl ⟨x, ?_, hconn ▸ htag⟩)
      rw [LoopPc.events, hx]
      exact List.mem_cons_self
  refine ⟨⟨hbytes, hserved⟩, fun hbetween => ?_⟩
  obtain ⟨hevents, hadopting, hhand⟩ := hbetween.holds_nothing
  rw [hhand, List.append_nil] at hbytes
  rw [hevents, hadopting] at hserved
  refine ⟨hbytes, fun hne => (hserved hne).imp_right fun h => h.resolve_right ?_⟩
  nofun

/-- A byte arrives between `recv` and the new registration. -/
theorem bytes_delivered_late :
    ∃ s, execute (Server.step ⟨3, .after⟩) (fun s a => s.Linux a ∧ s.Undisturbed a)
        .init [.connect, .loop (.ready [(none, { epollin := true })]),
          .loop (.accept (some 5)), .loop (.ctl true), .loop .go,
          .traffic 0 (.data [83, 83, 80, 0]), .loop (.ready [(some 0, { epollin := true })]),
          .loop (.recv 4), .traffic 0 (.data [83]), .loop .go, .loop (.ctl true)] = some s
      ∧ ∃ c ∈ s.clients, c.unread ≠ []
        ∧ (c.pending = true ∨ ∃ x ∈ s.pc.ahead, tagConn x = some c.conn) := by
  apply execute_reaches
    (P := fun s : Server => Between s.pc ∧ ∃ c ∈ s.clients, c.unread ≠ []) (by decide)
  intro s hreach hleft
  obtain ⟨hbetween, c, hc, hne⟩ := hleft
  exact ⟨c, hc, hne, ((bytes_delivered ⟨3, .after⟩ hreach hc).2 hbetween).2 hne⟩

end SensorServer.System
