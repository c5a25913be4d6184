/-
  SensorServer.System.Closing — what is unread when the loop closes a socket.

  The loop body tests for a hang-up before it tests for input.  When data and the close behind
  it are reported in one event, the hang-up branch is taken and the data are never read.
  `closed_drained` says that nothing unread is closed as long as hang-ups are reported for
  drained sockets only, and nothing arrives at a descriptor a hang-up in the batch still names.
-/
import SensorServer.System.Identity

namespace SensorServer.System

open SensorServer.Framework
open SensorServer.Loop

/-! ## §1. Drained sockets. -/

/-- Nothing that can still be read is unread. -/
def Sock.Drained (k : Sock) : Prop := k.rst = true ∨ k.unread = []

instance (k : Sock) : Decidable k.Drained := by
  unfold Sock.Drained
  infer_instance

namespace Server

/-- Hang-ups are reported of drained sockets, and while one is ahead in the batch nothing to
read comes to the descriptor it names: no bytes, and no connection that has brought some. -/
def HangupsDrained (s : Server) : Act → Prop
  | .loop (.ready reports) => ∀ r ∈ reports, r.2.HangsUp →
      ∀ c ∈ s.clients, r.1 = some c.conn → c.Drained
  | .loop (.accept (some fd)) => ∀ x ∈ s.pc.ahead, x.1.events.HangsUp → x.1.fd = fd →
      ∀ k ∈ s.backlog.head?.toList, k.Drained
  | .traffic conn (.data _) => ∀ x ∈ s.pc.ahead, x.1.events.HangsUp →
      ∀ c ∈ s.clients, c.conn = conn → c.fd = x.1.fd → c.rst = true
  | _ => True

instance (s : Server) : DecidablePred s.HangupsDrained
  | .loop (.ready reports) => inferInstanceAs (Decidable (∀ r ∈ reports, r.2.HangsUp → _))
  | .loop (.accept (some _)) =>
      inferInstanceAs (Decidable (∀ x ∈ s.pc.ahead, x.1.events.HangsUp → _))
  | .traffic _ (.data _) =>
      inferInstanceAs (Decidable (∀ x ∈ s.pc.ahead, x.1.events.HangsUp → _))
  | .loop (.accept none) | .loop (.ctl _) | .loop (.recv _) | .loop .go | .traffic _ .fin
  | .traffic _ .rst | .traffic _ .wake | .connect | .take _ | .work _ _ => .isTrue trivial

/-! ## §2. The invariant. -/

/-- Whatever is at the descriptor of a hang-up ahead is drained. -/
def AheadDrained (s : Server) : Prop :=
  ∀ x ∈ s.pc.ahead, x.1.events.HangsUp → ∀ c ∈ s.clients, c.fd = x.1.fd → c.Drained

namespace AheadDrained

variable {cfg : Config} {s s' : Server}

theorem init : Server.init.AheadDrained := fun _ hx => absurd hx List.not_mem_nil

/-- Steps that begin with no new event and leave every client as drained as before. -/
theorem keep (h : s.AheadDrained) (hahead : ∀ x ∈ s'.pc.ahead, x ∈ s.pc.ahead)
    (hclients : ∀ c' ∈ s'.clients, ∃ c ∈ s.clients, c'.fd = c.fd ∧ (c.Drained → c'.Drained)) :
    s'.AheadDrained := by
  intro x hx hup c' hc' hfd
  obtain ⟨c, hc, hcfd, hdrained⟩ := hclients c' hc'
  exact hdrained (h x (hahead x hx) hup c hc (hcfd.symm.trans hfd))

/-- A drained socket receives a close or a reset and is still drained. -/
theorem receive_drained {t : Traffic} (ht : ∀ bytes, t ≠ .data bytes) (c : Client)
    (h : c.Drained) : (c.receive t).Drained := by
  cases t with
  | data bytes => exact absurd rfl (ht bytes)
  | rst => exact .inl rfl
  | fin => exact h
  | wake => exact h

/-- A drained socket stays drained when it is read. -/
theorem read_drained (n : Nat) (c : Client) (h : c.Drained) : (c.read n).Drained := by
  refine h.imp_right fun hnil => ?_
  show c.unread.drop n = []
  rw [hnil, List.drop_nil]

theorem step {a : Act} (h : s.AheadDrained) (hid : s.Identified cfg) (hok : s.HangupsDrained a)
    (hs : s.step cfg a = some s') : s'.AheadDrained := by
  have hsame : ∀ c' ∈ s.clients, ∃ c ∈ s.clients, c'.fd = c.fd ∧ (c.Drained → c'.Drained) :=
    fun c hc => ⟨c, hc, rfl, id⟩
  cases move_of_step hs with
  -- the peers
  | connect => exact h
  | traffic conn t hknown =>
      cases t with
      | data bytes =>
          -- bytes that arrive at a hang-up ahead come after a reset
          intro x hx hup
          refine s.forall_modify (fun c hc hp hfd => .inl ?_) (fun c hc _ => h x hx hup c hc)
          exact hok x hx hup c hc (by simpa using hp) hfd
      | fin | rst | wake =>
          refine h.keep (fun _ hx => hx) (s.exists_of_modify (fun c => ?_) fun _ => ⟨rfl, id⟩)
          refine ⟨c.receive_fd _, receive_drained ?_ c⟩
          nofun
  -- the event loop
  | wait reports hpc hlen hnodup =>
      intro x hx hup
      rw [LoopPc.ahead_next] at hx
      obtain ⟨r, hr, hx⟩ := List.mem_filterMap.mp hx
      rcases report_eq_some hx with ⟨-, rfl, hno⟩ | ⟨d, hd, hconn, rfl, -⟩
      · exact absurd hup hno
      · -- the client at the descriptor is the one that was reported
        have hdrained := hok r hr hup d hd hconn
        refine s.forall_modify (fun c hc _ hfd => ?_) (fun c hc _ hfd => ?_)
        · rw [hid.eq_of_fd hc hd hfd]
          exact hdrained
        · rw [hid.eq_of_fd hc hd hfd]
          exact hdrained
  | refuse e todo hpc hb => exact h.keep (LoopPc.ahead_done (by rw [hpc]; rfl)) hsame
  | accept e todo fd k backlog hpc hb hbacklog hfd hlisten hfresh =>
      have hsub : ∀ y ∈ (LoopPc.accepted fd e todo).ahead, y ∈ s.pc.ahead :=
        LoopPc.ahead_subset (by rw [hpc]; rfl)
      intro x hx hup c hc hcfd
      rcases List.mem_append.mp hc with hc | hc
      · exact h x (hsub x hx) hup c hc hcfd
      · rw [List.mem_singleton] at hc
        subst hc
        exact hok x (hsub x hx) hup hcfd.symm k (by rw [hbacklog]; exact List.mem_cons_self)
  | register fd e todo hpc hopen =>
      exact h.keep (LoopPc.ahead_subset (by rw [hpc]; rfl))
        (s.exists_of_modify (fun c => ⟨c.register_fd _, id⟩) fun _ => ⟨rfl, id⟩)
  | registerFails fd e todo hpc => exact h.keep (LoopPc.ahead_done (by rw [hpc]; rfl)) hsame
  | count fd e todo proc hpc hadd => exact h.keep (LoopPc.ahead_done (by rw [hpc]; rfl)) hsame
  | block fd e todo proc hpc hadd => exact h.keep (LoopPc.ahead_subset (by rw [hpc]; rfl)) hsame
  | hangup e todo hpc hb =>
      exact h.keep (LoopPc.ahead_done (by rw [hpc]; rfl))
        fun c hc => hsame c (List.mem_of_mem_filter hc)
  | readNothing e todo n hpc hb hn => exact h.keep (fun _ hx => absurd hx List.not_mem_nil) hsame
  | read e todo n c hpc hb hc hfd hn hlen hunread =>
      exact h.keep (LoopPc.ahead_subset (by rw [hpc]; rfl))
        (s.exists_of_modify (fun c => ⟨c.read_fd n, read_drained n c⟩) fun _ => ⟨rfl, id⟩)
  | skip e todo hpc hb => exact h.keep (LoopPc.ahead_done (by rw [hpc]; rfl)) hsame
  | submit addr args src e todo hpc =>
      exact h.keep (LoopPc.ahead_subset (by rw [hpc]; rfl)) hsame
  | rearm fd src e todo hpc hopen =>
      exact h.keep (LoopPc.ahead_done (by rw [hpc]; rfl))
        (s.exists_of_modify (fun c => ⟨c.register_fd _, id⟩) fun _ => ⟨rfl, id⟩)
  | rearmFails fd src e todo hpc => exact h.keep (LoopPc.ahead_done (by rw [hpc]; rfl)) hsame
  -- the workers
  | take k job hjob => exact h
  | perform w ρ x e todo hx htodo =>
      cases e with
      | close fd => exact h.keep (fun _ hy => hy) fun c hc => hsame c (List.mem_of_mem_filter hc)
      | _ => exact h
  | call w ρ x args hx htodo hnext => exact h
  | retire w ρ x hx htodo hnext => exact h

end AheadDrained

/-- The loop closes a client's socket only in the hang-up branch, for an event that names its
descriptor. -/
theorem hangup_of_gone {cfg : Config} {s s' : Server} {choice : Choice}
    (hs : s.step cfg (.loop choice) = some s') {c : Client} (hc : c ∈ s.clients)
    (hgone : ∀ d ∈ s'.clients, d.conn ≠ c.conn) :
    ∃ e todo, s.pc = .event e todo ∧ branch cfg.listen_socket e.1 = .epollDelFd
      ∧ c.fd = e.1.fd := by
  have hold : ∀ t : Server, (∀ d ∈ t.clients, d.conn ≠ c.conn) → c ∉ t.clients :=
    fun t ht hmem => ht c hmem rfl
  -- a move that changes clients keeps them
  have hmodify : ∀ (p : Client → Bool) (f : Client → Client), (∀ d, (f d).conn = d.conn) →
      ¬ ∀ d ∈ (s.modify p f).clients, d.conn ≠ c.conn := by
    intro p f hf hnone
    obtain ⟨d, hd, heq⟩ := s.exists_modify (p := p) hf ⟨c, hc, rfl⟩
    exact hnone d hd heq
  cases move_of_step hs with
  | hangup e todo hpc hb =>
      refine ⟨e, todo, hpc, hb, ?_⟩
      by_contra hne
      exact hgone c (List.mem_filter.mpr ⟨hc, decide_eq_true hne⟩) rfl
  | wait reports hpc hlen hnodup => exact absurd hgone (hmodify _ _ Client.reported_conn)
  | accept e todo fd k backlog hpc hb hbacklog hfd hlisten hfresh =>
      exact absurd (List.mem_append_left _ hc) (fun hmem => hgone c hmem rfl)
  | register fd e todo hpc hopen => exact absurd hgone (hmodify _ _ fun d => d.register_conn _)
  | read e todo n d hpc hb hd hfd hn hlen hunread =>
      exact absurd hgone (hmodify _ _ fun d => d.read_conn n)
  | rearm fd src e todo hpc hopen => exact absurd hgone (hmodify _ _ fun d => d.register_conn _)
  | _ => exact absurd hc (hold _ hgone)

end Server

/-! ## §3. The theorem. -/

/-- **Nothing unread is closed.**  In every run in which hang-ups are reported of drained
sockets only and nothing to read comes to a descriptor that a hang-up ahead names, the loop
closes no client's socket, unless it was reset, while bytes are unread. -/
theorem closed_drained (cfg : Config) {s s' : Server} {choice : Choice}
    (hreach : Reach (Server.step cfg) Server.HangupsDrained .init s)
    (hs : s.step cfg (.loop choice) = some s') {c : Client} (hc : c ∈ s.clients)
    (hgone : ∀ d ∈ s'.clients, d.conn ≠ c.conn) (hrst : c.rst = false) : c.unread = [] := by
  have hahead : s.AheadDrained := by
    refine hreach.invariant (P := Server.AheadDrained) .init ?_
    intro t a t' ht h hok hstep
    exact h.step (Server.identified_of_reach ht) hok hstep
  obtain ⟨e, todo, hpc, hb, hfd⟩ := Server.hangup_of_gone hs hc hgone
  have hup : e.1.events.HangsUp := (branch_eq_epollDelFd.mp hb).2.2
  have hdrained := hahead e (by rw [hpc]; exact List.mem_cons_self) hup c hc hfd
  refine hdrained.resolve_left fun htrue => ?_
  rw [hrst] at htrue
  cases htrue

/-- A client that leaves without a word. -/
theorem closed_drained_silent :
    ∃ s, execute (Server.step ⟨3, .after⟩) Server.HangupsDrained
        .init [.connect, .loop (.ready [(none, { epollin := true })]),
          .loop (.accept (some 5)), .loop (.ctl true), .loop .go, .traffic 0 .fin,
          .loop (.ready [(some 0, { epollin := true, epollrdhup := true })])] = some s
      ∧ ∃ c ∈ s.clients, c.fin = true ∧ c.unread = [] := by
  apply execute_reaches (P := fun s : Server =>
    ∃ c ∈ s.clients, c.fin = true ∧ c.rst = false
      ∧ ((s.step ⟨3, .after⟩ (.loop .go)).any fun s' =>
          decide (∀ d ∈ s'.clients, d.conn ≠ c.conn)) = true) (by decide)
  rintro s hreach ⟨c, hc, hfin, hrst, hany⟩
  obtain ⟨s', hs, hgone⟩ := (Option.any_eq_true _ _).mp hany
  exact ⟨c, hc, hfin, closed_drained ⟨3, .after⟩ hreach hs hc (of_decide_eq_true hgone) hrst⟩

/-- A client that sends a `PING` and closes before the loop looks is closed with the `PING`
unread. -/
theorem ping_and_close_unread :
    ∃ s, execute (Server.step ⟨3, .after⟩) Server.Linux
        .init [.connect, .loop (.ready [(none, { epollin := true })]),
          .loop (.accept (some 5)), .loop (.ctl true), .loop .go,
          .traffic 0 (.data [83, 83, 80, 0]), .traffic 0 .fin,
          .loop (.ready [(some 0, { epollin := true, epollrdhup := true })])] = some s
      ∧ ∃ c ∈ s.clients, c.fin = true ∧ c.rst = false ∧ c.unread = [83, 83, 80, 0]
        ∧ ((s.step ⟨3, .after⟩ (.loop .go)).any fun s' =>
            decide (∀ d ∈ s'.clients, d.conn ≠ c.conn)) = true :=
  exists_execute (P := fun s : Server => ∃ c ∈ s.clients, c.fin = true ∧ c.rst = false
    ∧ c.unread = [83, 83, 80, 0]
    ∧ ((s.step ⟨3, .after⟩ (.loop .go)).any fun s' =>
        decide (∀ d ∈ s'.clients, d.conn ≠ c.conn)) = true) (by decide)

end SensorServer.System
