/-
  SensorServer.System.Identity — connections, descriptors and events stay apart.

  Connection numbers are used once, descriptor numbers over and over.  `Identified` is what
  keeps them straight in every reachable state, whatever the kernel, the peers and the jobs
  do: no two open sockets share a number or a connection, every event of the batch was
  reported for a connection of its own, and as long as that connection is open it is the one
  at the event's descriptor.
-/
import SensorServer.Framework.Transition
import SensorServer.System.Moves

namespace SensorServer.System

open SensorServer.Framework
open SensorServer.Loop

/-! ## §1. Keys. -/

/-- The connection and the descriptor of a client. -/
def Client.key (c : Client) : Nat × Int := (c.conn, c.fd)

@[simp] theorem Client.receive_key (t : Traffic) (c : Client) : (c.receive t).key = c.key := by
  simp [Client.key]

@[simp] theorem Client.register_key (i : EpollFlags) (c : Client) :
    (c.register i).key = c.key := rfl

@[simp] theorem Client.reported_key (c : Client) : c.reported.key = c.key := rfl

@[simp] theorem Client.read_key (n : Nat) (c : Client) : (c.read n).key = c.key := rfl

/-- The connection an event was reported for. -/
def tagConn (x : EpollEvent × Tag) : Option Nat := x.2.map (·.conn)

namespace Server

/-- The keys of the open client sockets. -/
def keys (s : Server) : List (Nat × Int) := s.clients.map Client.key

/-- The connections in the backlog. -/
def waiting (s : Server) : List Nat := s.backlog.map (·.conn)

/-- A change of clients that leaves their keys alone. -/
theorem keys_modify (s : Server) (p : Client → Bool) {f : Client → Client}
    (hf : ∀ c, (f c).key = c.key) : (s.modify p f).keys = s.keys := by
  unfold keys modify
  rw [List.map_map]
  apply List.map_congr_left
  intro c _
  show (if p c then f c else c).key = c.key
  split
  · exact hf c
  · rfl

/-- Closing a socket drops keys. -/
theorem keys_closeFd (s : Server) (fd : Int) :
    (s.closeFd fd).keys = s.keys.filter fun k => k.2 ≠ fd := by
  unfold keys closeFd
  rw [List.filter_map]
  rfl

theorem keys_modify_sublist (s : Server) (p : Client → Bool) {f : Client → Client}
    (hf : ∀ c, (f c).key = c.key) : (s.modify p f).keys.Sublist s.keys := by
  rw [s.keys_modify p hf]

theorem keys_closeFd_sublist (s : Server) (fd : Int) : (s.closeFd fd).keys.Sublist s.keys := by
  rw [s.keys_closeFd fd]
  exact List.filter_sublist

/-- A job changes no socket except by closing it. -/
theorem keys_perform_sublist (s : Server) (addr : Nat) (e : Parser.Event) :
    (s.perform addr e).keys.Sublist s.keys := by
  cases e with
  | close fd => exact s.keys_closeFd_sublist fd
  | _ => exact .refl _

theorem waiting_deliver (s : Server) (conn : Nat) (t : Traffic) :
    (s.deliver conn t).waiting = s.waiting := by
  unfold waiting deliver
  rw [List.map_map]
  apply List.map_congr_left
  intro k _
  show (if k.conn = conn then k.receive t else k).conn = k.conn
  split
  · exact Client.receive_sock_conn k t
  · rfl

/-! ## §2. The invariant. -/

/-- Connections, descriptors and events are told apart. -/
structure Identified (cfg : Config) (s : Server) : Prop where
  /-- No connection is there twice. -/
  conns : (s.waiting ++ s.keys.map Prod.fst).Nodup
  /-- The number of the next connection is new. -/
  bound : ∀ n ∈ s.waiting ++ s.keys.map Prod.fst, n < s.nextConn
  /-- No two open sockets have the same descriptor. -/
  fds : (s.keys.map Prod.snd).Nodup
  range : ∀ k ∈ s.keys, 0 ≤ k.2 ∧ k.2 ≠ cfg.listen_socket
  /-- An event without a client is one of the listening socket, and no hang-up. -/
  listened : ∀ x ∈ s.pc.events, x.2 = none →
    x.1.fd = cfg.listen_socket ∧ ¬ (x.1.events.epollrdhup ∨ x.1.events.epollhup)
  /-- An event of a client: its connection was accepted, and if its socket is open it is at
  the descriptor of the event. -/
  tagged : ∀ x ∈ s.pc.events, ∀ n, tagConn x = some n →
    n < s.nextConn ∧ n ∉ s.waiting ∧ (∀ k ∈ s.keys, k.1 = n → k.2 = x.1.fd)
      ∧ 0 ≤ x.1.fd ∧ x.1.fd ≠ cfg.listen_socket
  /-- No client has two events. -/
  distinct : (s.pc.events.filterMap tagConn).Nodup

namespace Identified

variable {cfg : Config} {s s' : Server}

theorem init : Server.init.Identified cfg := by
  have hkeys : Server.init.keys = [] := rfl
  have hwaiting : Server.init.waiting = [] := rfl
  have hevents : Server.init.pc.events = [] := rfl
  constructor <;> simp [hkeys, hwaiting, hevents]

/-- Most steps only close sockets and finish events. -/
theorem shrink (h : s.Identified cfg) (hkeys : s'.keys.Sublist s.keys)
    (hwaiting : s'.waiting = s.waiting) (hnext : s'.nextConn = s.nextConn)
    (hevents : s'.pc.events.Sublist s.pc.events) : s'.Identified cfg where
  conns := by
    rw [hwaiting]
    exact h.conns.sublist (List.Sublist.append_left (hkeys.map _) _)
  bound := by
    intro n hn
    rw [hnext]
    rw [hwaiting] at hn
    exact h.bound n ((List.Sublist.append_left (hkeys.map _) _).subset hn)
  fds := h.fds.sublist (hkeys.map _)
  range := fun k hk => h.range k (hkeys.subset hk)
  listened := fun x hx => h.listened x (hevents.subset hx)
  tagged := by
    intro x hx n hn
    obtain ⟨hlt, hnot, hkey, hrange⟩ := h.tagged x (hevents.subset hx) n hn
    rw [hnext, hwaiting]
    exact ⟨hlt, hnot, fun k hk => hkey k (hkeys.subset hk), hrange⟩
  distinct := h.distinct.sublist (hevents.filterMap _)

/-- A connection arrives under a new number. -/
theorem connect (h : s.Identified cfg) : s.connect.Identified cfg := by
  have hwaiting : s.connect.waiting = s.waiting ++ [s.nextConn] := List.map_append
  -- the numbers in use are all smaller
  have hnew : ∀ n ∈ s.waiting ++ s.keys.map Prod.fst, n ≠ s.nextConn :=
    fun n hn => Nat.ne_of_lt (h.bound n hn)
  refine ⟨?_, ?_, h.fds, h.range, h.listened, ?_, h.distinct⟩
  · have hperm : (s.nextConn :: (s.waiting ++ s.keys.map Prod.fst)).Perm
        (s.connect.waiting ++ s.connect.keys.map Prod.fst) := by
      rw [hwaiting, List.append_assoc]
      exact List.perm_middle.symm
    apply hperm.nodup_iff.mp
    exact List.nodup_cons.mpr ⟨fun hmem => hnew _ hmem rfl, h.conns⟩
  · intro n hn
    show n < s.nextConn + 1
    rw [hwaiting, List.append_assoc, List.mem_append, List.mem_append, List.mem_singleton] at hn
    rcases hn with hn | rfl | hn
    · exact Nat.lt_succ_of_lt (h.bound n (List.mem_append_left _ hn))
    · exact Nat.lt_succ_self _
    · exact Nat.lt_succ_of_lt (h.bound n (List.mem_append_right _ hn))
  · intro x hx n hn
    obtain ⟨hlt, hnot, hrest⟩ := h.tagged x hx n hn
    refine ⟨Nat.lt_succ_of_lt hlt, ?_, hrest⟩
    rw [hwaiting, List.mem_append, List.mem_singleton]
    intro hmem
    rcases hmem with hmem | rfl
    · exact hnot hmem
    · exact Nat.lt_irrefl _ hlt

/-- The oldest waiting connection gets a descriptor no open socket has. -/
theorem accept (h : s.Identified cfg) {k : Sock} {backlog : List Sock} {fd : Int}
    (hbacklog : s.backlog = k :: backlog) (hfd : 0 ≤ fd) (hlisten : fd ≠ cfg.listen_socket)
    (hfresh : ∀ c ∈ s.clients, c.fd ≠ fd) (hkeys : s'.keys = s.keys ++ [(k.conn, fd)])
    (hwaiting : s'.backlog = backlog) (hnext : s'.nextConn = s.nextConn)
    (hevents : s'.pc.events = s.pc.events) : s'.Identified cfg := by
  have hold : s.waiting = k.conn :: s'.waiting := by
    unfold waiting
    rw [hbacklog, hwaiting]
    rfl
  -- the connection moves from the backlog to the clients
  have hperm : (s.waiting ++ s.keys.map Prod.fst).Perm (s'.waiting ++ s'.keys.map Prod.fst) := by
    rw [hold, hkeys, List.map_append, List.cons_append, ← List.append_assoc]
    exact (List.perm_append_singleton _ _).symm
  refine ⟨hperm.nodup_iff.mp h.conns, ?_, ?_, ?_, ?_, ?_, hevents ▸ h.distinct⟩
  · intro n hn
    rw [hnext]
    exact h.bound n (hperm.mem_iff.mpr hn)
  · rw [hkeys, List.map_append, List.nodup_append]
    refine ⟨h.fds, List.nodup_singleton _, ?_⟩
    intro a ha b hb hab
    obtain ⟨key, hkey, rfl⟩ := List.mem_map.mp ha
    obtain ⟨c, hc, rfl⟩ := List.mem_map.mp hkey
    rw [List.map_singleton, List.mem_singleton] at hb
    exact hfresh c hc (hab.trans hb)
  · intro key hkey
    rw [hkeys, List.mem_append, List.mem_singleton] at hkey
    rcases hkey with hkey | rfl
    · exact h.range key hkey
    · exact ⟨hfd, hlisten⟩
  · rw [hevents]
    exact h.listened
  · intro x hx n hn
    rw [hevents] at hx
    obtain ⟨hlt, hnot, hkey, hrange⟩ := h.tagged x hx n hn
    rw [hold, List.mem_cons, not_or] at hnot
    refine ⟨hnext ▸ hlt, hnot.2, ?_, hrange⟩
    intro key hmem heq
    rw [hkeys, List.mem_append, List.mem_singleton] at hmem
    rcases hmem with hmem | rfl
    · exact hkey key hmem heq
    · exact absurd heq.symm hnot.1

end Identified

/-! ## §3. A new batch. -/

/-- An event reported for the listening socket is no hang-up; any other is reported for a
registered client. -/
theorem report_eq_some {cfg : Config} {s : Server} {r : Option Nat × EpollFlags}
    {x : EpollEvent × Tag} (h : s.report cfg r = some x) :
    (r.1 = none ∧ x = (⟨cfg.listen_socket, r.2⟩, none)
        ∧ ¬ (r.2.epollrdhup ∨ r.2.epollhup))
      ∨ ∃ c ∈ s.clients, r.1 = some c.conn ∧ x = (⟨c.fd, r.2⟩, some c) ∧ c.interest.isSome := by
  obtain ⟨conn, flags⟩ := r
  cases conn with
  | none =>
      left
      simp only [report] at h
      split at h
      · cases h
      · rename_i hno
        cases h
        exact ⟨rfl, rfl, hno⟩
  | some conn =>
      right
      obtain ⟨c, hfind, rfl⟩ := Option.map_eq_some_iff.mp h
      have hc := List.find?_some hfind
      rw [decide_eq_true_eq] at hc
      exact ⟨c, List.mem_of_find?_eq_some hfind, by rw [hc.1], rfl, hc.2⟩

/-- An event carries the connection it was reported for. -/
theorem tagConn_report {cfg : Config} {s : Server} {r : Option Nat × EpollFlags}
    {x : EpollEvent × Tag} (h : s.report cfg r = some x) : tagConn x = r.1 := by
  rcases report_eq_some h with ⟨hr, rfl, -⟩ | ⟨c, -, hr, rfl, -⟩
  · exact hr.symm
  · exact hr.symm

/-- Reports of different sockets become events with different connections. -/
theorem sublist_reports (cfg : Config) (s : Server) (reports : List (Option Nat × EpollFlags)) :
    ((reports.filterMap (s.report cfg)).map tagConn).Sublist (reports.map Prod.fst) := by
  induction reports with
  | nil => exact List.Sublist.slnil
  | cons r reports ih =>
      cases hx : s.report cfg r with
      | none =>
          rw [List.filterMap_cons_none hx]
          exact ih.cons _
      | some x =>
          rw [List.filterMap_cons_some hx, List.map_cons, List.map_cons, tagConn_report hx]
          exact ih.cons_cons _

namespace Identified

variable {cfg : Config} {s s' : Server}

/-- A new batch has one event for each reported socket. -/
theorem wait (h : s.Identified cfg) {reports : List (Option Nat × EpollFlags)}
    (hnodup : (reports.map Prod.fst).Nodup) (hkeys : s'.keys = s.keys)
    (hwaiting : s'.waiting = s.waiting) (hnext : s'.nextConn = s.nextConn)
    (hevents : s'.pc.events = reports.filterMap (s.report cfg)) : s'.Identified cfg := by
  refine ⟨?_, ?_, ?_, ?_, ?_, ?_, ?_⟩
  · rw [hwaiting, hkeys]
    exact h.conns
  · rw [hwaiting, hkeys, hnext]
    exact h.bound
  · rw [hkeys]
    exact h.fds
  · rw [hkeys]
    exact h.range
  · intro x hx hnone
    rw [hevents] at hx
    obtain ⟨r, -, hr⟩ := List.mem_filterMap.mp hx
    rcases report_eq_some hr with ⟨-, rfl, hno⟩ | ⟨c, -, -, rfl, -⟩
    · exact ⟨rfl, hno⟩
    · cases hnone
  · intro x hx n hn
    rw [hevents] at hx
    obtain ⟨r, -, hr⟩ := List.mem_filterMap.mp hx
    rcases report_eq_some hr with ⟨-, rfl, -⟩ | ⟨c, hc, -, rfl, -⟩
    · cases hn
    · cases hn
      have hkey : c.key ∈ s.keys := List.mem_map_of_mem hc
      have hmem : c.conn ∈ s.keys.map Prod.fst := List.mem_map_of_mem hkey
      -- the event has the key of a client that is open now
      rw [hnext, hwaiting, hkeys]
      refine ⟨h.bound _ (List.mem_append_right _ hmem), ?_, ?_, h.range _ hkey⟩
      · intro hwait
        exact (List.nodup_append.mp h.conns).2.2 _ hwait _ hmem rfl
      · intro k hk heq
        have hinj := List.inj_on_of_nodup_map (List.nodup_append.mp h.conns).2.1
        exact congrArg Prod.snd (hinj hk hkey heq)
  · rw [hevents]
    have hopt := hnodup.sublist (sublist_reports cfg s reports)
    have hfilter := hopt.filterMap (f := id) (fun a a' n ha ha' => ha.trans ha'.symm)
    rwa [List.filterMap_map] at hfilter

/-! ## §4. Every reachable state. -/

/-- Every step keeps them apart. -/
theorem step {a : Act} (h : s.Identified cfg) (hs : s.step cfg a = some s') :
    s'.Identified cfg := by
  cases move_of_step hs with
  -- the peers
  | connect => exact h.connect
  | traffic conn t hknown =>
      exact h.shrink (s.keys_modify_sublist _ (Client.receive_key t)) (waiting_deliver s conn t)
        rfl (.refl _)
  -- the event loop
  | wait reports hpc hlen hnodup =>
      refine h.wait hnodup ?_ rfl rfl (LoopPc.events_next _)
      exact s.keys_modify _ Client.reported_key
  | refuse e todo hpc hb =>
      exact h.shrink (.refl _) rfl rfl (LoopPc.events_done (by rw [hpc]; rfl))
  | accept e todo fd k backlog hpc hb hbacklog hfd hlisten hfresh =>
      refine h.accept hbacklog hfd hlisten hfresh List.map_append rfl rfl ?_
      rw [hpc]
      rfl
  | register fd e todo hpc hopen =>
      exact h.shrink (s.keys_modify_sublist _ (Client.register_key _)) rfl rfl
        (by rw [hpc]; exact .refl _)
  | registerFails fd e todo hpc =>
      exact h.shrink (.refl _) rfl rfl (LoopPc.events_done (by rw [hpc]; rfl))
  | count fd e todo proc hpc hadd =>
      exact h.shrink (.refl _) rfl rfl (LoopPc.events_done (by rw [hpc]; rfl))
  | block fd e todo proc hpc hadd => exact h.shrink (.refl _) rfl rfl (by rw [hpc]; exact .refl _)
  | hangup e todo hpc hb =>
      exact h.shrink (s.keys_closeFd_sublist _) rfl rfl (LoopPc.events_done (by rw [hpc]; rfl))
  | readNothing e todo n hpc hb hn =>
      exact h.shrink (.refl _) rfl rfl (List.nil_sublist _)
  | read e todo n c hpc hb hc hfd hn hlen hunread =>
      exact h.shrink (s.keys_modify_sublist _ (Client.read_key n)) rfl rfl
        (by rw [hpc]; exact .refl _)
  | skip e todo hpc hb =>
      exact h.shrink (.refl _) rfl rfl (LoopPc.events_done (by rw [hpc]; rfl))
  | submit addr args src e todo hpc =>
      exact h.shrink (.refl _) rfl rfl (by rw [hpc]; exact .refl _)
  | rearm fd src e todo hpc hopen =>
      exact h.shrink (s.keys_modify_sublist _ (Client.register_key _)) rfl rfl
        (LoopPc.events_done (by rw [hpc]; rfl))
  | rearmFails fd src e todo hpc =>
      exact h.shrink (.refl _) rfl rfl (LoopPc.events_done (by rw [hpc]; rfl))
  -- the workers
  | take k job hjob => exact h.shrink (.refl _) rfl rfl (.refl _)
  | perform w ρ x e todo hx htodo =>
      refine h.shrink (s.keys_perform_sublist _ e) ?_ (s.perform_nextConn _ e) ?_
      · exact congrArg (List.map (·.conn)) (s.perform_backlog _ e)
      · show (s.perform x.job.addr e).pc.events.Sublist _
        rw [s.perform_pc]
  | call w ρ x args hx htodo hnext => exact h.shrink (.refl _) rfl rfl (.refl _)
  | retire w ρ x hx htodo hnext => exact h.shrink (.refl _) rfl rfl (.refl _)

/-- The client at a descriptor. -/
theorem eq_of_fd (h : s.Identified cfg) {c d : Client} (hc : c ∈ s.clients) (hd : d ∈ s.clients)
    (hfd : c.fd = d.fd) : c = d := by
  have hnodup := h.fds
  unfold keys at hnodup
  rw [List.map_map] at hnodup
  exact List.inj_on_of_nodup_map hnodup hc hd hfd

/-- The client of a connection. -/
theorem eq_of_conn (h : s.Identified cfg) {c d : Client} (hc : c ∈ s.clients)
    (hd : d ∈ s.clients) (hconn : c.conn = d.conn) : c = d := by
  have hnodup := (List.nodup_append.mp h.conns).2.1
  unfold keys at hnodup
  rw [List.map_map] at hnodup
  exact List.inj_on_of_nodup_map hnodup hc hd hconn

/-- A hang-up is an event of a client. -/
theorem hangup_tagged (h : s.Identified cfg) {x : EpollEvent × Tag} (hx : x ∈ s.pc.events)
    (hb : branch cfg.listen_socket x.1 = .epollDelFd) : ∃ n, tagConn x = some n := by
  obtain ⟨e, tag⟩ := x
  cases tag with
  | none => exact absurd (branch_eq_epollDelFd.mp hb).2.2 (h.listened _ hx rfl).2
  | some c => exact ⟨c.conn, rfl⟩

end Identified

/-- Connections, descriptors and events are told apart in every reachable state, whatever the
guard of the runs. -/
theorem identified_of_reach {cfg : Config} {s : Server} {ok : Server → Act → Prop}
    (hreach : Reach (step cfg) ok .init s) : s.Identified cfg :=
  hreach.invariant .init fun _ _ _ _ h _ hs => h.step hs

end Server

end SensorServer.System
