/-
  SensorServer.System.Counter — the connection counter does not wrap.

  The counter is unsigned, and the test that should keep it from falling below zero can never
  succeed.  What keeps it up is that every hang-up the loop handles is charged to an earlier
  `add_new_connection` of its own: `Charged` keeps a set of connections that were counted and
  not charged yet, no larger than the counter, and every registered client and every event of
  the batch has its connection in it.  Stale events and reused descriptors do not change that,
  because an event is charged to the connection it was reported for, whoever has its
  descriptor by then.
-/
import Mathlib.Data.Finset.Card
import SensorServer.System.Identity

namespace SensorServer.System

open SensorServer.Framework
open SensorServer.Table
open SensorServer.Loop

namespace Server

/-! ## §1. Runs. -/

/-- The client the loop has registered and not counted yet. -/
def counting (s : Server) : Option Int :=
  match s.pc with
  | .registered fd _ _ => some fd
  | _ => none

/-- A connection is counted only while fewer than 2047 are. -/
def CountsBelow (s : Server) : Act → Prop
  | .loop .go => s.counting.isSome → s.proc.global_connection_id.toNat < 2047
  | _ => True

instance (s : Server) : DecidablePred s.CountsBelow
  | .loop .go => inferInstanceAs (Decidable (s.counting.isSome → _ < 2047))
  | .loop (.accept _) | .loop (.ctl _) | .loop (.recv _) | .loop (.ready _) => .isTrue trivial
  | .connect | .traffic _ _ | .take _ | .work _ _ => .isTrue trivial

/-! ## §2. Registered clients. -/

/-- An open client socket that is registered with epoll, by its key. -/
def Registered (s : Server) (k : Nat × Int) : Prop :=
  ∃ c ∈ s.clients, c.key = k ∧ c.interest.isSome

section Registered

variable {s : Server} {k : Nat × Int}

/-- A change of clients that keeps their keys and registrations. -/
theorem registered_modify {p : Client → Bool} {f : Client → Client} (hkey : ∀ c, (f c).key = c.key)
    (hinterest : ∀ c, (f c).interest = c.interest) (h : (s.modify p f).Registered k) :
    s.Registered k := by
  obtain ⟨c', hc', hk, hi⟩ := h
  obtain ⟨c, hc, rfl⟩ := List.mem_map.mp hc'
  refine ⟨c, hc, ?_⟩
  split at hk
  · rename_i hp
    rw [if_pos hp, hinterest] at hi
    exact ⟨(hkey c).symm.trans hk, hi⟩
  · rename_i hp
    rw [if_neg hp] at hi
    exact ⟨hk, hi⟩

/-- Registering the client at `fd` registers nobody else. -/
theorem registered_register {fd : Int} {i : EpollFlags}
    (h : (s.modify (fun c => c.fd = fd) (Client.register i)).Registered k) :
    (∃ c ∈ s.clients, c.key = k ∧ c.fd = fd) ∨ s.Registered k := by
  obtain ⟨c', hc', hk, hi⟩ := h
  obtain ⟨c, hc, rfl⟩ := List.mem_map.mp hc'
  by_cases hfd : c.fd = fd
  · left
    rw [if_pos (by simpa using hfd), Client.register_key] at hk
    exact ⟨c, hc, hk, hfd⟩
  · right
    rw [if_neg (by simpa using hfd)] at hk hi
    exact ⟨c, hc, hk, hi⟩

/-- Closed sockets are not registered. -/
theorem registered_closeFd {fd : Int} (h : (s.closeFd fd).Registered k) :
    k.2 ≠ fd ∧ s.Registered k := by
  obtain ⟨c, hc, hk, hi⟩ := h
  obtain ⟨hmem, hfd⟩ := List.mem_filter.mp hc
  rw [decide_eq_true_eq] at hfd
  exact ⟨hk ▸ hfd, c, hmem, hk, hi⟩

theorem registered_perform {addr : Nat} {e : Parser.Event} (h : (s.perform addr e).Registered k) :
    s.Registered k := by
  cases e with
  | close fd => exact (registered_closeFd h).2
  | _ => exact h

end Registered

/-! ## §3. Outstanding connections. -/

/-- The connections of `outstanding` were counted and not charged. -/
structure Outstanding (s : Server) (outstanding : Finset Nat) : Prop where
  card : outstanding.card ≤ s.proc.global_connection_id.toNat
  ahead : ∀ x ∈ s.pc.ahead, ∀ n, tagConn x = some n → n ∈ outstanding
  clients : ∀ k, s.Registered k → some k.2 ≠ s.counting → k.1 ∈ outstanding

/-- Every hang-up that may still come has a counted connection to be charged to. -/
def Charged (s : Server) : Prop := ∃ outstanding, s.Outstanding outstanding

namespace Outstanding

variable {cfg : Config} {s s' : Server} {outstanding : Finset Nat}

/-- Steps that count nothing, charge nothing and register nobody. -/
theorem keep (h : s.Outstanding outstanding)
    (hcount : s'.proc.global_connection_id = s.proc.global_connection_id)
    (hahead : ∀ x ∈ s'.pc.ahead, x ∈ s.pc.ahead)
    (hclients : ∀ k, s'.Registered k → s.Registered k)
    (hcounting : s.counting = none ∨ s'.counting = s.counting) : s'.Outstanding outstanding where
  card := hcount ▸ h.card
  ahead := fun x hx => h.ahead x (hahead x hx)
  clients := by
    intro k hk hne
    refine h.clients k (hclients k hk) ?_
    rcases hcounting with hnone | heq
    · rw [hnone]
      nofun
    · exact heq ▸ hne

/-- A new batch reports registered clients. -/
theorem wait (h : s.Outstanding outstanding) (hpc : s.pc = .wait)
    (reports : List (Option Nat × EpollFlags)) :
    ({ s.clearPending reports with pc := .next (reports.filterMap (s.report cfg)) } :
      Server).Outstanding outstanding where
  card := h.card
  ahead := by
    intro x hx n hn
    rw [LoopPc.ahead_next] at hx
    obtain ⟨r, -, hr⟩ := List.mem_filterMap.mp hx
    rcases report_eq_some hr with ⟨-, rfl, -⟩ | ⟨c, hc, -, rfl, hi⟩
    · cases hn
    · cases hn
      refine h.clients c.key ⟨c, hc, rfl, hi⟩ ?_
      rw [counting, hpc]
      nofun
  clients := by
    intro k hk _
    refine h.clients k (registered_modify Client.reported_key Client.reported_interest hk) ?_
    rw [counting, hpc]
    nofun

/-- Counting a client makes its connection outstanding. -/
theorem count (h : s.Outstanding outstanding) (hid : s.Identified cfg) {fd : Int}
    (hcounting : s.counting = some fd) (hroom : s.proc.global_connection_id.toNat < 2047)
    (hcount : s'.proc.global_connection_id = s.proc.global_connection_id + 1)
    (hahead : s'.pc.ahead = s.pc.ahead) (hclients : s'.clients = s.clients) :
    ∃ outstanding', s'.Outstanding outstanding' := by
  have hcard : outstanding.card + 1 ≤ s'.proc.global_connection_id.toNat := by
    rw [hcount, toNat_succ (by omega)]
    exact Nat.succ_le_succ h.card
  have hreg : ∀ k, s'.Registered k → s.Registered k := by
    unfold Registered
    rw [hclients]
    exact fun _ hk => hk
  by_cases hopen : ∃ c ∈ s.clients, c.fd = fd
  · obtain ⟨c, hc, hfd⟩ := hopen
    refine ⟨insert c.conn outstanding, ?_, ?_, ?_⟩
    · exact (Finset.card_insert_le _ _).trans hcard
    · intro x hx n hn
      rw [hahead] at hx
      exact Finset.mem_insert_of_mem (h.ahead x hx n hn)
    · intro k hk _
      by_cases hk2 : k.2 = fd
      · -- the counted client is the only one at its descriptor
        obtain ⟨d, hd, rfl, -⟩ := hreg k hk
        rw [hid.eq_of_fd hd hc (hk2.trans hfd.symm)]
        exact Finset.mem_insert_self _ _
      · refine Finset.mem_insert_of_mem (h.clients k (hreg k hk) ?_)
        rw [hcounting]
        simpa using hk2
  · -- a job has closed the socket in the meantime
    refine ⟨outstanding, by omega, fun x hx => h.ahead x (hahead ▸ hx), ?_⟩
    intro k hk _
    refine h.clients k (hreg k hk) ?_
    obtain ⟨d, hd, rfl, -⟩ := hreg k hk
    rw [hcounting]
    intro heq
    exact hopen ⟨d, hd, Option.some.inj heq⟩

/-- **A hang-up is charged to its own connection.** -/
theorem hangup (h : s.Outstanding outstanding) (hid : s.Identified cfg)
    {e : EpollEvent × Tag} {todo : List (EpollEvent × Tag)} (hpc : s.pc = .event e todo)
    {n : Nat} (hn : tagConn e = some n)
    (hcount : s'.proc.global_connection_id = s.proc.global_connection_id - 1)
    (hahead : s'.pc.ahead = todo)
    (hclients : ∀ k, s'.Registered k → k.2 ≠ e.1.fd ∧ s.Registered k) :
    s'.Outstanding (outstanding.erase n) := by
  have hevents : s.pc.events = e :: todo := by rw [hpc]; rfl
  have hmem : n ∈ outstanding := h.ahead e (by rw [hpc]; exact List.mem_cons_self) n hn
  have hpos : 1 ≤ outstanding.card := Finset.card_pos.mpr ⟨n, hmem⟩
  have hcard := h.card
  refine ⟨?_, ?_, ?_⟩
  · rw [hcount, Finset.card_erase_of_mem hmem, toNat_pred (by omega)]
    omega
  · intro x hx m hm
    rw [hahead] at hx
    refine Finset.mem_erase.mpr ⟨?_, ?_⟩
    · -- no other event was reported for this connection
      rintro rfl
      have hdistinct := hid.distinct
      rw [hevents, List.filterMap_cons_some hn, List.nodup_cons] at hdistinct
      exact hdistinct.1 (List.mem_filterMap.mpr ⟨x, hx, hm⟩)
    · exact h.ahead x (by rw [hpc]; exact List.mem_cons_of_mem _ hx) m hm
  · intro k hk _
    obtain ⟨hk2, hreg⟩ := hclients k hk
    refine Finset.mem_erase.mpr ⟨?_, ?_⟩
    · -- the connection's own socket is the one that was closed
      intro heq
      obtain ⟨c, hc, rfl, -⟩ := hreg
      have htagged := (hid.tagged e (by rw [hevents]; exact List.mem_cons_self) n hn).2.2.1
      exact hk2 (htagged _ (List.mem_map_of_mem hc) heq)
    · refine h.clients k hreg ?_
      rw [counting, hpc]
      nofun

end Outstanding

/-! ## §4. Runs. -/

variable {cfg : Config} {s s' : Server}

theorem Charged.step {a : Act} (h : s.Charged) (hid : s.Identified cfg) (hok : s.CountsBelow a)
    (hs : s.step cfg a = some s') : s'.Charged := by
  obtain ⟨outstanding, hout⟩ := h
  cases move_of_step hs with
  -- the peers
  | connect => exact ⟨_, hout.keep rfl (fun _ hx => hx) (fun _ hk => hk) (.inr rfl)⟩
  | traffic conn t hknown =>
      exact ⟨_, hout.keep rfl (fun _ hx => hx)
        (fun _ hk => registered_modify (Client.receive_key t) (fun c => c.receive_interest t) hk)
        (.inr rfl)⟩
  -- the event loop
  | wait reports hpc hlen hnodup => exact ⟨_, hout.wait hpc reports⟩
  | refuse e todo hpc hb =>
      exact ⟨_, hout.keep rfl (LoopPc.ahead_done (by rw [hpc]; rfl))
        (fun _ hk => hk) (.inl (by rw [counting, hpc]))⟩
  | accept e todo fd k backlog hpc hb hbacklog hfd hlisten hfresh =>
      refine ⟨_, hout.keep rfl (LoopPc.ahead_subset (by rw [hpc]; rfl)) ?_
        (.inl (by rw [counting, hpc]))⟩
      intro key hk
      obtain ⟨c, hc, hkey, hi⟩ := hk
      rcases List.mem_append.mp hc with hc | hc
      · exact ⟨c, hc, hkey, hi⟩
      · -- the new socket is not registered yet
        rw [List.mem_singleton] at hc
        rw [hc] at hi
        cases hi
  | register fd e todo hpc hopen =>
      refine ⟨_, hout.card, fun x hx => hout.ahead x (by rw [hpc]; exact hx), ?_⟩
      intro key hk hne
      rcases registered_register hk with ⟨c, -, rfl, hfd⟩ | hk
      · exact absurd (congrArg some hfd) hne
      · refine hout.clients key hk ?_
        rw [counting, hpc]
        nofun
  | registerFails fd e todo hpc =>
      exact ⟨_, hout.keep rfl (LoopPc.ahead_done (by rw [hpc]; rfl))
        (fun _ hk => hk) (.inl (by rw [counting, hpc]))⟩
  | count fd e todo proc hpc hadd =>
      have hcounting : s.counting = some fd := by rw [counting, hpc]
      refine hout.count hid hcounting (hok (by rw [hcounting]; rfl))
        (addNewConnection_returned hadd).2.1 ?_ rfl
      rw [LoopPc.ahead_next, hpc]
      rfl
  | block fd e todo proc hpc hadd =>
      have hcounting : s.counting = some fd := by rw [counting, hpc]
      refine hout.count hid hcounting (hok (by rw [hcounting]; rfl))
        (addNewConnection_blocked hadd).2 ?_ rfl
      rw [hpc]
      rfl
  | hangup e todo hpc hb =>
      obtain ⟨n, hn⟩ := hid.hangup_tagged (by rw [hpc]; exact List.mem_cons_self) hb
      refine ⟨_, hout.hangup hid hpc hn ?_ (LoopPc.ahead_next todo) ?_⟩
      · exact epollDelFd_count s.proc.malloc.2 e.1.fd
      · intro k hk
        exact registered_closeFd hk
  | readNothing e todo n hpc hb hn =>
      exact ⟨_, hout.keep rfl (fun _ hx => absurd hx List.not_mem_nil) (fun _ hk => hk)
        (.inl (by rw [counting, hpc]))⟩
  | read e todo n c hpc hb hc hfd hn hlen hunread =>
      exact ⟨_, hout.keep rfl (LoopPc.ahead_subset (by rw [hpc]; rfl))
        (fun _ hk => registered_modify (Client.read_key n) (fun c => c.read_interest n) hk)
        (.inl (by rw [counting, hpc]))⟩
  | skip e todo hpc hb =>
      exact ⟨_, hout.keep rfl (LoopPc.ahead_done (by rw [hpc]; rfl))
        (fun _ hk => hk) (.inl (by rw [counting, hpc]))⟩
  | submit addr args src e todo hpc =>
      exact ⟨_, hout.keep rfl (LoopPc.ahead_subset (by rw [hpc]; rfl)) (fun _ hk => hk)
        (.inl (by rw [counting, hpc]))⟩
  | rearm fd src e todo hpc hopen =>
      refine ⟨_, hout.keep rfl (LoopPc.ahead_done (by rw [hpc]; rfl)) ?_
        (.inl (by rw [counting, hpc]))⟩
      intro key hk
      obtain ⟨c, hc, hcfd, hci⟩ := hopen
      rcases registered_register hk with ⟨d, hd, rfl, hdfd⟩ | hk
      · -- the client at the descriptor was registered before
        rw [hid.eq_of_fd hd hc (hdfd.trans hcfd.symm)]
        exact ⟨c, hc, rfl, hci⟩
      · exact hk
  | rearmFails fd src e todo hpc =>
      exact ⟨_, hout.keep rfl (LoopPc.ahead_done (by rw [hpc]; rfl))
        (fun _ hk => hk) (.inl (by rw [counting, hpc]))⟩
  -- the workers
  | take k job hjob => exact ⟨_, hout.keep rfl (fun _ hx => hx) (fun _ hk => hk) (.inr rfl)⟩
  | perform w ρ x e todo hx htodo =>
      refine ⟨_, hout.keep ?_ ?_ (fun _ hk => registered_perform hk) (.inr ?_)⟩
      · cases e <;> rfl
      · show ∀ y ∈ (s.perform x.job.addr e).pc.ahead, y ∈ s.pc.ahead
        rw [s.perform_pc]
        exact fun _ hy => hy
      · show (s.perform x.job.addr e).counting = s.counting
        rw [counting, counting, s.perform_pc]
  | call w ρ x args hx htodo hnext =>
      exact ⟨_, hout.keep rfl (fun _ hx => hx) (fun _ hk => hk) (.inr rfl)⟩
  | retire w ρ x hx htodo hnext =>
      exact ⟨_, hout.keep rfl (fun _ hx => hx) (fun _ hk => hk) (.inr rfl)⟩

end Server

/-- **The counter never wraps.**  In every run in which connections are counted while fewer
than 2047 are, each call of `epoll_del_fd` finds the counter at one or more, and leaves it
exactly one lower. -/
theorem epollDelFd_exact (cfg : Config) {s : Server}
    (hreach : Reach (Server.step cfg) Server.CountsBelow .init s) {fd : Int}
    (hcall : s.pc.call cfg.listen_socket = .epollDelFd fd) :
    1 ≤ s.proc.global_connection_id.toNat
      ∧ (epollDelFd s.proc fd).global_connection_id.toNat + 1
        = s.proc.global_connection_id.toNat := by
  -- every hang-up is charged to a connection that is counted, so one is
  have hcharged : s.Charged := by
    refine hreach.invariant (P := Server.Charged) ⟨∅, ?_, ?_, ?_⟩ ?_
    · rfl
    · exact fun _ hx => absurd hx List.not_mem_nil
    · intro k hk
      obtain ⟨c, hc, -⟩ := hk
      exact absurd hc List.not_mem_nil
    · intro t a t' ht hch hok hs
      exact hch.step (Server.identified_of_reach ht) hok hs
  obtain ⟨outstanding, hout⟩ := hcharged
  obtain ⟨e, todo, hpc, hb, rfl⟩ := LoopPc.call_eq_epollDelFd hcall
  have hmem : e ∈ s.pc.ahead := by
    rw [hpc]
    exact List.mem_cons_self
  obtain ⟨n, hn⟩ := (Server.identified_of_reach hreach).hangup_tagged
    (by rw [hpc]; exact List.mem_cons_self) hb
  have hpos : 1 ≤ s.proc.global_connection_id.toNat :=
    Nat.lt_of_lt_of_le (Finset.card_pos.mpr ⟨n, hout.ahead e hmem n hn⟩) hout.card
  refine ⟨hpos, ?_⟩
  rw [epollDelFd_count, toNat_pred hpos]
  omega

/-- A client that was counted hangs up. -/
theorem epollDelFd_exact_one :
    ∃ s, execute (Server.step ⟨3, .after⟩) Server.CountsBelow
        .init [.connect, .loop (.ready [(none, { epollin := true })]),
          .loop (.accept (some 5)), .loop (.ctl true), .loop .go, .traffic 0 .fin,
          .loop (.ready [(some 0, { epollin := true, epollrdhup := true })])] = some s
      ∧ s.pc.call 3 = .epollDelFd 5 ∧ 1 ≤ s.proc.global_connection_id.toNat := by
  apply execute_reaches (P := fun s : Server => s.pc.call 3 = .epollDelFd 5) (by decide)
  intro s hreach hcall
  exact ⟨hcall, (epollDelFd_exact ⟨3, .after⟩ hreach hcall).1⟩

end SensorServer.System
