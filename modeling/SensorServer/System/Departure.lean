/-
  SensorServer.System.Departure — clients that leave.

  A client is registered with `EPOLLRDHUP` when it is accepted, and without it after its first
  chunk.  Its close is therefore reported as a hang-up before it has spoken, and cleaned up by
  `epoll_del_fd`; afterwards it is only reported as input, `recv` returns zero, and the loop
  leaves the batch without closing anything.  `departed_cleaned_up` says that this is the only
  way a departure is missed.
-/
import SensorServer.System.Identity
import SensorServer.System.Undisturbed

namespace SensorServer.System

open SensorServer.Framework
open SensorServer.Loop

/-! ## §1. Departures. -/

/-- Bytes of connection `n` were handed over. -/
def heard (n : Nat) (log : List Obs) : Bool :=
  log.any fun
    | .handed m _ => m = n
    | _ => false

theorem heard_append (n : Nat) (log log' : List Obs) :
    heard n (log ++ log') = (heard n log || heard n log') :=
  List.any_append

/-- The event was reported for a client that had closed or reset its connection. -/
def Departing (x : EpollEvent × Tag) : Prop := ∃ c, x.2 = some c ∧ (c.fin = true ∨ c.rst = true)

/-- The event inside which the loop is. -/
def underWay : LoopPc Tag → Option (EpollEvent × Tag)
  | .event _ _ => none
  | pc => pc.current

@[simp] theorem underWay_next (todo : List (EpollEvent × Tag)) : underWay (.next todo) = none := by
  cases todo <;> rfl

namespace Server

/-- When an orderly close is reported, nothing of that client was handed over before. -/
def ClosesUnheard (s : Server) : Act → Prop
  | .loop (.ready reports) => ∀ c ∈ s.clients, some c.conn ∈ reports.map Prod.fst →
      c.fin = true → c.rst = false → heard c.conn s.log = false
  | _ => True

instance (s : Server) : DecidablePred s.ClosesUnheard
  | .loop (.ready reports) =>
      inferInstanceAs (Decidable (∀ c ∈ s.clients, some c.conn ∈ reports.map Prod.fst → _))
  | .loop (.accept _) | .loop (.ctl _) | .loop (.recv _) | .loop .go => .isTrue trivial
  | .connect | .traffic _ _ | .take _ | .work _ _ => .isTrue trivial

/-! ## §2. Interest sets. -/

/-- A client that was not heard yet is still registered for hang-ups. -/
structure Watching (s : Server) : Prop where
  interest : ∀ c ∈ s.clients, ∀ i, c.interest = some i →
    i.epollrdhup = true ∨ heard c.conn s.log = true
  /-- The descriptor that was read still belongs to the connection the bytes came from. -/
  hand : ∀ r, reading s.pc = some r → ∀ c ∈ s.clients, c.fd = r.1 → r.2 = some c.conn
  /-- A client about to be registered again was heard. -/
  heard : ∀ fd src e todo, s.pc = .submitted fd src e todo →
    ∀ c ∈ src, heard c.conn s.log = true

namespace Watching

variable {cfg : Config} {s s' : Server}

theorem init : Server.init.Watching := by
  have hpc : Server.init.pc = .wait := rfl
  refine ⟨fun _ hc => absurd hc List.not_mem_nil, fun r hr => ?_, fun fd src e todo h => ?_⟩
  · rw [hpc] at hr
    cases hr
  · rw [hpc] at h
    cases h

/-- Steps that register nobody. -/
theorem keep (h : s.Watching)
    (hclients : ∀ c' ∈ s'.clients, c'.interest = none
      ∨ ∃ c ∈ s.clients, c'.conn = c.conn ∧ c'.fd = c.fd ∧ c'.interest = c.interest)
    (hlog : ∀ n, System.heard n s.log = true → System.heard n s'.log = true)
    (hreading : reading s'.pc = none) : s'.Watching where
  interest := by
    intro c' hc' i hi
    rcases hclients c' hc' with hnone | ⟨c, hc, hconn, -, heq⟩
    · rw [hnone] at hi
      cases hi
    · rw [hconn]
      exact (h.interest c hc i (heq ▸ hi)).imp_right (hlog _)
  hand := by
    rw [hreading]
    nofun
  heard := by
    intro fd src e todo hpc
    rw [hpc] at hreading
    cases hreading

theorem step {a : Act} (h : s.Watching) (hid : s.Identified cfg) (hs : s.step cfg a = some s') :
    s'.Watching := by
  have hsame : ∀ c' ∈ s.clients, c'.interest = none
      ∨ ∃ c ∈ s.clients, c'.conn = c.conn ∧ c'.fd = c.fd ∧ c'.interest = c.interest :=
    fun c hc => .inr ⟨c, hc, rfl, rfl, rfl⟩
  have hlog : ∀ log n, System.heard n s.log = true → System.heard n (s.log ++ log) = true := by
    intro log n hn
    rw [heard_append, hn, Bool.true_or]
  cases move_of_step hs with
  -- the peers
  | connect => exact ⟨h.interest, h.hand, h.heard⟩
  | traffic conn t hknown =>
      refine ⟨?_, ?_, fun fd src e todo hpc c hc => hlog _ _ (h.heard fd src e todo hpc c hc)⟩
      · refine s.forall_modify (fun c hc _ i hi => ?_) (fun c hc _ i hi => ?_)
        · rw [Client.receive_conn]
          exact (h.interest c hc i hi).imp_right (hlog _ _)
        · exact (h.interest c hc i hi).imp_right (hlog _ _)
      · intro r hr
        refine s.forall_modify (fun c hc _ hfd => ?_) (fun c hc _ hfd => h.hand r hr c hc hfd)
        rw [Client.receive_conn]
        exact h.hand r hr c hc hfd
  -- the event loop
  | wait reports hpc hlen hnodup =>
      refine h.keep (fun c' hc' => .inr ?_) (fun _ hn => hn) (reading_next _)
      revert c'
      exact s.exists_of_modify (fun c => ⟨c.reported_conn, c.reported_fd, c.reported_interest⟩)
        fun _ => ⟨rfl, rfl, rfl⟩
  | refuse e todo hpc hb => exact h.keep hsame (hlog _) (reading_next _)
  | accept e todo fd k backlog hpc hb hbacklog hfd hlisten hfresh =>
      refine h.keep (fun c hc => ?_) (fun _ hn => hn) rfl
      rcases List.mem_append.mp hc with hc | hc
      · exact hsame c hc
      · rw [List.mem_singleton] at hc
        exact .inl (hc ▸ rfl)
  | register fd e todo hpc hopen =>
      refine ⟨?_, fun r hr => ?_, fun fd src e todo hpc => ?_⟩
      · refine s.forall_modify (fun c hc _ i hi => .inl ?_) (fun c hc _ => h.interest c hc)
        rw [Client.register_interest] at hi
        exact Option.some.inj hi ▸ rfl
      · cases hr
      · cases hpc
  | registerFails fd e todo hpc => exact h.keep hsame (hlog _) (reading_next _)
  | count fd e todo proc hpc hadd => exact h.keep hsame (hlog _) (reading_next _)
  | block fd e todo proc hpc hadd => exact h.keep hsame (fun _ hn => hn) rfl
  | hangup e todo hpc hb =>
      refine h.keep (fun c hc => ?_) (hlog _) (reading_next _)
      exact hsame c (List.mem_of_mem_filter hc)
  | readNothing e todo n hpc hb hn => exact h.keep hsame (hlog _) rfl
  | read e todo n c hpc hb hc hfd hn hlen hunread =>
      refine ⟨?_, fun r hr => ?_, fun fd src e todo hpc => ?_⟩
      · exact s.forall_modify (fun c hc _ => h.interest c hc) (fun c hc _ => h.interest c hc)
      · obtain rfl : (e.1.fd, some c.conn) = r := Option.some.inj hr
        exact s.forall_modify
          (fun d hd _ hdfd => by rw [hid.eq_of_fd hc hd (hfd.trans hdfd.symm), Client.read_conn])
          (fun d hd _ hdfd => by rw [hid.eq_of_fd hc hd (hfd.trans hdfd.symm)])
      · cases hpc
  | skip e todo hpc hb => exact h.keep hsame (hlog _) (reading_next _)
  | submit addr args src e todo hpc =>
      refine ⟨fun c hc i hi => (h.interest c hc i hi).imp_right (hlog _ _), fun r hr => ?_, ?_⟩
      · exact h.hand r (by rw [hpc]; exact hr)
      · intro fd src' e' todo' heq c hc
        cases heq
        rw [Option.mem_def] at hc
        simp [hc, System.heard]
  | rearm fd src e todo hpc hopen =>
      refine ⟨?_, fun r hr => ?_, fun fd src e' todo' heq => ?_⟩
      · refine s.forall_modify (fun c hc hp i _ => .inr (hlog _ _ ?_))
          (fun c hc _ i hi => (h.interest c hc i hi).imp_right (hlog _ _))
        -- the client at the descriptor is the one that was read
        have hsrc := h.hand (fd, src.map (·.conn)) (by rw [hpc]; rfl) c hc (by simpa using hp)
        obtain ⟨d, hd, hconn⟩ := Option.map_eq_some_iff.mp hsrc
        rw [Client.register_conn, ← hconn]
        exact h.heard fd src e todo hpc d hd
      · rw [reading_next] at hr
        cases hr
      · have hnone := congrArg reading heq
        rw [reading_next] at hnone
        cases hnone
  | rearmFails fd src e todo hpc => exact h.keep hsame (hlog _) (reading_next _)
  -- the workers
  | take k job hjob => exact ⟨h.interest, h.hand, h.heard⟩
  | perform w ρ x e todo hx htodo =>
      cases e with
      | close fd =>
          refine ⟨fun c hc => h.interest c (List.mem_of_mem_filter hc), fun r hr c hc => ?_,
            h.heard⟩
          exact h.hand r hr c (List.mem_of_mem_filter hc)
      | _ => exact ⟨h.interest, h.hand, h.heard⟩
  | call w ρ x args hx htodo hnext => exact ⟨h.interest, h.hand, h.heard⟩
  | retire w ρ x hx htodo hnext => exact ⟨h.interest, h.hand, h.heard⟩

end Watching

/-- In every reachable state, whatever the guard of the runs. -/
theorem watching_of_reach {cfg : Config} {s : Server} {ok : Server → Act → Prop}
    (hreach : Reach (step cfg) ok .init s) : s.Watching :=
  hreach.invariant .init fun _ _ _ ht h _ hs => h.step (identified_of_reach ht) hs

/-! ## §3. Handled departures. -/

/-- Departures ahead will be handled as hang-ups, and those handled were cleaned up. -/
structure Departures (cfg : Config) (s : Server) : Prop where
  ahead : ∀ x ∈ s.pc.ahead, Departing x → branch cfg.listen_socket x.1 = .epollDelFd
  underWay : ∀ x, underWay s.pc = some x → ¬ Departing x
  past : ∀ x, .handled x ∈ s.log → ∀ n, tagConn x = some n → n < s.nextConn ∧ n ∉ s.waiting
  cleaned : ∀ x, .handled x ∈ s.log → Departing x →
    (∀ c ∈ s.clients, tagConn x ≠ some c.conn) ∧ .decremented x.2 ∈ s.log

namespace Departures

variable {cfg : Config} {s s' : Server}

theorem init : Server.init.Departures cfg := by
  have hpc : Server.init.pc = .wait := rfl
  refine ⟨fun _ hx => absurd hx List.not_mem_nil, fun x hx => ?_,
    fun _ hx => absurd hx List.not_mem_nil, fun _ hx => absurd hx List.not_mem_nil⟩
  rw [hpc] at hx
  cases hx

/-- What a step must show: it adds no departure to the log that it does not clean up, and the
clients it adds come from the backlog. -/
theorem extend (h : s.Departures cfg) (hid : s.Identified cfg)
    (hahead : ∀ x ∈ s'.pc.ahead, Departing x → branch cfg.listen_socket x.1 = .epollDelFd)
    (hunder : ∀ x, System.underWay s'.pc = some x → ¬ Departing x) (new : List Obs)
    (hlog : s'.log = s.log ++ new)
    (hnew : ∀ x, .handled x ∈ new → x ∈ s.pc.events ∧ (Departing x →
      (∀ c ∈ s'.clients, tagConn x ≠ some c.conn) ∧ .decremented x.2 ∈ new))
    (hclients : ∀ c' ∈ s'.clients, (∃ c ∈ s.clients, c'.conn = c.conn) ∨ c'.conn ∈ s.waiting)
    (hnext : s.nextConn ≤ s'.nextConn)
    (hwaiting : ∀ n ∈ s'.waiting, n ∈ s.waiting ∨ n = s.nextConn) : s'.Departures cfg := by
  -- a number given out and taken from the backlog does not come back
  have hpast : ∀ n, n < s.nextConn ∧ n ∉ s.waiting → n < s'.nextConn ∧ n ∉ s'.waiting := by
    intro n hn
    refine ⟨by omega, fun hmem => ?_⟩
    rcases hwaiting n hmem with hold | heq
    · exact hn.2 hold
    · omega
  refine ⟨hahead, hunder, ?_, ?_⟩
  · intro x hx n hn
    rw [hlog] at hx
    rcases List.mem_append.mp hx with hx | hx
    · exact hpast n (h.past x hx n hn)
    · obtain ⟨hlt, hnot, -⟩ := hid.tagged x (hnew x hx).1 n hn
      exact hpast n ⟨hlt, hnot⟩
  · intro x hx hdep
    rw [hlog] at hx ⊢
    rcases List.mem_append.mp hx with hx | hx
    · obtain ⟨hgone, hdec⟩ := h.cleaned x hx hdep
      refine ⟨fun c' hc' heq => ?_, List.mem_append_left _ hdec⟩
      rcases hclients c' hc' with ⟨c, hc, hconn⟩ | hwait
      · exact hgone c hc (heq.trans (congrArg some hconn))
      · exact (h.past x hx _ heq).2 hwait
    · obtain ⟨hgone, hdec⟩ := (hnew x hx).2 hdep
      exact ⟨hgone, List.mem_append_right _ hdec⟩

/-- A new batch: with nothing heard of those who close, every departure is a hang-up. -/
theorem report_hangup (hid : s.Identified cfg) (hwatch : s.Watching)
    {reports : List (Option Nat × EpollFlags)} (hcurrent : ∀ r ∈ reports, s.Current r)
    (hunheard : s.ClosesUnheard (.loop (.ready reports))) {x : EpollEvent × Tag}
    (hx : x ∈ reports.filterMap (s.report cfg)) (hdep : Departing x) :
    branch cfg.listen_socket x.1 = .epollDelFd := by
  obtain ⟨r, hr, hx⟩ := List.mem_filterMap.mp hx
  obtain ⟨rconn, flags⟩ := r
  obtain ⟨t, ht, hleft⟩ := hdep
  rcases report_eq_some hx with ⟨-, rfl, -⟩ | ⟨c, hc, hconn, rfl, hreg⟩
  · cases ht
  obtain rfl : c = t := Option.some.inj ht
  obtain rfl : rconn = some c.conn := hconn
  obtain ⟨d, hd, hdc, -, hflags⟩ := hcurrent _ hr
  obtain rfl := hid.eq_of_conn hd hc hdc
  obtain ⟨i, hi⟩ := Option.isSome_iff_exists.mp hreg
  obtain ⟨hfd, hlisten⟩ := hid.range d.key (List.mem_map_of_mem hc)
  refine branch_eq_epollDelFd.mpr ⟨fun heq => hlisten heq.1, Int.not_lt.mpr hfd, ?_⟩
  show flags.epollrdhup = true ∨ flags.epollhup = true
  -- what the kernel reports of a client that has left, as far as it listens for it
  have hhup : flags.epollhup = d.rst := by
    rw [hflags]
    simp [Client.readiness, hi]
  have hrdhup : flags.epollrdhup = (i.epollrdhup && (d.fin || d.rst)) := by
    rw [hflags]
    simp [Client.readiness, hi]
  cases hrst : d.rst with
  | true => exact .inr (hhup.trans hrst)
  | false =>
      have hfin : d.fin = true := by simpa [hrst] using hleft
      have hquiet := hunheard d hc (List.mem_map_of_mem (f := Prod.fst) hr) hfin hrst
      rcases hwatch.interest d hc i hi with hi' | hheard
      · left
        rw [hrdhup, hi', hfin]
        rfl
      · rw [hquiet] at hheard
        cases hheard

/-- Being done with an event that is no departure. -/
theorem done (h : s.Departures cfg) (hid : s.Identified cfg) {e : EpollEvent × Tag}
    (hcur : s.pc.current = some e) (hstay : ¬ Departing e)
    (hahead : ∀ x ∈ s'.pc.ahead, x ∈ s.pc.ahead) (hunder : System.underWay s'.pc = none)
    (hlog : s'.log = s.log ++ [.handled e])
    (hclients : ∀ c' ∈ s'.clients, ∃ c ∈ s.clients, c'.conn = c.conn)
    (hnext : s'.nextConn = s.nextConn) (hwaiting : s'.waiting = s.waiting) :
    s'.Departures cfg := by
  refine h.extend hid (fun x hx => h.ahead x (hahead x hx)) (fun x hx => ?_) _ hlog
    (fun x hx => ?_) (fun c hc => .inl (hclients c hc)) (Nat.le_of_eq hnext.symm)
    (fun _ hn => .inl (hwaiting ▸ hn))
  · rw [hunder] at hx
    cases hx
  · rw [List.mem_singleton] at hx
    cases hx
    refine ⟨?_, fun hdep => absurd hdep hstay⟩
    rw [LoopPc.events, hcur]
    exact List.mem_cons_self

/-- Steps that are done with nothing. -/
theorem keep (h : s.Departures cfg) (hid : s.Identified cfg)
    (hahead : ∀ x ∈ s'.pc.ahead, x ∈ s.pc.ahead)
    (hunder : ∀ x, System.underWay s'.pc = some x → ¬ Departing x) (new : List Obs)
    (hlog : s'.log = s.log ++ new) (hnew : ∀ x, .handled x ∉ new)
    (hclients : ∀ c' ∈ s'.clients, ∃ c ∈ s.clients, c'.conn = c.conn)
    (hnext : s'.nextConn = s.nextConn) (hwaiting : s'.waiting = s.waiting) :
    s'.Departures cfg :=
  h.extend hid (fun x hx => h.ahead x (hahead x hx)) hunder new hlog
    (fun x hx => absurd hx (hnew x)) (fun c hc => .inl (hclients c hc)) (Nat.le_of_eq hnext.symm)
    (fun _ hn => .inl (hwaiting ▸ hn))

theorem step {a : Act} (h : s.Departures cfg) (hid : s.Identified cfg) (hwatch : s.Watching)
    (hlinux : s.Linux a) (hunheard : s.ClosesUnheard a) (hs : s.step cfg a = some s') :
    s'.Departures cfg := by
  have hsame : ∀ c' ∈ s.clients, ∃ c ∈ s.clients, c'.conn = c.conn := fun c hc => ⟨c, hc, rfl⟩
  -- an event whose branch is not the hang-up is no departure
  have hstay : ∀ {e todo}, s.pc = .event e todo → branch cfg.listen_socket e.1 ≠ .epollDelFd →
      ¬ Departing e := by
    intro e todo hpc hb hdep
    exact hb (h.ahead e (by rw [hpc]; exact List.mem_cons_self) hdep)
  cases move_of_step hs with
  -- the peers
  | connect =>
      refine h.extend hid h.ahead h.underWay [] (List.append_nil _).symm
        (fun _ hx => absurd hx List.not_mem_nil)
        (fun c hc => .inl (hsame c hc)) (Nat.le_succ _) (fun n hn => ?_)
      have hn' : n ∈ s.waiting ++ [s.nextConn] := by
        unfold waiting Server.connect at hn
        rwa [List.map_append] at hn
      exact (List.mem_append.mp hn').imp_right List.mem_singleton.mp
  | traffic conn t hknown =>
      refine h.keep hid (fun _ hx => hx) h.underWay _ rfl ?_
        (s.exists_of_modify (Client.receive_conn · t) fun _ => rfl) rfl (waiting_deliver s conn t)
      cases t <;> simp
  -- the event loop
  | wait reports hpc hlen hnodup =>
      refine h.extend hid (fun x hx => ?_) (fun x hx => ?_) [] (List.append_nil _).symm
        (fun _ hx => absurd hx List.not_mem_nil)
        (fun c hc => .inl (s.exists_of_modify (R := fun c c' => c'.conn = c.conn)
          Client.reported_conn (fun _ => rfl) c hc)) (Nat.le_refl _) (fun n hn => .inl hn)
      · rw [LoopPc.ahead_next] at hx
        exact report_hangup hid hwatch hlinux hunheard hx
      · rw [underWay_next] at hx
        cases hx
  | refuse e todo hpc hb =>
      exact h.done hid (by rw [hpc]; rfl) (hstay hpc (by simp [hb]))
        (LoopPc.ahead_done (by rw [hpc]; rfl)) (underWay_next todo) rfl hsame
        rfl rfl
  | accept e todo fd k backlog hpc hb hbacklog hfd hlisten hfresh =>
      have hold : s.waiting = k.conn :: backlog.map (·.conn) := by
        unfold waiting
        rw [hbacklog]
        rfl
      refine h.extend hid (fun x hx => h.ahead x ?_) (fun x hx => ?_) []
        (List.append_nil _).symm (fun _ hx => absurd hx List.not_mem_nil) (fun c hc => ?_)
        (Nat.le_refl _) (fun n hn => .inl ?_)
      · have hsub : ∀ y ∈ (LoopPc.accepted fd e todo).ahead, y ∈ s.pc.ahead :=
          LoopPc.ahead_subset (by rw [hpc]; rfl)
        exact hsub x hx
      · obtain rfl : e = x := Option.some.inj hx
        exact hstay hpc (by simp [hb])
      · refine (List.mem_append.mp hc).imp (hsame c) fun hnew => ?_
        rw [List.mem_singleton] at hnew
        rw [hnew, hold]
        exact List.mem_cons_self
      · rw [hold]
        exact List.mem_cons_of_mem _ hn
  | register fd e todo hpc hopen =>
      exact h.keep hid (LoopPc.ahead_subset (by rw [hpc]; rfl))
        (fun x hx => h.underWay x (by rw [hpc]; exact hx)) [] (List.append_nil _).symm
        (fun _ => List.not_mem_nil)
        (s.exists_of_modify (fun c => c.register_conn _) fun _ => rfl) rfl rfl
  | registerFails fd e todo hpc =>
      exact h.done hid (by rw [hpc]; rfl) (h.underWay e (by rw [hpc]; rfl))
        (LoopPc.ahead_done (by rw [hpc]; rfl)) (underWay_next todo) rfl hsame
        rfl rfl
  | count fd e todo proc hpc hadd =>
      exact h.done hid (by rw [hpc]; rfl) (h.underWay e (by rw [hpc]; rfl))
        (LoopPc.ahead_done (by rw [hpc]; rfl)) (underWay_next todo) rfl hsame
        rfl rfl
  | block fd e todo proc hpc hadd =>
      exact h.keep hid (LoopPc.ahead_subset (by rw [hpc]; rfl))
        (fun x hx => h.underWay x (by rw [hpc]; exact hx)) [] (List.append_nil _).symm
        (fun _ => List.not_mem_nil) hsame rfl rfl
  | hangup e todo hpc hb =>
      have he : e ∈ s.pc.events := by
        rw [hpc]
        exact List.mem_cons_self
      refine h.extend hid (fun x hx => h.ahead x ?_) (fun x hx => ?_) _ rfl (fun x hx => ?_)
        (fun c hc => .inl (hsame c (List.mem_of_mem_filter hc))) (Nat.le_refl _)
        (fun n hn => .inl hn)
      · have hsub : ∀ y ∈ (LoopPc.next todo).ahead, y ∈ s.pc.ahead :=
          LoopPc.ahead_done (by rw [hpc]; rfl)
        exact hsub x hx
      · rw [underWay_next] at hx
        cases hx
      · obtain rfl : x = e := by simpa using hx
        refine ⟨he, fun _ => ⟨fun c hc heq => ?_, List.mem_cons_self⟩⟩
        -- the socket of the event's connection is the one that was closed
        obtain ⟨hmem, hfd⟩ := List.mem_filter.mp hc
        have htagged := (hid.tagged x he _ heq).2.2.1 c.key (List.mem_map_of_mem hmem) rfl
        rw [decide_eq_true_eq] at hfd
        exact hfd htagged
  | readNothing e todo n hpc hb hn =>
      exact h.done hid (by rw [hpc]; rfl) (hstay hpc (by simp [hb]))
        (fun _ hx => absurd hx List.not_mem_nil) rfl rfl hsame rfl rfl
  | read e todo n c hpc hb hc hfd hn hlen hunread =>
      refine h.keep hid (LoopPc.ahead_subset (by rw [hpc]; rfl)) (fun x hx => ?_) []
        (List.append_nil _).symm (fun _ => List.not_mem_nil)
        (s.exists_of_modify (fun c => c.read_conn n) fun _ => rfl) rfl rfl
      obtain rfl : e = x := Option.some.inj hx
      exact hstay hpc (by simp [hb])
  | skip e todo hpc hb =>
      exact h.done hid (by rw [hpc]; rfl) (hstay hpc (by simp [hb]))
        (LoopPc.ahead_done (by rw [hpc]; rfl)) (underWay_next todo) rfl hsame
        rfl rfl
  | submit addr args src e todo hpc =>
      refine h.keep hid (LoopPc.ahead_subset (by rw [hpc]; rfl))
        (fun x hx => h.underWay x (by rw [hpc]; exact hx)) _ rfl (fun x => ?_) hsame rfl rfl
      cases src <;> simp
  | rearm fd src e todo hpc hopen =>
      exact h.done hid (by rw [hpc]; rfl) (h.underWay e (by rw [hpc]; rfl))
        (LoopPc.ahead_done (by rw [hpc]; rfl)) (underWay_next todo) rfl
        (s.exists_of_modify (fun c => c.register_conn _) fun _ => rfl) rfl rfl
  | rearmFails fd src e todo hpc =>
      exact h.done hid (by rw [hpc]; rfl) (h.underWay e (by rw [hpc]; rfl))
        (LoopPc.ahead_done (by rw [hpc]; rfl)) (underWay_next todo) rfl hsame
        rfl rfl
  -- the workers
  | take k job hjob => exact ⟨h.ahead, h.underWay, h.past, h.cleaned⟩
  | perform w ρ x e todo hx htodo =>
      cases e with
      | close fd =>
          exact h.keep hid (fun _ hx => hx) h.underWay [] (List.append_nil _).symm
            (fun _ => List.not_mem_nil) (fun c hc => hsame c (List.mem_of_mem_filter hc)) rfl rfl
      | _ => exact ⟨h.ahead, h.underWay, h.past, h.cleaned⟩
  | call w ρ x args hx htodo hnext => exact ⟨h.ahead, h.underWay, h.past, h.cleaned⟩
  | retire w ρ x hx htodo hnext => exact ⟨h.ahead, h.underWay, h.past, h.cleaned⟩

end Departures

/-- The note of a decrement is taken when the counter is stepped back. -/
theorem counter_of_decremented {cfg : Config} {s s' : Server} {a : Act}
    (hs : s.step cfg a = some s') {tag : Tag} (hnew : .decremented tag ∈ s'.log)
    (hold : .decremented tag ∉ s.log) :
    s'.proc.global_connection_id = s.proc.global_connection_id - 1 := by
  cases move_of_step hs with
  | hangup e todo hpc hb => exact Table.epollDelFd_count s.proc.malloc.2 e.1.fd
  | traffic conn t hknown =>
      rcases List.mem_append.mp hnew with h | h
      · exact absurd h hold
      · cases t <;> simp at h
  | submit addr args src e todo hpc =>
      rcases List.mem_append.mp hnew with h | h
      · exact absurd h hold
      · cases src <;> simp at h
  | perform w ρ x e todo hx htodo =>
      exact absurd (s.perform_log x.job.addr e ▸ hnew) hold
  | connect | wait | accept | register | block | read | take | call | retire =>
      exact absurd hnew hold
  | _ =>
      rcases List.mem_append.mp hnew with h | h
      · exact absurd h hold
      · simp at h

end Server

/-! ## §4. The theorem. -/

/-- **Departed clients are cleaned up.**  In every run on Linux in which, whenever an orderly
close is reported, nothing of that client was handed over before: once an event that reports a
client's close or reset is handled, the client's socket is closed, and with it its
registration, and the counter was decremented for it. -/
theorem departed_cleaned_up (cfg : Config) {s : Server}
    (hreach : Reach (Server.step cfg) (fun s a => s.Linux a ∧ s.ClosesUnheard a) .init s)
    {e : EpollEvent} {c : Client} (hhandled : .handled (e, some c) ∈ s.log)
    (hleft : c.fin = true ∨ c.rst = true) :
    (∀ d ∈ s.clients, d.conn ≠ c.conn) ∧ .decremented (some c) ∈ s.log := by
  have hdepartures : s.Departures cfg := by
    refine hreach.invariant (P := fun s => s.Departures cfg) .init ?_
    intro t a t' ht hdep hok hs
    exact hdep.step (Server.identified_of_reach ht) (Server.watching_of_reach ht) hok.1 hok.2 hs
  obtain ⟨hgone, hdec⟩ := hdepartures.cleaned (e, some c) hhandled ⟨c, rfl, hleft⟩
  exact ⟨fun d hd heq => hgone d hd (congrArg some heq.symm), hdec⟩

/-- A client that leaves without a word. -/
theorem departed_cleaned_up_silent :
    ∃ s, execute (Server.step ⟨3, .after⟩) (fun s a => s.Linux a ∧ s.ClosesUnheard a)
        .init [.connect, .loop (.ready [(none, { epollin := true })]),
          .loop (.accept (some 5)), .loop (.ctl true), .loop .go, .traffic 0 .fin,
          .loop (.ready [(some 0, { epollin := true, epollrdhup := true })]),
          .loop .go] = some s
      ∧ .decremented (some ⟨⟨0, [], true, false⟩, 5, some acceptInterest, true⟩) ∈ s.log := by
  apply execute_reaches (P := fun s : Server => .handled (⟨5, { epollin := true, epollrdhup := true }⟩,
    some ⟨⟨0, [], true, false⟩, 5, some acceptInterest, true⟩) ∈ s.log) (by decide)
  intro s hreach hhandled
  exact (departed_cleaned_up ⟨3, .after⟩ hreach hhandled (.inl rfl)).2

/-- A client that leaves after a `PING` keeps its socket, its registration and its place in
the count. -/
theorem departed_after_ping_stays :
    ∃ s, execute (Server.step ⟨3, .after⟩) Server.Linux
        .init [.connect, .loop (.ready [(none, { epollin := true })]),
          .loop (.accept (some 5)), .loop (.ctl true), .loop .go,
          .traffic 0 (.data [83, 83, 80, 0]), .loop (.ready [(some 0, { epollin := true })]),
          .loop (.recv 4), .loop .go, .loop (.ctl true), .traffic 0 .fin,
          .loop (.ready [(some 0, { epollin := true, epollout := true })]),
          .loop (.recv 0)] = some s
      ∧ .handled (⟨5, { epollin := true, epollout := true }⟩,
          some ⟨⟨0, [], true, false⟩, 5, some rearmInterest, true⟩) ∈ s.log
      ∧ (∃ d ∈ s.clients, d.conn = 0 ∧ d.interest.isSome)
      ∧ s.proc.global_connection_id = 1 :=
  exists_execute (P := fun s : Server => .handled (⟨5, { epollin := true, epollout := true }⟩,
      some ⟨⟨0, [], true, false⟩, 5, some rearmInterest, true⟩) ∈ s.log
    ∧ (∃ d ∈ s.clients, d.conn = 0 ∧ d.interest.isSome) ∧ s.proc.global_connection_id = 1)
    (by decide)

end SensorServer.System
