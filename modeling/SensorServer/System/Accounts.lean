/-
  SensorServer.System.Accounts — every byte is somewhere.

  What a client has sent is what the loop has handed to the thread pool for it, followed by
  the chunk it holds between `recv` and the hand-over, followed by what the kernel still has.
  `accounted_of_reach` says so for every open client in every reachable state, with no
  condition on the run: reading takes bytes from the front, handing over keeps their order,
  and nobody else touches them.
-/
import SensorServer.System.Identity

namespace SensorServer.System

open SensorServer.Framework
open SensorServer.Loop

/-! ## §1. Bytes of a connection. -/

/-- The bytes that have arrived on connection `n`, in order. -/
def arrivedBytes (n : Nat) (log : List Obs) : List UInt8 :=
  log.flatMap fun
    | .arrived m bytes => if m = n then bytes else []
    | _ => []

/-- The bytes of connection `n` that were handed over, in order. -/
def handedBytes (n : Nat) (log : List Obs) : List UInt8 :=
  log.flatMap fun
    | .handed m bytes => if m = n then bytes else []
    | _ => []

/-- The bytes of connection `n` the loop has read and not handed over yet. -/
def inHand (n : Nat) : LoopPc Tag → List UInt8
  | .received _ args (some c) _ _ => if c.conn = n then args.bytes else []
  | _ => []

@[simp] theorem inHand_next (n : Nat) (todo : List (EpollEvent × Tag)) :
    inHand n (.next todo) = [] := by
  cases todo <;> rfl

@[simp] theorem handedBytes_append (n : Nat) (log log' : List Obs) :
    handedBytes n (log ++ log') = handedBytes n log ++ handedBytes n log' :=
  List.flatMap_append

namespace Server

/-- The bytes of connection `n` that have left the kernel. -/
def passed (s : Server) (n : Nat) : List UInt8 := handedBytes n s.log ++ inHand n s.pc

/-! ## §2. The invariant. -/

/-- Every byte of every connection is accounted for. -/
structure Accounted (s : Server) : Prop where
  open_clients : ∀ c ∈ s.clients, s.passed c.conn ++ c.unread = arrivedBytes c.conn s.log
  waiting : ∀ k ∈ s.backlog, s.passed k.conn = [] ∧ k.unread = arrivedBytes k.conn s.log
  future : ∀ n, s.nextConn ≤ n → s.passed n = [] ∧ arrivedBytes n s.log = []

namespace Accounted

variable {cfg : Config} {s s' : Server}

theorem init : Server.init.Accounted where
  open_clients := fun _ hc => absurd hc List.not_mem_nil
  waiting := fun _ hk => absurd hk List.not_mem_nil
  future := fun _ _ => ⟨rfl, rfl⟩

/-- Steps that read nothing and bring nothing. -/
theorem keep (h : s.Accounted) (hpassed : ∀ n, s'.passed n = s.passed n)
    (harrived : ∀ n, arrivedBytes n s'.log = arrivedBytes n s.log)
    (hclients : ∀ c' ∈ s'.clients, ∃ c ∈ s.clients, c'.conn = c.conn ∧ c'.unread = c.unread)
    (hbacklog : s'.backlog = s.backlog) (hnext : s'.nextConn = s.nextConn) : s'.Accounted where
  open_clients := by
    intro c' hc'
    obtain ⟨c, hc, hconn, hunread⟩ := hclients c' hc'
    rw [hpassed, harrived, hconn, hunread]
    exact h.open_clients c hc
  waiting := by
    intro k hk
    rw [hpassed, harrived]
    exact h.waiting k (hbacklog ▸ hk)
  future := by
    intro n hn
    rw [hpassed, harrived]
    exact h.future n (hnext ▸ hn)

theorem connect (h : s.Accounted) : s.connect.Accounted where
  open_clients := h.open_clients
  waiting := by
    intro k hk
    rcases List.mem_append.mp hk with hk | hk
    · exact h.waiting k hk
    · rw [List.mem_singleton] at hk
      obtain ⟨hpassed, harrived⟩ := h.future s.nextConn (Nat.le_refl _)
      rw [hk]
      exact ⟨hpassed, harrived.symm⟩
  future := fun n hn => h.future n (Nat.le_of_succ_le hn)

/-- Arriving bytes are unread bytes. -/
theorem deliver (h : s.Accounted) (hid : s.Identified cfg) {conn : Nat} (t : Traffic)
    (hknown : s.Knows conn) : (s.deliver conn t).Accounted := by
  -- arrivals change nothing of what was handed over or is in hand
  have hpassed : ∀ n, (s.deliver conn t).passed n = s.passed n := by
    intro n
    have hlog : handedBytes n (s.deliver conn t).log = handedBytes n s.log := by
      cases t <;> simp [Server.deliver, handedBytes]
    rw [passed, hlog]
    rfl
  have harrived : ∀ n, arrivedBytes n (s.deliver conn t).log
      = arrivedBytes n s.log ++ if conn = n then t.bytes else [] := by
    intro n
    cases t <;> simp [Server.deliver, arrivedBytes, Traffic.bytes]
  refine ⟨?_, ?_, ?_⟩
  · refine s.forall_modify (fun c hc hp => ?_) (fun c hc hp => ?_)
    · have hconn : conn = c.conn := by simpa [eq_comm] using hp
      have hunread : (c.receive t).unread = c.unread ++ t.bytes :=
        Client.receive_sock_unread c.toSock t
      rw [Client.receive_conn, hpassed, harrived, if_pos hconn, hunread, ← List.append_assoc,
        h.open_clients c hc]
    · have hconn : ¬ conn = c.conn := by simpa [eq_comm] using hp
      rw [hpassed, harrived, if_neg hconn, List.append_nil, h.open_clients c hc]
  · intro k' hk'
    obtain ⟨k, hk, rfl⟩ := List.mem_map.mp hk'
    obtain ⟨hnone, hunread⟩ := h.waiting k hk
    split
    · rename_i hconn
      rw [Client.receive_sock_conn, hpassed, harrived, if_pos hconn.symm,
        Client.receive_sock_unread, hunread]
      exact ⟨hnone, rfl⟩
    · rename_i hconn
      rw [hpassed, harrived, if_neg (Ne.symm hconn), List.append_nil]
      exact ⟨hnone, hunread⟩
  · intro n hn
    -- a connection that is known has a number given out already
    have hlt : conn < s.nextConn := by
      rcases hknown with ⟨k, hk, rfl⟩ | ⟨c, hc, rfl⟩
      · exact hid.bound _ (List.mem_append_left _ (List.mem_map_of_mem hk))
      · refine hid.bound _ (List.mem_append_right _ ?_)
        exact List.mem_map_of_mem (f := Prod.fst) (List.mem_map_of_mem (f := Client.key) hc)
    obtain ⟨hnone, hzero⟩ := h.future n hn
    have hne : ¬ conn = n := by
      have hle : s.nextConn ≤ n := hn
      omega
    rw [hpassed, harrived, if_neg hne, List.append_nil]
    exact ⟨hnone, hzero⟩

/-- Reading moves bytes from the front of the kernel's buffer into the loop's hand. -/
theorem read (h : s.Accounted) (hid : s.Identified cfg) {e : EpollEvent × Tag}
    {todo : List (EpollEvent × Tag)} {c : Client} {n : Nat} (hpc : s.pc = .event e todo)
    (hc : c ∈ s.clients) (hfd : c.fd = e.1.fd)
    (hpc' : s'.pc = .received s.proc.fresh (.received e.1.fd (c.unread.take n)) (some c) e todo)
    (hclients : s'.clients = (s.modify (fun c => c.fd = e.1.fd) (Client.read n)).clients)
    (hbacklog : s'.backlog = s.backlog) (hnext : s'.nextConn = s.nextConn)
    (hlog : s'.log = s.log) : s'.Accounted := by
  -- the chunk read is in the hand of the loop now
  have hpassed : ∀ m, s'.passed m
      = s.passed m ++ if c.conn = m then c.unread.take n else [] := by
    intro m
    rw [passed, passed, hlog, hpc', hpc]
    simp [inHand]
  have hkey : c.conn ∈ s.keys.map Prod.fst :=
    List.mem_map_of_mem (f := Prod.fst) (List.mem_map_of_mem (f := Client.key) hc)
  refine ⟨?_, ?_, ?_⟩
  · rw [hclients]
    refine s.forall_modify (fun d hd hp => ?_) (fun d hd hp => ?_)
    · obtain rfl : d = c := hid.eq_of_fd hd hc (by simpa [hfd] using hp)
      rw [Client.read_conn, Client.read_unread, hpassed, if_pos rfl, hlog, List.append_assoc,
        List.take_append_drop]
      exact h.open_clients d hd
    · -- the other clients have other numbers, and nothing of theirs was read
      have hne : ¬ c.conn = d.conn := by
        intro heq
        obtain rfl := hid.eq_of_conn hc hd heq
        simp [hfd] at hp
      rw [hpassed, if_neg hne, List.append_nil, hlog]
      exact h.open_clients d hd
  · intro k hk
    rw [hbacklog] at hk
    have hne : ¬ c.conn = k.conn := fun heq =>
      (List.nodup_append.mp hid.conns).2.2 _ (List.mem_map_of_mem hk) _ hkey heq.symm
    rw [hpassed, if_neg hne, List.append_nil, hlog]
    exact h.waiting k hk
  · intro m hm
    rw [hnext] at hm
    have hlt := hid.bound _ (List.mem_append_right _ hkey)
    have hne : ¬ c.conn = m := by omega
    rw [hpassed, if_neg hne, List.append_nil, hlog]
    exact h.future m hm

/-- Accepting a connection makes a client of it. -/
theorem accept (h : s.Accounted) {k : Sock} {backlog : List Sock} {fd : Int}
    (hbacklog : s.backlog = k :: backlog) (hpassed : ∀ n, s'.passed n = s.passed n)
    (hlog : s'.log = s.log) (hclients : s'.clients = s.clients ++ [k.accepted fd])
    (hbacklog' : s'.backlog = backlog) (hnext : s'.nextConn = s.nextConn) : s'.Accounted := by
  refine ⟨?_, ?_, ?_⟩
  · intro c hc
    rw [hpassed, hlog]
    rw [hclients] at hc
    rcases List.mem_append.mp hc with hc | hc
    · exact h.open_clients c hc
    · rw [List.mem_singleton] at hc
      obtain ⟨hnone, hunread⟩ := h.waiting k (hbacklog ▸ List.mem_cons_self)
      rw [hc, Client.accepted_conn, Client.accepted_unread, hnone, List.nil_append]
      exact hunread
  · intro j hj
    rw [hpassed, hlog]
    rw [hbacklog'] at hj
    exact h.waiting j (hbacklog ▸ List.mem_cons_of_mem k hj)
  · intro n hn
    rw [hpassed, hlog]
    exact h.future n (hnext ▸ hn)

/-- Being done with an event hands nothing over. -/
theorem passed_done (todo : List (EpollEvent × Tag)) {proc : Table.Proc} {clients : List Client}
    {notes : List Obs} (hhand : ∀ n, inHand n s.pc = []) (hnotes : ∀ n, handedBytes n notes = [])
    (n : Nat) :
    ({ s with clients, pc := .next todo, proc, log := s.log ++ notes } : Server).passed n
      = s.passed n := by
  simp [passed, hhand, hnotes]

theorem step {a : Act} (h : s.Accounted) (hid : s.Identified cfg) (hs : s.step cfg a = some s') :
    s'.Accounted := by
  -- most moves leave the clients alone
  have hsame : ∀ c' ∈ s.clients, ∃ c ∈ s.clients, c'.conn = c.conn ∧ c'.unread = c.unread :=
    fun c hc => ⟨c, hc, rfl, rfl⟩
  cases move_of_step hs with
  -- the peers
  | connect => exact h.connect
  | traffic conn t hknown => exact h.deliver hid t hknown
  -- the event loop
  | wait reports hpc hlen hnodup =>
      refine h.keep (fun n => ?_) (fun _ => rfl)
        (s.exists_of_modify (fun c => ⟨c.reported_conn, c.reported_unread⟩) fun _ => ⟨rfl, rfl⟩)
        rfl rfl
      show handedBytes n s.log ++ inHand n (.next _) = _
      rw [inHand_next, passed, hpc]
      rfl
  | refuse e todo hpc hb =>
      exact h.keep (passed_done (s := s) todo (by simp [hpc, inHand]) (by simp [handedBytes]))
        (by simp [arrivedBytes]) hsame rfl rfl
  | accept e todo fd k backlog hpc hb hbacklog hfd hlisten hfresh =>
      exact h.accept hbacklog (by simp [passed, hpc, inHand]) rfl rfl rfl rfl
  | register fd e todo hpc hopen =>
      refine h.keep (fun n => ?_) (fun _ => rfl)
        (s.exists_of_modify (fun c => ⟨c.register_conn _, c.register_unread _⟩) fun _ => ⟨rfl, rfl⟩)
        rfl rfl
      simp [passed, hpc, inHand, Server.modify]
  | registerFails fd e todo hpc =>
      exact h.keep (passed_done (s := s) todo (by simp [hpc, inHand]) (by simp [handedBytes]))
        (by simp [arrivedBytes]) hsame rfl rfl
  | count fd e todo proc hpc hadd =>
      exact h.keep (passed_done (s := s) todo (by simp [hpc, inHand]) (by simp [handedBytes]))
        (by simp [arrivedBytes]) hsame rfl rfl
  | block fd e todo proc hpc hadd =>
      exact h.keep (by simp [passed, hpc, inHand]) (fun _ => rfl) hsame rfl rfl
  | hangup e todo hpc hb =>
      refine h.keep (passed_done (s := s) todo (by simp [hpc, inHand]) (by simp [handedBytes]))
        (by simp [arrivedBytes]) (fun c hc => ?_) rfl rfl
      exact ⟨c, List.mem_of_mem_filter hc, rfl, rfl⟩
  | readNothing e todo n hpc hb hn =>
      exact h.keep (passed_done (s := s) [] (by simp [hpc, inHand]) (by simp [handedBytes]))
        (by simp [arrivedBytes]) hsame rfl rfl
  | read e todo n c hpc hb hc hfd hn hlen hunread =>
      exact h.read hid hpc hc hfd rfl rfl rfl rfl rfl
  | skip e todo hpc hb =>
      exact h.keep (passed_done (s := s) todo (by simp [hpc, inHand]) (by simp [handedBytes]))
        (by simp [arrivedBytes]) hsame rfl rfl
  | submit addr args src e todo hpc =>
      refine h.keep (fun n => ?_) (fun n => ?_) hsame rfl rfl
      · -- the chunk leaves the loop's hand for the log
        cases src <;> simp [passed, hpc, inHand, handedBytes]
      · cases src <;> simp [arrivedBytes]
  | rearm fd src e todo hpc hopen =>
      exact h.keep (passed_done (s := s) todo (by simp [hpc, inHand]) (by simp [handedBytes]))
        (by simp [arrivedBytes])
        (s.exists_of_modify (fun c => ⟨c.register_conn _, c.register_unread _⟩) fun _ => ⟨rfl, rfl⟩)
        rfl rfl
  | rearmFails fd src e todo hpc =>
      exact h.keep (passed_done (s := s) todo (by simp [hpc, inHand]) (by simp [handedBytes]))
        (by simp [arrivedBytes]) hsame rfl rfl
  -- the workers
  | take k job hjob => exact h.keep (fun _ => rfl) (fun _ => rfl) hsame rfl rfl
  | perform w ρ x e todo hx htodo =>
      refine h.keep (fun n => ?_) (fun n => ?_) (fun c hc => ?_) (s.perform_backlog _ e)
        (s.perform_nextConn _ e)
      · show handedBytes n (s.perform x.job.addr e).log ++ inHand n (s.perform x.job.addr e).pc = _
        rw [s.perform_log, s.perform_pc]
        rfl
      · exact congrArg (arrivedBytes n) (s.perform_log _ e)
      · refine ⟨c, ?_, rfl, rfl⟩
        cases e with
        | close fd => exact List.mem_of_mem_filter hc
        | _ => exact hc
  | call w ρ x args hx htodo hnext => exact h.keep (fun _ => rfl) (fun _ => rfl) hsame rfl rfl
  | retire w ρ x hx htodo hnext => exact h.keep (fun _ => rfl) (fun _ => rfl) hsame rfl rfl

end Accounted

/-- Every byte of every open client is accounted for in every reachable state, whatever the
guard of the runs. -/
theorem accounted_of_reach {cfg : Config} {s : Server} {ok : Server → Act → Prop}
    (hreach : Reach (step cfg) ok .init s) : s.Accounted :=
  hreach.invariant .init fun _ _ _ ht h _ hs => h.step (identified_of_reach ht) hs

end Server

end SensorServer.System
