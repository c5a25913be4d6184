/-
  SensorServer.System.Moves — everything one step of the system can do.

  `Move` lists the ways a step can go, each with the conditions under which it is taken and
  the state it leads to.  `move_of_step` is the only place where `step` is taken apart; every
  invariant is a case analysis on `Move`.
-/
import SensorServer.System.Server

namespace SensorServer.System

open SensorServer.Parser (ThArgs Event Residue RECV_BUFFER_LEN)
open SensorServer.Table
open SensorServer.Loop

/-! ## §1. Moves. -/

/-- The moves of the system from `s`: the label, and the state reached. -/
inductive Move (cfg : Config) (s : Server) : Act → Server → Prop where
  /-- A connection arrives. -/
  | connect : Move cfg s .connect s.connect
  /-- Something arrives on a connection. -/
  | traffic (conn : Nat) (t : Traffic) (hknown : s.Knows conn) :
      Move cfg s (.traffic conn t) (s.deliver conn t)
  /-- `epoll_wait` reports a batch. -/
  | wait (reports : List (Option Nat × EpollFlags)) (hpc : s.pc = .wait)
      (hlen : reports.length ≤ MAX_WAIT_FD_NUM) (hnodup : (reports.map Prod.fst).Nodup) :
      Move cfg s (.loop (.ready reports))
        { s.clearPending reports with pc := .next (reports.filterMap (s.report cfg)) }
  /-- `accept` fails. -/
  | refuse (e todo) (hpc : s.pc = .event e todo) (hb : branch cfg.listen_socket e.1 = .accept) :
      Move cfg s (.loop (.accept none))
        { s with pc := .next todo, proc := s.proc.malloc.2, log := s.log ++ [.handled e] }
  /-- `accept` returns the oldest connection of the backlog. -/
  | accept (e todo fd k backlog) (hpc : s.pc = .event e todo)
      (hb : branch cfg.listen_socket e.1 = .accept) (hbacklog : s.backlog = k :: backlog)
      (hfd : 0 ≤ fd) (hlisten : fd ≠ cfg.listen_socket) (hfresh : ∀ c ∈ s.clients, c.fd ≠ fd) :
      Move cfg s (.loop (.accept (some fd)))
        { s with
          backlog, clients := s.clients ++ [k.accepted fd], pc := .accepted fd e todo
          proc := s.proc.malloc.2 }
  /-- The new socket is registered. -/
  | register (fd e todo) (hpc : s.pc = .accepted fd e todo) (hopen : ∃ c ∈ s.clients, c.fd = fd) :
      Move cfg s (.loop (.ctl true))
        { s.modify (fun c => c.fd = fd) (Client.register acceptInterest) with
          pc := .registered fd e todo }
  /-- Registering the new socket fails. -/
  | registerFails (fd e todo) (hpc : s.pc = .accepted fd e todo) :
      Move cfg s (.loop (.ctl false))
        { s with pc := .next todo, log := s.log ++ [.handled e] }
  /-- `add_new_connection` returns. -/
  | count (fd e todo proc) (hpc : s.pc = .registered fd e todo)
      (hadd : addNewConnection cfg.order s.proc fd = .returned proc ()) :
      Move cfg s (.loop .go)
        { s with pc := .next todo, proc, log := s.log ++ [.handled e] }
  /-- `add_new_connection` waits for the mutex. -/
  | block (fd e todo proc) (hpc : s.pc = .registered fd e todo)
      (hadd : addNewConnection cfg.order s.proc fd = .blocked proc) :
      Move cfg s (.loop .go) { s with pc := .blocked e todo, proc }
  /-- A hang-up. -/
  | hangup (e todo) (hpc : s.pc = .event e todo)
      (hb : branch cfg.listen_socket e.1 = .epollDelFd) :
      Move cfg s (.loop .go)
        { s.closeFd e.1.fd with
          pc := .next todo, proc := (epollDelFd s.proc.malloc.2 e.1.fd).free s.proc.fresh
          log := s.log ++ [.decremented e.2, .handled e] }
  /-- `recv` returns nothing, and the loop leaves the batch. -/
  | readNothing (e todo) (n : Int) (hpc : s.pc = .event e todo)
      (hb : branch cfg.listen_socket e.1 = .recv) (hn : n ≤ 0) :
      Move cfg s (.loop (.recv n))
        { s with pc := .wait, proc := s.proc.malloc.2, log := s.log ++ [.handled e] }
  /-- `recv` returns the first `n` unread bytes of the client at the descriptor. -/
  | read (e todo) (n : Nat) (c : Client) (hpc : s.pc = .event e todo)
      (hb : branch cfg.listen_socket e.1 = .recv) (hc : c ∈ s.clients) (hfd : c.fd = e.1.fd)
      (hn : 0 < n) (hlen : n ≤ RECV_BUFFER_LEN) (hunread : n ≤ c.unread.length) :
      Move cfg s (.loop (.recv n))
        { s.modify (fun c => c.fd = e.1.fd) (Client.read n) with
          pc := .received s.proc.fresh (.received e.1.fd (c.unread.take n)) (some c) e todo
          proc := s.proc.malloc.2 }
  /-- An event without a branch. -/
  | skip (e todo) (hpc : s.pc = .event e todo) (hb : branch cfg.listen_socket e.1 = .skip) :
      Move cfg s (.loop .go)
        { s with pc := .next todo, proc := s.proc.malloc.2, log := s.log ++ [.handled e] }
  /-- A chunk is handed to the thread pool. -/
  | submit (addr args src e todo) (hpc : s.pc = .received addr args src e todo) :
      Move cfg s (.loop .go)
        { s with
          queue := s.queue ++ [⟨addr, src.map (·.conn), args⟩]
          pc := .submitted args.socket_fd src e todo
          log := s.log ++ src.toList.map fun c => .handed c.conn args.bytes }
  /-- The client is registered again. -/
  | rearm (fd src e todo) (hpc : s.pc = .submitted fd src e todo)
      (hopen : ∃ c ∈ s.clients, c.fd = fd ∧ c.interest.isSome) :
      Move cfg s (.loop (.ctl true))
        { s.modify (fun c => c.fd = fd) (Client.register rearmInterest) with
          pc := .next todo, log := s.log ++ [.handled e] }
  /-- Registering the client again fails. -/
  | rearmFails (fd src e todo) (hpc : s.pc = .submitted fd src e todo) :
      Move cfg s (.loop (.ctl false))
        { s with pc := .next todo, log := s.log ++ [.handled e] }
  /-- A worker takes a job. -/
  | take (k : Nat) (job : Job) (hjob : s.queue[k]? = some job) :
      Move cfg s (.take k)
        { s with
          queue := s.queue.eraseIdx k, workers := s.workers ++ [job.start] }
  /-- A job goes on with an event. -/
  | perform (w : Nat) (ρ : Residue) (x : Worker) (e : Event) (todo : List Event)
      (hx : s.workers[w]? = some x) (htodo : x.todo = e :: todo) :
      Move cfg s (.work w ρ)
        { s.perform x.job.addr e with workers := s.workers.set w ⟨x.job, todo, x.next⟩ }
  /-- A job begins its next call. -/
  | call (w : Nat) (ρ : Residue) (x : Worker) (args : ThArgs)
      (hx : s.workers[w]? = some x) (htodo : x.todo = []) (hnext : x.next = some args) :
      Move cfg s (.work w ρ)
        { s with workers := s.workers.set w (x.job.call ρ args) }
  /-- A job is finished. -/
  | retire (w : Nat) (ρ : Residue) (x : Worker)
      (hx : s.workers[w]? = some x) (htodo : x.todo = []) (hnext : x.next = none) :
      Move cfg s (.work w ρ) { s with workers := s.workers.eraseIdx w }

/-! ## §2. Inversion. -/

section Inversion

variable {cfg : Config} {s s' : Server}

/-- What the call and the code behind it lead to. -/
theorem loop_eq_some {c : Choice} (h : s.loop cfg c = some s') :
    ∃ t reply pc proc, s.serve cfg (s.pc.call cfg.listen_socket) c = some (t, reply)
      ∧ resume cfg.listen_socket cfg.order s.pc s.proc reply = some (pc, proc)
      ∧ s' = { t with pc, proc, log := s.log ++ called cfg s.pc ++ finished s.pc pc } := by
  unfold Server.loop at h
  obtain ⟨⟨t, reply⟩, hserve, hrest⟩ := Option.bind_eq_some_iff.mp h
  obtain ⟨⟨pc, proc⟩, hresume, heq⟩ := Option.map_eq_some_iff.mp hrest
  exact ⟨t, reply, pc, proc, hserve, hresume, heq.symm⟩

/-- A loop about to wait goes on with the batch it is given. -/
theorem move_of_wait {c : Choice} (hpc : s.pc = .wait) (h : s.loop cfg c = some s') :
    Move cfg s (.loop c) s' := by
  obtain ⟨t, reply, pc, proc, hserve, hresume, rfl⟩ := loop_eq_some h
  rw [hpc] at hserve hresume
  cases c with
  | ready reports =>
      simp only [LoopPc.call, Server.serve] at hserve
      split at hserve
      · rename_i hok
        cases hserve
        cases hresume
        have hmove : Move cfg s _ _ := .wait reports hpc hok.1 hok.2
        simpa [hpc, called, LoopPc.current, Server.clearPending, Server.modify] using hmove
      · cases hserve
  | _ => cases hserve

/-- A loop at an event takes the branch of the event. -/
theorem move_of_event {c : Choice} {e : EpollEvent × Tag} {todo : List (EpollEvent × Tag)}
    (hpc : s.pc = .event e todo) (h : s.loop cfg c = some s') : Move cfg s (.loop c) s' := by
  obtain ⟨t, reply, pc, proc, hserve, hresume, rfl⟩ := loop_eq_some h
  rw [hpc] at hserve hresume
  cases hb : branch cfg.listen_socket e.1 with
  | accept =>
      simp only [LoopPc.call, hb] at hserve
      cases c with
      | accept r =>
          -- a failure, or the oldest waiting connection under a number not in use
          cases r with
          | none =>
              cases hserve
              rw [resume_accept hb] at hresume
              cases hresume
              have hmove : Move cfg s _ _ := .refuse e todo hpc hb
              simpa [hpc, hb, called, LoopPc.current] using hmove
          | some fd =>
              simp only [Server.serve] at hserve
              split at hserve
              · cases hserve
              · rename_i k backlog hbacklog
                split at hserve
                · rename_i hok
                  cases hserve
                  rw [resume_accept hb, if_neg (by omega)] at hresume
                  cases hresume
                  have hmove : Move cfg s _ _ := .accept e todo fd k backlog hpc hb hbacklog
                    hok.1 hok.2.1 hok.2.2
                  simpa [hpc, hb, called, finished] using hmove
                · cases hserve
      | _ => cases hserve
  | epollDelFd =>
      simp only [LoopPc.call, hb] at hserve
      cases c with
      | go =>
          cases hserve
          rw [resume_hangup hb] at hresume
          cases hresume
          have hmove : Move cfg s _ _ := .hangup e todo hpc hb
          simpa [hpc, hb, called, LoopPc.current, Server.closeFd, Proc.malloc] using hmove
      | _ => cases hserve
  | recv =>
      simp only [LoopPc.call, hb] at hserve
      cases c with
      | recv n =>
          -- the end of the stream or an error, or a chunk no longer than the buffer
          simp only [Server.serve] at hserve
          split at hserve
          · rename_i hn
            cases hserve
            rw [resume_recv_nothing hb hn] at hresume
            cases hresume
            have hmove : Move cfg s _ _ := .readNothing e todo n hpc hb hn
            simpa [hpc, hb, called, finished, LoopPc.current] using hmove
          · rename_i hn
            split at hserve
            · cases hserve
            · rename_i c hc
              split at hserve
              · rename_i hok
                cases hserve
                obtain ⟨m, rfl⟩ : ∃ m : Nat, n = m := ⟨n.toNat, by omega⟩
                rw [resume_recv_chunk hb (by omega), if_neg (by omega)] at hresume
                cases hresume
                have hmove : Move cfg s _ _ := .read e todo m c hpc hb (List.mem_of_find?_eq_some hc)
                  (by simpa using List.find?_some hc) (by omega) (by omega) (by omega)
                simpa [hpc, hb, called, finished, Server.modify] using hmove
              · cases hserve
      | _ => cases hserve
  | skip =>
      simp only [LoopPc.call, hb] at hserve
      cases c with
      | go =>
          cases hserve
          rw [resume_skip hb] at hresume
          cases hresume
          have hmove : Move cfg s _ _ := .skip e todo hpc hb
          simpa [hpc, hb, called, LoopPc.current] using hmove
      | _ => cases hserve

/-- A loop inside an event makes the call it is at. -/
theorem move_of_inside {c : Choice} (hwait : s.pc ≠ .wait)
    (hevent : ∀ e todo, s.pc ≠ .event e todo) (h : s.loop cfg c = some s') :
    Move cfg s (.loop c) s' := by
  obtain ⟨t, reply, pc, proc, hserve, hresume, rfl⟩ := loop_eq_some h
  cases hpc : s.pc with
  | wait => exact absurd hpc hwait
  | event e todo => exact absurd hpc (hevent e todo)
  | accepted fd e todo =>
      rw [hpc] at hserve hresume
      cases c with
      | ctl ok =>
          cases ok with
          | true =>
              simp only [LoopPc.call, Server.serve] at hserve
              -- `epoll_ctl` succeeds only for a descriptor that is open
              split at hserve
              · rename_i hopen
                cases hserve
                cases hresume
                have hmove : Move cfg s _ _ := .register fd e todo hpc hopen
                simpa [hpc, called, finished, Server.modify] using hmove
              · cases hserve
          | false =>
              cases hserve
              cases hresume
              have hmove : Move cfg s _ _ := .registerFails fd e todo hpc
              simpa [hpc, called, LoopPc.current] using hmove
      | _ => cases hserve
  | registered fd e todo =>
      rw [hpc] at hserve hresume
      cases c with
      | go =>
          cases hserve
          cases hadd : addNewConnection cfg.order s.proc fd with
          | blocked p =>
              -- the mutex is held: the loop does not come back from the call
              simp only [resume, hadd] at hresume
              cases hresume
              have hmove : Move cfg s _ _ := .block fd e todo _ hpc hadd
              simpa [hpc, called, finished] using hmove
          | returned p u =>
              simp only [resume, hadd] at hresume
              cases hresume
              have hmove : Move cfg s _ _ := .count fd e todo _ hpc hadd
              simpa [hpc, called, LoopPc.current] using hmove
      | _ => cases hserve
  | received addr args src e todo =>
      rw [hpc] at hserve hresume
      cases c with
      | go =>
          cases hserve
          cases hresume
          have hmove : Move cfg s _ _ := .submit addr args src e todo hpc
          simpa [hpc, called, finished] using hmove
      | _ => cases hserve
  | submitted fd src e todo =>
      rw [hpc] at hserve hresume
      cases c with
      | ctl ok =>
          cases ok with
          | true =>
              simp only [LoopPc.call, Server.serve] at hserve
              split at hserve
              · rename_i hopen
                cases hserve
                cases hresume
                have hmove : Move cfg s _ _ := .rearm fd src e todo hpc hopen
                simpa [hpc, called, LoopPc.current, Server.modify] using hmove
              · cases hserve
          | false =>
              cases hserve
              cases hresume
              have hmove : Move cfg s _ _ := .rearmFails fd src e todo hpc
              simpa [hpc, called, LoopPc.current] using hmove
      | _ => cases hserve
  | blocked e todo =>
      rw [hpc] at hresume
      -- nothing answers a loop that waits for the mutex
      cases reply <;> cases hresume

/-- A job goes on with an event, with a call, or is finished. -/
theorem move_of_work {w : Nat} {ρ : Residue} (h : s.work w ρ = some s') :
    Move cfg s (.work w ρ) s' := by
  unfold Server.work at h
  cases hx : s.workers[w]? with
  | none => simp [hx] at h
  | some x =>
      cases htodo : x.todo with
      | cons e todo =>
          simp only [hx, htodo] at h
          cases h
          exact .perform w ρ x e todo hx htodo
      | nil =>
          cases hnext : x.next with
          | some args =>
              simp only [hx, htodo, hnext] at h
              cases h
              exact .call w ρ x args hx htodo hnext
          | none =>
              simp only [hx, htodo, hnext] at h
              cases h
              exact .retire w ρ x hx htodo hnext

/-- **Every step is one of the moves.** -/
theorem move_of_step {a : Act} (h : s.step cfg a = some s') : Move cfg s a s' := by
  unfold Server.step at h
  by_cases hc : s.crashed
  · simp [hc] at h
  rw [if_neg hc] at h
  cases a with
  | connect =>
      cases h
      exact .connect
  | traffic conn t =>
      by_cases hknown : s.Knows conn
      · simp only [hknown, if_true] at h
        cases h
        exact .traffic conn t hknown
      · simp [hknown] at h
  | loop c =>
      cases hpc : s.pc with
      | wait => exact move_of_wait hpc h
      | event e todo => exact move_of_event hpc h
      | _ => exact move_of_inside (by simp [hpc]) (by simp [hpc]) h
  | take k =>
      simp only [Server.take] at h
      cases hjob : s.queue[k]? with
      | none => simp [hjob] at h
      | some job =>
          simp only [hjob] at h
          cases h
          exact .take k job hjob
  | work w ρ => exact move_of_work h

end Inversion

end SensorServer.System
