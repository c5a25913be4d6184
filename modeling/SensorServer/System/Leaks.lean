/-
  SensorServer.System.Leaks — which blocks are never freed.

  Every event costs a `th_args` before its kind is known.  The hang-up branch frees it, and a
  job frees the one it was handed on some of its ways out; every other way out of the loop body
  forgets it.  The first event of a run is always one of the listening socket, so from the
  first event on a block is lost: `leak_free_iff`.
-/
import SensorServer.System.Identity

namespace SensorServer.System

open SensorServer.Framework
open SensorServer.Parser (Event)
open SensorServer.Table
open SensorServer.Loop

/-! ## §1. Blocks of the process. -/

/-- The block at `a` is allocated and no slot of the table has it. -/
structure Unowned (p : Proc) (a : Nat) : Prop where
  live : a ∈ p.live
  old : a < p.fresh
  slot : ∀ i c, p.connections i = some c → c.addr ≠ a

namespace Unowned

variable {p : Proc} {a : Nat}

theorem malloc (h : Unowned p a) : Unowned p.malloc.2 a where
  live := List.mem_cons_of_mem _ h.live
  old := Nat.lt_succ_of_lt h.old
  slot := h.slot

theorem free (h : Unowned p a) {b : Nat} (hne : b ≠ a) : Unowned (p.free b) a where
  live := (List.mem_erase_of_ne hne.symm).mpr h.live
  old := h.old
  slot := h.slot

theorem store (h : Unowned p a) (i : Nat) {c : Option Connection}
    (hc : ∀ d, c = some d → d.addr ≠ a) : Unowned (p.store i c) a where
  live := h.live
  old := h.old
  slot := by
    intro j d hd
    replace hd : setSlot p.connections i c j = some d := hd
    unfold setSlot at hd
    split at hd
    · exact hc d hd
    · exact h.slot j d hd

theorem setCount (h : Unowned p a) (g : UInt32) :
    Unowned { p with global_connection_id := g } a :=
  ⟨h.live, h.old, h.slot⟩

theorem setMutex (h : Unowned p a) (b : Bool) : Unowned { p with mutex_locked := b } a :=
  ⟨h.live, h.old, h.slot⟩

theorem epollDelFd (h : Unowned p a) (fd : Int) : Unowned (Table.epollDelFd p fd) a := by
  rw [epollDelFd_eq]
  exact (h.store _ fun _ hd => by cases hd).setCount _

/-- A new connection has a block of its own, and its caller may be left waiting. -/
theorem newConnection (h : Unowned p a) (socket : Int) {p' : Proc} :
    (Table.newConnection p socket = .blocked p' → Unowned p' a)
      ∧ ∀ c, Table.newConnection p socket = .returned p' c →
          Unowned p' a ∧ ∀ d, c = some d → d.addr ≠ a := by
  -- the block of the connection comes from the allocator, after the one that is lost
  have hcounted : Unowned
      ({ p with global_connection_id := p.global_connection_id + 1 } : Proc).malloc.2 a :=
    (h.setCount _).malloc
  unfold Table.newConnection Proc.malloc
  cases hmutex : p.mutex_locked with
  | true =>
      simp only [if_true]
      refine ⟨fun hcall => ?_, fun c hcall => by cases hcall⟩
      cases hcall
      have hheld := hcounted.setMutex true
      exact hheld
  | false =>
      by_cases hfull : p.global_connection_id + 1 > maxConnections
      · simp only [hfull, if_true, if_false, Bool.false_eq_true]
        refine ⟨fun hcall => (by cases hcall), fun c hcall => ?_⟩
        cases hcall
        exact ⟨hcounted.setMutex true, fun d hd => by cases hd⟩
      · simp only [hfull, if_false, Bool.false_eq_true]
        refine ⟨fun hcall => (by cases hcall), fun c hcall => ?_⟩
        cases hcall
        refine ⟨hcounted.setMutex false, fun d hd => ?_⟩
        cases hd
        exact Nat.ne_of_gt h.old

theorem addNewConnection (h : Unowned p a) {order : IndexRead} {socket : Int} {p' : Proc} :
    (Table.addNewConnection order p socket = .blocked p' → Unowned p' a)
      ∧ (Table.addNewConnection order p socket = .returned p' () → Unowned p' a) := by
  unfold Table.addNewConnection
  cases hcall : Table.newConnection p socket with
  | blocked q =>
      refine ⟨fun heq => ?_, fun heq => by cases heq⟩
      cases heq
      exact (h.newConnection socket).1 hcall
  | returned q c =>
      obtain ⟨hq, hc⟩ := (h.newConnection socket).2 c hcall
      cases order with
      | before =>
          refine ⟨fun heq => (by cases heq), fun heq => ?_⟩
          cases heq
          exact hq.store _ hc
      | after =>
          refine ⟨fun heq => (by cases heq), fun heq => ?_⟩
          cases heq
          exact hq.store _ hc

end Unowned

/-- The blocks still allocated are the connections of the slots in use. -/
def LeakFree (p : Proc) : Prop := ∀ a, a ∈ p.live ↔ ∃ i c, p.connections i = some c ∧ c.addr = a

theorem Unowned.not_leakFree {p : Proc} {a : Nat} (h : Unowned p a) : ¬ LeakFree p := by
  intro hfree
  obtain ⟨i, c, hc, haddr⟩ := (hfree a).mp h.live
  exact h.slot i c hc haddr

/-! ## §2. Lost blocks. -/

/-- The block the loop is about to hand over. -/
def heldBlock : LoopPc Tag → Option Nat
  | .received addr _ _ _ _ => some addr
  | _ => none

@[simp] theorem heldBlock_next (todo : List (EpollEvent × Tag)) :
    heldBlock (.next todo) = none := by
  cases todo <;> rfl

namespace Server

/-- Nothing in the process will ever free the block at `a`. -/
structure Lost (s : Server) (a : Nat) : Prop where
  unowned : Unowned s.proc a
  queued : ∀ job ∈ s.queue, job.addr ≠ a
  taken : ∀ x ∈ s.workers, x.job.addr ≠ a
  held : ∀ b, heldBlock s.pc = some b → b ≠ a

namespace Lost

variable {cfg : Config} {s s' : Server} {a : Nat}

/-- Steps that hand over nothing. -/
theorem keep (h : s.Lost a) (hproc : Unowned s'.proc a) (hqueue : s'.queue = s.queue)
    (hworkers : s'.workers = s.workers)
    (hheld : heldBlock s'.pc = none ∨ heldBlock s'.pc = heldBlock s.pc) : s'.Lost a where
  unowned := hproc
  queued := hqueue ▸ h.queued
  taken := hworkers ▸ h.taken
  held := by
    intro b hb
    rcases hheld with hnone | hsame
    · rw [hnone] at hb
      cases hb
    · exact h.held b (hsame ▸ hb)

/-- Steps of the `w`-th job. -/
theorem set (h : s.Lost a) {w : Nat} {x y : Worker} (hx : s.workers[w]? = some x)
    (hjob : y.job = x.job) (hproc : Unowned s'.proc a) (hqueue : s'.queue = s.queue)
    (hworkers : s'.workers = s.workers.set w y) (hpc : s'.pc = s.pc) : s'.Lost a where
  unowned := hproc
  queued := hqueue ▸ h.queued
  taken := by
    intro z hz
    rw [hworkers] at hz
    rcases List.mem_or_eq_of_mem_set hz with hz | rfl
    · exact h.taken z hz
    · rw [hjob]
      exact h.taken x (List.mem_of_getElem? hx)
  held := by
    rw [hpc]
    exact h.held

theorem step {act : Act} (h : s.Lost a) (hs : s.step cfg act = some s') : s'.Lost a := by
  cases move_of_step hs with
  -- the peers
  | connect | traffic => exact h.keep h.unowned rfl rfl (.inr rfl)
  -- the event loop
  | wait reports hpc hlen hnodup => exact h.keep h.unowned rfl rfl (.inl (heldBlock_next _))
  | refuse e todo hpc hb => exact h.keep h.unowned.malloc rfl rfl (.inl (heldBlock_next _))
  | accept e todo fd k backlog hpc hb hbacklog hfd hlisten hfresh =>
      exact h.keep h.unowned.malloc rfl rfl (.inl rfl)
  | register fd e todo hpc hopen => exact h.keep h.unowned rfl rfl (.inl rfl)
  | registerFails fd e todo hpc => exact h.keep h.unowned rfl rfl (.inl (heldBlock_next _))
  | count fd e todo proc hpc hadd =>
      exact h.keep (h.unowned.addNewConnection.2 hadd) rfl rfl (.inl (heldBlock_next _))
  | block fd e todo proc hpc hadd =>
      exact h.keep (h.unowned.addNewConnection.1 hadd) rfl rfl (.inl rfl)
  | hangup e todo hpc hb =>
      -- the block that is freed is the one of this event
      have hproc := (h.unowned.malloc.epollDelFd e.1.fd).free (Nat.ne_of_gt h.unowned.old)
      exact h.keep hproc rfl rfl (.inl (heldBlock_next _))
  | readNothing e todo n hpc hb hn => exact h.keep h.unowned.malloc rfl rfl (.inl rfl)
  | read e todo n c hpc hb hc hfd hn hlen hunread =>
      refine ⟨h.unowned.malloc, h.queued, h.taken, fun b hb => ?_⟩
      cases hb
      exact Nat.ne_of_gt h.unowned.old
  | skip e todo hpc hb => exact h.keep h.unowned.malloc rfl rfl (.inl (heldBlock_next _))
  | submit addr args src e todo hpc =>
      refine ⟨h.unowned, fun job hjob => ?_, h.taken, fun b hb => by cases hb⟩
      rcases List.mem_append.mp hjob with hjob | hjob
      · exact h.queued job hjob
      · rw [List.mem_singleton] at hjob
        rw [hjob]
        exact h.held addr (by rw [hpc]; rfl)
  | rearm fd src e todo hpc hopen => exact h.keep h.unowned rfl rfl (.inl (heldBlock_next _))
  | rearmFails fd src e todo hpc => exact h.keep h.unowned rfl rfl (.inl (heldBlock_next _))
  -- the workers
  | take k job hjob =>
      refine ⟨h.unowned, fun j hj => h.queued j (List.mem_of_mem_eraseIdx hj), fun x hx => ?_,
        h.held⟩
      rcases List.mem_append.mp hx with hx | hx
      · exact h.taken x hx
      · rw [List.mem_singleton] at hx
        rw [hx]
        exact h.queued job (List.mem_of_getElem? hjob)
  | perform w ρ x e todo hx htodo =>
      refine h.set (y := ⟨x.job, todo, x.next⟩) hx rfl ?_ (s.perform_queue _ e) rfl
        (s.perform_pc _ e)
      cases e with
      | freeArgs => exact h.unowned.free (h.taken x (List.mem_of_getElem? hx))
      | _ => exact h.unowned
  | call w ρ x args hx htodo hnext =>
      exact h.set (y := x.job.call ρ args) hx rfl h.unowned rfl rfl rfl
  | retire w ρ x hx htodo hnext =>
      exact ⟨h.unowned, h.queued, fun y hy => h.taken y (List.mem_of_mem_eraseIdx hy), h.held⟩

end Lost

/-! ## §3. Before the first event, and after. -/

/-- No event has been looked at yet. -/
structure Untouched (s : Server) : Prop where
  proc : s.proc = .init
  clients : s.clients = []
  queue : s.queue = []
  workers : s.workers = []
  log : ∀ x, .handled x ∉ s.log
  pc : s.pc = .wait ∨ ∃ e todo, s.pc = .event e todo
  /-- Without clients, only the listening socket is reported. -/
  tags : ∀ x ∈ s.pc.events, x.2 = none

/-- No event has been looked at, or a block is lost; and the loop comes back to `epoll_wait`
only behind an event it has handled. -/
def Lossy (s : Server) : Prop :=
  s.Untouched ∨ ((∃ a, s.Lost a) ∧ (s.pc = .wait → ∃ x, .handled x ∈ s.log))

namespace Untouched

variable {cfg : Config} {s s' : Server}

theorem init : Server.init.Untouched where
  proc := rfl
  clients := rfl
  queue := rfl
  workers := rfl
  log := fun _ hx => absurd hx List.not_mem_nil
  pc := .inl rfl
  tags := fun _ hx => absurd hx List.not_mem_nil

/-- The argument block of the first event is lost unless it is freed or handed over. -/
theorem loses (h : s.Untouched) (hproc : s'.proc = s.proc.malloc.2) (hqueue : s'.queue = s.queue)
    (hworkers : s'.workers = s.workers) (hheld : heldBlock s'.pc = none) :
    s'.Lost s.proc.fresh where
  unowned := by
    rw [hproc, h.proc]
    refine ⟨List.mem_cons_self, Nat.lt_succ_self _, fun i c hc => ?_⟩
    cases hc
  queued := by
    rw [hqueue, h.queue]
    exact fun _ hjob => absurd hjob List.not_mem_nil
  taken := by
    rw [hworkers, h.workers]
    exact fun _ hx => absurd hx List.not_mem_nil
  held := by
    rw [hheld]
    intro b hb
    cases hb

/-- The first event is one of the listening socket: no hang-up, and not read from. -/
theorem branch_listen (h : s.Untouched) (hid : s.Identified cfg) {e : EpollEvent × Tag}
    {todo : List (EpollEvent × Tag)} (hpc : s.pc = .event e todo) :
    branch cfg.listen_socket e.1 ≠ .epollDelFd ∧ branch cfg.listen_socket e.1 ≠ .recv := by
  have he : e ∈ s.pc.events := by
    rw [hpc]
    exact List.mem_cons_self
  obtain ⟨hfd, hno⟩ := hid.listened e he (h.tags e he)
  constructor
  · intro hb
    exact hno (branch_eq_epollDelFd.mp hb).2.2
  · intro hb
    obtain ⟨hlisten, -, -, hin⟩ := branch_eq_recv.mp hb
    exact hlisten ⟨hfd, hin⟩

/-- Steps that look at no event. -/
theorem keep (h : s.Untouched) (hproc : s'.proc = s.proc) (hclients : s'.clients = [])
    (hqueue : s'.queue = s.queue) (hworkers : s'.workers = s.workers)
    (hlog : ∀ x, .handled x ∈ s'.log → .handled x ∈ s.log) (hpc : s'.pc = s.pc) :
    s'.Untouched where
  proc := hproc.trans h.proc
  clients := hclients
  queue := hqueue.trans h.queue
  workers := hworkers.trans h.workers
  log := fun x hx => h.log x (hlog x hx)
  pc := hpc ▸ h.pc
  tags := hpc ▸ h.tags

theorem step {act : Act} (h : s.Untouched) (hid : s.Identified cfg)
    (hs : s.step cfg act = some s') : s'.Lossy := by
  have hnotAt : ∀ {pc : LoopPc Tag}, s.pc = pc → pc ≠ .wait → (∀ e todo, pc ≠ .event e todo) →
      s'.Lossy := by
    intro pc hpc hwait hevent
    rcases h.pc with h' | ⟨e, todo, h'⟩
    · exact absurd (hpc.symm.trans h') hwait
    · exact absurd (hpc.symm.trans h') (hevent e todo)
  have hidle : ∀ {w : Nat} {x : Worker}, s.workers[w]? = some x → s'.Lossy := by
    intro w x hx
    rw [h.workers] at hx
    cases hx
  cases move_of_step hs with
  -- the peers
  | connect => exact .inl (h.keep rfl h.clients rfl rfl (fun _ hx => hx) rfl)
  | traffic conn t hknown =>
      refine .inl (h.keep rfl ?_ rfl rfl (fun x hx => ?_) rfl)
      · show s.clients.map _ = []
        rw [h.clients, List.map_nil]
      · rcases List.mem_append.mp hx with hx | hx
        · exact hx
        · cases t <;> simp at hx
  -- the event loop
  | wait reports hpc hlen hnodup =>
      refine .inl ⟨h.proc, ?_, h.queue, h.workers, h.log, ?_, fun x hx => ?_⟩
      · show s.clients.map _ = []
        rw [h.clients, List.map_nil]
      · show LoopPc.next _ = .wait ∨ _
        cases reports.filterMap (s.report cfg) with
        | nil => exact .inl rfl
        | cons e todo => exact .inr ⟨e, todo, rfl⟩
      · rw [LoopPc.events_next] at hx
        obtain ⟨r, -, hr⟩ := List.mem_filterMap.mp hx
        rcases report_eq_some hr with ⟨-, rfl, -⟩ | ⟨c, hc, -⟩
        · rfl
        · rw [h.clients] at hc
          exact absurd hc List.not_mem_nil
  | refuse e todo hpc hb =>
      refine .inr ⟨⟨_, h.loses rfl rfl rfl (heldBlock_next _)⟩, fun _ => ⟨e, ?_⟩⟩
      exact List.mem_append_right _ List.mem_cons_self
  | accept e todo fd k backlog hpc hb hbacklog hfd hlisten hfresh =>
      exact .inr ⟨⟨_, h.loses rfl rfl rfl rfl⟩, fun hwait => by cases hwait⟩
  | skip e todo hpc hb =>
      refine .inr ⟨⟨_, h.loses rfl rfl rfl (heldBlock_next _)⟩, fun _ => ⟨e, ?_⟩⟩
      exact List.mem_append_right _ List.mem_cons_self
  | hangup e todo hpc hb => exact absurd hb (h.branch_listen hid hpc).1
  | readNothing e todo n hpc hb hn => exact absurd hb (h.branch_listen hid hpc).2
  | read e todo n c hpc hb hc hfd hn hlen hunread => exact absurd hb (h.branch_listen hid hpc).2
  | register fd e todo hpc | registerFails fd e todo hpc | count fd e todo proc hpc
  | block fd e todo proc hpc | submit addr args src e todo hpc | rearm fd src e todo hpc
  | rearmFails fd src e todo hpc =>
      exact hnotAt hpc (by intro h'; cases h') (by intro e' todo' h'; cases h')
  -- the workers
  | take k job hjob =>
      rw [h.queue] at hjob
      cases hjob
  | perform w ρ x e todo hx | call w ρ x args hx | retire w ρ x hx => exact hidle hx

end Untouched

/-- The loop comes to `epoll_wait` behind an event it has handled, or was there before. -/
theorem handled_of_wait {cfg : Config} {s s' : Server} {act : Act}
    (hs : s.step cfg act = some s') (hwait : s'.pc = .wait)
    (hbefore : s.pc = .wait → ∃ x, .handled x ∈ s.log) : ∃ x, .handled x ∈ s'.log := by
  have hnew : ∀ (log : List Obs) (e : EpollEvent × Tag), ∃ x, Obs.handled x ∈ log ++ [.handled e] :=
    fun log e => ⟨e, List.mem_append_right _ List.mem_cons_self⟩
  have hold : ∀ log : List Obs, s.pc = .wait → ∃ x, Obs.handled x ∈ s.log ++ log := by
    intro log h
    obtain ⟨x, hx⟩ := hbefore h
    exact ⟨x, List.mem_append_left _ hx⟩
  cases move_of_step hs with
  | connect | take | call | retire => exact hbefore hwait
  | traffic => exact hold _ hwait
  | wait reports hpc => exact hbefore hpc
  | perform w ρ x e todo hx htodo =>
      rw [s.perform_log]
      exact hbefore ((s.perform_pc x.job.addr e).symm.trans hwait)
  | accept | register | block | read | submit => cases hwait
  | hangup e todo hpc hb => exact ⟨e, List.mem_append_right _ (by simp)⟩
  | refuse e | registerFails _ e | count _ e | readNothing e | skip e | rearm _ _ e
  | rearmFails _ _ e => exact hnew _ e

/-- In every reachable state, whatever the guard of the runs. -/
theorem lossy_of_reach {cfg : Config} {s : Server} {ok : Server → Act → Prop}
    (hreach : Reach (step cfg) ok .init s) : s.Lossy := by
  refine hreach.invariant (P := Lossy) (.inl .init) ?_
  rintro t act t' ht (h | ⟨⟨a, h⟩, hwait⟩) - hs
  · exact h.step (identified_of_reach ht) hs
  · exact .inr ⟨⟨a, h.step hs⟩, fun hpc => handled_of_wait hs hpc hwait⟩

end Server

/-! ## §4. The theorem. -/

/-- **Leaks.**  In every run, whatever the kernel, the peers and the workers do: in a state
with no batch in progress, jobs queued or running or not, the blocks still allocated are the
connections of the slots in use exactly when no event has been handled. -/
theorem leak_free_iff (cfg : Config) {s : Server}
    (hreach : Reach (Server.step cfg) (fun _ _ => True) .init s) (hpc : s.pc = .wait) :
    LeakFree s.proc ↔ ∀ x, .handled x ∉ s.log := by
  rcases Server.lossy_of_reach hreach with h | ⟨⟨a, h⟩, hhandled⟩
  · refine ⟨fun _ => h.log, fun _ a => ?_⟩
    rw [h.proc]
    refine ⟨fun ha => absurd ha List.not_mem_nil, ?_⟩
    rintro ⟨i, c, hc, -⟩
    cases hc
  · obtain ⟨x, hx⟩ := hhandled hpc
    exact ⟨fun hfree => absurd hfree h.unowned.not_leakFree, fun hnone => absurd hx (hnone x)⟩

/-- One connection is accepted, and one event was handled. -/
theorem leak_free_one :
    ∃ s, execute (Server.step ⟨3, .after⟩) (fun _ _ => True)
        .init [.connect, .loop (.ready [(none, { epollin := true })]),
          .loop (.accept (some 5)), .loop (.ctl true), .loop .go] = some s
      ∧ (LeakFree s.proc ↔ ∀ x, .handled x ∉ s.log) := by
  apply execute_reaches (P := fun s : Server => s.pc = .wait) (by decide)
  intro s hreach hpc
  exact leak_free_iff ⟨3, .after⟩ hreach hpc

/-- The argument block of the first accepted connection is lost. -/
theorem accept_leaks :
    ∃ s, execute (Server.step ⟨3, .after⟩) (fun _ _ => True)
        .init [.connect, .loop (.ready [(none, { epollin := true })]),
          .loop (.accept (some 5)), .loop (.ctl true), .loop .go] = some s
      ∧ s.pc = .wait ∧ s.queue = [] ∧ s.workers = [] ∧ ¬ LeakFree s.proc := by
  apply execute_reaches (P := fun s : Server => (s.pc = .wait ∧ s.queue = [] ∧ s.workers = [])
    ∧ .handled (⟨3, { epollin := true }⟩, none) ∈ s.log) (by decide)
  rintro s hreach ⟨⟨hpc, hqueue, hworkers⟩, hhandled⟩
  refine ⟨hpc, hqueue, hworkers, ?_⟩
  rcases Server.lossy_of_reach hreach with h | ⟨⟨a, h⟩, -⟩
  · exact absurd hhandled (h.log _)
  · exact h.unowned.not_leakFree

end SensorServer.System
