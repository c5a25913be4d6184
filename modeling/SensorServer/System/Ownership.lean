/-
  SensorServer.System.Ownership — whose descriptor a job acts on.

  A job carries a descriptor number, not a connection.  While it is queued or runs, the loop
  may close the socket behind the number, and the kernel may give the number to the next
  connection; and a job with a short chunk reads the number from the block it has just freed.
  `jobs_act_on_own` says that these two are the only ways to another client: as long as
  numbers of active jobs are not given away, and the freed block still holds the number, every
  send and every close is for the connection the bytes came from.
-/
import SensorServer.Parser.Effects
import SensorServer.System.Departure

namespace SensorServer.System

open SensorServer.Framework
open SensorServer.Parser (ThArgs Event Residue call_targets call_next)
open SensorServer.Loop

/-! ## §1. Unfinished jobs. -/

/-- The worker may still send or close. -/
def Worker.Active (x : Worker) : Prop :=
  (∃ e ∈ x.todo, e.target.isSome = true) ∨ ∃ args ∈ x.next, args.Speaks

instance : DecidablePred Worker.Active := fun _ => instDecidableOr

namespace Server

/-- The jobs that are not finished, those still queued as their workers will find them. -/
def unfinished (s : Server) : List Worker := s.queue.map Job.start ++ s.workers

theorem mem_unfinished_of_worker {s : Server} {w : Nat} {x : Worker}
    (hx : s.workers[w]? = some x) : x ∈ s.unfinished :=
  List.mem_append_right _ (List.mem_of_getElem? hx)

/-- `accept` returns no number an active job works on, and a short chunk finds the number of
its socket in the freed block. -/
def Unmixed (s : Server) : Act → Prop
  | .loop (.accept (some fd)) => ∀ x ∈ s.unfinished, x.Active → x.job.args.socket_fd ≠ fd
  | .work w ρ => ∀ x ∈ s.workers[w]?, x.todo = [] → ∀ args ∈ x.next, args.recv_len < 4 →
      ρ.freed_socket_fd = args.socket_fd
  | _ => True

instance (s : Server) : DecidablePred s.Unmixed
  | .loop (.accept (some fd)) =>
      inferInstanceAs (Decidable (∀ x ∈ s.unfinished, x.Active → x.job.args.socket_fd ≠ fd))
  | .work w ρ => inferInstanceAs (Decidable (∀ x ∈ s.workers[w]?, x.todo = [] →
      ∀ args ∈ x.next, args.recv_len < 4 → ρ.freed_socket_fd = args.socket_fd))
  | .loop (.accept none) | .loop (.ready _) | .loop (.ctl _) | .loop (.recv _) | .loop .go
  | .connect | .traffic _ _ | .take _ => .isTrue trivial

/-- What a job is about to act on is the socket its bytes were read from: the number is the
one they came with, and if it is open it is still that connection's. -/
def ActsOnOwn (s : Server) : Prop :=
  ∀ x ∈ s.workers, ∀ e ∈ x.todo.head?, ∀ fd ∈ e.target,
    fd = x.job.args.socket_fd ∧ ∀ c ∈ s.clients, c.fd = fd → x.job.conn = some c.conn

instance (s : Server) : Decidable s.ActsOnOwn := by
  unfold ActsOnOwn
  infer_instance

/-! ## §2. The invariant. -/

/-- The numbers of a job are all the one its bytes came with, and while it is active no other
connection has that number. -/
structure Reserves (s : Server) (x : Worker) : Prop where
  targets : ∀ e ∈ x.todo, ∀ fd, e.target = some fd → fd = x.job.args.socket_fd
  next : ∀ args, x.next = some args → args.socket_fd = x.job.args.socket_fd
  owner : x.Active → ∀ k ∈ s.keys, k.2 = x.job.args.socket_fd → x.job.conn = some k.1

section Reserves

variable {s s' : Server} {x : Worker}

theorem Reserves.mono (h : s.Reserves x) (hkeys : ∀ k ∈ s'.keys, k ∈ s.keys) : s'.Reserves x where
  targets := h.targets
  next := h.next
  owner := fun hactive k hk => h.owner hactive k (hkeys k hk)

/-- A job that has performed an event. -/
theorem Reserves.perform (h : s.Reserves x) {e : Event} {todo : List Event}
    (htodo : x.todo = e :: todo) : s.Reserves ⟨x.job, todo, x.next⟩ where
  targets := by
    intro e' he'
    refine h.targets e' ?_
    rw [htodo]
    exact List.mem_cons_of_mem e he'
  next := h.next
  owner := by
    intro hactive
    apply h.owner
    unfold Worker.Active at hactive ⊢
    rw [htodo]
    exact hactive.imp_left fun ⟨e', he', htarget⟩ => ⟨e', List.mem_cons_of_mem e he', htarget⟩

/-- A job that begins a call with the number of its socket in the block, freed or not. -/
theorem Reserves.call (h : s.Reserves x) {args : ThArgs} (hnext : x.next = some args) {ρ : Residue}
    (hfreed : args.recv_len < 4 → ρ.freed_socket_fd = args.socket_fd) :
    s.Reserves (x.job.call ρ args) where
  targets := by
    intro e he fd hfd
    have hown := (call_targets hfreed e he fd hfd).2
    exact hown.trans (h.next args hnext)
  next := by
    intro args' hnext'
    exact (call_next hnext').2.trans (h.next args hnext)
  owner := by
    intro hactive
    refine h.owner (.inr ⟨args, hnext, ?_⟩)
    -- a call that acts, or goes on, is one of a block that speaks
    rcases hactive with ⟨e, he, htarget⟩ | ⟨args', hnext', -⟩
    · obtain ⟨fd, hfd⟩ := Option.isSome_iff_exists.mp htarget
      exact (call_targets hfreed e he fd hfd).1
    · exact (call_next hnext').1

end Reserves

/-- Every unfinished job has its number to itself. -/
def Reserved (s : Server) : Prop := ∀ x ∈ s.unfinished, s.Reserves x

namespace Reserved

variable {cfg : Config} {s s' : Server}

theorem init : Server.init.Reserved := fun _ hx => absurd hx List.not_mem_nil

/-- What a step that opens no socket must show of the jobs it changes. -/
theorem extend (h : s.Reserved) (hkeys : s'.keys.Sublist s.keys)
    (hjobs : ∀ x ∈ s'.unfinished, x ∈ s.unfinished ∨ s.Reserves x) : s'.Reserved := by
  intro x hx
  rcases hjobs x hx with hold | hnew
  · exact (h x hold).mono fun k hk => hkeys.subset hk
  · exact hnew.mono fun k hk => hkeys.subset hk

/-- Steps that touch no job. -/
theorem keep (h : s.Reserved) (hkeys : s'.keys.Sublist s.keys)
    (hjobs : s'.unfinished = s.unfinished) : s'.Reserved :=
  h.extend hkeys fun _ hx => .inl (hjobs ▸ hx)

/-- A new socket gets no number of an active job. -/
theorem accept (h : s.Reserved) {conn : Nat} {fd : Int}
    (hfresh : ∀ x ∈ s.unfinished, x.Active → x.job.args.socket_fd ≠ fd)
    (hkeys : s'.keys = s.keys ++ [(conn, fd)]) (hjobs : s'.unfinished = s.unfinished) :
    s'.Reserved := by
  intro x hx
  rw [hjobs] at hx
  refine ⟨(h x hx).targets, (h x hx).next, fun hactive k hk hfd => ?_⟩
  rw [hkeys, List.mem_append, List.mem_singleton] at hk
  rcases hk with hk | rfl
  · exact (h x hx).owner hactive k hk hfd
  · exact absurd hfd.symm (hfresh x hx hactive)

/-- A job that goes on. -/
theorem set (h : s.Reserved) {w : Nat} {x : Worker} (hkeys : s'.keys.Sublist s.keys)
    (hqueue : s'.queue = s.queue) (hworkers : s'.workers = s.workers.set w x)
    (hx : s.Reserves x) : s'.Reserved := by
  refine h.extend hkeys fun y hy => ?_
  unfold unfinished at hy
  rw [hqueue, hworkers, List.mem_append] at hy
  rcases hy with hy | hy
  · exact .inl (List.mem_append_left _ hy)
  · rcases List.mem_or_eq_of_mem_set hy with hy | rfl
    · exact .inl (List.mem_append_right _ hy)
    · exact .inr hx

theorem step {a : Act} (h : s.Reserved) (hwatch : s.Watching) (hok : s.Unmixed a)
    (hs : s.step cfg a = some s') : s'.Reserved := by
  cases move_of_step hs with
  | connect | refuse | registerFails | count | block | readNothing | skip | rearmFails =>
      exact h.keep (.refl _) rfl
  | traffic conn t hknown => exact h.keep (s.keys_modify_sublist _ (Client.receive_key t)) rfl
  | wait => exact h.keep (s.keys_modify_sublist _ Client.reported_key) rfl
  | accept e todo fd k backlog hpc hb hbacklog hfd hlisten hfresh =>
      exact h.accept hok List.map_append rfl
  | register | rearm => exact h.keep (s.keys_modify_sublist _ (Client.register_key _)) rfl
  | hangup => exact h.keep (s.keys_closeFd_sublist _) rfl
  | read e todo n c hpc hb hc hfd hn hlen hunread =>
      exact h.keep (s.keys_modify_sublist _ (Client.read_key n)) rfl
  | submit addr args src e todo hpc =>
      refine h.extend (.refl _) fun x hx => ?_
      unfold unfinished at hx ⊢
      rw [List.map_append, List.map_singleton, List.append_assoc, List.mem_append, List.mem_append,
        List.mem_singleton] at hx
      rcases hx with hx | rfl | hx
      · exact .inl (List.mem_append_left _ hx)
      · right
        refine ⟨fun _ he => absurd he List.not_mem_nil, fun args' hargs => ?_, fun _ k hk hfd => ?_⟩
        · rw [← Option.some.inj hargs]
          rfl
        · -- the number still belongs to the client that was read
          obtain ⟨c, hc, rfl⟩ := List.mem_map.mp hk
          exact hwatch.hand (args.socket_fd, src.map (·.conn)) (by rw [hpc]; rfl) c hc hfd
      · exact .inl (List.mem_append_right _ hx)
  -- the workers
  | take k job hjob =>
      refine h.extend (.refl _) fun x hx => .inl ?_
      unfold unfinished at hx ⊢
      rw [List.mem_append] at hx ⊢
      rcases hx with hx | hx
      · obtain ⟨job', hjob', rfl⟩ := List.mem_map.mp hx
        exact .inl (List.mem_map_of_mem (List.mem_of_mem_eraseIdx hjob'))
      · rcases List.mem_append.mp hx with hx | hx
        · exact .inr hx
        · rw [List.mem_singleton] at hx
          exact .inl (hx ▸ List.mem_map_of_mem (List.mem_of_getElem? hjob))
  | perform w ρ x e todo hx htodo =>
      refine h.set (s.keys_perform_sublist _ e) (s.perform_queue _ e) rfl ?_
      exact (h x (mem_unfinished_of_worker hx)).perform htodo
  | call w ρ x args hx htodo hnext =>
      refine h.set (.refl _) rfl rfl ?_
      exact (h x (mem_unfinished_of_worker hx)).call hnext (hok x hx htodo args hnext)
  | retire w ρ x hx htodo hnext =>
      refine h.extend (.refl _) fun y hy => .inl ?_
      unfold unfinished at hy ⊢
      rw [List.mem_append] at hy ⊢
      exact hy.imp_right List.mem_of_mem_eraseIdx

end Reserved

end Server

/-! ## §3. The theorem. -/

/-- **Replies and closes stay with their connection.**  In every run in which `accept` returns
no number an active job works on, and a short chunk finds the number of its socket in the freed
block, whatever a job is about to send on or close is the socket its bytes came from. -/
theorem jobs_act_on_own (cfg : Config) {s : Server}
    (hreach : Reach (Server.step cfg) Server.Unmixed .init s) : s.ActsOnOwn := by
  have hreserved : s.Reserved := by
    refine hreach.invariant (P := Server.Reserved) .init ?_
    intro t a t' ht hreserved hok hs
    exact hreserved.step (Server.watching_of_reach ht) hok hs
  intro x hx e he fd hfd
  have hreserves := hreserved x (List.mem_append_right _ hx)
  have hmem : e ∈ x.todo := List.mem_of_mem_head? he
  have hown := hreserves.targets e hmem fd hfd
  refine ⟨hown, fun c hc hcfd => ?_⟩
  have hactive : x.Active := .inl ⟨e, hmem, Option.isSome_iff_exists.mpr ⟨fd, hfd⟩⟩
  exact hreserves.owner hactive c.key (List.mem_map_of_mem hc) (hcfd.trans hown)

/-- A job about to answer a `PING`. -/
theorem jobs_act_on_own_ping :
    ∃ s, execute (Server.step ⟨3, .after⟩) Server.Unmixed
        .init ([.connect, .loop (.ready [(none, { epollin := true })]),
          .loop (.accept (some 5)), .loop (.ctl true), .loop .go,
          .traffic 0 (.data [83, 83, 80, 0]), .loop (.ready [(some 0, { epollin := true })]),
          .loop (.recv 4), .loop .go, .loop (.ctl true), .take 0]
          ++ List.replicate 6 (.work 0 (.strict 5))) = some s
      ∧ (∃ x ∈ s.workers, ∃ e ∈ x.todo.head?, e.target = some 5) ∧ s.ActsOnOwn := by
  apply execute_reaches
    (P := fun s : Server => ∃ x ∈ s.workers, ∃ e ∈ x.todo.head?, e.target = some 5) (by decide)
  intro s hreach hsend
  exact ⟨hsend, jobs_act_on_own ⟨3, .after⟩ hreach⟩

/-- Two runs in which a job of client `0` reaches client `1`: it closes the descriptor `6` it
reads from its freed block, and it answers on `5`, which was given away meanwhile. -/
theorem jobs_reach_another :
    (∃ s, execute (Server.step ⟨3, .after⟩) Server.Linux
        .init ([.connect, .loop (.ready [(none, { epollin := true })]),
          .loop (.accept (some 5)), .loop (.ctl true), .loop .go,
          .connect, .loop (.ready [(none, { epollin := true })]),
          .loop (.accept (some 6)), .loop (.ctl true), .loop .go,
          .traffic 0 (.data [83, 83, 80]), .loop (.ready [(some 0, { epollin := true })]),
          .loop (.recv 3), .loop .go, .loop (.ctl true), .take 0]
          ++ List.replicate 5 (.work 0 (.strict 6))) = some s ∧ ¬ s.ActsOnOwn)
    ∧ ∃ s, execute (Server.step ⟨3, .after⟩) Server.Linux
        .init ([.connect, .loop (.ready [(none, { epollin := true })]),
          .loop (.accept (some 5)), .loop (.ctl true), .loop .go,
          .traffic 0 (.data [83, 83, 80, 0]), .loop (.ready [(some 0, { epollin := true })]),
          .loop (.recv 4), .loop .go, .loop (.ctl true), .traffic 0 .rst,
          .loop (.ready [(some 0, { epollin := true, epollout := true, epollhup := true })]),
          .loop .go, .connect, .loop (.ready [(none, { epollin := true })]),
          .loop (.accept (some 5)), .take 0]
          ++ List.replicate 6 (.work 0 (.strict 5))) = some s ∧ ¬ s.ActsOnOwn :=
  ⟨exists_execute (P := fun s : Server => ¬ s.ActsOnOwn) (by decide),
    exists_execute (P := fun s : Server => ¬ s.ActsOnOwn) (by decide)⟩

end SensorServer.System
