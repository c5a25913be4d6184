/-
  SensorServer.System.Pooled — the server on the thread pool it is built with.

  `System.Server` takes of the pool that it runs every queued job once, on some worker, at some
  later time.  Here the loop and the jobs run on the pool of `Pool.ThreadPool`, with its locks,
  waits and accesses: the loop is one of its callers, `thpool_add_work` is called where the loop
  calls it, and `parse_packet` is what its workers run.  Every state this system reaches stands
  for one that `System.Server` reaches, in which jobs are taken in the order they were queued and
  no more of them are under way than there are workers (`pooled_serves`).
-/
import SensorServer.Framework.Roster
import SensorServer.Pool.Draining
import SensorServer.System.Answers

namespace SensorServer.System

open SensorServer.Framework
open SensorServer.Framework.Pthread (State viewed_of_step)
open SensorServer.Parser (ThArgs Event Residue parsePacketCall)
open SensorServer.Loop

/-! ## §1. The clients of the pool. -/

/-- Who runs beside the workers: the thread of `main`, and the kernel with the peers. -/
inductive Party where
  | main
  | kernel
  deriving Repr, DecidableEq

instance : Fintype Party := ⟨{.main, .kernel}, fun p => by cases p <;> decide⟩

/-- The choices: what arrives, how the kernel answers the loop, and what a call of
`parse_packet` finds in memory. -/
inductive Deed where
  | connect
  | traffic (conn : Nat) (t : Traffic)
  | loop (c : Choice)
  | work (ρ : Residue)

/-- What the loop and the kernel do. -/
def Deed.act : Deed → Option Act
  | .connect => some .connect
  | .traffic conn t => some (.traffic conn t)
  | .loop c => some (.loop c)
  | .work _ => none

namespace Server

/-- The server with more jobs in front of the queue, and others under way. -/
def within (s : Server) (queue : List Job) (workers : List Worker) : Server :=
  { s with queue := queue ++ s.queue, workers }

/-- The job the loop has queued goes to `thpool_add_work` instead. -/
def handing (s : Server) : Server × Pool.Call Job :=
  ({ s with queue := [] },
    match s.queue with
    | [] => .stay
    | job :: _ => .thpoolAddWork job)

/-- The `w`-th job has gone on, or is finished. -/
def goneOn (W : List Worker) (w : Nat) : Option Worker → List Worker
  | some x => W.set w x
  | none => W.eraseIdx w

/-- The only job under way has gone on. -/
def worked (s : Server) : Server × Option Worker := ({ s with workers := [] }, s.workers.head?)

end Server

variable (cfg : Config)

/-- The server as a client of the pool; its own queue and workers stay empty. -/
def serverClient : Pool.Client Party Job Worker Server Deed where
  start := Job.start
  work
    | .work ρ, x, env => (Server.step cfg { env with workers := [x] } (.work 0 ρ)).map Server.worked
    | _, _, _ => none
  outside
    | .main, .loop c, env => (Server.step cfg env (.loop c)).map Server.handing
    | .kernel, .connect, env => (Server.step cfg env .connect).map fun s => (s, .stay)
    | .kernel, .traffic conn t, env =>
        (Server.step cfg env (.traffic conn t)).map fun s => (s, .stay)
    | _, _, _ => none

/-! ## §2. Steps beside a queue and jobs. -/

namespace Server

variable {cfg} (s : Server) (Q : List Job) (W : List Worker)

/-- The kernel's answers do not depend on the queue and the jobs. -/
theorem serve_within (call : Call Tag) (c : Choice) :
    (s.within Q W).serve cfg call c
      = (s.serve cfg call c).map fun (s', reply) => (s'.within Q W, reply) := by
  cases call with
  | epollWait =>
      cases c with
      | ready reports =>
          simp only [serve]
          rw [apply_ite (Option.map _)]
          rfl
      | _ => rfl
  | accept =>
      cases c with
      | accept fd =>
          cases fd with
          | none => rfl
          | some fd =>
              simp only [serve, within]
              cases s.backlog with
              | nil => rfl
              | cons k backlog =>
                  simp only
                  rw [apply_ite (Option.map _)]
                  rfl
      | _ => rfl
  | epollAddFd fd interest | epollModFd fd interest =>
      cases c with
      | ctl ok =>
          cases ok with
          | false => rfl
          | true =>
              simp only [serve]
              rw [apply_ite (Option.map _)]
              rfl
      | _ => rfl
  | recv fd len =>
      cases c with
      | recv n =>
          simp only [serve, within]
          rw [apply_ite (Option.map _)]
          refine ite_congr rfl (fun _ => rfl) fun _ => ?_
          cases s.clients.find? fun c => c.fd = fd with
          | none => rfl
          | some c =>
              simp only
              rw [apply_ite (Option.map _)]
              rfl
      | _ => rfl
  | thpoolAddWork addr args src =>
      cases c with
      -- the one call that touches the queue
      | go => simp only [serve, within, Option.map_some, List.append_assoc]
      | _ => rfl
  | _ => cases c <;> rfl

/-- The loop goes on, whatever is queued and under way. -/
theorem loop_within (c : Choice) :
    (s.within Q W).loop cfg c = (s.loop cfg c).map fun s' => s'.within Q W := by
  unfold loop
  rw [serve_within]
  show (Option.map _ (s.serve cfg (s.pc.call cfg.listen_socket) c)).bind _ = _
  cases s.serve cfg (s.pc.call cfg.listen_socket) c with
  | none => rfl
  | some answer =>
      obtain ⟨s', reply⟩ := answer
      show Option.map _ (resume cfg.listen_socket cfg.order s.pc s.proc reply)
        = Option.map _ (Option.map _ (resume cfg.listen_socket cfg.order s.pc s.proc reply))
      cases resume cfg.listen_socket cfg.order s.pc s.proc reply <;> rfl

theorem perform_within (addr : Nat) (e : Event) :
    (s.within Q W).perform addr e = (s.perform addr e).within Q W := by
  cases e <;> rfl

theorem perform_workers (addr : Nat) (e : Event) (W : List Worker) :
    ({ s with workers := W } : Server).perform addr e = { s.perform addr e with workers := W } := by
  cases e <;> rfl

/-- A job goes on as it would alone. -/
theorem work_within {w : Nat} {x : Worker} (hx : W[w]? = some x) (ρ : Residue) :
    (s.within Q W).work w ρ = (({ s with workers := [x] } : Server).work 0 ρ).map fun s' =>
      s'.within Q (goneOn W w s'.workers.head?) := by
  have hthis : (s.within Q W).workers[w]? = some x := hx
  obtain ⟨job, todo, next⟩ := x
  unfold work
  simp only [hthis, List.getElem?_cons_zero]
  cases todo with
  | nil => cases next <;> rfl
  | cons e todo =>
      simp only [perform_within, perform_workers]
      rfl

/-- The loop queues at most one job at a time. -/
theorem queue_of_loop {s s' : Server} {c : Choice} (hs : s.step cfg (.loop c) = some s') :
    s'.workers = s.workers ∧ (s'.queue = s.queue ∨ ∃ job, s'.queue = s.queue ++ [job]) := by
  cases move_of_step hs with
  | submit => exact ⟨rfl, .inr ⟨_, rfl⟩⟩
  | _ => exact ⟨rfl, .inl rfl⟩

/-- What arrives queues nothing. -/
theorem queue_of_arrival {s s' : Server} {a : Act} (hs : s.step cfg a = some s')
    (ha : a = .connect ∨ ∃ conn t, a = .traffic conn t) :
    s'.queue = s.queue ∧ s'.workers = s.workers := by
  rcases ha with rfl | ⟨conn, t, rfl⟩
  · cases move_of_step hs
    exact ⟨rfl, rfl⟩
  · cases move_of_step hs
    exact ⟨rfl, rfl⟩

/-- A job queues nothing. -/
theorem queue_of_work {s s' : Server} {w : Nat} {ρ : Residue}
    (hs : s.step cfg (.work w ρ) = some s') : s'.queue = s.queue := by
  cases move_of_step hs with
  | perform => exact perform_queue s _ _
  | _ => rfl

/-- A step does not depend on the queue and the jobs, unless it takes or runs one. -/
theorem step_within {a : Act} (hloop : ∀ k, a ≠ .take k) (hwork : ∀ w ρ, a ≠ .work w ρ) :
    (s.within Q W).step cfg a = (s.step cfg a).map fun s' => s'.within Q W := by
  unfold step
  rw [apply_ite (Option.map _)]
  refine ite_congr rfl (fun _ => rfl) fun _ => ?_
  cases a with
  | connect => rfl
  | traffic conn t =>
      simp only
      rw [apply_ite (Option.map _)]
      rfl
  | loop c => exact loop_within s Q W c
  | take k => exact absurd rfl (hloop k)
  | work w ρ => exact absurd rfl (hwork w ρ)

end Server

/-! ## §3. What the clients do. -/

section Clients

variable {cfg} {c : Party} {a : Deed} {env env' : Server}

/-- The jobs a call hands over. -/
def handedBy : Pool.Call Job → List Job
  | .thpoolAddWork job => [job]
  | _ => []

/-- The deed is a step of the system, which queues `jobs`. -/
def Deed.Does (cfg : Config) (a : Deed) (env env' : Server) (jobs : List Job) : Prop :=
  ∃ act, a.act = some act ∧ ∀ Q W,
    (env.within Q W).step cfg act = some (env'.within (Q ++ jobs) W)

/-- Between two calls of the pool, the loop and the kernel make steps of the system. -/
theorem outside_step {call : Pool.Call Job} (hqueue : env.queue = [])
    (hworkers : env.workers = []) (h : (serverClient cfg).outside c a env = some (env', call)) :
    env'.queue = [] ∧ env'.workers = []
      ∧ (call = .stay ∨ c = .main ∧ ∃ job, call = .thpoolAddWork job)
      ∧ a.Does cfg env env' (handedBy call) := by
  have hwithin : ∀ {act s}, env.step cfg act = some s → (∀ k, act ≠ .take k) →
      (∀ w ρ, act ≠ .work w ρ) → ∀ Q W, (env.within Q W).step cfg act = some (s.within Q W) := by
    intro act s hs htake hwork Q W
    rw [env.step_within Q W htake hwork, hs]
    rfl
  have hstay : ∀ (s : Server) Q W,
      s.within (Q ++ handedBy (.stay : Pool.Call Job)) W = s.within Q W := fun s Q W =>
    congrArg (s.within · W) (List.append_nil Q)
  cases c with
  | main =>
      cases a with
      | loop c =>
          obtain ⟨s, hs, hhanding⟩ := Option.map_eq_some_iff.mp h
          have hstep := hwithin hs (by nofun) (by nofun)
          obtain ⟨hworkers', hqueue'⟩ := Server.queue_of_loop hs
          rw [hqueue] at hqueue'
          unfold Server.handing at hhanding
          -- the loop hands over a chunk, which leaves its queue for that of the pool, or nothing
          rcases hqueue' with hq | ⟨job, hq⟩
          · rw [hq] at hhanding
            cases hhanding
            refine ⟨rfl, hworkers'.trans hworkers, .inl rfl, _, rfl, fun Q W => ?_⟩
            rw [hstep, hstay]
            refine congrArg some ?_
            unfold Server.within
            rw [hq]
          · rw [List.nil_append] at hq
            rw [hq] at hhanding
            cases hhanding
            refine ⟨rfl, hworkers'.trans hworkers, .inr ⟨rfl, job, rfl⟩, _, rfl, fun Q W => ?_⟩
            rw [hstep]
            refine congrArg some ?_
            unfold Server.within
            rw [hq, List.append_nil]
            rfl
      | _ => cases h
  | kernel =>
      -- the kernel touches neither queue nor jobs
      have harrival : ∀ act, a.act = some act → (act = .connect ∨ ∃ conn t, act = .traffic conn t) →
          (env.step cfg act).map (fun s => (s, (.stay : Pool.Call Job))) = some (env', call) →
          env'.queue = [] ∧ env'.workers = [] ∧ call = .stay
            ∧ a.Does cfg env env' (handedBy call) := by
        intro act hact harrives hmap
        obtain ⟨s, hs, heq⟩ := Option.map_eq_some_iff.mp hmap
        cases heq
        obtain ⟨hq, hw⟩ := Server.queue_of_arrival hs harrives
        refine ⟨hq.trans hqueue, hw.trans hworkers, rfl, act, hact, fun Q W => ?_⟩
        rw [hwithin hs, hstay]
        · rintro k rfl
          rcases harrives with harrives | ⟨conn, t, harrives⟩ <;> cases harrives
        · rintro w ρ rfl
          rcases harrives with harrives | ⟨conn, t, harrives⟩ <;> cases harrives
      cases a with
      | connect =>
          obtain ⟨hq, hw, hcall, hdoes⟩ := harrival _ rfl (.inl rfl) h
          exact ⟨hq, hw, .inl hcall, hdoes⟩
      | traffic conn t =>
          obtain ⟨hq, hw, hcall, hdoes⟩ := harrival _ rfl (.inr ⟨conn, t, rfl⟩) h
          exact ⟨hq, hw, .inl hcall, hdoes⟩
      | _ => cases h

/-- A worker makes steps of the system. -/
theorem work_step {x : Worker} {r : Option Worker}
    (h : (serverClient cfg).work a x env = some (env', r)) :
    ∃ ρ, a = .work ρ ∧ env'.queue = env.queue ∧ env'.workers = [] ∧ ∀ Q W w, W[w]? = some x →
      (env.within Q W).step cfg (.work w ρ) = some (env'.within Q (Server.goneOn W w r)) := by
  cases a with
  | work ρ =>
      obtain ⟨s, hs, hworked⟩ := Option.map_eq_some_iff.mp h
      cases hworked
      have hqueue := Server.queue_of_work hs
      refine ⟨ρ, rfl, hqueue, rfl, fun Q W w hx => ?_⟩
      change (if env.crashed = true then none else Server.work _ 0 ρ) = some s at hs
      show (if env.crashed = true then none else (env.within Q W).work w ρ) = _
      split at hs
      · cases hs
      · rw [if_neg ‹_›, env.work_within Q W hx, hs]
        rfl
  | _ => cases h

end Clients

/-! ## §4. What is kept. -/

section Serving

open SensorServer.Pool

variable {cfg} {n : Nat}

/-- `main` is in `thpool_init` until the pool is ready; the kernel never calls the pool, and
nobody destroys it; what the pool holds is not in the server's own queue. -/
structure Serving (d : Shared Job Server) (pcs : Name n Party → Pc Job Worker) : Prop where
  ready : d.ready = false → (pcs (.inr .main)).isInit = true
  kernel : pcs (.inr .kernel) = .outside
  calm : ∀ t, (pcs t).destroying = false
  queue : d.env.queue = []
  workers : d.env.workers = []

variable {d d' : Shared Job Server} {pcs : Name n Party → Pc Job Worker} {t : Name n Party}
  {a : Pool.Choice Deed} {next : Pc Job Worker}

/-- Somebody goes on. -/
theorem Serving.update (h : Serving d pcs) (hready : d'.ready = false →
      d.ready = false ∧ (t = .inr .main → next.isInit = true))
    (hkernel : t = .inr .kernel → next = .outside) (hcalm : next.destroying = false)
    (henv : d'.env.queue = [] ∧ d'.env.workers = []) :
    Serving d' (Function.update pcs t next) where
  ready hfalse := by
    obtain ⟨hold, hnext⟩ := hready hfalse
    by_cases ht : t = .inr .main
    · rw [← ht, Function.update_self]
      exact hnext ht
    · rw [Function.update_of_ne (Ne.symm ht)]
      exact h.ready hold
  kernel := by
    by_cases ht : t = .inr .kernel
    · rw [← ht, Function.update_self]
      exact hkernel ht
    · rw [Function.update_of_ne (Ne.symm ht)]
      exact h.kernel
  calm := (Function.forall_update_iff _ fun _ (p : Pc Job Worker) => p.destroying = false).mpr
    ⟨hcalm, fun u _ => h.calm u⟩
  queue := henv.1
  workers := henv.2

theorem Serving.effect (h : Serving d pcs) (heff : Effect (serverClient cfg) t d a (pcs t) d' next) :
    Serving d' (Function.update pcs t next) := by
  have hcalm := h.calm t
  have hmain : t = .inr .main → d.ready = false → (pcs t).isInit = true := by
    rintro rfl
    exact h.ready
  have hkernel : t = .inr .kernel → pcs t = .outside := by
    rintro rfl
    exact h.kernel
  generalize pcs t = p at heff hcalm hmain hkernel
  cases heff with
  | stay a c env ht hout =>
      obtain ⟨hqueue, hworkers, -, -⟩ := outside_step h.queue h.workers hout
      refine h.update (fun hready => ⟨hready, fun hm => ?_⟩) (fun _ => rfl) rfl ⟨hqueue, hworkers⟩
      cases hmain hm hready
  | call a c env call ht hcall hout hready =>
      obtain ⟨hqueue, hworkers, hcases, -⟩ := outside_step h.queue h.workers hout
      -- the loop calls nothing but `thpool_add_work`
      rcases hcases with hstay | ⟨rfl, job, rfl⟩
      · exact absurd hstay hcall
      · subst ht
        exact h.update (fun hfalse => by rw [hready] at hfalse; cases hfalse) (by nofun) rfl
          ⟨hqueue, hworkers⟩
  | early a c env call ht hcall hout hready =>
      obtain ⟨-, -, hcases, -⟩ := outside_step h.queue h.workers hout
      rcases hcases with hstay | ⟨rfl, job, rfl⟩
      · exact absurd hstay hcall
      · cases hmain ht hready
  | goesOn c x x' job_p env hwork | returns c x job_p env hwork =>
      obtain ⟨ρ, -, hqueue, hworkers, -⟩ := work_step hwork
      refine h.update (fun hready => ⟨hready, fun hm => ?_⟩) (fun hk => ?_) rfl
        ⟨hqueue.trans h.queue, hworkers⟩
      · cases hmain hm hready
      · cases hkernel hk
  | ready a created hall halive =>
      exact h.update (by nofun) (fun _ => rfl) rfl ⟨h.queue, h.workers⟩
  | spin a created hall halive =>
      exact h.update (fun hready => ⟨hready, fun _ => rfl⟩) (fun hk => hkernel hk) rfl
        ⟨h.queue, h.workers⟩
  | destroyBegin | destroyStop | postAgain | poll | allGone | postAllSet | clearMore | clearDone
  | freeNull | clearFree | clearReset => cases hcalm
  | _ =>
      refine h.update (fun hready => ⟨hready, fun hm => ?_⟩) (fun hk => ?_) ?_ ⟨h.queue, h.workers⟩
      · cases hmain hm hready
      · cases hkernel hk
      · first | rfl | exact hcalm

variable {ok : PoolState n Party Job Worker Server →
    Pthread.Move (Name n Party) (Pool.Choice Deed) → Prop}
  {s : PoolState n Party Job Worker Server}

/-- Whatever the guard. -/
theorem serving (h : Reached (serverClient cfg) .main .init ok s) : Serving s.data s.pcs := by
  refine Reached.view (I := fun d pcs => Serving d pcs) ?_ ?_ ?_ h
  · refine ⟨fun _ => rfl, rfl, ?_, rfl, rfl⟩
    rintro (i | c)
    · rfl
    · cases c <;> rfl
  · intro s t k next _ h hpass
    obtain ⟨hinit, -, -, -, hdestroying, hout⟩ := points_of_passes hpass
    refine h.update (fun hready => ⟨hready, fun ht => ?_⟩) (fun ht => ?_) ?_ ⟨h.queue, h.workers⟩
    · rw [hinit, ht]
      exact h.ready hready
    · rw [ht, h.kernel] at hout
      cases hout
    · rw [hdestroying]
      exact h.calm t
  · exact fun s t a d next _ h _ heff => h.effect heff

/-- The loop does as the pool assumes of its callers, and never waits. -/
theorem polite_of_serving (h : Serving s.data s.pcs)
    (m : Pthread.Move (Name n Party) (Pool.Choice Deed)) :
    Polite (serverClient cfg) s m ∧ OneWaiter (serverClient cfg) s m := by
  -- what is called, if anything, is `thpool_add_work`, by the loop, from outside
  have hcalls : ∀ call ∈ calling (serverClient cfg) s m, call = .stay
      ∨ (∃ job, call = .thpoolAddWork job) ∧ s.pcs (.inr .main) = .outside := by
    intro call hcall
    unfold calling at hcall
    split at hcall
    · rename_i c a
      split at hcall
      · rename_i hout
        obtain ⟨⟨env', call'⟩, hsome, rfl⟩ := Option.map_eq_some_iff.mp hcall
        obtain ⟨-, -, hstay | ⟨rfl, hjob⟩, -⟩ := outside_step h.queue h.workers hsome
        · exact .inl hstay
        · exact .inr ⟨hjob, isOutside_iff.mp hout⟩
      · cases hcall
    · cases hcall
  constructor
  · intro call hcall
    rcases hcalls call hcall with rfl | ⟨⟨job, rfl⟩, hout⟩
    · exact trivial
    · refine ⟨?_, fun c => h.calm (.inr c)⟩
      -- before the pool is ready the loop is in `thpool_init`, and calls nothing
      by_contra hready
      have hinit := h.ready (Bool.eq_false_iff.mpr hready)
      rw [hout] at hinit
      cases hinit
  · intro call hcall
    rcases hcalls call hcall with rfl | ⟨⟨job, rfl⟩, -⟩
    · exact trivial
    · exact trivial

/-- The assumption on the callers asks nothing of the runs of this system. -/
theorem reached_polite (h : Reached (serverClient cfg) .main .init ok s) :
    Reached (serverClient cfg) .main .init (fun s m => ok s m
      ∧ Polite (serverClient cfg) s m ∧ OneWaiter (serverClient cfg) s m) s :=
  h.and fun _ m hreach _ => polite_of_serving (serving hreach) m

end Serving

/-! ## §5. What a state stands for. -/

section Stands

open SensorServer.Pool

variable {n : Nat}

/-- The job a worker has under way, from when it is off the queue. -/
def jobOf (q : JobQueue Job) : Pc Job Worker → Option Worker
  | .run x _ => some x
  | p => (p.took.bind q.value).map Job.start

/-- The job the loop has handed over and the pool has not queued yet. -/
def handedOver (q : JobQueue Job) : Pc Job Worker → List Job
  | .addAlloc job => [job]
  | .pushLock newjob | .pushLink newjob => (q.value newjob).toList
  | _ => []

/-- The server with the queue and the jobs of the pool is `S`. -/
structure Stands (d : Shared Job Server) (pcs : Name n Party → Pc Job Worker) (S : Server) :
    Prop where
  queue : ∃ l, Shape d.pool.jobqueue pcs l
    ∧ S.queue = l.map Prod.snd ++ handedOver d.pool.jobqueue (pcs (.inr .main))
  workers : Roster (fun i => jobOf d.pool.jobqueue (pcs (.inl i))) S.workers
  rest : S = d.env.within S.queue S.workers

variable {q q' : JobQueue Job} {p : Pc Job Worker}

theorem jobOf_congr (hsame : ∀ b, p.inHand = some b → q'.value b = q.value b) :
    jobOf q' p = jobOf q p := by
  have htook : p.took.bind q'.value = p.took.bind q.value := by
    cases hp : p.took with
    | none => rfl
    | some b => exact hsame b (inHand_of_took hp).1
  unfold jobOf
  split
  · rfl
  · rw [htook]

theorem handedOver_congr (hsame : ∀ b, p.inHand = some b → q'.value b = q.value b) :
    handedOver q' p = handedOver q p := by
  unfold handedOver
  split
  · rfl
  · rename_i newjob
    rw [hsame newjob rfl]
  · rename_i newjob
    rw [hsame newjob rfl]
  · rfl

variable {d d' : Shared Job Server} {pcs : Name n Party → Pc Job Worker} {t : Name n Party}
  {next : Pc Job Worker} {S S' : Server} {l : List (Nat × Job)} {a : Pool.Choice Deed}
  {cfg : Config}

/-- One thread goes on, and the server with it. -/
theorem Stands.update (h : Stands d pcs S) (heff : Effect (serverClient cfg) t d a (pcs t) d' next)
    (hold : ∃ l, Shape d.pool.jobqueue pcs l)
    (hshape : Shape d'.pool.jobqueue (Function.update pcs t next) l)
    (hqueue : (t = .inr .main → S'.queue = l.map Prod.snd ++ handedOver d'.pool.jobqueue next)
      ∧ (t ≠ .inr .main →
        S'.queue = l.map Prod.snd ++ handedOver d.pool.jobqueue (pcs (.inr .main))))
    (hworkers : (∀ i, t = .inl i →
        Roster (Function.update (fun i => jobOf d.pool.jobqueue (pcs (.inl i))) i
          (jobOf d'.pool.jobqueue next)) S'.workers)
      ∧ (t.isRight → S'.workers = S.workers))
    (hrest : S' = d'.env.within S'.queue S'.workers) :
    Stands d' (Function.update pcs t next) S' := by
  obtain ⟨l₀, hold⟩ := hold
  -- what the others have in hand is where it was
  have hothers : ∀ u, u ≠ t → ∀ b, (pcs u).inHand = some b →
      d'.pool.jobqueue.value b = d.pool.jobqueue.value b := fun u hu b hb =>
    value_of_others heff hold hshape hu hb
  refine ⟨⟨l, hshape, ?_⟩, ?_, hrest⟩
  · by_cases ht : t = .inr .main
    · rw [← ht, Function.update_self]
      exact hqueue.1 ht
    · rw [Function.update_of_ne (Ne.symm ht), hqueue.2 ht,
        handedOver_congr (hothers (.inr .main) (Ne.symm ht))]
  · cases t with
    | inl i =>
        refine (hworkers.1 i rfl).congr fun j => ?_
        by_cases hji : j = i
        · rw [hji, Function.update_self, Function.update_self]
        · have hne : (.inl j : Name n Party) ≠ .inl i := fun heq => hji (Sum.inl.inj heq)
          rw [Function.update_of_ne hji, Function.update_of_ne hne, jobOf_congr (hothers _ hne)]
    | inr c =>
        rw [hworkers.2 rfl]
        refine h.workers.congr fun j => ?_
        have hne : (.inl j : Name n Party) ≠ .inr c := nofun
        rw [Function.update_of_ne hne, jobOf_congr (hothers _ hne)]

end Stands

/-! ## §6. Runs. -/

section Runs

open SensorServer.Pool

variable {n : Nat}

/-- The process lives, `thpool_add_work` gets its memory, and `epoll_wait` reports what Linux
reports. -/
def Lives (s : PoolState n Party Job Worker Server) :
    Pthread.Move (Name n Party) (Pool.Choice Deed) → Prop
  | .go _ (.malloc none) => False
  | .go _ (.client a) => s.data.env.crashed = false ∧ ∀ act ∈ a.act, s.data.env.Linux act
  | _ => s.data.env.crashed = false

instance (s : PoolState n Party Job Worker Server) : DecidablePred (Lives s)
  | .go _ (.malloc none) => .isFalse id
  | .go _ (.client a) => inferInstanceAs (Decidable (_ ∧ ∀ act ∈ a.act, s.data.env.Linux act))
  | .go _ (.malloc (some _)) | .go _ .go | .go _ (.timeout _) | .signal _ _ | .wake _
  | .relock _ => inferInstanceAs (Decidable (s.data.env.crashed = false))

variable {cfg : Config} {s : PoolState n Party Job Worker Server} {S : Server} {t : Name n Party}
  {a : Pool.Choice Deed} {d : Shared Job Server} {next : Pc Job Worker}

theorem Lives.alive (h : Lives s (.go t a)) : s.data.env.crashed = false := by
  cases a with
  | malloc block =>
      cases block with
      | none => exact h.elim
      | some block => exact h
  | client a => exact h.1
  | _ => exact h

/-- The chunks a move hands to the pool. -/
def handed (s : PoolState n Party Job Worker Server) :
    Pthread.Move (Name n Party) (Pool.Choice Deed) → List Message
  | .go (.inr .main) (.client (.loop c)) =>
      if (s.pcs (.inr .main)).isOutside then s.data.env.handsOver (.loop c) else []
  | _ => []

/-- What a worker's move sends in its job. -/
def sentInJob (env : Server) (ρ : Residue) : Pc Job Worker → List Message
  | .run x _ => ({ env with workers := [x] } : Server).sends (.work 0 ρ)
  | _ => []

/-- What a move sends. -/
def sentBy (s : PoolState n Party Job Worker Server) :
    Pthread.Move (Name n Party) (Pool.Choice Deed) → List Message
  | .go (.inl i) (.client (.work ρ)) => sentInJob s.data.env ρ (s.pcs (.inl i))
  | _ => []

/-- What is seen of a move. -/
def seenOf (s : PoolState n Party Job Worker Server)
    (m : Pthread.Move (Name n Party) (Pool.Choice Deed)) : Option (List Message × List Message) :=
  some (handed s m, sentBy s m)

/-- Only the loop and the jobs are seen. -/
theorem unseen (hout : (s.pcs t).isOutside = false) (hrun : ∀ x job_p, s.pcs t ≠ .run x job_p) :
    handed s (.go t a) = [] ∧ sentBy s (.go t a) = [] := by
  constructor
  · unfold handed
    split
    · rename_i heq
      cases heq
      rw [if_neg (by rw [hout]; exact Bool.false_ne_true)]
    · rfl
  · unfold sentBy
    split
    · rename_i heq
      cases heq
      unfold sentInJob
      split
      · exact absurd ‹_› (hrun _ _)
      · rfl
    · rfl

/-- Nothing else of the server depends on the queue and the jobs. -/
theorem Stands.set {d : Shared Job Server} {pcs : Name n Party → Pc Job Worker}
    (h : Stands d pcs S) (hqueue : d.env.queue = []) (Q : List Job) (W : List Worker) :
    ({ S with queue := Q, workers := W } : Server) = d.env.within Q W := by
  have hrest := h.rest
  generalize S.queue = Q₀, S.workers = W₀ at hrest
  subst hrest
  unfold Server.within
  simp only [hqueue, List.append_nil]

theorem within_rest {env : Server} (hqueue : env.queue = []) (Q : List Job) (W : List Worker) :
    (env.within Q W).queue = Q
      ∧ env.within Q W = env.within (env.within Q W).queue (env.within Q W).workers := by
  have hq : (env.within Q W).queue = Q := by
    unfold Server.within
    rw [hqueue, List.append_nil]
  exact ⟨hq, by rw [hq]; rfl⟩

/-- The server makes no step, or one that hands over and sends these, and stands for the pool
again. -/
def Mirrors (cfg : Config) (S : Server) (d : Shared Job Server) (pcs : Name n Party → Pc Job Worker)
    (handed sent : List Message) : Prop :=
  (handed = [] ∧ sent = []) ∧ Stands d pcs S
    ∨ ∃ act S', (S.Linux act ∧ S.InOrder n act) ∧ S.step cfg act = some S'
      ∧ (S.handsOver act = handed ∧ S.sends act = sent) ∧ Stands d pcs S'

section Effects

variable {l : List (Nat × Job)}

/-- Nothing is seen of it. -/
theorem Stands.silent (h : Stands s.data s.pcs S)
    (heff : Effect (serverClient cfg) t s.data a (s.pcs t) d next)
    (hshape : Shape s.data.pool.jobqueue s.pcs l)
    (hqueue : S.queue = l.map Prod.snd ++ handedOver s.data.pool.jobqueue (s.pcs (.inr .main)))
    (hshape' : Shape d.pool.jobqueue (Function.update s.pcs t next) l)
    (henv : d.env = s.data.env)
    (hjob : t.isLeft → jobOf d.pool.jobqueue next = jobOf s.data.pool.jobqueue (s.pcs t))
    (hhanded : t = .inr .main →
      handedOver d.pool.jobqueue next = handedOver s.data.pool.jobqueue (s.pcs t)) :
    Stands d (Function.update s.pcs t next) S := by
  refine h.update heff ⟨l, hshape⟩ hshape' ⟨fun ht => ?_, fun _ => hqueue⟩ ⟨?_, fun _ => rfl⟩ ?_
  · rw [hhanded ht, ht]
    exact hqueue
  · rintro i rfl
    rw [hjob rfl]
    have hsame := Function.update_eq_self i fun i => jobOf s.data.pool.jobqueue (s.pcs (.inl i))
    rw [hsame]
    exact h.workers
  · rw [henv]
    exact h.rest

/-- A worker takes the first job off the queue, if there is one. -/
theorem Stands.pull {i : Fin n} (h : Stands s.data s.pcs S) (hserving : Serving s.data s.pcs)
    (halive : s.data.env.crashed = false)
    (heff : Effect (serverClient cfg) (.inl i) s.data a (s.pcs (.inl i)) d next)
    (hshape : Shape s.data.pool.jobqueue s.pcs l)
    (hqueue : S.queue = l.map Prod.snd ++ handedOver s.data.pool.jobqueue (s.pcs (.inr .main)))
    (hshape' : Shape d.pool.jobqueue (Function.update s.pcs (.inl i) next) l.tail)
    (henv : d.env = s.data.env) (hpool : d.pool.jobqueue = s.data.pool.jobqueue.pull)
    (hnone : jobOf s.data.pool.jobqueue (s.pcs (.inl i)) = none)
    (hnext : ∀ q, jobOf q next = (s.data.pool.jobqueue.front.bind q.value).map Job.start) :
    Mirrors cfg S d (Function.update s.pcs (.inl i) next) [] [] := by
  have hfront := hshape.holds.front
  cases hl : l with
  | nil =>
      subst hl
      -- nothing queued: the server does not move
      refine .inl ⟨⟨rfl, rfl⟩, h.silent heff hshape hqueue hshape' henv (fun _ => ?_) (by nofun)⟩
      rw [hnext, hnone, hfront]
      rfl
  | cons cell rest =>
      obtain ⟨b, job⟩ := cell
      subst hl
      -- a job queued: the server takes it, and one of its workers has it
      have hvalue : s.data.pool.jobqueue.pull.value b = some job :=
        (value_pull _ b).trans (hshape.holds.value List.mem_cons_self)
      have hjob : jobOf d.pool.jobqueue next = some job.start := by
        rw [hnext, hfront, hpool]
        show (s.data.pool.jobqueue.pull.value b).map Job.start = _
        rw [hvalue]
        rfl
      have hcrashed : S.crashed = false := (congrArg Server.crashed h.rest).trans halive
      have hroom := h.workers.length_lt hnone
      rw [Fintype.card_fin] at hroom
      refine .inr ⟨.take 0, { S with
        queue := rest.map Prod.snd ++ handedOver s.data.pool.jobqueue (s.pcs (.inr .main))
        workers := S.workers ++ [job.start] }, ⟨trivial, rfl, hroom⟩, ?_, ⟨rfl, rfl⟩, ?_⟩
      · unfold Server.step Server.take
        simp only [hcrashed, hqueue]
        rfl
      · refine h.update heff ⟨_, hshape⟩ hshape' ⟨by nofun, fun _ => rfl⟩ ⟨?_, by nofun⟩ ?_
        · rintro j hj
          cases hj
          rw [hjob]
          exact h.workers.enter hnone _
        · rw [henv]
          exact h.set hserving.queue _ _

/-- What a step of the loop or the kernel hands over does not depend on the queue and the jobs. -/
theorem handsOver_within (env : Server) (Q : List Job) (W : List Worker) (act : Act) :
    (env.within Q W).handsOver act = env.handsOver act := rfl

/-- The loop or the kernel makes a step. -/
theorem Stands.outside {c : Party} {a' : Deed} {call : Pool.Call Job}
    (h : Stands s.data s.pcs S) (hserving : Serving s.data s.pcs)
    (hlives : Lives s (.go (.inr c) (.client a')))
    (heff : Effect (serverClient cfg) (.inr c : Name n Party) s.data (.client a') (s.pcs (.inr c))
      d next)
    (hshape : Shape s.data.pool.jobqueue s.pcs l)
    (hqueue : S.queue = l.map Prod.snd ++ handedOver s.data.pool.jobqueue (s.pcs (.inr .main)))
    (hshape' : Shape d.pool.jobqueue (Function.update s.pcs (.inr c) next) l)
    (hout : (serverClient cfg).outside c a' s.data.env = some (d.env, call))
    (hp : s.pcs (.inr c) = .outside)
    (hnext : c = .main → handedOver d.pool.jobqueue next = handedBy call) :
    Mirrors cfg S d (Function.update s.pcs (.inr c) next) (handed s (.go (.inr c) (.client a')))
      (sentBy s (.go (.inr c) (.client a'))) := by
  obtain ⟨hempty, -, hcases, act, hact, hdoes⟩ := outside_step hserving.queue hserving.workers hout
  have hstep := hdoes S.queue S.workers
  rw [← h.rest] at hstep
  obtain ⟨hqueue', hrest⟩ := within_rest hempty (S.queue ++ handedBy call) S.workers
  refine .inr ⟨act, _, ⟨?_, ?_⟩, hstep, ⟨?_, ?_⟩,
    h.update heff ⟨l, hshape⟩ hshape' ⟨fun ht => ?_, fun ht => ?_⟩ ⟨by nofun, fun _ => rfl⟩ hrest⟩
  · -- the move is one of the kernel the process runs on
    have hlinux := hlives.2 act hact
    rw [h.rest]
    cases act with
    | loop c => cases c <;> exact hlinux
    | _ => exact trivial
  · cases a' <;> cases hact <;> exact trivial
  · rw [h.rest, handsOver_within]
    cases c with
    | main =>
        cases a' with
        | loop c =>
            cases hact
            show _ = if _ then _ else _
            rw [hp]
            rfl
        | _ => cases hout
    | kernel =>
        cases a' with
        | connect | traffic =>
            cases hact
            rfl
        | _ => cases hout
  · cases a' <;> cases hact <;> rfl
  · obtain rfl : c = .main := Sum.inr.inj ht
    have hnone : handedOver s.data.pool.jobqueue .outside = [] := rfl
    rw [hqueue', hqueue, hp, hnext rfl, hnone, List.append_nil]
  · rw [hqueue']
    rcases hcases with rfl | ⟨rfl, -⟩
    · rw [hqueue]
      exact List.append_nil _
    · exact absurd rfl ht

/-- A worker makes a step in its job. -/
theorem Stands.work {i : Fin n} {a' : Deed} {x : Worker} {job_p : Nat} {r : Option Worker}
    (h : Stands s.data s.pcs S) (hserving : Serving s.data s.pcs)
    (heff : Effect (serverClient cfg) (.inl i : Name n Party) s.data (.client a') (s.pcs (.inl i))
      d next)
    (hshape : Shape s.data.pool.jobqueue s.pcs l)
    (hqueue : S.queue = l.map Prod.snd ++ handedOver s.data.pool.jobqueue (s.pcs (.inr .main)))
    (hshape' : Shape d.pool.jobqueue (Function.update s.pcs (.inl i) next) l)
    (hwork : (serverClient cfg).work a' x s.data.env = some (d.env, r))
    (hp : s.pcs (.inl i) = .run x job_p) (hnext : jobOf d.pool.jobqueue next = r) :
    Mirrors cfg S d (Function.update s.pcs (.inl i) next) (handed s (.go (.inl i) (.client a')))
      (sentBy s (.go (.inl i) (.client a'))) := by
  obtain ⟨ρ, rfl, hqenv, -, hdoes⟩ := work_step hwork
  have hx : jobOf s.data.pool.jobqueue (s.pcs (.inl i)) = some x := by
    rw [hp]
    rfl
  -- the worker of the server that has the job of this thread
  obtain ⟨w, hw, hset, herase⟩ := h.workers.find hx
  have hstep := hdoes S.queue S.workers w hw
  rw [← h.rest] at hstep
  obtain ⟨hqueue', hrest⟩ := within_rest (hqenv.trans hserving.queue) S.queue
    (Server.goneOn S.workers w r)
  refine .inr ⟨.work w ρ, _, ⟨trivial, trivial⟩, hstep, ⟨rfl, ?_⟩,
    h.update heff ⟨l, hshape⟩ hshape' ⟨by nofun, fun _ => hqueue'.trans hqueue⟩ ⟨?_, by nofun⟩
      hrest⟩
  · show _ = sentInJob s.data.env ρ (s.pcs (.inl i))
    rw [hp]
    simp only [sentInJob, Server.sends, hw, List.getElem?_cons_zero]
  · rintro j hj
    cases hj
    rw [hnext]
    cases r with
    | some x' => exact hset x'
    | none => exact herase

end Effects

/-- **Every access of the pool is none or one step of the server.** -/
theorem Stands.effect (h : Stands s.data s.pcs S) (hserving : Serving s.data s.pcs)
    (hworker : ∀ u, (s.pcs u).ofWorker = u.isLeft) (hending : Ending s.data.ready s.pcs)
    (hpolite : Polite (serverClient cfg) s (.go t a)) (hlives : Lives s (.go t a))
    (heff : Effect (serverClient cfg) t s.data a (s.pcs t) d next) :
    Mirrors cfg S d (Function.update s.pcs t next) (handed s (.go t a)) (sentBy s (.go t a)) := by
  obtain ⟨l, hshape, hqueue⟩ := h.queue
  have hshape' := hshape.effect hworker hending hpolite heff
  have hcalm := hserving.calm t
  have hside := hworker t
  -- nothing is seen of it
  have hsilent : (s.pcs t).queueAfter s.data.pool.jobqueue l = l → d.env = s.data.env →
      (t.isLeft → jobOf d.pool.jobqueue next = jobOf s.data.pool.jobqueue (s.pcs t)) →
      (t = .inr .main →
        handedOver d.pool.jobqueue next = handedOver s.data.pool.jobqueue (s.pcs t)) →
      (s.pcs t).isOutside = false → (∀ x job_p, s.pcs t ≠ .run x job_p) →
      Mirrors cfg S d (Function.update s.pcs t next) (handed s (.go t a)) (sentBy s (.go t a)) := by
    intro hafter henv hjob hhanded hout hrun
    rw [hafter] at hshape'
    exact .inl ⟨unseen hout hrun, h.silent heff hshape hqueue hshape' henv hjob hhanded⟩
  have heff' := heff
  generalize hp : s.pcs t = p at heff' hcalm hside hshape'
  cases heff' with
  | destroyBegin | destroyStop | postAgain | poll | allGone | postAllSet | clearMore | clearDone
  | freeNull | clearFree | clearReset => cases hcalm
  | noMemory job => exact hlives.elim
  | stay a c env ht hout =>
      subst ht
      exact h.outside hserving hlives heff hshape hqueue hshape' hout hp fun _ => rfl
  | call a c env call ht hcall hout hready =>
      subst ht
      refine h.outside hserving hlives heff hshape hqueue hshape' hout hp fun _ => ?_
      cases call with
      | stay => exact absurd rfl hcall
      | _ => rfl
  | early a c env call ht hcall hout hready =>
      subst ht
      rw [(hpolite.allowed hp hout).ready hcall] at hready
      cases hready
  | goesOn c x x' job_p env hrun | returns c x job_p env hrun =>
      obtain ⟨i, rfl⟩ := Sum.isLeft_iff.mp hside.symm
      exact h.work hserving heff hshape hqueue hshape' hrun hp rfl
  | pullLast a puller hlen | pullMore a puller hlen =>
      cases puller with
      | clear total => cases hcalm
      | worker =>
          obtain ⟨i, rfl⟩ := Sum.isLeft_iff.mp hside.symm
          obtain ⟨hhanded, hsent⟩ := unseen (s := s) (t := .inl i) (a := a) (by rw [hp]; rfl)
            (by rw [hp]; nofun)
          rw [hhanded, hsent]
          exact h.pull hserving hlives.alive heff hshape hqueue hshape' rfl rfl (by rw [hp]; rfl)
            fun q => rfl
  | begun a job_p node hnode =>
      refine hsilent (by rw [hp]; rfl) rfl (fun _ => ?_) (fun ht => ?_) (by rw [hp]; rfl)
        (by rw [hp]; nofun)
      · rw [hp]
        show some (Job.start node.value) = ((s.data.pool.jobqueue.value job_p).map Job.start)
        unfold JobQueue.value
        rw [hnode]
        rfl
      · rw [ht] at hside
        cases hside
  | lost a job_p hnode =>
      refine hsilent (by rw [hp]; rfl) rfl (fun _ => ?_) (fun ht => ?_) (by rw [hp]; rfl)
        (by rw [hp]; nofun)
      · rw [hp]
        show none = ((s.data.pool.jobqueue.value job_p).map Job.start)
        unfold JobQueue.value
        rw [hnode]
        rfl
      · rw [ht] at hside
        cases hside
  | addAlloc job b prev hfresh =>
      refine hsilent (by rw [hp]; rfl) rfl (fun ht => ?_) (fun _ => ?_) (by rw [hp]; rfl)
        (by rw [hp]; nofun)
      · rw [ht] at hside
        cases hside
      · rw [hp]
        show ((s.data.pool.jobqueue.alloc b job prev).value b).toList = [job]
        unfold JobQueue.alloc JobQueue.value
        simp only [Function.update_self]
        rfl
  | pushLink a newjob =>
      obtain ⟨job, hjob⟩ := hshape.value (t := t) (a := newjob) (by rw [hp]; rfl)
      have hafter : (Pc.pushLink newjob : Pc Job Worker).queueAfter s.data.pool.jobqueue l
          = l ++ [(newjob, job)] := by
        show l ++ (s.data.pool.jobqueue.value newjob).toList.map (fun v => (newjob, v)) = _
        rw [hjob]
        rfl
      rw [hafter] at hshape'
      refine .inl ⟨unseen (by rw [hp]; rfl) (by rw [hp]; nofun),
        h.update heff ⟨l, hshape⟩ hshape' ⟨fun ht => ?_, fun ht => ?_⟩ ⟨?_, fun _ => rfl⟩ h.rest⟩
      · rw [hqueue, ← ht, hp, List.map_append]
        show _ ++ (s.data.pool.jobqueue.value newjob).toList = _
        rw [hjob]
        exact (List.append_nil _).symm
      · cases t with
        | inl i => cases hside
        | inr c =>
            cases c with
            | main => exact absurd rfl ht
            | kernel =>
                rw [hserving.kernel] at hp
                cases hp
      · rintro i rfl
        cases hside
  | _ =>
      exact hsilent (by rw [hp]; rfl) rfl
        (fun _ => (congrArg (jobOf s.data.pool.jobqueue) hp).symm)
        (fun _ => (congrArg (handedOver s.data.pool.jobqueue) hp).symm) (by rw [hp]; rfl)
        (by rw [hp]; nofun)

/-- Between the accesses nothing is handed on. -/
theorem Stands.pass {d : Shared Job Server} {pcs : Name n Party → Pc Job Worker}
    {k : Pthread.Doing Mutex Cond} (h : Stands d pcs S) (hpass : Passes (pcs t) k next) :
    Stands d (Function.update pcs t next) S := by
  have hsame : jobOf d.pool.jobqueue next = jobOf d.pool.jobqueue (pcs t)
      ∧ handedOver d.pool.jobqueue next = handedOver d.pool.jobqueue (pcs t) := by
    generalize pcs t = p at hpass
    cases hpass <;> exact ⟨rfl, rfl⟩
  obtain ⟨l, hshape, hqueue⟩ := h.queue
  refine ⟨⟨l, hshape.passes hpass, ?_⟩, h.workers.congr fun i => ?_, h.rest⟩
  · by_cases ht : t = .inr .main
    · subst ht
      rw [Function.update_self, hsame.2]
      exact hqueue
    · rw [Function.update_of_ne (Ne.symm ht)]
      exact hqueue
  · by_cases ht : t = .inl i
    · subst ht
      rw [Function.update_self, hsame.1]
    · rw [Function.update_of_ne (Ne.symm ht)]

theorem stands_start :
    Stands (⟨ThPool.init Job, false, .init⟩ : Shared Job Server)
      (start n Job Worker Party.main Server.init).pcs .init where
  queue := ⟨[], start_shape, rfl⟩
  workers := Roster.empty fun _ => rfl
  rest := rfl

/-- Between the accesses nothing is seen. -/
theorem unseen_pass {k : Pthread.Doing Mutex Cond} (hpass : Passes (s.pcs t) k next)
    {m : Pthread.Move (Name n Party) (Pool.Choice Deed)} (hm : ∀ u a, m = .go u a → u = t) :
    handed s m = [] ∧ sentBy s m = [] := by
  cases m with
  | go u a =>
      obtain rfl := hm u a rfl
      refine unseen (points_of_passes hpass).2.2.2.2.2 fun x job_p hp => ?_
      rw [hp] at hpass
      cases hpass
  | _ => exact ⟨rfl, rfl⟩

/-- The runs of the server on its pool, with what is seen of them. -/
abbrev Runs (cfg : Config) (n : Nat)
    (ok : PoolState n Party Job Worker Server →
      Pthread.Move (Name n Party) (Pool.Choice Deed) → Prop)
    (es : List (List Message × List Message)) (s : PoolState n Party Job Worker Server) : Prop :=
  Emits (State.step (code (serverClient cfg))) ok seenOf
    (start n Job Worker Party.main Server.init) es s

/-- A state of the two stands for one of the server, with what was seen of the run. -/
def Watches (es : List (List Message × List Message)) (s : PoolState n Party Job Worker Server)
    (o : Watched) : Prop :=
  Stands s.data s.pcs o.server ∧ o.received = es.flatMap Prod.fst ∧ o.sent = es.flatMap Prod.snd

theorem watches_start : Watches [] (start n Job Worker Party.main Server.init) .init :=
  ⟨stands_start, rfl, rfl⟩

/-- The simulation: a step of the two is none, or one of the server. -/
theorem watches_step {G : List Message → Prop} (es : List (List Message × List Message))
    (s : PoolState n Party Job Worker Server)
    (m : Pthread.Move (Name n Party) (Pool.Choice Deed))
    (s' : PoolState n Party Job Worker Server) (o : Watched)
    (hreach : Reach (State.step (code (serverClient cfg)))
      (fun s m => Lives s m ∧ G (handed s m)) (start n Job Worker Party.main Server.init) s)
    (hwatches : Watches es s o) (hok : Lives s m ∧ G (handed s m))
    (hs : State.step (code (serverClient cfg)) s m = some s') :
    Watches (es ++ (seenOf s m).toList) s' o
      ∨ ∃ act o', ((o.server.Linux act ∧ o.server.InOrder n act) ∧ G (o.server.handsOver act))
          ∧ o.step cfg act = some o' ∧ Watches (es ++ (seenOf s m).toList) s' o' := by
  obtain ⟨hstands, hreceived, hsent⟩ := hwatches
  obtain ⟨hlives, hG⟩ := hok
  -- whatever the two show of the step is recorded alike
  have hshown : ∀ o' : Watched, o'.received = o.received ++ handed s m →
      o'.sent = o.sent ++ sentBy s m →
      o'.received = (es ++ (seenOf s m).toList).flatMap Prod.fst
        ∧ o'.sent = (es ++ (seenOf s m).toList).flatMap Prod.snd := by
    intro o' hr hs'
    rw [List.flatMap_append, List.flatMap_append, hr, hs', hreceived, hsent]
    exact ⟨congrArg _ (List.append_nil _).symm, congrArg _ (List.append_nil _).symm⟩
  have hquiet : handed s m = [] ∧ sentBy s m = [] →
      o.received = (es ++ (seenOf s m).toList).flatMap Prod.fst
        ∧ o.sent = (es ++ (seenOf s m).toList).flatMap Prod.snd := by
    rintro ⟨hhanded, hnothing⟩
    refine hshown o ?_ ?_
    · rw [hhanded, List.append_nil]
    · rw [hnothing, List.append_nil]
  unfold Watches
  have hview := viewed_of_step hs
  generalize s'.data = d, s'.pcs = pcs at hview ⊢
  cases hview with
  | same _ hl =>
      refine .inl ⟨hstands, hquiet ?_⟩
      cases m with
      | go u a => exact absurd rfl (hl u a)
      | _ => exact ⟨rfl, rfl⟩
  | pass _ t k next hgoes hl =>
      have hpass := passes_of_goes hgoes
      exact .inl ⟨hstands.pass hpass, hquiet (unseen_pass hpass hl)⟩
  | access t a f _ next hcode hf =>
      have hpolite : Polite (serverClient cfg) s (.go t a) :=
        (polite_of_serving (serving hreach) _).1
      rcases hstands.effect (serving hreach) (ofWorker_pcs hreach)
        (ending (fun _ _ hok => hok.2.1) (reached_polite hreach)) hpolite hlives
        (effect_of_access hcode hf) with ⟨hnone, hd⟩ | ⟨act, S', hok, hstep, ⟨hh, hs'⟩, hd⟩
      · exact .inl ⟨hd, hquiet hnone⟩
      · refine .inr ⟨act, ⟨S', o.received ++ o.server.handsOver act,
          o.sent ++ o.server.sends act⟩, ⟨hok, hh ▸ hG⟩, ?_, hd, hshown _ (by rw [hh]) (by rw [hs'])⟩
        unfold Watched.step
        rw [hstep]
        rfl

/-- **The server on the thread pool does what the server does.**  Whatever the schedule of the
loop and the workers, and however the mutexes and the condition variables are passed on, a state
that the two reach stands for one that the server reaches, with the jobs taken in the order they
were queued and never more of them under way than there are workers; and the same chunks were
handed over, and the same messages sent.  What is assumed of the chunks holds there as well. -/
theorem pooled_serves {G : List Message → Prop} {es : List (List Message × List Message)}
    (h : Runs cfg n (fun s m => Lives s m ∧ G (handed s m)) es s) :
    ∃ o, Reach (Watched.step cfg) (fun o act => (o.server.Linux act ∧ o.server.InOrder n act)
        ∧ G (o.server.handsOver act)) .init o
      ∧ Stands s.data s.pcs o.server
      ∧ o.received = es.flatMap Prod.fst ∧ o.sent = es.flatMap Prod.snd :=
  Emits.simulate watches_start watches_step h

end Runs

/-! ## §7. A run. -/

section Example

open SensorServer.Pool
open SensorServer.Parser (ClientPacket)

/-- What may happen on a pool of one worker. -/
abbrev Happening := Pthread.Move (Name 1 Party) (Pool.Choice Deed)

/-- The worker goes on in the pool, `k` times. -/
def inPool (k : Nat) : List Happening := List.replicate k (.go onlyWorker .go)

/-- It goes on in its job. -/
def inJob (k : Nat) : List Happening :=
  List.replicate k (.go onlyWorker (.client (.work (.quiet 5))))

/-- The loop goes on in the pool. -/
def handing (k : Nat) : List Happening := List.replicate k (.go (.inr .main) .go)

/-- The kernel answers the loop. -/
def answering (c : Choice) : Happening := .go (.inr .main) (.client (.loop c))

/-- Something arrives. -/
def arriving (a : Deed) : Happening := .go (.inr .kernel) (.client a)

/-- The pool is opened, a client connects, and its `PING` is queued. -/
def firstChunk : List Happening :=
  handing 1 ++ inPool 7 ++ handing 1
    ++ [arriving .connect, answering (.ready [(none, { epollin := true })]),
      answering (.accept (some 5)), answering (.ctl true), answering .go,
      arriving (.traffic 0 (.data ClientPacket.ping.encode)),
      answering (.ready [(some 0, { epollin := true })]), answering (.recv 4), answering .go,
      .go (.inr .main) (.malloc (some (0, none)))]
    ++ handing 4 ++ [.signal (.inr .main) onlyWorker] ++ handing 2

/-- Its `SEND` is queued as well. -/
def secondChunk : List Happening :=
  [answering (.ctl true), arriving (.traffic 0 (.data emptySend.encode)),
      answering (.ready [(some 0, { epollin := true, epollout := true })]), answering (.recv 6),
      answering .go, .go (.inr .main) (.malloc (some (1, none)))]
    ++ handing 7

/-- The worker runs the two jobs, and sleeps. -/
def bothJobs : List Happening :=
  .relock onlyWorker :: inPool 14 ++ inJob 10 ++ inPool 17 ++ inJob 14 ++ inPool 9

/-- A replayed run, with what is seen of it. -/
theorem runs_of_execute
    {Q : List (List Message × List Message) → PoolState 1 Party Job Worker Server → Prop}
    [∀ es s, Decidable (Q es s)] (as : List Happening)
    (h : (execute (State.step (code (serverClient ⟨3, .after⟩))) Lives
        (start 1 Job Worker Party.main Server.init) as).any
      (fun s => decide (Q (shows (State.step (code (serverClient ⟨3, .after⟩))) seenOf
        (start 1 Job Worker Party.main Server.init) as) s)) = true) :
    ∃ es s, Runs ⟨3, .after⟩ 1 Lives es s ∧ Q es s := by
  obtain ⟨s, hs, hQ⟩ := exists_execute (P := Q _) h
  exact ⟨_, s, Emits.of_execute .init hs, hQ⟩

/-- Two chunks are handed over, and answered. -/
theorem pooled_serves_two :
    ∃ es, ∃ s : PoolState 1 Party Job Worker Server, Runs ⟨3, .after⟩ 1 Lives es s
      ∧ (es.flatMap Prod.snd).length = 2
      ∧ ∃ o, Reach (Watched.step ⟨3, .after⟩)
          (fun o act => (o.server.Linux act ∧ o.server.InOrder 1 act) ∧ True) .init o
        ∧ Stands s.data s.pcs o.server
        ∧ o.received = es.flatMap Prod.fst ∧ o.sent = es.flatMap Prod.snd := by
  obtain ⟨es, s, h, hsent⟩ := runs_of_execute (firstChunk ++ secondChunk ++ bothJobs)
    (Q := fun es _ => (es.flatMap Prod.snd).length = 2) (by decide)
  exact ⟨es, s, h, hsent, pooled_serves (G := fun _ => True) (h.mono fun _ _ hok => ⟨hok, trivial⟩)⟩

end Example

end SensorServer.System
