/-
  SensorServer.Pool.ThreadPool — `thpool`, one call of pthread or one access at a time.

  The functions of the pool are a program in the sense of `Framework.Pthread`: `Pc` lists their
  program points, under the function they belong to, and `code` says what is done there.  The
  workers run `thread_do`; any number of other threads call `thpool_add_work`, `thpool_wait` and
  `thpool_destroy` whenever they like, and one of them has called `thpool_init`.

  What the jobs do, and what the callers do between their calls, is not the pool's: a `Client`
  gives both, over an environment of its own.

  What a critical section does to the data of its mutex is one access.  Two of these fields are
  also read outside the mutex they are written under: `len` of the job queue, by `thpool_wait` and
  `jobqueue_clear`, and `num_threads_alive`, by `thpool_init` and `thpool_destroy`.  A section
  stores to each of them at most once, so that such a read finds the value from before the section
  or the one from behind it.
-/
import SensorServer.Framework.LinkedQueue
import SensorServer.Framework.Pthread

namespace SensorServer.Pool

open SensorServer.Framework
open SensorServer.Framework.Pthread

/-! ## §1. Data. -/

/-- The mutexes: `thcount_lock`, `rwmutex` of the job queue and the one of its semaphore. -/
inductive Mutex where
  | thcount_lock
  | rwmutex
  | bsem
  deriving Repr, DecidableEq

instance : Fintype Mutex := ⟨{.thcount_lock, .rwmutex, .bsem}, fun m => by cases m <;> decide⟩

/-- The condition variables: the one of the semaphore, and `threads_all_idle`. -/
inductive Cond where
  | has_jobs
  | threads_all_idle
  deriving Repr, DecidableEq

/-- `jobqueue`.  The jobs are the allocated nodes of `jobs`, linked by `prev`. -/
structure JobQueue (J : Type) where
  jobs : Nodes Nat J
  front : Option Nat
  rear : Option Nat
  len : Int
  /-- `NULL` or a freed job was accessed. -/
  fault : Bool

namespace JobQueue

variable {J : Type} (q : JobQueue J)

/-- `job->prev = link`. -/
def setPrev (a : Nat) (link : Option Nat) : JobQueue J :=
  match q.jobs a with
  | some node => { q with jobs := Function.update q.jobs a (some { node with link }) }
  | none => { q with fault := true }

/-- `jobqueue_push`, between taking `rwmutex` and posting. -/
def push (newjob : Nat) : JobQueue J :=
  let q := q.setPrev newjob none
  let q :=
    if q.len = 0 then { q with front := some newjob, rear := some newjob }
    else
      match q.rear with
      | some r => { q.setPrev r (some newjob) with rear := some newjob }
      | none => { q with rear := some newjob, fault := true }
  { q with len := q.len + 1 }

/-- `jobqueue_pull`, between taking `rwmutex` and posting. -/
def pull : JobQueue J :=
  if q.len = 0 then q
  else if q.len = 1 then { q with front := none, rear := none, len := 0 }
  else
    match q.front.bind q.jobs with
    | some node => { q with front := node.link, len := q.len - 1 }
    | none => { q with fault := true }

/-- `free(job)`. -/
def free (a : Nat) : JobQueue J :=
  if (q.jobs a).isSome then { q with jobs := Function.update q.jobs a none }
  else { q with fault := true }

/-- What `malloc` and the assignments of `thpool_add_work` make of free memory. -/
def alloc (a : Nat) (job : J) (prev : Option Nat) : JobQueue J :=
  { q with jobs := Function.update q.jobs a (some ⟨job, prev⟩) }

end JobQueue

/-- `thpool_`, with `has_jobs->v` and `threads_keepalive`. -/
structure ThPool (J : Type) where
  num_threads_alive : Int
  num_threads_working : Int
  jobqueue : JobQueue J
  has_jobs : Bool
  threads_keepalive : Bool

/-- `thpool_` as `thpool_init` fills it. -/
def ThPool.init (J : Type) : ThPool J where
  num_threads_alive := 0
  num_threads_working := 0
  jobqueue := ⟨fun _ => none, none, none, 0, false⟩
  has_jobs := false
  threads_keepalive := true

/-- An access to `NULL`. -/
def ThPool.faulted {J : Type} (p : ThPool J) : ThPool J :=
  { p with jobqueue := { p.jobqueue with fault := true } }

/-- An operation of the queue. -/
def ThPool.queue {J : Type} (f : JobQueue J → JobQueue J) (p : ThPool J) : ThPool J :=
  { p with jobqueue := f p.jobqueue }

/-! ## §2. What is not the pool's. -/

/-- What a caller does next: something of its own, or a call of the pool. -/
inductive Call (J : Type) where
  | stay
  | thpoolAddWork (job : J)
  | thpoolWait
  | thpoolDestroy

/-- The jobs and the callers of a pool.  `J` is a job as it is queued, `X` a job under way, `E`
the environment, `κ` names the callers, `A` the choices in what they and the jobs do. -/
structure Client (κ J X E A : Type) where
  /-- `function(arg)` begins. -/
  start : J → X
  /-- It goes on; `none` when it has returned. -/
  work : A → X → E → Option (E × Option X)
  /-- What a caller does between two calls of the pool. -/
  outside : κ → A → E → Option (E × Call J)

/-- The data all threads share: the pool, whether `thpool_init` has returned it, and the
environment. -/
structure Shared (J E : Type) where
  pool : ThPool J
  ready : Bool
  env : E

/-- The choices of an access. -/
inductive Choice (A : Type) where
  | go
  /-- What `malloc` returns, and what the `prev` of the new job happens to hold. -/
  | malloc (block : Option (Nat × Option Nat))
  /-- The second `thpool_destroy` waits for is over. -/
  | timeout (passed : Bool)
  | client (a : A)
  deriving Repr, DecidableEq

instance {A : Type} : Inhabited (Choice A) := ⟨.go⟩

/-! ## §3. Program points. -/

/-- Who called `jobqueue_pull`: a worker, or `jobqueue_clear`. -/
inductive Puller where
  | worker
  | clear (threads_total : Int)
  deriving Repr, DecidableEq

/-- What follows `bsem_post`. -/
inductive Poster where
  | push
  | pull (puller : Puller) (job_p : Option Nat)
  deriving Repr, DecidableEq

/-- The program points. -/
inductive Pc (J X : Type) where
  -- `thread_do`
  | aliveLock
  | aliveInc
  | aliveUnlock
  | whileKeepalive
  | ifKeepalive
  | workingLock
  | workingInc
  | workingUnlock
  | ifJob (job_p : Option Nat)
  | run (x : X) (job_p : Nat)
  | freeJob (job_p : Nat)
  | doneLock
  | doneDec
  | doneSignal
  | doneUnlock
  | exitLock
  | exitDec
  | exitUnlock
  | exited
  -- `bsem_wait`
  | semLock
  | semTest
  | semSleep
  | semUnlock
  -- `bsem_post`
  | postLock (poster : Poster)
  | postSet (poster : Poster)
  | postSignal (poster : Poster)
  | postUnlock (poster : Poster)
  -- `jobqueue_pull`
  | pullLock (puller : Puller)
  | pullTake (puller : Puller)
  | pullUnlock (puller : Puller) (job_p : Option Nat)
  -- `thpool_init`, with `created` threads
  | init (created : Nat)
  -- between two calls
  | outside
  -- `thpool_add_work`
  | addAlloc (job : J)
  | pushLock (newjob : Nat)
  | pushLink (newjob : Nat)
  | pushUnlock
  -- `thpool_wait`
  | waitLock
  | waitLen
  | waitWorking
  | waitSleep
  | waitUnlock
  -- `thpool_destroy`, with `bsem_post_all` and `jobqueue_clear`
  | destroyBegin
  | destroyStop (threads_total : Int)
  | destroyLoop (threads_total : Int) (polling : Bool)
  | postAllLock (threads_total : Int) (polling : Bool)
  | postAllSet (threads_total : Int) (polling : Bool)
  | postAllBroadcast (threads_total : Int) (polling : Bool)
  | postAllUnlock (threads_total : Int) (polling : Bool)
  | clearTest (threads_total : Int)
  | clearFree (threads_total : Int) (job_p : Option Nat)
  | clearReset (threads_total : Int)
  | destroyed (threads_total : Int)

/-! ## §4. Code. -/

section Code

variable {n : Nat} {κ J X E A : Type}

/-- The threads: the `n` workers, and the callers. -/
abbrev Name (n : Nat) (κ : Type) := Fin n ⊕ κ

/-- An instruction of the pool. -/
abbrev Instruction (n : Nat) (κ J X E A : Type) :=
  Instr (Name n κ) (Pc J X) (Shared J E) (Choice A) Mutex Cond

/-- Change the pool, and go on. -/
def change (f : ThPool J → ThPool J) (next : Pc J X) : Instruction n κ J X E A :=
  .access fun _ d => some ({ d with pool := f d.pool }, next)

/-- Go on at a point that depends on the pool. -/
def test (next : ThPool J → Pc J X) : Instruction n κ J X E A :=
  .access fun _ d => some (d, next d.pool)

/-- What follows `jobqueue_pull`. -/
def Puller.next (job_p : Option Nat) : Puller → Pc J X
  | .worker => .ifJob job_p
  | .clear threads_total => .clearFree threads_total job_p

/-- What follows `bsem_post`. -/
def Poster.next : Poster → Pc J X
  | .push => .pushUnlock
  | .pull puller job_p => .pullUnlock puller job_p

/-- The call a caller makes.  A call before `thpool_init` has returned has no pool. -/
def enter (d : Shared J E) (env : E) : Call J → Shared J E × Pc J X
  | .stay => ({ d with env }, .outside)
  | call =>
      if d.ready then
        ({ d with env },
          match call with
          | .thpoolAddWork job => .addAlloc job
          | .thpoolWait => .waitLock
          | .thpoolDestroy => .destroyBegin
          | .stay => .outside)
      else ({ d with env, pool := d.pool.faulted }, .outside)

variable (P : Client κ J X E A)

/-- The instruction of thread `t` at a program point. -/
def code (t : Name n κ) : Pc J X → Instruction n κ J X E A
  -- `thread_do`
  | .aliveLock => .lock .thcount_lock .aliveInc
  | .aliveInc =>
      change (fun p => { p with num_threads_alive := p.num_threads_alive + 1 }) .aliveUnlock
  | .aliveUnlock => .unlock .thcount_lock .whileKeepalive
  | .whileKeepalive => test fun p => if p.threads_keepalive then .semLock else .exitLock
  | .ifKeepalive => test fun p => if p.threads_keepalive then .workingLock else .whileKeepalive
  | .workingLock => .lock .thcount_lock .workingInc
  | .workingInc =>
      change (fun p => { p with num_threads_working := p.num_threads_working + 1 }) .workingUnlock
  | .workingUnlock => .unlock .thcount_lock (.pullLock .worker)
  | .ifJob none => test fun _ => .doneLock
  | .ifJob (some a) =>
      .access fun _ d =>
        match d.pool.jobqueue.jobs a with
        | some node => some (d, .run (P.start node.value) a)
        | none => some ({ d with pool := d.pool.faulted }, .doneLock)
  | .run x a =>
      .access fun
        | .client c, d => (P.work c x d.env).map fun (env, r) =>
            ({ d with env },
              match r with
              | some x => .run x a
              | none => .freeJob a)
        | _, _ => none
  | .freeJob a => change (.queue fun q => q.free a) .doneLock
  | .doneLock => .lock .thcount_lock .doneDec
  | .doneDec =>
      .access fun _ d =>
        some ({ d with
            pool := { d.pool with num_threads_working := d.pool.num_threads_working - 1 } },
          if d.pool.num_threads_working - 1 = 0 then .doneSignal else .doneUnlock)
  | .doneSignal => .signal .threads_all_idle .doneUnlock
  | .doneUnlock => .unlock .thcount_lock .whileKeepalive
  | .exitLock => .lock .thcount_lock .exitDec
  | .exitDec =>
      change (fun p => { p with num_threads_alive := p.num_threads_alive - 1 }) .exitUnlock
  | .exitUnlock => .unlock .thcount_lock .exited
  | .exited => .exit
  -- `bsem_wait`
  | .semLock => .lock .bsem .semTest
  | .semTest =>
      .access fun _ d =>
        if d.pool.has_jobs then
          some ({ d with pool := { d.pool with has_jobs := false } }, .semUnlock)
        else some (d, .semSleep)
  | .semSleep => .wait .has_jobs .bsem .semTest
  | .semUnlock => .unlock .bsem .ifKeepalive
  -- `bsem_post`
  | .postLock k => .lock .bsem (.postSet k)
  | .postSet k => change (fun p => { p with has_jobs := true }) (.postSignal k)
  | .postSignal k => .signal .has_jobs (.postUnlock k)
  | .postUnlock k => .unlock .bsem k.next
  -- `jobqueue_pull`
  | .pullLock k => .lock .rwmutex (.pullTake k)
  | .pullTake k =>
      .access fun _ d =>
        some ({ d with pool := d.pool.queue JobQueue.pull },
          if d.pool.jobqueue.len = 0 ∨ d.pool.jobqueue.len = 1 then
            .pullUnlock k d.pool.jobqueue.front
          else .postLock (.pull k d.pool.jobqueue.front))
  | .pullUnlock k job_p => .unlock .rwmutex (k.next job_p)
  -- `thpool_init`
  | .init created =>
      if h : created < n then .create (.inl ⟨created, h⟩) (.init (created + 1))
      else
        .access fun _ d =>
          if d.pool.num_threads_alive = n then some ({ d with ready := true }, .outside)
          else some (d, .init created)
  -- callers
  | .outside =>
      match t with
      | .inl _ => .exit
      | .inr c =>
          .access fun
            | .client a, d => (P.outside c a d.env).map fun (env, call) => enter d env call
            | _, _ => none
  -- `thpool_add_work`
  | .addAlloc job =>
      .access fun
        | .malloc none, d => some (d, .outside)
        | .malloc (some (a, prev)), d =>
            if (d.pool.jobqueue.jobs a).isNone then
              some ({ d with pool := d.pool.queue fun q => q.alloc a job prev }, .pushLock a)
            else none
        | _, _ => none
  | .pushLock a => .lock .rwmutex (.pushLink a)
  | .pushLink a => change (.queue fun q => q.push a) (.postLock .push)
  | .pushUnlock => .unlock .rwmutex .outside
  -- `thpool_wait`
  | .waitLock => .lock .thcount_lock .waitLen
  | .waitLen => test fun p => if p.jobqueue.len ≠ 0 then .waitSleep else .waitWorking
  | .waitWorking => test fun p => if p.num_threads_working ≠ 0 then .waitSleep else .waitUnlock
  | .waitSleep => .wait .threads_all_idle .thcount_lock .waitLen
  | .waitUnlock => .unlock .thcount_lock .outside
  -- `thpool_destroy`
  | .destroyBegin => test fun p => .destroyStop p.num_threads_alive
  | .destroyStop total =>
      change (fun p => { p with threads_keepalive := false }) (.destroyLoop total false)
  | .destroyLoop total false =>
      .access fun
        | .timeout passed, d =>
            some (d, if ¬ passed ∧ d.pool.num_threads_alive ≠ 0 then .postAllLock total false
              else .destroyLoop total true)
        | _, _ => none
  | .destroyLoop total true =>
      test fun p => if p.num_threads_alive ≠ 0 then .postAllLock total true else .clearTest total
  | .postAllLock total polling => .lock .bsem (.postAllSet total polling)
  | .postAllSet total polling =>
      change (fun p => { p with has_jobs := true }) (.postAllBroadcast total polling)
  | .postAllBroadcast total polling => .broadcast .has_jobs (.postAllUnlock total polling)
  | .postAllUnlock total polling => .unlock .bsem (.destroyLoop total polling)
  | .clearTest total =>
      test fun p => if p.jobqueue.len ≠ 0 then .pullLock (.clear total) else .clearReset total
  | .clearFree total none => test fun _ => .clearTest total
  | .clearFree total (some a) => change (.queue fun q => q.free a) (.clearTest total)
  | .clearReset total =>
      change (fun p =>
          { p with
            jobqueue := { p.jobqueue with front := none, rear := none, len := 0 }
            has_jobs := false })
        (.destroyed total)
  | .destroyed _ => .exit

end Code

/-! ## §5. The start. -/

section Start

variable {n : Nat} {κ J X E A : Type} [DecidableEq κ]

/-- A state of the pool with its callers. -/
abbrev PoolState (n : Nat) (κ J X E : Type) := State (Name n κ) (Pc J X) (Shared J E) Mutex Cond

/-- `main` has called `thpool_init`, which is about to create the threads. -/
def start (n : Nat) (J X : Type) (main : κ) (env : E) : PoolState n κ J X E where
  data := ⟨ThPool.init J, false, env⟩
  thread
    | .inl _ => ⟨.aliveLock, .unborn⟩
    | .inr c => ⟨if c = main then .init 0 else .outside, .running⟩
  owner := fun _ => none

end Start

/-! ## §6. A run. -/

/-- A caller that asks what it is told to ask; its jobs are numbers, and over at once. -/
def errands : Client Unit Nat Unit Unit (Call Nat) where
  start _ := ()
  work _ _ _ := some ((), none)
  outside _ call _ := some ((), call)

/-- The worker of a pool that has one. -/
abbrev onlyWorker {κ : Type} : Name 1 κ := .inl 0

/-- A pool of one worker, with its caller. -/
abbrev Errands := PoolState 1 Unit Nat Unit Unit

/-- What may happen there. -/
abbrev Errand := Move (Name 1 Unit) (Choice (Call Nat))

/-- The worker goes on, `k` times. -/
def byWorker (k : Nat) : List Errand := List.replicate k (.go onlyWorker .go)

/-- The caller goes on. -/
def byCaller (k : Nat) : List Errand := List.replicate k (.go (.inr ()) .go)

/-- The caller makes a call. -/
def asks (call : Call Nat) : List Errand := [.go (.inr ()) (.client call)]

/-- `thpool_init` returns, and the worker sleeps. -/
def opening : List Errand := byCaller 1 ++ byWorker 7 ++ byCaller 1

/-- `thpool_add_work` queues job 5 and wakes the worker. -/
def adding : List Errand :=
  asks (.thpoolAddWork 5) ++ [.go (.inr ()) (.malloc (some (0, none)))] ++ byCaller 4
    ++ [.signal (.inr ()) onlyWorker] ++ byCaller 2

/-- The worker takes the job, up to where it begins. -/
def taking : List Errand := .relock onlyWorker :: byWorker 10

/-- The caller waits. -/
def waiting : List Errand := asks .thpoolWait ++ byCaller 4

/-- The job is done, and the worker tells the caller and sleeps. -/
def doing : List Errand :=
  .go onlyWorker (.client .stay) :: byWorker 3 ++ [.signal onlyWorker (.inr ())] ++ byWorker 5

/-- `thpool_wait` returns. -/
def returning : List Errand := .relock (.inr ()) :: byCaller 3

/-- `thpool_destroy`, up to where it frees the pool. -/
def destroying : List Errand :=
  asks .thpoolDestroy ++ byCaller 2 ++ [.go (.inr ()) (.timeout false)] ++ byCaller 4
    ++ [.relock onlyWorker] ++ byWorker 7 ++ [.go (.inr ()) (.timeout true)] ++ byCaller 3

end SensorServer.Pool
