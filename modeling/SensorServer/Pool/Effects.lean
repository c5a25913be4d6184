/-
  SensorServer.Pool.Effects — what each instruction of the pool does.

  `Passes` lists the program points that an instruction other than an access leads between,
  `Effect` the accesses with the data they leave.  `passes_of_goes` and `effect_of_access` are
  the only places where `code` is taken apart; every invariant is a case analysis on the two.
-/
import SensorServer.Pool.ThreadPool

namespace SensorServer.Pool

open SensorServer.Framework
open SensorServer.Framework.Pthread

/-! ## §1. Instructions without an access. -/

/-- From a program point to the next one, and what is done there. -/
inductive Passes {J X : Type} : Pc J X → Doing Mutex Cond → Pc J X → Prop where
  | aliveLock : Passes .aliveLock (.lock .thcount_lock) .aliveInc
  | aliveUnlock : Passes .aliveUnlock (.unlock .thcount_lock) .whileKeepalive
  | workingLock : Passes .workingLock (.lock .thcount_lock) .workingInc
  | workingUnlock : Passes .workingUnlock (.unlock .thcount_lock) (.pullLock .worker)
  | doneLock : Passes .doneLock (.lock .thcount_lock) .doneDec
  | doneSignal : Passes .doneSignal (.signal .threads_all_idle) .doneUnlock
  | doneUnlock : Passes .doneUnlock (.unlock .thcount_lock) .whileKeepalive
  | exitLock : Passes .exitLock (.lock .thcount_lock) .exitDec
  | exitUnlock : Passes .exitUnlock (.unlock .thcount_lock) .exited
  | semLock : Passes .semLock (.lock .bsem) .semTest
  | semSleep : Passes .semSleep (.wait .has_jobs .bsem) .semTest
  | semUnlock : Passes .semUnlock (.unlock .bsem) .ifKeepalive
  | postLock (k : Poster) : Passes (.postLock k) (.lock .bsem) (.postSet k)
  | postSignal (k : Poster) : Passes (.postSignal k) (.signal .has_jobs) (.postUnlock k)
  | postedPush : Passes (.postUnlock .push) (.unlock .bsem) .pushUnlock
  | postedPull (puller : Puller) (job_p : Option Nat) :
      Passes (.postUnlock (.pull puller job_p)) (.unlock .bsem) (.pullUnlock puller job_p)
  | pullLock (puller : Puller) : Passes (.pullLock puller) (.lock .rwmutex) (.pullTake puller)
  | pulledJob (job_p : Option Nat) :
      Passes (.pullUnlock .worker job_p) (.unlock .rwmutex) (.ifJob job_p)
  | pulledClear (total : Int) (job_p : Option Nat) :
      Passes (.pullUnlock (.clear total) job_p) (.unlock .rwmutex) (.clearFree total job_p)
  | init (created : Nat) : Passes (.init created) .create (.init (created + 1))
  | pushLock (a : Nat) : Passes (.pushLock a) (.lock .rwmutex) (.pushLink a)
  | pushUnlock : Passes .pushUnlock (.unlock .rwmutex) .outside
  | waitLock : Passes .waitLock (.lock .thcount_lock) .waitLen
  | waitSleep : Passes .waitSleep (.wait .threads_all_idle .thcount_lock) .waitLen
  | waitUnlock : Passes .waitUnlock (.unlock .thcount_lock) .outside
  | postAllLock (total : Int) (polling : Bool) :
      Passes (.postAllLock total polling) (.lock .bsem) (.postAllSet total polling)
  | postAllBroadcast (total : Int) (polling : Bool) :
      Passes (.postAllBroadcast total polling) (.broadcast .has_jobs) (.postAllUnlock total polling)
  | postAllUnlock (total : Int) (polling : Bool) :
      Passes (.postAllUnlock total polling) (.unlock .bsem) (.destroyLoop total polling)

section Inversion

variable {n : Nat} {κ J X E A : Type} {P : Client κ J X E A} {t : Name n κ}

theorem passes_of_goes {p next : Pc J X} {k : Doing Mutex Cond} (h : (code P t p).Goes k next) :
    Passes p k next := by
  cases p with
  | init created =>
      rw [code] at h
      split at h
      · cases h
        exact .init created
      · cases h
  | outside => cases t <;> cases h
  | destroyLoop total polling => cases polling <;> cases h
  | ifJob job_p => cases job_p <;> cases h
  | clearFree total job_p => cases job_p <;> cases h
  | postUnlock k =>
      cases h
      cases k with
      | push => exact .postedPush
      | pull puller job_p => exact .postedPull puller job_p
  | pullUnlock puller job_p =>
      cases h
      cases puller with
      | worker => exact .pulledJob job_p
      | clear total => exact .pulledClear total job_p
  | _ => first | (cases h; constructor) | cases h

end Inversion

/-! ## §2. Accesses. -/

/-- The first program point of a call. -/
def Call.pc {J X : Type} : Call J → Pc J X
  | .stay => .outside
  | .thpoolAddWork job => .addAlloc job
  | .thpoolWait => .waitLock
  | .thpoolDestroy => .destroyBegin

section Effects

variable {n : Nat} {κ J X E A : Type}

/-- An access from a program point, with the choice made in it: the data it leaves, and the next
program point. -/
inductive Effect (P : Client κ J X E A) (t : Name n κ) (d : Shared J E) :
    Choice A → Pc J X → Shared J E → Pc J X → Prop where
  | aliveInc (a : Choice A) :
      Effect P t d a .aliveInc
        { d with pool := { d.pool with num_threads_alive := d.pool.num_threads_alive + 1 } }
        .aliveUnlock
  | keepOn (a : Choice A) (hkeep : d.pool.threads_keepalive = true) :
      Effect P t d a .whileKeepalive d .semLock
  | leave (a : Choice A) (hkeep : d.pool.threads_keepalive = false) :
      Effect P t d a .whileKeepalive d .exitLock
  | begin (a : Choice A) (hkeep : d.pool.threads_keepalive = true) :
      Effect P t d a .ifKeepalive d .workingLock
  | drop (a : Choice A) (hkeep : d.pool.threads_keepalive = false) :
      Effect P t d a .ifKeepalive d .whileKeepalive
  | workingInc (a : Choice A) :
      Effect P t d a .workingInc
        { d with pool := { d.pool with num_threads_working := d.pool.num_threads_working + 1 } }
        .workingUnlock
  | noJob (a : Choice A) : Effect P t d a (.ifJob none) d .doneLock
  | begun (a : Choice A) (job_p : Nat) (node : Node Nat J)
      (hnode : d.pool.jobqueue.jobs job_p = some node) :
      Effect P t d a (.ifJob (some job_p)) d (.run (P.start node.value) job_p)
  | lost (a : Choice A) (job_p : Nat) (hnode : d.pool.jobqueue.jobs job_p = none) :
      Effect P t d a (.ifJob (some job_p)) { d with pool := d.pool.faulted } .doneLock
  | goesOn (c : A) (x x' : X) (job_p : Nat) (env : E)
      (hwork : P.work c x d.env = some (env, some x')) :
      Effect P t d (.client c) (.run x job_p) { d with env } (.run x' job_p)
  | returns (c : A) (x : X) (job_p : Nat) (env : E) (hwork : P.work c x d.env = some (env, none)) :
      Effect P t d (.client c) (.run x job_p) { d with env } (.freeJob job_p)
  | freeJob (a : Choice A) (job_p : Nat) :
      Effect P t d a (.freeJob job_p) { d with pool := d.pool.queue fun q => q.free job_p }
        .doneLock
  | lastDone (a : Choice A) (hlast : d.pool.num_threads_working - 1 = 0) :
      Effect P t d a .doneDec
        { d with pool := { d.pool with num_threads_working := d.pool.num_threads_working - 1 } }
        .doneSignal
  | done (a : Choice A) (hmore : d.pool.num_threads_working - 1 ≠ 0) :
      Effect P t d a .doneDec
        { d with pool := { d.pool with num_threads_working := d.pool.num_threads_working - 1 } }
        .doneUnlock
  | exitDec (a : Choice A) :
      Effect P t d a .exitDec
        { d with pool := { d.pool with num_threads_alive := d.pool.num_threads_alive - 1 } }
        .exitUnlock
  | consume (a : Choice A) (hv : d.pool.has_jobs = true) :
      Effect P t d a .semTest { d with pool := { d.pool with has_jobs := false } } .semUnlock
  | noToken (a : Choice A) (hv : d.pool.has_jobs = false) : Effect P t d a .semTest d .semSleep
  | postSet (a : Choice A) (k : Poster) :
      Effect P t d a (.postSet k) { d with pool := { d.pool with has_jobs := true } }
        (.postSignal k)
  | pullLast (a : Choice A) (puller : Puller)
      (hlen : d.pool.jobqueue.len = 0 ∨ d.pool.jobqueue.len = 1) :
      Effect P t d a (.pullTake puller) { d with pool := d.pool.queue JobQueue.pull }
        (.pullUnlock puller d.pool.jobqueue.front)
  | pullMore (a : Choice A) (puller : Puller)
      (hlen : ¬ (d.pool.jobqueue.len = 0 ∨ d.pool.jobqueue.len = 1)) :
      Effect P t d a (.pullTake puller) { d with pool := d.pool.queue JobQueue.pull }
        (.postLock (.pull puller d.pool.jobqueue.front))
  | ready (a : Choice A) (created : Nat) (hall : ¬ created < n)
      (halive : d.pool.num_threads_alive = n) :
      Effect P t d a (.init created) { d with ready := true } .outside
  | spin (a : Choice A) (created : Nat) (hall : ¬ created < n)
      (halive : d.pool.num_threads_alive ≠ n) :
      Effect P t d a (.init created) d (.init created)
  | stay (a : A) (c : κ) (env : E) (ht : t = .inr c)
      (hout : P.outside c a d.env = some (env, .stay)) :
      Effect P t d (.client a) .outside { d with env } .outside
  | call (a : A) (c : κ) (env : E) (call : Call J) (ht : t = .inr c) (hcall : call ≠ .stay)
      (hout : P.outside c a d.env = some (env, call)) (hready : d.ready = true) :
      Effect P t d (.client a) .outside { d with env } call.pc
  | early (a : A) (c : κ) (env : E) (call : Call J) (ht : t = .inr c) (hcall : call ≠ .stay)
      (hout : P.outside c a d.env = some (env, call)) (hready : d.ready = false) :
      Effect P t d (.client a) .outside { d with env, pool := d.pool.faulted } .outside
  | noMemory (job : J) : Effect P t d (.malloc none) (.addAlloc job) d .outside
  | addAlloc (job : J) (a : Nat) (prev : Option Nat) (hfresh : d.pool.jobqueue.jobs a = none) :
      Effect P t d (.malloc (some (a, prev))) (.addAlloc job)
        { d with pool := d.pool.queue fun q => q.alloc a job prev } (.pushLock a)
  | pushLink (a : Choice A) (newjob : Nat) :
      Effect P t d a (.pushLink newjob) { d with pool := d.pool.queue fun q => q.push newjob }
        (.postLock .push)
  | queued (a : Choice A) (hlen : d.pool.jobqueue.len ≠ 0) : Effect P t d a .waitLen d .waitSleep
  | empty (a : Choice A) (hlen : d.pool.jobqueue.len = 0) : Effect P t d a .waitLen d .waitWorking
  | busy (a : Choice A) (hworking : d.pool.num_threads_working ≠ 0) :
      Effect P t d a .waitWorking d .waitSleep
  | idle (a : Choice A) (hworking : d.pool.num_threads_working = 0) :
      Effect P t d a .waitWorking d .waitUnlock
  | destroyBegin (a : Choice A) :
      Effect P t d a .destroyBegin d (.destroyStop d.pool.num_threads_alive)
  | destroyStop (a : Choice A) (total : Int) :
      Effect P t d a (.destroyStop total)
        { d with pool := { d.pool with threads_keepalive := false } } (.destroyLoop total false)
  | postAgain (a : Choice A) (total : Int) (polling : Bool)
      (halive : d.pool.num_threads_alive ≠ 0) :
      Effect P t d a (.destroyLoop total polling) d (.postAllLock total polling)
  | poll (a : Choice A) (total : Int) :
      Effect P t d a (.destroyLoop total false) d (.destroyLoop total true)
  | allGone (a : Choice A) (total : Int) (halive : d.pool.num_threads_alive = 0) :
      Effect P t d a (.destroyLoop total true) d (.clearTest total)
  | postAllSet (a : Choice A) (total : Int) (polling : Bool) :
      Effect P t d a (.postAllSet total polling) { d with pool := { d.pool with has_jobs := true } }
        (.postAllBroadcast total polling)
  | clearMore (a : Choice A) (total : Int) (hlen : d.pool.jobqueue.len ≠ 0) :
      Effect P t d a (.clearTest total) d (.pullLock (.clear total))
  | clearDone (a : Choice A) (total : Int) (hlen : d.pool.jobqueue.len = 0) :
      Effect P t d a (.clearTest total) d (.clearReset total)
  | freeNull (a : Choice A) (total : Int) :
      Effect P t d a (.clearFree total none) d (.clearTest total)
  | clearFree (a : Choice A) (total : Int) (job_p : Nat) :
      Effect P t d a (.clearFree total (some job_p))
        { d with pool := d.pool.queue fun q => q.free job_p } (.clearTest total)
  | clearReset (a : Choice A) (total : Int) :
      Effect P t d a (.clearReset total)
        { d with pool := { d.pool with
            jobqueue := { d.pool.jobqueue with front := none, rear := none, len := 0 }
            has_jobs := false } }
        (.destroyed total)

variable {P : Client κ J X E A} {t : Name n κ}
  {f : Choice A → Shared J E → Option (Shared J E × Pc J X)} {a : Choice A} {d d' : Shared J E}
  {p next : Pc J X}

/-- A call of the pool enters it if there is one. -/
theorem enter_of_ne_stay {env : E} {call : Call J} (hcall : call ≠ .stay) :
    (enter d env call : Shared J E × Pc J X)
      = if d.ready then ({ d with env }, call.pc)
        else ({ d with env, pool := d.pool.faulted }, .outside) := by
  cases call with
  | stay => exact absurd rfl hcall
  | _ => rfl

theorem effect_of_enter {c : κ} {a : A} {env : E} {call : Call J} (ht : t = .inr c)
    (hout : P.outside c a d.env = some (env, call)) (h : enter d env call = (d', next)) :
    Effect P t d (.client a) .outside d' next := by
  by_cases hcall : call = .stay
  · subst hcall
    cases h
    exact .stay a c env ht hout
  · rw [enter_of_ne_stay hcall] at h
    by_cases hready : d.ready = true
    · rw [if_pos hready] at h
      cases h
      exact .call a c env call ht hcall hout hready
    · rw [if_neg hready] at h
      cases h
      exact .early a c env call ht hcall hout (by simpa using hready)

/-- An access that goes on at one of two points. -/
theorem Effect.ite {b : Prop} [Decidable b] {x y : Pc J X} (hx : b → Effect P t d a p d' x)
    (hy : ¬ b → Effect P t d a p d' y) : Effect P t d a p d' (if b then x else y) := by
  by_cases h : b
  · rw [if_pos h]
    exact hx h
  · rw [if_neg h]
    exact hy h

/-- **What an access does.** -/
theorem effect_of_access (hcode : code P t p = .access f) (hf : f a d = some (d', next)) :
    Effect P t d a p d' next := by
  cases p with
  | whileKeepalive =>
      cases hcode
      cases hf
      exact .ite (fun hkeep => .keepOn a hkeep) fun hkeep => .leave a (by simpa using hkeep)
  | ifKeepalive =>
      cases hcode
      cases hf
      exact .ite (fun hkeep => .begin a hkeep) fun hkeep => .drop a (by simpa using hkeep)
  | ifJob job_p =>
      cases job_p with
      | none =>
          cases hcode
          cases hf
          exact .noJob a
      | some job_p =>
          cases hcode
          cases hnode : d.pool.jobqueue.jobs job_p with
          | some node =>
              simp only [hnode] at hf
              cases hf
              exact .begun a job_p node hnode
          | none =>
              simp only [hnode] at hf
              cases hf
              exact .lost a job_p hnode
  | run x job_p =>
      cases hcode
      cases a with
      | client c =>
          obtain ⟨⟨env, r⟩, hwork, heq⟩ := Option.map_eq_some_iff.mp hf
          cases r with
          | some x' =>
              cases heq
              exact .goesOn c x x' job_p env hwork
          | none =>
              cases heq
              exact .returns c x job_p env hwork
      | _ => cases hf
  | doneDec =>
      cases hcode
      cases hf
      exact .ite (fun hlast => .lastDone a hlast) fun hmore => .done a hmore
  | semTest =>
      cases hcode
      by_cases hv : d.pool.has_jobs = true
      · simp only [hv, if_true] at hf
        cases hf
        exact .consume a hv
      · simp only [hv] at hf
        cases hf
        exact .noToken a (by simpa using hv)
  | pullTake puller =>
      cases hcode
      cases hf
      exact .ite (fun hlen => .pullLast a puller hlen) fun hlen => .pullMore a puller hlen
  | init created =>
      simp only [code] at hcode
      -- `thpool_init` creates threads first, and then spins until all are alive
      by_cases hall : created < n
      · rw [dif_pos hall] at hcode
        cases hcode
      · rw [dif_neg hall] at hcode
        cases hcode
        by_cases halive : d.pool.num_threads_alive = n
        · simp only [halive, if_true] at hf
          cases hf
          exact .ready a created hall halive
        · simp only [halive, if_false] at hf
          cases hf
          exact .spin a created hall halive
  | outside =>
      cases t with
      | inl i => cases hcode
      | inr c =>
          cases hcode
          cases a with
          | client a =>
              obtain ⟨⟨env, call⟩, hout, heq⟩ := Option.map_eq_some_iff.mp hf
              exact effect_of_enter rfl hout heq
          | _ => cases hf
  | addAlloc job =>
      cases hcode
      cases a with
      | malloc block =>
          cases block with
          | none =>
              cases hf
              exact .noMemory job
          | some block =>
              obtain ⟨a, prev⟩ := block
              -- `malloc` fails, or returns a block that is not in use
              by_cases hfresh : (d.pool.jobqueue.jobs a).isNone = true
              · simp only [hfresh, if_true] at hf
                cases hf
                exact .addAlloc job a prev (by simpa using hfresh)
              · simp only [hfresh] at hf
                cases hf
      | _ => cases hf
  | waitLen =>
      cases hcode
      cases hf
      exact .ite (fun hlen => .queued a hlen) fun hlen => .empty a (not_not.mp hlen)
  | waitWorking =>
      cases hcode
      cases hf
      exact .ite (fun hworking => .busy a hworking) fun hworking => .idle a (not_not.mp hworking)
  | destroyLoop total polling =>
      -- the loop of the first second, and the one that polls every second
      cases polling with
      | false =>
          cases hcode
          cases a with
          | timeout passed =>
              cases hf
              exact .ite (fun hagain => .postAgain _ total false hagain.2) fun _ => .poll _ total
          | _ => cases hf
      | true =>
          cases hcode
          cases hf
          exact .ite (fun halive => .postAgain a total true halive)
            fun halive => .allGone a total (not_not.mp halive)
  | clearTest total =>
      cases hcode
      cases hf
      exact .ite (fun hlen => .clearMore a total hlen)
        fun hlen => .clearDone a total (not_not.mp hlen)
  | clearFree total job_p =>
      cases job_p with
      | none =>
          cases hcode
          cases hf
          exact .freeNull a total
      | some job_p =>
          cases hcode
          cases hf
          exact .clearFree a total job_p
  | _ => first | (cases hcode; cases hf; constructor) | cases hcode

/-- Only `thpool_init` creates threads. -/
theorem create_of_code {u : Name n κ} (hcode : code P t p = .create u next) :
    ∃ created, ∃ h : created < n, p = .init created ∧ u = .inl ⟨created, h⟩
      ∧ next = .init (created + 1) := by
  cases p with
  | init created =>
      simp only [code] at hcode
      by_cases h : created < n
      · rw [dif_pos h] at hcode
        cases hcode
        exact ⟨created, h, rfl, rfl, rfl⟩
      · rw [dif_neg h] at hcode
        cases hcode
  | outside => cases t <;> cases hcode
  | destroyLoop total polling => cases polling <;> cases hcode
  | ifJob job_p | clearFree total job_p => cases job_p <;> cases hcode
  | _ => cases hcode

end Effects

/-! ## §3. Steps. -/

section Turns

variable {n : Nat} {κ J X E A : Type} [DecidableEq κ]

/-- A step of the pool, and the state it leads to. -/
inductive Turn (P : Client κ J X E A) (s : PoolState n κ J X E) :
    Move (Name n κ) (Choice A) → PoolState n κ J X E → Prop where
  | lock (t : Name n κ) (a : Choice A) (m : Mutex) (next : Pc J X)
      (hrun : (s.thread t).mode = .running) (hpass : Passes (s.pcs t) (.lock m) next)
      (hfree : s.owner m = none) : Turn P s (.go t a) ((s.goto t next).own m (some t))
  | unlock (t : Name n κ) (a : Choice A) (m : Mutex) (next : Pc J X)
      (hrun : (s.thread t).mode = .running) (hpass : Passes (s.pcs t) (.unlock m) next) :
      Turn P s (.go t a) ((s.goto t next).own m none)
  | sleep (t : Name n κ) (a : Choice A) (c : Cond) (m : Mutex) (next : Pc J X)
      (hrun : (s.thread t).mode = .running) (hpass : Passes (s.pcs t) (.wait c m) next) :
      Turn P s (.go t a) ((s.put t ⟨next, .asleep c m⟩).own m none)
  | signalNobody (t : Name n κ) (a : Choice A) (c : Cond) (next : Pc J X)
      (hrun : (s.thread t).mode = .running) (hpass : Passes (s.pcs t) (.signal c) next)
      (hnobody : ∀ u, ¬ (s.thread u).mode.SleepsOn c) : Turn P s (.go t a) (s.goto t next)
  | signal (t u : Name n κ) (c : Cond) (m : Mutex) (next : Pc J X)
      (hrun : (s.thread t).mode = .running) (hpass : Passes (s.pcs t) (.signal c) next)
      (hasleep : (s.thread u).mode = .asleep c m) :
      Turn P s (.signal t u) ((s.wake u m).goto t next)
  | broadcast (t : Name n κ) (a : Choice A) (c : Cond) (next : Pc J X)
      (hrun : (s.thread t).mode = .running) (hpass : Passes (s.pcs t) (.broadcast c) next) :
      Turn P s (.go t a) ((s.wakeAll c).goto t next)
  | create (t : Name n κ) (a : Choice A) (created : Nat) (h : created < n)
      (hrun : (s.thread t).mode = .running) (hpc : s.pcs t = .init created)
      (hunborn : (s.thread (.inl ⟨created, h⟩)).mode = .unborn) :
      Turn P s (.go t a)
        ((s.put (.inl ⟨created, h⟩) ⟨s.pcs (.inl ⟨created, h⟩), .running⟩).goto t
          (.init (created + 1)))
  | access (t : Name n κ) (a : Choice A) (d : Shared J E) (next : Pc J X)
      (hrun : (s.thread t).mode = .running) (heff : Effect P t s.data a (s.pcs t) d next) :
      Turn P s (.go t a) { s.goto t next with data := d }
  | wake (u : Name n κ) (c : Cond) (m : Mutex) (hasleep : (s.thread u).mode = .asleep c m) :
      Turn P s (.wake u) (s.wake u m)
  | relock (t : Name n κ) (m : Mutex) (hwoken : (s.thread t).mode = .woken m)
      (hfree : s.owner m = none) : Turn P s (.relock t) ((s.goto t (s.pcs t)).own m (some t))

variable {P : Client κ J X E A} {s s' : PoolState n κ J X E}

/-- **Inversion of a step of the pool.** -/
theorem turn_of_step [Fintype κ] {l : Move (Name n κ) (Choice A)}
    (hs : s.step (code P) l = some s') : Turn P s l s' := by
  have hgoes : ∀ {t : Name n κ} {k next}, (code P t (s.pcs t)).Goes k next →
      Passes (s.pcs t) k next := passes_of_goes
  cases trans_of_step hs with
  | lock t a m next hrun hcode hfree =>
      have hgo : (code P t (s.pcs t)).Goes (.lock m) next := hcode ▸ .lock
      exact .lock t a m next hrun (hgoes hgo) hfree
  | unlock t a m next hrun hcode =>
      have hgo : (code P t (s.pcs t)).Goes (.unlock m) next := hcode ▸ .unlock
      exact .unlock t a m next hrun (hgoes hgo)
  | sleep t a c m next hrun hcode =>
      have hgo : (code P t (s.pcs t)).Goes (.wait c m) next := hcode ▸ .wait
      exact .sleep t a c m next hrun (hgoes hgo)
  | signalNobody t a c next hrun hcode hnobody =>
      have hgo : (code P t (s.pcs t)).Goes (.signal c) next := hcode ▸ .signal
      exact .signalNobody t a c next hrun (hgoes hgo) hnobody
  | signal t u c m next hrun hcode hasleep =>
      have hgo : (code P t (s.pcs t)).Goes (.signal c) next := hcode ▸ .signal
      exact .signal t u c m next hrun (hgoes hgo) hasleep
  | broadcast t a c next hrun hcode =>
      have hgo : (code P t (s.pcs t)).Goes (.broadcast c) next := hcode ▸ .broadcast
      exact .broadcast t a c next hrun (hgoes hgo)
  | create t a u next hrun hcode hunborn =>
      obtain ⟨created, h, hpc, rfl, rfl⟩ := create_of_code hcode
      exact .create t a created h hrun hpc hunborn
  | access t a f d next hrun hcode hf =>
      exact .access t a d next hrun (effect_of_access hcode hf)
  | wake u c m hasleep => exact .wake u c m hasleep
  | relock t m hwoken hfree => exact .relock t m hwoken hfree

end Turns

end SensorServer.Pool
