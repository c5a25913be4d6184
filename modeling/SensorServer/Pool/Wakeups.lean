/-
  SensorServer.Pool.Wakeups — no worker sleeps through a wake-up.

  The binary semaphore forgets how often it was posted.  Still no wake-up is lost: while jobs are
  queued, the semaphore is up or some thread is about to put it up (`Watch.token`), and while it
  is up, the sleepers are about to be told, or a worker is about to test it, or nobody sleeps
  (`heard`).
-/
import SensorServer.Pool.JobQueue

namespace SensorServer.Pool

open SensorServer.Framework
open SensorServer.Framework.Pthread

/-! ## §1. Program points. -/

section Points

variable {J X : Type}

/-- About to put the semaphore up, or to pull and then do so if jobs are left. -/
def Pc.brings : Pc J X → Bool
  | .semUnlock | .ifKeepalive | .workingLock | .workingInc | .workingUnlock | .pullLock _
  | .pullTake _ | .postLock _ | .postSet _ => true
  | _ => false

/-- The semaphore is up, and the sleepers are about to be told. -/
def Pc.announces : Pc J X → Bool
  | .postSignal _ | .postAllBroadcast _ _ => true
  | _ => false

/-- About to test the semaphore. -/
def Pc.tests : Pc J X → Bool
  | .semTest => true
  | _ => false

/-- In `thpool_wait`. -/
def Pc.inWait : Pc J X → Bool
  | .waitLock | .waitLen | .waitWorking | .waitSleep | .waitUnlock => true
  | _ => false

/-- Behind the end of `threads_keepalive`. -/
def Pc.leaving : Pc J X → Bool
  | .exitLock | .exitDec | .exitUnlock | .exited | .destroyLoop _ _ | .postAllLock _ _
  | .postAllSet _ _ | .postAllBroadcast _ _ | .postAllUnlock _ _ => true
  | p => p.clearing

end Points

/-! ## §2. One caller waits at a time. -/

section Contract

variable {n : Nat} {κ J X E A : Type}

/-- A call of `thpool_wait` while nobody else is in one. -/
def WaitsAlone (s : PoolState n κ J X E) : Call J → Prop
  | .thpoolWait => ∀ c : κ, (s.pcs (.inr c)).inWait = false
  | _ => True

instance [Fintype κ] (s : PoolState n κ J X E) : DecidablePred (WaitsAlone s)
  | .thpoolWait => inferInstanceAs (Decidable (∀ c : κ, (s.pcs (.inr c)).inWait = false))
  | .stay | .thpoolAddWork _ | .thpoolDestroy => .isTrue trivial

/-- `pthread_cond_signal` wakes one thread, so `threads_all_idle` serves one waiter. -/
def OneWaiter (P : Client κ J X E A) (s : PoolState n κ J X E) (l : Move (Name n κ) (Choice A)) :
    Prop :=
  ∀ call ∈ calling P s l, WaitsAlone s call

instance [Fintype κ] (P : Client κ J X E A) (s : PoolState n κ J X E)
    (l : Move (Name n κ) (Choice A)) : Decidable (OneWaiter P s l) :=
  inferInstanceAs (Decidable (∀ call ∈ calling P s l, WaitsAlone s call))

end Contract

/-! ## §3. Steps. -/

section Steps

variable {n : Nat} {κ J X E A : Type} {P : Client κ J X E A} {t : Name n κ} {a : Choice A}
  {d d' : Shared J E} {p next : Pc J X} {k : Doing Mutex Cond}

theorem watch_of_passes (h : Passes p k next) :
    (p.brings = true → next.brings = true) ∧ next.leaving = p.leaving
      ∧ (next.inWait = true → p.inWait = true) ∧ p.tests = false ∧ next ≠ .semSleep
      ∧ (p.announces = true → k = .signal .has_jobs ∨ k = .broadcast .has_jobs) := by
  cases h <;> simp [Pc.brings, Pc.leaving, Pc.inWait, Pc.tests, Pc.announces, Pc.clearing,
    Poster.ofClear, Puller.ofClear]

/-- Where jobs are queued after an access, the semaphore is up, or the thread will put it up, or
neither has changed. -/
theorem token_of_effect (h : Effect P t d a p d' next) (hkeep : d'.pool.threads_keepalive = true)
    (hlen : d'.pool.jobqueue.len ≠ 0) :
    d'.pool.has_jobs = true ∨ next.brings = true
      ∨ d.pool.threads_keepalive = true ∧ d.pool.jobqueue.len ≠ 0
        ∧ d'.pool.has_jobs = d.pool.has_jobs ∧ p.brings = false := by
  cases h with
  | begin | workingInc | consume | pullMore | pushLink => exact .inr (.inl rfl)
  | postSet | postAllSet => exact .inl rfl
  | drop a hdrop => rw [hdrop] at hkeep; cases hkeep
  | destroyStop => cases hkeep
  | clearReset => exact absurd rfl hlen
  | pullLast a puller hshort =>
      -- the last job was pulled: nothing is queued any more
      refine absurd ?_ hlen
      show (JobQueue.pull _).len = 0
      unfold JobQueue.pull
      rcases hshort with h0 | h1
      · rw [if_pos h0]
        exact h0
      · rw [if_neg (by omega), if_pos h1]
  | freeJob a job_p | clearFree a total job_p =>
      refine .inr (.inr ⟨hkeep, ?_, rfl, rfl⟩)
      have hsame : (d.pool.jobqueue.free job_p).len = d.pool.jobqueue.len := by
        unfold JobQueue.free
        split <;> rfl
      exact hsame ▸ hlen
  | _ => exact .inr (.inr ⟨hkeep, hlen, rfl, rfl⟩)

/-- Only who holds the mutex of the semaphore puts it up. -/
theorem up_of_effect (h : Effect P t d a p d' next) (hup : d'.pool.has_jobs = true) :
    next ≠ .semSleep
      ∧ (d.pool.has_jobs = true ∨ p.Holds .bsem ∧ p ≠ .semTest ∧ p ≠ .waitLen) := by
  cases h with
  | noToken a hv => rw [hv] at hup; cases hup
  | consume | clearReset => cases hup
  | postSet =>
      exact ⟨nofun, .inr ⟨List.mem_cons_of_mem _ List.mem_cons_self, nofun, nofun⟩⟩
  | postAllSet => exact ⟨nofun, .inr ⟨List.mem_cons_self, nofun, nofun⟩⟩
  | call a c env call ht hcall hout hready => cases call <;> exact ⟨nofun, .inl hup⟩
  | _ => exact ⟨nofun, .inl hup⟩

/-- Nobody leaves while `threads_keepalive` holds. -/
theorem leaving_of_effect (h : Effect P t d a p d' next)
    (hkeep : d'.pool.threads_keepalive = true) :
    d.pool.threads_keepalive = true ∧ (next.leaving = true → p.leaving = true) := by
  cases h with
  | leave a hgone => rw [hgone] at hkeep; cases hkeep
  | destroyStop => cases hkeep
  | call a c env call ht hcall hout hready => cases call <;> exact ⟨hkeep, nofun⟩
  | _ => exact ⟨hkeep, id⟩

theorem inWait_of_effect (h : Effect P t d a p d' next) (hnext : next.inWait = true) :
    p.inWait = true ∨ p.isOutside = true := by
  cases h with
  | stay | call => exact .inr rfl
  | _ => exact .inl hnext

end Steps

/-- Who comes into `thpool_wait` comes alone. -/
theorem alone_of_effect {n : Nat} {κ J X E A : Type} {P : Client κ J X E A}
    {s : PoolState n κ J X E} {t : Name n κ} {a : Choice A} {d : Shared J E} {next : Pc J X}
    (hone : OneWaiter P s (.go t a)) (hpc : (s.pcs t).isOutside = true)
    (heff : Effect P t s.data a (s.pcs t) d next) (hnext : next.inWait = true) (c : κ) :
    (s.pcs (.inr c)).inWait = false := by
  rcases outside_of_effect hpc heff with hstay | ⟨c', a, env, call, rfl, rfl, hout, hcall, -, rfl⟩
  · rw [isOutside_iff.mp hstay] at hnext
    cases hnext
  · have halone : WaitsAlone s call := by
      apply hone
      show call ∈ if (s.pcs (.inr c')).isOutside = true then
        (P.outside c' a s.data.env).map Prod.snd else none
      rw [hpc, hout]
      rfl
    cases call with
    | thpoolWait => exact halone c
    | _ => cases hnext

/-! ## §4. What is kept of the data and the program points. -/

/-- No job is forgotten. -/
structure Watch {n : Nat} {κ J X E : Type} (d : Shared J E) (pcs : Name n κ → Pc J X) : Prop where
  /-- While jobs are queued, somebody will put the semaphore up. -/
  token : d.pool.threads_keepalive = true → d.pool.jobqueue.len ≠ 0 →
    d.pool.has_jobs = true ∨ ∃ t, (pcs t).brings = true
  /-- Who is about to sleep has seen the semaphore down. -/
  down : ∀ t, pcs t = .semSleep → d.pool.has_jobs = false
  staying : d.pool.threads_keepalive = true → ∀ t, (pcs t).leaving = false

section Runs

variable {n : Nat} {κ J X E A : Type} [DecidableEq κ] {P : Client κ J X E A} {main : κ} {env : E}

theorem start_parked :
    Parked (code P) (start n J X main env) (start n J X main env) := by
  refine Parked.start ?_
  rintro (i | c)
  · exact .inl rfl
  · exact .inr rfl

variable [Fintype κ] {ok : PoolState n κ J X E → Move (Name n κ) (Choice A) → Prop}
  {s : PoolState n κ J X E}

/-- Where a thread stands that does not run. -/
theorem mode_cases (h : Reached P main env ok s) (t : Name n κ) :
    (s.thread t).mode = .running
      ∨ (s.thread t).mode = .unborn ∧ (∃ i, t = .inl i ∧ s.pcs t = .aliveLock)
      ∨ ((s.thread t).mode = .asleep .has_jobs .bsem ∨ (s.thread t).mode = .woken .bsem)
        ∧ s.pcs t = .semTest
      ∨ ((s.thread t).mode = .asleep .threads_all_idle .thcount_lock
          ∨ (s.thread t).mode = .woken .thcount_lock) ∧ s.pcs t = .waitLen := by
  have hparked := Parked.reach (start_parked (P := P)) h
  cases hmode : (s.thread t).mode with
  | running => exact .inl rfl
  | unborn =>
      have hthread := hparked.unborn t hmode
      refine .inr (.inl ⟨rfl, ?_⟩)
      cases t with
      | inl i => exact ⟨i, rfl, congrArg Thread.pc hthread⟩
      | inr c =>
          rw [hthread] at hmode
          cases hmode
  | asleep c m =>
      obtain ⟨p, hp⟩ := hparked.asleep t c m hmode
      -- the thread sleeps behind one of the two waits of the code
      have hpass := passes_of_goes hp
      generalize s.pcs t = next at hpass
      cases hpass with
      | semSleep => exact .inr (.inr (.inl ⟨.inl rfl, rfl⟩))
      | waitSleep => exact .inr (.inr (.inr ⟨.inl rfl, rfl⟩))
  | woken m =>
      obtain ⟨c, p, hp⟩ := hparked.woken t m hmode
      have hpass := passes_of_goes hp
      generalize s.pcs t = next at hpass
      cases hpass with
      | semSleep => exact .inr (.inr (.inl ⟨.inr rfl, rfl⟩))
      | waitSleep => exact .inr (.inr (.inr ⟨.inr rfl, rfl⟩))

/-- Who holds a mutex and is not behind a wait runs. -/
theorem running_of_holds (h : Reached P main env ok s) {t : Name n κ} {m : Mutex}
    (hholds : (s.pcs t).Holds m) (htest : s.pcs t ≠ .semTest) (hlen : s.pcs t ≠ .waitLen) :
    (s.thread t).mode = .running := by
  rcases mode_cases h t with hrun | ⟨-, i, -, hp⟩ | ⟨-, hp⟩ | ⟨-, hp⟩
  · exact hrun
  · rw [hp] at hholds
    cases hholds
  · exact absurd hp htest
  · exact absurd hp hlen

/-- **What is kept of the data and the program points.** -/
theorem watch (h : Reached P main env ok s) : Watch s.data s.pcs := by
  refine Reached.view (I := fun d pcs => Watch d pcs) ?_ ?_ ?_ h
  · refine ⟨fun _ hlen => absurd rfl hlen, fun _ _ => rfl, fun _ => ?_⟩
    rintro (i | c)
    · rfl
    · rw [start_pcs_caller]
      split <;> rfl
  · intro s t k next _ hI hpass
    obtain ⟨hbrings, hleaving, -, -, hsleep, -⟩ := watch_of_passes hpass
    refine ⟨fun hkeep hlen => ?_, fun u hu => ?_, fun hkeep => ?_⟩
    · rcases hI.token hkeep hlen with hup | ⟨u, hu⟩
      · exact .inl hup
      · refine .inr ⟨u, ?_⟩
        by_cases hut : u = t
        · subst hut
          rw [Function.update_self]
          exact hbrings hu
        · rw [Function.update_of_ne hut]
          exact hu
    · by_cases hut : u = t
      · subst hut
        rw [Function.update_self] at hu
        exact absurd hu hsleep
      · rw [Function.update_of_ne hut] at hu
        exact hI.down u hu
    · exact (Function.forall_update_iff _ fun _ (p : Pc J X) => p.leaving = false).mpr
        ⟨hleaving.trans (hI.staying hkeep t), fun u _ => hI.staying hkeep u⟩
  · intro s t a d next hreach hI _ heff
    refine ⟨fun hkeep hlen => ?_, fun u hu => ?_, fun hkeep => ?_⟩
    · -- the semaphore is up, the thread will put it up, or who was to do so still is
      rcases token_of_effect heff hkeep hlen with hup | hnext | ⟨hkeep, hlen, hsame, hnot⟩
      · exact .inl hup
      · exact .inr ⟨t, by rw [Function.update_self]; exact hnext⟩
      · rcases hI.token hkeep hlen with hup | ⟨u, hu⟩
        · exact .inl (hsame.trans hup)
        · refine .inr ⟨u, ?_⟩
          rw [Function.update_of_ne]
          · exact hu
          · rintro rfl
            rw [hnot] at hu
            cases hu
    · by_contra hup
      rw [Bool.not_eq_false] at hup
      -- a thread about to sleep has seen the semaphore down, under its mutex
      obtain ⟨hne, hbefore⟩ := up_of_effect heff hup
      by_cases hut : u = t
      · subst hut
        rw [Function.update_self] at hu
        exact hne hu
      · rw [Function.update_of_ne hut] at hu
        rcases hbefore with hbefore | ⟨hholds, htest, hlen⟩
        · rw [hI.down u hu] at hbefore
          cases hbefore
        · -- both would hold the mutex of the semaphore
          have hsleep : (s.pcs u).Holds .bsem := by
            rw [hu]
            exact List.mem_cons_self
          refine hut ((Locked.reach (disciplined P) start_locked hreach).exclusive ?_ hsleep ?_ hholds)
          · exact running_of_holds hreach hsleep (by rw [hu]; nofun) (by rw [hu]; nofun)
          · exact running_of_holds hreach hholds htest hlen
    · obtain ⟨hkeep', hleaving⟩ := leaving_of_effect heff hkeep
      refine (Function.forall_update_iff _ fun _ (p : Pc J X) => p.leaving = false).mpr
        ⟨?_, fun u _ => hI.staying hkeep' u⟩
      refine Bool.eq_false_iff.mpr fun hnext => ?_
      have hold := hleaving hnext
      rw [hI.staying hkeep' t] at hold
      cases hold

/-- **One caller at a time is in `thpool_wait`.** -/
theorem single_waiter (hone : ∀ s l, ok s l → OneWaiter P s l) (h : Reached P main env ok s) :
    ∀ c c', (s.pcs (.inr c)).inWait = true → (s.pcs (.inr c')).inWait = true → c = c' := by
  refine Reached.view (I := fun _ pcs => ∀ c c', (pcs (.inr c)).inWait = true →
    (pcs (.inr c')).inWait = true → c = c') ?_ ?_ ?_ h
  · intro c c' hc
    rw [start_pcs_caller] at hc
    split at hc <;> cases hc
  · intro s t k next _ hI hpass c c' hc hc'
    obtain ⟨-, -, hwait, -⟩ := watch_of_passes hpass
    have hold : ∀ c, (Function.update s.pcs t next (.inr c)).inWait = true →
        (s.pcs (.inr c)).inWait = true := fun c =>
      (Function.forall_update_iff s.pcs fun u (p : Pc J X) => p.inWait = true →
        (s.pcs u).inWait = true).mpr ⟨hwait, fun u _ => id⟩ (.inr c)
    exact hI c c' (hold c hc) (hold c' hc')
  · intro s t a d next _ hI hok heff c c' hc hc'
    -- who comes in finds no other caller there
    have halone := fun hpc hnext => alone_of_effect (hone s _ hok) hpc heff hnext
    by_cases hct : .inr c = t
    · by_cases hct' : .inr c' = t
      · exact Sum.inr.inj (hct.trans hct'.symm)
      · subst hct
        rw [Function.update_self] at hc
        rw [Function.update_of_ne hct'] at hc'
        rcases inWait_of_effect heff hc with hold | hpc
        · exact hI c c' hold hc'
        · rw [halone hpc hc c'] at hc'
          cases hc'
    · rw [Function.update_of_ne hct] at hc
      by_cases hct' : .inr c' = t
      · subst hct'
        rw [Function.update_self] at hc'
        rcases inWait_of_effect heff hc' with hold | hpc
        · exact hI c c' hc hold
        · rw [halone hpc hc' c] at hc
          cases hc
      · rw [Function.update_of_ne hct'] at hc'
        exact hI c c' hc hc'

end Runs

/-! ## §5. The semaphore is heard. -/

section Heard

variable {n : Nat} {κ J X E : Type}

/-- While the semaphore is up, the sleepers are about to be told, or a worker is about to test
it, or nobody sleeps. -/
def Heard (s : PoolState n κ J X E) : Prop :=
  s.data.pool.has_jobs = true →
    (∃ t, (s.pcs t).announces = true)
      ∨ (∃ t, (s.pcs t).tests = true ∧ ¬ (s.thread t).mode.SleepsOn .has_jobs)
      ∨ ∀ t, ¬ (s.thread t).mode.SleepsOn .has_jobs

variable [DecidableEq κ] {s : PoolState n κ J X E} {t : Name n κ} {next : Pc J X}
  {mode : Mode Mutex Cond}

/-- A thread goes on from where it neither announces nor tests. -/
theorem Heard.go (h : Heard s) (hannounces : (s.pcs t).announces = false)
    (htests : (s.pcs t).tests = false) (hmode : ¬ mode.SleepsOn Cond.has_jobs) {d : Shared J E}
    (hup : d.pool.has_jobs = true → s.data.pool.has_jobs = true)
    {o : Mutex → Option (Name n κ)} :
    Heard { s.put t ⟨next, mode⟩ with data := d, owner := o } := by
  intro hnew
  have hpcs : ∀ u, u ≠ t → State.pcs { s.put t ⟨next, mode⟩ with data := d, owner := o } u
      = s.pcs u := fun u hu =>
    (congrFun (put_pcs s t ⟨next, mode⟩) u).trans (Function.update_of_ne hu ..)
  have hthread : ∀ u, u ≠ t → (s.put t ⟨next, mode⟩).thread u = s.thread u := fun u hu =>
    Function.update_of_ne hu ..
  -- whoever was to send or hear the signal is another thread, and stays where it is
  rcases h (hup hnew) with ⟨u, hu⟩ | ⟨u, hu, hawake⟩ | hnobody
  · have hut : u ≠ t := by
      rintro rfl
      rw [hannounces] at hu
      cases hu
    exact .inl ⟨u, by rw [hpcs u hut]; exact hu⟩
  · have hut : u ≠ t := by
      rintro rfl
      rw [htests] at hu
      cases hu
    refine .inr (.inl ⟨u, by rw [hpcs u hut]; exact hu, ?_⟩)
    show ¬ ((s.put t ⟨next, mode⟩).thread u).mode.SleepsOn _
    rw [hthread u hut]
    exact hawake
  · refine .inr (.inr fun u => ?_)
    show ¬ ((s.put t ⟨next, mode⟩).thread u).mode.SleepsOn _
    by_cases hut : u = t
    · rw [hut, put_thread, Function.update_self]
      exact hmode
    · rw [hthread u hut]
      exact hnobody u

/-- A thread gets up. -/
theorem Heard.rouse (h : Heard s) (hmode : ¬ mode.SleepsOn Cond.has_jobs)
    {o : Mutex → Option (Name n κ)} :
    Heard { s.put t ⟨s.pcs t, mode⟩ with owner := o } := by
  intro hup
  have hpcs : State.pcs { s.put t ⟨s.pcs t, mode⟩ with owner := o } = s.pcs :=
    (put_pcs s t ⟨s.pcs t, mode⟩).trans (Function.update_eq_self t _)
  have hkeep : ∀ u, ¬ (s.thread u).mode.SleepsOn Cond.has_jobs →
      ¬ ((s.put t ⟨s.pcs t, mode⟩).thread u).mode.SleepsOn Cond.has_jobs := by
    intro u hu
    by_cases hut : u = t
    · rw [hut, put_thread, Function.update_self]
      exact hmode
    · rw [put_thread, Function.update_of_ne hut]
      exact hu
  rw [hpcs]
  rcases h hup with hann | ⟨u, hu, hawake⟩ | hnobody
  · exact .inl hann
  · exact .inr (.inl ⟨u, hu, hkeep u hawake⟩)
  · exact .inr (.inr fun u => hkeep u (hnobody u))

end Heard

section Effects

variable {n : Nat} {κ J X E A : Type} {P : Client κ J X E A} {t : Name n κ} {a : Choice A}
  {d d' : Shared J E} {p next : Pc J X}

/-- Who puts the semaphore up announces it, and who tests it sleeps or takes it down. -/
theorem heard_of_effect (h : Effect P t d a p d' next) (hup : d'.pool.has_jobs = true) :
    next.announces = true
      ∨ d.pool.has_jobs = true ∧ p.announces = false ∧ p.tests = false := by
  cases h with
  | noToken a hv => rw [hv] at hup; cases hup
  | consume | clearReset => cases hup
  | postSet | postAllSet => exact .inl rfl
  | _ => exact .inr ⟨hup, rfl, rfl⟩

end Effects

section HeardRuns

variable {n : Nat} {κ J X E A : Type} [DecidableEq κ] [Fintype κ] {P : Client κ J X E A}
  {main : κ} {env : E} {ok : PoolState n κ J X E → Move (Name n κ) (Choice A) → Prop}
  {s s' : PoolState n κ J X E}

theorem Heard.step (h : Heard s) (hwatch : Watch s.data s.pcs)
    (hasleep : ∀ t m, (s.thread t).mode = .asleep .has_jobs m → (s.pcs t).tests = true)
    {l : Move (Name n κ) (Choice A)} (hs : s.step (code P) l = some s') : Heard s' := by
  -- an instruction that is neither an access nor a call to the sleepers
  have hquiet : ∀ {t k next}, Passes (s.pcs t) k next → k ≠ .signal .has_jobs →
      k ≠ .broadcast .has_jobs → (s.pcs t).announces = false ∧ (s.pcs t).tests = false := by
    intro t k next hpass hsignal hbroadcast
    obtain ⟨-, -, -, htests, -, hann⟩ := watch_of_passes hpass
    refine ⟨Bool.eq_false_iff.mpr fun h => ?_, htests⟩
    rcases hann h with rfl | rfl
    · exact hsignal rfl
    · exact hbroadcast rfl
  cases turn_of_step hs with
  | lock t a m next hrun hpass hfree =>
      obtain ⟨hann, htests⟩ := hquiet hpass (by nofun) (by nofun)
      exact h.go hann htests id id
  | unlock t a m next hrun hpass =>
      obtain ⟨hann, htests⟩ := hquiet hpass (by nofun) (by nofun)
      exact h.go hann htests id id
  | sleep t a c m next hrun hpass =>
      obtain ⟨hann, htests⟩ := hquiet hpass (by nofun) (by nofun)
      cases c with
      | threads_all_idle =>
          have hother : ¬ (Mode.asleep Cond.threads_all_idle m).SleepsOn .has_jobs :=
            fun h : Cond.threads_all_idle = Cond.has_jobs => nomatch h
          exact h.go hann htests hother id
      | has_jobs =>
          -- who goes to sleep has seen the semaphore down
          intro hup
          have hdown : s.data.pool.has_jobs = false := by
            refine hwatch.down t ?_
            generalize s.pcs t = p at hpass
            cases hpass
            rfl
          exact absurd hup (by rw [own_data, put_data, hdown]; nofun)
  | signalNobody t a c next hrun hpass hnobody =>
      cases c with
      | threads_all_idle =>
          obtain ⟨hann, htests⟩ := hquiet hpass (by nofun) (by nofun)
          exact h.go hann htests id id
      | has_jobs =>
          refine fun _ => .inr (.inr fun u => ?_)
          rw [goto_thread]
          by_cases hut : u = t
          · rw [hut, Function.update_self]
            exact id
          · rw [Function.update_of_ne hut]
            exact hnobody u
  | signal t u c m next hrun hpass hsleeps =>
      have hne : u ≠ t := by
        rintro rfl
        rw [hrun] at hsleeps
        cases hsleeps
      cases c with
      | threads_all_idle =>
          obtain ⟨hann, htests⟩ := hquiet hpass (by nofun) (by nofun)
          have hroused : Heard (s.wake u m) := h.rouse id
          exact hroused.go (by rw [wake_pcs]; exact hann) (by rw [wake_pcs]; exact htests) id id
      | has_jobs =>
          refine fun _ => .inr (.inl ⟨u, ?_, ?_⟩)
          · rw [goto_pcs, wake_pcs, Function.update_of_ne hne]
            exact hasleep u m hsleeps
          · rw [goto_thread, Function.update_of_ne hne, wake_thread, Function.update_self]
            exact id
  | broadcast t a c next hrun hpass =>
      cases c with
      | threads_all_idle =>
          generalize s.pcs t = p at hpass
          cases hpass
      | has_jobs =>
          refine fun _ => .inr (.inr fun u => ?_)
          rw [goto_thread]
          by_cases hut : u = t
          · rw [hut, Function.update_self]
            exact id
          · rw [Function.update_of_ne hut]
            rcases wakeAll_cases s u .has_jobs with ⟨m, -, hu⟩ | ⟨hnot, hu⟩
            · rw [hu]
              exact id
            · rw [hu]
              exact hnot
  | create t a created hcreated hrun hpc hunborn =>
      have hroused : Heard (s.put (.inl ⟨created, hcreated⟩)
        ⟨s.pcs (.inl ⟨created, hcreated⟩), .running⟩) := h.rouse id
      refine hroused.go ?_ ?_ id id
      · rw [put_pcs, Function.update_eq_self, hpc]
        rfl
      · rw [put_pcs, Function.update_eq_self, hpc]
        rfl
  | access t a d next hrun heff =>
      intro hup
      rcases heard_of_effect heff hup with hann | ⟨hold, hann, htests⟩
      · refine .inl ⟨t, ?_⟩
        have hpc : State.pcs { s.goto t next with data := d } t = next :=
          (congrFun (goto_pcs s t next) t).trans (Function.update_self ..)
        rw [hpc]
        exact hann
      · have hgo : Heard { s.goto t next with data := d } := h.go hann htests id fun _ => hold
        exact hgo hup
  | wake u c m hasleep => exact h.rouse id
  | relock t m hwoken hfree => exact h.rouse id

omit [Fintype κ] in
theorem Heard.start : Heard (start n J X main env) := fun hup => absurd hup Bool.false_ne_true

/-- No step of the pool loses a wake-up. -/
theorem Heard.kept {l : Move (Name n κ) (Choice A)} {s' : PoolState n κ J X E}
    (hreach : Reached P main env ok s) (h : Heard s) (hs : State.step (code P) s l = some s') :
    Heard s' := by
  refine h.step (watch hreach) (fun t m hmode => ?_) hs
  rcases mode_cases hreach t with hrun | ⟨hunborn, -⟩ | ⟨-, hp⟩ | ⟨hother, -⟩
  · rw [hrun] at hmode
    cases hmode
  · rw [hunborn] at hmode
    cases hmode
  · rw [hp]
    rfl
  · rcases hother with hother | hother <;> rw [hother] at hmode <;> cases hmode

/-- **The semaphore is heard**, over every run. -/
theorem heard (h : Reached P main env ok s) : Heard s :=
  h.invariant .start fun _ _ _ hreach hheard _ hs => hheard.kept hreach hs

/-- The semaphore is up, and its signal on the way. -/
theorem heard_posted :
    ∃ s, execute (State.step (code errands)) (fun _ _ => True) (start 1 Nat Unit () ())
        (opening ++ adding.take 6) = some s
      ∧ s.data.pool.has_jobs = true ∧ Heard s :=
  execute_reaches (P := fun s : Errands => s.data.pool.has_jobs = true) (by decide)
    fun _ h hup => ⟨hup, heard h⟩

end HeardRuns

end SensorServer.Pool
