/-
  SensorServer.Pool.Waiting — nobody sleeps in `thpool_wait` for nothing.

  `thpool_wait` reads the length of the queue without the mutex of the queue, and goes to sleep
  for another reason than it is woken for.  Who sleeps there, or is about to, still has something
  to wait for in every reached state: a queued job, a worker that is counted, or the signal that
  the last worker is about to send (`awaited`).  The signal wakes one thread, so this is said of
  callers that wait one at a time.
-/
import SensorServer.Pool.Wakeups

namespace SensorServer.Pool

open SensorServer.Framework
open SensorServer.Framework.Pthread

/-! ## §1. Who waits has something to wait for. -/

section Awaited

variable {n : Nat} {κ J X E : Type}

/-- The caller sleeps in `thpool_wait`, or is about to. -/
def Waits (s : PoolState n κ J X E) (c : κ) : Prop :=
  s.pcs (.inr c) = .waitSleep ∨ (s.thread (.inr c)).mode.SleepsOn .threads_all_idle

/-- A job is queued, a worker is counted, or the end of the last one is about to be told. -/
def Busy (s : PoolState n κ J X E) : Prop :=
  s.data.pool.jobqueue.len ≠ 0 ∨ s.data.pool.num_threads_working ≠ 0
    ∨ ∃ t, s.pcs t = .doneSignal

/-- Who sleeps in `thpool_wait` will be told. -/
def Awaited (s : PoolState n κ J X E) : Prop := ∀ c, Waits s c → Busy s

variable [DecidableEq κ] {s : PoolState n κ J X E} {t : Name n κ} {next : Pc J X}
  {mode : Mode Mutex Cond} {o : Mutex → Option (Name n κ)}

/-- A thread goes on, from elsewhere than `doneSignal`. -/
theorem Awaited.go (h : Awaited s) (hdone : s.pcs t ≠ .doneSignal)
    (hwaits : ∀ c, t = .inr c → next = .waitSleep ∨ mode.SleepsOn Cond.threads_all_idle →
      Waits s c) {d : Shared J E} (hlen : d.pool.jobqueue.len = s.data.pool.jobqueue.len)
    (hworking : d.pool.num_threads_working = s.data.pool.num_threads_working) :
    Awaited { s.put t ⟨next, mode⟩ with data := d, owner := o } := by
  have hpcs : State.pcs { s.put t ⟨next, mode⟩ with data := d, owner := o }
      = Function.update s.pcs t next := put_pcs s t ⟨next, mode⟩
  -- what there is to wait for is still there
  have hbusy : Busy s → Busy { s.put t ⟨next, mode⟩ with data := d, owner := o } := by
    rintro (hb | hb | ⟨u, hu⟩)
    · exact .inl (hlen ▸ hb)
    · exact .inr (.inl (hworking ▸ hb))
    · refine .inr (.inr ⟨u, ?_⟩)
      rw [hpcs, Function.update_of_ne]
      · exact hu
      · rintro rfl
        exact hdone hu
  intro c hc
  unfold Waits at hc
  rw [hpcs] at hc
  change _ ∨ ((s.put t ⟨next, mode⟩).thread (.inr c)).mode.SleepsOn _ at hc
  rw [put_thread] at hc
  by_cases hct : .inr c = t
  · rw [hct, Function.update_self, Function.update_self] at hc
    exact hbusy (h c (hwaits c hct.symm hc))
  · rw [Function.update_of_ne hct, Function.update_of_ne hct] at hc
    exact hbusy (h c hc)

/-- A thread gets up. -/
theorem Awaited.rouse (h : Awaited s) (hmode : ¬ mode.SleepsOn Cond.threads_all_idle) :
    Awaited { s.put t ⟨s.pcs t, mode⟩ with owner := o } := by
  have hpcs : State.pcs { s.put t ⟨s.pcs t, mode⟩ with owner := o } = s.pcs :=
    (put_pcs s t ⟨s.pcs t, mode⟩).trans (Function.update_eq_self t _)
  intro c hc
  unfold Waits at hc
  rw [hpcs] at hc
  change _ ∨ ((s.put t ⟨s.pcs t, mode⟩).thread (.inr c)).mode.SleepsOn _ at hc
  have hold : Waits s c := by
    rcases hc with hc | hc
    · exact .inl hc
    · refine .inr ?_
      by_cases hct : .inr c = t
      · rw [hct, put_thread, Function.update_self] at hc
        exact absurd hc hmode
      · rw [put_thread, Function.update_of_ne hct] at hc
        exact hc
  unfold Busy
  rw [hpcs]
  exact h c hold

/-- The workers are told of the semaphore. -/
theorem Awaited.wakeAll {n : Nat} {κ J X E : Type} {s : PoolState n κ J X E} (h : Awaited s) :
    Awaited (s.wakeAll .has_jobs) := by
  intro c hc
  unfold Busy
  rw [wakeAll_pcs]
  refine h c ?_
  rcases hc with hc | hc
  · rw [wakeAll_pcs] at hc
    exact .inl hc
  · rcases wakeAll_cases s (.inr c) .has_jobs with ⟨m, -, hthread⟩ | ⟨-, hthread⟩
    · rw [hthread] at hc
      cases hc
    · rw [hthread] at hc
      exact .inr hc

end Awaited

section Effects

variable {n : Nat} {κ J X E A : Type} {P : Client κ J X E A} {t : Name n κ} {a : Choice A}
  {d d' : Shared J E} {p next : Pc J X}

theorem len_free {q : JobQueue J} {b : Nat} : (q.free b).len = q.len := by
  unfold JobQueue.free
  split <;> rfl

theorem len_push {q : JobQueue J} {b : Nat} : (q.push b).len = q.len + 1 := by
  have hset : ∀ (q : JobQueue J) b link, (q.setPrev b link).len = q.len := by
    intro q b link
    unfold JobQueue.setPrev
    split <;> rfl
  unfold JobQueue.push
  dsimp only
  split
  · exact congrArg (· + 1) (hset q b none)
  · split
    · exact congrArg (· + 1) ((hset _ _ _).trans (hset q b none))
    · exact congrArg (· + 1) (hset q b none)

/-- After an access there is something to wait for, or it has changed nothing about that, or
the queue is being cleared. -/
theorem busy_of_effect (h : Effect P t d a p d' next) (hlen : 0 ≤ d.pool.jobqueue.len)
    (hworking : 0 ≤ d.pool.num_threads_working)
    (hcounted : p.countedWorking = true → d.pool.num_threads_working ≠ 0) :
    (d'.pool.jobqueue.len ≠ 0 ∨ d'.pool.num_threads_working ≠ 0 ∨ next = .doneSignal)
      ∨ next ≠ .waitSleep
        ∧ (p.clearing = true ∨ p ≠ .doneSignal ∧ d'.pool.jobqueue.len = d.pool.jobqueue.len
          ∧ d'.pool.num_threads_working = d.pool.num_threads_working) := by
  cases h with
  | workingInc =>
      refine .inl (.inr (.inl ?_))
      show d.pool.num_threads_working + 1 ≠ 0
      omega
  | lastDone => exact .inl (.inr (.inr rfl))
  | done a hmore => exact .inl (.inr (.inl hmore))
  | queued a hqueued => exact .inl (.inl hqueued)
  | busy a hbusy => exact .inl (.inr (.inl hbusy))
  | pushLink a newjob =>
      refine .inl (.inl ?_)
      show (d.pool.jobqueue.push newjob).len ≠ 0
      rw [len_push]
      omega
  | pullLast a puller hshort =>
      cases puller with
      -- a worker that pulls is counted as working
      | worker => exact .inl (.inr (.inl (hcounted rfl)))
      | clear total => exact .inr ⟨nofun, .inl rfl⟩
  | pullMore a puller hlong =>
      cases puller with
      | worker => exact .inl (.inr (.inl (hcounted rfl)))
      | clear total => exact .inr ⟨nofun, .inl rfl⟩
  | clearReset => exact .inr ⟨nofun, .inl rfl⟩
  | freeJob | clearFree => exact .inr ⟨nofun, .inr ⟨nofun, len_free, rfl⟩⟩
  | call a c env call ht hcall hout hready =>
      cases call <;> exact .inr ⟨nofun, .inr ⟨nofun, rfl, rfl⟩⟩
  | _ => exact .inr ⟨nofun, .inr ⟨nofun, rfl, rfl⟩⟩

theorem done_of_passes {k : Doing Mutex Cond} (h : Passes p k next) :
    next ≠ .waitSleep ∧ (p = .doneSignal ↔ k = .signal .threads_all_idle) := by
  cases h <;> exact ⟨nofun, by simp⟩

end Effects

section AwaitedRuns

variable {n : Nat} {κ J X E A : Type} [DecidableEq κ] [Fintype κ] {P : Client κ J X E A}
  {main : κ} {env : E} {ok : PoolState n κ J X E → Move (Name n κ) (Choice A) → Prop}
  {s s' : PoolState n κ J X E}

/-- Who sleeps in `thpool_wait`, or is about to, is in it. -/
theorem inWait_of_waits (h : Reached P main env ok s) {c : κ} (hc : Waits s c) :
    (s.pcs (.inr c)).inWait = true := by
  rcases hc with hp | hsleeps
  · rw [hp]
    rfl
  · rcases mode_cases h (.inr c) with hrun | ⟨hunborn, -⟩ | ⟨hother, -⟩ | ⟨-, hp⟩
    · rw [hrun] at hsleeps
      cases hsleeps
    · rw [hunborn] at hsleeps
      cases hsleeps
    · rcases hother with hother | hother <;> rw [hother] at hsleeps <;> cases hsleeps
    · rw [hp]
      rfl

theorem Awaited.step (h : Awaited s) (hreach : Reached P main env ok s)
    (hending : Ending s.data.ready s.pcs)
    (hsingle : ∀ c c', (s.pcs (.inr c)).inWait = true → (s.pcs (.inr c')).inWait = true → c = c')
    (hlen : 0 ≤ s.data.pool.jobqueue.len) {l : Move (Name n κ) (Choice A)}
    (hs : s.step (code P) l = some s') : Awaited s' := by
  -- an instruction that is neither an access nor `doneSignal`
  have hgo : ∀ {t k next mode o}, Passes (s.pcs t) k next → k ≠ .signal .threads_all_idle →
      ¬ mode.SleepsOn Cond.threads_all_idle →
      Awaited { s.put t ⟨next, mode⟩ with owner := o } := by
    intro t k next mode o hpass hk hmode
    obtain ⟨hnext, hdone⟩ := done_of_passes hpass
    refine h.go (fun hp => hk (hdone.mp hp)) (fun c _ hc => ?_) rfl rfl
    rcases hc with hc | hc
    · exact absurd hc hnext
    · exact absurd hc hmode
  cases turn_of_step hs with
  | lock t a m next hrun hpass hfree => exact hgo hpass (by nofun) id
  | unlock t a m next hrun hpass => exact hgo hpass (by nofun) id
  | sleep t a c m next hrun hpass =>
      cases c with
      | has_jobs =>
          have hother : ¬ (Mode.asleep Cond.has_jobs m).SleepsOn .threads_all_idle :=
            fun h : Cond.has_jobs = Cond.threads_all_idle => nomatch h
          exact hgo hpass (by nofun) hother
      | threads_all_idle =>
          have hp : s.pcs t = .waitSleep := by
            generalize s.pcs t = p at hpass
            cases hpass
            rfl
          refine h.go (by rw [hp]; nofun) ?_ rfl rfl
          rintro c rfl -
          exact .inl hp
  | signalNobody t a c next hrun hpass hnobody =>
      cases c with
      | has_jobs => exact hgo hpass (by nofun) id
      | threads_all_idle =>
          have hp : s.pcs t = .doneSignal := (done_of_passes hpass).2.mpr rfl
          intro c hc
          unfold Waits at hc
          rw [goto_pcs, goto_thread] at hc
          by_cases hct : .inr c = t
          · rw [hct, Function.update_self, Function.update_self] at hc
            rcases hc with hc | hc
            · exact absurd hc (done_of_passes hpass).1
            · cases hc
          · rw [Function.update_of_ne hct, Function.update_of_ne hct] at hc
            rcases hc with hc | hc
            · -- both would hold `thcount_lock`
              have hwait : (s.pcs (.inr c)).Holds .thcount_lock := by
                rw [hc]
                exact List.mem_cons_self
              have hdone : (s.pcs t).Holds .thcount_lock := by
                rw [hp]
                exact List.mem_cons_self
              have hruns := running_of_holds hreach hwait (by rw [hc]; nofun) (by rw [hc]; nofun)
              have hlocked := Locked.reach (disciplined P) start_locked hreach
              exact absurd (hlocked.exclusive hruns hwait hrun hdone) hct
            · exact absurd hc (hnobody _)
  | signal t u c m next hrun hpass hsleeps =>
      obtain ⟨hnext, hdone⟩ := done_of_passes hpass
      cases c with
      | has_jobs =>
          have hroused : Awaited (s.wake u m) := h.rouse id
          refine hroused.go (fun hp => ?_) (fun c _ hc => ?_) rfl rfl
          · rw [wake_pcs] at hp
            cases hdone.mp hp
          · rcases hc with hc | hc
            · exact absurd hc hnext
            · cases hc
      | threads_all_idle =>
          have hpu : s.pcs u = .waitLen := by
            rcases mode_cases hreach u with hrun | ⟨hunborn, -⟩ | ⟨hother, -⟩ | ⟨-, hp⟩
            · rw [hrun] at hsleeps
              cases hsleeps
            · rw [hunborn] at hsleeps
              cases hsleeps
            · rcases hother with hother | hother <;> rw [hother] at hsleeps <;> cases hsleeps
            · exact hp
          intro c hc
          unfold Waits at hc
          rw [goto_pcs, goto_thread, wake_pcs, wake_thread] at hc
          by_cases hct : .inr c = t
          · rw [hct, Function.update_self, Function.update_self] at hc
            rcases hc with hc | hc
            · exact absurd hc hnext
            · cases hc
          · rw [Function.update_of_ne hct, Function.update_of_ne hct] at hc
            by_cases hcu : .inr c = u
            · rw [hcu, Function.update_self, hpu] at hc
              rcases hc with hc | hc <;> cases hc
            · -- the one who waits has been woken
              rw [Function.update_of_ne hcu] at hc
              cases u with
              | inl i =>
                  have hi := ofWorker_pcs hreach (.inl i)
                  rw [hpu] at hi
                  cases hi
              | inr c' =>
                  have hc' : Waits s c' := by
                    refine .inr ?_
                    rw [hsleeps]
                    rfl
                  exact absurd (congrArg Sum.inr (hsingle c c' (inWait_of_waits hreach hc)
                    (inWait_of_waits hreach hc'))) hcu
  | broadcast t a c next hrun hpass =>
      obtain ⟨hnext, hdone⟩ := done_of_passes hpass
      have hc : c = .has_jobs := by
        generalize s.pcs t = p at hpass
        cases hpass
        rfl
      subst hc
      refine h.wakeAll.go (fun hp => ?_) (fun c _ hc => ?_) rfl rfl
      · rw [wakeAll_pcs] at hp
        cases hdone.mp hp
      · rcases hc with hc | hc
        · exact absurd hc hnext
        · cases hc
  | create t a created hcreated hrun hpc hunborn =>
      have hroused : Awaited (s.put (.inl ⟨created, hcreated⟩)
        ⟨s.pcs (.inl ⟨created, hcreated⟩), .running⟩) := h.rouse id
      refine hroused.go ?_ (fun c _ hc => ?_) rfl rfl
      · rw [put_pcs, Function.update_eq_self, hpc]
        nofun
      · rcases hc with hc | hc <;> cases hc
  | access t a d next hrun heff =>
      have hworking := hreach.counted.working
      have hcounted : (s.pcs t).countedWorking = true →
          s.data.pool.num_threads_working ≠ 0 := by
        intro hp h0
        rw [hworking] at h0
        have hnone := count_eq_zero_iff.mp (Int.ofNat.inj h0) t
        rw [hp] at hnone
        cases hnone
      rcases busy_of_effect heff hlen (by omega) hcounted with
        hbusy | ⟨hnext, hclearing | ⟨hdone, hsame⟩⟩
      · have hpc : State.pcs { s.goto t next with data := d } t = next :=
          (congrFun (goto_pcs s t next) t).trans (Function.update_self ..)
        intro c _
        rcases hbusy with hbusy | hbusy | rfl
        · exact .inl hbusy
        · exact .inr (.inl hbusy)
        · exact .inr (.inr ⟨t, hpc⟩)
      · -- nobody waits while the queue is cleared
        intro c hc
        unfold Waits at hc
        rw [show State.pcs { s.goto t next with data := d } = Function.update s.pcs t next from
          goto_pcs s t next] at hc
        change _ ∨ ((s.goto t next).thread (.inr c)).mode.SleepsOn _ at hc
        rw [goto_thread] at hc
        by_cases hct : .inr c = t
        · rw [hct, Function.update_self, Function.update_self] at hc
          rcases hc with hc | hc
          · exact absurd hc hnext
          · cases hc
        · rw [Function.update_of_ne hct, Function.update_of_ne hct] at hc
          have hin := inWait_of_waits hreach hc
          have hout := hending.alone t (destroying_of_clearing hclearing) c hct
          rw [isOutside_iff.mp hout] at hin
          cases hin
      · refine h.go hdone (fun c _ hc => ?_) hsame.1 hsame.2
        rcases hc with hc | hc
        · exact absurd hc hnext
        · cases hc
  | wake u c m hasleep => exact h.rouse id
  | relock t m hwoken hfree => exact h.rouse id

omit [Fintype κ] in
theorem Awaited.start : Awaited (start n J X main env) := by
  rintro c (hc | hc)
  · rw [start_pcs_caller] at hc
    split at hc <;> cases hc
  · cases hc

/-- No step of the pool leaves a caller asleep in vain. -/
theorem Awaited.kept {l : Move (Name n κ) (Choice A)} {s' : PoolState n κ J X E}
    (hpolite : ∀ s l, ok s l → Polite P s l) (hone : ∀ s l, ok s l → OneWaiter P s l)
    (hreach : Reached P main env ok s) (h : Awaited s) (hs : State.step (code P) s l = some s') :
    Awaited s' := by
  obtain ⟨nodes, hshape⟩ := (orderly hpolite hreach).queue
  have hlen : 0 ≤ s.data.pool.jobqueue.len := by
    rw [hshape.holds.len]
    exact Int.natCast_nonneg _
  exact h.step hreach (ending hpolite hreach) (single_waiter hone hreach) hlen hs

/-- **Who sleeps in `thpool_wait` will be told**, in every run. -/
theorem awaited (hpolite : ∀ s l, ok s l → Polite P s l) (hone : ∀ s l, ok s l → OneWaiter P s l)
    (h : Reached P main env ok s) : Awaited s :=
  h.invariant .start fun _ _ _ hreach hawaited _ hs => hawaited.kept hpolite hone hreach hs

/-- The caller sleeps while its job is under way. -/
theorem awaited_one :
    ∃ s, execute (State.step (code errands)) (fun s m => Polite errands s m ∧ OneWaiter errands s m)
        (start 1 Nat Unit () ()) (opening ++ adding ++ taking ++ waiting) = some s
      ∧ (s.thread (.inr ())).mode.SleepsOn .threads_all_idle ∧ Awaited s :=
  execute_reaches (P := fun s : Errands => (s.thread (.inr ())).mode.SleepsOn .threads_all_idle)
    (by decide) fun _ h hsleeps => ⟨hsleeps, awaited (fun _ _ => And.left) (fun _ _ => And.right) h⟩

end AwaitedRuns

end SensorServer.Pool
