/-
  SensorServer.Pool.Progress — the pool does not come to a stop with work left.

  Where no thread can go on, every worker sleeps because the queue is empty, or stands in a job
  that does not go on by itself; if a job is queued, all of them stand in such jobs; and who
  waits in `thpool_wait` waits for one of them (`stuck_only_when_done`).  Neither the mutexes
  nor the condition variables keep anybody.
-/
import SensorServer.Pool.Waiting

namespace SensorServer.Pool

open SensorServer.Framework
open SensorServer.Framework.Pthread

/-! ## §1. Births. -/

section Births

variable {n : Nat} {κ J X E A : Type}

/-- `thpool_init` creates the workers one after the other, and is not done before the last. -/
structure Births (s : PoolState n κ J X E) : Prop where
  ahead : ∀ t created, s.pcs t = .init created → ∀ i : Fin n, created ≤ i →
    (s.thread (.inl i)).mode = .unborn
  coming : ∀ i : Fin n, (s.thread (.inl i)).mode = .unborn →
    ∃ t created, s.pcs t = .init created ∧ created ≤ i

/-- Births are seen in who is unborn and who is in `thpool_init`. -/
theorem Births.congr {s s' : PoolState n κ J X E} (h : Births s)
    (hmode : ∀ i : Fin n, (s'.thread (.inl i)).mode = .unborn
      ↔ (s.thread (.inl i)).mode = .unborn)
    (hinit : ∀ t created, s'.pcs t = .init created ↔ s.pcs t = .init created) : Births s' where
  ahead t created hp i hi := (hmode i).mpr (h.ahead t created ((hinit t created).mp hp) i hi)
  coming i hi := by
    obtain ⟨t, created, hp, hle⟩ := h.coming i ((hmode i).mp hi)
    exact ⟨t, created, (hinit t created).mpr hp, hle⟩

theorem init_of_passes {p next : Pc J X} {k : Doing Mutex Cond} (h : Passes p k next)
    (hk : k ≠ .create) : p.isInit = false ∧ next.isInit = false := by
  cases h <;> first | exact ⟨rfl, rfl⟩ | exact absurd rfl hk

/-- `thpool_init` ends behind the last creation. -/
theorem init_of_effect {P : Client κ J X E A} {t : Name n κ} {a : Choice A} {d d' : Shared J E}
    {p next : Pc J X}
    (h : Effect P t d a p d' next) :
    p.isInit = false ∧ next.isInit = false
      ∨ next = p ∨ ∃ created, p = .init created ∧ n ≤ created ∧ next = .outside := by
  cases h with
  | ready a created hall halive => exact .inr (.inr ⟨created, rfl, Nat.le_of_not_lt hall, rfl⟩)
  | spin => exact .inr (.inl rfl)
  | call a c env call ht hcall hout hready => cases call <;> exact .inl ⟨rfl, rfl⟩
  | _ => exact .inl ⟨rfl, rfl⟩

variable [DecidableEq κ] {P : Client κ J X E A} {s s' : PoolState n κ J X E}

/-- A thread that runs, or sleeps, goes on from elsewhere than `thpool_init`. -/
theorem Births.go (h : Births s) {t : Name n κ} {x : Thread (Pc J X) Mutex Cond}
    (hborn : (s.thread t).mode ≠ .unborn) (hmode : x.mode ≠ .unborn)
    (hp : (s.pcs t).isInit = false) (hnext : x.pc.isInit = false) {d : Shared J E}
    {o : Mutex → Option (Name n κ)} : Births { s.put t x with data := d, owner := o } := by
  have hpcs : State.pcs { s.put t x with data := d, owner := o }
      = Function.update s.pcs t x.pc := put_pcs s t x
  refine h.congr (fun i => ?_) fun u created => ?_
  · show ((s.put t x).thread (.inl i)).mode = .unborn ↔ _
    rw [put_thread]
    by_cases hi : .inl i = t
    · rw [hi, Function.update_self]
      exact iff_of_false hmode hborn
    · rw [Function.update_of_ne hi]
  · rw [hpcs]
    by_cases hu : u = t
    · rw [hu, Function.update_self]
      refine iff_of_false ?_ ?_
      · intro heq
        rw [heq] at hnext
        cases hnext
      · intro heq
        rw [heq] at hp
        cases hp
    · rw [Function.update_of_ne hu]

/-- A sleeper gets up. -/
theorem Births.rouse (h : Births s) {t : Name n κ} {mode : Mode Mutex Cond}
    (hborn : (s.thread t).mode ≠ .unborn) (hmode : mode ≠ .unborn)
    {o : Mutex → Option (Name n κ)} : Births { s.put t ⟨s.pcs t, mode⟩ with owner := o } := by
  have hpcs : State.pcs { s.put t ⟨s.pcs t, mode⟩ with owner := o } = s.pcs :=
    (put_pcs s t ⟨s.pcs t, mode⟩).trans (Function.update_eq_self t _)
  refine h.congr (fun i => ?_) fun u created => by rw [hpcs]
  show ((s.put t ⟨s.pcs t, mode⟩).thread (.inl i)).mode = .unborn ↔ _
  rw [put_thread]
  by_cases hi : .inl i = t
  · rw [hi, Function.update_self]
    exact iff_of_false hmode hborn
  · rw [Function.update_of_ne hi]

theorem Births.step [Fintype κ] (h : Births s) {l : Move (Name n κ) (Choice A)}
    (honly : ∀ t u, (s.pcs t).isInit = true → (s.pcs u).isInit = true → t = u)
    (hs : s.step (code P) l = some s') : Births s' := by
  have hpass : ∀ {t k next mode o}, (s.thread t).mode = .running → Passes (s.pcs t) k next →
      k ≠ .create → mode ≠ .unborn → Births { s.put t ⟨next, mode⟩ with owner := o } := by
    intro t k next mode o hrun hp hk hmode
    obtain ⟨hinit, hnext⟩ := init_of_passes hp hk
    exact h.go (by rw [hrun]; nofun) hmode hinit hnext
  cases turn_of_step hs with
  | lock t a m next hrun hp hfree => exact hpass hrun hp (by nofun) (by nofun)
  | unlock t a m next hrun hp => exact hpass hrun hp (by nofun) (by nofun)
  | sleep t a c m next hrun hp => exact hpass hrun hp (by nofun) (by nofun)
  | signalNobody t a c next hrun hp hnobody => exact hpass hrun hp (by nofun) (by nofun)
  | signal t u c m next hrun hp hsleeps =>
      obtain ⟨hinit, hnext⟩ := init_of_passes hp (by nofun)
      have hroused : Births (s.wake u m) := h.rouse (by rw [hsleeps]; nofun) (by nofun)
      have hne : t ≠ u := by
        rintro rfl
        rw [hrun] at hsleeps
        cases hsleeps
      refine hroused.go ?_ (by nofun) ?_ hnext
      · rw [wake_thread, Function.update_of_ne hne, hrun]
        nofun
      · rw [wake_pcs]
        exact hinit
  | broadcast t a c next hrun hp =>
      obtain ⟨hinit, hnext⟩ := init_of_passes hp (by nofun)
      have hroused : Births (s.wakeAll c) := by
        refine h.congr (fun i => ?_) fun u created => by rw [wakeAll_pcs]
        rcases wakeAll_cases s (.inl i) c with ⟨m, hsleeps, hthread⟩ | ⟨-, hthread⟩
        · rw [hthread, hsleeps]
          exact iff_of_false nofun nofun
        · rw [hthread]
      refine hroused.go ?_ (by nofun) ?_ hnext
      · rcases wakeAll_cases s t c with ⟨m, -, hthread⟩ | ⟨-, hthread⟩
        · rw [hthread]
          nofun
        · rw [hthread, hrun]
          nofun
      · rw [wakeAll_pcs]
        exact hinit
  | create t a created hcreated hrun hpc hunborn =>
      -- only one thread is in `thpool_init`
      have hself : ∀ u, (s.pcs u).isInit = true → u = t := fun u hu =>
        honly u t hu (by rw [hpc]; rfl)
      have hborn : (s.thread t).mode ≠ .unborn := by
        rw [hrun]
        nofun
      have hpcs : State.pcs ((s.put (.inl ⟨created, hcreated⟩)
          ⟨s.pcs (.inl ⟨created, hcreated⟩), .running⟩).goto t (.init (created + 1)))
          = Function.update s.pcs t (.init (created + 1)) := by
        rw [goto_pcs, put_pcs, Function.update_eq_self]
      have hthread : ∀ i : Fin n, .inl i ≠ t → created ≠ i →
          ((s.put (.inl ⟨created, hcreated⟩) ⟨s.pcs (.inl ⟨created, hcreated⟩), .running⟩).goto t
            (.init (created + 1))).thread (.inl i) = s.thread (.inl i) := by
        intro i hit hne
        rw [goto_thread, Function.update_of_ne hit, put_thread, Function.update_of_ne]
        rintro heq
        exact hne (congrArg Fin.val (Sum.inl.inj heq)).symm
      constructor
      · intro u k hu i hi
        rw [hpcs] at hu
        by_cases hut : u = t
        · rw [hut, Function.update_self] at hu
          cases hu
          -- the threads from `created + 1` on are unborn as before
          have hmode := h.ahead t created hpc i (by omega)
          rw [hthread i ?_ (by omega)]
          · exact hmode
          · rintro rfl
            exact hborn hmode
        · rw [Function.update_of_ne hut] at hu
          exact absurd (hself u (by rw [hu]; rfl)) hut
      · intro i hi
        have hit : .inl i ≠ t := by
          rintro rfl
          rw [goto_thread, Function.update_self] at hi
          cases hi
        have hne : created ≠ i := by
          rintro rfl
          rw [goto_thread, Function.update_of_ne hit, put_thread, Function.update_self] at hi
          cases hi
        rw [hthread i hit hne] at hi
        -- who is still unborn comes behind the one just created
        obtain ⟨u, k, hu, hk⟩ := h.coming i hi
        obtain rfl := hself u (by rw [hu]; rfl)
        rw [hpc] at hu
        cases hu
        exact ⟨u, created + 1, by rw [hpcs, Function.update_self], by omega⟩
  | access t a d next hrun heff =>
      have hborn : (s.thread t).mode ≠ .unborn := by
        rw [hrun]
        nofun
      rcases init_of_effect heff with ⟨hp, hnext⟩ | rfl | ⟨created, hp, hle, rfl⟩
      · exact h.go hborn (by nofun) hp hnext
      · have hsame : Births (s.goto t (s.pcs t)) := h.rouse hborn (by nofun)
        exact hsame.congr (fun _ => Iff.rfl) fun _ _ => Iff.rfl
      · -- the last thread has been created
        have hself : ∀ u, (s.pcs u).isInit = true → u = t := fun u hu =>
          honly u t hu (by rw [hp]; rfl)
        have hpcs : State.pcs { s.goto t .outside with data := d }
            = Function.update s.pcs t .outside := goto_pcs s t .outside
        constructor
        · intro u k hu
          rw [hpcs] at hu
          by_cases hut : u = t
          · rw [hut, Function.update_self] at hu
            cases hu
          · rw [Function.update_of_ne hut] at hu
            exact absurd (hself u (by rw [hu]; rfl)) hut
        · intro i hi
          change ((s.goto t .outside).thread (.inl i)).mode = .unborn at hi
          rw [goto_thread] at hi
          by_cases hit : .inl i = t
          · rw [hit, Function.update_self] at hi
            cases hi
          · rw [Function.update_of_ne hit] at hi
            obtain ⟨u, k, hu, hk⟩ := h.coming i hi
            obtain rfl := hself u (by rw [hu]; rfl)
            rw [hp] at hu
            cases hu
            omega
  | wake u c m hasleep => exact h.rouse (by rw [hasleep]; nofun) (by nofun)
  | relock t m hwoken hfree => exact h.rouse (by rw [hwoken]; nofun) (by nofun)

end Births

section Choices

variable {n : Nat} {κ J X E A : Type} {P : Client κ J X E A} {t : Name n κ} {p : Pc J X}

/-- Only jobs, and callers outside the pool, may have nothing to choose. -/
theorem choice_of_code
    {f : Choice A → Shared J E → Option (Shared J E × Pc J X)} {d : Shared J E}
    (hcode : code P t p = .access f) (hnone : ∀ a, f a d = none) :
    p = .outside ∨ ∃ x job_p, p = .run x job_p ∧ ∀ a, P.work a x d.env = none := by
  cases p with
  | outside => exact .inl rfl
  | run x job_p =>
      cases hcode
      exact .inr ⟨x, job_p, rfl, fun a => by simpa using hnone (.client a)⟩
  | ifJob job_p =>
      cases job_p with
      | none => cases hcode; cases hnone .go
      | some a =>
          cases hcode
          have hgo := hnone .go
          dsimp only at hgo
          split at hgo <;> cases hgo
  | semTest =>
      cases hcode
      have hgo := hnone .go
      dsimp only at hgo
      split at hgo <;> cases hgo
  | init created =>
      rw [code] at hcode
      split at hcode
      · cases hcode
      · cases hcode
        have hgo := hnone .go
        dsimp only at hgo
        split at hgo <;> cases hgo
  | addAlloc job => cases hcode; cases hnone (.malloc none)
  | destroyLoop total polling =>
      cases polling with
      | false => cases hcode; cases hnone (.timeout true)
      | true => cases hcode; cases hnone .go
  | clearFree total job_p => cases job_p <;> cases hcode <;> cases hnone .go
  -- the other accesses ask for nothing: the empty choice does
  | _ => cases hcode <;> cases hnone .go

/-- The ends of the threads. -/
theorem exit_of_code (hcode : code P t p = .exit) : p.leaving = true ∨ p = .outside ∧ t.isLeft := by
  cases p with
  | exited | destroyed => exact .inl rfl
  | outside =>
      cases t with
      | inl i => exact .inr ⟨rfl, rfl⟩
      | inr c => cases hcode
  | init created =>
      rw [code] at hcode
      split at hcode <;> cases hcode
  | destroyLoop total polling => cases polling <;> cases hcode
  | ifJob job_p | clearFree total job_p => cases job_p <;> cases hcode
  | _ => cases hcode

end Choices

section Runs

variable {n : Nat} {κ J X E A : Type} [DecidableEq κ] [Fintype κ] {P : Client κ J X E A}
  {main : κ} {env : E} {ok : PoolState n κ J X E → Move (Name n κ) (Choice A) → Prop}
  {s : PoolState n κ J X E}

theorem births (h : Reached P main env ok s) : Births s := by
  refine h.invariant (P := Births) ⟨fun t created hp i _ => rfl, fun i _ => ?_⟩ ?_
  · refine ⟨.inr main, 0, ?_, Nat.zero_le _⟩
    rw [start_pcs_caller, if_pos rfl]
  · intro s l s' hreach hbirths _ hs
    refine hbirths.step (fun t u ht hu => ?_) hs
    exact ((begun hreach).init t ht).trans ((begun hreach).init u hu).symm

/-! ## §2. Where nothing can go on. -/

/-- The worker stands in a job that does not go on by itself. -/
def Blocked (P : Client κ J X E A) (s : PoolState n κ J X E) (i : Fin n) : Prop :=
  ∃ x job_p, s.pcs (.inl i) = .run x job_p ∧ ∀ a, P.work a x s.data.env = none

/-- Where nothing can go on and nobody leaves: outside the pool, in a job that does not go on by
itself, or asleep. -/
theorem thread_cases (h : Reached P main env ok s)
    (hkeep : s.data.pool.threads_keepalive = true)
    (hstuck : ∀ t, (s.pcs t).isOutside = false → ¬ Enabled (code P) s t) (t : Name n κ) :
    (∃ c, t = .inr c ∧ s.pcs t = .outside)
      ∨ (∃ i, t = .inl i ∧ Blocked P s i)
      ∨ ((s.thread t).mode = .asleep .has_jobs .bsem ∧ s.pcs t = .semTest)
      ∨ ((s.thread t).mode = .asleep .threads_all_idle .thcount_lock ∧ s.pcs t = .waitLen) := by
  have hworker := ofWorker_pcs h
  have hlocked := Locked.reach (disciplined P) start_locked h
  have hstaying := (watch h).staying hkeep
  -- who holds a mutex is not outside
  have hheld : ∀ u m, s.owner m = some u → ¬ Enabled (code P) s u := by
    intro u m hown
    refine hstuck u ?_
    have hholds := ((hlocked.owner m u).mp hown).2
    generalize s.pcs u = p at hholds
    cases p <;> first | rfl | cases hholds
  have hcases : ∀ u, (s.pcs u).isOutside = false → _ := fun u hu =>
    stuck_cases (ranked P) hlocked hheld (hstuck u hu)
  -- all threads have been created
  have hinit : ∀ u, (s.pcs u).isInit = false := by
    intro u
    cases hp : s.pcs u with
    | init created =>
        exfalso
        rcases hcases u (by rw [hp]; rfl) with hunborn | ⟨c, m, hsleeps⟩ | ⟨hrun, hrest⟩
        · rcases mode_cases h u with hmode | ⟨-, i, -, hpc⟩ | ⟨-, hpc⟩ | ⟨-, hpc⟩
          · rw [hmode] at hunborn
            cases hunborn
          all_goals
            rw [hp] at hpc
            cases hpc
        · rcases mode_cases h u with hmode | ⟨hmode, -⟩ | ⟨-, hpc⟩ | ⟨-, hpc⟩
          · rw [hmode] at hsleeps
            cases hsleeps
          · rw [hmode] at hsleeps
            cases hsleeps
          all_goals
            rw [hp] at hpc
            cases hpc
        · rcases hrest with ⟨f, hcode, hnone⟩ | ⟨v, next, hcode, hborn⟩ | hcode
          · rcases choice_of_code hcode hnone with hpc | ⟨x, job_p, hpc, -⟩
            all_goals
              rw [hp] at hpc
              cases hpc
          · obtain ⟨k, hk, hpc, rfl, -⟩ := create_of_code hcode
            exact hborn ((births h).ahead u k hpc ⟨k, hk⟩ le_rfl)
          · rcases exit_of_code hcode with hleaving | ⟨hpc, -⟩
            · rw [hstaying u] at hleaving
              cases hleaving
            · rw [hp] at hpc
              cases hpc
    | _ => rfl
  cases hout : (s.pcs t).isOutside with
  | true =>
      refine .inl ?_
      have hp := isOutside_iff.mp hout
      cases t with
      | inl i =>
          have hi := hworker (.inl i)
          rw [hp] at hi
          cases hi
      | inr c => exact ⟨c, rfl, hp⟩
  | false =>
      refine .inr ?_
      rcases hcases t hout with hunborn | ⟨c, m, hsleeps⟩ | ⟨hrun, hrest⟩
      · rcases mode_cases h t with hmode | ⟨hmode, i, rfl, hp⟩ | ⟨hother, -⟩ | ⟨hother, -⟩
        · rw [hmode] at hunborn
          cases hunborn
        · obtain ⟨u, k, hu, -⟩ := (births h).coming i hmode
          have hnot := hinit u
          rw [hu] at hnot
          cases hnot
        · rcases hother with hother | hother <;> rw [hother] at hunborn <;> cases hunborn
        · rcases hother with hother | hother <;> rw [hother] at hunborn <;> cases hunborn
      · rcases mode_cases h t with hmode | ⟨hmode, -⟩ | ⟨hmode, hp⟩ | ⟨hmode, hp⟩
        · rw [hmode] at hsleeps
          cases hsleeps
        · rw [hmode] at hsleeps
          cases hsleeps
        · rcases hmode with hmode | hmode
          · exact .inr (.inl ⟨hmode, hp⟩)
          · rw [hmode] at hsleeps
            cases hsleeps
        · rcases hmode with hmode | hmode
          · exact .inr (.inr ⟨hmode, hp⟩)
          · rw [hmode] at hsleeps
            cases hsleeps
      · rcases hrest with ⟨f, hcode, hnone⟩ | ⟨v, next, hcode, -⟩ | hcode
        · rcases choice_of_code hcode hnone with hp | ⟨x, job_p, hp, hwork⟩
          · rw [hp] at hout
            cases hout
          · have ht := hworker t
            rw [hp] at ht
            obtain ⟨i, rfl⟩ := Sum.isLeft_iff.mp ht.symm
            exact .inl ⟨i, rfl, x, job_p, hp, hwork⟩
        · obtain ⟨k, -, hp, -, -⟩ := create_of_code hcode
          have hnot := hinit t
          rw [hp] at hnot
          cases hnot
        · rcases exit_of_code hcode with hleaving | ⟨hp, -⟩
          · rw [hstaying t] at hleaving
            cases hleaving
          · rw [hp] at hout
            cases hout

/-- Where no thread in the pool can go on, a worker stands in a job or sleeps. -/
theorem worker_of_disabled (h : Reached P main env ok s)
    (hkeep : s.data.pool.threads_keepalive = true)
    (hstuck : ∀ t, (s.pcs t).isOutside = false → ¬ Enabled (code P) s t) (i : Fin n) :
    Blocked P s i ∨ (s.thread (.inl i)).mode = .asleep .has_jobs .bsem := by
  rcases thread_cases h hkeep hstuck (.inl i) with ⟨c, hc, -⟩ | ⟨j, hj, hblocked⟩ | ⟨hmode, -⟩ |
    ⟨-, hp⟩
  · cases hc
  · cases hj
    exact .inl hblocked
  · exact .inr hmode
  · have hi := ofWorker_pcs h (.inl i)
    rw [hp] at hi
    cases hi

/-- If a job is queued there, no worker sleeps: the semaphore is up, and its signal was heard. -/
theorem blocked_of_queued (h : Reached P main env ok s)
    (hkeep : s.data.pool.threads_keepalive = true)
    (hstuck : ∀ t, (s.pcs t).isOutside = false → ¬ Enabled (code P) s t)
    (hlen : s.data.pool.jobqueue.len ≠ 0) (i : Fin n) : Blocked P s i := by
  have hcases := thread_cases h hkeep hstuck
  have hheard : Heard s := h.invariant .start fun _ _ _ hr hheard _ hs => hheard.kept hr hs
  have hup : s.data.pool.has_jobs = true := by
    -- where nobody can go on, nobody is on the way to put the semaphore up
    refine ((watch h).token hkeep hlen).resolve_right ?_
    rintro ⟨t, ht⟩
    rcases hcases t with ⟨c, -, hp⟩ | ⟨i, rfl, x, job_p, hp, -⟩ | ⟨-, hp⟩ | ⟨-, hp⟩
    all_goals
      rw [hp] at ht
      cases ht
  have hnobody : ∀ t, ¬ (s.thread t).mode.SleepsOn .has_jobs := by
    -- the signal is sent or heard: no thread stands before it, none is about to test
    rcases hheard hup with ⟨t, ht⟩ | ⟨t, ht, hawake⟩ | hnobody
    · exfalso
      rcases hcases t with ⟨c, -, hp⟩ | ⟨i, rfl, x, job_p, hp, -⟩ | ⟨-, hp⟩ | ⟨-, hp⟩
      all_goals
        rw [hp] at ht
        cases ht
    · exfalso
      rcases hcases t with ⟨c, -, hp⟩ | ⟨i, rfl, x, job_p, hp, -⟩ | ⟨hmode, -⟩ | ⟨-, hp⟩
      · rw [hp] at ht
        cases ht
      · rw [hp] at ht
        cases ht
      · rw [hmode] at hawake
        exact hawake rfl
      · rw [hp] at ht
        cases ht
    · exact hnobody
  refine (worker_of_disabled h hkeep hstuck i).resolve_right fun hmode => ?_
  have hawake := hnobody (.inl i)
  rw [hmode] at hawake
  exact hawake rfl

/-- A caller is outside there, or waits for what is queued or under way. -/
theorem caller_of_disabled (hpolite : ∀ s l, ok s l → Polite P s l)
    (hone : ∀ s l, ok s l → OneWaiter P s l) (h : Reached P main env ok s)
    (hkeep : s.data.pool.threads_keepalive = true)
    (hstuck : ∀ t, (s.pcs t).isOutside = false → ¬ Enabled (code P) s t) (c : κ) :
    s.pcs (.inr c) = .outside
      ∨ Waits s c ∧ (s.data.pool.jobqueue.len ≠ 0 ∨ ∃ i, Blocked P s i) := by
  have hcases := thread_cases h hkeep hstuck
  have hawaited : Awaited s :=
    h.invariant .start fun _ _ _ hr hawaited _ hs => hawaited.kept hpolite hone hr hs
  rcases hcases (.inr c) with ⟨c', hc, hp⟩ | ⟨i, hi, -⟩ | ⟨-, hp⟩ | ⟨hmode, hp⟩
  · exact .inl hp
  · cases hi
  · have hc := ofWorker_pcs h (.inr c)
    rw [hp] at hc
    cases hc
  · have hwaits : Waits s c := .inr (by rw [hmode]; rfl)
    refine .inr ⟨hwaits, ?_⟩
    rcases hawaited c hwaits with hlen | hworking | ⟨t, ht⟩
    · exact .inl hlen
    · -- a counted worker stands in a job
      obtain ⟨t, ht⟩ : ∃ t, (s.pcs t).countedWorking = true := by
        by_contra hnone
        refine hworking (h.counted.working.trans ?_)
        rw [count_eq_zero_iff.mpr fun t => Bool.eq_false_iff.mpr fun ht => hnone ⟨t, ht⟩]
        rfl
      refine .inr ?_
      rcases hcases t with ⟨c, -, hp⟩ | ⟨i, -, hblocked⟩ | ⟨-, hp⟩ | ⟨-, hp⟩
      · rw [hp] at ht
        cases ht
      · exact ⟨i, hblocked⟩
      · rw [hp] at ht
        cases ht
      · rw [hp] at ht
        cases ht
    · -- nobody stands before the signal to the waiting caller
      exfalso
      rcases hcases t with ⟨c, -, hp⟩ | ⟨i, rfl, x, job_p, hp, -⟩ | ⟨-, hp⟩ | ⟨-, hp⟩
      all_goals
        rw [hp] at ht
        cases ht

/-- **The pool does not come to a stop with work left.**  Where no thread in the pool can go on,
every worker sleeps or stands in a job that does not go on by itself; if a job is queued, all of
them stand in such jobs; and a caller is outside the pool, or waits for a queued job or for one
of these. -/
theorem stuck_only_when_done (hpolite : ∀ s l, ok s l → Polite P s l)
    (hone : ∀ s l, ok s l → OneWaiter P s l) (h : Reached P main env ok s)
    (hkeep : s.data.pool.threads_keepalive = true)
    (hstuck : ∀ t, (s.pcs t).isOutside = false → ¬ Enabled (code P) s t) :
    (∀ i, Blocked P s i ∨ (s.thread (.inl i)).mode = .asleep .has_jobs .bsem)
      ∧ (s.data.pool.jobqueue.len ≠ 0 → ∀ i, Blocked P s i)
      ∧ ∀ c, s.pcs (.inr c) = .outside
        ∨ Waits s c ∧ (s.data.pool.jobqueue.len ≠ 0 ∨ ∃ i, Blocked P s i) :=
  ⟨worker_of_disabled h hkeep hstuck, blocked_of_queued h hkeep hstuck,
    caller_of_disabled hpolite hone h hkeep hstuck⟩

/-- The job is done, and the worker sleeps again. -/
theorem stuck_only_when_done_one :
    ∃ s, execute (State.step (code errands)) (fun s m => Polite errands s m ∧ OneWaiter errands s m)
        (start 1 Nat Unit () ())
        (opening ++ adding ++ taking ++ waiting ++ doing ++ returning) = some s
      ∧ ∀ i, Blocked errands s i ∨ (s.thread (.inl i)).mode = .asleep .has_jobs .bsem :=
  execute_reaches (P := fun s : Errands => s.data.pool.threads_keepalive = true
      ∧ (s.thread (.inl 0)).mode = .asleep .has_jobs .bsem ∧ (s.pcs (.inr ())).isOutside = true)
    (by decide) fun s h ⟨hkeep, hasleep, hout⟩ => by
      refine (stuck_only_when_done (fun _ _ => And.left) (fun _ _ => And.right) h hkeep ?_).1
      rintro (i | c) hinside
      · rw [Subsingleton.elim i 0]
        exact not_enabled_of_asleep hasleep
      · rw [hout] at hinside
        cases hinside

end Runs

end SensorServer.Pool
