/-
  SensorServer.Pool.Counters — the mutexes and the counters of the pool.

  `Pc.held` lists the mutexes held at a program point.  The code keeps to it (`disciplined`) and
  takes its mutexes in one order (`ranked`), so that the pool excludes and never deadlocks over
  a mutex.  `num_threads_working` and `num_threads_alive` are at every time the numbers of
  workers at certain program points (`Reached.counted`), whatever the schedule.
-/
import Mathlib.Data.Fintype.Sum
import SensorServer.Framework.Locks
import SensorServer.Pool.Effects

namespace SensorServer.Pool

open SensorServer.Framework
open SensorServer.Framework.Pthread

/-! ## §1. Mutexes. -/

/-- The mutexes a thread holds at a program point. -/
def Pc.held {J X : Type} : Pc J X → List Mutex
  | .aliveInc | .aliveUnlock | .workingInc | .workingUnlock | .doneDec | .doneSignal | .doneUnlock
  | .exitDec | .exitUnlock | .waitLen | .waitWorking | .waitSleep | .waitUnlock =>
      [.thcount_lock]
  | .pullTake _ | .pullUnlock _ _ | .pushLink _ | .pushUnlock | .postLock _ => [.rwmutex]
  | .postSet _ | .postSignal _ | .postUnlock _ => [.rwmutex, .bsem]
  | .semTest | .semSleep | .semUnlock | .postAllSet _ _ | .postAllBroadcast _ _
  | .postAllUnlock _ _ => [.bsem]
  | _ => []

/-- `thcount_lock` is taken alone, and `rwmutex` before the semaphore's mutex. -/
def Mutex.rank : Mutex → Nat
  | .thcount_lock | .rwmutex => 0
  | .bsem => 1

/-- The mutex is held at the program point. -/
def Pc.Holds {J X : Type} (p : Pc J X) (m : Mutex) : Prop := m ∈ p.held

instance {J X : Type} (p : Pc J X) : DecidablePred p.Holds :=
  fun m => inferInstanceAs (Decidable (m ∈ p.held))

section Discipline

variable {n : Nat} {κ J X E A : Type} {P : Client κ J X E A} {t : Name n κ} {a : Choice A}
  {d d' : Shared J E} {p next : Pc J X} {k : Doing Mutex Cond}

theorem respects_of_passes (h : Passes p k next) : Respects Pc.Holds p k next := by
  cases h <;> (unfold Respects Pc.Holds; simp only [Pc.held]; decide)

/-- No access changes what a thread holds. -/
theorem held_of_effect (h : Effect P t d a p d' next) : next.held = p.held := by
  cases h with
  | call a c env call ht hcall hout hready => cases call <;> rfl
  | _ => rfl

end Discipline

section Mutexes

variable {n : Nat} {κ J X E A : Type} (P : Client κ J X E A)

/-- **The code keeps to `held`.** -/
theorem disciplined : Disciplined (code (n := n) P) Pc.Holds where
  goes _ _ _ _ h := respects_of_passes (passes_of_goes h)
  access t p f a d d' next hcode hf m := by
    unfold Pc.Holds
    rw [held_of_effect (effect_of_access hcode hf)]

/-- A thread that holds a mutex can always make its access. -/
theorem access_of_held {t : Name n κ} {p : Pc J X}
    {f : Choice A → Shared J E → Option (Shared J E × Pc J X)} (hcode : code P t p = .access f)
    (hheld : p.held ≠ []) (d : Shared J E) : f .go d ≠ none := by
  cases p with
  | semTest =>
      cases hcode
      by_cases hv : d.pool.has_jobs = true
      · simp [hv]
      · simp [hv]
  | _ => first | exact absurd rfl hheld | (cases hcode; exact Option.some_ne_none _) | cases hcode

theorem ranked : Ranked (code (n := n) P) Pc.Holds Mutex.rank where
  lock t p m next h m' hm' := by
    cases passes_of_goes h with
    | postLock k =>
        obtain rfl : m' = .rwmutex := List.mem_singleton.mp hm'
        decide
    | _ => cases hm'
  access t p f m hcode hheld d := by
    refine ⟨.go, access_of_held P hcode ?_ d⟩
    intro hnil
    unfold Pc.Holds at hheld
    rw [hnil] at hheld
    cases hheld
  create t p next m h := by
    cases passes_of_goes h
    exact List.not_mem_nil
  exit t p m hcode := by
    cases p with
    | exited | outside | destroyed | init => exact List.not_mem_nil
    | _ => first | exact List.not_mem_nil | cases hcode

end Mutexes

/-! ## §2. Whose program points, and who is counted. -/

section Points

variable {n : Nat} {κ J X E A : Type} {P : Client κ J X E A} {t : Name n κ} {a : Choice A}
  {d d' : Shared J E} {p next : Pc J X} {k : Doing Mutex Cond}

/-- `jobqueue_pull` was called by a worker. -/
def Puller.ofWorker : Puller → Bool
  | .worker => true
  | .clear _ => false

/-- `bsem_post` was called by a worker. -/
def Poster.ofWorker : Poster → Bool
  | .push => false
  | .pull k _ => k.ofWorker

/-- The program point is one of `thread_do` and of what it calls. -/
def Pc.ofWorker : Pc J X → Bool
  | .aliveLock | .aliveInc | .aliveUnlock | .whileKeepalive | .ifKeepalive | .workingLock
  | .workingInc | .workingUnlock | .ifJob _ | .run _ _ | .freeJob _ | .doneLock | .doneDec
  | .doneSignal | .doneUnlock | .exitLock | .exitDec | .exitUnlock | .exited | .semLock
  | .semTest | .semSleep | .semUnlock => true
  | .postLock k | .postSet k | .postSignal k | .postUnlock k => k.ofWorker
  | .pullLock k | .pullTake k | .pullUnlock k _ => k.ofWorker
  | _ => false

theorem ofWorker_of_passes (h : Passes p k next) :
    next.ofWorker = p.ofWorker := by
  cases h <;> rfl

theorem ofWorker_of_effect (h : Effect P t d a p d' next) : next.ofWorker = p.ofWorker := by
  cases h with
  | call a c env call ht hcall hout hready => cases call <;> rfl
  | _ => rfl

/-- Between `num_threads_alive++` and `num_threads_alive--`. -/
def Pc.countedAlive : Pc J X → Bool
  | .aliveLock | .aliveInc | .exitUnlock | .exited => false
  | p => p.ofWorker

/-- Between `num_threads_working++` and `num_threads_working--`. -/
def Pc.countedWorking : Pc J X → Bool
  | .workingUnlock | .ifJob _ | .run _ _ | .freeJob _ | .doneLock | .doneDec => true
  | .postLock k | .postSet k | .postSignal k | .postUnlock k => k.ofWorker
  | .pullLock k | .pullTake k | .pullUnlock k _ => k.ofWorker
  | _ => false

theorem counted_of_passes (h : Passes p k next) :
    next.countedAlive = p.countedAlive ∧ next.countedWorking = p.countedWorking := by
  cases h <;> exact ⟨rfl, rfl⟩

/-- An access changes a counter as it changes who is counted. -/
theorem counted_of_effect (h : Effect P t d a p d' next) :
    d'.pool.num_threads_alive + p.countedAlive.toNat
        = d.pool.num_threads_alive + next.countedAlive.toNat
      ∧ d'.pool.num_threads_working + p.countedWorking.toNat
        = d.pool.num_threads_working + next.countedWorking.toNat := by
  cases h with
  | aliveInc | workingInc | lastDone | done | exitDec =>
      simp [Pc.countedAlive, Pc.countedWorking, Pc.ofWorker]
  | call a c env call ht hcall hout hready => cases call <;> exact ⟨rfl, rfl⟩
  | _ => exact ⟨rfl, rfl⟩

end Points

/-! ## §3. Runs. -/

section Runs

variable {n : Nat} {κ J X E A : Type} [DecidableEq κ]

section Start

variable {main : κ} {env : E}

theorem start_pcs_caller (c : κ) :
    (start n J X main env).pcs (.inr c) = if c = main then .init 0 else .outside := rfl

/-- At the start nobody holds a mutex. -/
theorem start_held (t : Name n κ) : ((start n J X main env).pcs t).held = [] := by
  cases t with
  | inl i => rfl
  | inr c =>
      rw [start_pcs_caller]
      split <;> rfl

theorem start_locked : Locked Pc.Holds (start n J X main env) := by
  have hnot : ∀ t m, ¬ ((start n J X main env).pcs t).Holds m := by
    intro t m
    unfold Pc.Holds
    rw [start_held]
    exact List.not_mem_nil
  constructor
  · intro m t
    have hnone : (start n J X main env).owner m = none := rfl
    rw [hnone]
    simp [hnot]
  · rintro (i | c) c' m hmode <;> cases hmode
  · rintro (i | c) m hmode <;> cases hmode
  · exact fun t _ => hnot t

end Start

variable [Fintype κ]

/-- The states of a pool of `n` threads that `main` has begun to create, under any guard `ok`. -/
abbrev Reached (P : Client κ J X E A) (main : κ) (env : E)
    (ok : PoolState n κ J X E → Move (Name n κ) (Choice A) → Prop) (s : PoolState n κ J X E) :
    Prop :=
  Reach (State.step (code P)) ok (start n J X main env) s

variable {P : Client κ J X E A} {main : κ} {env : E}
  {ok : PoolState n κ J X E → Move (Name n κ) (Choice A) → Prop} {s : PoolState n κ J X E}

/-- **Mutual exclusion**, over every run. -/
theorem locked (h : Reached P main env ok s) : Locked Pc.Holds s :=
  Locked.reach (disciplined P) start_locked h

/-- In `thpool_add_work`, in the middle of `bsem_post`. -/
theorem locked_posting :
    ∃ s, execute (State.step (code errands)) (fun _ _ => True) (start 1 Nat Unit () ())
        (opening ++ adding.take 6) = some s
      ∧ s.owner .rwmutex = some (.inr ()) ∧ s.owner .bsem = some (.inr ())
      ∧ Locked Pc.Holds s :=
  execute_reaches (P := fun s : Errands =>
      s.owner .rwmutex = some (.inr ()) ∧ s.owner .bsem = some (.inr ()))
    (by decide) fun _ h howner => ⟨howner.1, howner.2, locked h⟩

/-- The rule for invariants of the pool: what holds at the start, and is kept by every passage
and every effect. -/
theorem Reached.view {I : Shared J E → (Name n κ → Pc J X) → Prop}
    (hinit : I ⟨ThPool.init J, false, env⟩ (start n J X main env).pcs)
    (hpass : ∀ s t k next, Reached P main env ok s → I s.data s.pcs → Passes (s.pcs t) k next →
      I s.data (Function.update s.pcs t next))
    (heffect : ∀ s t a d next, Reached P main env ok s → I s.data s.pcs → ok s (.go t a) →
      Effect P t s.data a (s.pcs t) d next → I d (Function.update s.pcs t next))
    (h : Reached P main env ok s) : I s.data s.pcs :=
  reach_view hinit (fun s t k next hr hI hgo => hpass s t k next hr hI (passes_of_goes hgo))
    (fun s t a _ d next hr hI hok hcode hf =>
      heffect s t a d next hr hI hok (effect_of_access hcode hf)) h

/-! ## §4. The counters. -/

/-- Workers are at program points of workers, and callers are not. -/
theorem ofWorker_pcs (h : Reached P main env ok s) (t : Name n κ) :
    (s.pcs t).ofWorker = t.isLeft := by
  have hkeep : ∀ (pcs : Name n κ → Pc J X) t next, next.ofWorker = (pcs t).ofWorker →
      (∀ u, (pcs u).ofWorker = u.isLeft) →
        ∀ u, (Function.update pcs t next u).ofWorker = u.isLeft := by
    intro pcs t next hnext hall u
    by_cases hu : u = t
    · subst hu
      rw [Function.update_self, hnext, hall]
    · rw [Function.update_of_ne hu, hall]
  refine Reached.view (I := fun _ pcs => ∀ u, (pcs u).ofWorker = u.isLeft) ?_ ?_ ?_ h t
  · rintro (i | c)
    · rfl
    · rw [start_pcs_caller]
      split <;> rfl
  · exact fun s t k next _ hI hpass => hkeep _ t next (ofWorker_of_passes hpass) hI
  · exact fun s t a d next _ hI _ heff => hkeep _ t next (ofWorker_of_effect heff) hI

/-- Each counter is the number of workers between its two updates. -/
structure Counted (d : Shared J E) (pcs : Name n κ → Pc J X) : Prop where
  alive : d.pool.num_threads_alive = count Pc.countedAlive pcs
  working : d.pool.num_threads_working = count Pc.countedWorking pcs

theorem Reached.counted (h : Reached P main env ok s) : Counted s.data s.pcs := by
  refine Reached.view (I := Counted) ?_ ?_ ?_ h
  · have hstart : ∀ t : Name n κ, ((start n J X main env).pcs t).countedAlive = false
        ∧ ((start n J X main env).pcs t).countedWorking = false := by
      rintro (i | c)
      · exact ⟨rfl, rfl⟩
      · rw [start_pcs_caller]
        split <;> exact ⟨rfl, rfl⟩
    constructor
    · rw [count_eq_zero_iff.mpr fun t => (hstart t).1]
      rfl
    · rw [count_eq_zero_iff.mpr fun t => (hstart t).2]
      rfl
  · -- only accesses count: between them no point is counted otherwise
    intro s t k next _ hI hpass
    obtain ⟨halive, hworking⟩ := counted_of_passes hpass
    have hA := count_update Pc.countedAlive s.pcs t next
    have hW := count_update Pc.countedWorking s.pcs t next
    rw [halive] at hA
    rw [hworking] at hW
    obtain ⟨hIa, hIw⟩ := hI
    constructor
    · omega
    · omega
  · -- each counter moves as the point of the thread that moves it does
    intro s t a d next _ hI _ heff
    obtain ⟨halive, hworking⟩ := counted_of_effect heff
    have hA := count_update Pc.countedAlive s.pcs t next
    have hW := count_update Pc.countedWorking s.pcs t next
    obtain ⟨hIa, hIw⟩ := hI
    constructor
    · omega
    · omega

end Runs

end SensorServer.Pool
