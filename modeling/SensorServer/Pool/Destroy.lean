/-
  SensorServer.Pool.Destroy — what `thpool_destroy` leaves behind.

  While the pool is not destroyed, all its threads are alive.  When `thpool_destroy` comes to its
  end, it has counted all of them, every worker has left, every job has been freed, and every
  submitted job has either been run to its end or was discarded without having begun
  (`destroyed`).
-/
import SensorServer.Pool.Refinement
import SensorServer.Pool.Wakeups

namespace SensorServer.Pool

open SensorServer.Framework
open SensorServer.Framework.Pthread

/-! ## §1. Program points. -/

section Points

variable {J X : Type}

/-- `threads_total`, under `jobqueue_clear`. -/
def Puller.total : Puller → Option Int
  | .worker => none
  | .clear total => some total

/-- `threads_total`, under `jobqueue_clear`, in `jobqueue_pull`. -/
def Poster.total : Poster → Option Int
  | .push => none
  | .pull k _ => k.total

/-- `threads_total` of `thpool_destroy`, once it has been read. -/
def Pc.total : Pc J X → Option Int
  | .destroyStop total | .destroyLoop total _ | .postAllLock total _ | .postAllSet total _
  | .postAllBroadcast total _ | .postAllUnlock total _ | .clearTest total | .clearFree total _
  | .clearReset total | .destroyed total => some total
  | .postLock k | .postSet k | .postSignal k | .postUnlock k => k.total
  | .pullLock k | .pullTake k | .pullUnlock k _ => k.total
  | _ => none

/-- In `thpool_destroy`, behind the end of `threads_keepalive`. -/
def Pc.stopped : Pc J X → Bool
  | .destroyBegin | .destroyStop _ => false
  | p => p.destroying

theorem destroying_of_stopped {p : Pc J X} (h : p.stopped = true) : p.destroying = true := by
  cases p <;> first | exact h | rfl

theorem leaving_of_gone {p : Pc J X} (h : p.gone = true) : p.leaving = true := by
  cases p <;> first | rfl | cases h

/-- Who is gone has nothing in hand and is not counted. -/
theorem free_of_gone {p : Pc J X} (h : p.gone = true) :
    p.inHand = none ∧ p.countedAlive = false ∧ p.countedWorking = false := by
  cases p <;> first | exact ⟨rfl, rfl, rfl⟩ | cases h

end Points

/-! ## §2. Steps. -/

section Steps

variable {n : Nat} {κ J X E A : Type} {P : Client κ J X E A} {t : Name n κ} {a : Choice A}
  {d d' : Shared J E} {p next : Pc J X} {k : Doing Mutex Cond}

theorem stopped_of_passes (h : Passes p k next) :
    next.total = p.total ∧ next.stopped = p.stopped := by
  cases h <;> exact ⟨rfl, rfl⟩

/-- Only `thpool_destroy` ends `threads_keepalive`, and nobody comes back from it. -/
theorem stopped_of_effect (h : Effect P t d a p d' next) :
    (d'.pool.threads_keepalive = false → d.pool.threads_keepalive = false ∨ next.stopped = true)
      ∧ (p.stopped = true → next.stopped = true) := by
  cases h with
  | destroyStop => exact ⟨fun _ => .inr rfl, (by nofun)⟩
  | _ => first | exact ⟨.inl, id⟩ | exact ⟨.inl, (by nofun)⟩

/-- `threads_total` is what `num_threads_alive` was at the beginning. -/
theorem total_of_effect (h : Effect P t d a p d' next) :
    next.total = p.total ∨ p = .destroyBegin ∧ next.total = some d.pool.num_threads_alive := by
  cases h with
  | destroyBegin => exact .inr ⟨rfl, rfl⟩
  | call a c env call ht hcall hout hready => cases call <;> exact .inl rfl
  | _ => exact .inl rfl

/-- Only `jobqueue_clear` discards jobs. -/
theorem clear_of_discarded {e : JobEvent (Fin n) κ J} (he : e.discarded ≠ none)
    (hseen : seen P t a d p = some e) (hworker : p.ofWorker = t.isLeft) :
    ∃ total, p = .pullTake (.clear total) := by
  -- of the points that show an event, only the pull of `jobqueue_clear` shows a discard
  cases p with
  | pullTake k =>
      cases k with
      | clear total => exact ⟨total, rfl⟩
      | worker =>
          obtain ⟨i, rfl⟩ := Sum.isLeft_iff.mp hworker.symm
          obtain ⟨job, -, rfl⟩ := Option.map_eq_some_iff.mp hseen
          exact absurd rfl he
  | pushLink newjob =>
      obtain ⟨job, -, rfl⟩ := Option.map_eq_some_iff.mp hseen
      exact absurd rfl he
  | ifJob job_p =>
      cases job_p with
      | none => cases hseen
      | some job_p =>
          cases t with
          | inl i =>
              obtain ⟨job, -, rfl⟩ := Option.map_eq_some_iff.mp hseen
              exact absurd rfl he
          | inr c => cases hseen
  | run x job_p =>
      simp only [seen] at hseen
      split at hseen
      · split at hseen
        · obtain ⟨job, -, rfl⟩ := Option.map_eq_some_iff.mp hseen
          exact absurd rfl he
        · cases hseen
      · cases hseen
  | outside =>
      simp only [seen] at hseen
      split at hseen
      · split at hseen
        · cases hseen
          exact absurd rfl he
        · cases hseen
      · cases hseen
  | waitWorking =>
      simp only [seen] at hseen
      split at hseen
      · split at hseen
        · cases hseen
          exact absurd rfl he
        · cases hseen
      · cases hseen
  | _ => cases hseen

/-- Who is stopped stays so. -/
theorem stopped_update [DecidableEq κ] {pcs : Name n κ → Pc J X} {u : Name n κ}
    (hu : (pcs u).stopped = true) (hnext : (pcs t).stopped = true → next.stopped = true) :
    ∃ v, (Function.update pcs t next v).stopped = true := by
  by_cases hut : u = t
  · refine ⟨t, ?_⟩
    rw [Function.update_self]
    exact hnext (hut ▸ hu)
  · exact ⟨u, by rw [Function.update_of_ne hut]; exact hu⟩

end Steps

/-! ## §3. Runs. -/

section Runs

variable {n : Nat} {κ J X E A : Type} [DecidableEq κ] [Fintype κ] {P : Client κ J X E A}
  {main : κ} {env : E} {ok : PoolState n κ J X E → Move (Name n κ) (Choice A) → Prop}
  {s : PoolState n κ J X E}

/-- Nobody comes back from `thpool_destroy`. -/
theorem stopped_of_step {m : Move (Name n κ) (Choice A)} {s' : PoolState n κ J X E}
    (hstopped : ∃ u, (s.pcs u).stopped = true) (hs : s.step (code P) m = some s') :
    ∃ u, (s'.pcs u).stopped = true := by
  obtain ⟨u, hu⟩ := hstopped
  have hview := viewed_of_step hs
  generalize s'.data = d, s'.pcs = pcs at hview ⊢
  cases hview with
  | same => exact ⟨u, hu⟩
  | pass _ t k next hgoes =>
      exact stopped_update hu (stopped_of_passes (passes_of_goes hgoes)).2.trans
  | access t a f d next hcode hf =>
      exact stopped_update hu (stopped_of_effect (effect_of_access hcode hf)).2

/-- While `threads_keepalive` does not hold, somebody destroys the pool or has done so. -/
theorem stopped (h : Reached P main env ok s) (hkeep : s.data.pool.threads_keepalive = false) :
    ∃ t, (s.pcs t).stopped = true := by
  refine Reached.view (I := fun d pcs => d.pool.threads_keepalive = false →
    ∃ t, (pcs t).stopped = true) ?_ ?_ ?_ h hkeep
  · nofun
  · intro s t k next _ hI hpass hkeep
    obtain ⟨u, hu⟩ := hI hkeep
    exact stopped_update hu (stopped_of_passes hpass).2.trans
  · intro s t a d next _ hI _ heff hkeep
    obtain ⟨hends, hstays⟩ := stopped_of_effect heff
    rcases hends hkeep with hold | hnext
    · obtain ⟨u, hu⟩ := hI hold
      exact stopped_update hu hstays
    · exact ⟨t, by rw [Function.update_self]; exact hnext⟩

/-- **While the pool is ready and keeps its threads, all of them are alive.** -/
theorem alive_of_ready (h : Reached P main env ok s) (hready : s.data.ready = true)
    (hkeep : s.data.pool.threads_keepalive = true) : s.data.pool.num_threads_alive = n := by
  have hworker := ofWorker_pcs h
  refine h.counted.alive.trans (congrArg Int.ofNat ?_)
  refine (all_countedAlive hworker).mpr fun i => ?_
  have hunborn := ((begun h).late hready (.inl i)).2
  have hstays := (watch h).staying hkeep (.inl i)
  have hgone : (s.pcs (.inl i)).gone = false := by
    refine Bool.eq_false_iff.mpr fun hgone => ?_
    rw [leaving_of_gone hgone] at hstays
    cases hstays
  rw [countedAlive_eq, hworker, hunborn, hgone]
  rfl

/-- **`thpool_destroy` has counted all threads.** -/
theorem total_eq (hpolite : ∀ s l, ok s l → Polite P s l) (h : Reached P main env ok s) :
    ∀ t total, (s.pcs t).total = some total → total = n := by
  refine Reached.view (I := fun _ pcs => ∀ t total, (pcs t).total = some total → total = n)
    ?_ ?_ ?_ h
  · rintro (i | c) total ht
    · cases ht
    · rw [start_pcs_caller] at ht
      split at ht <;> cases ht
  · intro s t k next _ hI hpass
    refine (Function.forall_update_iff _ fun _ (p : Pc J X) =>
      ∀ total, p.total = some total → total = n).mpr ⟨?_, fun u _ => hI u⟩
    -- the local is passed on from point to point
    rw [(stopped_of_passes hpass).1]
    exact hI t
  · intro s t a d next hreach hI _ heff
    refine (Function.forall_update_iff _ fun _ (p : Pc J X) =>
      ∀ total, p.total = some total → total = n).mpr ⟨?_, fun u _ => hI u⟩
    rcases total_of_effect heff with hsame | ⟨hp, hnew⟩
    · rw [hsame]
      exact hI t
    · -- nobody else destroys the pool
      have hending := ending hpolite hreach
      have hdestroying : (s.pcs t).destroying = true := by
        rw [hp]
        rfl
      have hkeep : s.data.pool.threads_keepalive = true := by
        by_contra hkeep
        obtain ⟨u, hu⟩ := stopped hreach (Bool.eq_false_iff.mpr hkeep)
        have hut : u ≠ t := by
          rintro rfl
          rw [hp] at hu
          cases hu
        cases u with
        | inl i =>
            have hi := (callers_of_ofWorker (ofWorker_pcs hreach (.inl i))).1
            rw [destroying_of_stopped hu] at hi
            cases hi
        | inr c =>
            have hout := hending.alone t hdestroying c hut
            rw [isOutside_iff.mp hout] at hu
            cases hu
      rw [hnew]
      intro total htotal
      cases htotal
      exact alive_of_ready hreach (hending.ready t hdestroying) hkeep

/-- What `thpool_destroy` leaves behind. -/
structure Cleaned (s : PoolState n κ J X E) (c : κ) (total : Int) : Prop where
  /-- It has counted all threads, and none is alive. -/
  threads : total = n ∧ s.data.pool.num_threads_alive = 0
  workers : ∀ i, (s.pcs (.inl i)).gone = true
  callers : ∀ c', c' ≠ c → s.pcs (.inr c') = .outside
  idle : s.data.pool.num_threads_working = 0
  /-- The queue is empty, and no job is allocated. -/
  queue : s.data.pool.jobqueue.len = 0
  freed : ∀ a, s.data.pool.jobqueue.jobs a = none
  fault : s.data.pool.jobqueue.fault = false

theorem cleaned (hpolite : ∀ s l, ok s l → Polite P s l) (h : Reached P main env ok s) {c : κ}
    {total : Int} (hc : s.pcs (.inr c) = .destroyed total) : Cleaned s c total := by
  have hending := ending hpolite h
  have hgone := hending.gone (.inr c) (by rw [hc]; rfl)
  have hcallers : ∀ c', c' ≠ c → s.pcs (.inr c') = .outside := fun c' hc' =>
    isOutside_iff.mp (hending.alone (.inr c) (by rw [hc]; rfl) c' fun heq =>
      hc' (Sum.inr.inj heq))
  -- nobody has anything in hand or is counted
  have hfree : ∀ t, (s.pcs t).inHand = none ∧ (s.pcs t).countedAlive = false
      ∧ (s.pcs t).countedWorking = false := by
    rintro (i | c')
    · exact free_of_gone (hgone i)
    · by_cases hcc : c' = c
      · rw [hcc, hc]
        exact ⟨rfl, rfl, rfl⟩
      · rw [hcallers c' hcc]
        exact ⟨rfl, rfl, rfl⟩
  obtain ⟨halive, hworking⟩ := h.counted
  obtain ⟨l, hshape⟩ := (orderly hpolite h).queue
  obtain rfl := hshape.cleared (.inr c) (by rw [hc]; rfl)
  refine ⟨⟨total_eq hpolite h (.inr c) total (by rw [hc]; rfl), ?_⟩, hgone, hcallers, ?_,
    hshape.holds.len, fun a => ?_, hshape.fault⟩
  · rw [halive, count_eq_zero_iff.mpr fun t => (hfree t).2.1]
    rfl
  · rw [hworking, count_eq_zero_iff.mpr fun t => (hfree t).2.2]
    rfl
  · have hdead : ¬ (s.data.pool.jobqueue.value a).isSome = true := by
      rw [hshape.custody.live_iff]
      rintro (hmem | ⟨t, ht⟩)
      · cases hmem
      · rw [Function.comp_apply, (hfree t).1] at ht
        cases ht
    unfold JobQueue.value at hdead
    simpa using hdead

/-- Before `thpool_destroy` is called, no job is discarded. -/
theorem stopped_of_discarded {es : List (JobEvent (Fin n) κ J)} (h : Shows P main env ok es s)
    (hdiscarded : es.filterMap JobEvent.discarded ≠ []) : ∃ t, (s.pcs t).stopped = true := by
  refine h.invariant (Q := fun es s => es.filterMap JobEvent.discarded ≠ [] →
    ∃ t, (s.pcs t).stopped = true) (fun hnil => absurd rfl hnil) ?_ hdiscarded
  intro es s m s' hreach hI hok hs hnew
  have hthere : ∃ u, (s.pcs u).stopped = true := by
    by_cases hold : es.filterMap JobEvent.discarded = []
    · -- the step discards a job
      rw [List.filterMap_append, hold, List.nil_append] at hnew
      cases hev : viewEvent (seen P) s m with
      | none =>
          rw [hev] at hnew
          exact absurd rfl hnew
      | some e =>
          have he : e.discarded ≠ none := by
            rw [hev] at hnew
            intro hnone
            exact hnew (List.filterMap_cons_none hnone)
          cases m with
          | go t a =>
              obtain ⟨total, hp⟩ := clear_of_discarded he hev (ofWorker_pcs hreach t)
              exact ⟨t, by rw [hp]; rfl⟩
          | _ => cases hev
    · exact hI hold
  exact stopped_of_step hthere hs

/-- **Every submitted job is run**, as long as nobody destroys the pool. -/
theorem jobs_all_run (hpolite : ∀ s l, ok s l → Polite P s l)
    {es : List (JobEvent (Fin n) κ J)} (h : Shows P main env ok es s)
    (hcalm : ∀ t, (s.pcs t).destroying = false) (hlen : s.data.pool.jobqueue.len = 0)
    (hworking : s.data.pool.num_threads_working = 0) :
    (es.filterMap JobEvent.finished).Perm (es.filterMap JobEvent.submitted) := by
  have hnone : es.filterMap JobEvent.discarded = [] := by
    by_contra hdiscarded
    obtain ⟨t, ht⟩ := stopped_of_discarded h hdiscarded
    have hnot := hcalm t
    rw [destroying_of_stopped ht] at hnot
    cases hnot
  have hperm := (jobs_over hpolite h hlen hworking).1
  rw [hnone, List.append_nil] at hperm
  exact hperm

end Runs

end SensorServer.Pool
