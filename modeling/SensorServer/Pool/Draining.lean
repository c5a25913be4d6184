/-
  SensorServer.Pool.Draining — the pool comes to rest with its work done.

  `Pc.cost` is what a thread at a program point has still to do before it sleeps or is outside,
  the wake-ups included that it will send; a queued job and a posted semaphore have a cost of
  their own.  Every step inside the pool lowers the total, so that without new calls every run
  is bounded, whatever the schedule; and where it comes to rest all jobs are done and nobody
  waits (`drains`).
-/
import SensorServer.Pool.Destroy
import SensorServer.Pool.Progress

namespace SensorServer.Pool

open SensorServer.Framework
open SensorServer.Framework.Pthread

/-! ## §1. Costs. -/

/-- Of the semaphore that is up. -/
def tokenCost : ℕ := 22

/-- Of the semaphore. -/
def semCost : Bool → ℕ
  | true => tokenCost
  | false => 0

/-- Of a queued job, beside the job itself. -/
def linkCost : ℕ := 29

section Costs

variable {n : Nat} {κ J X E A : Type}

/-- Of what follows `bsem_post`, with `c` for the job in hand. -/
def Poster.cost (c : ℕ) : Poster → ℕ
  | .push => 1
  | .pull _ _ => 16 + c

/-- Of a program point: `c` is the cost of the job in hand before it begins, `w` the cost of a
job under way, `z` the cost of a job. -/
def Pc.cost (w : X → ℕ) (z : J → ℕ) (c : ℕ) : Pc J X → ℕ
  | .aliveLock => 7
  | .aliveInc => 6
  | .aliveUnlock => 5
  | .whileKeepalive => 4
  | .semLock => 3
  | .semTest => 2
  | .semSleep => 1
  | .semUnlock => 23
  | .ifKeepalive => 22
  | .workingLock => 21
  | .workingInc => 20
  | .workingUnlock => 19
  | .pullLock _ => 18
  | .pullTake _ => 17
  | .postLock k => k.cost c + 7 + tokenCost
  | .postSet k => k.cost c + 6 + tokenCost
  | .postSignal k => k.cost c + 5
  | .postUnlock k => k.cost c + 1
  | .pullUnlock _ _ => 16 + c
  | .ifJob _ => 15 + c
  | .run x _ => 14 + w x
  | .freeJob _ => 13
  | .doneLock => 12
  | .doneDec => 11
  | .doneSignal => 10
  | .doneUnlock => 5
  | .exitLock => 3
  | .exitDec => 2
  | .exitUnlock => 1
  | .addAlloc job => 11 + tokenCost + linkCost + z job
  | .pushLock _ => 10 + tokenCost + linkCost + c
  | .pushLink _ => 9 + tokenCost + linkCost + c
  | .pushUnlock => 1
  | .waitLock => 4
  | .waitLen => 3
  | .waitWorking => 2
  | .waitSleep => 1
  | .waitUnlock => 1
  | _ => 0

/-- Of a thread: nothing while it sleeps. -/
def threadCost (cost : Pc J X → ℕ) (x : Thread (Pc J X) Mutex Cond) : ℕ :=
  match x.mode with
  | .unborn | .asleep _ _ => 0
  | .running => cost x.pc
  | .woken _ => cost x.pc + 1

theorem threadCost_congr {cost cost' : Pc J X → ℕ} {x : Thread (Pc J X) Mutex Cond}
    (h : cost x.pc = cost' x.pc) : threadCost cost x = threadCost cost' x := by
  unfold threadCost
  rw [h]

/-- Of the job in hand. -/
def handCost (z : J → ℕ) (q : JobQueue J) (job_p : Option Nat) : ℕ :=
  ((job_p.bind q.value).map z).getD 0

/-- Of a program point, with the job in hand. -/
def pointCost (w : X → ℕ) (z : J → ℕ) (q : JobQueue J) (p : Pc J X) : ℕ :=
  p.cost w z (handCost z q p.inHand)

/-- Of the queued jobs. -/
def queueCost (z : J → ℕ) (l : List (Nat × J)) : ℕ :=
  (l.map fun cell => linkCost + z cell.2).sum

/-- Of the semaphore and the queued jobs. -/
def sharedCost (z : J → ℕ) (pool : ThPool J) (l : List (Nat × J)) : ℕ :=
  semCost pool.has_jobs + queueCost z l

end Costs

/-! ## §2. Steps. -/

/-- Inside the pool, neither creating nor destroying it. -/
def Pc.inside {J X : Type} (p : Pc J X) : Bool := !p.isOutside && !p.isInit && !p.destroying

section Steps

variable {n : Nat} {κ J X E A : Type} {P : Client κ J X E A} {t : Name n κ} {a : Choice A}
  {d d' : Shared J E} {p next : Pc J X} {k : Doing Mutex Cond} {w : X → ℕ} {z : J → ℕ}

/-- What a wake-up can cost. -/
def wakeCost : Doing Mutex Cond → ℕ
  | .signal .has_jobs => 3
  | .signal .threads_all_idle => 4
  | _ => 0

/-- A thread that goes on, and does not go to sleep, has less to do than before, even with the
wake-up it sends. -/
theorem cost_of_passes (h : Passes p k next) (hin : p.inside = true)
    (hawake : ∀ c m, k ≠ .wait c m) (c : ℕ) :
    next.cost w z c + wakeCost k < p.cost w z c := by
  cases h with
  | init | postAllLock | postAllBroadcast | postAllUnlock | pulledClear => cases hin
  | semSleep | waitSleep => exact absurd rfl (hawake _ _)
  | postedPush | postedPull | pullLock | pulledJob =>
      simp only [Pc.cost, Poster.cost, wakeCost]
      omega
  | _ =>
      simp only [Pc.cost, wakeCost]
      omega

/-- Who goes to sleep has had something to do. -/
theorem cost_pos_of_sleep {c : Cond} {m : Mutex} (h : Passes p (.wait c m) next) (b : ℕ) :
    0 < p.cost w z b := by
  cases h <;> exact Nat.one_pos

/-- A sleeper can be woken. -/
theorem wakeCost_of_sleep {c : Cond} {m : Mutex} (h : Passes p (.wait c m) next) (b : ℕ) :
    next.cost w z b + 1 ≤ wakeCost (.signal c) := by
  cases h <;> exact Nat.le_refl _

end Steps

section Values

variable {n : Nat} {κ J X E A : Type} {P : Client κ J X E A} {t : Name n κ} {a : Choice A}
  {d d' : Shared J E} {p next : Pc J X} {l : List (Nat × J)} {z : J → ℕ}

/-- An access leaves a job what it was, or frees it. -/
theorem value_of_effect (h : Effect P t d a p d' next) (hholds : d.pool.jobqueue.Holds l)
    (hpush : ∀ b, p = .pushLink b → (∃ v, d.pool.jobqueue.value b = some v) ∧ b ∉ l.map Prod.fst)
    (b : Nat) (v : J) (hb : d.pool.jobqueue.value b = some v) :
    d'.pool.jobqueue.value b = some v ∨ d'.pool.jobqueue.value b = none := by
  cases h with
  | freeJob a job_p => exact value_free _ job_p b v hb
  | clearFree a total job_p => exact value_free _ job_p b v hb
  | addAlloc job a prev hfresh => exact .inl ((value_alloc hfresh hb).trans hb)
  | pushLink a newjob =>
      obtain ⟨⟨job, hjob⟩, hapart⟩ := hpush newjob rfl
      exact .inl (((hholds.push hjob hapart).2.2 b).trans hb)
  | pullLast | pullMore => exact .inl ((value_pull _ b).trans hb)
  | _ => exact .inl hb

theorem handCost_some {q : JobQueue J} {b : Nat} {v : J} (hv : q.value b = some v) :
    handCost z q (some b) = z v := by
  unfold handCost
  rw [Option.bind_some, hv]
  rfl

/-- A pull moves the first job into a hand. -/
theorem queueCost_tail {q : JobQueue J} (h : q.Holds l) :
    queueCost z l = queueCost z l.tail + handCost z q.pull q.front
      + if l = [] then 0 else linkCost := by
  rw [h.front]
  cases l with
  | nil => rfl
  | cons cell l =>
      obtain ⟨b, v⟩ := cell
      have hv : q.pull.value b = some v := (value_pull q b).trans (h.value List.mem_cons_self)
      show linkCost + z v + queueCost z l
        = queueCost z l + handCost z q.pull (some b) + linkCost
      rw [handCost_some hv]
      omega

/-- A push moves a job from a hand to the end. -/
theorem queueCost_snoc (b : Nat) (v : J) :
    queueCost z (l ++ [(b, v)]) = queueCost z l + linkCost + z v := by
  unfold queueCost
  rw [List.map_append, List.sum_append, List.map_singleton, List.sum_singleton, Nat.add_assoc]

variable {w : X → ℕ}

/-- **Every access inside the pool lowers the cost.** -/
theorem cost_of_effect (h : Effect P t d a p d' next) (hin : p.inside = true)
    (hholds : d.pool.jobqueue.Holds l)
    (hvalue : ∀ b, p.inHand = some b → ∃ v, d.pool.jobqueue.value b = some v)
    (hw : ∀ c x env env' x', P.work c x env = some (env', some x') → w x' < w x) :
    sharedCost (w ∘ P.start) d'.pool (p.queueAfter d.pool.jobqueue l)
        + pointCost w (w ∘ P.start) d'.pool.jobqueue next
      < sharedCost (w ∘ P.start) d.pool l + pointCost w (w ∘ P.start) d.pool.jobqueue p := by
  cases h with
  | ready | spin | stay | early | call | destroyBegin | destroyStop | postAgain | poll | allGone
  | postAllSet | clearMore | clearDone | freeNull | clearFree | clearReset => cases hin
  | goesOn c x x' job_p env hwork =>
      have hless := hw c x d.env env x' hwork
      simp only [Pc.queueAfter, sharedCost, pointCost, Pc.cost]
      omega
  | begun a job_p node hnode =>
      have hv : d.pool.jobqueue.value job_p = some node.value := by
        unfold JobQueue.value
        rw [hnode]
        rfl
      simp only [Pc.queueAfter, sharedCost, pointCost, Pc.cost, Pc.inHand, handCost_some hv,
        Function.comp_apply]
      omega
  | consume a hv =>
      simp only [Pc.queueAfter, sharedCost, pointCost, Pc.cost, hv, semCost, tokenCost]
      omega
  | postSet a k =>
      -- the semaphore may be up already
      simp only [Pc.queueAfter, sharedCost, pointCost, Pc.cost, Pc.inHand, semCost]
      cases k with
      | push =>
          simp only [Poster.cost]
          omega
      | pull puller job_p =>
          simp only [Poster.cost, Poster.inHand]
          omega
  | addAlloc job b prev hfresh =>
      have hv : (d.pool.jobqueue.alloc b job prev).value b = some job := by
        show (Function.update d.pool.jobqueue.jobs b (some ⟨job, prev⟩) b).map Node.value = _
        rw [Function.update_self]
        rfl
      simp only [Pc.queueAfter, sharedCost, pointCost, Pc.cost, Pc.inHand, ThPool.queue,
        handCost_some hv, Function.comp_apply]
      omega
  | pushLink a newjob =>
      obtain ⟨v, hv⟩ := hvalue newjob rfl
      have hafter : Pc.queueAfter d.pool.jobqueue l (.pushLink newjob : Pc J X)
          = l ++ [(newjob, v)] := by
        show l ++ (d.pool.jobqueue.value newjob).toList.map (fun v => (newjob, v)) = _
        rw [hv]
        rfl
      rw [hafter]
      simp only [sharedCost, pointCost, Pc.cost, Poster.cost, Pc.inHand, handCost_some hv,
        queueCost_snoc, ThPool.queue]
      omega
  | pullLast a puller hlen =>
      have htail := queueCost_tail (z := w ∘ P.start) hholds
      simp only [Pc.queueAfter, sharedCost, pointCost, Pc.cost, Pc.inHand, ThPool.queue]
      omega
  | pullMore a puller hlen =>
      have htail := queueCost_tail (z := w ∘ P.start) hholds
      have hne : l ≠ [] := fun hl => hlen (.inl (hholds.len_eq_zero_iff.mpr hl))
      rw [if_neg hne, linkCost] at htail
      simp only [Pc.queueAfter, sharedCost, pointCost, Pc.cost, Poster.cost, Poster.inHand,
        Pc.inHand, ThPool.queue, tokenCost]
      omega
  | _ =>
      simp only [Pc.queueAfter, sharedCost, pointCost, Pc.cost, ThPool.queue, ThPool.faulted]
      omega

/-- The others have in hand what they had. -/
theorem value_of_others [DecidableEq κ] {pcs : Name n κ → Pc J X} {l' : List (Nat × J)}
    {u : Name n κ} (heff : Effect P t d a (pcs t) d' next)
    (hshape : Shape d.pool.jobqueue pcs l)
    (hshape' : Shape d'.pool.jobqueue (Function.update pcs t next) l') (hu : u ≠ t) {b : Nat}
    (hb : (pcs u).inHand = some b) : d'.pool.jobqueue.value b = d.pool.jobqueue.value b := by
  have hvalue := value_of_effect heff hshape.holds fun b hb => by
    have hhand : (pcs t).inHand = some b := by
      rw [hb]
      rfl
    exact ⟨hshape.value hhand, hshape.custody.apart t b hhand⟩
  obtain ⟨v, hv⟩ := hshape.value hb
  have hsame : Function.update pcs t next u = pcs u := Function.update_of_ne hu ..
  rw [hv, value_of_shape hshape' hvalue (hsame ▸ hb) hv]

theorem handCost_congr {q q' : JobQueue J} {job_p : Option Nat}
    (h : ∀ b, job_p = some b → q'.value b = q.value b) :
    handCost z q' job_p = handCost z q job_p := by
  cases job_p with
  | none => rfl
  | some b =>
      unfold handCost
      rw [Option.bind_some, Option.bind_some, h b rfl]

end Values

/-! ## §3. States. -/

section States

variable {n : Nat} {κ J X E A : Type} [Fintype κ] (w : X → ℕ) (z : J → ℕ)

/-- What is left to do in a state whose queue is `l`. -/
def workLeft (s : PoolState n κ J X E) (l : List (Nat × J)) : ℕ :=
  sharedCost z s.data.pool l
    + ∑ t, threadCost (pointCost w z s.data.pool.jobqueue) (s.thread t)

variable {w z} [DecidableEq κ] {s s' : PoolState n κ J X E} {t : Name n κ}
  {x : Thread (Pc J X) Mutex Cond} {l : List (Nat × J)}

/-- One thread changes. -/
theorem workLeft_put {r : PoolState n κ J X E} (hdata : r.data = s.data)
    (hthread : r.thread = Function.update s.thread t x) :
    workLeft w z r l
        + threadCost (pointCost w z s.data.pool.jobqueue) (s.thread t)
      = workLeft w z s l + threadCost (pointCost w z s.data.pool.jobqueue) x := by
  have hsum := sum_update (threadCost (pointCost w z s.data.pool.jobqueue)) s.thread t x
  unfold workLeft
  rw [hdata, hthread]
  omega

variable {P : Client κ J X E A} {main : κ} {env : E}
  {ok : PoolState n κ J X E → Move (Name n κ) (Choice A) → Prop}

/-- Waking up unasked gives a sleeper something to do. -/
def unasked : Move (Name n κ) (Choice A) → ℕ
  | .wake _ => 5
  | _ => 0

/-- A move inside the pool. -/
def Internal (s : PoolState n κ J X E) : Move (Name n κ) (Choice A) → Prop
  | .go t _ | .signal t _ | .wake t | .relock t => (s.pcs t).inside = true

instance (s : PoolState n κ J X E) :
    DecidablePred (Internal s : Move (Name n κ) (Choice A) → Prop)
  | .go t _ | .signal t _ | .wake t | .relock t =>
      inferInstanceAs (Decidable ((s.pcs t).inside = true))

/-- Who sleeps has passed a wait. -/
theorem pass_of_asleep (h : Reached P main env ok s) {c : Cond} {m : Mutex}
    (hmode : (s.thread t).mode = .asleep c m) : ∃ p, Passes p (.wait c m) (s.pcs t) := by
  obtain ⟨p, hp⟩ := (Parked.reach (start_parked (P := P)) h).asleep t c m hmode
  exact ⟨p, passes_of_goes hp⟩

theorem point_of_passes {p next : Pc J X} {k : Doing Mutex Cond} {q : JobQueue J}
    (hpass : Passes p k next) (hin : p.inside = true) (hawake : ∀ c m, k ≠ .wait c m) :
    pointCost w z q next + wakeCost k < pointCost w z q p := by
  unfold pointCost
  rw [(inHand_of_passes hpass).1]
  exact cost_of_passes hpass hin hawake _

/-- **Every step inside the pool lowers what is left to do.** -/
theorem workLeft_of_step (h : Reached P main env ok s)
    (hshape : Shape s.data.pool.jobqueue s.pcs l) (hending : Ending s.data.ready s.pcs)
    (hw : ∀ c x env env' x', P.work c x env = some (env', some x') → w x' < w x)
    {m : Move (Name n κ) (Choice A)} (hpolite : Polite P s m) (hin : Internal s m)
    (hs : s.step (code P) m = some s') :
    ∃ l', Shape s'.data.pool.jobqueue s'.pcs l'
      ∧ workLeft w (w ∘ P.start) s' l' < workLeft w (w ∘ P.start) s l + unasked m := by
  -- a thread goes on and does not go to sleep
  have hgo : ∀ {t k next s'}, (s.thread t).mode = .running → Passes (s.pcs t) k next →
      (s.pcs t).inside = true → (∀ c m, k ≠ .wait c m) → s'.data = s.data →
      s'.thread = Function.update s.thread t ⟨next, .running⟩ →
      ∃ l', Shape s'.data.pool.jobqueue s'.pcs l'
        ∧ workLeft w (w ∘ P.start) s' l' < workLeft w (w ∘ P.start) s l + 0 := by
    intro t k next s' hrun hpass hin hawake hdata hthread
    have hpcs : s'.pcs = Function.update s.pcs t next := by
      rw [← goto_pcs]
      exact funext fun u => congrArg (fun f => (f u).pc) hthread
    refine ⟨l, ?_, ?_⟩
    · rw [hdata, hpcs]
      exact hshape.passes hpass
    · have hput := workLeft_put (w := w) (z := w ∘ P.start) (l := l) hdata hthread
      have hpoint := point_of_passes (w := w) (z := w ∘ P.start)
        (q := s.data.pool.jobqueue) hpass hin hawake
      simp only [threadCost, hrun] at hput
      change _ < pointCost _ _ _ (s.thread t).pc at hpoint
      omega
  cases turn_of_step hs with
  | lock t a m next hrun hpass hfree => exact hgo hrun hpass hin (by nofun) rfl rfl
  | unlock t a m next hrun hpass => exact hgo hrun hpass hin (by nofun) rfl rfl
  | sleep t a c m next hrun hpass =>
      refine ⟨l, ?_, ?_⟩
      · rw [own_pcs, put_pcs]
        exact hshape.passes hpass
      · have hput := workLeft_put (w := w) (z := w ∘ P.start) (l := l) (s := s)
          (r := (s.put t ⟨next, .asleep c m⟩).own m none) rfl rfl
        have hpos := cost_pos_of_sleep (w := w) (z := w ∘ P.start) hpass
          (handCost (w ∘ P.start) s.data.pool.jobqueue (s.pcs t).inHand)
        simp only [threadCost, hrun] at hput
        change 0 < pointCost _ _ _ (s.thread t).pc at hpos
        simp only [unasked]
        omega
  | signalNobody t a c next hrun hpass hnobody => exact hgo hrun hpass hin (by nofun) rfl rfl
  | signal t u c m next hrun hpass hasleep =>
      have hne : t ≠ u := by
        rintro rfl
        rw [hrun] at hasleep
        cases hasleep
      obtain ⟨p, hwait⟩ := pass_of_asleep h hasleep
      refine ⟨l, ?_, ?_⟩
      · rw [goto_pcs, wake_pcs]
        exact hshape.passes hpass
      · -- the sleeper gets up, then the thread goes on
        have hwake := workLeft_put (w := w) (z := w ∘ P.start) (l := l) (s := s)
          (r := s.wake u m) rfl rfl
        have hput := workLeft_put (w := w) (z := w ∘ P.start) (l := l) (s := s.wake u m)
          (r := (s.wake u m).goto t next) rfl rfl
        rw [wake_thread, Function.update_of_ne hne] at hput
        simp only [threadCost, hrun, hasleep] at hput hwake
        have hpoint := point_of_passes (w := w) (z := w ∘ P.start)
          (q := s.data.pool.jobqueue) hpass hin (by nofun)
        have hcost := wakeCost_of_sleep (w := w) (z := w ∘ P.start) hwait
          (handCost (w ∘ P.start) s.data.pool.jobqueue (s.pcs u).inHand)
        change _ < pointCost _ _ _ (s.thread t).pc at hpoint
        change pointCost _ _ _ (s.pcs u) + 1 ≤ _ at hcost
        simp only [unasked, wake_data] at hput ⊢
        omega
  | broadcast t a c next hrun hpass =>
      have hinside : (s.pcs t).inside = true := hin
      generalize s.pcs t = p at hpass hinside
      cases hpass
      cases hinside
  | create t a created hcreated hrun hpc hunborn =>
      have hinside : (s.pcs t).inside = true := hin
      rw [hpc] at hinside
      cases hinside
  | access t a d next hrun heff =>
      have hshape' := hshape.effect (ofWorker_pcs h) hending hpolite heff
      have hpcs : State.pcs { s.goto t next with data := d } = Function.update s.pcs t next :=
        goto_pcs s t next
      refine ⟨_, by rw [hpcs]; exact hshape', ?_⟩
      have hcost := cost_of_effect heff hin hshape.holds (fun b hb => hshape.value hb) hw
      -- the others have in hand what they had
      have hothers : ∀ u, u ≠ t →
          threadCost (pointCost w (w ∘ P.start) d.pool.jobqueue)
            (({ s.goto t next with data := d } : PoolState n κ J X E).thread u)
          = threadCost (pointCost w (w ∘ P.start) s.data.pool.jobqueue) (s.thread u) := by
        intro u hu
        have hthread : ({ s.goto t next with data := d } : PoolState n κ J X E).thread u
            = s.thread u := Function.update_of_ne hu ..
        rw [hthread]
        refine threadCost_congr (congrArg (Pc.cost w (w ∘ P.start) · (s.pcs u)) ?_)
        exact handCost_congr fun b hb => value_of_others heff hshape hshape' hu hb
      have hsum := sum_change t hothers
      have hself : ({ s.goto t next with data := d } : PoolState n κ J X E).thread t
          = ⟨next, .running⟩ := Function.update_self ..
      rw [hself] at hsum
      simp only [threadCost, hrun] at hsum
      change _ < _ + pointCost _ _ _ (s.thread t).pc at hcost
      simp only [workLeft, unasked]
      change _ + ∑ u, threadCost _ (({ s.goto t next with data := d } :
        PoolState n κ J X E).thread u) < _
      simp only [threadCost]
      omega
  | wake u c m hasleep =>
      refine ⟨l, by rw [wake_pcs]; exact hshape, ?_⟩
      obtain ⟨p, hwait⟩ := pass_of_asleep h hasleep
      have hwake := workLeft_put (w := w) (z := w ∘ P.start) (l := l) (s := s)
        (r := s.wake u m) rfl rfl
      have hcost := wakeCost_of_sleep (w := w) (z := w ∘ P.start) hwait
        (handCost (w ∘ P.start) s.data.pool.jobqueue (s.pcs u).inHand)
      have hbound : wakeCost (.signal c) ≤ 4 := by cases c <;> decide
      change pointCost _ _ _ (s.pcs u) + 1 ≤ _ at hcost
      simp only [threadCost, hasleep] at hwake
      simp only [unasked]
      omega
  | relock t m hwoken hfree =>
      have hpcs : ((s.goto t (s.pcs t)).own m (some t)).pcs = s.pcs := by
        rw [own_pcs, goto_pcs, Function.update_eq_self]
      refine ⟨l, by rw [hpcs]; exact hshape, ?_⟩
      have hput := workLeft_put (w := w) (z := w ∘ P.start) (l := l) (s := s)
        (r := (s.goto t (s.pcs t)).own m (some t)) rfl rfl
      simp only [threadCost, hwoken] at hput
      change _ + (pointCost _ _ _ (s.pcs t) + 1) = _ at hput
      simp only [unasked]
      omega

end States

/-! ## §4. Runs without new calls. -/

section Calls

variable {n : Nat} {κ J X E A : Type} {P : Client κ J X E A} {s : PoolState n κ J X E}

/-- No call is made inside the pool. -/
theorem calling_of_internal {m : Move (Name n κ) (Choice A)} (hin : Internal s m) :
    calling P s m = none := by
  cases m with
  | go t a =>
      have hinside : (s.pcs t).inside = true := hin
      cases t with
      | inl i => rfl
      | inr c =>
          cases a with
          | client a =>
              have hout : (s.pcs (.inr c)).isOutside = false := by
                unfold Pc.inside at hinside
                simp only [Bool.and_eq_true, Bool.not_eq_true'] at hinside
                exact hinside.1.1
              show (if (s.pcs (.inr c)).isOutside = true then _ else none) = none
              rw [hout]
              rfl
          | _ => rfl
  | _ => rfl

end Calls

section Runs

variable {n : Nat} {κ J X E A : Type} [DecidableEq κ] [Fintype κ] {P : Client κ J X E A}
  {main : κ} {env : E} {ok : PoolState n κ J X E → Move (Name n κ) (Choice A) → Prop}
  {s s' : PoolState n κ J X E}

/-- While nobody destroys the pool, it keeps its threads. -/
theorem keepalive_of_calm (h : Reached P main env ok s)
    (hcalm : ∀ t, (s.pcs t).destroying = false) : s.data.pool.threads_keepalive = true := by
  by_contra hkeep
  obtain ⟨t, ht⟩ := stopped h (Bool.eq_false_iff.mpr hkeep)
  have hnot := hcalm t
  rw [destroying_of_stopped ht] at hnot
  cases hnot

/-- Nobody comes into `thpool_destroy` without a call, and the pool stays ready. -/
theorem calm_of_step {m : Move (Name n κ) (Choice A)} (hin : Internal s m)
    (hcalm : ∀ t, (s.pcs t).destroying = false) (hs : s.step (code P) m = some s') :
    (s.data.ready = true → s'.data.ready = true) ∧ ∀ t, (s'.pcs t).destroying = false := by
  have hview := viewed_of_step hs
  generalize s'.data = d, s'.pcs = pcs at hview ⊢
  cases hview with
  | same => exact ⟨id, hcalm⟩
  | pass _ t k next hgoes =>
      refine ⟨id, (Function.forall_update_iff _ fun _ (p : Pc J X) => p.destroying = false).mpr
        ⟨?_, fun u _ => hcalm u⟩⟩
      rw [(points_of_passes (passes_of_goes hgoes)).2.2.2.2.1]
      exact hcalm t
  | access t a f d next hcode hf =>
      have heff := effect_of_access hcode hf
      have hinside : (s.pcs t).inside = true := hin
      unfold Pc.inside at hinside
      simp only [Bool.and_eq_true, Bool.not_eq_true'] at hinside
      refine ⟨ready_mono heff, (Function.forall_update_iff _ fun _ (p : Pc J X) =>
        p.destroying = false).mpr ⟨Bool.eq_false_iff.mpr fun hnext => ?_, fun u _ => hcalm u⟩⟩
      -- the only way in is a call from outside, and this thread is inside
      rcases destroying_of_effect hnext heff with hold | hout
      · rw [hold] at hinside
        cases hinside.2
      · rw [hout] at hinside
        cases hinside.1.1

/-- Nothing is left to do. -/
structure Rests (s : PoolState n κ J X E) : Prop where
  empty : s.data.pool.jobqueue.len = 0
  idle : s.data.pool.num_threads_working = 0
  asleep : ∀ i, (s.thread (.inl i)).mode = .asleep .has_jobs .bsem
  outside : ∀ c, s.pcs (.inr c) = .outside

/-- Where nobody in the pool can go on, nothing is left to do. -/
theorem rests_of_stuck (hn : 0 < n) (hgo : ∀ x, ∃ a, P.work a x s.data.env ≠ none)
    (hpolite : ∀ s l, ok s l → Polite P s l) (hone : ∀ s l, ok s l → OneWaiter P s l)
    (h : Reached P main env ok s) (hkeep : s.data.pool.threads_keepalive = true)
    (hstuck : ∀ t, (s.pcs t).isOutside = false → ¬ Enabled (code P) s t) : Rests s := by
  -- every job can go on, so none keeps its worker
  have hnot : ∀ i, ¬ Blocked P s i := by
    rintro i ⟨x, job_p, -, hnone⟩
    obtain ⟨a, ha⟩ := hgo x
    exact ha (hnone a)
  have hempty : s.data.pool.jobqueue.len = 0 := by
    by_contra hlen
    exact hnot ⟨0, hn⟩ (blocked_of_queued h hkeep hstuck hlen _)
  have hasleep : ∀ i, (s.thread (.inl i)).mode = .asleep .has_jobs .bsem :=
    fun i => (worker_of_disabled h hkeep hstuck i).resolve_left (hnot i)
  have houtside : ∀ c, s.pcs (.inr c) = .outside := by
    intro c
    refine (caller_of_disabled hpolite hone h hkeep hstuck c).resolve_right ?_
    rintro ⟨-, hlen | ⟨i, hi⟩⟩
    · exact hlen hempty
    · exact hnot i hi
  refine ⟨hempty, ?_, hasleep, houtside⟩
  rw [h.counted.working, count_eq_zero_iff.mpr]
  · rfl
  · rintro (i | c)
    · obtain ⟨p, hwait⟩ := pass_of_asleep h (hasleep i)
      generalize s.pcs (.inl i) = next at hwait
      cases hwait
      rfl
    · rw [houtside c]
      rfl

/-- The work that is left bounds every run without new calls, and what stops it is rest. -/
theorem rests_within {w : X → ℕ} (hn : 0 < n)
    (hw : ∀ c x env env' x', P.work c x env = some (env', some x') → w x' < w x)
    (h : Reached P main env (fun s l => Polite P s l ∧ OneWaiter P s l) s)
    (hready : s.data.ready = true) (hcalm : ∀ t, (s.pcs t).destroying = false)
    {l : List (Nat × J)} (hshape : Shape s.data.pool.jobqueue s.pcs l)
    {as : List (Move (Name n κ) (Choice A))} {s' : PoolState n κ J X E}
    (has : execute (State.step (code P)) Internal s as = some s') :
    as.length ≤ workLeft w (w ∘ P.start) s l + (as.map unasked).sum
      ∧ ((∀ x, ∃ a, P.work a x s'.data.env ≠ none) →
        (∀ t, (s'.pcs t).isOutside = false → ¬ Enabled (code P) s' t) → Rests s') := by
  have hfirst : ∀ s (l : Move (Name n κ) (Choice A)), Polite P s l ∧ OneWaiter P s l →
      Polite P s l := fun _ _ => And.left
  -- the invariant of the run: what `workLeft` says of the state still fits the steps left
  have hrun := execute_affords (g := unasked) (A := fun s N =>
    Reached P main env (fun s l => Polite P s l ∧ OneWaiter P s l) s ∧ s.data.ready = true
      ∧ (∀ t, (s.pcs t).destroying = false)
      ∧ ∃ l, Shape s.data.pool.jobqueue s.pcs l ∧ workLeft w (w ∘ P.start) s l = N) ?_
    ⟨h, hready, hcalm, l, hshape, rfl⟩ has
  · obtain ⟨N', hlength, hreach, -, hcalm', -⟩ := hrun
    refine ⟨by omega, fun hgo => ?_⟩
    exact rests_of_stuck hn hgo hfirst (fun _ _ => And.right) hreach
      (keepalive_of_calm hreach hcalm')
  · rintro s m s' N ⟨hreach, hready, hcalm, l, hshape, rfl⟩ hin hs
    have hcalling := calling_of_internal (P := P) hin
    -- a step inside makes no call, so it breaks no promise
    have hpolite : Polite P s m := by
      unfold Polite
      rw [hcalling]
      nofun
    have hone : OneWaiter P s m := by
      unfold OneWaiter
      rw [hcalling]
      nofun
    obtain ⟨hready', hcalm'⟩ := calm_of_step hin hcalm hs
    obtain ⟨l', hshape', hless⟩ :=
      workLeft_of_step hreach hshape (ending hfirst hreach) hw hpolite hin hs
    exact ⟨_, hless, hreach.step ⟨hpolite, hone⟩ hs, hready' hready, hcalm', l', hshape', rfl⟩

/-- **The pool comes to rest with its work done.**  From a state in which the pool is ready and
nobody destroys it, every run without new calls is bounded, if jobs are; and where nobody in the
pool can go on any more, though every job could, the queue is empty, no worker works and nobody
waits. -/
theorem drains {w : X → ℕ} (hn : 0 < n)
    (hw : ∀ c x env env' x', P.work c x env = some (env', some x') → w x' < w x)
    (h : Reached P main env (fun s l => Polite P s l ∧ OneWaiter P s l) s)
    (hready : s.data.ready = true) (hcalm : ∀ t, (s.pcs t).destroying = false) :
    ∃ N, ∀ as s', execute (State.step (code P)) Internal s as = some s' →
      as.length ≤ N + (as.map unasked).sum
        ∧ ((∀ x, ∃ a, P.work a x s'.data.env ≠ none) →
          (∀ t, (s'.pcs t).isOutside = false → ¬ Enabled (code P) s' t) → Rests s') := by
  obtain ⟨l, hshape⟩ := (orderly (fun _ _ => And.left) h).queue
  exact ⟨workLeft w (w ∘ P.start) s l, fun as s' has =>
    rests_within hn hw h hready hcalm hshape has⟩

/-- The worker does its job while nobody waits, and sleeps again. -/
def doingAlone : List Errand := .go onlyWorker (.client .stay) :: byWorker 9

/-- From where a job is queued every run inside the pool is bounded, and the worker's own run
ends at rest. -/
theorem drains_one :
    ∃ s, execute (State.step (code errands)) (fun s m => Polite errands s m ∧ OneWaiter errands s m)
        (start 1 Nat Unit () ()) (opening ++ adding) = some s
      ∧ s.data.pool.jobqueue.len = 1
      ∧ (∃ N, ∀ as s', execute (State.step (code errands)) Internal s as = some s' →
        as.length ≤ N + (as.map unasked).sum)
      ∧ ∃ s', execute (State.step (code errands)) Internal s (taking ++ doingAlone) = some s'
        ∧ Rests s' := by
  have hqueued : ∃ s, execute (State.step (code errands))
      (fun s m => Polite errands s m ∧ OneWaiter errands s m) (start 1 Nat Unit () ())
      (opening ++ adding) = some s
      ∧ s.data.pool.jobqueue.len = 1 ∧ s.data.ready = true ∧ (∀ t, (s.pcs t).destroying = false)
      ∧ (execute (State.step (code errands)) Internal s (taking ++ doingAlone)).any (fun s' =>
        decide ((s'.thread (.inl 0)).mode = .asleep .has_jobs .bsem
          ∧ (s'.pcs (.inr ())).isOutside = true)) = true := exists_execute (by decide)
  obtain ⟨s, hs, hlen, hready, hcalm, hany⟩ := hqueued
  obtain ⟨s', hs', hasleep, hout⟩ := exists_execute hany
  obtain ⟨N, hN⟩ := drains (w := fun _ => 0) Nat.one_pos (fun _ _ _ _ _ hwork => by cases hwork)
    (.of_execute .init hs) hready hcalm
  refine ⟨s, hs, hlen, ⟨N, fun as s' has => (hN as s' has).1⟩, s', hs', (hN _ s' hs').2 ?_ ?_⟩
  · exact fun _ => ⟨.stay, nofun⟩
  · rintro (i | c) hinside
    · rw [Subsingleton.elim i 0]
      exact not_enabled_of_asleep hasleep
    · rw [hout] at hinside
      cases hinside

end Runs

end SensorServer.Pool
