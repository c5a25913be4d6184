/-
  SensorServer.Pool.JobQueue — the linked list of the job queue, over every run.

  In every reached state the queue is a well-formed list from `front` to `rear` of `len` jobs,
  every allocated job is in the list or in the hand of exactly one thread, and no access went to
  `NULL` or to freed memory.  So no job is lost, none is run twice, and none is freed while it
  is in use.  Who pushes puts its job behind the others, and who pulls takes the first one.
-/
import SensorServer.Framework.Custody
import SensorServer.Pool.Contract

namespace SensorServer.Pool

open SensorServer.Framework
open SensorServer.Framework.Pthread

/-! ## §1. The operations. -/

namespace JobQueue

variable {J : Type} {q : JobQueue J} {l : List (Nat × J)} {a : Nat} {v : J}

/-- The job at an address. -/
def value (q : JobQueue J) (a : Nat) : Option J := (q.jobs a).map Node.value

theorem value_eq_some_iff : q.value a = some v ↔ ∃ link, q.jobs a = some ⟨v, link⟩ := by
  unfold value
  rw [Option.map_eq_some_iff]
  constructor
  · rintro ⟨⟨w, link⟩, hnode, rfl⟩
    exact ⟨link, hnode⟩
  · rintro ⟨link, hnode⟩
    exact ⟨_, hnode, rfl⟩

/-- What `job->prev = link` does to an allocated job. -/
theorem setPrev_eq {link old : Option Nat} (hnode : q.jobs a = some ⟨v, old⟩) :
    q.setPrev a link = { q with jobs := Function.update q.jobs a (some ⟨v, link⟩) } := by
  unfold setPrev
  rw [hnode]

/-- Relinking a job leaves every job what it was. -/
theorem value_update_link {jobs : Nodes Nat J} {link old : Option Nat}
    (hnode : jobs a = some ⟨v, old⟩) (b : Nat) :
    (Function.update jobs a (some ⟨v, link⟩) b).map Node.value = (jobs b).map Node.value := by
  by_cases hb : b = a
  · subst hb
    rw [Function.update_self, hnode]
    rfl
  · rw [Function.update_of_ne hb]

/-- The list between `front` and `rear` is `l`, and `len` is its length. -/
structure Holds (q : JobQueue J) (l : List (Nat × J)) : Prop where
  queued : Queued q.jobs q.front q.rear l
  len : q.len = l.length

theorem Holds.len_eq_zero_iff (h : q.Holds l) : q.len = 0 ↔ l = [] := by
  rw [h.len]
  cases l with
  | nil => simp
  | cons cell l =>
      simp only [List.length_cons, reduceCtorEq, iff_false]
      omega

/-- The queued jobs are there. -/
theorem Holds.value (h : q.Holds l) (hmem : (a, v) ∈ l) : q.value a = some v :=
  value_eq_some_iff.mpr (h.queued.chain.node hmem)

/-- What `jobqueue_push` does to an empty queue. -/
theorem push_empty {old : Option Nat} (hnode : q.jobs a = some ⟨v, old⟩) (hlen : q.len = 0) :
    q.push a = { q with
      jobs := Function.update q.jobs a (some ⟨v, none⟩)
      front := some a
      rear := some a
      len := q.len + 1 } := by
  unfold push
  rw [setPrev_eq hnode]
  exact congrArg (fun q : JobQueue J => { q with len := q.len + 1 }) (if_pos hlen)

/-- What `jobqueue_push` does to a queue that ends at `r`. -/
theorem push_behind {old link : Option Nat} {r : Nat} {w : J} (hnode : q.jobs a = some ⟨v, old⟩)
    (hlen : q.len ≠ 0) (hrear : q.rear = some r)
    (hr : Function.update q.jobs a (some ⟨v, none⟩) r = some ⟨w, link⟩) :
    q.push a = { q with
      jobs := Function.update (Function.update q.jobs a (some ⟨v, none⟩)) r (some ⟨w, some a⟩)
      rear := some a
      len := q.len + 1 } := by
  obtain ⟨jobs, front, rear, len, fault⟩ := q
  obtain rfl : rear = some r := hrear
  unfold push
  rw [setPrev_eq hnode]
  refine (congrArg (fun q : JobQueue J => { q with len := q.len + 1 }) (if_neg hlen)).trans ?_
  simp only
  rw [setPrev_eq hr]

/-- **`jobqueue_push`** puts the job at the end. -/
theorem Holds.push (h : q.Holds l) (hval : q.value a = some v) (ha : a ∉ l.map Prod.fst) :
    (q.push a).Holds (l ++ [(a, v)]) ∧ (q.push a).fault = q.fault
      ∧ ∀ b, (q.push a).value b = q.value b := by
  obtain ⟨old, hnode⟩ := value_eq_some_iff.mp hval
  have hvalue : ∀ b, (Function.update q.jobs a (some ⟨v, none⟩) b).map Node.value = q.value b :=
    value_update_link hnode
  have hnew : Function.update q.jobs a (some ⟨v, none⟩) a = some ⟨v, none⟩ :=
    Function.update_self ..
  by_cases hl : l = []
  · subst hl
    rw [push_empty hnode h.len]
    refine ⟨⟨Queued.single hnew, ?_⟩, rfl, hvalue⟩
    show q.len + 1 = 1
    rw [h.len]
    rfl
  · have hlen : q.len ≠ 0 := fun h0 => hl (h.len_eq_zero_iff.mp h0)
    -- the new job is not queued yet, so its link changes nothing that is
    have hqueued : Queued (Function.update q.jobs a (some ⟨v, none⟩)) q.front q.rear l := by
      refine h.queued.congr fun b hb => Function.update_of_ne ?_ _ _
      rintro rfl
      exact ha hb
    obtain ⟨r, w, hrear, hr, hpushed⟩ := hqueued.push hl hnew ha
    rw [push_behind hnode hlen hrear hr]
    refine ⟨⟨hpushed, ?_⟩, rfl, fun b => ?_⟩
    · show q.len + 1 = (l ++ [(a, v)]).length
      rw [h.len, List.length_append]
      rfl
    · exact (value_update_link hr b).trans (hvalue b)

/-- **`jobqueue_pull`** takes the first job. -/
theorem Holds.pull (h : q.Holds l) :
    q.pull.Holds l.tail ∧ q.pull.fault = q.fault ∧ q.pull.jobs = q.jobs := by
  unfold JobQueue.pull
  cases l with
  | nil =>
      have hlen : q.len = 0 := h.len
      rw [if_pos hlen]
      exact ⟨h, rfl, rfl⟩
  | cons cell l =>
      obtain ⟨a, v⟩ := cell
      have hlen : q.len ≠ 0 := fun h0 => List.cons_ne_nil _ _ (h.len_eq_zero_iff.mp h0)
      have hcount : q.len = l.length + 1 := h.len
      rw [if_neg hlen]
      by_cases hmore : l = []
      · subst hmore
        -- the last job: both ends become null
        rw [if_pos (by simpa using hcount)]
        exact ⟨⟨Queued.empty _, rfl⟩, rfl, rfl⟩
      · -- more jobs: the front moves on along its link
        obtain ⟨link, hnode, hqueued, -⟩ := h.queued.pop_more hmore
        have hpos := List.length_pos_of_ne_nil hmore
        have hfront : q.front.bind q.jobs = some ⟨v, link⟩ := by
          rw [h.queued.front_eq]
          exact hnode
        rw [if_neg (by omega), hfront]
        refine ⟨⟨hqueued, ?_⟩, rfl, rfl⟩
        show q.len - 1 = l.length
        omega

/-- What `jobqueue_clear` writes at its end is there already. -/
theorem Holds.reset (h : q.Holds []) : { q with front := none, rear := none, len := 0 } = q := by
  obtain ⟨jobs, front, rear, len, fault⟩ := q
  obtain ⟨⟨hfront, hrear, -⟩, hlen⟩ := h
  obtain rfl : front = none := hfront
  obtain rfl : rear = none := hrear
  obtain rfl : len = 0 := hlen
  rfl

theorem Holds.front (h : q.Holds l) : q.front = (l.map Prod.fst).head? := h.queued.front_eq

/-- A queue is not affected by other memory. -/
theorem Holds.congr (h : q.Holds l) {jobs : Nodes Nat J}
    (hsame : ∀ b ∈ l.map Prod.fst, jobs b = q.jobs b) : { q with jobs }.Holds l :=
  ⟨h.queued.congr hsame, h.len⟩

end JobQueue

/-! ## §2. Jobs in hand. -/

section Points

variable {J X : Type}

/-- What `bsem_post` was called with in the frame below. -/
def Poster.inHand : Poster → Option Nat
  | .push => none
  | .pull _ job_p => job_p

/-- The job that a thread has in hand. -/
def Pc.inHand : Pc J X → Option Nat
  | .pushLock a | .pushLink a | .run _ a | .freeJob a => some a
  | .postLock k | .postSet k | .postSignal k | .postUnlock k => k.inHand
  | .pullUnlock _ job_p | .ifJob job_p | .clearFree _ job_p => job_p
  | _ => none

/-- The queue as `l` goes on from a program point. -/
def Pc.queueAfter (q : JobQueue J) (l : List (Nat × J)) : Pc J X → List (Nat × J)
  | .pushLink a => l ++ (q.value a).toList.map fun v => (a, v)
  | .pullTake _ => l.tail
  | _ => l

/-- `jobqueue_clear` has found the queue empty. -/
def Pc.cleared : Pc J X → Bool
  | .clearReset _ | .destroyed _ => true
  | _ => false

theorem destroying_of_cleared {p : Pc J X} (h : p.cleared = true) : p.destroying = true := by
  cases p <;> first | rfl | cases h

end Points

/-! ## §3. The queue in a state. -/

section Shapes

variable {n : Nat} {κ J X E A : Type}

/-- **The queue is the list `l`**, and every allocated job is in it or in one hand. -/
structure Shape (q : JobQueue J) (pcs : Name n κ → Pc J X) (l : List (Nat × J)) : Prop where
  holds : q.Holds l
  custody : Custody (fun a => (q.value a).isSome) (l.map Prod.fst) (Pc.inHand ∘ pcs)
  cleared : ∀ t, (pcs t).cleared = true → l = []
  fault : q.fault = false

variable {P : Client κ J X E A} {q : JobQueue J} {pcs : Name n κ → Pc J X} {l : List (Nat × J)}
  {t : Name n κ} {p next : Pc J X}

/-- What is in hand is there. -/
theorem Shape.value (h : Shape q pcs l) {a : Nat} (ht : (pcs t).inHand = some a) :
    ∃ v, q.value a = some v := Option.isSome_iff_exists.mp (h.custody.live_of_hand ht)

theorem inHand_of_passes {k : Doing Mutex Cond} (h : Passes p k next) :
    next.inHand = p.inHand ∧ next.cleared = false := by
  cases h <;> exact ⟨rfl, rfl⟩

variable [DecidableEq κ]

/-- A thread goes on, and the queue becomes `q'`. -/
theorem Shape.update {q' : JobQueue J} {l' : List (Nat × J)} (h : Shape q pcs l)
    (hholds : q'.Holds l')
    (hcustody : Custody (fun a => (q'.value a).isSome) (l'.map Prod.fst)
      (Function.update (Pc.inHand ∘ pcs) t next.inHand))
    (hkeep : l = [] → l' = []) (hcleared : next.cleared = true → l' = [])
    (hfault : q'.fault = false) : Shape q' (Function.update pcs t next) l' where
  holds := hholds
  custody := by
    rw [Function.comp_update]
    exact hcustody
  cleared := (Function.forall_update_iff _ fun _ (p : Pc J X) => p.cleared = true → l' = []).mpr
    ⟨hcleared, fun u _ hu => hkeep (h.cleared u hu)⟩
  fault := hfault

/-- A thread goes on with what it has in hand, and the queue stays. -/
theorem Shape.pass (h : Shape q pcs l) (hhand : next.inHand = (pcs t).inHand)
    (hcleared : next.cleared = true → l = []) : Shape q (Function.update pcs t next) l := by
  refine h.update h.holds ?_ id hcleared h.fault
  have hsame : Function.update (Pc.inHand ∘ pcs) t (Pc.inHand (pcs t)) = Pc.inHand ∘ pcs :=
    Function.update_eq_self t _
  rw [hhand, hsame]
  exact h.custody

/-- A thread goes on without an access. -/
theorem Shape.passes {k : Doing Mutex Cond} (h : Shape q pcs l) (hpass : Passes (pcs t) k next) :
    Shape q (Function.update pcs t next) l := by
  obtain ⟨hhand, hcleared⟩ := inHand_of_passes hpass
  refine h.pass hhand fun hr => ?_
  rw [hcleared] at hr
  cases hr

/-- A thread pushes the job it has in hand. -/
theorem Shape.push (h : Shape q pcs l) {a : Nat} {v : J} (ht : (pcs t).inHand = some a)
    (hval : q.value a = some v) (hnext : next.inHand = none) (hcleared : next.cleared = false)
    (hnobody : ∀ u, (pcs u).cleared = false) :
    Shape (q.push a) (Function.update pcs t next) (l ++ [(a, v)]) := by
  obtain ⟨hholds, hfault, hvalue⟩ := h.holds.push hval (h.custody.apart t a ht)
  have hcustody : Custody (fun b => ((q.push a).value b).isSome) ((l ++ [(a, v)]).map Prod.fst)
      (Function.update (Pc.inHand ∘ pcs) t next.inHand) := by
    rw [hnext]
    refine (h.custody.congr fun b => by rw [hvalue]).put ht fun b => ?_
    rw [List.map_append, List.mem_append]
    exact or_congr_right List.mem_singleton
  refine ⟨hholds, ?_, ?_, hfault.trans h.fault⟩
  · rw [Function.comp_update]
    exact hcustody
  · refine (Function.forall_update_iff _ fun _ (p : Pc J X) => p.cleared = true → _).mpr
      ⟨fun hr => ?_, fun u _ hr => ?_⟩
    · rw [hcleared] at hr
      cases hr
    · rw [hnobody u] at hr
      cases hr

/-- A thread with empty hands pulls the first job, if there is one. -/
theorem Shape.pull (h : Shape q pcs l) (ht : (pcs t).inHand = none)
    (hnext : next.inHand = q.front) (hcleared : next.cleared = false) :
    Shape q.pull (Function.update pcs t next) l.tail := by
  obtain ⟨hholds, hfault, hjobs⟩ := h.holds.pull
  have hvalue : ∀ b, q.pull.value b = q.value b := fun b => by
    unfold JobQueue.value
    rw [hjobs]
  refine h.update hholds ?_ (fun hl => by rw [hl]; rfl) (fun hr => ?_) (hfault.trans h.fault)
  · -- pulling frees no block
    have hcustody : Custody (fun b => (q.pull.value b).isSome) (l.map Prod.fst)
        (Pc.inHand ∘ pcs) := h.custody.congr fun b => by rw [hvalue]
    rw [hnext, h.holds.front]
    cases l with
    | nil =>
        have hsame : Function.update (Pc.inHand ∘ pcs) t none = Pc.inHand ∘ pcs := by
          rw [← ht]
          exact Function.update_eq_self t _
        rw [List.map_nil, List.head?_nil, hsame]
        exact hcustody
    | cons cell l =>
        -- the first job leaves the queue for the hand of the thread
        have hnodup := List.nodup_cons.mp h.holds.queued.nodup
        refine hcustody.take ht List.mem_cons_self fun b => ?_
        rw [List.map_cons, List.mem_cons, List.tail_cons]
        constructor
        · intro hb
          exact ⟨.inr hb, fun heq => hnodup.1 (heq ▸ hb)⟩
        · rintro ⟨hb, hne⟩
          exact hb.resolve_left hne
  · rw [hcleared] at hr
    cases hr

/-- A thread frees the job it has in hand. -/
theorem Shape.free (h : Shape q pcs l) {a : Nat} (ht : (pcs t).inHand = some a)
    (hnext : next.inHand = none) (hcleared : next.cleared = false) :
    Shape (q.free a) (Function.update pcs t next) l := by
  obtain ⟨v, hval⟩ := h.value ht
  obtain ⟨link, hnode⟩ := JobQueue.value_eq_some_iff.mp hval
  have hfree : q.free a = { q with jobs := Function.update q.jobs a none } := by
    unfold JobQueue.free
    rw [hnode]
    rfl
  rw [hfree]
  refine h.update (h.holds.congr fun b hb => Function.update_of_ne ?_ _ _) ?_ id
    (fun hr => ?_) h.fault
  · rintro rfl
    exact h.custody.apart t b ht hb
  · rw [hnext]
    refine h.custody.free ht fun b => ?_
    by_cases hb : b = a
    · subst hb
      simp [JobQueue.value]
    · simp [JobQueue.value, hb]
  · rw [hcleared] at hr
    cases hr

/-- A thread with empty hands allocates a job. -/
theorem Shape.alloc (h : Shape q pcs l) {a : Nat} {job : J} {prev : Option Nat}
    (ht : (pcs t).inHand = none) (hfresh : q.jobs a = none) (hnext : next.inHand = some a)
    (hcleared : next.cleared = false) :
    Shape (q.alloc a job prev) (Function.update pcs t next) l := by
  have hnot : q.value a = none := by
    unfold JobQueue.value
    rw [hfresh]
    rfl
  refine h.update (h.holds.congr fun b hb => Function.update_of_ne ?_ _ _) ?_ id
    (fun hr => ?_) h.fault
  · rintro rfl
    have hlive := h.custody.live_of_mem hb
    rw [hnot] at hlive
    cases hlive
  · rw [hnext]
    refine h.custody.alloc ht (by rw [hnot]; rfl) fun b => ?_
    by_cases hb : b = a
    · subst hb
      simp [JobQueue.value, JobQueue.alloc]
    · simp [JobQueue.value, JobQueue.alloc, hb]
  · rw [hcleared] at hr
    cases hr

/-- **Every access keeps the queue in shape.** -/
theorem Shape.effect [Fintype κ] {s : PoolState n κ J X E} {a : Choice A} {d : Shared J E}
    (h : Shape s.data.pool.jobqueue s.pcs l) (hworker : ∀ u, (s.pcs u).ofWorker = u.isLeft)
    (hending : Ending s.data.ready s.pcs) (hpolite : Polite P s (.go t a))
    (heff : Effect P t s.data a (s.pcs t) d next) :
    Shape d.pool.jobqueue (Function.update s.pcs t next)
      ((s.pcs t).queueAfter s.data.pool.jobqueue l) := by
  generalize hp : s.pcs t = p at heff
  have hhand : Pc.inHand (s.pcs t) = p.inHand := by rw [hp]
  cases heff with
  | lost a job_p hnode =>
      obtain ⟨v, hval⟩ := h.value hhand
      obtain ⟨link, hsome⟩ := JobQueue.value_eq_some_iff.mp hval
      rw [hnode] at hsome
      cases hsome
  | early a c env call ht hcall hout hready =>
      subst ht
      rw [(hpolite.allowed hp hout).ready hcall] at hready
      cases hready
  | freeJob a job_p => exact h.free hhand rfl rfl
  | clearFree a total job_p => exact h.free hhand rfl rfl
  | addAlloc job a prev hfresh => exact h.alloc hhand hfresh rfl rfl
  | pullLast a puller hlen => exact h.pull hhand rfl rfl
  | pullMore a puller hlen => exact h.pull hhand rfl rfl
  | pushLink a newjob =>
      obtain ⟨v, hval⟩ := h.value hhand
      have hafter : Pc.queueAfter s.data.pool.jobqueue l (.pushLink newjob : Pc J X)
          = l ++ [(newjob, v)] := by
        show l ++ (s.data.pool.jobqueue.value newjob).toList.map (fun v => (newjob, v)) = _
        rw [hval]
        rfl
      rw [hafter]
      refine h.push hhand hval rfl rfl fun u => ?_
      by_contra hu
      -- nobody pushes once the queue has been cleared
      have hdestroying := destroying_of_cleared (Bool.eq_true_of_not_eq_false hu)
      cases t with
      | inl i =>
          have hi := hworker (.inl i)
          rw [hp] at hi
          cases hi
      | inr c =>
          have hne : (.inr c : Name n κ) ≠ u := by
            rintro rfl
            rw [hp] at hdestroying
            cases hdestroying
          have hout := hending.alone u hdestroying c hne
          rw [hp] at hout
          cases hout
  | clearDone a total hlen => exact h.pass hhand.symm fun _ => h.holds.len_eq_zero_iff.mp hlen
  | clearReset a total =>
      obtain rfl : l = [] := h.cleared t (by rw [hp]; rfl)
      have hdone : Shape s.data.pool.jobqueue (Function.update s.pcs t (.destroyed total)) [] :=
        h.pass hhand.symm fun _ => rfl
      rw [← h.holds.reset] at hdone
      exact hdone
  | call a c env call ht hcall hout hready =>
      cases call <;> first | exact absurd rfl hcall | exact h.pass hhand.symm nofun
  | _ => exact h.pass hhand.symm nofun

end Shapes

/-! ## §4. Runs. -/

section Runs

variable {n : Nat} {κ J X E A : Type} [DecidableEq κ] {P : Client κ J X E A} {main : κ} {env : E}

theorem start_shape : Shape (ThPool.init J).jobqueue (start n J X main env).pcs [] where
  holds := ⟨Queued.empty _, rfl⟩
  custody := by
    refine Custody.empty (fun _ => rfl) ?_
    rintro (i | c)
    · rfl
    · show Pc.inHand ((start n J X main env).pcs (.inr c)) = none
      rw [start_pcs_caller]
      split <;> rfl
  cleared _ _ := rfl
  fault := rfl

variable [Fintype κ] {ok : PoolState n κ J X E → Move (Name n κ) (Choice A) → Prop}
  {s : PoolState n κ J X E}

/-- What holds at every time of a pool whose callers are polite. -/
structure Orderly (s : PoolState n κ J X E) : Prop where
  counted : Counted s.data s.pcs
  ending : Ending s.data.ready s.pcs
  queue : ∃ l, Shape s.data.pool.jobqueue s.pcs l

theorem orderly (hpolite : ∀ s l, ok s l → Polite P s l) (h : Reached P main env ok s) :
    Orderly s := by
  refine ⟨h.counted, ending hpolite h, ?_⟩
  refine Reached.view (I := fun d pcs => ∃ l, Shape d.pool.jobqueue pcs l) ⟨[], start_shape⟩
    ?_ ?_ h
  · rintro s t k next - ⟨l, hl⟩ hpass
    exact ⟨l, hl.passes hpass⟩
  · rintro s t a d next hreach ⟨l, hl⟩ hok heff
    exact ⟨_, hl.effect (ofWorker_pcs hreach) (ending hpolite hreach) (hpolite s _ hok) heff⟩

/-- **The queue is in shape in every reached state.** -/
theorem shape (hpolite : ∀ s l, ok s l → Polite P s l) (h : Reached P main env ok s) :
    ∃ l, Shape s.data.pool.jobqueue s.pcs l :=
  (orderly hpolite h).queue

/-- A job is queued. -/
theorem shape_queued :
    ∃ s, execute (State.step (code errands)) (Polite errands) (start 1 Nat Unit () ())
        (opening ++ adding) = some s
      ∧ s.data.pool.jobqueue.len = 1 ∧ ∃ l, Shape s.data.pool.jobqueue s.pcs l :=
  execute_reaches (P := fun s : Errands => s.data.pool.jobqueue.len = 1)
    (by decide) fun _ h hlen => ⟨hlen, shape (fun _ _ => id) h⟩

end Runs

end SensorServer.Pool
