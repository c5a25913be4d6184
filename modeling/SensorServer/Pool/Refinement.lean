/-
  SensorServer.Pool.Refinement — the pool does what `Pool.Spec` says.

  `seen` says which accesses of the pool are visible: a job is submitted when `jobqueue_push`
  links it, taken when `jobqueue_pull` unlinks it, begun when `thread_do` calls its function and
  finished when that returns; `thpool_wait` returns with the access that ends its loop.
  `Agrees` relates the memory and the program points to the abstract pool, and every access
  keeps it.  So whatever the threads do, in whatever order, what is seen is a run of the
  abstract pool.
-/
import SensorServer.Pool.JobQueue
import SensorServer.Pool.Spec

namespace SensorServer.Pool

open SensorServer.Framework
open SensorServer.Framework.Pthread

/-! ## §1. What is seen. -/

section Seen

variable {n : Nat} {κ J X E A : Type}

/-- The job that `jobqueue_pull` returns. -/
def JobQueue.first (q : JobQueue J) : Option J := q.front.bind q.value

/-- The job under way returns. -/
def Client.returns (P : Client κ J X E A) (a : A) (x : X) (env : E) : Bool :=
  match P.work a x env with
  | some (_, none) => true
  | _ => false

/-- The caller calls `thpool_wait`. -/
def Client.waits (P : Client κ J X E A) (c : κ) (a : A) (env : E) : Bool :=
  match P.outside c a env with
  | some (_, .thpoolWait) => true
  | _ => false

/-- What an access shows. -/
def seen (P : Client κ J X E A) (t : Name n κ) (a : Choice A) (d : Shared J E) :
    Pc J X → Option (JobEvent (Fin n) κ J)
  | .pushLink newjob => (d.pool.jobqueue.value newjob).map .submit
  | .pullTake _ =>
      d.pool.jobqueue.first.map fun job =>
        match t with
        | .inl i => .take i job
        | .inr _ => .discard job
  | .ifJob (some job_p) =>
      match t with
      | .inl i => (d.pool.jobqueue.value job_p).map (.begin i)
      | .inr _ => none
  | .run x job_p =>
      match t, a with
      | .inl i, .client a =>
          if P.returns a x d.env then (d.pool.jobqueue.value job_p).map (.finish i) else none
      | _, _ => none
  | .outside =>
      match t, a with
      | .inr c, .client a => if P.waits c a d.env ∧ d.ready then some (.callWait c) else none
      | _, _ => none
  | .waitWorking =>
      match t with
      | .inr c => if d.pool.num_threads_working = 0 then some (.returnWait c) else none
      | .inl _ => none
  | _ => none

end Seen

/-! ## §2. What agrees. -/

section Points

variable {J X : Type}

/-- What `jobqueue_pull` has taken for a worker. -/
def Puller.took (job_p : Option Nat) : Puller → Option Nat
  | .worker => job_p
  | .clear _ => none

/-- What the `jobqueue_pull` that posts has taken for a worker. -/
def Poster.took : Poster → Option Nat
  | .push => none
  | .pull k job_p => k.took job_p

/-- The job a worker has pulled and not begun. -/
def Pc.took : Pc J X → Option Nat
  | .postLock k | .postSet k | .postSignal k | .postUnlock k => k.took
  | .pullUnlock k job_p => k.took job_p
  | .ifJob job_p => job_p
  | _ => none

/-- The job a worker runs. -/
def Pc.runs : Pc J X → Option Nat
  | .run _ job_p => some job_p
  | _ => none

/-- Where a caller is in the loop of `thpool_wait`: `true` when it has found the queue empty. -/
def Pc.waiting : Pc J X → Option Bool
  | .waitLock | .waitLen | .waitSleep => some false
  | .waitWorking => some true
  | _ => none

theorem inHand_of_took {p : Pc J X} {a : Nat} (h : p.took = some a) :
    p.inHand = some a ∧ p.countedWorking = true := by
  cases p with
  | postLock k | postSet k | postSignal k | postUnlock k =>
      cases k with
      | push => cases h
      | pull puller job_p => cases puller <;> first | exact ⟨h, rfl⟩ | cases h
  | pullUnlock puller job_p => cases puller <;> first | exact ⟨h, rfl⟩ | cases h
  | ifJob job_p => exact ⟨h, rfl⟩
  | _ => cases h

theorem inHand_of_runs {p : Pc J X} {a : Nat} (h : p.runs = some a) :
    p.inHand = some a ∧ p.countedWorking = true := by
  cases p with
  | run x job_p => exact ⟨h, rfl⟩
  | _ => cases h

theorem took_of_runs {p : Pc J X} {a : Nat} (h : p.runs = some a) : p.took = none := by
  cases p with
  | run x job_p => rfl
  | _ => cases h

end Points

section Values

variable {J : Type}

theorem value_pull (q : JobQueue J) (b : Nat) : q.pull.value b = q.value b := by
  unfold JobQueue.pull JobQueue.value
  split
  · rfl
  · split
    · rfl
    · split <;> rfl

theorem value_free (q : JobQueue J) (a b : Nat) (job : J) (hb : q.value b = some job) :
    (q.free a).value b = some job ∨ (q.free a).value b = none := by
  unfold JobQueue.free JobQueue.value
  split
  · by_cases hba : b = a
    · subst hba
      exact .inr (by simp)
    · refine .inl ?_
      show (Function.update q.jobs a none b).map Node.value = some job
      rw [Function.update_of_ne hba]
      exact hb
  · exact .inl hb

theorem value_alloc {q : JobQueue J} {a b : Nat} {job v : J} {prev : Option Nat}
    (hfresh : q.jobs a = none) (hb : q.value b = some v) :
    (q.alloc a job prev).value b = q.value b := by
  have hba : b ≠ a := by
    rintro rfl
    unfold JobQueue.value at hb
    rw [hfresh] at hb
    cases hb
  unfold JobQueue.alloc JobQueue.value
  exact congrArg _ (Function.update_of_ne hba ..)

end Values

section Agreement

variable {n : Nat} {κ J X E : Type}

/-- A worker at `p` has in hand what the abstract pool says. -/
def HandOf (q : JobQueue J) (submitted : List J) (p : Pc J X) : Hand → Prop
  | .idle => p.took = none ∧ p.runs = none
  | .took k => ∃ a job, p.took = some a ∧ q.value a = some job ∧ submitted[k]? = some job
  | .runs k => ∃ a job, p.runs = some a ∧ q.value a = some job ∧ submitted[k]? = some job

/-- A caller at `p` waits for what the abstract pool says. -/
def WaitOf (r : JobPool (Fin n) κ J) (p : Pc J X) (before : Option ℕ) : Prop :=
  match p.waiting with
  | none => before = none
  | some false => ∃ m, before = some m ∧ m ≤ r.submitted.length
  -- every job submitted before the call has been taken
  | some true => ∃ m, before = some m ∧ m ≤ r.next

/-- The memory and the program points agree with the abstract pool. -/
structure Agrees (q : JobQueue J) (pcs : Name n κ → Pc J X) (r : JobPool (Fin n) κ J) : Prop where
  queue : ∃ l, Shape q pcs l ∧ l.map Prod.snd = r.submitted.drop r.next
  sound : r.Sound
  hands : ∀ i, HandOf q r.submitted (pcs (.inl i)) (r.hand i)
  waits : ∀ c, WaitOf r (pcs (.inr c)) (r.waiting c)

variable {q q' : JobQueue J} {pcs : Name n κ → Pc J X} {r r' : JobPool (Fin n) κ J}
  {p next : Pc J X} {t : Name n κ}

/-- The first job of the queue is the first one that nobody has taken. -/
theorem first_eq {l : List (Nat × J)} (hq : q.Holds l)
    (hl : l.map Prod.snd = r.submitted.drop r.next) :
    l = [] ∧ q.front = none ∧ q.first = none
      ∨ ∃ a job rest, l = (a, job) :: rest ∧ q.front = some a ∧ q.value a = some job
        ∧ q.first = some job ∧ r.submitted[r.next]? = some job
        ∧ rest.map Prod.snd = r.submitted.drop (r.next + 1) := by
  have hfront := hq.front
  cases l with
  | nil =>
      refine .inl ⟨rfl, hfront, ?_⟩
      unfold JobQueue.first
      rw [hfront]
      rfl
  | cons cell rest =>
      obtain ⟨a, job⟩ := cell
      have hvalue : q.value a = some job := hq.value List.mem_cons_self
      refine .inr ⟨a, job, rest, rfl, hfront, hvalue, ?_, ?_, ?_⟩
      · unfold JobQueue.first
        rw [hfront]
        exact hvalue
      · have hhead := congrArg (fun l : List J => l[0]?) hl
        simpa using hhead.symm
      · have htail := congrArg List.tail hl
        rw [List.tail_drop] at htail
        exact htail

theorem HandOf.mono {submitted submitted' : List J} {hand : Hand}
    (h : HandOf q submitted p hand)
    (hvalue : ∀ a job, p.inHand = some a → q.value a = some job → q'.value a = some job)
    (hsub : ∀ (k : ℕ) (job : J), submitted[k]? = some job → submitted'[k]? = some job) :
    HandOf q' submitted' p hand := by
  cases hand with
  | idle => exact h
  | took k =>
      obtain ⟨a, job, ha, hjob, hk⟩ := h
      exact ⟨a, job, ha, hvalue a job (inHand_of_took ha).1 hjob, hsub k job hk⟩
  | runs k =>
      obtain ⟨a, job, ha, hjob, hk⟩ := h
      exact ⟨a, job, ha, hvalue a job (inHand_of_runs ha).1 hjob, hsub k job hk⟩

theorem HandOf.pass {submitted : List J} {hand : Hand} (h : HandOf q submitted p hand)
    (htook : next.took = p.took) (hruns : next.runs = p.runs) :
    HandOf q submitted next hand := by
  cases hand with
  | idle => exact ⟨htook.trans h.1, hruns.trans h.2⟩
  | took k =>
      obtain ⟨a, job, ha, hrest⟩ := h
      exact ⟨a, job, htook.trans ha, hrest⟩
  | runs k =>
      obtain ⟨a, job, ha, hrest⟩ := h
      exact ⟨a, job, hruns.trans ha, hrest⟩

theorem WaitOf.mono {before : Option ℕ} (h : WaitOf r p before)
    (hsub : r.submitted.length ≤ r'.submitted.length) (hnext : r.next ≤ r'.next) :
    WaitOf r' p before := by
  unfold WaitOf at h ⊢
  split at h
  · exact h
  · obtain ⟨m, hm, hle⟩ := h
    exact ⟨m, hm, hle.trans hsub⟩
  · obtain ⟨m, hm, hle⟩ := h
    exact ⟨m, hm, hle.trans hnext⟩

theorem WaitOf.pass {before : Option ℕ} (h : WaitOf r p before)
    (hwaiting : next.waiting = p.waiting) : WaitOf r next before := by
  unfold WaitOf at h ⊢
  rw [hwaiting]
  exact h

/-- A job that is in hand afterwards has not been freed. -/
theorem value_of_shape {l : List (Nat × J)} (hshape : Shape q' pcs l)
    (hvalue : ∀ b job, q.value b = some job → q'.value b = some job ∨ q'.value b = none) {a : Nat}
    {job : J} (ha : (pcs t).inHand = some a) (hjob : q.value a = some job) :
    q'.value a = some job := by
  rcases hvalue a job hjob with hnew | hnone
  · exact hnew
  · obtain ⟨v, hv⟩ := hshape.value ha
    rw [hnone] at hv
    cases hv

/-- If nobody is counted in `num_threads_working`, nobody has a job in hand. -/
theorem Agrees.idle (h : Agrees q pcs r)
    (hnobody : ∀ i, (pcs (.inl i)).countedWorking = false) (i : Fin n) : r.hand i = .idle := by
  have hi := h.hands i
  cases hhand : r.hand i with
  | idle => rfl
  | took k =>
      rw [hhand] at hi
      obtain ⟨b, job, hb, -⟩ := hi
      have hcounted := (inHand_of_took hb).2
      rw [hnobody i] at hcounted
      cases hcounted
  | runs k =>
      rw [hhand] at hi
      obtain ⟨b, job, hb, -⟩ := hi
      have hcounted := (inHand_of_runs hb).2
      rw [hnobody i] at hcounted
      cases hcounted

variable [DecidableEq κ]

/-- One thread goes on, and the abstract pool with it. -/
theorem Agrees.update {l : List (Nat × J)} (h : Agrees q pcs r)
    (hshape : Shape q' (Function.update pcs t next) l)
    (hvalue : ∀ b job, q.value b = some job → q'.value b = some job ∨ q'.value b = none)
    (hl : l.map Prod.snd = r'.submitted.drop r'.next) (hsound : r'.Sound)
    (hsub : ∃ more, r'.submitted = r.submitted ++ more) (hnext : r.next ≤ r'.next)
    (hhands : ∀ i, .inl i ≠ t → r'.hand i = r.hand i)
    (hwaits : ∀ c, .inr c ≠ t → r'.waiting c = r.waiting c)
    (hhand : ∀ i, t = .inl i → HandOf q' r'.submitted next (r'.hand i))
    (hwait : ∀ c, t = .inr c → WaitOf r' next (r'.waiting c)) :
    Agrees q' (Function.update pcs t next) r' where
  queue := ⟨l, hshape, hl⟩
  sound := hsound
  hands i := by
    by_cases hi : .inl i = t
    · rw [hi, Function.update_self]
      exact hhand i hi.symm
    · have hpc : Function.update pcs t next (.inl i) = pcs (.inl i) := Function.update_of_ne hi ..
      rw [hhands i hi, hpc]
      refine (h.hands i).mono (fun a job ha hjob => ?_) fun k job hk => ?_
      · exact value_of_shape hshape hvalue (hpc ▸ ha) hjob
      · obtain ⟨more, hmore⟩ := hsub
        rw [hmore, List.getElem?_append_left (List.getElem?_eq_some_iff.mp hk).1]
        exact hk
  waits c := by
    by_cases hc : .inr c = t
    · rw [hc, Function.update_self]
      exact hwait c hc.symm
    · rw [hwaits c hc, Function.update_of_ne hc]
      refine (h.waits c).mono ?_ hnext
      obtain ⟨more, hmore⟩ := hsub
      rw [hmore, List.length_append]
      exact Nat.le_add_right _ _

/-- One thread goes on, and nothing is seen of it. -/
theorem Agrees.silent {l : List (Nat × J)} (h : Agrees q pcs r)
    (hshape : Shape q' (Function.update pcs t next) l)
    (hvalue : ∀ b job, q.value b = some job → q'.value b = some job ∨ q'.value b = none)
    (hl : l.map Prod.snd = r.submitted.drop r.next) (htook : next.took = (pcs t).took)
    (hruns : next.runs = (pcs t).runs) (hwait : ∀ c, t = .inr c → WaitOf r next (r.waiting c)) :
    Agrees q' (Function.update pcs t next) r := by
  have hnew : Function.update pcs t next t = next := Function.update_self ..
  refine h.update hshape hvalue hl h.sound ⟨[], (List.append_nil _).symm⟩ le_rfl
    (fun _ _ => rfl) (fun _ _ => rfl) (fun i hi => ?_) hwait
  subst hi
  refine ((h.hands i).pass htook hruns).mono (fun a job ha hjob => ?_) fun _ _ hk => hk
  exact value_of_shape (t := .inl i) hshape hvalue (hnew.symm ▸ ha) hjob

end Agreement

/-! ## §3. Every access is a step of the abstract pool. -/

section Steps

variable {n : Nat} {κ J X E A : Type} [DecidableEq κ] {P : Client κ J X E A}
  {s : PoolState n κ J X E} {t : Name n κ} {a : Choice A} {d : Shared J E} {next : Pc J X}
  {r : JobPool (Fin n) κ J}

/-- The abstract pool goes on with what is seen. -/
def Follows (seen : Option (JobEvent (Fin n) κ J)) (r : JobPool (Fin n) κ J)
    (R : JobPool (Fin n) κ J → Prop) : Prop :=
  match seen with
  | none => R r
  | some e => ∃ r', r.Step e r' ∧ R r'

/-- `jobqueue_pull` by a worker. -/
theorem Agrees.take {l : List (Nat × J)} {i : Fin n} {q : JobQueue J} {pcs : Name n κ → Pc J X}
    (h : Agrees q pcs r) (hshape : Shape q pcs l) (hl : l.map Prod.snd = r.submitted.drop r.next)
    (hshape' : Shape q.pull (Function.update pcs (.inl i) next) l.tail)
    (hp : (pcs (.inl i)).took = none ∧ (pcs (.inl i)).runs = none)
    (hnext : next.took = q.front) (hruns : next.runs = none) :
    Follows (q.first.map fun job => .take i job) r
      (Agrees q.pull (Function.update pcs (.inl i) next)) := by
  have hvalue : ∀ b job, q.value b = some job → q.pull.value b = some job ∨ q.pull.value b = none :=
    fun b job hb => .inl ((value_pull q b).trans hb)
  rcases first_eq hshape.holds hl with
    ⟨rfl, hfront, hfirst⟩ | ⟨a, job, rest, rfl, hfront, hjob, hfirst, hsub, hrest⟩
  · rw [hfirst]
    exact h.silent hshape' hvalue hl ((hnext.trans hfront).trans hp.1.symm)
      (hruns.trans hp.2.symm) nofun
  · rw [hfirst]
    -- the worker had neither taken nor begun a job
    have hidle : r.hand i = .idle := by
      have hi := h.hands i
      cases hhand : r.hand i with
      | idle => rfl
      | took k =>
          rw [hhand] at hi
          obtain ⟨b, job', hb, -⟩ := hi
          rw [hp.1] at hb
          cases hb
      | runs k =>
          rw [hhand] at hi
          obtain ⟨b, job', hb, -⟩ := hi
          rw [hp.2] at hb
          cases hb
    have hstep := JobPool.Step.take i job hsub hidle
    refine ⟨_, hstep, h.update hshape' hvalue hrest (h.sound.step hstep)
      ⟨[], (List.append_nil _).symm⟩ (Nat.le_succ _) (fun j hj => ?_) (fun _ _ => rfl)
      (fun j hj => ?_) nofun⟩
    · exact Function.update_of_ne (fun heq => hj (congrArg Sum.inl heq)) ..
    · obtain rfl := Sum.inl.inj hj
      show HandOf _ _ _ (Function.update r.hand i (.took r.next) i)
      rw [Function.update_self]
      exact ⟨a, job, hnext.trans hfront, (value_pull q a).trans hjob, hsub⟩

/-- `jobqueue_pull` by `jobqueue_clear`. -/
theorem Agrees.discard {l : List (Nat × J)} {c : κ} {q : JobQueue J} {pcs : Name n κ → Pc J X}
    (h : Agrees q pcs r) (hshape : Shape q pcs l) (hl : l.map Prod.snd = r.submitted.drop r.next)
    (hshape' : Shape q.pull (Function.update pcs (.inr c) next) l.tail)
    (hp : (pcs (.inr c)).took = none ∧ (pcs (.inr c)).runs = none)
    (hnext : next.took = none ∧ next.runs = none) (hwait : WaitOf r next (r.waiting c)) :
    Follows (q.first.map fun job => .discard job) r
      (Agrees q.pull (Function.update pcs (.inr c) next)) := by
  have hvalue : ∀ b job, q.value b = some job → q.pull.value b = some job ∨ q.pull.value b = none :=
    fun b job hb => .inl ((value_pull q b).trans hb)
  have hwait' : ∀ c', (.inr c : Name n κ) = .inr c' → WaitOf r next (r.waiting c') := by
    rintro c' heq
    cases heq
    exact hwait
  rcases first_eq hshape.holds hl with
    ⟨rfl, hfront, hfirst⟩ | ⟨a, job, rest, rfl, hfront, hjob, hfirst, hsub, hrest⟩
  · rw [hfirst]
    exact h.silent hshape' hvalue hl (hnext.1.trans hp.1.symm) (hnext.2.trans hp.2.symm) hwait'
  · rw [hfirst]
    have hstep := JobPool.Step.discard (r := r) job hsub
    refine ⟨_, hstep, h.update hshape' hvalue hrest (h.sound.step hstep)
      ⟨[], (List.append_nil _).symm⟩ (Nat.le_succ _) (fun _ _ => rfl) (fun _ _ => rfl) nofun
      fun c' hc => ?_⟩
    exact (hwait' c' hc).mono le_rfl (Nat.le_succ _)

/-- A worker that calls its job begins the one it has taken. -/
theorem Agrees.begin {i : Fin n} {q : JobQueue J} {pcs : Name n κ → Pc J X} {l : List (Nat × J)}
    {a : Nat} (h : Agrees q pcs r) (hshape : Shape q (Function.update pcs (.inl i) next) l)
    (hl : l.map Prod.snd = r.submitted.drop r.next) (hp : (pcs (.inl i)).took = some a)
    (hnext : next.runs = some a) :
    ∃ job, q.value a = some job
      ∧ ∃ r', r.Step (.begin i job) r' ∧ Agrees q (Function.update pcs (.inl i) next) r' := by
  have hi := h.hands i
  -- the hand of the worker tells which job it is that begins
  cases hhand : r.hand i with
  | idle =>
      rw [hhand] at hi
      rw [hi.1] at hp
      cases hp
  | runs k =>
      rw [hhand] at hi
      obtain ⟨b, job, hb, -⟩ := hi
      rw [took_of_runs hb] at hp
      cases hp
  | took k =>
      rw [hhand] at hi
      obtain ⟨b, job, hb, hjob, hk⟩ := hi
      rw [hp] at hb
      cases hb
      have hstep := JobPool.Step.begin (r := r) i job k hhand hk
      refine ⟨job, hjob, _, hstep, h.update hshape (fun b job hb => .inl hb) hl (h.sound.step hstep)
        ⟨[], (List.append_nil _).symm⟩ le_rfl (fun j hj => ?_) (fun _ _ => rfl)
        (fun j hj => ?_) nofun⟩
      · exact Function.update_of_ne (fun heq => hj (congrArg Sum.inl heq)) ..
      · obtain rfl := Sum.inl.inj hj
        show HandOf _ _ _ (Function.update r.hand i (.runs k) i)
        rw [Function.update_self]
        exact ⟨a, job, hnext, hjob, hk⟩

/-- A job that returns is the one that its worker has begun. -/
theorem Agrees.finish {i : Fin n} {q : JobQueue J} {pcs : Name n κ → Pc J X} {l : List (Nat × J)}
    {a : Nat} (h : Agrees q pcs r) (hshape : Shape q (Function.update pcs (.inl i) next) l)
    (hl : l.map Prod.snd = r.submitted.drop r.next) (hp : (pcs (.inl i)).runs = some a)
    (hnext : next.took = none ∧ next.runs = none) :
    ∃ job, q.value a = some job
      ∧ ∃ r', r.Step (.finish i job) r' ∧ Agrees q (Function.update pcs (.inl i) next) r' := by
  have hi := h.hands i
  -- the hand of the worker tells which job it is that is over
  cases hhand : r.hand i with
  | idle =>
      rw [hhand] at hi
      rw [hi.2] at hp
      cases hp
  | took k =>
      rw [hhand] at hi
      obtain ⟨b, job, hb, -⟩ := hi
      rw [took_of_runs hp] at hb
      cases hb
  | runs k =>
      rw [hhand] at hi
      obtain ⟨b, job, hb, hjob, hk⟩ := hi
      rw [hp] at hb
      cases hb
      have hstep := JobPool.Step.finish (r := r) i job k hhand hk
      refine ⟨job, hjob, _, hstep, h.update hshape (fun b job hb => .inl hb) hl (h.sound.step hstep)
        ⟨[], (List.append_nil _).symm⟩ le_rfl (fun j hj => ?_) (fun _ _ => rfl)
        (fun j hj => ?_) nofun⟩
      · exact Function.update_of_ne (fun heq => hj (congrArg Sum.inl heq)) ..
      · obtain rfl := Sum.inl.inj hj
        show HandOf _ _ _ (Function.update r.hand i .idle i)
        rw [Function.update_self]
        exact hnext

/-- **Every access keeps the agreement**, and what is seen of it is a step of the abstract
pool. -/
theorem Agrees.effect [Fintype κ] (h : Agrees s.data.pool.jobqueue s.pcs r)
    (hworker : ∀ u, (s.pcs u).ofWorker = u.isLeft) (hending : Ending s.data.ready s.pcs)
    (hcount : s.data.pool.num_threads_working = count Pc.countedWorking s.pcs)
    (hpolite : Polite P s (.go t a)) (heff : Effect P t s.data a (s.pcs t) d next) :
    Follows (seen P t a s.data (s.pcs t)) r
      (Agrees d.pool.jobqueue (Function.update s.pcs t next)) := by
  obtain ⟨l, hshape, hl⟩ := h.queue
  have hshape' := hshape.effect hworker hending hpolite heff
  generalize hp : s.pcs t = p at heff hshape'
  have hleft : p.ofWorker = true → ∃ i, t = .inl i := by
    intro hof
    rw [← hp, hworker] at hof
    exact Sum.isLeft_iff.mp hof
  have hright : p.ofWorker = false → ∃ c, t = .inr c := by
    intro hof
    rw [← hp, hworker] at hof
    exact Sum.isRight_iff.mp (Sum.isLeft_eq_false.mp hof)
  have hstill : ∀ {x : Pc J X}, x.waiting = p.waiting →
      ∀ c, t = .inr c → WaitOf r x (r.waiting c) := by
    rintro x hx c rfl
    exact (h.waits c).pass (hx.trans (congrArg Pc.waiting hp).symm)
  cases heff with
  | lost a job_p hnode =>
      -- a job in hand is a live block
      obtain ⟨v, hval⟩ := hshape.value (t := t) (a := job_p) (congrArg Pc.inHand hp)
      obtain ⟨link, hsome⟩ := JobQueue.value_eq_some_iff.mp hval
      rw [hnode] at hsome
      cases hsome
  | early a c env call ht hcall hout hready =>
      subst ht
      rw [(hpolite.allowed hp hout).ready hcall] at hready
      cases hready
  | begun a job_p node hnode =>
      obtain ⟨i, rfl⟩ := hleft rfl
      obtain ⟨job, hjob, hr⟩ := h.begin (a := job_p) hshape' hl (congrArg Pc.took hp) rfl
      show Follows ((s.data.pool.jobqueue.value job_p).map (.begin i)) r _
      rw [hjob]
      exact hr
  | goesOn c x x' job_p env hwork =>
      obtain ⟨i, rfl⟩ := hleft rfl
      have hreturns : P.returns c x s.data.env = false := by
        unfold Client.returns
        rw [hwork]
      show Follows (if P.returns c x s.data.env then _ else none) r _
      rw [hreturns]
      exact h.silent hshape' (fun b job hb => .inl hb) hl (congrArg Pc.took hp).symm
        (congrArg Pc.runs hp).symm nofun
  | returns c x job_p env hwork =>
      obtain ⟨i, rfl⟩ := hleft rfl
      have hreturns : P.returns c x s.data.env = true := by
        unfold Client.returns
        rw [hwork]
      obtain ⟨job, hjob, hr⟩ := h.finish (a := job_p) hshape' hl (congrArg Pc.runs hp) ⟨rfl, rfl⟩
      show Follows (if P.returns c x s.data.env then
        (s.data.pool.jobqueue.value job_p).map (.finish i) else none) r _
      rw [hreturns, hjob]
      exact hr
  | pullLast a puller hlen =>
      cases puller with
      | worker =>
          obtain ⟨i, rfl⟩ := hleft rfl
          exact h.take hshape hl hshape' ⟨congrArg Pc.took hp, congrArg Pc.runs hp⟩ rfl rfl
      | clear total =>
          obtain ⟨c, rfl⟩ := hright rfl
          exact h.discard hshape hl hshape' ⟨congrArg Pc.took hp, congrArg Pc.runs hp⟩
            ⟨rfl, rfl⟩ (hstill rfl c rfl)
  | pullMore a puller hlen =>
      cases puller with
      | worker =>
          obtain ⟨i, rfl⟩ := hleft rfl
          exact h.take hshape hl hshape' ⟨congrArg Pc.took hp, congrArg Pc.runs hp⟩ rfl rfl
      | clear total =>
          obtain ⟨c, rfl⟩ := hright rfl
          exact h.discard hshape hl hshape' ⟨congrArg Pc.took hp, congrArg Pc.runs hp⟩
            ⟨rfl, rfl⟩ (hstill rfl c rfl)
  | pushLink a newjob =>
      obtain ⟨c, rfl⟩ := hright rfl
      obtain ⟨job, hjob⟩ := hshape.value (t := .inr c) (a := newjob) (congrArg Pc.inHand hp)
      have hstep := JobPool.Step.submit (r := r) job
      have hvalue := (hshape.holds.push hjob
        (hshape.custody.apart (.inr c) newjob (congrArg Pc.inHand hp))).2.2
      show Follows ((s.data.pool.jobqueue.value newjob).map .submit) r _
      rw [hjob]
      refine ⟨_, hstep, h.update hshape' (fun b job hb => .inl ((hvalue b).trans hb)) ?_
        (h.sound.step hstep) ⟨[job], rfl⟩ le_rfl (fun _ _ => rfl) (fun _ _ => rfl) nofun
        fun c' hc => ?_⟩
      · show (l ++ (s.data.pool.jobqueue.value newjob).toList.map fun v => (newjob, v)).map Prod.snd
          = (r.submitted ++ [job]).drop r.next
        rw [hjob, List.map_append, hl, List.drop_append_of_le_length h.sound.bound]
        rfl
      · exact (hstill rfl c' hc).mono (by simp) le_rfl
  | stay a c env ht hout =>
      subst ht
      have hwaits : P.waits c a s.data.env = false := by
        unfold Client.waits
        rw [hout]
      show Follows (if P.waits c a s.data.env ∧ s.data.ready then _ else none) r _
      rw [hwaits, if_neg (fun hw => Bool.false_ne_true hw.1)]
      exact h.silent hshape' (fun b job hb => .inl hb) hl (congrArg Pc.took hp).symm
        (congrArg Pc.runs hp).symm (hstill rfl)
  | call a c env call ht hcall hout hready =>
      subst ht
      cases call with
      | stay => exact absurd rfl hcall
      | thpoolWait =>
          have hwaits : P.waits c a s.data.env = true := by
            unfold Client.waits
            rw [hout]
          have hnone : r.waiting c = none := by
            have hwait := h.waits c
            rw [hp] at hwait
            exact hwait
          have hstep := JobPool.Step.callWait (r := r) c hnone
          show Follows (if P.waits c a s.data.env ∧ s.data.ready then some (.callWait c)
            else none) r _
          rw [if_pos ⟨hwaits, hready⟩]
          refine ⟨_, hstep, h.update hshape' (fun b job hb => .inl hb) hl (h.sound.step hstep)
            ⟨[], (List.append_nil _).symm⟩ le_rfl (fun _ _ => rfl) (fun c' hc => ?_) nofun
            fun c' hc => ?_⟩
          · exact Function.update_of_ne (fun heq => hc (congrArg Sum.inr heq)) ..
          · cases hc
            exact ⟨_, Function.update_self .., le_rfl⟩
      | thpoolAddWork job =>
          have hwaits : P.waits c a s.data.env = false := by
            unfold Client.waits
            rw [hout]
          show Follows (if P.waits c a s.data.env ∧ s.data.ready then _ else none) r _
          rw [hwaits, if_neg (fun hw => Bool.false_ne_true hw.1)]
          exact h.silent hshape' (fun b job hb => .inl hb) hl (congrArg Pc.took hp).symm
            (congrArg Pc.runs hp).symm (hstill rfl)
      | thpoolDestroy =>
          have hwaits : P.waits c a s.data.env = false := by
            unfold Client.waits
            rw [hout]
          show Follows (if P.waits c a s.data.env ∧ s.data.ready then _ else none) r _
          rw [hwaits, if_neg (fun hw => Bool.false_ne_true hw.1)]
          exact h.silent hshape' (fun b job hb => .inl hb) hl (congrArg Pc.took hp).symm
            (congrArg Pc.runs hp).symm (hstill rfl)
  | empty a hlen =>
      -- nothing is queued, so all that was submitted has been taken
      have hnil := hshape.holds.len_eq_zero_iff.mp hlen
      rw [hnil] at hl
      have hall : r.submitted.length ≤ r.next := List.drop_eq_nil_iff.mp hl.symm
      refine h.silent hshape' (fun b job hb => .inl hb) (by rw [hnil]; exact hl)
        (congrArg Pc.took hp).symm (congrArg Pc.runs hp).symm ?_
      rintro c rfl
      have hwait := h.waits c
      rw [hp] at hwait
      obtain ⟨m, hm, hle⟩ := hwait
      exact ⟨m, hm, hle.trans hall⟩
  | busy a hworking =>
      obtain ⟨c, rfl⟩ := hright rfl
      have hwait := h.waits c
      rw [hp] at hwait
      obtain ⟨m, hm, hle⟩ := hwait
      show Follows (if s.data.pool.num_threads_working = 0 then _ else none) r _
      rw [if_neg hworking]
      refine h.silent hshape' (fun b job hb => .inl hb) hl (congrArg Pc.took hp).symm
        (congrArg Pc.runs hp).symm fun c' hc => ?_
      cases hc
      exact ⟨m, hm, hle.trans h.sound.bound⟩
  | idle a hworking =>
      obtain ⟨c, rfl⟩ := hright rfl
      have hwait := h.waits c
      rw [hp] at hwait
      obtain ⟨m, hm, hle⟩ := hwait
      rw [hworking] at hcount
      -- no thread is counted, so every hand is empty, and what was taken is over
      have hnobody := count_eq_zero_iff.mp (Int.ofNat.inj hcount).symm
      have hidle := h.idle fun i => hnobody (.inl i)
      have hover : ∀ k < m, r.Over k := by
        intro k hk
        have hlive : decide (k < r.next) = true := decide_eq_true (Nat.lt_of_lt_of_le hk hle)
        rcases (h.sound.custody.live_iff k).mp hlive with hmem | ⟨i, hi⟩
        · exact List.mem_append.mp hmem
        · have hnone : (Hand.job ∘ r.hand) i = none := congrArg Hand.job (hidle i)
          rw [hnone] at hi
          cases hi
      have hstep := JobPool.Step.returnWait (r := r) c m hm hover
      show Follows (if s.data.pool.num_threads_working = 0 then some (.returnWait c) else none) r _
      rw [if_pos hworking]
      refine ⟨_, hstep, h.update hshape' (fun b job hb => .inl hb) hl (h.sound.step hstep)
        ⟨[], (List.append_nil _).symm⟩ le_rfl (fun _ _ => rfl) (fun c' hc => ?_) nofun
        fun c' hc => ?_⟩
      · exact Function.update_of_ne (fun heq => hc (congrArg Sum.inr heq)) ..
      · cases hc
        exact Function.update_self ..
  | freeJob a job_p =>
      exact h.silent hshape' (value_free _ job_p) hl (congrArg Pc.took hp).symm
        (congrArg Pc.runs hp).symm (hstill rfl)
  | clearFree a total job_p =>
      obtain ⟨c, rfl⟩ := hright rfl
      have htook : (none : Option Nat) = (s.pcs (.inr c)).took := (congrArg Pc.took hp).symm
      exact h.silent hshape' (value_free _ job_p) hl htook (congrArg Pc.runs hp).symm (hstill rfl)
  | addAlloc job a prev hfresh =>
      refine h.silent hshape' (fun b v hb => .inl ?_) hl (congrArg Pc.took hp).symm
        (congrArg Pc.runs hp).symm (hstill rfl)
      exact (value_alloc hfresh hb).trans hb
  | _ =>
    exact h.silent hshape' (fun b job hb => .inl hb) hl (congrArg Pc.took hp).symm
      (congrArg Pc.runs hp).symm (hstill rfl)

end Steps

/-! ## §4. Runs. -/

section Passes

variable {n : Nat} {κ J X E A : Type} {P : Client κ J X E A} {p next : Pc J X}
  {k : Doing Mutex Cond}

theorem took_of_passes (h : Passes p k next) :
    next.took = p.took ∧ next.runs = p.runs ∧ next.waiting = p.waiting := by
  cases h <;> exact ⟨rfl, rfl, rfl⟩

/-- Nothing is seen but accesses. -/
theorem seen_of_passes (h : Passes p k next) (t : Name n κ) (a : Choice A) (d : Shared J E) :
    seen P t a d p = none := by
  cases h <;> rfl

end Passes

section Runs

variable {n : Nat} {κ J X E A : Type} [DecidableEq κ] {P : Client κ J X E A} {main : κ} {env : E}

theorem start_agrees :
    Agrees (ThPool.init J).jobqueue (start n J X main env).pcs (JobPool.empty : JobPool (Fin n) κ J)
    where
  queue := ⟨[], start_shape, rfl⟩
  sound := JobPool.sound_empty
  hands i := ⟨rfl, rfl⟩
  waits c := by
    rw [start_pcs_caller]
    split <;> rfl

variable [Fintype κ] {ok : PoolState n κ J X E → Move (Name n κ) (Choice A) → Prop}

/-- **The pool refines `JobPool`.** -/
theorem simulation (hpolite : ∀ s l, ok s l → Polite P s l) :
    Simulation (State.step (code P)) ok (viewEvent (seen P)) (start n J X main env)
      JobPool.Step (JobPool.empty : JobPool (Fin n) κ J)
      fun s r => Agrees s.data.pool.jobqueue s.pcs r := by
  -- an access that is seen is a step of `JobPool`, and one that is not is none
  have heffect : ∀ (s : PoolState n κ J X E) r t a f d next, Reached P main env ok s →
      Agrees s.data.pool.jobqueue s.pcs r → ok s (.go t a) → code P t (s.pcs t) = .access f →
      f a s.data = some (d, next) → Follows (seen P t a s.data (s.pcs t)) r
        (Agrees d.pool.jobqueue (Function.update s.pcs t next)) := by
    intro s r t a f d next hreach h hok hcode hf
    exact h.effect (ofWorker_pcs hreach) (ending hpolite hreach) hreach.counted.working
      (hpolite s _ hok) (effect_of_access hcode hf)
  refine simulation_view
    (R := fun (d : Shared J E) pcs r => Agrees d.pool.jobqueue pcs r) start_agrees ?_ ?_ ?_ ?_
  · exact fun t a d p k next hgo => seen_of_passes (passes_of_goes hgo) t a d
  · intro s r t k next hreach h hgo
    have hpass := passes_of_goes hgo
    obtain ⟨htook, hruns, hwaiting⟩ := took_of_passes hpass
    obtain ⟨l, hshape, hl⟩ := h.queue
    refine h.silent (hshape.passes hpass) (fun b job hb => .inl hb) hl htook hruns ?_
    rintro c rfl
    exact (h.waits c).pass hwaiting
  · intro s r t a f d next hreach h hok hcode hf hnone
    have hfollows := heffect s r t a f d next hreach h hok hcode hf
    rw [hnone] at hfollows
    exact hfollows
  · intro s r t a f d next e hreach h hok hcode hf hsome
    have hfollows := heffect s r t a f d next hreach h hok hcode hf
    rw [hsome] at hfollows
    exact hfollows

/-- The states reached, with what was seen on the way. -/
abbrev Shows (P : Client κ J X E A) (main : κ) (env : E)
    (ok : PoolState n κ J X E → Move (Name n κ) (Choice A) → Prop)
    (es : List (JobEvent (Fin n) κ J)) (s : PoolState n κ J X E) : Prop :=
  Emits (State.step (code P)) ok (viewEvent (seen P)) (start n J X main env) es s

/-- A replayed run of `errands`, with what it shows. -/
theorem shows_errands {Q : List (JobEvent (Fin 1) Unit Nat) → Errands → Prop}
    [∀ es s, Decidable (Q es s)] (as : List Errand)
    (h : (execute (State.step (code errands)) (Polite errands) (start 1 Nat Unit () ()) as).any
      (fun s => decide (Q (shows (State.step (code errands)) (viewEvent (seen errands))
        (start 1 Nat Unit () ()) as) s)) = true) :
    ∃ es, ∃ s : Errands, Shows errands () () (Polite errands) es s ∧ Q es s := by
  obtain ⟨s, hs, hQ⟩ := exists_execute (P := Q _) h
  exact ⟨_, s, Emits.of_execute .init hs, hQ⟩

variable {es : List (JobEvent (Fin n) κ J)} {s : PoolState n κ J X E}

/-- **Whatever the schedule, what is seen is a run of the abstract pool.** -/
theorem refines (hpolite : ∀ s l, ok s l → Polite P s l) (h : Shows P main env ok es s) :
    ∃ r : JobPool (Fin n) κ J, Explains JobPool.Step JobPool.empty es r
      ∧ Agrees s.data.pool.jobqueue s.pcs r := (simulation hpolite).run h

/-- A job is in hand. -/
theorem refines_taking :
    ∃ es, ∃ s : Errands, Shows errands () () (Polite errands) es s
      ∧ es = [.submit 5, .take 0 5, .begin 0 5]
      ∧ ∃ r : JobPool (Fin 1) Unit Nat, Explains JobPool.Step JobPool.empty es r
        ∧ Agrees s.data.pool.jobqueue s.pcs r := by
  obtain ⟨es, s, h, hes⟩ := shows_errands (opening ++ adding ++ taking)
    (Q := fun es _ => es = [.submit 5, .take 0 5, .begin 0 5]) (by decide)
  exact ⟨es, s, h, hes, refines (fun _ _ => id) h⟩

/-- When the queue is empty and no thread is working, every job is over. -/
theorem jobs_over (hpolite : ∀ s l, ok s l → Polite P s l) (h : Shows P main env ok es s)
    (hlen : s.data.pool.jobqueue.len = 0) (hworking : s.data.pool.num_threads_working = 0) :
    (es.filterMap JobEvent.finished ++ es.filterMap JobEvent.discarded).Perm
        (es.filterMap JobEvent.submitted)
      ∧ (es.filterMap JobEvent.begun).Perm (es.filterMap JobEvent.finished) := by
  obtain ⟨r, hr, hagrees⟩ := (simulation hpolite).run h
  refine JobPool.all_over hr (hagrees.idle fun i => ?_) ?_
  · have hcount := (Reached.counted h.reach).working
    rw [hworking] at hcount
    exact count_eq_zero_iff.mp (Int.ofNat.inj hcount).symm (.inl i)
  · obtain ⟨l, hshape, hl⟩ := hagrees.queue
    rw [hshape.holds.len_eq_zero_iff.mp hlen] at hl
    exact le_antisymm hagrees.sound.bound (List.drop_eq_nil_iff.mp hl.symm)

/-- **Jobs are taken in the order of their submission, and each is run exactly once.**  When the
queue is empty and no thread is working, every submitted job has been finished, or discarded by
`thpool_destroy`. -/
theorem jobs_run_once (hpolite : ∀ s l, ok s l → Polite P s l) (h : Shows P main env ok es s) :
    es.filterMap JobEvent.left <+: es.filterMap JobEvent.submitted
      ∧ (es.filterMap JobEvent.begun).Subperm (es.filterMap JobEvent.left)
      ∧ (s.data.pool.jobqueue.len = 0 → s.data.pool.num_threads_working = 0 →
        (es.filterMap JobEvent.finished ++ es.filterMap JobEvent.discarded).Perm
            (es.filterMap JobEvent.submitted)
          ∧ (es.filterMap JobEvent.begun).Perm (es.filterMap JobEvent.finished)) := by
  obtain ⟨r, hr, -⟩ := (simulation hpolite).run h
  exact ⟨JobPool.fifo hr, JobPool.begun_subperm hr, jobs_over hpolite h⟩

/-- One job, from its submission to its end. -/
theorem jobs_run_once_one :
    ∃ es, ∃ s : Errands, Shows errands () () (Polite errands) es s
      ∧ es.filterMap JobEvent.submitted = [5]
      ∧ (es.filterMap JobEvent.finished ++ es.filterMap JobEvent.discarded).Perm
          (es.filterMap JobEvent.submitted) := by
  obtain ⟨es, s, h, hsubmitted, hlen, hworking⟩ := shows_errands
    (opening ++ adding ++ taking ++ waiting ++ doing)
    (Q := fun es s => es.filterMap JobEvent.submitted = [5] ∧ s.data.pool.jobqueue.len = 0
      ∧ s.data.pool.num_threads_working = 0) (by decide)
  exact ⟨es, s, h, hsubmitted, ((jobs_run_once (fun _ _ => id) h).2.2 hlen hworking).1⟩

/-- **`thpool_wait` waits for every job submitted before it was called.** -/
theorem thpool_wait_waits (hpolite : ∀ s l, ok s l → Polite P s l) (h : Shows P main env ok es s)
    {c : κ} {before after : List (JobEvent (Fin n) κ J)}
    (hes : es = before ++ .callWait c :: (after ++ [.returnWait c]))
    (hnot : .returnWait c ∉ after) :
    (before.filterMap JobEvent.submitted).Subperm
      (es.filterMap JobEvent.finished ++ es.filterMap JobEvent.discarded) := by
  obtain ⟨r, hr, -⟩ := (simulation hpolite).run h
  exact JobPool.waited hr hes hnot

/-- The caller waits for its job. -/
theorem thpool_wait_waits_one :
    ∃ es, ∃ s : Errands, Shows errands () () (Polite errands) es s
      ∧ [5].Subperm (es.filterMap JobEvent.finished ++ es.filterMap JobEvent.discarded) := by
  obtain ⟨es, s, h, hes⟩ := shows_errands
    (opening ++ adding ++ taking ++ waiting ++ doing ++ returning)
    (Q := fun es _ => es = [.submit 5, .take 0 5, .begin 0 5]
      ++ .callWait () :: ([.finish 0 5] ++ [.returnWait ()])) (by decide)
  exact ⟨es, s, h, thpool_wait_waits (fun _ _ => id) h hes (by decide)⟩

end Runs

end SensorServer.Pool
