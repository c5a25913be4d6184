/-
  SensorServer.Pool.Spec — what a pool of workers is for.

  The abstract pool knows nothing of memory, mutexes or semaphores.  It numbers the jobs in the
  order in which they are submitted; a worker with empty hands takes the first job nobody has
  taken, begins it, and finishes it; a call of `thpool_wait` returns when every job that was
  submitted before the call has been finished or discarded.

  From its steps follows what a caller wants to know: jobs are taken in the order of their
  submission, each exactly once, and every job that was taken is in the hands of one worker, or
  finished once, or discarded once.
-/
import Mathlib.Data.List.Perm.Subperm
import SensorServer.Framework.Custody
import SensorServer.Framework.Simulation

namespace SensorServer.Pool

open SensorServer.Framework

/-! ## §1. The abstract pool. -/

/-- What a worker has in hand: the number of a job. -/
inductive Hand where
  | idle
  | took (k : ℕ)
  | runs (k : ℕ)
  deriving Repr, DecidableEq

/-- The job in hand. -/
def Hand.job : Hand → Option ℕ
  | .idle => none
  | .took k | .runs k => some k

/-- What can be seen of a pool.  `ι` names workers and `κ` callers. -/
inductive JobEvent (ι κ J : Type) where
  | submit (job : J)
  | take (i : ι) (job : J)
  | begin (i : ι) (job : J)
  | finish (i : ι) (job : J)
  | discard (job : J)
  | callWait (c : κ)
  | returnWait (c : κ)
  deriving Repr, DecidableEq

/-- The abstract pool. -/
structure JobPool (ι κ J : Type) where
  /-- The jobs in the order of their submission. -/
  submitted : List J
  /-- The number of the first job that is still queued. -/
  next : ℕ
  hand : ι → Hand
  /-- The jobs begun, in this order. -/
  begun : List ℕ
  finished : List ℕ
  discarded : List ℕ
  /-- The calls of `thpool_wait` under way, with the number of jobs submitted before. -/
  waiting : κ → Option ℕ

namespace JobPool

variable {ι κ J : Type}

/-- Nothing has been submitted. -/
def empty : JobPool ι κ J := ⟨[], 0, fun _ => .idle, [], [], [], fun _ => none⟩

/-- Job `k` is done with. -/
def Over (r : JobPool ι κ J) (k : ℕ) : Prop := k ∈ r.finished ∨ k ∈ r.discarded

/-- The steps of the abstract pool. -/
inductive Step [DecidableEq ι] [DecidableEq κ] (r : JobPool ι κ J) :
    JobEvent ι κ J → JobPool ι κ J → Prop where
  | submit (job : J) : Step r (.submit job) { r with submitted := r.submitted ++ [job] }
  | take (i : ι) (job : J) (hfirst : r.submitted[r.next]? = some job) (hidle : r.hand i = .idle) :
      Step r (.take i job)
        { r with next := r.next + 1, hand := Function.update r.hand i (.took r.next) }
  | begin (i : ι) (job : J) (k : ℕ) (hhand : r.hand i = .took k)
      (hjob : r.submitted[k]? = some job) :
      Step r (.begin i job)
        { r with hand := Function.update r.hand i (.runs k), begun := r.begun ++ [k] }
  | finish (i : ι) (job : J) (k : ℕ) (hhand : r.hand i = .runs k)
      (hjob : r.submitted[k]? = some job) :
      Step r (.finish i job)
        { r with hand := Function.update r.hand i .idle, finished := r.finished ++ [k] }
  | discard (job : J) (hfirst : r.submitted[r.next]? = some job) :
      Step r (.discard job) { r with next := r.next + 1, discarded := r.discarded ++ [r.next] }
  | callWait (c : κ) (hfree : r.waiting c = none) :
      Step r (.callWait c)
        { r with waiting := Function.update r.waiting c (some r.submitted.length) }
  | returnWait (c : κ) (m : ℕ) (hcall : r.waiting c = some m) (hover : ∀ k < m, r.Over k) :
      Step r (.returnWait c) { r with waiting := Function.update r.waiting c none }

/-! ## §2. Every job is somewhere, once. -/

/-- What is kept by every step. -/
structure Sound (r : JobPool ι κ J) : Prop where
  bound : r.next ≤ r.submitted.length
  /-- A job that was taken is in one hand, or done with. -/
  custody : Custody (fun k => decide (k < r.next)) (r.finished ++ r.discarded) (Hand.job ∘ r.hand)
  once : (r.finished ++ r.discarded).Nodup
  begun_nodup : r.begun.Nodup
  /-- The jobs begun are those that run and those that are finished. -/
  begun_iff : ∀ k, k ∈ r.begun ↔ k ∈ r.finished ∨ ∃ i, r.hand i = .runs k

theorem sound_empty : (empty : JobPool ι κ J).Sound where
  bound := Nat.le_refl 0
  custody := Custody.empty (fun k => by simp [empty]) fun _ => rfl
  once := List.nodup_nil
  begun_nodup := List.nodup_nil
  begun_iff k := by simp [empty]

/-- The first queued job has not been taken. -/
theorem Sound.fresh {r : JobPool ι κ J} (h : r.Sound) : r.next ∉ r.finished ++ r.discarded := by
  intro hmem
  have hlive := of_decide_eq_true (h.custody.live_of_mem hmem)
  omega

theorem Sound.discard {r : JobPool ι κ J} {job : J} (h : r.Sound)
    (hfirst : r.submitted[r.next]? = some job) :
    Sound { r with next := r.next + 1, discarded := r.discarded ++ [r.next] } where
  bound := (List.getElem?_eq_some_iff.mp hfirst).1
  custody := by
    refine h.custody.add (decide_eq_false (Nat.lt_irrefl _)) (fun b => ?_) fun b => ?_
    · simp only [decide_eq_true_eq]
      omega
    · simp only [List.mem_append, List.mem_singleton]
      exact or_assoc.symm
  once := by
    rw [← List.append_assoc, List.nodup_append]
    refine ⟨h.once, List.nodup_singleton _, ?_⟩
    rintro a ha b hb rfl
    obtain rfl := List.mem_singleton.mp hb
    exact h.fresh ha
  begun_nodup := h.begun_nodup
  begun_iff := h.begun_iff

section Steps

variable [DecidableEq ι] {r r' : JobPool ι κ J} {e : JobEvent ι κ J} {i : ι} {job : J} {k : ℕ}

/-- Who runs job `k` after the hand of `i` has changed. -/
theorem update_eq_runs_iff {hand : ι → Hand} {j : ι} {x : Hand} :
    Function.update hand i x j = .runs k ↔ j = i ∧ x = .runs k ∨ j ≠ i ∧ hand j = .runs k := by
  by_cases hj : j = i
  · subst hj
    simp
  · simp [hj]

theorem Sound.take (h : r.Sound) (hfirst : r.submitted[r.next]? = some job)
    (hidle : r.hand i = .idle) :
    Sound { r with next := r.next + 1, hand := Function.update r.hand i (.took r.next) } where
  bound := (List.getElem?_eq_some_iff.mp hfirst).1
  custody := by
    -- the next number is new: it comes into being in the hand of the worker
    have hnone : (Hand.job ∘ r.hand) i = none := congrArg Hand.job hidle
    rw [Function.comp_update]
    refine h.custody.alloc hnone (decide_eq_false (Nat.lt_irrefl _)) fun b => ?_
    simp only [decide_eq_true_eq]
    omega
  once := h.once
  begun_nodup := h.begun_nodup
  begun_iff k := by
    rw [h.begun_iff]
    refine or_congr_right (exists_congr fun j => ?_)
    rw [update_eq_runs_iff]
    constructor
    · intro hj
      refine .inr ⟨?_, hj⟩
      rintro rfl
      rw [hidle] at hj
      cases hj
    · rintro (⟨-, hj⟩ | ⟨-, hj⟩)
      · cases hj
      · exact hj

theorem Sound.begin (h : r.Sound) (hhand : r.hand i = .took k) :
    Sound { r with hand := Function.update r.hand i (.runs k), begun := r.begun ++ [k] } where
  bound := h.bound
  custody := by
    have hjob : (Hand.runs k).job = (Hand.job ∘ r.hand) i := by
      rw [Function.comp_apply, hhand]
      rfl
    rw [Function.comp_update, hjob, Function.update_eq_self]
    exact h.custody
  once := h.once
  begun_nodup := by
    have hhas : (Hand.job ∘ r.hand) i = some k := congrArg Hand.job hhand
    refine List.nodup_append.mpr ⟨h.begun_nodup, List.nodup_singleton k, ?_⟩
    rintro a ha b hb rfl
    obtain rfl := List.mem_singleton.mp hb
    -- a job begun before is over or in another hand, and this one is in this hand
    rcases (h.begun_iff a).mp ha with hfin | ⟨j, hj⟩
    · exact h.custody.apart i a hhas (List.mem_append_left _ hfin)
    · obtain rfl := h.custody.single j i a (congrArg Hand.job hj) hhas
      rw [hhand] at hj
      cases hj
  begun_iff k' := by
    rw [List.mem_append, List.mem_singleton, h.begun_iff]
    constructor
    · rintro ((hfin | ⟨j, hj⟩) | rfl)
      · exact .inl hfin
      · refine .inr ⟨j, update_eq_runs_iff.mpr (.inr ⟨?_, hj⟩)⟩
        rintro rfl
        rw [hhand] at hj
        cases hj
      · exact .inr ⟨i, update_eq_runs_iff.mpr (.inl ⟨rfl, rfl⟩)⟩
    · rintro (hfin | ⟨j, hj⟩)
      · exact .inl (.inl hfin)
      · rcases update_eq_runs_iff.mp hj with ⟨-, hk⟩ | ⟨-, hj⟩
        · cases hk
          exact .inr rfl
        · exact .inl (.inr ⟨j, hj⟩)

theorem Sound.finish (h : r.Sound) (hhand : r.hand i = .runs k) :
    Sound { r with hand := Function.update r.hand i .idle, finished := r.finished ++ [k] } where
  bound := h.bound
  custody := by
    have hhas : (Hand.job ∘ r.hand) i = some k := congrArg Hand.job hhand
    rw [Function.comp_update]
    refine h.custody.put hhas fun b => ?_
    simp only [List.mem_append, List.mem_singleton]
    exact or_right_comm
  once := by
    have hhas : (Hand.job ∘ r.hand) i = some k := congrArg Hand.job hhand
    have hnot := h.custody.apart i k hhas
    -- the job was in a hand, so it is neither over nor discarded yet
    have hperm : (r.finished ++ [k] ++ r.discarded).Perm (k :: (r.finished ++ r.discarded)) := by
      rw [List.append_assoc]
      exact List.perm_middle
    exact hperm.nodup_iff.mpr (List.nodup_cons.mpr ⟨hnot, h.once⟩)
  begun_nodup := h.begun_nodup
  begun_iff k' := by
    rw [List.mem_append, List.mem_singleton, h.begun_iff]
    constructor
    · rintro (hfin | ⟨j, hj⟩)
      · exact .inl (.inl hfin)
      · by_cases hji : j = i
        · subst hji
          rw [hhand] at hj
          cases hj
          exact .inl (.inr rfl)
        · exact .inr ⟨j, update_eq_runs_iff.mpr (.inr ⟨hji, hj⟩)⟩
    · rintro ((hfin | rfl) | ⟨j, hj⟩)
      · exact .inl hfin
      · exact .inr ⟨i, hhand⟩
      · rcases update_eq_runs_iff.mp hj with ⟨-, hk⟩ | ⟨-, hj⟩
        · cases hk
        · exact .inr ⟨j, hj⟩

/-- **Every step keeps every job in its one place.** -/
theorem Sound.step [DecidableEq κ] (h : r.Sound) (hs : r.Step e r') : r'.Sound := by
  cases hs with
  | submit job =>
      refine ⟨?_, h.custody, h.once, h.begun_nodup, h.begun_iff⟩
      show r.next ≤ (r.submitted ++ [job]).length
      rw [List.length_append]
      exact Nat.le_add_right_of_le h.bound
  | take i job hfirst hidle => exact h.take hfirst hidle
  | begin i job k hhand hjob => exact h.begin hhand
  | finish i job k hhand hjob => exact h.finish hhand
  | discard job hfirst => exact h.discard hfirst
  | callWait | returnWait => exact ⟨h.bound, h.custody, h.once, h.begun_nodup, h.begun_iff⟩

end Steps

/-! ## §3. Runs of the abstract pool. -/

end JobPool

namespace JobEvent

variable {ι κ J : Type}

/-- The job an event submits. -/
def submitted : JobEvent ι κ J → Option J
  | .submit job => some job
  | _ => none

/-- The job an event takes from the queue. -/
def left : JobEvent ι κ J → Option J
  | .take _ job | .discard job => some job
  | _ => none

/-- The job an event begins. -/
def begun : JobEvent ι κ J → Option J
  | .begin _ job => some job
  | _ => none

/-- The job an event finishes. -/
def finished : JobEvent ι κ J → Option J
  | .finish _ job => some job
  | _ => none

/-- The job an event discards. -/
def discarded : JobEvent ι κ J → Option J
  | .discard job => some job
  | _ => none

end JobEvent

namespace JobPool

section Numbers

variable {J : Type} {jobs : List J} {ks : List ℕ} {m : ℕ}

/-- The jobs with the numbers `ks`. -/
def named (jobs : List J) (ks : List ℕ) : List J := ks.filterMap fun k => jobs[k]?

theorem named_snoc {k : ℕ} {job : J} (hjob : jobs[k]? = some job) :
    named jobs (ks ++ [k]) = named jobs ks ++ [job] := by
  unfold named
  rw [List.filterMap_append, List.filterMap_cons_some hjob]
  rfl

/-- Jobs keep their numbers when others are submitted. -/
theorem named_append (hks : ∀ k ∈ ks, k < jobs.length) (more : List J) :
    named (jobs ++ more) ks = named jobs ks :=
  List.filterMap_congr fun k hk => List.getElem?_append_left (hks k hk)

theorem named_range : named jobs (List.range m) = jobs.take m := by
  induction m with
  | zero => rfl
  | succ m ih =>
      rw [List.range_succ, List.take_add_one, ← ih]
      unfold named
      rw [List.filterMap_append]
      cases hk : jobs[m]? with
      | none => rw [List.filterMap_cons_none hk]; rfl
      | some job => rw [List.filterMap_cons_some hk]; rfl

/-- Different numbers name a part of the jobs. -/
theorem named_subperm {ks' : List ℕ} (hnodup : ks.Nodup) (hsub : ks ⊆ ks') :
    (named jobs ks).Subperm (named jobs ks') := by
  obtain ⟨l, hperm, hl⟩ := List.subperm_of_subset hnodup hsub
  exact ⟨named jobs l, hperm.filterMap _, hl.filterMap _⟩

end Numbers

variable {ι κ J : Type}

/-- The events of a run are what the pool has recorded. -/
structure Recorded (es : List (JobEvent ι κ J)) (r : JobPool ι κ J) : Prop where
  sound : r.Sound
  submitted : es.filterMap JobEvent.submitted = r.submitted
  left : es.filterMap JobEvent.left = r.submitted.take r.next
  begun : es.filterMap JobEvent.begun = named r.submitted r.begun
  finished : es.filterMap JobEvent.finished = named r.submitted r.finished
  discarded : es.filterMap JobEvent.discarded = named r.submitted r.discarded

theorem recorded_empty : Recorded [] (empty : JobPool ι κ J) :=
  ⟨sound_empty, rfl, rfl, rfl, rfl, rfl⟩

section Bounds

variable {r : JobPool ι κ J} {k : ℕ}

theorem Sound.lt_of_over (h : r.Sound) (hk : k ∈ r.finished ++ r.discarded) : k < r.next :=
  of_decide_eq_true (h.custody.live_of_mem hk)

theorem Sound.lt_of_hand (h : r.Sound) {i : ι} (hk : (r.hand i).job = some k) : k < r.next :=
  of_decide_eq_true (h.custody.live_of_hand hk)

theorem Sound.lt_of_begun (h : r.Sound) (hk : k ∈ r.begun) : k < r.next := by
  rcases (h.begun_iff k).mp hk with hfin | ⟨i, hi⟩
  · exact h.lt_of_over (List.mem_append_left _ hfin)
  · exact h.lt_of_hand (congrArg Hand.job hi)

end Bounds

section Snoc

variable {α β : Type} {f : α → Option β} {l : List α} {a : α} {b : β} {bs : List β}

theorem filterMap_snoc_none (hb : l.filterMap f = bs) (ha : f a = none) :
    (l ++ [a]).filterMap f = bs := by
  rw [List.filterMap_append, hb, List.filterMap_cons_none ha]
  exact List.append_nil bs

theorem filterMap_snoc_some (hb : l.filterMap f = bs) (ha : f a = some b) :
    (l ++ [a]).filterMap f = bs ++ [b] := by
  rw [List.filterMap_append, hb, List.filterMap_cons_some ha]
  rfl

end Snoc

section Runs

variable [DecidableEq ι] [DecidableEq κ] {r r' : JobPool ι κ J} {es : List (JobEvent ι κ J)}
  {e : JobEvent ι κ J}

/-- **Every step records its event.** -/
theorem Recorded.step (h : Recorded es r) (hs : r.Step e r') : Recorded (es ++ [e]) r' := by
  have hsound := h.sound.step hs
  obtain ⟨hold, hsubmitted, hleft, hbegun, hfinished, hdiscarded⟩ := h
  cases hs with
  | submit job =>
      -- the numbers of the jobs before stay
      have hkeep : ∀ ks : List ℕ, (∀ k ∈ ks, k < r.next) →
          named (r.submitted ++ [job]) ks = named r.submitted ks := fun ks hks =>
        named_append (fun k hk => Nat.lt_of_lt_of_le (hks k hk) hold.bound) [job]
      have htake : (r.submitted ++ [job]).take r.next = r.submitted.take r.next :=
        List.take_append_of_le_length hold.bound
      have hover : ∀ k, k ∈ r.finished ∨ k ∈ r.discarded → k < r.next := fun k hk =>
        hold.lt_of_over (List.mem_append.mpr hk)
      refine ⟨hsound, filterMap_snoc_some hsubmitted rfl, ?_, ?_, ?_, ?_⟩
      · exact (filterMap_snoc_none hleft rfl).trans htake.symm
      · exact (filterMap_snoc_none hbegun rfl).trans (hkeep _ fun k => hold.lt_of_begun).symm
      · exact (filterMap_snoc_none hfinished rfl).trans (hkeep _ fun k hk => hover k (.inl hk)).symm
      · exact (filterMap_snoc_none hdiscarded rfl).trans
          (hkeep _ fun k hk => hover k (.inr hk)).symm
  | take i job hfirst hidle =>
      refine ⟨hsound, filterMap_snoc_none hsubmitted rfl, ?_, filterMap_snoc_none hbegun rfl,
        filterMap_snoc_none hfinished rfl, filterMap_snoc_none hdiscarded rfl⟩
      refine (filterMap_snoc_some hleft rfl).trans ?_
      rw [List.take_add_one, hfirst]
      rfl
  | begin i job k hhand hjob =>
      exact ⟨hsound, filterMap_snoc_none hsubmitted rfl, filterMap_snoc_none hleft rfl,
        (filterMap_snoc_some hbegun rfl).trans (named_snoc hjob).symm,
        filterMap_snoc_none hfinished rfl, filterMap_snoc_none hdiscarded rfl⟩
  | finish i job k hhand hjob =>
      exact ⟨hsound, filterMap_snoc_none hsubmitted rfl, filterMap_snoc_none hleft rfl,
        filterMap_snoc_none hbegun rfl,
        (filterMap_snoc_some hfinished rfl).trans (named_snoc hjob).symm,
        filterMap_snoc_none hdiscarded rfl⟩
  | discard job hfirst =>
      refine ⟨hsound, filterMap_snoc_none hsubmitted rfl, ?_, filterMap_snoc_none hbegun rfl,
        filterMap_snoc_none hfinished rfl,
        (filterMap_snoc_some hdiscarded rfl).trans (named_snoc hfirst).symm⟩
      refine (filterMap_snoc_some hleft rfl).trans ?_
      rw [List.take_add_one, hfirst]
      rfl
  | callWait | returnWait =>
      exact ⟨hsound, filterMap_snoc_none hsubmitted rfl, filterMap_snoc_none hleft rfl,
        filterMap_snoc_none hbegun rfl, filterMap_snoc_none hfinished rfl,
        filterMap_snoc_none hdiscarded rfl⟩

theorem recorded (h : Explains Step (empty : JobPool ι κ J) es r) : Recorded es r :=
  h.invariant recorded_empty fun _ _ _ _ hr hs => hr.step hs

/-! ## §4. What a caller wants to know. -/

/-- **First come, first taken.** -/
theorem fifo (h : Explains Step (empty : JobPool ι κ J) es r) :
    es.filterMap JobEvent.left <+: es.filterMap JobEvent.submitted := by
  have hrec := recorded h
  rw [hrec.left, hrec.submitted]
  exact List.take_prefix _ _

theorem named_append_numbers (jobs : List J) (ks ks' : List ℕ) :
    named jobs (ks ++ ks') = named jobs ks ++ named jobs ks' := List.filterMap_append ..

/-- **No job is begun twice**, and none that was not taken. -/
theorem begun_subperm (h : Explains Step (empty : JobPool ι κ J) es r) :
    (es.filterMap JobEvent.begun).Subperm (es.filterMap JobEvent.left) := by
  have hrec := recorded h
  rw [hrec.begun, hrec.left, ← named_range]
  refine named_subperm hrec.sound.begun_nodup fun k hk => ?_
  exact List.mem_range.mpr (hrec.sound.lt_of_begun hk)

/-- **When nothing is queued or in hand, every job has been run once or discarded once.** -/
theorem all_over (h : Explains Step (empty : JobPool ι κ J) es r)
    (hidle : ∀ i, r.hand i = .idle) (hqueue : r.next = r.submitted.length) :
    (es.filterMap JobEvent.finished ++ es.filterMap JobEvent.discarded).Perm
        (es.filterMap JobEvent.submitted)
      ∧ (es.filterMap JobEvent.begun).Perm (es.filterMap JobEvent.finished) := by
  have hrec := recorded h
  have hsound := hrec.sound
  have hnobody : ∀ i k, (r.hand i).job ≠ some k := fun i k hk => by
    rw [hidle i] at hk
    cases hk
  have hfin := (List.nodup_append.mp hsound.once).1
  constructor
  · rw [hrec.finished, hrec.discarded, hrec.submitted, ← named_append_numbers]
    -- with all hands empty, what is taken is over: the numbers below `next`
    have hall : (r.finished ++ r.discarded).Perm (List.range r.next) := by
      refine (List.perm_ext_iff_of_nodup hsound.once List.nodup_range).mpr fun k => ?_
      have hlive := hsound.custody.live_iff k
      rw [decide_eq_true_eq] at hlive
      rw [List.mem_range, hlive]
      constructor
      · exact .inl
      · rintro (hk | ⟨i, hi⟩)
        · exact hk
        · exact absurd hi (hnobody i k)
    have hnamed : named r.submitted (List.range r.next) = r.submitted := by
      rw [named_range, hqueue, List.take_length]
    exact (hall.filterMap _).trans (List.Perm.of_eq hnamed)
  · rw [hrec.begun, hrec.finished]
    refine List.Perm.filterMap _ ?_
    refine (List.perm_ext_iff_of_nodup hsound.begun_nodup hfin).mpr fun k => ?_
    rw [hsound.begun_iff]
    constructor
    · rintro (hk | ⟨i, hi⟩)
      · exact hk
      · exact absurd (congrArg Hand.job hi) (hnobody i k)
    · exact .inl

/-- A call of `thpool_wait` under way knows how many jobs were submitted before it. -/
theorem waiting_eq (h : Explains Step (empty : JobPool ι κ J) es r) {c : κ}
    {before after : List (JobEvent ι κ J)} (hes : es = before ++ .callWait c :: after)
    (hnot : .returnWait c ∉ after) :
    r.waiting c = some (before.filterMap JobEvent.submitted).length := by
  -- by induction on the run, from its end
  induction h generalizing after with
  | nil => exact absurd hes (by simp)
  | @snoc es r r' e hr hs ih =>
      rcases List.eq_nil_or_concat after with rfl | ⟨after, e', rfl⟩
      · obtain ⟨rfl, he⟩ := List.append_inj' hes rfl
        cases he
        cases hs with
        | callWait _ hfree =>
            rw [(recorded hr).submitted]
            exact Function.update_self ..
      · rw [List.concat_eq_append] at hes hnot
        have hsplit : es ++ [e] = (before ++ .callWait c :: after) ++ [e'] := by
          rw [hes]
          simp
        obtain ⟨rfl, he⟩ := List.append_inj' hsplit rfl
        cases he
        rw [List.mem_append, not_or, List.mem_singleton] at hnot
        have hold := ih rfl hnot.1
        cases hs with
        | callWait c' hfree =>
            have hne : c ≠ c' := by
              rintro rfl
              rw [hfree] at hold
              cases hold
            exact (Function.update_of_ne hne ..).trans hold
        | returnWait c' m hcall hover =>
            have hne : c ≠ c' := by
              rintro rfl
              exact hnot.2 rfl
            exact (Function.update_of_ne hne ..).trans hold
        | _ => exact hold

/-- **When a call of `thpool_wait` returns, every job submitted before the call is over.** -/
theorem waited (h : Explains Step (empty : JobPool ι κ J) es r) {c : κ}
    {before after : List (JobEvent ι κ J)}
    (hes : es = before ++ .callWait c :: (after ++ [.returnWait c]))
    (hnot : .returnWait c ∉ after) :
    (before.filterMap JobEvent.submitted).Subperm
      (es.filterMap JobEvent.finished ++ es.filterMap JobEvent.discarded) := by
  have hsplit : es = (before ++ .callWait c :: after) ++ [.returnWait c] := by
    rw [hes]
    simp
  have hrec := recorded h
  rw [hsplit] at h
  obtain ⟨r₁, hr, hs⟩ := explains_snoc_iff.mp h
  have hwaiting := waiting_eq hr rfl hnot
  cases hs with
  | returnWait _ m hcall hover =>
      obtain rfl : m = (before.filterMap JobEvent.submitted).length := by
        rw [hwaiting] at hcall
        exact (Option.some.inj hcall).symm
      -- the jobs submitted before the call are the first `m`
      have hfirst : before.filterMap JobEvent.submitted
          = named r₁.submitted (List.range (before.filterMap JobEvent.submitted).length) := by
        rw [named_range, ← (recorded hr).submitted, List.filterMap_append, List.take_left]
      rw [hrec.finished, hrec.discarded, ← named_append_numbers]
      refine hfirst ▸ named_subperm List.nodup_range fun k hk => ?_
      exact List.mem_append.mpr (hover k (List.mem_range.mp hk))

end Runs

end JobPool

end SensorServer.Pool
