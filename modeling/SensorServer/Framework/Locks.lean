/-
  SensorServer.Framework.Locks — mutexes that are taken and given up in pairs.

  `Disciplined` is a check of the program text: `holds p m` says at which program points `m` is
  held, and every instruction agrees with it.  From it follows that a mutex has at every time
  the owner the program points say (`Locked`), so that no two threads are in critical sections
  of one mutex.

  `Parked` says where a thread stands that sleeps, or has been woken, or is not born.

  `Ranked` is the other check: mutexes are taken in the order of their ranks, and nobody sleeps
  with a mutex.  From it follows that a mutex is never held by threads that all wait for each
  other (`exists_enabled`).
-/
import Mathlib.Algebra.Order.BigOperators.Group.Finset
import SensorServer.Framework.Pthread

namespace SensorServer.Framework.Pthread

variable {τ π σ α μ χ : Type}

/-! ## §1. The discipline. -/

/-- Going on from `p` to `next` takes and gives up what `holds` says. -/
def Respects (holds : π → μ → Prop) (p : π) : Doing μ χ → π → Prop
  | .lock m, next => ¬ holds p m ∧ ∀ m', holds next m' ↔ m' = m ∨ holds p m'
  | .unlock m, next => holds p m ∧ ∀ m', holds next m' ↔ m' ≠ m ∧ holds p m'
  -- a thread sleeps only with the one mutex it gives up
  | .wait _ m, next => ∀ m', (holds p m' ↔ m' = m) ∧ (holds next m' ↔ m' = m)
  | _, next => ∀ m', holds next m' ↔ holds p m'

/-- The program takes and gives up its mutexes as `holds` says. -/
structure Disciplined (code : τ → π → Instr τ π σ α μ χ) (holds : π → μ → Prop) : Prop where
  goes : ∀ t p k next, (code t p).Goes k next → Respects holds p k next
  access : ∀ t p f a d d' next, code t p = .access f → f a d = some (d', next) →
    ∀ m', holds next m' ↔ holds p m'

/-- Every mutex is owned by the thread that is in a critical section of it. -/
structure Locked (holds : π → μ → Prop) (s : State τ π σ μ χ) : Prop where
  owner : ∀ m t, s.owner m = some t ↔ (s.thread t).mode = .running ∧ holds (s.pcs t) m
  asleep : ∀ t c m, (s.thread t).mode = .asleep c m → ∀ m', holds (s.pcs t) m' ↔ m' = m
  woken : ∀ t m, (s.thread t).mode = .woken m → ∀ m', holds (s.pcs t) m' ↔ m' = m
  unborn : ∀ t, (s.thread t).mode = .unborn → ∀ m, ¬ holds (s.pcs t) m

namespace Locked

variable {code : τ → π → Instr τ π σ α μ χ} {holds : π → μ → Prop} {s s' : State τ π σ μ χ}

/-- **Mutual exclusion.** -/
theorem exclusive (h : Locked holds s) {t u : τ} {m : μ} (ht : (s.thread t).mode = .running)
    (htm : holds (s.pcs t) m) (hu : (s.thread u).mode = .running) (hum : holds (s.pcs u) m) :
    t = u := by
  have htown := (h.owner m t).mpr ⟨ht, htm⟩
  have huown := (h.owner m u).mpr ⟨hu, hum⟩
  rw [htown] at huown
  exact Option.some.inj huown

section Threads

variable [DecidableEq τ]

/-- A thread changes, and one mutex goes to it or from it. -/
theorem put (h : Locked holds s) {t : τ} {x : Thread π μ χ} {o : μ → Option τ}
    (hother : ∀ m u, u ≠ t → (o m = some u ↔ s.owner m = some u))
    (hself : ∀ m, o m = some t ↔ x.mode = .running ∧ holds x.pc m)
    (hasleep : ∀ c m, x.mode = .asleep c m → ∀ m', holds x.pc m' ↔ m' = m)
    (hwoken : ∀ m, x.mode = .woken m → ∀ m', holds x.pc m' ↔ m' = m)
    (hborn : x.mode ≠ .unborn) : Locked holds { s.put t x with owner := o } := by
  have hpcs : State.pcs { s.put t x with owner := o } = Function.update s.pcs t x.pc :=
    put_pcs s t x
  have hthread : ({ s.put t x with owner := o } : State τ π σ μ χ).thread
      = Function.update s.thread t x := rfl
  -- of `t` the four parts are what is given, of every other thread what held before
  constructor
  · intro m u
    rw [hpcs, hthread]
    by_cases hu : u = t
    · subst hu
      rw [Function.update_self, Function.update_self]
      exact hself m
    · rw [Function.update_of_ne hu, Function.update_of_ne hu]
      exact (hother m u hu).trans (h.owner m u)
  · intro u c m hmode
    rw [hthread] at hmode
    rw [hpcs]
    by_cases hu : u = t
    · subst hu
      rw [Function.update_self] at hmode ⊢
      exact hasleep c m hmode
    · rw [Function.update_of_ne hu] at hmode ⊢
      exact h.asleep u c m hmode
  · intro u m hmode
    rw [hthread] at hmode
    rw [hpcs]
    by_cases hu : u = t
    · subst hu
      rw [Function.update_self] at hmode ⊢
      exact hwoken m hmode
    · rw [Function.update_of_ne hu] at hmode ⊢
      exact h.woken u m hmode
  · intro u hmode
    rw [hthread] at hmode
    rw [hpcs]
    by_cases hu : u = t
    · subst hu
      rw [Function.update_self] at hmode
      exact absurd hmode hborn
    · rw [Function.update_of_ne hu] at hmode ⊢
      exact h.unborn u hmode

/-- A running thread goes on without touching a mutex. -/
theorem pass (h : Locked holds s) {t : τ} {next : π} (hrun : (s.thread t).mode = .running)
    (hnext : ∀ m, holds next m ↔ holds (s.pcs t) m) : Locked holds (s.goto t next) := by
  refine h.put (fun m u _ => Iff.rfl) (fun m => ?_) nofun nofun nofun
  show s.owner m = some t ↔ Mode.running = Mode.running ∧ holds next m
  rw [h.owner m t, hnext]
  simp [hrun]

/-- A thread that holds nothing while it runs begins to run. -/
theorem born (h : Locked holds s) {u : τ} (hunborn : (s.thread u).mode = .unborn) :
    Locked holds (s.put u ⟨s.pcs u, .running⟩) := by
  refine h.put (fun m u _ => Iff.rfl) (fun m => ?_) nofun nofun nofun
  have hnot := h.unborn u hunborn m
  show s.owner m = some u ↔ Mode.running = Mode.running ∧ holds (s.pcs u) m
  rw [h.owner m u, hunborn]
  simp [hnot]

/-- A sleeper is woken. -/
theorem wake (h : Locked holds s) {u : τ} {c : χ} {m : μ}
    (hasleep : (s.thread u).mode = .asleep c m) : Locked holds (s.wake u m) := by
  refine h.put (fun m u _ => Iff.rfl) (fun m' => ?_) nofun ?_ nofun
  · show s.owner m' = some u ↔ Mode.woken m = Mode.running ∧ _
    rw [h.owner m' u, hasleep]
    simp
  · rintro m' hmode
    cases hmode
    exact h.asleep u c m hasleep

end Threads

theorem wakeAll [DecidableEq χ] (h : Locked holds s) (c : χ) : Locked holds (s.wakeAll c) := by
  -- a woken thread keeps its program point, and holds no mutex before or after
  constructor
  · intro m t
    rw [wakeAll_pcs, wakeAll_owner, h.owner m t]
    rcases wakeAll_cases s t c with ⟨m', hmode, ht⟩ | ⟨-, ht⟩
    · rw [ht, hmode]
      simp
    · rw [ht]
  · intro t c' m hmode
    rw [wakeAll_pcs]
    rcases wakeAll_cases s t c with ⟨m', -, ht⟩ | ⟨-, ht⟩
    · rw [ht] at hmode
      cases hmode
    · rw [ht] at hmode
      exact h.asleep t c' m hmode
  · intro t m hmode
    rw [wakeAll_pcs]
    rcases wakeAll_cases s t c with ⟨m', hasleep, ht⟩ | ⟨-, ht⟩
    · rw [ht] at hmode
      cases hmode
      exact h.asleep t c m hasleep
    · rw [ht] at hmode
      exact h.woken t m hmode
  · intro t hmode
    rw [wakeAll_pcs]
    rcases wakeAll_cases s t c with ⟨m', -, ht⟩ | ⟨-, ht⟩
    · rw [ht] at hmode
      cases hmode
    · rw [ht] at hmode
      exact h.unborn t hmode

/-- The owners of the other mutexes stay, and so do the other owners of this one. -/
theorem own_other [DecidableEq μ] {m m' : μ} {t u : τ} {o : Option τ} (hu : u ≠ t)
    (hold : s.owner m = none ∨ s.owner m = some t) (hnew : o = none ∨ o = some t) :
    Function.update s.owner m o m' = some u ↔ s.owner m' = some u := by
  by_cases hm : m' = m
  · subst hm
    rw [Function.update_self]
    have hne : some t ≠ some u := fun h => hu (Option.some.inj h).symm
    rcases hold with hold | hold <;> rcases hnew with hnew | hnew <;>
      simp [hold, hnew, hne]
  · rw [Function.update_of_ne hm]

section Steps

variable [DecidableEq τ] [DecidableEq μ] [DecidableEq χ] [Fintype τ]

/-- **Every step keeps the owners right.** -/
theorem step (hd : Disciplined code holds) (h : Locked holds s) {l : Move τ α}
    (hs : s.step code l = some s') : Locked holds s' := by
  cases trans_of_step hs with
  | lock t a m next hrun hcode hfree =>
      -- the mutex was free, so nobody loses it
      obtain ⟨hnot, hnext⟩ := hd.goes t (s.pcs t) (.lock m) next (hcode ▸ .lock)
      refine h.put (fun m' u hu => own_other hu (.inl hfree) (.inr rfl)) (fun m' => ?_)
        nofun nofun nofun
      rw [hnext m', goto_owner]
      by_cases hm : m' = m
      · simp [hm]
      · rw [Function.update_of_ne hm, h.owner m' t]
        simp [hrun, hm]
  | unlock t a m next hrun hcode =>
      obtain ⟨hheld, hnext⟩ := hd.goes t (s.pcs t) (.unlock m) next (hcode ▸ .unlock)
      have hown := (h.owner m t).mpr ⟨hrun, hheld⟩
      refine h.put (fun m' u hu => own_other hu (.inr hown) (.inl rfl)) (fun m' => ?_)
        nofun nofun nofun
      rw [hnext m', goto_owner]
      by_cases hm : m' = m
      · simp [hm]
      · rw [Function.update_of_ne hm, h.owner m' t]
        simp [hrun, hm]
  | sleep t a c m next hrun hcode =>
      -- the mutex goes free, and is remembered for the way back
      have hw := hd.goes t (s.pcs t) (.wait c m) next (hcode ▸ .wait)
      have hown := (h.owner m t).mpr ⟨hrun, ((hw m).1).mpr rfl⟩
      refine h.put (fun m' u hu => own_other hu (.inr hown) (.inl rfl)) (fun m' => ?_) ?_
        nofun nofun
      · rw [put_owner]
        by_cases hm : m' = m
        · simp [hm]
        · rw [Function.update_of_ne hm, h.owner m' t, (hw m').1]
          simp [hm]
      · rintro c' m' hmode
        cases hmode
        exact fun m'' => (hw m'').2
  | signalNobody t a c next hrun hcode hnobody =>
      exact h.pass hrun (hd.goes t (s.pcs t) (.signal c) next (hcode ▸ .signal))
  | signal t u c m next hrun hcode hasleep =>
      -- two changes: the sleeper is woken, and then the thread goes on
      refine (h.wake hasleep).pass ?_ ?_
      · have hne : t ≠ u := by
          rintro rfl
          rw [hrun] at hasleep
          cases hasleep
        rw [wake_thread, Function.update_of_ne hne]
        exact hrun
      · rw [wake_pcs]
        exact hd.goes t (s.pcs t) (.signal c) next (hcode ▸ .signal)
  | broadcast t a c next hrun hcode =>
      refine (h.wakeAll c).pass ?_ ?_
      · rcases wakeAll_cases s t c with ⟨m, hasleep, -⟩ | ⟨-, ht⟩
        · rw [hrun] at hasleep
          cases hasleep
        · rw [ht]
          exact hrun
      · rw [wakeAll_pcs]
        exact hd.goes t (s.pcs t) (.broadcast c) next (hcode ▸ .broadcast)
  | create t a u next hrun hcode hunborn =>
      refine (h.born hunborn).pass ?_ ?_
      · have hne : t ≠ u := by
          rintro rfl
          rw [hrun] at hunborn
          cases hunborn
        rw [put_thread, Function.update_of_ne hne]
        exact hrun
      · rw [put_pcs, Function.update_eq_self]
        exact hd.goes t (s.pcs t) .create next (hcode ▸ .create)
  | access t a f d next hrun hcode hf =>
      have hpass := h.pass hrun (hd.access t _ f a _ d next hcode hf)
      exact ⟨hpass.owner, hpass.asleep, hpass.woken, hpass.unborn⟩
  | wake u c m hasleep => exact h.wake hasleep
  | relock t m hwoken hfree =>
      -- the only way back from a wait: the thread owns again what it slept with
      have hholds := h.woken t m hwoken
      refine h.put (fun m' u hu => own_other hu (.inl hfree) (.inr rfl)) (fun m' => ?_)
        nofun nofun nofun
      show Function.update s.owner m (some t) m' = some t ↔ _ ∧ holds (s.pcs t) m'
      rw [hholds m']
      by_cases hm : m' = m
      · simp [hm]
      · rw [Function.update_of_ne hm, h.owner m' t, hwoken]
        simp [hm]

/-- Every reached state has its mutexes right. -/
theorem reach (hd : Disciplined code holds) {ok : State τ π σ μ χ → Move τ α → Prop}
    {s₀ : State τ π σ μ χ} (hinit : Locked holds s₀) (h : Reach (State.step code) ok s₀ s) :
    Locked holds s :=
  h.invariant hinit fun _ _ _ _ hlocked _ hs => hlocked.step hd hs

end Steps

end Locked

/-! ## §2. Sleepers. -/

/-- Who sleeps or has been woken stands behind the wait it executed, and who is not born stands
where it did at the start. -/
structure Parked (code : τ → π → Instr τ π σ α μ χ) (s₀ s : State τ π σ μ χ) : Prop where
  asleep : ∀ t c m, (s.thread t).mode = .asleep c m → ∃ p, (code t p).Goes (.wait c m) (s.pcs t)
  woken : ∀ t m, (s.thread t).mode = .woken m → ∃ c p, (code t p).Goes (.wait c m) (s.pcs t)
  unborn : ∀ t, (s.thread t).mode = .unborn → s.thread t = s₀.thread t

namespace Parked

variable {code : τ → π → Instr τ π σ α μ χ} {s₀ s s' : State τ π σ μ χ}

/-- At the start nobody sleeps. -/
theorem start (h : ∀ t, (s₀.thread t).mode = .unborn ∨ (s₀.thread t).mode = .running) :
    Parked code s₀ s₀ where
  asleep t c m hmode := by
    rcases h t with ht | ht <;> rw [ht] at hmode <;> cases hmode
  woken t m hmode := by
    rcases h t with ht | ht <;> rw [ht] at hmode <;> cases hmode
  unborn _ _ := rfl

/-- What is kept of one thread. -/
def Thread (code : τ → π → Instr τ π σ α μ χ) (s₀ : State τ π σ μ χ) (t : τ)
    (x : Pthread.Thread π μ χ) : Prop :=
  match x.mode with
  | .asleep c m => ∃ p, (code t p).Goes (.wait c m) x.pc
  | .woken m => ∃ c p, (code t p).Goes (.wait c m) x.pc
  | .unborn => x = s₀.thread t
  | .running => True

theorem iff_thread : Parked code s₀ s ↔ ∀ t, Thread code s₀ t (s.thread t) := by
  constructor
  · intro h t
    unfold Thread
    cases hmode : (s.thread t).mode with
    | asleep c m => exact h.asleep t c m hmode
    | woken m => exact h.woken t m hmode
    | unborn => exact h.unborn t hmode
    | running => trivial
  · intro h
    refine ⟨fun t c m hmode => ?_, fun t m hmode => ?_, fun t hmode => ?_⟩ <;>
      · have ht := h t
        unfold Thread at ht
        rw [hmode] at ht
        exact ht

/-- One thread changes. -/
theorem update [DecidableEq τ] {thread : τ → Pthread.Thread π μ χ}
    (h : ∀ t, Thread code s₀ t (thread t)) {t : τ} {x : Pthread.Thread π μ χ}
    (hx : Thread code s₀ t x) : ∀ u, Thread code s₀ u (Function.update thread t x u) :=
  (Function.forall_update_iff _ fun u x => Thread code s₀ u x).mpr ⟨hx, fun u _ => h u⟩

/-- Who sleeps may be woken. -/
theorem Thread.wake {t : τ} {x : Pthread.Thread π μ χ} (h : Thread code s₀ t x) {c : χ} {m : μ}
    (hmode : x.mode = .asleep c m) : Thread code s₀ t ⟨x.pc, .woken m⟩ := by
  unfold Thread at h
  rw [hmode] at h
  exact ⟨c, h⟩

variable [DecidableEq τ] [DecidableEq μ] [DecidableEq χ] [Fintype τ]

theorem step (h : Parked code s₀ s) {l : Move τ α} (hs : s.step code l = some s') :
    Parked code s₀ s' := by
  rw [iff_thread] at h ⊢
  cases trans_of_step hs with
  | lock t a m next hrun hcode hfree => exact update h trivial
  | unlock t a m next hrun hcode => exact update h trivial
  | sleep t a c m next hrun hcode => exact update h ⟨s.pcs t, hcode ▸ .wait⟩
  | signalNobody t a c next hrun hcode hnobody => exact update h trivial
  | signal t u c m next hrun hcode hasleep => exact update (update h ((h u).wake hasleep)) trivial
  | broadcast t a c next hrun hcode =>
      refine update (fun u => ?_) trivial
      rcases wakeAll_cases s u c with ⟨m, hasleep, hu⟩ | ⟨-, hu⟩
      · rw [hu]
        exact (h u).wake hasleep
      · rw [hu]
        exact h u
  | create t a u next hrun hcode hunborn =>
      have hborn : ∀ v, Thread code s₀ v ((s.put u ⟨s.pcs u, .running⟩).thread v) :=
        update h trivial
      exact update hborn trivial
  | access t a f d next hrun hcode hf => exact update h trivial
  | wake u c m hasleep => exact update h ((h u).wake hasleep)
  | relock t m hwoken hfree => exact update h trivial

theorem reach {ok : State τ π σ μ χ → Move τ α → Prop} (hinit : Parked code s₀ s₀)
    (h : Reach (State.step code) ok s₀ s) : Parked code s₀ s :=
  h.invariant hinit fun _ _ _ _ hparked _ hs => hparked.step hs

end Parked

/-! ## §3. Progress. -/

section Progress

/-- Mutexes are taken in the order of their ranks, and a thread that holds one is not kept from
going on by anything but another mutex. -/
structure Ranked (code : τ → π → Instr τ π σ α μ χ) (holds : π → μ → Prop) (rank : μ → ℕ) :
    Prop where
  lock : ∀ t p m next, (code t p).Goes (.lock m) next → ∀ m', holds p m' → rank m' < rank m
  access : ∀ t p f m, code t p = .access f → holds p m → ∀ d, ∃ a, f a d ≠ none
  create : ∀ t p next m, (code t p).Goes .create next → ¬ holds p m
  exit : ∀ t p m, code t p = .exit → ¬ holds p m

variable [DecidableEq τ] [DecidableEq μ] [DecidableEq χ] [Fintype τ]

/-- Some step of `t` is possible, other than waking up unasked. -/
def Enabled (code : τ → π → Instr τ π σ α μ χ) (s : State τ π σ μ χ) (t : τ) : Prop :=
  (∃ a, s.step code (.go t a) ≠ none) ∨ (∃ u, s.step code (.signal t u) ≠ none)
    ∨ s.step code (.relock t) ≠ none

variable {code : τ → π → Instr τ π σ α μ χ} {holds : π → μ → Prop} {rank : μ → ℕ}
  {s : State τ π σ μ χ}

/-- A signal is always possible: it wakes a sleeper, or there is none. -/
theorem enabled_signal [Inhabited α] {t : τ} {c : χ} {next : π}
    (hrun : (s.thread t).mode = .running) (hcode : code t (s.pcs t) = .signal c next) :
    Enabled code s t := by
  by_cases hnobody : ∀ u, ¬ (s.thread u).mode.SleepsOn c
  · refine .inl ⟨default, ?_⟩
    rw [State.step, if_pos hrun, State.go, hcode]
    simp [hnobody]
  · simp only [not_forall, not_not] at hnobody
    obtain ⟨u, hu⟩ := hnobody
    refine .inr (.inl ⟨u, ?_⟩)
    cases hmode : (s.thread u).mode with
    | asleep c' m =>
        rw [hmode] at hu
        obtain rfl : c' = c := hu
        rw [State.step, hrun, hcode, hmode]
        simp
    | _ =>
        rw [hmode] at hu
        exact absurd hu id

/-- Who sleeps has no step. -/
theorem not_enabled_of_asleep {t : τ} {c : χ} {m : μ} (h : (s.thread t).mode = .asleep c m) :
    ¬ Enabled code s t := by
  rintro (⟨a, ha⟩ | ⟨u, hu⟩ | hr)
  · refine ha ?_
    rw [State.step, h, if_neg fun heq => by cases heq]
  · refine hu ?_
    rw [State.step, h]
  · refine hr ?_
    rw [State.step, h]

/-- A running thread without a step waits for a mutex that is held, for a choice of its access,
or for a thread to be born, or it has ended. -/
theorem enabled_of_running (code : τ → π → Instr τ π σ α μ χ) [Inhabited α] {t : τ}
    (hrun : (s.thread t).mode = .running) :
    Enabled code s t ∨ (∃ m next u, code t (s.pcs t) = .lock m next ∧ s.owner m = some u)
      ∨ (∃ f, code t (s.pcs t) = .access f ∧ ∀ a, f a s.data = none)
      ∨ (∃ u next, code t (s.pcs t) = .create u next ∧ (s.thread u).mode ≠ .unborn)
      ∨ code t (s.pcs t) = .exit := by
  have hgo : ∀ a, s.step code (.go t a) = s.go code t a := fun a => by
    rw [State.step, if_pos hrun]
  -- only a lock, a birth and an access can refuse to go on
  cases hcode : code t (s.pcs t) with
  | lock m next =>
      cases hown : s.owner m with
      | none =>
          refine .inl (.inl ⟨default, ?_⟩)
          rw [hgo, State.go, hcode]
          simp [hown]
      | some u => exact .inr (.inl ⟨m, next, u, rfl, hown⟩)
  | unlock m next =>
      refine .inl (.inl ⟨default, ?_⟩)
      rw [hgo, State.go, hcode]
      simp
  | wait c m next =>
      refine .inl (.inl ⟨default, ?_⟩)
      rw [hgo, State.go, hcode]
      simp
  | signal c next => exact .inl (enabled_signal hrun hcode)
  | broadcast c next =>
      refine .inl (.inl ⟨default, ?_⟩)
      rw [hgo, State.go, hcode]
      simp
  | create u next =>
      by_cases hunborn : (s.thread u).mode = .unborn
      · refine .inl (.inl ⟨default, ?_⟩)
        rw [hgo, State.go, hcode]
        simp [hunborn]
      · exact .inr (.inr (.inr (.inl ⟨u, next, rfl, hunborn⟩)))
  | access f =>
      by_cases hchoice : ∃ a, f a s.data ≠ none
      · obtain ⟨a, ha⟩ := hchoice
        refine .inl (.inl ⟨a, ?_⟩)
        rw [hgo, State.go, hcode]
        simpa using ha
      · exact .inr (.inr (.inl ⟨f, rfl, by simpa using hchoice⟩))
  | exit => exact .inr (.inr (.inr (.inr rfl)))

/-- **No deadlock over mutexes.**  If a mutex is held, some thread that holds one can go on. -/
theorem exists_enabled [Inhabited α] [Fintype μ] (hr : Ranked code holds rank)
    (h : Locked holds s) {m : μ} {t : τ} (hown : s.owner m = some t) :
    ∃ u m', s.owner m' = some u ∧ Enabled code s u := by
  -- the induction is on how far `rank m` is below the highest rank
  obtain ⟨B, hB⟩ : ∃ B, ∀ m', rank m' ≤ B :=
    ⟨∑ m', rank m', fun m' => Finset.single_le_sum (fun _ _ => Nat.zero_le _)
      (Finset.mem_univ m')⟩
  induction hn : B - rank m using Nat.strong_induction_on generalizing m t with
  | _ n ih =>
      obtain ⟨hrun, hholds⟩ := (h.owner m t).mp hown
      rcases enabled_of_running code hrun with
        hen | ⟨m', next, u, hcode, hown'⟩ | ⟨f, hcode, hnone⟩ | ⟨u, next, hcode, -⟩ | hcode
      · exact ⟨t, m, hown, hen⟩
      · have hlt := hr.lock t (s.pcs t) m' next (hcode ▸ .lock) m hholds
        have hle := hB m'
        exact ih (B - rank m') (by omega) hown' rfl
      · obtain ⟨a, ha⟩ := hr.access t _ f m hcode hholds s.data
        exact absurd (hnone a) ha
      · exact absurd hholds (hr.create t (s.pcs t) next m (hcode ▸ .create))
      · exact absurd hholds (hr.exit t _ m hcode)

/-- **Where nobody with a mutex can go on**, a thread that cannot either is unborn or asleep, or
stands at an access without a choice, before a thread that is born already, or at its end. -/
theorem stuck_cases [Inhabited α] [Fintype μ] (hr : Ranked code holds rank)
    (h : Locked holds s) (hstuck : ∀ t m, s.owner m = some t → ¬ Enabled code s t) {t : τ}
    (ht : ¬ Enabled code s t) :
    (s.thread t).mode = .unborn ∨ (∃ c m, (s.thread t).mode = .asleep c m)
      ∨ (s.thread t).mode = .running
        ∧ ((∃ f, code t (s.pcs t) = .access f ∧ ∀ a, f a s.data = none)
          ∨ (∃ u next, code t (s.pcs t) = .create u next ∧ (s.thread u).mode ≠ .unborn)
          ∨ code t (s.pcs t) = .exit) := by
  -- nobody holds a mutex: the holder of the highest rank could go on
  have hfree : ∀ m, s.owner m = none := by
    intro m
    cases hown : s.owner m with
    | none => rfl
    | some u =>
        obtain ⟨v, m', hv, hen⟩ := exists_enabled hr h hown
        exact absurd hen (hstuck v m' hv)
  cases hmode : (s.thread t).mode with
  | unborn => exact .inl rfl
  | asleep c m => exact .inr (.inl ⟨c, m, rfl⟩)
  | woken m =>
      refine absurd (.inr (.inr ?_)) ht
      rw [State.step, hmode]
      simp [hfree m]
  | running =>
      rcases enabled_of_running code hmode with hen | ⟨m, next, u, -, hown⟩ | hrest
      · exact absurd hen ht
      · rw [hfree m] at hown
        cases hown
      · exact .inr (.inr ⟨rfl, hrest⟩)

end Progress

end SensorServer.Framework.Pthread
