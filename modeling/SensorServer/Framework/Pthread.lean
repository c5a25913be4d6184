/-
  SensorServer.Framework.Pthread — threads that share data under mutexes and condition variables.

  A program gives each thread an instruction for every program point: it locks or unlocks a
  mutex, waits on a condition variable, signals one, creates a thread, or makes one access to
  the shared data.  A state holds the data, the program point and the mode of every thread, and
  the owner of every mutex.  A label of `step` names the thread that moves and every choice
  made in the move; threads move in any order.

  `Trans` lists what a step can do, and `trans_of_step` is the only place where `step` is taken
  apart.  `reach_view` is the rule for invariants of the data and the program points, which
  waking and sleeping leave alone.
-/
import Mathlib.Data.Fintype.BigOperators
import SensorServer.Framework.Simulation

namespace SensorServer.Framework.Pthread

/-! ## §1. Programs and states. -/

/-- One instruction of a thread.  `τ` names threads, `π` program points, `σ` is the shared
data, `α` the choices of an access, `μ` names mutexes and `χ` condition variables. -/
inductive Instr (τ π σ α μ χ : Type) where
  /-- `pthread_mutex_lock`. -/
  | lock (m : μ) (next : π)
  /-- `pthread_mutex_unlock`. -/
  | unlock (m : μ) (next : π)
  /-- `pthread_cond_wait`: gives `m` up, sleeps on `c`, and takes `m` again. -/
  | wait (c : χ) (m : μ) (next : π)
  /-- `pthread_cond_signal`. -/
  | signal (c : χ) (next : π)
  /-- `pthread_cond_broadcast`. -/
  | broadcast (c : χ) (next : π)
  /-- `pthread_create`. -/
  | create (u : τ) (next : π)
  /-- One access to the shared data.  `none` for a choice that is not possible. -/
  | access (f : α → σ → Option (σ × π))
  /-- The thread has ended. -/
  | exit

/-- What an instruction other than an access does. -/
inductive Doing (μ χ : Type) where
  | lock (m : μ)
  | unlock (m : μ)
  | wait (c : χ) (m : μ)
  | signal (c : χ)
  | broadcast (c : χ)
  | create
  deriving Repr, DecidableEq

/-- The instruction does `k` and goes on at `next`. -/
inductive Instr.Goes {τ π σ α μ χ : Type} : Instr τ π σ α μ χ → Doing μ χ → π → Prop where
  | lock {m : μ} {next : π} : Goes (.lock m next) (.lock m) next
  | unlock {m : μ} {next : π} : Goes (.unlock m next) (.unlock m) next
  | wait {c : χ} {m : μ} {next : π} : Goes (.wait c m next) (.wait c m) next
  | signal {c : χ} {next : π} : Goes (.signal c next) (.signal c) next
  | broadcast {c : χ} {next : π} : Goes (.broadcast c next) (.broadcast c) next
  | create {u : τ} {next : π} : Goes (.create u next) .create next

/-- What a thread is doing. -/
inductive Mode (μ χ : Type) where
  | unborn
  | running
  /-- Asleep on `c`, to take `m` when it is woken. -/
  | asleep (c : χ) (m : μ)
  /-- Woken, and about to take `m`. -/
  | woken (m : μ)
  deriving Repr, DecidableEq

/-- The thread sleeps on `c`. -/
def Mode.SleepsOn {μ χ : Type} (c : χ) : Mode μ χ → Prop
  | .asleep c' _ => c' = c
  | _ => False

instance {μ χ : Type} [DecidableEq χ] (c : χ) : DecidablePred (Mode.SleepsOn (μ := μ) c)
  | .asleep c' _ => inferInstanceAs (Decidable (c' = c))
  | .unborn | .running | .woken _ => .isFalse id

/-- A thread: its program point and its mode. -/
structure Thread (π μ χ : Type) where
  pc : π
  mode : Mode μ χ

/-- The threads with what they share. -/
structure State (τ π σ μ χ : Type) where
  data : σ
  thread : τ → Thread π μ χ
  owner : μ → Option τ

/-- One move. -/
inductive Move (τ α : Type) where
  /-- `t` executes its instruction; a `signal` only if nobody sleeps. -/
  | go (t : τ) (a : α)
  /-- `t` signals, and `u` is the sleeper that is woken. -/
  | signal (t u : τ)
  /-- `u` wakes up though nobody has signalled. -/
  | wake (u : τ)
  /-- `t` takes its mutex again after it was woken. -/
  | relock (t : τ)
  deriving Repr, DecidableEq

/-! ## §2. Steps. -/

section Steps

variable {τ π σ α μ χ : Type} [DecidableEq τ] [DecidableEq μ] [DecidableEq χ]

namespace State

variable (s : State τ π σ μ χ)

/-- The program points. -/
def pcs (t : τ) : π := (s.thread t).pc

/-- `t` becomes `x`. -/
def put (t : τ) (x : Thread π μ χ) : State τ π σ μ χ :=
  { s with thread := Function.update s.thread t x }

/-- `t` goes on at `next`. -/
def goto (t : τ) (next : π) : State τ π σ μ χ := s.put t ⟨next, .running⟩

/-- `u` is woken. -/
def wake (u : τ) (m : μ) : State τ π σ μ χ := s.put u ⟨s.pcs u, .woken m⟩

/-- Everybody who sleeps on `c` is woken. -/
def wakeAll (c : χ) : State τ π σ μ χ :=
  { s with
    thread := fun u =>
      match (s.thread u).mode with
      | .asleep c' m => if c' = c then ⟨s.pcs u, .woken m⟩ else s.thread u
      | _ => s.thread u }

/-- The owner of `m` changes. -/
def own (m : μ) (o : Option τ) : State τ π σ μ χ :=
  { s with owner := Function.update s.owner m o }

end State

section Code

variable [Fintype τ] (code : τ → π → Instr τ π σ α μ χ) (s : State τ π σ μ χ)

/-- A running thread executes its instruction. -/
def State.go (t : τ) (a : α) : Option (State τ π σ μ χ) :=
  match code t (s.pcs t) with
  | .lock m next => if s.owner m = none then some ((s.goto t next).own m (some t)) else none
  | .unlock m next => some ((s.goto t next).own m none)
  | .wait c m next => some ((s.put t ⟨next, .asleep c m⟩).own m none)
  | .signal c next =>
      if ∀ u, ¬ (s.thread u).mode.SleepsOn c then some (s.goto t next) else none
  | .broadcast c next => some ((s.wakeAll c).goto t next)
  | .create u next =>
      if (s.thread u).mode = .unborn then some ((s.put u ⟨s.pcs u, .running⟩).goto t next)
      else none
  | .access f => (f a s.data).map fun (d, next) => { s.goto t next with data := d }
  | .exit => none

/-- One step. -/
def State.step : Move τ α → Option (State τ π σ μ χ)
  | .go t a => if (s.thread t).mode = .running then s.go code t a else none
  | .signal t u =>
      match (s.thread t).mode, code t (s.pcs t), (s.thread u).mode with
      | .running, .signal c next, .asleep c' m =>
          if c' = c then some ((s.wake u m).goto t next) else none
      | _, _, _ => none
  | .wake u =>
      match (s.thread u).mode with
      | .asleep _ m => some (s.wake u m)
      | _ => none
  | .relock t =>
      match (s.thread t).mode with
      | .woken m => if s.owner m = none then some ((s.goto t (s.pcs t)).own m (some t)) else none
      | _ => none

end Code

/-! ## §3. Inversion. -/

/-- What a step can do, and the state it leads to. -/
inductive Trans [Fintype τ] (code : τ → π → Instr τ π σ α μ χ) (s : State τ π σ μ χ) :
    Move τ α → State τ π σ μ χ → Prop where
  | lock (t : τ) (a : α) (m : μ) (next : π) (hrun : (s.thread t).mode = .running)
      (hcode : code t (s.pcs t) = .lock m next) (hfree : s.owner m = none) :
      Trans code s (.go t a) ((s.goto t next).own m (some t))
  | unlock (t : τ) (a : α) (m : μ) (next : π) (hrun : (s.thread t).mode = .running)
      (hcode : code t (s.pcs t) = .unlock m next) :
      Trans code s (.go t a) ((s.goto t next).own m none)
  | sleep (t : τ) (a : α) (c : χ) (m : μ) (next : π) (hrun : (s.thread t).mode = .running)
      (hcode : code t (s.pcs t) = .wait c m next) :
      Trans code s (.go t a) ((s.put t ⟨next, .asleep c m⟩).own m none)
  | signalNobody (t : τ) (a : α) (c : χ) (next : π) (hrun : (s.thread t).mode = .running)
      (hcode : code t (s.pcs t) = .signal c next)
      (hnobody : ∀ u, ¬ (s.thread u).mode.SleepsOn c) :
      Trans code s (.go t a) (s.goto t next)
  | signal (t u : τ) (c : χ) (m : μ) (next : π) (hrun : (s.thread t).mode = .running)
      (hcode : code t (s.pcs t) = .signal c next) (hasleep : (s.thread u).mode = .asleep c m) :
      Trans code s (.signal t u) ((s.wake u m).goto t next)
  | broadcast (t : τ) (a : α) (c : χ) (next : π) (hrun : (s.thread t).mode = .running)
      (hcode : code t (s.pcs t) = .broadcast c next) :
      Trans code s (.go t a) ((s.wakeAll c).goto t next)
  | create (t : τ) (a : α) (u : τ) (next : π) (hrun : (s.thread t).mode = .running)
      (hcode : code t (s.pcs t) = .create u next) (hunborn : (s.thread u).mode = .unborn) :
      Trans code s (.go t a) ((s.put u ⟨s.pcs u, .running⟩).goto t next)
  | access (t : τ) (a : α) (f : α → σ → Option (σ × π)) (d : σ) (next : π)
      (hrun : (s.thread t).mode = .running) (hcode : code t (s.pcs t) = .access f)
      (hf : f a s.data = some (d, next)) :
      Trans code s (.go t a) { s.goto t next with data := d }
  | wake (u : τ) (c : χ) (m : μ) (hasleep : (s.thread u).mode = .asleep c m) :
      Trans code s (.wake u) (s.wake u m)
  | relock (t : τ) (m : μ) (hwoken : (s.thread t).mode = .woken m) (hfree : s.owner m = none) :
      Trans code s (.relock t) ((s.goto t (s.pcs t)).own m (some t))

section Inversion

variable [Fintype τ] {code : τ → π → Instr τ π σ α μ χ} {s s' : State τ π σ μ χ}

theorem trans_of_go {t : τ} {a : α} (hrun : (s.thread t).mode = .running)
    (h : s.go code t a = some s') : Trans code s (.go t a) s' := by
  unfold State.go at h
  cases hcode : code t (s.pcs t) with
  | lock m next =>
      simp only [hcode] at h
      by_cases hfree : s.owner m = none
      · rw [if_pos hfree] at h
        cases h
        exact .lock t a m next hrun hcode hfree
      · rw [if_neg hfree] at h
        cases h
  | unlock m next =>
      simp only [hcode] at h
      cases h
      exact .unlock t a m next hrun hcode
  | wait c m next =>
      simp only [hcode] at h
      cases h
      exact .sleep t a c m next hrun hcode
  | signal c next =>
      simp only [hcode] at h
      -- with a sleeper there, the signal names whom it wakes and is another move
      by_cases hnobody : ∀ u, ¬ (s.thread u).mode.SleepsOn c
      · rw [if_pos hnobody] at h
        cases h
        exact .signalNobody t a c next hrun hcode hnobody
      · rw [if_neg hnobody] at h
        cases h
  | broadcast c next =>
      simp only [hcode] at h
      cases h
      exact .broadcast t a c next hrun hcode
  | create u next =>
      simp only [hcode] at h
      by_cases hunborn : (s.thread u).mode = .unborn
      · rw [if_pos hunborn] at h
        cases h
        exact .create t a u next hrun hcode hunborn
      · rw [if_neg hunborn] at h
        cases h
  | access f =>
      simp only [hcode] at h
      obtain ⟨⟨d, next⟩, hf, rfl⟩ := Option.map_eq_some_iff.mp h
      exact .access t a f d next hrun hcode hf
  | exit =>
      simp only [hcode] at h
      cases h

/-- **Inversion of a step.** -/
theorem trans_of_step {l : Move τ α} (h : s.step code l = some s') : Trans code s l s' := by
  cases l with
  | go t a =>
      rw [State.step] at h
      by_cases hrun : (s.thread t).mode = .running
      · rw [if_pos hrun] at h
        exact trans_of_go hrun h
      · rw [if_neg hrun] at h
        cases h
  | signal t u =>
      rw [State.step] at h
      -- the sleeper must sleep on the very variable that is signalled
      split at h
      · rename_i c next c' m hrun hcode hasleep
        by_cases hc : c' = c
        · rw [if_pos hc] at h
          cases h
          exact .signal t u c m next hrun hcode (hc ▸ hasleep)
        · rw [if_neg hc] at h
          cases h
      · cases h
  | wake u =>
      rw [State.step] at h
      split at h
      · rename_i c m hasleep
        cases h
        exact .wake u c m hasleep
      · cases h
  | relock t =>
      rw [State.step] at h
      split at h
      · rename_i m hwoken
        by_cases hfree : s.owner m = none
        · rw [if_pos hfree] at h
          cases h
          exact .relock t m hwoken hfree
        · rw [if_neg hfree] at h
          cases h
      · cases h

end Inversion

end Steps

/-! ## §4. Threads after a step. -/

section After

variable {τ π σ μ χ : Type} (s : State τ π σ μ χ) (t u : τ) (x : Thread π μ χ) (next : π)
  (c : χ) (m : μ) (o : Option τ)

section Threads

variable [DecidableEq τ]

@[simp] theorem put_data : (s.put t x).data = s.data := rfl
@[simp] theorem put_owner : (s.put t x).owner = s.owner := rfl
@[simp] theorem put_thread : (s.put t x).thread = Function.update s.thread t x := rfl
@[simp] theorem goto_data : (s.goto t next).data = s.data := rfl
@[simp] theorem goto_owner : (s.goto t next).owner = s.owner := rfl
@[simp] theorem goto_thread :
    (s.goto t next).thread = Function.update s.thread t ⟨next, .running⟩ := rfl
@[simp] theorem wake_data : (s.wake u m).data = s.data := rfl
@[simp] theorem wake_owner : (s.wake u m).owner = s.owner := rfl
@[simp] theorem wake_thread :
    (s.wake u m).thread = Function.update s.thread u ⟨s.pcs u, .woken m⟩ := rfl

@[simp] theorem put_pcs : (s.put t x).pcs = Function.update s.pcs t x.pc := by
  funext u
  by_cases hu : u = t
  · subst hu
    simp [State.pcs]
  · simp [State.pcs, Function.update_of_ne hu]

@[simp] theorem goto_pcs : (s.goto t next).pcs = Function.update s.pcs t next :=
  put_pcs s t _

@[simp] theorem wake_pcs : (s.wake u m).pcs = s.pcs := by
  unfold State.wake
  rw [put_pcs, Function.update_eq_self]

end Threads

section Owners

variable [DecidableEq μ]

@[simp] theorem own_data : (s.own m o).data = s.data := rfl
@[simp] theorem own_thread : (s.own m o).thread = s.thread := rfl
@[simp] theorem own_pcs : (s.own m o).pcs = s.pcs := rfl
@[simp] theorem own_owner : (s.own m o).owner = Function.update s.owner m o := rfl

end Owners

section Sleepers

variable [DecidableEq χ]

@[simp] theorem wakeAll_data : (s.wakeAll c).data = s.data := rfl
@[simp] theorem wakeAll_owner : (s.wakeAll c).owner = s.owner := rfl

/-- A thread that is woken by a broadcast was asleep; the others are left alone. -/
theorem wakeAll_cases :
    (∃ m, (s.thread u).mode = .asleep c m ∧ (s.wakeAll c).thread u = ⟨s.pcs u, .woken m⟩)
      ∨ (¬ (s.thread u).mode.SleepsOn c ∧ (s.wakeAll c).thread u = s.thread u) := by
  unfold State.wakeAll
  cases hmode : (s.thread u).mode with
  | asleep c' m =>
      by_cases hc : c' = c
      · subst hc
        exact .inl ⟨m, rfl, by simp [hmode]⟩
      · exact .inr ⟨hc, by simp [hmode, hc]⟩
  | _ => exact .inr ⟨id, by simp [hmode]⟩

@[simp] theorem wakeAll_pcs : (s.wakeAll c).pcs = s.pcs := by
  funext u
  show ((s.wakeAll c).thread u).pc = s.pcs u
  rcases wakeAll_cases s u c with ⟨m, -, hu⟩ | ⟨-, hu⟩
  · rw [hu]
  · rw [hu]
    rfl

end Sleepers

end After

/-! ## §5. The data and the program points. -/

section View

variable {τ π σ α μ χ : Type} [DecidableEq τ] [DecidableEq μ] [DecidableEq χ] [Fintype τ]
  {code : τ → π → Instr τ π σ α μ χ}

/-- What a step does to the data and the program points: nothing, or one thread goes on, or one
thread makes an access. -/
inductive Viewed (code : τ → π → Instr τ π σ α μ χ) (s : State τ π σ μ χ) :
    Move τ α → σ → (τ → π) → Prop where
  | same (l : Move τ α) (hl : ∀ t a, l ≠ .go t a) : Viewed code s l s.data s.pcs
  | pass (l : Move τ α) (t : τ) (k : Doing μ χ) (next : π)
      (hgoes : (code t (s.pcs t)).Goes k next) (hl : ∀ u a, l = .go u a → u = t) :
      Viewed code s l s.data (Function.update s.pcs t next)
  | access (t : τ) (a : α) (f : α → σ → Option (σ × π)) (d : σ) (next : π)
      (hcode : code t (s.pcs t) = .access f) (hf : f a s.data = some (d, next)) :
      Viewed code s (.go t a) d (Function.update s.pcs t next)

/-- Waking and sleeping, the mutexes and births are not seen in this view. -/
theorem viewed_of_step {s s' : State τ π σ μ χ} {l : Move τ α} (h : s.step code l = some s') :
    Viewed code s l s'.data s'.pcs := by
  have hgo : ∀ t a u a', (.go t a : Move τ α) = .go u a' → u = t := by
    rintro t a u a' heq
    cases heq
    rfl
  cases trans_of_step h with
  | lock t a m next hrun hcode hfree =>
      rw [own_pcs, goto_pcs]
      exact .pass _ t (.lock m) next (hcode ▸ .lock) (hgo t a)
  | unlock t a m next hrun hcode =>
      rw [own_pcs, goto_pcs]
      exact .pass _ t (.unlock m) next (hcode ▸ .unlock) (hgo t a)
  | sleep t a c m next hrun hcode =>
      rw [own_pcs, put_pcs]
      exact .pass _ t (.wait c m) next (hcode ▸ .wait) (hgo t a)
  | signalNobody t a c next hrun hcode hnobody =>
      rw [goto_pcs]
      exact .pass _ t (.signal c) next (hcode ▸ .signal) (hgo t a)
  | signal t u c m next hrun hcode hasleep =>
      rw [goto_pcs, wake_pcs]
      exact .pass _ t (.signal c) next (hcode ▸ .signal) nofun
  | broadcast t a c next hrun hcode =>
      rw [goto_pcs, wakeAll_pcs]
      exact .pass _ t (.broadcast c) next (hcode ▸ .broadcast) (hgo t a)
  | create t a u next hrun hcode hunborn =>
      -- the thread that is born stays where it begins
      rw [goto_pcs, put_pcs, Function.update_eq_self]
      exact .pass _ t .create next (hcode ▸ .create) (hgo t a)
  | access t a f d next hrun hcode hf =>
      have hpcs : State.pcs { s.goto t next with data := d } = Function.update s.pcs t next :=
        goto_pcs s t next
      rw [hpcs]
      exact .access t a f d next hcode hf
  | wake u c m hasleep =>
      rw [wake_pcs]
      exact .same _ nofun
  | relock t m hwoken hfree =>
      rw [own_pcs, goto_pcs, Function.update_eq_self]
      exact .same _ nofun

variable {ok : State τ π σ μ χ → Move τ α → Prop} {s₀ s : State τ π σ μ χ}

/-- **The view rule.**  What holds of the data and the program points at the start, and is kept
when a thread goes on and by every access, holds of every reached state. -/
theorem reach_view {I : σ → (τ → π) → Prop} (hinit : I s₀.data s₀.pcs)
    (hgoes : ∀ s t k next, Reach (State.step code) ok s₀ s → I s.data s.pcs →
      (code t (s.pcs t)).Goes k next → I s.data (Function.update s.pcs t next))
    (haccess : ∀ s t a f d next, Reach (State.step code) ok s₀ s → I s.data s.pcs →
      ok s (.go t a) → code t (s.pcs t) = .access f → f a s.data = some (d, next) →
      I d (Function.update s.pcs t next))
    (h : Reach (State.step code) ok s₀ s) : I s.data s.pcs := by
  refine h.invariant (P := fun s : State τ π σ μ χ => I s.data s.pcs) hinit ?_
  intro s l s' hreach hI hok hs
  have hview := viewed_of_step hs
  generalize s'.data = d, s'.pcs = pcs at hview ⊢
  cases hview with
  | same => exact hI
  | pass _ t k next hcode => exact hgoes s t k next hreach hI hcode
  | access t a f d next hcode hf => exact haccess s t a f _ next hreach hI hok hcode hf

section Events

variable {ρ ε : Type}

/-- What a move shows, if only accesses are seen. -/
def viewEvent (seen : τ → α → σ → π → Option ε) (s : State τ π σ μ χ) : Move τ α → Option ε
  | .go t a => seen t a s.data (s.pcs t)
  | _ => none

/-- **The view rule for simulations**: the relation is kept when a thread goes on, and an access
is a step of the abstract system if it is seen. -/
theorem simulation_view {seen : τ → α → σ → π → Option ε} {astep : ρ → ε → ρ → Prop} {r₀ : ρ}
    {R : σ → (τ → π) → ρ → Prop} (hinit : R s₀.data s₀.pcs r₀)
    (hunseen : ∀ t a d p k next, (code t p).Goes k next → seen t a d p = none)
    (hgoes : ∀ s r t k next, Reach (State.step code) ok s₀ s → R s.data s.pcs r →
      (code t (s.pcs t)).Goes k next → R s.data (Function.update s.pcs t next) r)
    (hsilent : ∀ s r t a f d next, Reach (State.step code) ok s₀ s → R s.data s.pcs r →
      ok s (.go t a) → code t (s.pcs t) = .access f → f a s.data = some (d, next) →
      seen t a s.data (s.pcs t) = none → R d (Function.update s.pcs t next) r)
    (hvisible : ∀ s r t a f d next e, Reach (State.step code) ok s₀ s → R s.data s.pcs r →
      ok s (.go t a) → code t (s.pcs t) = .access f → f a s.data = some (d, next) →
      seen t a s.data (s.pcs t) = some e →
      ∃ r', astep r e r' ∧ R d (Function.update s.pcs t next) r') :
    Simulation (State.step code) ok (viewEvent seen) s₀ astep r₀
      (fun s r => R s.data s.pcs r) where
  init := hinit
  silent := by
    intro s l s' r hreach hR hok hs hev
    -- what is not seen is a change of program point, or an access unseen
    have hview := viewed_of_step hs
    show R s'.data s'.pcs r
    generalize s'.data = d, s'.pcs = pcs at hview ⊢
    cases hview with
    | same => exact hR
    | pass _ t k next hcode => exact hgoes s r t k next hreach hR hcode
    | access t a f d next hcode hf => exact hsilent s r t a f _ next hreach hR hok hcode hf hev
  visible := by
    intro s l s' r e hreach hR hok hs hev
    have hview := viewed_of_step hs
    show ∃ r', astep r e r' ∧ R s'.data s'.pcs r'
    generalize s'.data = d, s'.pcs = pcs at hview ⊢
    cases hview with
    | same _ hl =>
        cases l with
        | go t a => exact absurd rfl (hl t a)
        | _ => cases hev
    | pass _ t k next hcode hl =>
        cases l with
        | go u a =>
            obtain rfl := hl u a rfl
            rw [viewEvent, hunseen u a s.data (s.pcs u) k next hcode] at hev
            cases hev
        | _ => cases hev
    | access t a f d next hcode hf =>
        exact hvisible s r t a f _ next e hreach hR hok hcode hf hev

end Events

end View

/-! ## §6. Sums over the threads. -/

section Totals

variable {τ β : Type} [Fintype τ]

/-- Two sums over the threads that differ in one of them. -/
theorem sum_change [DecidableEq τ] {g r : τ → ℕ} (t : τ) (hsame : ∀ u, u ≠ t → r u = g u) :
    ∑ u, r u + g t = ∑ u, g u + r t := by
  have hrest : ∑ u ∈ Finset.univ.erase t, r u = ∑ u ∈ Finset.univ.erase t, g u :=
    Finset.sum_congr rfl fun u hu => hsame u (Finset.ne_of_mem_erase hu)
  have hnew := Finset.add_sum_erase Finset.univ r (Finset.mem_univ t)
  have hold := Finset.add_sum_erase Finset.univ g (Finset.mem_univ t)
  omega

/-- A sum over the threads after one of them has changed. -/
theorem sum_update [DecidableEq τ] (w : β → ℕ) (f : τ → β) (t : τ) (x : β) :
    ∑ u, w (Function.update f t x u) + w (f t) = ∑ u, w (f u) + w x := by
  have hchange := sum_change (g := fun u => w (f u)) (r := fun u => w (Function.update f t x u)) t
    fun u hu => by rw [Function.update_of_ne hu]
  rw [Function.update_self] at hchange
  exact hchange

/-- How many threads `p` holds of. -/
def count (p : β → Bool) (f : τ → β) : ℕ := ∑ u, (p (f u)).toNat

theorem count_update [DecidableEq τ] (p : β → Bool) (f : τ → β) (t : τ) (x : β) :
    count p (Function.update f t x) + (p (f t)).toNat = count p f + (p x).toNat :=
  sum_update (fun y => (p y).toNat) f t x

theorem count_eq_zero_iff {p : β → Bool} {f : τ → β} :
    count p f = 0 ↔ ∀ t, p (f t) = false := by
  unfold count
  rw [Finset.sum_eq_zero_iff]
  simp

/-- Who is counted and who is not are all. -/
theorem count_add_count_not (p : β → Bool) (f : τ → β) :
    count p f + count (fun x => !p x) f = Fintype.card τ := by
  unfold count
  rw [← Finset.sum_add_distrib, Fintype.card_eq_sum_ones]
  refine Finset.sum_congr rfl fun t _ => ?_
  cases hp : p (f t) <;> simp [hp]

/-- If as many are counted as there are, all are. -/
theorem count_eq_card_iff {p : β → Bool} {f : τ → β} :
    count p f = Fintype.card τ ↔ ∀ t, p (f t) = true := by
  have htotal := count_add_count_not p f
  have hzero := count_eq_zero_iff (p := fun x => !p x) (f := f)
  simp only [Bool.not_eq_false'] at hzero
  rw [← hzero]
  omega

end Totals

end SensorServer.Framework.Pthread
