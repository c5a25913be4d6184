/-
  SensorServer.Pool.Contract — what is assumed of the callers of the pool, and what follows.

  `Polite` is an assumption on the callers, which `thpool.h` does not state and `thpool.c` does
  not check: nobody uses the pool before `thpool_init` has returned it, `thpool_destroy` is called
  by one thread while no other is in a call, and nobody uses the pool after that.  Then all
  threads are there when the pool is used, the thread that destroys it is alone among the callers,
  and it is alone with the queue once the workers have left.
-/
import SensorServer.Pool.Counters

namespace SensorServer.Pool

open SensorServer.Framework
open SensorServer.Framework.Pthread

/-! ## §1. Program points. -/

section Points

variable {J X : Type}

/-- `jobqueue_pull` was called by `jobqueue_clear`. -/
def Puller.ofClear : Puller → Bool
  | .worker => false
  | .clear _ => true

/-- `bsem_post` was called by `jobqueue_clear`, in `jobqueue_pull`. -/
def Poster.ofClear : Poster → Bool
  | .push => false
  | .pull k _ => k.ofClear

/-- In `jobqueue_clear`, or behind it in `thpool_destroy`. -/
def Pc.clearing : Pc J X → Bool
  | .clearTest _ | .clearFree _ _ | .clearReset _ | .destroyed _ => true
  | .postLock k | .postSet k | .postSignal k | .postUnlock k => k.ofClear
  | .pullLock k | .pullTake k | .pullUnlock k _ => k.ofClear
  | _ => false

/-- In `thpool_destroy`. -/
def Pc.destroying : Pc J X → Bool
  | .destroyBegin | .destroyStop _ | .destroyLoop _ _ | .postAllLock _ _ | .postAllSet _ _
  | .postAllBroadcast _ _ | .postAllUnlock _ _ => true
  | p => p.clearing

theorem destroying_of_clearing {p : Pc J X} (h : p.clearing = true) : p.destroying = true := by
  cases p <;> first | exact h | rfl

/-- Between two calls. -/
def Pc.isOutside : Pc J X → Bool
  | .outside => true
  | _ => false

/-- In `thpool_init`. -/
def Pc.isInit : Pc J X → Bool
  | .init _ => true
  | _ => false

/-- Before `num_threads_alive++`. -/
def Pc.unborn : Pc J X → Bool
  | .aliveLock | .aliveInc => true
  | _ => false

/-- Behind `num_threads_alive--`. -/
def Pc.gone : Pc J X → Bool
  | .exitUnlock | .exited => true
  | _ => false

/-- Who is not counted in `num_threads_alive` has yet to come or has left. -/
theorem countedAlive_eq (p : Pc J X) : p.countedAlive = (p.ofWorker && !p.unborn && !p.gone) := by
  cases p <;> simp [Pc.countedAlive, Pc.unborn, Pc.gone, Pc.ofWorker]

theorem callers_of_ofWorker {p : Pc J X} (h : p.ofWorker = true) :
    p.destroying = false ∧ p.isOutside = false := by
  cases p with
  | postLock k | postSet k | postSignal k | postUnlock k =>
      cases k with
      | push => cases h
      | pull k job_p => cases k <;> first | exact ⟨rfl, rfl⟩ | cases h
  | pullLock k | pullTake k | pullUnlock k _ => cases k <;> first | exact ⟨rfl, rfl⟩ | cases h
  | _ => first | exact ⟨rfl, rfl⟩ | cases h

theorem isOutside_iff {p : Pc J X} : p.isOutside = true ↔ p = .outside := by
  constructor
  · intro h
    cases p <;> first | rfl | cases h
  · rintro rfl
    rfl

theorem unborn_of_ofWorker {p : Pc J X} (h : p.ofWorker = false) : p.unborn = false := by
  cases p <;> first | rfl | cases h

end Points

/-! ## §2. The assumption on the callers. -/

section Contract

variable {n : Nat} {κ J X E A : Type}

/-- The call a move makes. -/
def calling (P : Client κ J X E A) (s : PoolState n κ J X E) :
    Move (Name n κ) (Choice A) → Option (Call J)
  | .go (.inr c) (.client a) =>
      if (s.pcs (.inr c)).isOutside then (P.outside c a s.data.env).map Prod.snd else none
  | _ => none

/-- When a call is made. -/
def Allowed (s : PoolState n κ J X E) : Call J → Prop
  | .stay => True
  | .thpoolDestroy => s.data.ready = true ∧ ∀ c : κ, (s.pcs (.inr c)).isOutside = true
  | _ => s.data.ready = true ∧ ∀ c : κ, (s.pcs (.inr c)).destroying = false

instance [Fintype κ] (s : PoolState n κ J X E) : DecidablePred (Allowed s)
  | .stay => .isTrue trivial
  | .thpoolDestroy =>
      inferInstanceAs (Decidable (_ ∧ ∀ c : κ, (s.pcs (.inr c)).isOutside = true))
  | .thpoolAddWork _ | .thpoolWait =>
      inferInstanceAs (Decidable (_ ∧ ∀ c : κ, (s.pcs (.inr c)).destroying = false))

/-- **The assumption on the callers**: calls are made only when they are allowed. -/
def Polite (P : Client κ J X E A) (s : PoolState n κ J X E) (l : Move (Name n κ) (Choice A)) :
    Prop :=
  ∀ call ∈ calling P s l, Allowed s call

instance [Fintype κ] (P : Client κ J X E A) (s : PoolState n κ J X E)
    (l : Move (Name n κ) (Choice A)) : Decidable (Polite P s l) :=
  inferInstanceAs (Decidable (∀ call ∈ calling P s l, Allowed s call))

variable {P : Client κ J X E A} {s : PoolState n κ J X E} {c : κ} {a : A} {env : E}
  {call : Call J}

theorem Polite.allowed (h : Polite P s (.go (.inr c) (.client a)))
    (hpc : s.pcs (.inr c) = .outside) (hout : P.outside c a s.data.env = some (env, call)) :
    Allowed s call := by
  apply h
  show call ∈ if (s.pcs (.inr c)).isOutside = true then (P.outside c a s.data.env).map Prod.snd
    else none
  rw [hpc]
  show call ∈ (P.outside c a s.data.env).map Prod.snd
  rw [hout]
  rfl

/-- Every call but `stay` needs the pool. -/
theorem Allowed.ready (h : Allowed s call) (hcall : call ≠ .stay) : s.data.ready = true := by
  cases call with
  | stay => exact absurd rfl hcall
  | _ => exact h.1

/-- Nothing is called while the pool is destroyed. -/
theorem Allowed.not_destroying (h : Allowed s call) (hcall : call ≠ .stay) (c : κ) :
    (s.pcs (.inr c)).destroying = false := by
  cases call with
  | stay => exact absurd rfl hcall
  | thpoolDestroy =>
      have hout := h.2 c
      cases hpc : s.pcs (.inr c) with
      | outside => rfl
      | _ =>
          rw [hpc] at hout
          cases hout
  | _ => exact h.2 c

end Contract

/-! ## §3. What is kept. -/

section Steps

variable {n : Nat} {κ J X E A : Type} {P : Client κ J X E A} {t : Name n κ} {a : Choice A}
  {d d' : Shared J E} {p next : Pc J X} {k : Doing Mutex Cond}

theorem points_of_passes (h : Passes p k next) :
    next.isInit = p.isInit ∧ next.unborn = p.unborn ∧ next.gone = p.gone
      ∧ next.clearing = p.clearing ∧ next.destroying = p.destroying ∧ p.isOutside = false := by
  cases h <;> exact ⟨rfl, rfl, rfl, rfl, rfl, rfl⟩

/-- Nobody enters `thpool_init`, and no worker begins anew or comes back. -/
theorem points_of_effect (h : Effect P t d a p d' next) :
    (next.isInit = true → p.isInit = true) ∧ (next.unborn = true → p.unborn = true)
      ∧ (p.gone = true → next.gone = true) := by
  cases h with
  | call a c env call ht hcall hout hready => cases call <;> exact ⟨nofun, nofun, nofun⟩
  | spin => exact ⟨id, nofun, nofun⟩
  | _ => exact ⟨nofun, nofun, nofun⟩

/-- Who has not been let into the pool stays out of it until it is ready. -/
theorem early_of_effect (hready : d.ready = false)
    (hearly : p.isInit = true ∨ p.isOutside = true) (h : Effect P t d a p d' next) :
    next.isInit = true ∨ next.isOutside = true := by
  cases h with
  | ready | stay | early => exact .inr rfl
  | spin => exact .inl rfl
  | call a c env call ht hcall hout hpool =>
      rw [hready] at hpool
      cases hpool
  | _ => rcases hearly with hp | hp <;> cases hp

/-- Only `thpool_init` makes the pool ready, when all threads are alive. -/
theorem ready_of_effect (h : Effect P t d a p d' next) (hready : d'.ready ≠ d.ready) :
    p.isInit = true ∧ d.pool.num_threads_alive = n ∧ next = .outside ∧ d'.ready = true := by
  cases h with
  | ready a created hall halive => exact ⟨rfl, halive, rfl, rfl⟩
  | _ => exact absurd rfl hready

/-- Who is between two calls stays there, or makes a call. -/
theorem outside_of_effect (hp : p.isOutside = true) (h : Effect P t d a p d' next) :
    next.isOutside = true ∨ ∃ c a' env call, t = .inr c ∧ a = .client a' ∧
      P.outside c a' d.env = some (env, call) ∧ call ≠ .stay ∧ d.ready = true
        ∧ next = call.pc := by
  cases h with
  | stay | early => exact .inl rfl
  | call a c env call ht hcall hout hready =>
      exact .inr ⟨c, a, env, call, ht, rfl, hout, hcall, hready, rfl⟩
  | _ => cases hp

theorem destroying_of_effect (hnext : next.destroying = true) (h : Effect P t d a p d' next) :
    p.destroying = true ∨ p.isOutside = true := by
  cases h with
  | stay | call => exact .inr rfl
  | _ => exact .inl hnext

theorem clearing_of_effect (hnext : next.clearing = true) (h : Effect P t d a p d' next) :
    p.clearing = true ∨ p.destroying = true ∧ d.pool.num_threads_alive = 0 := by
  cases h with
  | allGone a total halive => exact .inr ⟨rfl, halive⟩
  | call a c env call ht hcall hout hready => cases call <;> cases hnext
  | _ => exact .inl hnext

theorem ready_mono (h : Effect P t d a p d' next) (hready : d.ready = true) : d'.ready = true := by
  by_cases hcase : d'.ready = d.ready
  · exact hcase.trans hready
  · exact (ready_of_effect h hcase).2.2.2

end Steps

section Calls

variable {n : Nat} {κ J X E A : Type} {P : Client κ J X E A} {s : PoolState n κ J X E}
  {t : Name n κ} {a : Choice A} {d : Shared J E} {next : Pc J X}

/-- Who makes a call is allowed to. -/
theorem allowed_of_effect (hpolite : Polite P s (.go t a)) (hpc : (s.pcs t).isOutside = true)
    (heff : Effect P t s.data a (s.pcs t) d next) :
    next.isOutside = true ∨ ∃ call : Call J, call ≠ .stay ∧ Allowed s call ∧ next = call.pc := by
  rcases outside_of_effect hpc heff with hstay | ⟨c, a, env, call, rfl, rfl, hout, hcall, -, hnext⟩
  · exact .inl hstay
  · exact .inr ⟨call, hcall, hpolite.allowed (isOutside_iff.mp hpc) hout, hnext⟩

/-- Who comes into `thpool_destroy` is allowed to. -/
theorem allowed_of_destroying (hpolite : Polite P s (.go t a))
    (heff : Effect P t s.data a (s.pcs t) d next)
    (hnext : next.destroying = true) :
    (s.pcs t).destroying = true ∨ Allowed s (.thpoolDestroy : Call J) := by
  rcases destroying_of_effect hnext heff with hold | hout
  · exact .inl hold
  · rcases allowed_of_effect hpolite hout heff with hstay | ⟨call, hcall, hallowed, rfl⟩
    · rw [isOutside_iff.mp hstay] at hnext
      cases hnext
    · cases call with
      | thpoolDestroy => exact .inr hallowed
      | _ => cases hnext

end Calls

section Runs

variable {n : Nat} {κ J X E A : Type}

/-- `thpool_init` returns the pool when all threads are there, and nobody calls the pool
before. -/
structure Begun (main : κ) (ready : Bool) (pcs : Name n κ → Pc J X) : Prop where
  init : ∀ t, (pcs t).isInit = true → t = .inr main
  early : ready = false → ∀ c, (pcs (.inr c)).isInit = true ∨ (pcs (.inr c)).isOutside = true
  late : ready = true → ∀ t, (pcs t).isInit = false ∧ (pcs t).unborn = false

/-- The thread in `thpool_destroy` is the only one in a call, and when it clears the queue, the
workers have left. -/
structure Ending (ready : Bool) (pcs : Name n κ → Pc J X) : Prop where
  ready : ∀ t, (pcs t).destroying = true → ready = true
  alone : ∀ t, (pcs t).destroying = true → ∀ c, .inr c ≠ t → (pcs (.inr c)).isOutside = true
  gone : ∀ t, (pcs t).clearing = true → ∀ i, (pcs (.inl i)).gone = true

variable [Fintype κ] {P : Client κ J X E A} {main : κ} {env : E}
  {ok : PoolState n κ J X E → Move (Name n κ) (Choice A) → Prop} {s : PoolState n κ J X E}

/-- Only workers are counted. -/
theorem count_countedAlive {pcs : Name n κ → Pc J X} (hworker : ∀ t, (pcs t).ofWorker = t.isLeft) :
    count Pc.countedAlive pcs = count Pc.countedAlive (pcs ∘ Sum.inl) := by
  have hcallers : ∑ c : κ, (pcs (.inr c)).countedAlive.toNat = 0 := by
    refine Finset.sum_eq_zero fun c _ => ?_
    rw [countedAlive_eq, hworker]
    rfl
  unfold count
  rw [Fintype.sum_sum_type, hcallers]
  rfl

/-- As many workers are counted as there are if every worker is. -/
theorem all_countedAlive {pcs : Name n κ → Pc J X} (hworker : ∀ t, (pcs t).ofWorker = t.isLeft) :
    count Pc.countedAlive pcs = n ↔ ∀ i, (pcs (.inl i)).countedAlive = true := by
  have hcard := count_eq_card_iff (p := Pc.countedAlive) (f := pcs ∘ Sum.inl)
  rw [Fintype.card_fin] at hcard
  rw [count_countedAlive hworker]
  exact hcard

variable [DecidableEq κ]

theorem begun (h : Reached P main env ok s) :
    Begun main s.data.ready s.pcs := by
  refine Reached.view (I := fun d pcs => Begun main d.ready pcs) ?_ ?_ ?_ h
  · refine ⟨?_, ?_, nofun⟩
    · rintro (i | c) hinit
      · cases hinit
      · rw [start_pcs_caller] at hinit
        by_cases hc : c = main
        · rw [hc]
        · rw [if_neg hc] at hinit
          cases hinit
    · intro _ c
      rw [start_pcs_caller]
      by_cases hc : c = main
      · rw [if_pos hc]
        exact .inl rfl
      · rw [if_neg hc]
        exact .inr rfl
  · intro s t k next _ hI hpass
    obtain ⟨hinit, hunborn, -, -, -, hout⟩ := points_of_passes hpass
    refine ⟨?_, fun hready c => ?_, fun hready => ?_⟩
    · refine (Function.forall_update_iff _ fun u (p : Pc J X) => p.isInit = true → u = .inr main).mpr
        ⟨fun h => hI.init t (hinit ▸ h), fun u _ => hI.init u⟩
    · by_cases hc : .inr c = t
      · subst hc
        rw [Function.update_self, hinit]
        exact .inl ((hI.early hready c).resolve_right (by simp [hout]))
      · rw [Function.update_of_ne hc]
        exact hI.early hready c
    · refine (Function.forall_update_iff _ fun u (p : Pc J X) =>
          p.isInit = false ∧ p.unborn = false).mpr
        ⟨?_, fun u _ => hI.late hready u⟩
      rw [hinit, hunborn]
      exact hI.late hready t
  · intro s t a d next hreach hI _ heff
    obtain ⟨hinit, hunborn, -⟩ := points_of_effect heff
    have hinit' : ∀ u, (Function.update s.pcs t next u).isInit = true → u = .inr main :=
      (Function.forall_update_iff _ fun u (p : Pc J X) => p.isInit = true → u = .inr main).mpr
        ⟨fun h => hI.init t (hinit h), fun u _ => hI.init u⟩
    by_cases hcase : d.ready = s.data.ready
    · refine ⟨hinit', fun hready c => ?_, fun hready => ?_⟩
      · rw [hcase] at hready
        by_cases hc : .inr c = t
        · subst hc
          rw [Function.update_self]
          exact early_of_effect hready (hI.early hready c) heff
        · rw [Function.update_of_ne hc]
          exact hI.early hready c
      · rw [hcase] at hready
        have hlate := hI.late hready
        refine (Function.forall_update_iff _ fun u (p : Pc J X) =>
          p.isInit = false ∧ p.unborn = false).mpr ⟨?_, fun u _ => hlate u⟩
        obtain ⟨hi, hu⟩ := hlate t
        refine ⟨Bool.eq_false_iff.mpr fun h => ?_, Bool.eq_false_iff.mpr fun h => ?_⟩
        · rw [hinit h] at hi
          cases hi
        · rw [hunborn h] at hu
          cases hu
    · obtain ⟨hp, halive, rfl, hready⟩ := ready_of_effect heff hcase
      refine ⟨hinit', fun hfalse => ?_, fun _ => ?_⟩
      · rw [hready] at hfalse
        cases hfalse
      -- `n` threads are counted, so every worker is
      have hworker := ofWorker_pcs hreach
      have hcount := hreach.counted.alive
      rw [halive] at hcount
      have hall := (all_countedAlive hworker).mp (Int.ofNat.inj hcount).symm
      have ht := hI.init t hp
      refine (Function.forall_update_iff _ fun u (p : Pc J X) =>
        p.isInit = false ∧ p.unborn = false).mpr ⟨⟨rfl, rfl⟩, fun u hu => ⟨?_, ?_⟩⟩
      · exact Bool.eq_false_iff.mpr fun h => hu ((hI.init u h).trans ht.symm)
      · cases u with
        | inl i => exact (by simpa [countedAlive_eq, and_assoc] using hall i : _ ∧ _ ∧ _).2.1
        | inr c => exact unborn_of_ofWorker (hworker (.inr c))

/-- A call of `thpool_destroy` is made while everybody is outside, and no other is made while the
pool is destroyed. -/
theorem ending (hpolite : ∀ s l, ok s l → Polite P s l) (h : Reached P main env ok s) :
    Ending s.data.ready s.pcs := by
  refine Reached.view (I := fun d pcs => Ending d.ready pcs) ?_ ?_ ?_ h
  · have hstart : ∀ t : Name n κ, ((start n J X main env).pcs t).destroying = false
        ∧ ((start n J X main env).pcs t).clearing = false := by
      rintro (i | c)
      · exact ⟨rfl, rfl⟩
      · rw [start_pcs_caller]
        split <;> exact ⟨rfl, rfl⟩
    refine ⟨fun t ht => ?_, fun t ht => ?_, fun t ht => ?_⟩
    · rw [(hstart t).1] at ht
      cases ht
    · rw [(hstart t).1] at ht
      cases ht
    · rw [(hstart t).2] at ht
      cases ht
  · intro s t k next _ hI hpass
    obtain ⟨-, -, hgone, hclearing, hdestroying, hout⟩ := points_of_passes hpass
    have hsame : ∀ {β : Type} (f : Pc J X → β), f next = f (s.pcs t) →
        ∀ u, f (Function.update s.pcs t next u) = f (s.pcs u) := fun f hf =>
      (Function.forall_update_iff _ fun u (p : Pc J X) => f p = f (s.pcs u)).mpr
        ⟨hf, fun u _ => rfl⟩
    refine ⟨fun u hu => ?_, fun u hu c hc => ?_, fun u hu i => ?_⟩
    · exact hI.ready u ((hsame _ hdestroying u).symm.trans hu)
    · have hold := hI.alone u ((hsame _ hdestroying u).symm.trans hu) c hc
      rw [Function.update_of_ne]
      · exact hold
      · rintro rfl
        rw [hout] at hold
        cases hold
    · rw [hsame _ hgone]
      exact hI.gone u ((hsame _ hclearing u).symm.trans hu) i
  · intro s t a d next hreach hI hok heff
    have hworker := ofWorker_pcs hreach
    have hcaller : ∀ u, (s.pcs u).destroying = true → ∃ c, u = .inr c := by
      rintro (i | c) hu
      · rw [(callers_of_ofWorker (hworker (.inl i))).1] at hu
        cases hu
      · exact ⟨c, rfl⟩
    -- who is in `thpool_destroy` was there before, or comes in now
    have hold : ∀ u, (Function.update s.pcs t next u).destroying = true →
        (s.pcs u).destroying = true ∨ u = t ∧ Allowed s (.thpoolDestroy : Call J) := by
      refine (Function.forall_update_iff _ fun u (p : Pc J X) => p.destroying = true →
        (s.pcs u).destroying = true ∨ u = t ∧ Allowed s (.thpoolDestroy : Call J)).mpr
        ⟨fun hu => ?_, fun u _ hu => .inl hu⟩
      exact (allowed_of_destroying (hpolite s _ hok) heff hu).imp_right fun h => ⟨rfl, h⟩
    refine ⟨fun u hu => ?_, fun u hu c hc => ?_, fun u hu i => ?_⟩
    · rcases hold u hu with hu | ⟨-, hallowed⟩
      · exact ready_mono heff (hI.ready u hu)
      · exact ready_mono heff hallowed.1
    · rcases hold u hu with hthere | ⟨rfl, hallowed⟩
      · have hout := hI.alone u hthere c hc
        by_cases hct : .inr c = t
        · subst hct
          rw [Function.update_self]
          rcases allowed_of_effect (hpolite s _ hok) hout heff with hstay | ⟨call, hcall, hal, -⟩
          · exact hstay
          · obtain ⟨c', rfl⟩ := hcaller u hthere
            rw [hal.not_destroying hcall c'] at hthere
            cases hthere
        · rw [Function.update_of_ne hct]
          exact hout
      · rw [Function.update_of_ne hc]
        exact hallowed.2 c
    · have hgone := (points_of_effect heff).2.2
      have hkeep : (s.pcs (.inl i)).gone = true →
          (Function.update s.pcs t next (.inl i)).gone = true := by
        intro hi
        by_cases hit : .inl i = t
        · subst hit
          rw [Function.update_self]
          exact hgone hi
        · rw [Function.update_of_ne hit]
          exact hi
      by_cases hut : u = t
      · subst hut
        rw [Function.update_self] at hu
        rcases clearing_of_effect hu heff with hclear | ⟨hdestroying, halive⟩
        · exact hkeep (hI.gone u hclear i)
        · -- nobody is counted any more
          have hcount := hreach.counted.alive
          rw [halive] at hcount
          have hnone := count_eq_zero_iff.mp (Int.ofNat.inj hcount).symm (.inl i)
          have hunborn := ((begun hreach).late (hI.ready u hdestroying) (.inl i)).2
          rw [countedAlive_eq, hworker, hunborn] at hnone
          exact hkeep (by simpa using hnone)
      · rw [Function.update_of_ne hut] at hu
        exact hkeep (hI.gone u hu i)

end Runs

end SensorServer.Pool
