/-
  SensorServer.System.Backlog — connections waiting to be accepted.

  The listening socket is edge-triggered: arrivals make it pending, and one event is all there
  is for any number of them.  The loop answers that event with a single `accept`, and does not
  register the socket again as it does a client's after a `recv`.  `backlog_empty` names the
  steps that strand a connection: an `accept` that leaves others behind, and a `recv` that
  returns nothing in front of the listen event.
-/
import SensorServer.Framework.Transition
import SensorServer.System.Moves

namespace SensorServer.System

open SensorServer.Framework
open SensorServer.Loop

namespace Server

variable (cfg : Config) (s : Server)

/-! ## §1. Runs. -/

/-- `accept` succeeds whenever a connection waits. -/
def Accepts : Act → Prop
  | .loop (.accept none) => s.backlog = []
  | _ => True

instance : DecidablePred s.Accepts
  | .loop (.accept none) => inferInstanceAs (Decidable (s.backlog = []))
  | .loop (.accept (some _)) | .loop (.ready _) | .loop (.ctl _) | .loop (.recv _)
  | .loop .go | .connect | .traffic _ _ | .take _ | .work _ _ => .isTrue trivial

/-- The steps that strand nothing: an `accept` takes the only waiting connection, and a `recv`
that returns nothing finds none waiting, unless the listening socket is pending again. -/
def KeepsUp : Act → Prop
  | .loop (.accept (some _)) => s.backlog.length = 1 ∨ s.listenPending = true
  | .loop (.recv n) => 0 < n ∨ s.backlog = [] ∨ s.listenPending = true
  | _ => True

instance : DecidablePred s.KeepsUp
  | .loop (.accept (some _)) => inferInstanceAs (Decidable (_ ∨ s.listenPending = true))
  | .loop (.recv n) => inferInstanceAs (Decidable (0 < n ∨ _ ∨ s.listenPending = true))
  | .loop (.accept none) | .loop (.ready _) | .loop (.ctl _) | .loop .go => .isTrue trivial
  | .connect | .traffic _ _ | .take _ | .work _ _ => .isTrue trivial

/-! ## §2. Waiting connections are announced. -/

/-- A waiting connection is marked: the listening socket is pending, or its event is still to
be handled. -/
def Announced : Prop :=
  s.backlog = [] ∨ s.listenPending = true
    ∨ ∃ x ∈ s.pc.ahead, branch cfg.listen_socket x.1 = .accept

variable {cfg s}

/-- A reported listening socket with a waiting connection is an event to accept it. -/
theorem report_listen (cfg : Config) (h : s.backlog ≠ []) :
    ∃ x, s.report cfg (none, s.listenReadiness) = some x
      ∧ branch cfg.listen_socket x.1 = .accept := by
  refine ⟨(⟨cfg.listen_socket, s.listenReadiness⟩, none), rfl, ?_⟩
  unfold branch
  rw [if_pos ⟨rfl, by simp [listenReadiness, h]⟩]

/-- Nothing else matters. -/
theorem Announced.of_eq {s' : Server} (h : s.Announced cfg) (hbacklog : s'.backlog = s.backlog)
    (hpending : s'.listenPending = s.listenPending) (hahead : s'.pc.ahead = s.pc.ahead) :
    s'.Announced cfg := by
  unfold Announced at h ⊢
  rw [hbacklog, hpending, hahead]
  exact h

/-- Moving on to the next event keeps the announcement behind the current one. -/
theorem Announced.next {e : EpollEvent × Tag} {todo : List (EpollEvent × Tag)}
    (h : s.Announced cfg) (hpc : s.pc.ahead = e :: todo)
    (hb : branch cfg.listen_socket e.1 ≠ .accept) :
    s.backlog = [] ∨ s.listenPending = true
      ∨ ∃ x ∈ todo, branch cfg.listen_socket x.1 = .accept := by
  refine h.imp_right (Or.imp_right ?_)
  rw [hpc]
  intro hx
  obtain ⟨x, hmem, hacc⟩ := hx
  rcases List.mem_cons.mp hmem with rfl | hmem
  · exact absurd hacc hb
  · exact ⟨x, hmem, hacc⟩

/-- Every step that keeps up keeps waiting connections announced. -/
theorem Announced.step {s' : Server} {a : Act} (h : s.Announced cfg) (hlinux : s.Linux a)
    (haccepts : s.Accepts a) (hkeeps : s.KeepsUp a) (hs : s.step cfg a = some s') :
    s'.Announced cfg := by
  cases move_of_step hs with
  -- the peers
  | connect => exact .inr (.inl rfl)
  | traffic conn t hknown =>
      refine h.imp_left fun hnil => ?_
      show List.map _ s.backlog = []
      rw [hnil]
      rfl
  -- the event loop
  | wait reports hpc hlen hnodup =>
      by_cases hnil : s.backlog = []
      · exact .inl hnil
      have hpending : s.listenPending = true := by
        rcases h with h | h | ⟨x, hx, -⟩
        · exact absurd h hnil
        · exact h
        · rw [hpc] at hx
          cases hx
      by_cases hlisten : none ∈ reports.map Prod.fst
      · -- the mark is handed to the event
        obtain ⟨⟨_, flags⟩, hr, rfl⟩ := List.mem_map.mp hlisten
        obtain ⟨-, hflags⟩ : s.listenPending = true ∧ flags = s.listenReadiness := hlinux _ hr
        obtain ⟨x, hx, hacc⟩ := report_listen cfg hnil
        refine .inr (.inr ⟨x, ?_, hacc⟩)
        rw [LoopPc.ahead_next]
        exact List.mem_filterMap.mpr ⟨_, hr, hflags ▸ hx⟩
      · refine .inr (.inl ?_)
        show (s.listenPending && !decide (none ∈ reports.map Prod.fst)) = true
        simp [hpending, hlisten]
  | refuse e todo hpc hb => exact .inl haccepts
  | accept e todo fd k backlog hpc hb hbacklog hfd hlisten hfresh =>
      rcases hkeeps with hone | hpending
      · left
        rw [hbacklog, List.length_cons] at hone
        show backlog = []
        exact List.length_eq_zero_iff.mp (by omega)
      · exact .inr (.inl hpending)
  | readNothing e todo n hpc hb hn =>
      rcases hkeeps with hpos | hrest
      · omega
      · exact hrest.imp_right .inl
  | hangup e todo hpc hb =>
      have hnext := h.next (by rw [hpc]; rfl) (by simp [hb])
      rwa [← LoopPc.ahead_next todo] at hnext
  | skip e todo hpc hb =>
      have hnext := h.next (by rw [hpc]; rfl) (by simp [hb])
      rwa [← LoopPc.ahead_next todo] at hnext
  -- inside an event nothing is taken from the batch, and the pool touches none of it
  | register fd e todo hpc hopen => exact h.of_eq rfl rfl (by rw [hpc]; rfl)
  | registerFails fd e todo hpc =>
      exact h.of_eq rfl rfl (by rw [hpc, LoopPc.ahead_next]; rfl)
  | count fd e todo proc hpc hadd =>
      exact h.of_eq rfl rfl (by rw [hpc, LoopPc.ahead_next]; rfl)
  | block fd e todo proc hpc hadd => exact h.of_eq rfl rfl (by rw [hpc]; rfl)
  | read e todo n c hpc hb hc hfd hn hlen hunread =>
      have hnext := h.next (by rw [hpc]; rfl) (by simp [hb])
      exact hnext
  | submit addr args src e todo hpc => exact h.of_eq rfl rfl (by rw [hpc]; rfl)
  | rearm fd src e todo hpc hopen =>
      exact h.of_eq rfl rfl (by rw [hpc, LoopPc.ahead_next]; rfl)
  | rearmFails fd src e todo hpc =>
      exact h.of_eq rfl rfl (by rw [hpc, LoopPc.ahead_next]; rfl)
  | perform w ρ x e todo hx htodo => cases e <;> exact h
  -- the workers
  | take k job hjob => exact h
  | call w ρ x args hx htodo hnext => exact h
  | retire w ρ x hx htodo hnext => exact h

end Server

/-! ## §3. The theorem. -/

/-- **No connection waits unnoticed.**  Let `accept` succeed whenever a connection waits.  In
every run in which each `accept` takes the only waiting connection and no `recv` returns
nothing while one waits, unless the listening socket is pending again, a loop about to wait
for events with the listening socket not pending leaves the backlog empty. -/
theorem backlog_empty (cfg : Config) {s : Server}
    (hreach : Reach (Server.step cfg)
      (fun s a => s.Linux a ∧ s.Accepts a ∧ s.KeepsUp a) .init s)
    (hpc : s.pc = .wait) (hpending : s.listenPending = false) : s.backlog = [] := by
  have hann : s.Announced cfg := by
    refine hreach.invariant (P := Server.Announced cfg) (.inl rfl) ?_
    intro t a t' _ ht hok hs
    exact ht.step hok.1 hok.2.1 hok.2.2 hs
  rcases hann with h | h | ⟨x, hx, -⟩
  · exact h
  · rw [hpending] at h
    cases h
  · rw [hpc] at hx
    cases hx

/-- One connection, accepted as `5`. -/
theorem backlog_empty_one :
    ∃ s, execute (Server.step ⟨3, .after⟩) (fun s a => s.Linux a ∧ s.Accepts a ∧ s.KeepsUp a)
        .init [.connect, .loop (.ready [(none, { epollin := true })]),
          .loop (.accept (some 5)), .loop (.ctl true), .loop .go] = some s
      ∧ s.pc = .wait ∧ s.listenPending = false ∧ s.backlog = [] := by
  apply execute_reaches (P := fun s : Server => s.pc = .wait ∧ s.listenPending = false) (by decide)
  intro s hreach hwait
  exact ⟨hwait.1, hwait.2, backlog_empty _ hreach hwait.1 hwait.2⟩

/-- Of two connections that arrive before the loop looks, one stays in the backlog. -/
theorem second_connection_waits :
    ∃ s, execute (Server.step ⟨3, .after⟩) (fun s a => s.Linux a ∧ s.Accepts a)
        .init [.connect, .connect, .loop (.ready [(none, { epollin := true })]),
          .loop (.accept (some 5)), .loop (.ctl true), .loop .go] = some s
      ∧ s.pc = .wait ∧ s.listenPending = false ∧ s.backlog ≠ [] :=
  exists_execute (P := fun s : Server => s.pc = .wait ∧ s.listenPending = false ∧ s.backlog ≠ [])
    (by decide)

end SensorServer.System
