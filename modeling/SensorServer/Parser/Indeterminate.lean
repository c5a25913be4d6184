/-
  SensorServer.Parser.Indeterminate — what a run makes of uninitialised memory.

  The header union has four bytes and `memcpy` sets three; the word the magic number is
  compared with has the fourth in it.  So the same packet is acted on or dropped, depending
  on what lay on the worker's stack.  `stack_independent_iff` says that only those blocks
  are safe from this for which the parser has nothing to do even when it recognises them.
-/
import SensorServer.Parser.Bounds

namespace SensorServer.Parser

open SensorServer.Framework

/-! ## §1. Effects, and runs that differ on the stack. -/

/-- A `send`, a `close` or a `free`. -/
def Event.isEffect : Event → Bool
  | .send _ _ => true
  | .close _ => true
  | .freeArgs => true
  | .free _ => true
  | _ => false

/-- The sends, closes and frees of a trace, in order. -/
def effects (t : List Event) : List Event := t.filter Event.isEffect

/-- The two calls find the same but for the fourth header byte and the offset `DIS_CONN` does
not assign. -/
def Residue.SameButStack (ρ σ : Residue) : Prop :=
  ρ.freed_socket_fd = σ.freed_socket_fd ∧ ρ.overread = σ.overread ∧ ρ.overrun = σ.overrun
    ∧ ρ.underrun = σ.underrun ∧ ρ.wraparound = σ.wraparound

/-- Any two runs that differ only in uninitialised values, at any depth, have the same
effects.  `σ` is what the calls find elsewhere. -/
def StackIndependent (fuel : Nat) (σ : Nat → Residue) (args : ThArgs) : Prop :=
  ∀ ρ ρ' : Nat → Residue, (∀ d, (ρ d).SameButStack (σ d)) → (∀ d, (ρ' d).SameButStack (σ d)) →
    (parsePacket fuel ρ args).map effects = (parsePacket fuel ρ' args).map effects

/-- The block begins with a packet the parser replies to or closes the socket for. -/
def Acts (σ : Residue) (args : ThArgs) : Prop :=
  BeginsPacket args ∧
    match Case.select (args.recv_buffer 3) with
    | .PING | .CONN | .DIS_CONN => True
    | .SEND => 6 + dataLen args.recv_buffer ≤ RECV_BUFFER_LEN ∨ σ.overread = true
    | .PUBLISH => PublishSurvives σ (dataLen args.recv_buffer)
    | .default => False

theorem effects_append (t u : List Event) : effects (t ++ u) = effects t ++ effects u :=
  List.filter_append _ _

theorem effects_eq_nil {t : List Event} : effects t = [] ↔ ∀ e ∈ t, e.isEffect = false := by
  unfold effects
  rw [List.filter_eq_nil_iff]
  simp only [Bool.not_eq_true]

/-! ## §2. The switch. -/

section Switch

variable {ρ σ : Residue} {args : ThArgs}

theorem PublishSurvives.congr {data_len : Int} (h : ρ.SameButStack σ) :
    PublishSurvives ρ data_len ↔ PublishSurvives σ data_len := by
  obtain ⟨-, hread, hrun, -, -⟩ := h
  unfold PublishSurvives
  rw [hread, hrun]

/-- A packet that is acted on has an effect. -/
theorem switch_acts (hσ : ρ.SameButStack σ) (h : Acts σ args) :
    effects (switchPacketType ρ args (args.recv_buffer 3) (dataLen args.recv_buffer)).trace
      ≠ [] := by
  obtain ⟨-, hcase⟩ := h
  unfold switchPacketType
  cases hsel : Case.select (args.recv_buffer 3) with
  | PING => simp [casePing_eq, effects, Event.isEffect]
  | CONN => simp [caseConn_eq, effects, Event.isEffect]
  | DIS_CONN => simp [caseDisConn, effects, Event.isEffect]
  | SEND =>
      rw [hsel] at hcase
      -- what `SEND` reads behind the buffer is the same in both runs
      have hread : 6 + (dataLen args.recv_buffer : Int) ≤ RECV_BUFFER_LEN
          ∨ ρ.overread = true := by
        rw [hσ.2.1]
        exact hcase.imp_left (by omega)
      simp [caseSend_ok (by omega) hread, effects, Event.isEffect]
  | PUBLISH =>
      rw [hsel] at hcase
      have hsurv := (PublishSurvives.congr hσ).mpr hcase
      simp [casePublish_ok hsurv, effects, Event.isEffect]
  | default =>
      rw [hsel] at hcase
      exact hcase.elim

/-- Any other packet ends the run in the switch, without an effect. -/
theorem switch_silent (hσ : ρ.SameButStack σ) (hp : BeginsPacket args) (h : ¬ Acts σ args) :
    (switchPacketType ρ args (args.recv_buffer 3) (dataLen args.recv_buffer)).result = none
      ∧ effects (switchPacketType ρ args (args.recv_buffer 3)
          (dataLen args.recv_buffer)).trace = [] := by
  have hcase := fun hcase => h ⟨hp, hcase⟩
  unfold switchPacketType
  cases hsel : Case.select (args.recv_buffer 3) with
  | PING | CONN | DIS_CONN =>
      rw [hsel] at hcase
      exact (hcase trivial).elim
  | SEND =>
      rw [hsel] at hcase
      have hnot : ¬ (6 + dataLen args.recv_buffer ≤ RECV_BUFFER_LEN ∨ σ.overread = true) := hcase
      rw [not_or, ← hσ.2.1] at hnot
      -- both runs die in the copy, before the acknowledgement
      have hread : 6 + (dataLen args.recv_buffer : Int) > RECV_BUFFER_LEN
          ∧ ρ.overread = false := ⟨by omega, by simpa using hnot.2⟩
      simp [caseSend_fault (by omega) hread, effects, Event.isEffect]
  | PUBLISH =>
      rw [hsel] at hcase
      have hdies := mt (PublishSurvives.congr hσ).mp hcase
      by_cases h32 : dataLen args.recv_buffer < 32
      · simp [casePublish_small args (by omega : (dataLen args.recv_buffer : Int) < 32), effects,
          Event.isEffect]
      · simp [casePublish_dies args (by omega) hdies, effects, Event.isEffect]
  | default => exact ⟨rfl, rfl⟩

end Switch

/-! ## §3. Runs. -/

section Runs

variable {fuel : Nat} {ρ σ : Nat → Residue} {args : ThArgs}

/-- The effects of a run whose first call does not call itself. -/
theorem effects_run (hfuel : 2 ≤ fuel) (h : (parsePacketCall (ρ 0) args).result = none) :
    (parsePacket fuel ρ args).map effects
      = some (effects (parsePacketCall (ρ 0) args).trace) := by
  rw [parsePacket_eq hfuel, h, List.append_nil]
  rfl

/-- A packet that is not recognised is dropped. -/
theorem effects_dropped (hfuel : 2 ≤ fuel) (h4 : ¬ args.recv_len < 4)
    (hm : headerValue args.recv_buffer (ρ 0).header_b3 ≠ 5264211) :
    (parsePacket fuel ρ args).map effects = some [] := by
  have hcall := parsePacketCall_drop (ρ 0) args h4 hm
  rw [effects_run hfuel (by rw [hcall]), hcall]
  rfl

/-- A recognised packet that is acted on has an effect. -/
theorem effects_acted (hfuel : 2 ≤ fuel) (hσ : (ρ 0).SameButStack (σ 0))
    (h : Acts (σ 0) args) (hb3 : (ρ 0).header_b3 = 0) :
    (parsePacket fuel ρ args).map effects ≠ some [] := by
  have hswitch := switch_acts hσ h
  rw [parsePacket_eq hfuel, parsePacketCall_begins h.1 hb3]
  intro hnil
  replace hnil := effects_eq_nil.mp (Option.some.inj hnil)
  -- the switch's events are among those of the run
  refine hswitch (effects_eq_nil.mpr fun e he => hnil e (List.mem_append_left _ ?_))
  refine List.mem_append_right _ ?_
  show e ∈ (Traced.andThen _ _).trace
  unfold Traced.andThen
  split
  · exact List.mem_append_left _ he
  · exact he

/-- A packet that is not acted on leaves no effect even when it is recognised. -/
theorem effects_not_acted (hfuel : 2 ≤ fuel) (hσ : (ρ 0).SameButStack (σ 0))
    (h4 : ¬ args.recv_len < 4) (h : ¬ Acts (σ 0) args) :
    (parsePacket fuel ρ args).map effects = some [] := by
  by_cases hm : headerValue args.recv_buffer (ρ 0).header_b3 = 5264211
  · obtain ⟨h0, h1, h2, -⟩ := (headerValue_eq_magic _ _).mp hm
    obtain ⟨hnone, heffects⟩ := switch_silent hσ ⟨by omega, h0, h1, h2⟩ h
    have hcall := parsePacketCall_packet (ρ 0) args h4 hm
    rcases hsw : switchPacketType (ρ 0) args (args.recv_buffer 3) (dataLen args.recv_buffer)
      with ⟨t, r⟩
    rw [hsw] at hcall hnone heffects
    obtain rfl : r = none := hnone
    rw [Traced.none_bind, Traced.some_bind] at hcall
    rw [effects_run hfuel (by rw [hcall]), hcall]
    show some (effects ([.access .recv_len, .memcpy .header .recv_buffer 0 3,
      .access .recv_buffer] ++ t)) = _
    rw [effects_append, heffects]
    rfl
  · exact effects_dropped hfuel h4 hm

/-- **Uninitialised memory.**  The effects of a run are the same whatever the stack held
exactly when the block does not begin with a packet that is acted on. -/
theorem stack_independent_iff (hfuel : 2 ≤ fuel) (σ : Nat → Residue) (args : ThArgs) :
    StackIndependent fuel σ args ↔ ¬ Acts (σ 0) args := by
  constructor
  · intro hindep hacts
    -- a zero byte lets the packet through, any other byte drops it
    have hzero := effects_acted (ρ := fun d => { σ d with header_b3 := 0 }) (σ := σ) hfuel
      ⟨rfl, rfl, rfl, rfl, rfl⟩ hacts rfl
    have hlen : ¬ args.recv_len < 4 := by
      have h4 := hacts.1.1
      omega
    have hmagic : headerValue args.recv_buffer 1 ≠ 5264211 := by
      rw [Ne, headerValue_eq_magic]
      rintro ⟨-, -, -, h1⟩
      cases h1
    have hother := effects_dropped (ρ := fun d => { σ d with header_b3 := 1 }) hfuel hlen hmagic
    have hsame := hindep (fun d => { σ d with header_b3 := 0 })
      (fun d => { σ d with header_b3 := 1 }) (fun _ => ⟨rfl, rfl, rfl, rfl, rfl⟩)
      (fun _ => ⟨rfl, rfl, rfl, rfl, rfl⟩)
    rw [hother] at hsame
    exact hzero hsame
  · intro hacts ρ ρ' hρ hρ'
    by_cases h4 : args.recv_len < 4
    · have hcall := parsePacketCall_short (ρ 0) args h4
      have hcall' := parsePacketCall_short (ρ' 0) args h4
      rw [effects_run hfuel (by rw [hcall]), effects_run hfuel (by rw [hcall']), hcall, hcall',
        (hρ 0).1, (hρ' 0).1]
    · rw [effects_not_acted hfuel (hρ 0) h4 hacts, effects_not_acted hfuel (hρ' 0) h4 hacts]

/-- An unknown packet type is dropped either way. -/
theorem stack_independent_unknown :
    StackIndependent 2 (fun _ => .quiet 5) (ThArgs.received 5 [83, 83, 80, 9]) :=
  (stack_independent_iff (Nat.le_refl 2) (fun _ => .quiet 5)
    (ThArgs.received 5 [83, 83, 80, 9])).mpr fun h => h.2

/-- A `PING` is answered on a clean stack and dropped on another. -/
theorem ping_depends_on_stack :
    ¬ StackIndependent 2 (fun _ => .quiet 5) (ThArgs.received 5 [83, 83, 80, 0]) := by
  intro h
  have hsame := h (fun _ => .quiet 5) (fun _ => { Residue.quiet 5 with header_b3 := 7 })
    (fun _ => ⟨rfl, rfl, rfl, rfl, rfl⟩) (fun _ => ⟨rfl, rfl, rfl, rfl, rfl⟩)
  exact absurd hsame (by decide)

end Runs

end SensorServer.Parser
