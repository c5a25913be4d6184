/-
  SensorServer.Parser.Effects — which descriptors a call of `parse_packet` can act on.

  A call sends and closes on `args->socket_fd` only, but for the short path, which closes
  whatever the freed block holds by then.  The self-call is about the same descriptor.
  `call_spec` says so for any property of events.

  A call closes its socket for a chunk of fewer than four bytes and for `DIS_CONN`; its
  self-call does for a packet that leaves one to three bytes over, or that declares more than
  was received, where the run outlives the negative length.  `ClosesSocket` is that set of
  chunks.
-/
import SensorServer.Parser.CallSpec

namespace SensorServer.Parser

open SensorServer.Framework
open SensorServer.Framework.Traced (emit stop Spec)

/-! ## §1. Bounds on events. -/

section Bounds

variable {P : Event → Prop} {ρ : Residue} {args : ThArgs}

/-- A bound on events that memory operations and log lines meet. -/
def Silent (P : Event → Prop) : Prop := ∀ e, e.target = none → P e

/-- Memory operations and log lines close nothing. -/
theorem silent_isClose : Silent fun e => e.isClose = false := by
  intro e he
  cases e <;> first | rfl | cases he

theorem abort_spec {α : Type} {Q : α → Prop} (hP : Silent P) : Spec P Q (abort : Traced Event α) :=
  Spec.emit_then (hP _ rfl) Spec.stop

theorem allocCleared_spec (hP : Silent P) (b : Block) (size : Int) :
    Spec P (fun _ => True) (allocCleared b size) := by
  unfold allocCleared
  apply Spec.emit_then (hP _ rfl)
  apply Spec.emit_then (hP _ rfl)
  split
  · exact abort_spec hP
  · exact Spec.pure trivial

theorem copyOut_spec (hP : Silent P) (b : Block) (size off len : Int) :
    Spec P (fun _ => True) (copyOut ρ args b size off len) := by
  unfold copyOut
  apply Spec.emit_then (hP _ rfl)
  split
  · exact abort_spec hP
  split
  · exact abort_spec hP
  split
  · exact abort_spec hP
  · exact Spec.pure trivial

/-- The switch replies on the descriptor of the block, and closes it for `DIS_CONN`. -/
theorem switchPacketType_spec (hP : Silent P) (hsend : ∀ bytes, P (.send args.socket_fd bytes))
    {packet_type : UInt8}
    (hclose : Case.select packet_type = .DIS_CONN → P (.close args.socket_fd)) (data_len : Int) :
    Spec P (fun _ => True) (switchPacketType ρ args packet_type data_len) := by
  unfold switchPacketType
  -- the statements of each case in their order
  cases hcase : Case.select packet_type with
  | PING =>
      apply Spec.emit_then (hP _ rfl)
      apply Spec.emit_then (hP _ rfl)
      apply Spec.emit_then (hsend _)
      exact Spec.pure trivial
  | CONN =>
      apply Spec.emit_then (hP _ rfl)
      apply (allocCleared_spec hP _ _).bind
      intro _ _
      apply (copyOut_spec hP _ _ _ _).bind
      intro uuid _
      apply Spec.emit_then (hP _ rfl)
      apply Spec.emit_then (hP _ rfl)
      apply Spec.emit_then (hsend _)
      apply Spec.emit_then (hP _ rfl)
      exact Spec.pure trivial
  | DIS_CONN =>
      apply Spec.emit_then (hP _ rfl)
      apply Spec.emit_then (hP _ rfl)
      apply Spec.emit_then (hclose hcase)
      exact Spec.pure trivial
  | SEND =>
      apply (allocCleared_spec hP _ _).bind
      intro _ _
      apply (copyOut_spec hP _ _ _ _).bind
      intro data _
      apply Spec.emit_then (hP _ rfl)
      apply Spec.emit_then (hP _ rfl)
      apply Spec.emit_then (hsend _)
      apply Spec.emit_then (hP _ rfl)
      exact Spec.pure trivial
  | PUBLISH =>
      apply (allocCleared_spec hP _ _).bind
      intro _ _
      apply (copyOut_spec hP _ _ _ _).bind
      intro uuid _
      apply (allocCleared_spec hP _ _).bind
      intro _ _
      apply (copyOut_spec hP _ _ _ _).bind
      intro data _
      apply Spec.emit_then (hP _ rfl)
      apply Spec.emit_then (hP _ rfl)
      apply Spec.emit_then (hsend _)
      apply Spec.emit_then (hP _ rfl)
      apply Spec.emit_then (hP _ rfl)
      exact Spec.pure trivial
  | default =>
      apply Spec.emit_then (hP _ rfl)
      apply Spec.emit_then (hP _ rfl)
      exact Spec.stop

/-- The code after the switch acts on no descriptor. -/
theorem shiftRemaining_spec (hP : Silent P) (off : Int) :
    Spec P (fun args' => args'.socket_fd = args.socket_fd) (shiftRemaining ρ args off) := by
  unfold shiftRemaining
  apply Spec.emit_then (hP _ rfl)
  dsimp only
  split
  · apply Spec.emit_then (hP _ rfl)
    exact Spec.stop
  apply Spec.emit_then (hP _ rfl)
  apply Spec.emit_then (hP _ rfl)
  split
  · exact abort_spec hP
  apply Spec.emit_then (hP _ rfl)
  split
  · exact abort_spec hP
  · exact Spec.pure rfl

/-- **What a call acts on.**  Its replies and the close of `DIS_CONN` are for the descriptor
of its block, the close of a short remainder for the descriptor read after the block was
freed; the self-call has the same descriptor. -/
theorem call_spec (hP : Silent P)
    (hsend : ¬ args.recv_len < 4 → headerValue args.recv_buffer ρ.header_b3 = 5264211 →
      ∀ bytes, P (.send args.socket_fd bytes))
    (hclose : ¬ args.recv_len < 4 → headerValue args.recv_buffer ρ.header_b3 = 5264211 →
      Case.select (args.recv_buffer 3) = .DIS_CONN → P (.close args.socket_fd))
    (hshort : args.recv_len < 4 → P (.close ρ.freed_socket_fd)) :
    Spec P (fun args' => args'.socket_fd = args.socket_fd) (parsePacketCall ρ args) := by
  unfold parsePacketCall
  apply Spec.emit_then (hP _ rfl)
  split
  · rename_i hlen
    apply Spec.emit_then (hP _ rfl)
    apply Spec.emit_then (hP _ rfl)
    apply Spec.emit_then (hP _ rfl)
    apply Spec.emit_then (hshort hlen)
    exact Spec.stop
  rename_i hlen
  apply Spec.emit_then (hP _ rfl)
  split
  · rename_i hmagic
    apply Spec.emit_then (hP _ rfl)
    apply (switchPacketType_spec hP (hsend hlen hmagic) (hclose hlen hmagic) _).bind
    intro off _
    exact shiftRemaining_spec hP off
  · apply Spec.emit_then (hP _ rfl)
    exact Spec.stop

end Bounds

/-! ## §2. Chunks that close their socket. -/

/-- A packet of `size` bytes leaves the chunk a remainder, shorter than a header: one to three
bytes are over, or the chunk ends before the packet does and the remainder is negative. -/
def LeavesShort (bytes : List UInt8) (size : Nat) : Prop :=
  bytes.length ≠ size ∧ bytes.length < size + 4

/-- The chunks for which `parse_packet` may close the socket: shorter than a header, or
beginning with `DIS_CONN`, or with another packet whose remainder is shorter than a header.  A
`PUBLISH` without room for the UUID ends the process first. -/
def ClosesSocket (bytes : List UInt8) : Prop :=
  let m := Region.load bytes
  bytes.length < 4 ∨ (m 0 = 83 ∧ m 1 = 83 ∧ m 2 = 80) ∧
    match Case.select (m 3) with
    | .PING => LeavesShort bytes 4
    | .CONN | .SEND => LeavesShort bytes (6 + dataLen m)
    | .PUBLISH => 32 ≤ dataLen m ∧ LeavesShort bytes (6 + dataLen m)
    | .DIS_CONN => True
    | .default => False

/-- The offset the switch goes on with. -/
theorem switchPacketType_offset {ρ : Residue} {args : ThArgs} {packet_type : UInt8}
    {data_len : Nat} {off : Int}
    (h : (switchPacketType ρ args packet_type data_len).result = some off) :
    match Case.select packet_type with
    | .PING => off = 4
    | .CONN | .SEND => off = 6 + data_len
    | .PUBLISH => 32 ≤ data_len ∧ off = 6 + data_len
    | .DIS_CONN => True
    | .default => False := by
  unfold switchPacketType at h
  cases hcase : Case.select packet_type with
  | PING =>
      simp only [hcase, casePing_eq, Option.some.injEq] at h
      exact h.symm
  | CONN =>
      simp only [hcase, caseConn_eq, Option.some.injEq] at h
      exact h.symm
  -- `DIS_CONN` sets no offset: what the local held is used
  | DIS_CONN => trivial
  | SEND =>
      simp only [hcase] at h
      by_cases hread : 6 + (data_len : Int) ≤ RECV_BUFFER_LEN ∨ ρ.overread = true
      · rw [caseSend_ok (by omega) hread] at h
        exact (Option.some.inj h).symm
      · rw [not_or] at hread
        rw [caseSend_fault (by omega) ⟨by omega, by simpa using hread.2⟩] at h
        cases h
  | PUBLISH =>
      simp only [hcase] at h
      by_cases hsurv : PublishSurvives ρ data_len
      · rw [casePublish_ok hsurv] at h
        have h32 := hsurv.1
        exact ⟨by omega, (Option.some.inj h).symm⟩
      · obtain ⟨t, ht, -⟩ := casePublish_fault args hsurv
        rw [ht] at h
        cases h
  | default =>
      simp only [hcase] at h
      cases h

/-- A block whose call closes nothing: a chunk that does not close its socket, or a remainder
of at least a header, which is always cleared. -/
def Harmless (args : ThArgs) : Prop :=
  (∃ fd bytes, args = ThArgs.received fd bytes ∧ ¬ ClosesSocket bytes)
    ∨ 4 ≤ args.recv_len ∧ args.recv_buffer 0 = 0

/-- **A harmless call closes nothing, and its self-call is harmless.** -/
theorem Harmless.call (ρ : Residue) {args : ThArgs} (h : Harmless args) :
    (∀ e ∈ (parsePacketCall ρ args).trace, e.isClose = false)
      ∧ ∀ args', (parsePacketCall ρ args).result = some args' → Harmless args' := by
  rcases h with ⟨fd, bytes, rfl, hchunk⟩ | ⟨hlen, hzero⟩
  · have hlong : ¬ (ThArgs.received fd bytes).recv_len < 4 := by
      intro hshort
      have hshort' : (bytes.length : Int) < 4 := hshort
      exact hchunk (.inl (by omega))
    refine ⟨?_, fun args' hnext => .inr ?_⟩
    · refine (call_spec silent_isClose (fun _ _ _ => rfl) ?_
        (fun hshort => absurd hshort hlong)).events
      intro _ hmagic hcase
      -- a chunk that begins with `DIS_CONN` is not harmless
      obtain ⟨h0, h1, h2, -⟩ := (headerValue_eq_magic _ _).mp hmagic
      refine absurd (.inr ⟨⟨h0, h1, h2⟩, ?_⟩) hchunk
      have hcase' : Case.select (Region.load bytes 3) = .DIS_CONN := hcase
      rw [hcase']
      trivial
    · obtain ⟨-, hmagic, off, hswitch, hshift⟩ := parsePacketCall_some hnext
      obtain ⟨-, hrest, ⟨hmore, -, -⟩, hcleared⟩ := shiftRemaining_some hshift
      obtain ⟨h0, h1, h2, -⟩ := (headerValue_eq_magic _ _).mp hmagic
      have hmore' : (bytes.length : Int) ≠ off := hmore
      have hlen : 0 ≤ off → args'.recv_len = bytes.length - off :=
        fun hoff => hrest.trans (recvLenCleared_of_nonneg hoff _)
      suffices hshort : 4 ≤ args'.recv_len from ⟨hshort, hcleared 0 (by omega)⟩
      -- a remainder shorter than a header would be closed by the self-call
      by_contra hshort
      refine hchunk (.inr ⟨⟨h0, h1, h2⟩, ?_⟩)
      have hoffset := switchPacketType_offset hswitch
      -- the case decides where the next packet begins
      have hload : (ThArgs.received fd bytes).recv_buffer = Region.load bytes := rfl
      rw [hload] at hoffset
      unfold LeavesShort
      cases hcase : Case.select (Region.load bytes 3) with
      | PING | CONN | SEND | PUBLISH =>
          simp only [hcase] at hoffset ⊢
          omega
      | DIS_CONN => trivial
      | default =>
          rw [hcase] at hoffset
          exact hoffset
  · -- zeros are not the magic number
    rw [parsePacketCall_drop ρ args (Int.not_lt.mpr hlen) (headerValue_cleared hzero _)]
    refine ⟨by simp [Event.isClose], fun _ hnext => ?_⟩
    cases hnext

/-! ## §3. Blocks that act. -/

/-- The call of the block may send or close: it is shorter than a header, or it begins with
the magic bytes. -/
def ThArgs.Speaks (args : ThArgs) : Prop :=
  args.recv_len < 4 ∨
    args.recv_buffer 0 = 83 ∧ args.recv_buffer 1 = 83 ∧ args.recv_buffer 2 = 80

instance : DecidablePred ThArgs.Speaks := fun _ => instDecidableOr

/-- Only a block that speaks sends or closes, and on its own descriptor if the freed block
still holds it. -/
theorem call_targets {ρ : Residue} {args : ThArgs}
    (hfreed : args.recv_len < 4 → ρ.freed_socket_fd = args.socket_fd) :
    ∀ e ∈ (parsePacketCall ρ args).trace, ∀ fd, e.target = some fd →
      args.Speaks ∧ fd = args.socket_fd := by
  have hmagic : headerValue args.recv_buffer ρ.header_b3 = 5264211 → args.Speaks := by
    intro h
    obtain ⟨h0, h1, h2, -⟩ := (headerValue_eq_magic _ _).mp h
    exact .inr ⟨h0, h1, h2⟩
  refine (call_spec (P := fun e => ∀ fd, e.target = some fd → args.Speaks ∧ fd = args.socket_fd)
    ?_ ?_ ?_ ?_).events
  · intro e he fd hfd
    rw [he] at hfd
    cases hfd
  · intro _ h bytes fd hfd
    exact ⟨hmagic h, (Option.some.inj hfd).symm⟩
  · intro _ h _ fd hfd
    exact ⟨hmagic h, (Option.some.inj hfd).symm⟩
  · intro hshort fd hfd
    exact ⟨.inl hshort, (Option.some.inj hfd).symm.trans (hfreed hshort)⟩

/-- A self-call is made by a block that speaks, for the same descriptor. -/
theorem call_next {ρ : Residue} {args args' : ThArgs}
    (h : (parsePacketCall ρ args).result = some args') :
    args.Speaks ∧ args'.socket_fd = args.socket_fd := by
  obtain ⟨-, hmagic, -⟩ := parsePacketCall_some h
  obtain ⟨h0, h1, h2, -⟩ := (headerValue_eq_magic _ _).mp hmagic
  refine ⟨.inr ⟨h0, h1, h2⟩, ?_⟩
  have hspec : Spec (fun _ => True) (fun args' => args'.socket_fd = args.socket_fd)
      (parsePacketCall ρ args) :=
    call_spec (fun _ _ => trivial) (fun _ _ _ => trivial) (fun _ _ _ => trivial) (fun _ => trivial)
  exact hspec.value _ h

end SensorServer.Parser
