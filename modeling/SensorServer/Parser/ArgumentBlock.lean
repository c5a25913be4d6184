/-
  SensorServer.Parser.ArgumentBlock — what a run gives up, and what it does afterwards.

  A run is handed an argument block and a socket.  It should free the block once, as its last
  use of it, and leave a socket alone that it has closed.  `owns_block_iff` says for which
  chunks the first is true: every exit but "nothing remains" either keeps the block or reads
  it after it was freed.  `closed_last_iff` says when the second is: the run goes on after
  `DIS_CONN`, and may come to the exit that closes the socket a second time.
-/
import SensorServer.Parser.Remainder
import SensorServer.Parser.SinglePacket

namespace SensorServer.Parser

open SensorServer.Framework
open SensorServer.Framework.Traced (Spec)

/-! ## §1. Calls without a packet. -/

section NoPacket

variable {ρ : Residue} {args : ThArgs}

/-- A call without a packet does not free the block as its last use of it. -/
theorem no_packet_not_owned {u : List Event} (hu : .freeArgs ∉ u)
    (h : ¬ (BeginsPacket args ∧ ρ.header_b3 = 0)) :
    ¬ GivenUpOnce .freeArgs Event.UsesArgs (u ++ (parsePacketCall ρ args).trace) := by
  rw [givenUpOnce_append_left hu]
  rcases no_packet_cases h with ⟨-, hcall⟩ | ⟨-, hcall⟩
  · -- the descriptor is read after the block was freed
    rw [hcall, givenUpOnce_append_left (by simp), givenUpOnce_cons_self]
    rintro ⟨-, hquiet⟩
    exact hquiet (.access .socket_fd) (by simp) trivial
  · rw [hcall]
    exact not_givenUpOnce_of_not_mem (by simp)

end NoPacket

/-! ## §2. The argument block. -/

/-- The block is freed exactly once and not used afterwards, and only the descriptor that was
stored in it is closed. -/
structure OwnsBlock (args : ThArgs) (t : List Event) : Prop where
  released : GivenUpOnce .freeArgs Event.UsesArgs t
  closes : ∀ fd, .close fd ∈ t → fd = args.socket_fd

/-- What was received is one complete `PING`, `CONN` or `SEND`, and no more. -/
def HoldsOnePacket (args : ThArgs) : Prop :=
  BeginsPacket args ∧
    match Case.select (args.recv_buffer 3) with
    | .PING => args.recv_len = 4
    | .CONN | .SEND => args.recv_len = 6 + (dataLen args.recv_buffer : Int)
    | _ => False

/-- The event neither frees the argument block nor closes anything. -/
def Event.Plain (e : Event) : Prop := e ≠ .freeArgs ∧ e.isClose = false

/-- **After the switch**, the block is freed as it should be only where nothing remains. -/
theorem owns_afterSwitch_iff {ρ : Nat → Residue} {args : ThArgs} {off : Int} {u : List Event}
    (hu : ∀ e ∈ u, e.Plain) :
    OwnsBlock args (u ++ afterSwitch ρ args off) ↔ args.recv_len = off := by
  have hfree : Event.freeArgs ∉ u := fun hmem => (hu _ hmem).1 rfl
  by_cases hrest : args.recv_len = off
  · have hdone : afterSwitch ρ args off = [.access .recv_len] ++ [.freeArgs] := by
      unfold afterSwitch
      rw [shiftRemaining_done hrest]
      rfl
    refine iff_of_true ⟨?_, ?_⟩ hrest
    · rw [givenUpOnce_append_left hfree, hdone, givenUpOnce_append_left (by simp),
        givenUpOnce_cons_self]
      simp
    · intro fd hclose
      rw [hdone] at hclose
      rcases List.mem_append.mp hclose with hclose | hclose
      · have hplain := (hu _ hclose).2
        cases hplain
      · simp at hclose
  refine iff_of_false (fun howns => ?_) hrest
  have hreleased := howns.released
  unfold afterSwitch at hreleased
  have hkeeps : Event.freeArgs ∉ (shiftRemaining (ρ 0) args off).trace := by
    refine shiftRemaining_cases (ρ 0) args off (P := fun r => .freeArgs ∉ r.trace) ?_ ?_ ?_ ?_
    · exact fun hdone => absurd hdone hrest
    all_goals simp
  cases hnext : (shiftRemaining (ρ 0) args off).result with
  | none =>
      rw [hnext, List.append_nil] at hreleased
      exact not_givenUpOnce_of_not_mem (by simp [hfree, hkeeps]) hreleased
  | some args' =>
      -- the self-call finds zeros, and leaves by one of the exits that do not own the block
      rw [hnext, ← List.append_assoc] at hreleased
      have hzero := (shiftRemaining_some hnext).2.2.2
      exact no_packet_not_owned (by simp [hfree, hkeeps]) (not_packet_of_cleared hzero) hreleased

section Switched

variable {fuel : Nat} {ρ : Nat → Residue} {args : ThArgs} {t : List Event}

theorem headerEvents_plain : ∀ e ∈ headerEvents, e.Plain := by
  simp [headerEvents, Event.Plain, Event.isClose]

/-- A packet whose case does plain things and goes on at `off` is owned if it ends there. -/
theorem owns_switched_iff (hfuel : 2 ≤ fuel) (hp : BeginsPacket args)
    (hb3 : (ρ 0).header_b3 = 0) {u : List Event} {off : Int}
    (hsw : switchPacketType (ρ 0) args (args.recv_buffer 3) (dataLen args.recv_buffer)
      = ⟨u, some off⟩) (hu : ∀ e ∈ u, e.Plain)
    (hrun : parsePacket fuel ρ args = some t) :
    OwnsBlock args t ↔ args.recv_len = off := by
  rw [parsePacket_switched hfuel hp hb3 hsw, Option.some.injEq] at hrun
  subst hrun
  refine owns_afterSwitch_iff ?_
  intro e he
  rcases List.mem_append.mp he with he | he
  · exact headerEvents_plain e he
  · exact hu e he

/-- A `SEND` whose run leaves no block copies from inside the buffer. -/
theorem send_reads_inside (hfuel : 2 ≤ fuel) (hp : BeginsPacket args)
    (hb3 : (ρ 0).header_b3 = 0)
    (hsw : switchPacketType (ρ 0) args (args.recv_buffer 3) (dataLen args.recv_buffer)
      = caseSend (ρ 0) args (dataLen args.recv_buffer))
    (hrun : parsePacket fuel ρ args = some t) (hrange : InRange t) :
    6 + (dataLen args.recv_buffer : Int) ≤ RECV_BUFFER_LEN ∨ (ρ 0).overread = true := by
  by_contra hread
  rw [not_or] at hread
  have hfault := hsw.trans (caseSend_fault (by omega) ⟨by omega, by simpa using hread.2⟩)
  rw [parsePacket_stopped hfuel hp hb3 hfault, Option.some.injEq] at hrun
  subst hrun
  unfold InRange at hrange
  simp [headerEvents, Event.memOps, ownBlocks] at hrange
  omega

/-- **The argument block.**  A run that leaves no block frees its argument block exactly once,
as its last use of it, exactly when what was received is one complete `PING`, `CONN` or
`SEND`. -/
theorem owns_block_iff (hfuel : 2 ≤ fuel) (hb3 : (ρ 0).header_b3 = 0)
    (htype : args.recv_buffer 3 ≠ PacketType.DIS_CONN.toByte)
    (hrun : parsePacket fuel ρ args = some t) (hrange : InRange t) :
    OwnsBlock args t ↔ HoldsOnePacket args := by
  by_cases hp : BeginsPacket args
  · have hselect := Case.select_type (args.recv_buffer 3)
    unfold HoldsOnePacket
    cases hcase : Case.select (args.recv_buffer 3) with
    | PING =>
        have hsw : switchPacketType (ρ 0) args (args.recv_buffer 3) (dataLen args.recv_buffer)
            = casePing args := by rw [switchPacketType, hcase]
        rw [owns_switched_iff hfuel hp hb3 (hsw.trans casePing_eq) ?_ hrun,
          and_iff_right hp]
        simp [Event.Plain, Event.isClose]
    | CONN =>
        have hsw : switchPacketType (ρ 0) args (args.recv_buffer 3) (dataLen args.recv_buffer)
            = caseConn (ρ 0) args (dataLen args.recv_buffer) := by rw [switchPacketType, hcase]
        rw [owns_switched_iff hfuel hp hb3 (hsw.trans caseConn_eq) ?_ hrun,
          and_iff_right hp]
        simp [Event.Plain, Event.isClose]
    | SEND =>
        have hsw : switchPacketType (ρ 0) args (args.recv_buffer 3) (dataLen args.recv_buffer)
            = caseSend (ρ 0) args (dataLen args.recv_buffer) := by rw [switchPacketType, hcase]
        -- no read behind the buffer, so the copy of the payload returns
        have hread := send_reads_inside hfuel hp hb3 hsw hrun hrange
        rw [owns_switched_iff hfuel hp hb3 (hsw.trans (caseSend_ok (by omega) hread)) ?_ hrun,
          and_iff_right hp]
        simp [Event.Plain, Event.isClose]
    | PUBLISH =>
        have hsw : switchPacketType (ρ 0) args (args.recv_buffer 3) (dataLen args.recv_buffer)
            = casePublish (ρ 0) args (dataLen args.recv_buffer) := by
          rw [switchPacketType, hcase]
        -- the copy behind the block is out of range, whatever `data_len` is
        obtain ⟨rest, rfl⟩ := parsePacket_begins hfuel hp hb3 hrun
        rw [hsw] at hrange
        exact absurd hrange.of_append (casePublish_not_inRange args _)
    | DIS_CONN =>
        rw [hcase] at hselect
        exact absurd hselect htype
    | default =>
        have hsw := switchPacketType_unknown (ρ 0) args hcase (dataLen args.recv_buffer)
        rw [parsePacket_stopped hfuel hp hb3 hsw, Option.some.injEq] at hrun
        subst hrun
        refine ⟨fun howns => ?_, fun h => absurd h.2 id⟩
        -- an unknown type ends the run without a `free`
        exact absurd howns.released
          (not_givenUpOnce_of_not_mem (by simp [headerEvents, unknownEvents]))
  · have hnot : ¬ (BeginsPacket args ∧ (ρ 0).header_b3 = 0) := fun h => hp h.1
    rw [parsePacket_no_packet hfuel hnot, Option.some.injEq] at hrun
    subst hrun
    -- no packet: freed and then read, or never freed
    refine ⟨fun howns => ?_, fun h => absurd h.1 hp⟩
    exact absurd howns.released (no_packet_not_owned List.not_mem_nil hnot)

/-- A `PING`. -/
theorem owns_block_ping :
    OwnsBlock (ThArgs.received 5 [83, 83, 80, 0])
      (headerEvents ++ [.logDebug "Client PING" [], .access .socket_fd,
        .send 5 (reply .PING_OK), .access .recv_len, .freeArgs]) :=
  (owns_block_iff (ρ := fun _ => .quiet 5) (Nat.le_refl 2) rfl (by decide) rfl (by
    unfold InRange
    simp [headerEvents, Event.memOps, ownBlocks, RECV_BUFFER_LEN])).mpr ⟨by decide, rfl⟩

/-- One byte is received, and the block has been handed to another connection by the time its
descriptor is read: that connection's socket is closed. -/
theorem short_chunk_closes_other :
    ∃ t, parsePacket 2 (fun _ => .quiet 9) (ThArgs.received 5 [83]) = some t
      ∧ (ThArgs.received 5 [83]).recv_buffer 3 ≠ PacketType.DIS_CONN.toByte
      ∧ InRange t ∧ ¬ OwnsBlock (ThArgs.received 5 [83]) t := by
  refine ⟨_, rfl, by decide, ?_, fun howns => ?_⟩
  · unfold InRange
    simp [Event.memOps, ThArgs.received, Traced.emit]
  · have hclose := howns.closes 9 (by decide)
    cases hclose

/-! ## §3. The socket. -/

/-- The descriptor is closed at most once, and nothing is sent on it afterwards. -/
structure ClosedLast (fd : Int) (t : List Event) : Prop where
  once : t.count (.close fd) ≤ 1
  last : QuietAfter (.close fd) (fun e => ∃ bytes, e = .send fd bytes) t

/-- The first call takes the block for a `DIS_CONN`, the offset it happens to go on with leads
to a self-call of fewer than four bytes, and the block freed there still holds the
descriptor. -/
def ClosesTwice (ρ : Nat → Residue) (args : ThArgs) : Prop :=
  BeginsPacket args ∧ (ρ 0).header_b3 = 0 ∧ Case.select (args.recv_buffer 3) = .DIS_CONN
    ∧ ShortRemainder (ρ 0) args.recv_len (ρ 0).next_parse_offset
    ∧ (ρ 1).freed_socket_fd = args.socket_fd

/-- A trace that sends nothing leaves every socket alone. -/
theorem quietAfter_of_sent_nil {fd : Int} {t : List Event} (h : sent t = []) :
    QuietAfter (.close fd) (fun e => ∃ bytes, e = .send fd bytes) t := by
  apply quietAfter_of_not_uses
  rintro e he ⟨bytes, rfl⟩
  have hmem := mem_sent.mpr he
  rw [h] at hmem
  cases hmem

/-- Nothing is closed before `v`, which closes at most once and sends nothing. -/
theorem closedLast_append {fd : Int} {u v : List Event} (hu : ∀ e ∈ u, e.isClose = false)
    (hsent : sent v = []) (honce : v.count (.close fd) ≤ 1) : ClosedLast fd (u ++ v) := by
  have hnot : .close fd ∉ u := by
    intro hmem
    cases hu _ hmem
  constructor
  · rw [List.count_append, count_close_eq_zero hu, Nat.zero_add]
    exact honce
  · rw [quietAfter_append_left hnot]
    exact quietAfter_of_sent_nil hsent

/-- A packet of another type than `DIS_CONN` closes nothing before the end. -/
theorem closedLast_of_other (hfuel : 2 ≤ fuel) (hlen : args.recv_len ≤ RECV_BUFFER_LEN)
    (hp : BeginsPacket args) (hb3 : (ρ 0).header_b3 = 0)
    (htype : Case.select (args.recv_buffer 3) ≠ .DIS_CONN) :
    ∃ t, parsePacket fuel ρ args = some t ∧ ClosedLast args.socket_fd t := by
  have hspec : Spec (fun e => e.isClose = false) (fun _ => True)
      (switchPacketType (ρ 0) args (args.recv_buffer 3) (dataLen args.recv_buffer)) :=
    switchPacketType_spec silent_isClose (fun _ => rfl) (fun h => absurd h htype) _
  have hswitch := hspec.events
  have hheader : ∀ e ∈ headerEvents, e.isClose = false := by decide
  rcases hsw : switchPacketType (ρ 0) args (args.recv_buffer 3) (dataLen args.recv_buffer)
    with ⟨u, _ | off⟩
  all_goals
    rw [hsw] at hswitch
    have hu : ∀ e ∈ headerEvents ++ u, e.isClose = false := by
      intro e he
      rcases List.mem_append.mp he with he | he
      · exact hheader e he
      · exact hswitch e he
  · -- the run ends in the switch, which closed nothing
    refine ⟨_, parsePacket_stopped hfuel hp hb3 hsw, ?_⟩
    rw [← List.append_nil (headerEvents ++ u)]
    exact closedLast_append hu rfl (Nat.zero_le 1)
  · -- the run goes on, and at most the self-call closes
    refine ⟨_, parsePacket_switched hfuel hp hb3 hsw, closedLast_append hu
      (sent_afterSwitch ρ args off) ?_⟩
    rw [count_close_afterSwitch ρ off hp.1 hlen]
    split <;> omega

/-- `DIS_CONN` closes the socket, and what comes after it may close it again. -/
theorem closedLast_dis_conn_iff (hfuel : 2 ≤ fuel) (hlen : args.recv_len ≤ RECV_BUFFER_LEN)
    (hp : BeginsPacket args) (hb3 : (ρ 0).header_b3 = 0)
    (htype : Case.select (args.recv_buffer 3) = .DIS_CONN) :
    ∃ t, parsePacket fuel ρ args = some t
      ∧ (ClosedLast args.socket_fd t ↔ ¬ ClosesTwice ρ args) := by
  have hsw := switchPacketType_dis_conn (ρ 0) args htype (dataLen args.recv_buffer)
  have hcount := count_close_afterSwitch ρ (ρ 0).next_parse_offset hp.1 hlen args.socket_fd
  refine ⟨_, parsePacket_switched hfuel hp hb3 hsw, ?_⟩
  have htwice : ClosesTwice ρ args ↔
      ShortRemainder (ρ 0) args.recv_len (ρ 0).next_parse_offset
        ∧ (ρ 1).freed_socket_fd = args.socket_fd := by
    unfold ClosesTwice
    simp only [hp, hb3, htype, true_and]
  have hclosed : (headerEvents ++ disConnEvents args.socket_fd).count (.close args.socket_fd)
      = 1 := by simp [headerEvents, disConnEvents]
  -- one close in the switch: the question is whether the self-call adds another
  constructor
  · rintro ⟨honce, -⟩ htwo
    rw [List.count_append, hclosed, hcount, if_pos (htwice.mp htwo)] at honce
    omega
  · intro hone
    have hnone := hcount.trans (if_neg (mt htwice.mpr hone))
    constructor
    · rw [List.count_append]
      omega
    · apply quietAfter_of_sent_nil
      rw [sent_append, sent_afterSwitch]
      rfl

/-- **The socket.**  For every content of the buffer and every residue, a run closes its socket
at most once and sends nothing on it afterwards, exactly unless it goes on after a `DIS_CONN`
to close it again. -/
theorem closed_last_iff (hfuel : 2 ≤ fuel) (ρ : Nat → Residue) (args : ThArgs)
    (hlen : args.recv_len ≤ RECV_BUFFER_LEN) :
    ∃ t, parsePacket fuel ρ args = some t
      ∧ (ClosedLast args.socket_fd t ↔ ¬ ClosesTwice ρ args) := by
  by_cases hfront : BeginsPacket args ∧ (ρ 0).header_b3 = 0
  · obtain ⟨hp, hb3⟩ := hfront
    by_cases htype : Case.select (args.recv_buffer 3) = .DIS_CONN
    · exact closedLast_dis_conn_iff hfuel hlen hp hb3 htype
    · obtain ⟨t, hrun, hlast⟩ := closedLast_of_other hfuel hlen hp hb3 htype
      exact ⟨t, hrun, fun _ htwo => htype htwo.2.2.1, fun _ => hlast⟩
  · refine ⟨_, parsePacket_no_packet hfuel hfront, fun _ h => hfront ⟨h.1, h.2.1⟩, fun _ => ?_⟩
    constructor
    · rw [no_packet_closes hfront]
      split <;> omega
    · apply quietAfter_of_sent_nil
      rw [sent_parsePacketCall, if_neg hfront]

/-- A `DIS_CONN` with an offset that leaves nothing. -/
theorem closed_last_dis_conn :
    ∃ t, parsePacket 2 (fun _ => .quiet 5) (ThArgs.received 5 [83, 83, 80, 4]) = some t
      ∧ ClosedLast 5 t := by
  obtain ⟨t, hrun, hiff⟩ := closed_last_iff (Nat.le_refl 2) (fun _ => .quiet 5)
    (ThArgs.received 5 [83, 83, 80, 4]) (by decide)
  refine ⟨t, hrun, hiff.mpr fun htwice => ?_⟩
  exact absurd htwice.2.2.2.1 (by decide)

/-- A `DIS_CONN` whose offset happens to be 1: the self-call closes the socket again. -/
theorem dis_conn_closes_twice :
    ∃ t, parsePacket 2 (fun _ => { Residue.quiet 5 with next_parse_offset := 1 })
        (ThArgs.received 5 [83, 83, 80, 4]) = some t
      ∧ ¬ ClosedLast 5 t := by
  refine ⟨_, rfl, fun h => ?_⟩
  have honce := h.once
  revert honce
  decide

end Switched

end SensorServer.Parser
