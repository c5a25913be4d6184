/-
  SensorServer.Parser.Remainder — what becomes of the bytes behind a packet.

  A run is its first call up to the switch, the packet's case, and `afterSwitch`: the code
  after the switch, with the self-call if it comes to one.  That part sends nothing.  It
  closes a descriptor exactly when the self-call is left with fewer than four bytes
  (`ShortRemainder`): one to three bytes are over, the packet declares more than was received
  and the negative length does no harm, or the offset that `DIS_CONN` goes on with lies before
  the buffer, where the clearing reaches `recv_len`.
-/
import SensorServer.Parser.Effects
import SensorServer.Parser.Received

namespace SensorServer.Parser

open SensorServer.Framework
open SensorServer.Framework.Traced (Spec)

/-! ## §1. Calls without a packet. -/

section NoPacket

variable {ρ : Residue} {args : ThArgs}

/-- Zeros are not a packet. -/
theorem not_packet_of_cleared
    (h : ∀ i : Nat, (i : Int) < args.recv_len → args.recv_buffer i = 0) :
    ¬ (BeginsPacket args ∧ ρ.header_b3 = 0) := by
  rintro ⟨⟨h4, h0, -⟩, -⟩
  rw [h 0 (by omega)] at h0
  cases h0

/-- Such a call sends nothing, and closes a descriptor only if it is too short. -/
theorem no_packet_closes (h : ¬ (BeginsPacket args ∧ ρ.header_b3 = 0)) (fd : Int) :
    (parsePacketCall ρ args).trace.count (.close fd)
      = if args.recv_len < 4 ∧ ρ.freed_socket_fd = fd then 1 else 0 := by
  rcases no_packet_cases h with ⟨hlen, hcall⟩ | ⟨hlen, hcall⟩
  · rw [hcall]
    by_cases hfd : ρ.freed_socket_fd = fd
    · simp [hlen, hfd]
    · simp [hlen, hfd]
  · rw [hcall]
    simp [hlen]

theorem close_no_packet_iff (h : ¬ (BeginsPacket args ∧ ρ.header_b3 = 0)) (fd : Int) :
    .close fd ∈ (parsePacketCall ρ args).trace
      ↔ args.recv_len < 4 ∧ ρ.freed_socket_fd = fd := by
  rw [← List.count_pos_iff, no_packet_closes h]
  split <;> simp [*]

/-- It does not end the process. -/
theorem no_packet_lives (h : ¬ (BeginsPacket args ∧ ρ.header_b3 = 0)) :
    .fault ∉ (parsePacketCall ρ args).trace := by
  rcases no_packet_cases h with ⟨-, hcall⟩ | ⟨-, hcall⟩ <;> rw [hcall] <;> simp

end NoPacket

theorem count_close_eq_zero {t : List Event} (h : ∀ e ∈ t, e.isClose = false) (fd : Int) :
    t.count (.close fd) = 0 := by
  apply List.count_eq_zero_of_not_mem
  intro hmem
  cases h _ hmem

/-! ## §2. The run on a packet. -/

/-- What follows the switch on a block that goes on at `off`. -/
def afterSwitch (ρ : Nat → Residue) (args : ThArgs) (off : Int) : List Event :=
  (shiftRemaining (ρ 0) args off).trace ++
    match (shiftRemaining (ρ 0) args off).result with
    | none => []
    | some args' => (parsePacketCall (ρ 1) args').trace

/-- The events of `DIS_CONN`. -/
def disConnEvents (fd : Int) : List Event :=
  [.logDebug "Client DIS_CONN" [], .access .socket_fd, .close fd]

/-- The events of an unknown packet type. -/
def unknownEvents : List Event :=
  [.access .recv_buffer, .logError "Unknown packet type: %d, recv_buffer is: %s"]

theorem switchPacketType_dis_conn (ρ : Residue) (args : ThArgs) {packet_type : UInt8}
    (h : Case.select packet_type = .DIS_CONN) (data_len : Int) :
    switchPacketType ρ args packet_type data_len
      = ⟨disConnEvents args.socket_fd, some ρ.next_parse_offset⟩ := by
  rw [switchPacketType, h]
  rfl

theorem switchPacketType_unknown (ρ : Residue) (args : ThArgs) {packet_type : UInt8}
    (h : Case.select packet_type = .default) (data_len : Int) :
    switchPacketType ρ args packet_type data_len = ⟨unknownEvents, none⟩ := by
  rw [switchPacketType, h]
  rfl

section Runs

variable {fuel : Nat} {ρ : Nat → Residue} {args : ThArgs} {t : List Event}

/-- The run on a packet whose case goes on at `off`. -/
theorem parsePacket_switched (hfuel : 2 ≤ fuel) (hp : BeginsPacket args)
    (hb3 : (ρ 0).header_b3 = 0) {off : Int}
    (hsw : switchPacketType (ρ 0) args (args.recv_buffer 3) (dataLen args.recv_buffer)
      = ⟨t, some off⟩) :
    parsePacket fuel ρ args = some ((headerEvents ++ t) ++ afterSwitch ρ args off) := by
  have hcall : parsePacketCall (ρ 0) args
      = ⟨headerEvents ++ (t ++ (shiftRemaining (ρ 0) args off).trace),
        (shiftRemaining (ρ 0) args off).result⟩ := by
    rw [parsePacketCall_begins hp hb3, hsw, Traced.some_bind]
    rfl
  have hassoc : ∀ rest, headerEvents ++ (t ++ (shiftRemaining (ρ 0) args off).trace) ++ rest
      = headerEvents ++ t ++ ((shiftRemaining (ρ 0) args off).trace ++ rest) := by
    intro rest
    simp only [List.append_assoc]
  rw [parsePacket_eq hfuel, hcall]
  exact congrArg some (hassoc _)

/-- The run on a packet whose case is the end of it. -/
theorem parsePacket_stopped (hfuel : 2 ≤ fuel) (hp : BeginsPacket args)
    (hb3 : (ρ 0).header_b3 = 0)
    (hsw : switchPacketType (ρ 0) args (args.recv_buffer 3) (dataLen args.recv_buffer)
      = ⟨t, none⟩) :
    parsePacket fuel ρ args = some (headerEvents ++ t) := by
  rw [parsePacket_eq hfuel, parsePacketCall_begins hp hb3, hsw, Traced.none_bind,
    Traced.some_bind]
  exact congrArg some (List.append_nil _)

/-- The run on a packet begins with its case. -/
theorem parsePacket_begins (hfuel : 2 ≤ fuel) (hp : BeginsPacket args)
    (hb3 : (ρ 0).header_b3 = 0) (hrun : parsePacket fuel ρ args = some t) :
    ∃ rest, t = headerEvents
      ++ (switchPacketType (ρ 0) args (args.recv_buffer 3) (dataLen args.recv_buffer)).trace
      ++ rest := by
  rcases hsw : switchPacketType (ρ 0) args (args.recv_buffer 3) (dataLen args.recv_buffer)
    with ⟨u, _ | off⟩
  · rw [parsePacket_stopped hfuel hp hb3 hsw, Option.some.injEq] at hrun
    exact ⟨[], by rw [← hrun, List.append_nil]⟩
  · rw [parsePacket_switched hfuel hp hb3 hsw, Option.some.injEq] at hrun
    exact ⟨_, hrun.symm⟩

/-- The run on a block that is not taken for a packet is its first call. -/
theorem parsePacket_no_packet (hfuel : 2 ≤ fuel)
    (h : ¬ (BeginsPacket args ∧ (ρ 0).header_b3 = 0)) :
    parsePacket fuel ρ args = some (parsePacketCall (ρ 0) args).trace := by
  rw [parsePacket_eq hfuel]
  rcases no_packet_cases h with ⟨-, hcall⟩ | ⟨-, hcall⟩ <;>
    rw [hcall] <;> exact congrArg some (List.append_nil _)

end Runs

/-! ## §3. Remainders too short for a header. -/

/-- The code after the switch on a block of `recv_len` bytes comes to a self-call of fewer than
four bytes.  One to three bytes are left; or a negative number of bytes, and the operations of
that length return; or the clearing, which begins before the buffer, takes the upper three
bytes of `recv_len`, or all of it. -/
def ShortRemainder (ρ : Residue) (recv_len off : Int) : Prop :=
  (off < recv_len ∧ recv_len < off + 4)
    ∨ (recv_len < off ∧ ρ.wraparound = true)
    ∨ (off = -3 ∧ (recv_len + 3) % 256 < 4)
    ∨ (-8 ≤ off ∧ off ≤ -4)
    ∨ (off < -8 ∧ ρ.underrun = true)

instance (ρ : Residue) (recv_len off : Int) : Decidable (ShortRemainder ρ recv_len off) := by
  unfold ShortRemainder
  infer_instance

/-- Behind a packet, a remainder is short when fewer than four bytes, but not none, are left, and
the operations return if their number is negative. -/
theorem shortRemainder_behind {ρ : Residue} {recv_len off : Int} (h0 : 0 ≤ off) :
    ShortRemainder ρ recv_len off ↔
      (recv_len ≠ off ∧ recv_len < off + 4) ∧ (recv_len < off → ρ.wraparound = true) := by
  unfold ShortRemainder
  constructor
  · rintro (⟨hlt, hgt⟩ | ⟨hlt, hwrap⟩ | ⟨hoff, -⟩ | ⟨-, hoff⟩ | ⟨hoff, -⟩)
    · exact ⟨⟨by omega, hgt⟩, fun hneg => absurd hlt (by omega)⟩
    · exact ⟨⟨by omega, by omega⟩, fun _ => hwrap⟩
    all_goals omega
  · rintro ⟨⟨hne, hgt⟩, hwrap⟩
    by_cases hneg : recv_len < off
    · exact .inr (.inl ⟨hneg, hwrap hneg⟩)
    · exact .inl ⟨by omega, hgt⟩

/-- From four bytes before the buffer, all of `recv_len` is cleared. -/
theorem recvLenCleared_all {off : Int} (h : off ≤ -4) (recv_len : Int) :
    recvLenCleared off recv_len = 0 := by
  unfold recvLenCleared
  rw [if_neg (by omega), if_neg (by omega), if_neg (by omega), if_neg (by omega)]

/-- Which bytes of `recv_len` are left, by where the clearing begins. -/
theorem recvLenCleared_before (recv_len : Int) :
    recvLenCleared (-1) recv_len = recv_len % 16777216
      ∧ recvLenCleared (-2) recv_len = recv_len % 65536
      ∧ recvLenCleared (-3) recv_len = recv_len % 256 := ⟨rfl, rfl, rfl⟩

section Rest

variable {args : ThArgs}

/-- **The self-call is short** exactly for the remainders of `ShortRemainder`. -/
theorem short_self_call_iff (ρ : Residue) (off : Int) (h4 : 4 ≤ args.recv_len)
    (hlen : args.recv_len ≤ RECV_BUFFER_LEN) :
    (∃ args', (shiftRemaining ρ args off).result = some args' ∧ args'.recv_len < 4)
      ↔ ShortRemainder ρ args.recv_len off := by
  have hsize : RECV_BUFFER_LEN = 10240 := rfl
  obtain ⟨h1, h2, h3⟩ := recvLenCleared_before (args.recv_len - off)
  constructor
  · -- from the self-call back to the offset: where the clearing begins decides what
    -- is left of `recv_len`
    rintro ⟨args', hnext, hshort⟩
    obtain ⟨-, hrest, ⟨hmore, hclear, hcopy⟩, -⟩ := shiftRemaining_some hnext
    unfold ShortRemainder
    by_cases h0 : 0 ≤ off
    · rw [recvLenCleared_of_nonneg h0] at hrest
      by_cases hneg : args'.recv_len < 0
      · have hwrap : ρ.wraparound = true := by
          by_contra hends
          exact hcopy (.inl ⟨hneg, by simpa using hends⟩)
        exact .inr (.inl ⟨by omega, hwrap⟩)
      · exact .inl ⟨by omega, by omega⟩
    · by_cases hbefore : off < -8
      · have hunder : ρ.underrun = true := by
          by_contra hends
          exact hclear (.inl ⟨hbefore, by simpa using hends⟩)
        exact .inr (.inr (.inr (.inr ⟨hbefore, hunder⟩)))
      · by_cases hall : off ≤ -4
        · exact .inr (.inr (.inr (.inl ⟨by omega, hall⟩)))
        · -- the length is small enough for its two lower bytes
          obtain rfl | rfl | rfl : off = -1 ∨ off = -2 ∨ off = -3 := by omega
          · rw [h1] at hrest
            omega
          · rw [h2] at hrest
            omega
          · rw [h3] at hrest
            exact .inr (.inr (.inl ⟨rfl, by omega⟩))
  · intro h
    -- and each of the five remainders gets past both calls
    suffices hon : args.recv_len ≠ off ∧ ¬ ClearFaults ρ off
        ∧ ¬ CopyFaults ρ off (recvLenCleared off (args.recv_len - off))
        ∧ recvLenCleared off (args.recv_len - off) < 4 by
      obtain ⟨hmore, hclear, hcopy, hshort⟩ := hon
      exact ⟨_, by rw [shiftRemaining_shifts hmore hclear hcopy], hshort⟩
    unfold ClearFaults CopyFaults
    rcases h with ⟨hlt, hgt⟩ | ⟨hlt, hwrap⟩ | ⟨rfl, hmod⟩ | ⟨hge, hle⟩ | ⟨hlt, hunder⟩
    · rw [recvLenCleared_of_nonneg (by omega)]
      refine ⟨by omega, ?_, ?_, by omega⟩ <;> omega
    · rw [recvLenCleared_of_nonneg (by omega)]
      simp only [hwrap, Bool.true_eq_false, and_false, or_false, false_or]
      refine ⟨by omega, ?_, ?_, by omega⟩ <;> omega
    · rw [h3]
      refine ⟨by omega, ?_, ?_, by omega⟩ <;> omega
    · rw [recvLenCleared_all hle]
      refine ⟨by omega, ?_, ?_, by omega⟩ <;> omega
    · rw [recvLenCleared_all (by omega)]
      simp only [hunder, Bool.true_eq_false, and_false, false_or]
      refine ⟨by omega, ?_, ?_, by omega⟩ <;> omega

end Rest

section AfterSwitch

variable {ρ : Nat → Residue} {args : ThArgs} {off : Int}

/-- The code after the switch closes nothing. -/
theorem shiftRemaining_closes (ρ : Residue) (args : ThArgs) (off : Int) :
    ∀ e ∈ (shiftRemaining ρ args off).trace, e.isClose = false :=
  (shiftRemaining_spec silent_isClose off).events

/-- What follows the switch sends nothing. -/
theorem sent_afterSwitch (ρ : Nat → Residue) (args : ThArgs) (off : Int) :
    sent (afterSwitch ρ args off) = [] := by
  unfold afterSwitch
  rw [sent_append, sent_shiftRemaining, List.nil_append]
  cases hnext : (shiftRemaining (ρ 0) args off).result with
  | none => rfl
  | some args' => exact sent_cleared (ρ 1) (shiftRemaining_some hnext).2.2.2

/-- It closes the descriptor that a self-call on a short remainder reads back. -/
theorem count_close_afterSwitch (ρ : Nat → Residue) (off : Int) (h4 : 4 ≤ args.recv_len)
    (hlen : args.recv_len ≤ RECV_BUFFER_LEN) (fd : Int) :
    (afterSwitch ρ args off).count (.close fd)
      = if ShortRemainder (ρ 0) args.recv_len off ∧ (ρ 1).freed_socket_fd = fd then 1 else 0 := by
  have hshort := short_self_call_iff (ρ 0) off h4 hlen
  unfold afterSwitch
  rw [List.count_append, count_close_eq_zero (shiftRemaining_closes (ρ 0) args off), Nat.zero_add]
  cases hnext : (shiftRemaining (ρ 0) args off).result with
  | none =>
      rw [if_neg, List.count_nil]
      rintro ⟨hrest, -⟩
      obtain ⟨args', hsome, -⟩ := hshort.mpr hrest
      rw [hnext] at hsome
      cases hsome
  | some args' =>
      have hzero := (shiftRemaining_some hnext).2.2.2
      have hiff : args'.recv_len < 4 ↔ ShortRemainder (ρ 0) args.recv_len off := by
        rw [← hshort, hnext]
        simp
      show (parsePacketCall (ρ 1) args').trace.count (.close fd) = _
      rw [no_packet_closes (not_packet_of_cleared hzero)]
      simp only [hiff]

theorem close_afterSwitch_iff (h4 : 4 ≤ args.recv_len) (hlen : args.recv_len ≤ RECV_BUFFER_LEN)
    (fd : Int) :
    .close fd ∈ afterSwitch ρ args off
      ↔ ShortRemainder (ρ 0) args.recv_len off ∧ (ρ 1).freed_socket_fd = fd := by
  rw [← List.count_pos_iff, count_close_afterSwitch ρ off h4 hlen]
  split <;> simp [*]

/-- Behind a packet, the shift ends the process when the packet declares more than was received
and the negative length is not survived. -/
theorem fault_shiftRemaining_iff {ρ : Residue} (h0 : 0 ≤ off)
    (hlen : args.recv_len ≤ RECV_BUFFER_LEN) :
    .fault ∈ (shiftRemaining ρ args off).trace
      ↔ args.recv_len < off ∧ ρ.wraparound = false := by
  have hsize : recvLenCleared off (args.recv_len - off) = args.recv_len - off :=
    recvLenCleared_of_nonneg h0 _
  refine shiftRemaining_cases ρ args off (P := fun r => .fault ∈ r.trace ↔ _) ?_ ?_ ?_ ?_
  · intro hdone
    refine iff_of_false (by simp) ?_
    rintro ⟨hlt, -⟩
    omega
  · rintro - (⟨hbefore, -⟩ | ⟨hbehind, hends⟩)
    · omega
    · exact iff_of_true (by simp) ⟨by omega, hends⟩
  · rintro - - (⟨hneg, hends⟩ | ⟨hpos, hlong⟩ | ⟨hlong, -⟩)
    · exact iff_of_true (by simp) ⟨by omega, hends⟩
    · omega
    · omega
  · intro _ _ hcopy
    refine iff_of_false (by simp) ?_
    rintro ⟨hlt, hends⟩
    exact hcopy (.inl ⟨by omega, hends⟩)

/-- The self-call does not end the process, so what follows a packet does when the shift does. -/
theorem fault_afterSwitch_iff (h0 : 0 ≤ off) (hlen : args.recv_len ≤ RECV_BUFFER_LEN) :
    .fault ∈ afterSwitch ρ args off ↔ args.recv_len < off ∧ (ρ 0).wraparound = false := by
  rw [← fault_shiftRemaining_iff h0 hlen]
  unfold afterSwitch
  rw [List.mem_append, or_iff_left]
  cases hnext : (shiftRemaining (ρ 0) args off).result with
  | none => exact List.not_mem_nil
  | some args' =>
      exact no_packet_lives (not_packet_of_cleared (shiftRemaining_some hnext).2.2.2)

end AfterSwitch

end SensorServer.Parser
