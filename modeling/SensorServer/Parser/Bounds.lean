/-
  SensorServer.Parser.Bounds — what `parse_packet` reads and writes of `recv_buffer`.

  The length a packet declares is neither compared with `recv_len` nor with the size of the
  buffer.  `stays_inside_iff` says for which contents every range of `recv_buffer` that a
  run reads, clears or copies down nevertheless lies in the buffer: those whose packet
  declares no more than was received, and, for a `PUBLISH`, leaves a byte of the buffer
  behind it.
-/
import SensorServer.Parser.CallSpec

namespace SensorServer.Parser

open SensorServer.Framework
open SensorServer.Framework.Traced (Spec)

/-! ## §1. Ranges and depths. -/

/-- `len` bytes from `off` on lie in `recv_buffer`. -/
def InBuffer (off len : Int) : Prop := 0 ≤ len ∧ 0 ≤ off ∧ off + len ≤ RECV_BUFFER_LEN

instance (off len : Int) : Decidable (InBuffer off len) := by
  unfold InBuffer
  infer_instance

/-- What the event clears, reads or overwrites of `recv_buffer` lies in it. -/
def Event.Inside : Event → Prop
  | .bzero b off len => b = .recv_buffer → InBuffer off len
  | .memcpy dst src off len =>
      (src = .recv_buffer → InBuffer off len) ∧ (dst = .recv_buffer → InBuffer 0 len)
  | _ => True

/-- A self-call on `args'` has fewer bytes to go than `args`, and at least one. -/
def Shorter (args args' : ThArgs) : Prop :=
  1 ≤ args'.recv_len ∧ args'.recv_len < args.recv_len

/-- The blocks the calls of a run find, by depth. -/
inductive AtDepth (ρ : Nat → Residue) (args : ThArgs) : Nat → ThArgs → Prop
  | top : AtDepth ρ args 0 args
  | selfCall {d : Nat} {a a' : ThArgs} : AtDepth ρ args d a →
      (parsePacketCall (ρ d) a).result = some a' → AtDepth ρ args (d + 1) a'

/-- At every depth, every range lies in the buffer and every self-call is shorter. -/
def StaysInside (ρ : Nat → Residue) (args : ThArgs) : Prop :=
  ∀ d a, AtDepth ρ args d a → Spec Event.Inside (Shorter a) (parsePacketCall (ρ d) a)

/-- The block begins with the magic number. -/
def BeginsPacket (args : ThArgs) : Prop :=
  4 ≤ args.recv_len ∧ args.recv_buffer 0 = 83 ∧ args.recv_buffer 1 = 83
    ∧ args.recv_buffer 2 = 80

instance (args : ThArgs) : Decidable (BeginsPacket args) := by
  unfold BeginsPacket
  infer_instance

/-- The events before the switch. -/
def headerEvents : List Event :=
  [.access .recv_len, .memcpy .header .recv_buffer 0 3, .access .recv_buffer]

/-- The packet the block begins with, if it is taken for one, declares no more than was
received.  A `PUBLISH` copies a byte more than it declares; one without room for its UUID
dies before it reads any data, and one whose copy ends the run before the rest is looked
at. -/
def DeclaresWithin (ρ : Residue) (args : ThArgs) : Prop :=
  BeginsPacket args → ρ.header_b3 = 0 →
    match Case.select (args.recv_buffer 3) with
    | .CONN | .SEND => 6 + (dataLen args.recv_buffer : Int) ≤ args.recv_len
    | .PUBLISH => 32 ≤ dataLen args.recv_buffer →
        7 + dataLen args.recv_buffer ≤ RECV_BUFFER_LEN
          ∧ (ρ.overrun = true → 6 + (dataLen args.recv_buffer : Int) ≤ args.recv_len)
    | _ => True

/-! ## §2. The code after the switch. -/

/-- The remainder lies in the buffer exactly when the packet ends in the bytes received. -/
theorem shiftRemaining_inside_iff {ρ : Residue} {args : ThArgs} {off : Int} (hoff : 1 ≤ off)
    (hlen : args.recv_len ≤ RECV_BUFFER_LEN) :
    Spec Event.Inside (Shorter args) (shiftRemaining ρ args off) ↔ off ≤ args.recv_len := by
  rcases Int.lt_trichotomy args.recv_len off with hlt | heq | hgt
  · -- the length of the remainder is negative, if not that of the part to clear
    refine ⟨fun h => ?_, fun h => absurd h (by omega)⟩
    by_cases hclear : off ≤ RECV_BUFFER_LEN
    · have hin := h.events _ (shiftRemaining_copies (by omega) (by omega) hclear)
      have hnonneg := (hin.1 rfl).1
      omega
    · have hin := h.events _ (shiftRemaining_clears (by omega))
      have hnonneg := (hin rfl).1
      omega
  · -- the packet ends the chunk: nothing is cleared or copied
    rw [shiftRemaining_done heq, Spec.none_iff]
    refine ⟨fun _ => by omega, fun _ => ?_⟩
    simp [Event.Inside]
  · -- a remainder: both calls stay inside, and the next chunk is shorter
    rw [shiftRemaining_within (by omega) hgt hlen]
    refine ⟨fun _ => by omega, fun _ => ⟨?_, ?_⟩⟩
    · simp only [List.mem_cons, List.not_mem_nil, or_false, forall_eq_or_imp, forall_eq,
        Event.Inside, InBuffer, forall_const, true_and]
      omega
    · intro args' hargs'
      cases hargs'
      show 1 ≤ args.recv_len - off ∧ args.recv_len - off < args.recv_len
      omega

/-! ## §3. One call. -/

section Call

variable {ρ : Residue} {args : ThArgs}

/-- A packet goes to the switch. -/
theorem parsePacketCall_begins (hp : BeginsPacket args) (hb3 : ρ.header_b3 = 0) :
    parsePacketCall ρ args = (⟨headerEvents, some ()⟩ : Traced Event Unit) >>= fun _ =>
      switchPacketType ρ args (args.recv_buffer 3) (dataLen args.recv_buffer)
        >>= shiftRemaining ρ args := by
  obtain ⟨hlen, h0, h1, h2⟩ := hp
  exact parsePacketCall_packet ρ args (by omega) ((headerValue_eq_magic _ _).mpr ⟨h0, h1, h2, hb3⟩)

/-- A call that finds no packet leaves as too short, or drops what it finds. -/
theorem no_packet_cases (h : ¬ (BeginsPacket args ∧ ρ.header_b3 = 0)) :
    (args.recv_len < 4 ∧ parsePacketCall ρ args =
        ⟨[.access .recv_len, .logError "parse_packet error, receive len is:%d"]
          ++ .freeArgs :: [.access .socket_fd, .close ρ.freed_socket_fd], none⟩)
      ∨ (¬ args.recv_len < 4 ∧ parsePacketCall ρ args =
        ⟨[.access .recv_len, .memcpy .header .recv_buffer 0 3,
          .logError "Unknown packet drop it"], none⟩) := by
  by_cases hlen : args.recv_len < 4
  · exact .inl ⟨hlen, parsePacketCall_short ρ args hlen⟩
  · have hm : headerValue args.recv_buffer ρ.header_b3 ≠ 5264211 := by
      rw [Ne, headerValue_eq_magic]
      rintro ⟨h0, h1, h2, h3⟩
      exact h ⟨⟨by omega, h0, h1, h2⟩, h3⟩
    exact .inr ⟨hlen, parsePacketCall_drop ρ args hlen hm⟩

/-- A call that finds no packet looks at the header only. -/
theorem inside_of_not_packet (h : ¬ (BeginsPacket args ∧ ρ.header_b3 = 0)) :
    Spec Event.Inside (Shorter args) (parsePacketCall ρ args) := by
  rcases no_packet_cases h with ⟨-, hcall⟩ | ⟨-, hcall⟩
  · rw [hcall, Spec.none_iff]
    simp [Event.Inside]
  · rw [hcall, Spec.none_iff]
    simp [Event.Inside, InBuffer, RECV_BUFFER_LEN]

/-- A packet stays inside as far as its case and the code after the switch do. -/
theorem inside_packet_iff (hp : BeginsPacket args) (hb3 : ρ.header_b3 = 0) :
    Spec Event.Inside (Shorter args) (parsePacketCall ρ args)
      ↔ Spec Event.Inside (Shorter args)
          (switchPacketType ρ args (args.recv_buffer 3) (dataLen args.recv_buffer)
            >>= shiftRemaining ρ args) := by
  rw [parsePacketCall_begins hp hb3, Spec.some_bind_iff, and_iff_right]
  simp [headerEvents, Event.Inside, InBuffer, RECV_BUFFER_LEN]

theorem inside_send_iff {data_len : Nat} (hlen : args.recv_len ≤ RECV_BUFFER_LEN) :
    Spec Event.Inside (Shorter args) (caseSend ρ args data_len >>= shiftRemaining ρ args)
      ↔ 6 + (data_len : Int) ≤ args.recv_len := by
  by_cases hread : 6 + (data_len : Int) ≤ RECV_BUFFER_LEN ∨ ρ.overread = true
  · rw [caseSend_ok (by omega) hread, Spec.some_bind_iff,
      shiftRemaining_inside_iff (by omega) hlen, and_iff_right_iff_imp]
    intro hfits
    simp only [List.mem_cons, List.not_mem_nil, or_false, forall_eq_or_imp, forall_eq,
      Event.Inside, InBuffer, reduceCtorEq, false_imp_iff, true_imp_iff, and_true, true_and]
    omega
  · -- the packet declares more than the buffer holds
    have hbig : 6 + (data_len : Int) > RECV_BUFFER_LEN ∧ ρ.overread = false := by
      rw [not_or] at hread
      exact ⟨by omega, by simpa using hread.2⟩
    rw [caseSend_fault (by omega) hbig, Traced.none_bind, Spec.none_iff]
    refine ⟨fun h => ?_, fun h => by omega⟩
    have hin : Event.Inside (.memcpy .data .recv_buffer 6 data_len) := h _ (by simp)
    have hfits := (hin.1 rfl).2.2
    omega

theorem inside_publish_iff {data_len : Nat} (hlen : args.recv_len ≤ RECV_BUFFER_LEN) :
    Spec Event.Inside (Shorter args) (casePublish ρ args data_len >>= shiftRemaining ρ args)
      ↔ (32 ≤ data_len → 7 + data_len ≤ RECV_BUFFER_LEN
          ∧ (ρ.overrun = true → 6 + (data_len : Int) ≤ args.recv_len)) := by
  by_cases h32 : data_len < 32
  · rw [casePublish_small args (by omega), Traced.none_bind, Spec.none_iff]
    refine ⟨fun _ h => by omega, fun _ => ?_⟩
    simp [Event.Inside, InBuffer, RECV_BUFFER_LEN]
  by_cases hsurv : PublishSurvives ρ data_len
  · rw [casePublish_ok hsurv, Spec.some_bind_iff, shiftRemaining_inside_iff (by omega) hlen]
    obtain ⟨-, hrun, -⟩ := hsurv
    simp only [List.mem_cons, List.not_mem_nil, or_false, forall_eq_or_imp, forall_eq,
      Event.Inside, InBuffer, RECV_BUFFER_LEN, reduceCtorEq, false_imp_iff, true_imp_iff,
      and_true, true_and, hrun]
    omega
  · rw [casePublish_dies args (by omega) hsurv, Traced.none_bind, Spec.none_iff]
    -- with the read in the buffer, the run can only have died at the write
    have hdead : 7 + data_len ≤ RECV_BUFFER_LEN → ρ.overrun ≠ true := by
      intro hroom hrun
      exact hsurv ⟨by omega, hrun, .inl (by omega)⟩
    simp only [List.mem_cons, List.not_mem_nil, or_false, forall_eq_or_imp, forall_eq,
      Event.Inside, InBuffer, reduceCtorEq, false_imp_iff, true_imp_iff, and_true, true_and]
    constructor
    · intro h _
      have hroom : 7 + data_len ≤ RECV_BUFFER_LEN := by omega
      exact ⟨hroom, fun hrun => absurd hrun (hdead hroom)⟩
    · intro h
      have hroom := (h (by omega)).1
      simp only [RECV_BUFFER_LEN] at hroom ⊢
      omega

/-- One call stays inside exactly when the packet it finds declares no more than was
received. -/
theorem call_inside_iff (hlen : args.recv_len ≤ RECV_BUFFER_LEN)
    (htype : args.recv_buffer 3 ≠ PacketType.DIS_CONN.toByte) :
    Spec Event.Inside (Shorter args) (parsePacketCall ρ args) ↔ DeclaresWithin ρ args := by
  by_cases hpacket : BeginsPacket args ∧ ρ.header_b3 = 0
  · obtain ⟨hp, hb3⟩ := hpacket
    have h4 := hp.1
    have hwithin : DeclaresWithin ρ args ↔
        match Case.select (args.recv_buffer 3) with
        | .CONN | .SEND => 6 + (dataLen args.recv_buffer : Int) ≤ args.recv_len
        | .PUBLISH => 32 ≤ dataLen args.recv_buffer →
            7 + dataLen args.recv_buffer ≤ RECV_BUFFER_LEN
              ∧ (ρ.overrun = true → 6 + (dataLen args.recv_buffer : Int) ≤ args.recv_len)
        | _ => True := ⟨fun h => h hp hb3, fun h _ _ => h⟩
    rw [inside_packet_iff hp hb3, hwithin]
    unfold switchPacketType
    cases hcase : Case.select (args.recv_buffer 3) with
    | PING =>
        show Spec Event.Inside (Shorter args) (casePing args >>= shiftRemaining ρ args) ↔ True
        rw [casePing_eq, Spec.some_bind_iff, shiftRemaining_inside_iff (by omega) hlen]
        simp [Event.Inside, h4]
    | CONN =>
        show Spec Event.Inside (Shorter args)
          (caseConn ρ args (dataLen args.recv_buffer) >>= shiftRemaining ρ args) ↔ _
        rw [caseConn_eq, Spec.some_bind_iff, shiftRemaining_inside_iff (by omega) hlen,
          and_iff_right]
        simp [Event.Inside, InBuffer, RECV_BUFFER_LEN]
    | DIS_CONN =>
        have hselect := Case.select_type (args.recv_buffer 3)
        rw [hcase] at hselect
        exact absurd hselect htype
    | SEND => exact inside_send_iff hlen
    | PUBLISH => exact inside_publish_iff hlen
    | default =>
        -- the call returns in the switch, with nothing copied
        refine ⟨fun _ => trivial, fun _ => ?_⟩
        apply Spec.none_iff.mpr
        simp [Event.Inside]
  · refine ⟨fun _ hp hb3 => absurd ⟨hp, hb3⟩ hpacket, fun _ => inside_of_not_packet hpacket⟩

end Call

/-! ## §4. Every depth. -/

/-- A call is the first of its run, or finds the zeros a self-call finds. -/
theorem AtDepth.cleared {ρ : Nat → Residue} {args a : ThArgs} {d : Nat}
    (h : AtDepth ρ args d a) :
    (d = 0 ∧ a = args) ∨ ∀ i : Nat, (i : Int) < a.recv_len → a.recv_buffer i = 0 := by
  cases h with
  | top => exact .inl ⟨rfl, rfl⟩
  | selfCall _ hnext => exact .inr (parsePacketCall_some_cleared hnext).2

/-- **Ranges.**  For every content of the buffer with another type byte than `DIS_CONN` and
every length `recv` returns, every range of `recv_buffer` that a run reads, clears or copies
down, at any depth, lies in the buffer, and every self-call is shorter, exactly when the
packet declares no more than was received. -/
theorem stays_inside_iff (ρ : Nat → Residue) (args : ThArgs)
    (hlen : 1 ≤ args.recv_len ∧ args.recv_len ≤ RECV_BUFFER_LEN)
    (htype : args.recv_buffer 3 ≠ PacketType.DIS_CONN.toByte) :
    StaysInside ρ args ↔ DeclaresWithin (ρ 0) args := by
  constructor
  · intro h
    exact (call_inside_iff hlen.2 htype).mp (h 0 args .top)
  · intro hwithin d a ha
    rcases ha.cleared with ⟨rfl, rfl⟩ | hzero
    · exact (call_inside_iff hlen.2 htype).mpr hwithin
    · -- a cleared block does not begin with the magic number
      apply inside_of_not_packet
      rintro ⟨⟨h4, h0, -⟩, -⟩
      rw [hzero 0 (by omega)] at h0
      cases h0

/-- A `SEND` of two bytes. -/
theorem stays_inside_send :
    StaysInside (fun _ => .strict 5)
      (ThArgs.received 5 [83, 83, 80, 6, 0, 2, 72, 105]) :=
  (stays_inside_iff _ (ThArgs.received 5 [83, 83, 80, 6, 0, 2, 72, 105]) (by decide)
    (by decide)).mpr (by
      intro _ _
      show 6 + (dataLen (ThArgs.received 5 [83, 83, 80, 6, 0, 2, 72, 105]).recv_buffer : Int) ≤ 8
      decide)

/-- A `SEND` that declares one byte, of which nothing has come: the remainder of the copy is
`-1` bytes long. -/
theorem send_leaves_buffer :
    (ThArgs.received 5 [83, 83, 80, 6, 0, 1]).recv_len = 6
      ∧ (ThArgs.received 5 [83, 83, 80, 6, 0, 1]).recv_buffer 3 ≠ PacketType.DIS_CONN.toByte
      ∧ ¬ StaysInside (fun _ => .quiet 5)
          (ThArgs.received 5 [83, 83, 80, 6, 0, 1]) := by
  refine ⟨rfl, by decide, fun h => ?_⟩
  have hmem : Event.memcpy .recv_buffer .recv_buffer 7 (-1)
      ∈ (parsePacketCall (.quiet 5)
          (ThArgs.received 5 [83, 83, 80, 6, 0, 1])).trace := by decide
  have hin := ((h 0 _ .top).events _ hmem).1 rfl
  exact absurd hin (by decide)

end SensorServer.Parser
