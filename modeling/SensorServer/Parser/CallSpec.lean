/-
  SensorServer.Parser.CallSpec — what one call of `parse_packet` can do.

  A call leaves by one of three ways before the switch (`parsePacketCall_short`,
  `parsePacketCall_drop`, `parsePacketCall_packet`), and after the switch it is done, dies,
  or calls itself (`shiftRemaining_some`).  The self-call always finds zeros where its header
  should be, because the remainder is cleared before it is copied down.  Hence no run is more
  than two calls deep (`parsePacket_eq`), and everything a run sends it sends in its first
  call (`replies_parsePacket`).
-/
import SensorServer.Parser.ParsePacket

namespace SensorServer.Parser

open SensorServer.Framework
open SensorServer.Framework.Traced (emit stop)

/-! ## §1. The magic number. -/

/-- The magic comparison holds exactly for `S`, `S`, `P` and a zero fourth byte. -/
theorem headerValue_eq_magic (m : Region) (b3 : UInt8) :
    headerValue m b3 = 5264211 ↔ m 0 = 83 ∧ m 1 = 83 ∧ m 2 = 80 ∧ b3 = 0 := by
  have h0 := (m 0).toNat_lt
  have h1 := (m 1).toNat_lt
  have h2 := (m 2).toNat_lt
  have h3 := b3.toNat_lt
  simp only [← UInt8.toNat_inj, UInt8.reduceToNat]
  unfold headerValue
  omega

/-- A cleared buffer never shows the magic number. -/
theorem headerValue_cleared {m : Region} (h : m 0 = 0) (b3 : UInt8) :
    headerValue m b3 ≠ 5264211 := by
  intro hm
  have h83 := ((headerValue_eq_magic m b3).mp hm).1
  rw [h] at h83
  cases h83

/-! ## §2. The ways out before the switch. -/

section Exits

variable (ρ : Residue) (args : ThArgs)

/-- A remainder of fewer than four bytes: free the block, then close. -/
theorem parsePacketCall_short (h : args.recv_len < 4) :
    parsePacketCall ρ args =
      ⟨[.access .recv_len, .logError "parse_packet error, receive len is:%d", .freeArgs,
        .access .socket_fd, .close ρ.freed_socket_fd], none⟩ := by
  unfold parsePacketCall
  rw [if_pos h]
  rfl

/-- No magic number: drop what was received. -/
theorem parsePacketCall_drop (h : ¬ args.recv_len < 4)
    (hm : headerValue args.recv_buffer ρ.header_b3 ≠ 5264211) :
    parsePacketCall ρ args =
      ⟨[.access .recv_len, .memcpy .header .recv_buffer 0 3,
        .logError "Unknown packet drop it"], none⟩ := by
  unfold parsePacketCall
  rw [if_neg h, if_neg hm]
  rfl

/-- A magic number: the switch, then the code after it. -/
theorem parsePacketCall_packet (h : ¬ args.recv_len < 4)
    (hm : headerValue args.recv_buffer ρ.header_b3 = 5264211) :
    parsePacketCall ρ args =
      (⟨[.access .recv_len, .memcpy .header .recv_buffer 0 3, .access .recv_buffer],
        some ()⟩ : Traced Event Unit) >>= fun _ =>
          switchPacketType ρ args (args.recv_buffer 3) (dataLen args.recv_buffer)
            >>= shiftRemaining ρ args := by
  unfold parsePacketCall
  rw [if_neg h, if_pos hm]
  rfl

end Exits

/-! ## §3. The cases of the switch. -/

theorem allocCleared_ok {b : Block} {size : Int} (h : 0 ≤ size) :
    allocCleared b size = ⟨[.malloc b size, .bzero b 0 size], some ()⟩ := by
  unfold allocCleared
  rw [if_neg (by omega)]
  rfl

section Copy

variable {ρ : Residue} {args : ThArgs} {b : Block} {size off len : Int}

/-- The content of a cleared block of `size` bytes after a copy of `len` bytes into it. -/
def copied (args : ThArgs) (size off len : Int) : List UInt8 :=
  args.recv_buffer.slice off.toNat (min len size).toNat ++ List.replicate (size - len).toNat 0

theorem copyOut_ok (hlen : 0 ≤ len)
    (hread : off + len ≤ RECV_BUFFER_LEN ∨ ρ.overread = true)
    (hwrite : len ≤ size ∨ ρ.overrun = true) :
    copyOut ρ args b size off len
      = ⟨[.memcpy b .recv_buffer off len], some (copied args size off len)⟩ := by
  have hread' : ¬ (off + len > RECV_BUFFER_LEN ∧ ρ.overread = false) := by
    rcases hread with h | h
    · omega
    · simp [h]
  have hwrite' : ¬ (len > size ∧ ρ.overrun = false) := by
    rcases hwrite with h | h
    · omega
    · simp [h]
  unfold copyOut
  rw [if_neg (by omega), if_neg hread', if_neg hwrite']
  rfl

/-- A copy the run does not outlive. -/
theorem copyOut_fault (h : (off + len > RECV_BUFFER_LEN ∧ ρ.overread = false)
      ∨ (len > size ∧ ρ.overrun = false)) :
    copyOut ρ args b size off len = ⟨[.memcpy b .recv_buffer off len, .fault], none⟩ := by
  unfold copyOut
  by_cases hlen : len < 0
  · rw [if_pos hlen]
    rfl
  · rw [if_neg hlen]
    by_cases hread : off + len > RECV_BUFFER_LEN ∧ ρ.overread = false
    · rw [if_pos hread]
      rfl
    · rw [if_neg hread, if_pos (h.resolve_left hread)]
      rfl

end Copy

section Cases

variable {ρ : Residue} {args : ThArgs} {data_len : Int}

theorem casePing_eq : casePing args =
    ⟨[.logDebug "Client PING" [], .access .socket_fd,
      .send args.socket_fd (reply .PING_OK)], some 4⟩ := rfl

/-- `CONN` reads and writes 32 bytes whatever the packet declares. -/
theorem caseConn_eq : caseConn ρ args data_len =
    ⟨[.logDebug "Client COUNT:%ld" [], .malloc .uuid 32, .bzero .uuid 0 32,
      .memcpy .uuid .recv_buffer 6 32, .logDebug "Client CONN: %s" [copied args 32 6 32],
      .access .socket_fd, .send args.socket_fd (reply .CONN_ACK ++ [0]), .free .uuid],
      some (6 + data_len)⟩ := by
  unfold caseConn
  rw [allocCleared_ok (by decide), copyOut_ok (by decide) (.inl (by decide)) (.inl (by decide))]
  rfl

theorem caseSend_ok (h0 : 0 ≤ data_len)
    (hread : 6 + data_len ≤ RECV_BUFFER_LEN ∨ ρ.overread = true) :
    caseSend ρ args data_len =
      ⟨[.malloc .data data_len, .bzero .data 0 data_len,
        .memcpy .data .recv_buffer 6 data_len,
        .logDebug "Client SEND data: [%s]" [copied args data_len 6 data_len],
        .access .socket_fd, .send args.socket_fd (reply .SEND_ACK ++ [0]), .free .data],
        some (6 + data_len)⟩ := by
  unfold caseSend
  rw [allocCleared_ok h0, copyOut_ok h0 hread (.inl (Int.le_refl _))]
  rfl

/-- A `SEND` that declares more than the buffer holds, when reading on ends the run. -/
theorem caseSend_fault (h0 : 0 ≤ data_len)
    (h : 6 + data_len > RECV_BUFFER_LEN ∧ ρ.overread = false) :
    caseSend ρ args data_len =
      ⟨[.malloc .data data_len, .bzero .data 0 data_len,
        .memcpy .data .recv_buffer 6 data_len, .fault], none⟩ := by
  unfold caseSend
  rw [allocCleared_ok h0, copyOut_fault (.inl h)]
  rfl

/-- What `PUBLISH` needs to come through: a payload with room for the UUID, and a memory
in which the copy of one byte more than the data block holds does no harm. -/
def PublishSurvives (ρ : Residue) (data_len : Int) : Prop :=
  32 ≤ data_len ∧ ρ.overrun = true
    ∧ (7 + data_len ≤ RECV_BUFFER_LEN ∨ ρ.overread = true)

theorem casePublish_ok (h : PublishSurvives ρ data_len) :
    casePublish ρ args data_len =
      ⟨[.malloc .uuid 32, .bzero .uuid 0 32, .memcpy .uuid .recv_buffer 6 32,
        .malloc .data (data_len - 32), .bzero .data 0 (data_len - 32),
        .memcpy .data .recv_buffer 38 (data_len - 31),
        .logDebug "Client PUBLISH data: [%s] to [%s]"
          [copied args (data_len - 32) 38 (data_len - 31), copied args 32 6 32],
        .access .socket_fd, .send args.socket_fd (reply .PUBLISH_ACK ++ [0]), .free .uuid,
        .free .data], some (6 + data_len)⟩ := by
  obtain ⟨h32, hrun, hread⟩ := h
  have hread' : 38 + (data_len - 31) ≤ (RECV_BUFFER_LEN : Int) ∨ ρ.overread = true :=
    hread.imp_left (by omega)
  unfold casePublish
  rw [allocCleared_ok (by decide), copyOut_ok (by decide) (.inl (by decide)) (.inl (by decide)),
    allocCleared_ok (by omega), copyOut_ok (by omega) hread' (.inr hrun)]
  rfl

/-- A payload without room for the UUID: the size of the data block is negative. -/
theorem casePublish_small (args : ThArgs) (h : data_len < 32) :
    casePublish ρ args data_len =
      ⟨[.malloc .uuid 32, .bzero .uuid 0 32, .memcpy .uuid .recv_buffer 6 32,
        .malloc .data (data_len - 32), .bzero .data 0 (data_len - 32), .fault], none⟩ := by
  have halloc : allocCleared .data (data_len - 32) =
      ⟨[.malloc .data (data_len - 32), .bzero .data 0 (data_len - 32), .fault], none⟩ := by
    unfold allocCleared
    rw [if_pos (by omega)]
    rfl
  unfold casePublish
  rw [allocCleared_ok (by decide), copyOut_ok (by decide) (.inl (by decide)) (.inl (by decide)),
    halloc]
  rfl

/-- The copy of one byte too many, in a memory where it ends the run. -/
theorem casePublish_dies (args : ThArgs) (h32 : 32 ≤ data_len)
    (h : ¬ PublishSurvives ρ data_len) :
    casePublish ρ args data_len =
      ⟨[.malloc .uuid 32, .bzero .uuid 0 32, .memcpy .uuid .recv_buffer 6 32,
        .malloc .data (data_len - 32), .bzero .data 0 (data_len - 32),
        .memcpy .data .recv_buffer 38 (data_len - 31), .fault], none⟩ := by
  have hfault : (38 + (data_len - 31) > RECV_BUFFER_LEN ∧ ρ.overread = false)
      ∨ (data_len - 31 > data_len - 32 ∧ ρ.overrun = false) := by
    by_cases hrun : ρ.overrun = true
    · left
      by_contra hread
      refine h ⟨h32, hrun, ?_⟩
      by_cases hr : ρ.overread = true
      · exact .inr hr
      · left
        have hr' : ρ.overread = false := by simpa using hr
        simp only [hr', and_true] at hread
        omega
    · exact .inr ⟨by omega, by simpa using hrun⟩
  unfold casePublish
  rw [allocCleared_ok (by decide), copyOut_ok (by decide) (.inl (by decide)) (.inl (by decide)),
    allocCleared_ok (by omega), copyOut_fault hfault]
  rfl

/-- Unless it survives, the run dies before it replies. -/
theorem casePublish_fault (args : ThArgs) (h : ¬ PublishSurvives ρ data_len) :
    ∃ t, casePublish ρ args data_len = ⟨t ++ [.fault], none⟩
      ∧ ∀ e ∈ t, e.target = none := by
  by_cases h32 : data_len < 32
  · refine ⟨[.malloc .uuid 32, .bzero .uuid 0 32, .memcpy .uuid .recv_buffer 6 32,
      .malloc .data (data_len - 32), .bzero .data 0 (data_len - 32)],
      casePublish_small args h32, ?_⟩
    simp [Event.target]
  · refine ⟨[.malloc .uuid 32, .bzero .uuid 0 32, .memcpy .uuid .recv_buffer 6 32,
      .malloc .data (data_len - 32), .bzero .data 0 (data_len - 32),
      .memcpy .data .recv_buffer 38 (data_len - 31)],
      casePublish_dies args (by omega) h, ?_⟩
    simp [Event.target]

end Cases

/-! ## §4. After the switch. -/

section Shift

variable {ρ : Residue} {args : ThArgs} {off : Int}

/-- From the buffer on, clearing leaves `recv_len` alone. -/
theorem recvLenCleared_of_nonneg (h : 0 ≤ off) (recv_len : Int) :
    recvLenCleared off recv_len = recv_len := if_pos h

/-- The bytes that are copied down have been cleared. -/
theorem shifted_cleared {m : Region} {len : Int} (h : ¬ CopyFaults ρ off len) {i : Nat}
    (hi : (i : Int) < len) : shifted m off len i = 0 := by
  have hfits : off + len ≤ RECV_BUFFER_LEN := by
    by_contra hlong
    exact h (.inr (.inl ⟨by omega, by omega⟩))
  unfold shifted
  by_cases hoff : 0 ≤ off
  · rw [if_pos hoff]
    exact Region.move_clear (by omega) (by omega)
  · rw [if_neg hoff]
    exact Region.clear_inside (Nat.zero_le i) (by omega)

/-- Nothing remains: the block is freed. -/
theorem shiftRemaining_done (h : args.recv_len = off) :
    shiftRemaining ρ args off = ⟨[.access .recv_len, .freeArgs], none⟩ := by
  have hzero : args.recv_len - off = 0 := by omega
  unfold shiftRemaining
  simp only [hzero, if_true, Traced.emit_bind]
  rfl

/-- The run does not outlive the clearing. -/
theorem shiftRemaining_clearFault (hrest : args.recv_len ≠ off) (hclear : ClearFaults ρ off) :
    shiftRemaining ρ args off =
      ⟨[.access .recv_len, .access .recv_len, .bzero .recv_buffer off (RECV_BUFFER_LEN - off),
        .fault], none⟩ := by
  have hnot : ¬ args.recv_len - off = 0 := by omega
  unfold shiftRemaining
  simp only [hnot, hclear, if_true, if_false, Traced.emit_bind]
  rfl

/-- The run does not outlive the copy. -/
theorem shiftRemaining_copyFault (hrest : args.recv_len ≠ off) (hclear : ¬ ClearFaults ρ off)
    (hcopy : CopyFaults ρ off (recvLenCleared off (args.recv_len - off))) :
    shiftRemaining ρ args off =
      ⟨[.access .recv_len, .access .recv_len, .bzero .recv_buffer off (RECV_BUFFER_LEN - off),
        .memcpy .recv_buffer .recv_buffer off (recvLenCleared off (args.recv_len - off)),
        .fault], none⟩ := by
  have hnot : ¬ args.recv_len - off = 0 := by omega
  unfold shiftRemaining
  simp only [hnot, hclear, hcopy, if_true, if_false, Traced.emit_bind]
  rfl

/-- The remainder is cleared, and copied down. -/
theorem shiftRemaining_shifts (hrest : args.recv_len ≠ off) (hclear : ¬ ClearFaults ρ off)
    (hcopy : ¬ CopyFaults ρ off (recvLenCleared off (args.recv_len - off))) :
    shiftRemaining ρ args off =
      ⟨[.access .recv_len, .access .recv_len, .bzero .recv_buffer off (RECV_BUFFER_LEN - off),
        .memcpy .recv_buffer .recv_buffer off (recvLenCleared off (args.recv_len - off))],
        some { args with
          recv_len := recvLenCleared off (args.recv_len - off)
          recv_buffer :=
            shifted args.recv_buffer off (recvLenCleared off (args.recv_len - off)) }⟩ := by
  have hnot : ¬ args.recv_len - off = 0 := by omega
  unfold shiftRemaining
  simp only [hnot, hclear, hcopy, if_false, Traced.emit_bind]
  rfl

/-- **The ways on after the switch.**  The block is freed, the run ends at the clearing or at
the copy, or the remainder is shifted for a self-call. -/
theorem shiftRemaining_cases (ρ : Residue) (args : ThArgs) (off : Int)
    {P : Traced Event ThArgs → Prop}
    (hdone : args.recv_len = off → P ⟨[.access .recv_len, .freeArgs], none⟩)
    (hclear : args.recv_len ≠ off → ClearFaults ρ off →
      P ⟨[.access .recv_len, .access .recv_len, .bzero .recv_buffer off (RECV_BUFFER_LEN - off),
        .fault], none⟩)
    (hcopy : args.recv_len ≠ off → ¬ ClearFaults ρ off →
      CopyFaults ρ off (recvLenCleared off (args.recv_len - off)) →
      P ⟨[.access .recv_len, .access .recv_len, .bzero .recv_buffer off (RECV_BUFFER_LEN - off),
        .memcpy .recv_buffer .recv_buffer off (recvLenCleared off (args.recv_len - off)),
        .fault], none⟩)
    (hshift : args.recv_len ≠ off → ¬ ClearFaults ρ off →
      ¬ CopyFaults ρ off (recvLenCleared off (args.recv_len - off)) →
      P ⟨[.access .recv_len, .access .recv_len, .bzero .recv_buffer off (RECV_BUFFER_LEN - off),
        .memcpy .recv_buffer .recv_buffer off (recvLenCleared off (args.recv_len - off))],
        some { args with
          recv_len := recvLenCleared off (args.recv_len - off)
          recv_buffer :=
            shifted args.recv_buffer off (recvLenCleared off (args.recv_len - off)) }⟩) :
    P (shiftRemaining ρ args off) := by
  by_cases hrest : args.recv_len = off
  · rw [shiftRemaining_done hrest]
    exact hdone hrest
  by_cases hc : ClearFaults ρ off
  · rw [shiftRemaining_clearFault hrest hc]
    exact hclear hrest hc
  by_cases hm : CopyFaults ρ off (recvLenCleared off (args.recv_len - off))
  · rw [shiftRemaining_copyFault hrest hc hm]
    exact hcopy hrest hc hm
  · rw [shiftRemaining_shifts hrest hc hm]
    exact hshift hrest hc hm

/-- **The block of a self-call**: the same descriptor, the length the clearing left, and zeros. -/
theorem shiftRemaining_some {args' : ThArgs}
    (h : (shiftRemaining ρ args off).result = some args') :
    args'.socket_fd = args.socket_fd
      ∧ args'.recv_len = recvLenCleared off (args.recv_len - off)
      ∧ (args.recv_len ≠ off ∧ ¬ ClearFaults ρ off ∧ ¬ CopyFaults ρ off args'.recv_len)
      ∧ ∀ i : Nat, (i : Int) < args'.recv_len → args'.recv_buffer i = 0 := by
  revert h
  refine shiftRemaining_cases ρ args off (P := fun r => r.result = some args' → _) ?_ ?_ ?_ ?_
  · intro _ h
    cases h
  · intro _ _ h
    cases h
  · intro _ _ _ h
    cases h
  · intro hrest hclear hcopy h
    obtain rfl := Option.some.inj h
    exact ⟨rfl, rfl, ⟨hrest, hclear, hcopy⟩, fun i hi => shifted_cleared hcopy hi⟩

/-- A remainder is cleared, whatever comes of it. -/
theorem shiftRemaining_clears (h : args.recv_len ≠ off) :
    .bzero .recv_buffer off (RECV_BUFFER_LEN - off) ∈ (shiftRemaining ρ args off).trace := by
  refine shiftRemaining_cases ρ args off
    (P := fun r => .bzero .recv_buffer off (RECV_BUFFER_LEN - off) ∈ r.trace) ?_ ?_ ?_ ?_
  · exact fun hdone => absurd hdone h
  · simp
  · simp
  · simp

/-- A remainder that begins in the buffer is copied, whatever comes of it. -/
theorem shiftRemaining_copies (h : args.recv_len ≠ off) (h0 : 0 ≤ off)
    (hoff : off ≤ RECV_BUFFER_LEN) :
    .memcpy .recv_buffer .recv_buffer off (args.recv_len - off)
      ∈ (shiftRemaining ρ args off).trace := by
  rw [← recvLenCleared_of_nonneg h0 (args.recv_len - off)]
  refine shiftRemaining_cases ρ args off (P := fun r => .memcpy .recv_buffer .recv_buffer off
    (recvLenCleared off (args.recv_len - off)) ∈ r.trace) ?_ ?_ ?_ ?_
  · exact fun hdone => absurd hdone h
  · rintro - (⟨hbefore, -⟩ | ⟨hbehind, -⟩)
    · omega
    · omega
  · simp
  · simp

/-- A packet that ends before the bytes received do leaves them to a self-call. -/
theorem shiftRemaining_within (h0 : 0 ≤ off) (hoff : off < args.recv_len)
    (hlen : args.recv_len ≤ RECV_BUFFER_LEN) :
    shiftRemaining ρ args off =
      ⟨[.access .recv_len, .access .recv_len, .bzero .recv_buffer off (RECV_BUFFER_LEN - off),
        .memcpy .recv_buffer .recv_buffer off (args.recv_len - off)],
        some { args with
          recv_len := args.recv_len - off
          recv_buffer := shifted args.recv_buffer off (args.recv_len - off) }⟩ := by
  have hrecv := recvLenCleared_of_nonneg h0 (args.recv_len - off)
  have hclear : ¬ ClearFaults ρ off := by
    rintro (⟨hbefore, -⟩ | ⟨hbehind, -⟩) <;> omega
  have hcopy : ¬ CopyFaults ρ off (args.recv_len - off) := by
    rintro (⟨hneg, -⟩ | ⟨-, hlong⟩ | ⟨hlong, -⟩) <;> omega
  rw [shiftRemaining_shifts (by omega) hclear (hrecv.symm ▸ hcopy), hrecv]

/-- The code after the switch sends nothing. -/
theorem replies_shiftRemaining (fd : Int) (ρ : Residue) (args : ThArgs) (off : Int) :
    replies fd (shiftRemaining ρ args off).trace = [] := by
  refine shiftRemaining_cases ρ args off (P := fun r => replies fd r.trace = []) ?_ ?_ ?_ ?_ <;>
    intros <;> rfl

end Shift

/-! ## §5. The whole run. -/

/-- A call on a cleared buffer does not call itself and sends nothing. -/
theorem parsePacketCall_cleared (ρ : Residue) {args : ThArgs}
    (h : ∀ i : Nat, (i : Int) < args.recv_len → args.recv_buffer i = 0) (fd : Int) :
    (parsePacketCall ρ args).result = none
      ∧ replies fd (parsePacketCall ρ args).trace = [] := by
  by_cases hlen : args.recv_len < 4
  · rw [parsePacketCall_short ρ args hlen]
    exact ⟨rfl, rfl⟩
  · have h0 : args.recv_buffer 0 = 0 := h 0 (by omega)
    rw [parsePacketCall_drop ρ args hlen (headerValue_cleared h0 _)]
    exact ⟨rfl, rfl⟩

/-- A call that calls itself went through the switch and shifted a remainder. -/
theorem parsePacketCall_some {ρ : Residue} {args args' : ThArgs}
    (h : (parsePacketCall ρ args).result = some args') :
    ¬ args.recv_len < 4 ∧ headerValue args.recv_buffer ρ.header_b3 = 5264211
      ∧ ∃ off, (switchPacketType ρ args (args.recv_buffer 3)
          (dataLen args.recv_buffer)).result = some off
        ∧ (shiftRemaining ρ args off).result = some args' := by
  by_cases hlen : args.recv_len < 4
  · rw [parsePacketCall_short ρ args hlen] at h
    cases h
  by_cases hm : headerValue args.recv_buffer ρ.header_b3 = 5264211
  · rw [parsePacketCall_packet ρ args hlen hm] at h
    rcases hsw : switchPacketType ρ args (args.recv_buffer 3) (dataLen args.recv_buffer)
      with ⟨t, off⟩
    rw [hsw] at h
    cases off with
    | none => simp at h
    | some off => exact ⟨hlen, hm, off, rfl, by simpa using h⟩
  · rw [parsePacketCall_drop ρ args hlen hm] at h
    cases h

/-- The block of a self-call is cleared as far as its length says. -/
theorem parsePacketCall_some_cleared {ρ : Residue} {args args' : ThArgs}
    (h : (parsePacketCall ρ args).result = some args') :
    args'.socket_fd = args.socket_fd
      ∧ ∀ i : Nat, (i : Int) < args'.recv_len → args'.recv_buffer i = 0 := by
  obtain ⟨-, -, off, -, hshift⟩ := parsePacketCall_some h
  obtain ⟨hfd, -, -, hzero⟩ := shiftRemaining_some hshift
  exact ⟨hfd, hzero⟩

/-- **A run is at most two calls deep.**  With fuel for two calls it is the first call's
trace followed by that of the self-call, if there is one. -/
theorem parsePacket_eq {fuel : Nat} (hfuel : 2 ≤ fuel) (ρ : Nat → Residue) (args : ThArgs) :
    parsePacket fuel ρ args =
      some ((parsePacketCall (ρ 0) args).trace ++
        match (parsePacketCall (ρ 0) args).result with
        | none => []
        | some args' => (parsePacketCall (ρ 1) args').trace) := by
  obtain ⟨k, rfl⟩ : ∃ k, fuel = k + 2 := ⟨fuel - 2, by omega⟩
  rcases hcall : parsePacketCall (ρ 0) args with ⟨t, next⟩
  cases next with
  | none =>
      unfold parsePacket
      rw [hcall]
      simp
  | some args' =>
      -- the self-call finds zeros, and does not call itself again
      have hzero := (parsePacketCall_some_cleared (by rw [hcall])).2
      have hstop := (parsePacketCall_cleared (ρ 1) hzero 0).1
      rcases hcall' : parsePacketCall (ρ 1) args' with ⟨t', next'⟩
      rw [hcall'] at hstop
      cases hstop
      have hinner : parsePacket (k + 1) (fun d => ρ (d + 1)) args' = some t' := by
        rw [parsePacket]
        simp only [Nat.zero_add, hcall']
      rw [parsePacket, hcall]
      show (parsePacket (k + 1) (fun d => ρ (d + 1)) args').map (t ++ ·) = _
      rw [hinner]
      show some (t ++ t') = some (t ++ (parsePacketCall (ρ 1) args').trace)
      rw [hcall']

/-- Everything a run sends, it sends in its first call. -/
theorem replies_parsePacket {fuel : Nat} (hfuel : 2 ≤ fuel) (ρ : Nat → Residue)
    (args : ThArgs) (fd : Int) :
    (parsePacket fuel ρ args).map (replies fd)
      = some (replies fd (parsePacketCall (ρ 0) args).trace) := by
  rw [parsePacket_eq hfuel, Option.map_some, replies_append]
  congr 1
  rcases hnext : (parsePacketCall (ρ 0) args).result with _ | args'
  · simp
  · have hzero := (parsePacketCall_some_cleared hnext).2
    show _ ++ replies fd (parsePacketCall (ρ 1) args').trace = _
    rw [(parsePacketCall_cleared (ρ 1) hzero fd).2, List.append_nil]

end SensorServer.Parser
