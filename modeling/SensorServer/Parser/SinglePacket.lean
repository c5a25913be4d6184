/-
  SensorServer.Parser.SinglePacket — a packet that is alone in the buffer.

  The run on such a packet is a single call, and `parsePacketCall_alone` is its trace, event
  by event, with the payload in the places the call copies it to.  From it come what the
  parser does right (`single_packet_handled`), and two things it gets wrong with the memory
  it allocates: the data block of a `PUBLISH` (`publish_never_exact`), and strings without
  an end (`strings_end_iff`).
-/
import SensorServer.Framework.Heap
import SensorServer.Parser.Received

namespace SensorServer.Parser

open SensorServer.Framework

/-! ## §1. The memory a run uses. -/

/-- What an event does to memory.  The argument block itself is not counted here. -/
def Event.memOps : Event → List (MemOp Block)
  | .malloc b size => [.alloc b size]
  | .bzero b off len => [.touch b off len]
  | .memcpy dst src off len => [.touch src off len, .touch dst 0 len]
  | .free b => [.release b]
  | _ => []

/-- The blocks every call has: the header union and the buffer. -/
def ownBlocks : Sizes Block
  | .header => some 4
  | .recv_buffer => some RECV_BUFFER_LEN
  | .uuid | .data => none

/-- Every range the trace reads or writes lies in its block. -/
def InRange (t : List Event) : Prop := InBounds ownBlocks (t.flatMap Event.memOps)

/-- A trace in range is in range up to any point. -/
theorem InRange.of_append {t u : List Event} (h : InRange (t ++ u)) : InRange t := by
  unfold InRange at h
  rw [List.flatMap_append, inBounds_append] at h
  exact h.1

/-- The event reads or writes a field of `args`. -/
def Event.UsesArgs : Event → Prop
  | .access _ => True
  | .bzero b _ _ => b = .recv_buffer
  | .memcpy dst src _ _ => dst = .recv_buffer ∨ src = .recv_buffer
  | _ => False

/-- The blocks a trace allocates, with the sizes asked for. -/
def obtained (t : List Event) : List (Block × Int) :=
  t.filterMap fun
    | .malloc b size => some (b, size)
    | _ => none

/-- The bytes of the buffer a trace copies into blocks it has allocated. -/
def extracted (args : ThArgs) (t : List Event) : List (Block × List UInt8) :=
  t.filterMap fun
    | .memcpy .uuid .recv_buffer off len =>
        some (.uuid, args.recv_buffer.slice off.toNat len.toNat)
    | .memcpy .data .recv_buffer off len =>
        some (.data, args.recv_buffer.slice off.toNat len.toNat)
    | _ => none

/-! ## §2. The trace. -/

/-- The memory events of a `PUBLISH` with room for its UUID. -/
def publishEvents (data_len : Int) : List Event :=
  [.malloc .uuid 32, .bzero .uuid 0 32, .memcpy .uuid .recv_buffer 6 32,
    .malloc .data (data_len - 32), .bzero .data 0 (data_len - 32),
    .memcpy .data .recv_buffer 38 (data_len - 31)]

/-- What the switch does for a packet that is answered. -/
def handled (fd : Int) (p : ClientPacket) : List Event :=
  match p.type with
  | .PING =>
      [.logDebug "Client PING" [], .access .socket_fd, .send fd (reply .PING_OK)]
  | .CONN =>
      [.logDebug "Client COUNT:%ld" [], .malloc .uuid 32, .bzero .uuid 0 32,
        .memcpy .uuid .recv_buffer 6 32, .logDebug "Client CONN: %s" [p.payload.take 32],
        .access .socket_fd, .send fd (reply .CONN_ACK ++ [0]), .free .uuid]
  | .SEND =>
      [.malloc .data p.payload.length, .bzero .data 0 p.payload.length,
        .memcpy .data .recv_buffer 6 p.payload.length,
        .logDebug "Client SEND data: [%s]" [p.payload],
        .access .socket_fd, .send fd (reply .SEND_ACK ++ [0]), .free .data]
  | .PUBLISH =>
      publishEvents p.payload.length ++
        [.logDebug "Client PUBLISH data: [%s] to [%s]" [p.payload.drop 32, p.payload.take 32],
          .access .socket_fd, .send fd (reply .PUBLISH_ACK ++ [0]), .free .uuid, .free .data]

namespace ClientPacket

variable (p : ClientPacket)

/-- The payload stands behind a header of six bytes. -/
theorem drop_encode (ht : p.type ≠ .PING) : p.encode.drop 6 = p.payload := by
  obtain ⟨t, payload, h⟩ := p
  cases t with
  | PING => exact absurd rfl ht
  | CONN | SEND | PUBLISH => rfl

/-- A part of the payload, read from the buffer. -/
theorem slice_payload (fd : Int) (ht : p.type ≠ .PING) {off len : Nat}
    (h : off + len ≤ p.payload.length) :
    (ThArgs.received fd p.encode).recv_buffer.slice (6 + off) len
      = (p.payload.drop off).take len := by
  have hlen : p.encode.length = 6 + p.payload.length := by rw [p.length_encode, if_neg ht]
  rw [← p.drop_encode ht, List.drop_drop]
  exact Region.slice_load_drop (by omega)

/-- What a block of `size` bytes holds after a copy that fills it from the payload. -/
theorem copied_payload (fd : Int) (ht : p.type ≠ .PING) (off size : Nat) {start len : Int}
    (hstart : start = 6 + off) (hlen : (size : Int) ≤ len) (h : off + size ≤ p.payload.length) :
    copied (ThArgs.received fd p.encode) size start len = (p.payload.drop off).take size := by
  have hoff : start.toNat = 6 + off := by omega
  have hmin : (min len (size : Int)).toNat = size := by omega
  have hrest : ((size : Int) - len).toNat = 0 := by omega
  unfold copied
  rw [hoff, hmin, hrest, p.slice_payload fd ht h, List.replicate_zero, List.append_nil]

end ClientPacket

/-- The switch on a packet that is answered, for a packet alone in the buffer. -/
theorem switchPacketType_handled {ρ : Residue} (fd : Int) {p : ClientPacket} {data_len : Nat}
    (hans : Answered ρ p) (hfits : p.encode.length ≤ RECV_BUFFER_LEN)
    (hlen : p.type ≠ .PING → data_len = p.payload.length) :
    switchPacketType ρ (ThArgs.received fd p.encode) p.type.packetType.toByte data_len
      = ⟨handled fd p, some p.encode.length⟩ := by
  have hsurv := publishSurvives_iff (ρ := ρ) (p := p)
  have hcopied := p.copied_payload fd
  have hlength := p.length_encode
  obtain ⟨type, payload, hadm⟩ := p
  cases type with
  | PING => rfl
  | CONN =>
      obtain rfl : data_len = payload.length := hlen (by intro h; cases h)
      have h32 : 32 ≤ payload.length := hadm.1
      have huuid : copied (ThArgs.received fd (ClientPacket.mk .CONN payload hadm).encode) 32 6 32
          = payload.take 32 :=
        hcopied (by intro h; cases h) 0 32 (by omega) (by omega)
          (by simpa using h32)
      refine (caseConn_eq (ρ := ρ)).trans ?_
      rw [huuid, hlength]
      rfl
  | SEND =>
      obtain rfl : data_len = payload.length := hlen (by intro h; cases h)
      have hdata : copied (ThArgs.received fd (ClientPacket.mk .SEND payload hadm).encode)
          payload.length 6 payload.length = payload :=
        (hcopied (by intro h; cases h) 0 _ (by omega) (by omega) (by simp)).trans
          List.take_length
      -- the copy reads what was received, so nothing behind the buffer matters
      have hroom : 6 + payload.length ≤ RECV_BUFFER_LEN := by
        rw [hlength] at hfits
        exact hfits
      refine (caseSend_ok (ρ := ρ) (by omega) (.inl (by omega))).trans ?_
      rw [hdata, hlength]
      rfl
  | PUBLISH =>
      obtain rfl : data_len = payload.length := hlen (by intro h; cases h)
      have h32 : 32 ≤ payload.length := hadm.1
      have huuid : copied (ThArgs.received fd (ClientPacket.mk .PUBLISH payload hadm).encode) 32 6 32
          = payload.take 32 :=
        hcopied (by intro h; cases h) 0 32 (by omega) (by omega)
          (by simpa using h32)
      have hdata : copied (ThArgs.received fd (ClientPacket.mk .PUBLISH payload hadm).encode)
          (payload.length - 32) 38 (payload.length - 31) = payload.drop 32 := by
        have hsize : (payload.length : Int) - 32 = ((payload.length - 32 : Nat) : Int) := by omega
        have hroom : 32 + (payload.length - 32) ≤ payload.length := by omega
        -- the copy takes one byte more than the block has, and the block keeps its size
        rw [hsize]
        refine (hcopied (by intro h; cases h) 32 _ (by omega) (by omega) hroom).trans ?_
        exact List.take_of_length_le (Nat.le_of_eq List.length_drop)
      refine (casePublish_ok ((hsurv rfl).mpr hans)).trans ?_
      rw [huuid, hdata, hlength]
      rfl

/-- **The run on a packet alone in the buffer** is one call. -/
theorem parsePacketCall_alone {ρ : Residue} (hb3 : ρ.header_b3 = 0) (fd : Int) {p : ClientPacket}
    (hans : Answered ρ p) (hfits : p.encode.length ≤ RECV_BUFFER_LEN) :
    parsePacketCall ρ (ThArgs.received fd p.encode)
      = ⟨headerEvents ++ (handled fd p ++ [.access .recv_len, .freeArgs]), none⟩ := by
  obtain ⟨data_len, hdata, hcall⟩ := parsePacketCall_front hb3 fd p []
  rw [List.append_nil] at hcall
  have hdone : shiftRemaining ρ (ThArgs.received fd p.encode) p.encode.length
      = ⟨[.access .recv_len, .freeArgs], none⟩ := shiftRemaining_done rfl
  rw [hcall, switchPacketType_handled fd hans hfits hdata, Traced.some_bind, Traced.some_bind,
    hdone]
  rfl

/-! ## §3. What the parser does right. -/

/-- The parts of the payload that are copied out, and the blocks they are copied to. -/
def ClientPacket.parts (p : ClientPacket) : List (Block × List UInt8) :=
  match p.type with
  | .PING => []
  | .CONN => [(.uuid, p.payload.take 32)]
  | .SEND => [(.data, p.payload)]
  | .PUBLISH => [(.uuid, p.payload.take 32), (.data, p.payload.drop 32)]

/-- The trace handles the packet in full and does nothing else: one reply, each part in a
block of its own size, no range beyond its block, the argument block freed once and last,
and the socket left open. -/
structure HandledExactly (args : ThArgs) (p : ClientPacket) (t : List Event) : Prop where
  replied : sent t = [(args.socket_fd, p.ack)]
  obtains : obtained t = p.parts.map fun part => (part.1, (part.2.length : Int))
  extracts : extracted args t = p.parts
  in_range : InRange t
  owns : GivenUpOnce .freeArgs Event.UsesArgs t
  closes_nothing : ∀ e ∈ t, e.isClose = false

/-- What is sent for a packet that is answered. -/
theorem sent_handled (fd : Int) (p : ClientPacket) (t u : List Event)
    (ht : sent t = []) (hu : sent u = []) :
    sent (t ++ (handled fd p ++ u)) = [(fd, p.ack)] := by
  rw [sent_append, sent_append, ht, hu, List.nil_append, List.append_nil]
  obtain ⟨type, payload, hadm⟩ := p
  cases type <;> rfl

/-- The blocks allocated and filled for a packet other than `PUBLISH`. -/
theorem extracted_handled (fd : Int) (p : ClientPacket) (ht : p.type ≠ .PUBLISH) :
    obtained (handled fd p) = p.parts.map (fun part => (part.1, (part.2.length : Int)))
      ∧ extracted (ThArgs.received fd p.encode) (handled fd p) = p.parts := by
  have hslice := p.slice_payload fd
  obtain ⟨type, payload, hadm⟩ := p
  cases type with
  | PING => exact ⟨rfl, rfl⟩
  | CONN =>
      have h32 : 32 ≤ payload.length := hadm.1
      constructor
      · show [(Block.uuid, (32 : Int))] = [(Block.uuid, ((payload.take 32).length : Int))]
        rw [List.length_take, Nat.min_eq_left h32]
        rfl
      · show [(Block.uuid, Region.slice _ (6 + 0) 32)] = [(Block.uuid, payload.take 32)]
        rw [hslice (by intro h; cases h) (by simpa using h32), List.drop_zero]
  | SEND =>
      constructor
      · rfl
      · show [(Block.data, Region.slice _ (6 + 0) payload.length)] = [(Block.data, payload)]
        rw [hslice (by intro h; cases h) (by simp), List.drop_zero, List.take_length]
  | PUBLISH => exact absurd rfl ht

/-- The ranges used for a packet other than `PUBLISH`. -/
theorem inRange_handled (fd : Int) (p : ClientPacket) (ht : p.type ≠ .PUBLISH)
    (hfits : p.encode.length ≤ RECV_BUFFER_LEN) :
    InRange (headerEvents ++ (handled fd p ++ [.access .recv_len, .freeArgs])) := by
  rw [p.length_encode] at hfits
  obtain ⟨type, payload, hadm⟩ := p
  cases type with
  | PING =>
      simp [InRange, headerEvents, handled, Event.memOps, ownBlocks, RECV_BUFFER_LEN]
  | CONN =>
      simp [InRange, headerEvents, handled, Event.memOps, ownBlocks, RECV_BUFFER_LEN]
  | SEND =>
      have hroom : 6 + (payload.length : Int) ≤ RECV_BUFFER_LEN := by
        have hfits' : 6 + payload.length ≤ RECV_BUFFER_LEN := hfits
        omega
      simp [InRange, headerEvents, handled, Event.memOps, ownBlocks]
      exact ⟨by decide, hroom⟩
  | PUBLISH => exact absurd rfl ht

/-- Nothing before the end frees the argument block, and nothing closes the socket. -/
theorem handled_keeps (fd : Int) (p : ClientPacket) :
    ∀ e ∈ headerEvents ++ handled fd p ++ [.access .recv_len],
      e ≠ .freeArgs ∧ e.isClose = false := by
  obtain ⟨type, payload, hadm⟩ := p
  cases type <;> simp [headerEvents, handled, publishEvents, Event.isClose]

/-- **A single complete packet.**  For every well-formed `PING`, `CONN` or `SEND` alone in the
buffer, one call without a self-call answers it once, copies exactly its part of the payload
into a block of that size, stays in its blocks, frees the argument block once after its last
use and closes nothing. -/
theorem single_packet_handled (ρ : Nat → Residue) (hb3 : (ρ 0).header_b3 = 0) (fd : Int)
    (p : ClientPacket) (ht : p.type ≠ .PUBLISH) (hfits : p.encode.length ≤ RECV_BUFFER_LEN) :
    ∃ t, (∀ fuel, parsePacket (fuel + 1) ρ (ThArgs.received fd p.encode) = some t)
      ∧ HandledExactly (ThArgs.received fd p.encode) p t := by
  have hans : Answered (ρ 0) p := fun h => absurd h ht
  have hcall := parsePacketCall_alone hb3 fd hans hfits
  refine ⟨headerEvents ++ (handled fd p ++ [.access .recv_len, .freeArgs]), ?_, ?_⟩
  · intro fuel
    rw [parsePacket, hcall]
  · obtain ⟨hobtained, hextracted⟩ := extracted_handled fd p ht
    have hkeeps := handled_keeps fd p
    -- the `free` is the last event, so nothing uses the block after it
    have hsplit : headerEvents ++ (handled fd p ++ [.access .recv_len, .freeArgs])
        = (headerEvents ++ handled fd p ++ [.access .recv_len]) ++ [.freeArgs] := by simp
    refine ⟨sent_handled fd p _ _ rfl rfl, ?_, ?_, inRange_handled fd p ht hfits, ?_, ?_⟩
    · unfold obtained at hobtained ⊢
      rw [List.filterMap_append, List.filterMap_append, hobtained]
      simp [headerEvents]
    · unfold extracted at hextracted ⊢
      rw [List.filterMap_append, List.filterMap_append, hextracted]
      simp [headerEvents]
    · rw [hsplit, givenUpOnce_append_left fun hmem => (hkeeps _ hmem).1 rfl,
        givenUpOnce_cons_self]
      simp
    · rw [hsplit]
      intro e he
      rcases List.mem_append.mp he with he | he
      · exact (hkeeps e he).2
      · rw [List.mem_singleton.mp he]
        rfl

/-- A `SEND` of the five bytes of `Hello`, which are copied. -/
theorem single_send_handled :
    ∃ t, (∀ fuel, parsePacket (fuel + 1) (fun _ => .quiet 5)
        (ThArgs.received 5 (ClientPacket.mk .SEND [72, 101, 108, 108, 111] (by decide)).encode)
          = some t)
      ∧ HandledExactly
          (ThArgs.received 5 (ClientPacket.mk .SEND [72, 101, 108, 108, 111] (by decide)).encode)
          (ClientPacket.mk .SEND [72, 101, 108, 108, 111] (by decide)) t :=
  single_packet_handled (fun _ => .quiet 5) rfl 5
    (ClientPacket.mk .SEND [72, 101, 108, 108, 111] (by decide)) (by decide) (by decide)

/-! ## §4. Strings without an end. -/

/-- Every block printed under `%s` holds a zero byte. -/
def StringsEnd (t : List Event) : Prop :=
  ∀ text strings, .logDebug text strings ∈ t → ∀ s ∈ strings, 0 ∈ s

/-- The payload itself brings a zero byte into each part that is printed: every part of a
packet that is answered. -/
def BringsZeros (ρ : Residue) (p : ClientPacket) : Prop :=
  Answered ρ p → ∀ part ∈ p.parts, 0 ∈ part.2

/-- A `PUBLISH` that is not answered dies at the copy of its data. -/
theorem parsePacketCall_unanswered {ρ : Residue} (hb3 : ρ.header_b3 = 0) (fd : Int)
    {p : ClientPacket} (hans : ¬ Answered ρ p) :
    parsePacketCall ρ (ThArgs.received fd p.encode)
      = ⟨headerEvents ++ (publishEvents p.payload.length ++ [.fault]), none⟩ := by
  have htype : p.type = .PUBLISH := by
    by_contra hne
    exact hans fun h => absurd h hne
  have hsurv := mt (publishSurvives_iff htype).mp hans
  obtain ⟨data_len, hdata, hcall⟩ := parsePacketCall_front hb3 fd p []
  rw [List.append_nil] at hcall
  rw [hcall]
  obtain ⟨type, payload, hadm⟩ := p
  subst htype
  obtain rfl : data_len = payload.length := hdata (by intro h; cases h)
  have h32 : 32 ≤ (payload.length : Int) := Int.ofNat_le.mpr hadm.1
  have hdies := casePublish_dies (ThArgs.received fd (ClientPacket.mk .PUBLISH payload hadm).encode)
    h32 hsurv
  show _ >>= (fun _ => casePublish ρ _ (payload.length : Int) >>= _) = _
  rw [hdies]
  rfl

/-- Only the switch prints blocks. -/
theorem stringsEnd_handled (fd : Int) (p : ClientPacket) :
    StringsEnd (headerEvents ++ (handled fd p ++ [.access .recv_len, .freeArgs]))
      ↔ ∀ part ∈ p.parts, 0 ∈ part.2 := by
  unfold StringsEnd
  obtain ⟨type, payload, hadm⟩ := p
  cases type with
  | PING => simp [headerEvents, handled, ClientPacket.parts]
  | CONN | SEND => simp [headerEvents, handled, ClientPacket.parts, or_imp, forall_and]
  | PUBLISH =>
      simp [headerEvents, handled, publishEvents, ClientPacket.parts, or_imp, forall_and,
        and_comm]

/-- **Strings in the log.**  For every complete packet alone in the buffer, each block that is
printed ends inside the block exactly when the part of the payload it holds has a zero byte,
or nothing is printed since the run dies first. -/
theorem strings_end_iff (ρ : Nat → Residue) (hb3 : (ρ 0).header_b3 = 0) (fd : Int)
    (p : ClientPacket) (hfits : p.encode.length ≤ RECV_BUFFER_LEN) :
    ∃ t, (∀ fuel, parsePacket (fuel + 1) ρ (ThArgs.received fd p.encode) = some t)
      ∧ (StringsEnd t ↔ BringsZeros (ρ 0) p) := by
  by_cases hans : Answered (ρ 0) p
  · have hcall := parsePacketCall_alone hb3 fd hans hfits
    refine ⟨_, fun fuel => by rw [parsePacket, hcall], ?_⟩
    rw [stringsEnd_handled]
    exact ⟨fun h _ => h, fun h => h hans⟩
  · have hcall := parsePacketCall_unanswered hb3 fd hans
    refine ⟨_, fun fuel => by rw [parsePacket, hcall], ?_⟩
    refine ⟨fun _ h => absurd h hans, fun _ => ?_⟩
    unfold StringsEnd
    simp [headerEvents, publishEvents]

/-- A `SEND` whose payload ends with a zero byte. -/
theorem strings_end_send :
    ∃ t, (∀ fuel, parsePacket (fuel + 1) (fun _ => .quiet 5)
        (ThArgs.received 5 (ClientPacket.mk .SEND [72, 105, 0] (by decide)).encode) = some t)
      ∧ StringsEnd t := by
  obtain ⟨t, hrun, hiff⟩ := strings_end_iff (fun _ => .quiet 5) rfl 5
    (ClientPacket.mk .SEND [72, 105, 0] (by decide)) (by decide)
  exact ⟨t, hrun, hiff.mpr fun _ => by decide⟩

/-- The five bytes of a `SEND` of `HELLO` are printed from a block of five bytes. -/
theorem send_string_unended :
    ∃ t, parsePacket 2 (fun _ => .quiet 5) (ThArgs.received 5
        (ClientPacket.mk .SEND [72, 69, 76, 76, 79] (by decide)).encode) = some t
      ∧ ¬ StringsEnd t := by
  refine ⟨_, rfl, fun h => ?_⟩
  have hends := h "Client SEND data: [%s]" [[72, 69, 76, 76, 79]] (by decide) _
    List.mem_cons_self
  exact absurd hends (by decide)

/-! ## §5. The data of a `PUBLISH`. -/

/-- A `PUBLISH` on the wire, with room for its UUID or without. -/
def publishBytes (payload : List UInt8) : List UInt8 :=
  [83, 83, 80, 8, UInt8.ofNat (payload.length / 256), UInt8.ofNat (payload.length % 256)]
    ++ payload

/-- A payload without room for the UUID is rejected without an allocation or a copy into an
allocated block; otherwise the data block is allocated, cleared and filled with the
`data_len - 32` bytes behind the UUID, and no range leaves its block. -/
def ExtractsData (data_len : Nat) (t : List Event) : Prop :=
  if data_len < 32 then
    ∀ e ∈ t, (∀ b size, e ≠ .malloc b size) ∧
      ∀ dst src off len, e = .memcpy dst src off len → dst = .header
  else
    .malloc .data (data_len - 32) ∈ t ∧ .bzero .data 0 (data_len - 32) ∈ t
      ∧ .memcpy .data .recv_buffer 38 (data_len - 32) ∈ t ∧ InRange t

/-- The call on a `PUBLISH`: its case, then the code after the switch. -/
theorem parsePacketCall_publish {ρ : Residue} (hb3 : ρ.header_b3 = 0) (fd : Int)
    {payload : List UInt8} (hlen : payload.length < 65536) :
    parsePacketCall ρ (ThArgs.received fd (publishBytes payload))
      = (⟨headerEvents, some ()⟩ : Traced Event Unit) >>= fun _ =>
          casePublish ρ (ThArgs.received fd (publishBytes payload)) payload.length
            >>= shiftRemaining ρ (ThArgs.received fd (publishBytes payload)) := by
  have hlong : ¬ (ThArgs.received fd (publishBytes payload)).recv_len < 4 := by
    show ¬ ((publishBytes payload).length : Int) < 4
    rw [publishBytes, List.length_append]
    show ¬ ((6 + payload.length : Nat) : Int) < 4
    omega
  have hmagic : headerValue (ThArgs.received fd (publishBytes payload)).recv_buffer ρ.header_b3
      = 5264211 := (headerValue_eq_magic _ _).mpr ⟨rfl, rfl, rfl, hb3⟩
  have hdata : dataLen (ThArgs.received fd (publishBytes payload)).recv_buffer = payload.length :=
    Region.be16_split hlen
  rw [parsePacketCall_packet ρ _ hlong hmagic, hdata]
  rfl

theorem casePublish_trace (ρ : Residue) (args : ThArgs) {data_len : Int} (h32 : 32 ≤ data_len) :
    ∃ rest, (casePublish ρ args data_len).trace = publishEvents data_len ++ rest := by
  by_cases hsurv : PublishSurvives ρ data_len
  · rw [casePublish_ok hsurv]
    exact ⟨_, rfl⟩
  · rw [casePublish_dies args h32 hsurv]
    exact ⟨_, rfl⟩

/-- One byte more is copied than the data block has. -/
theorem publishEvents_overrun (data_len : Int) :
    ¬ InRange (headerEvents ++ publishEvents data_len) := by
  intro hrange
  -- the copy is the last event
  let before := (headerEvents ++ (publishEvents data_len).take 5).flatMap Event.memOps
  have hsplit : InBounds ownBlocks (before ++
      [.touch .recv_buffer 38 (data_len - 31), .touch .data 0 (data_len - 31)]) := hrange
  have hcopy : (MemOp.touch Block.data 0 (data_len - 31)).Fits
      (before.foldl MemOp.after ownBlocks) := (inBounds_append.mp hsplit).2.2.1
  obtain ⟨size, hsize, -, -, hfits⟩ := hcopy
  have hblock : (if 0 ≤ data_len - 32 then some (data_len - 32) else none) = some size := hsize
  split at hblock
  · cases hblock
    omega
  · cases hblock

/-- A `PUBLISH` never stays in its blocks: without room for the UUID, the data block that is
cleared was not allocated. -/
theorem casePublish_not_inRange {ρ : Residue} (args : ThArgs) (data_len : Nat) :
    ¬ InRange (headerEvents ++ (casePublish ρ args data_len).trace) := by
  by_cases h32 : data_len < 32
  · rw [casePublish_small args (by omega)]
    unfold InRange
    simp [headerEvents, Event.memOps, ownBlocks]
    omega
  · have h32' : 32 ≤ (data_len : Int) := by omega
    obtain ⟨rest, htrace⟩ := casePublish_trace ρ args h32'
    rw [htrace, ← List.append_assoc]
    exact fun hrange => publishEvents_overrun _ hrange.of_append

/-- A run begins with its first call. -/
theorem parsePacket_trace {fuel : Nat} (hfuel : 2 ≤ fuel) (ρ : Nat → Residue) (args : ThArgs) :
    ∃ rest, parsePacket fuel ρ args = some ((parsePacketCall (ρ 0) args).trace ++ rest) :=
  ⟨_, parsePacket_eq hfuel ρ args⟩

/-- **The data of a `PUBLISH`** is extracted as it should be from no packet at all: without
room for the UUID blocks are allocated and filled, and with it the copy leaves its block. -/
theorem publish_never_exact {fuel : Nat} (hfuel : 2 ≤ fuel) (ρ : Nat → Residue)
    (hb3 : (ρ 0).header_b3 = 0) (fd : Int) (payload : List UInt8)
    (hfits : (publishBytes payload).length ≤ RECV_BUFFER_LEN) :
    ∃ t, parsePacket fuel ρ (ThArgs.received fd (publishBytes payload)) = some t
      ∧ ¬ ExtractsData payload.length t := by
  have hlen : 6 + payload.length ≤ 10240 := by
    rw [publishBytes, List.length_append] at hfits
    exact hfits
  obtain ⟨rest, hrun⟩ := parsePacket_trace hfuel ρ (ThArgs.received fd (publishBytes payload))
  refine ⟨_, hrun, ?_⟩
  obtain ⟨rest', hcase⟩ := Traced.bind_trace
    (casePublish (ρ 0) (ThArgs.received fd (publishBytes payload)) payload.length)
    (shiftRemaining (ρ 0) (ThArgs.received fd (publishBytes payload)))
  rw [parsePacketCall_publish hb3 fd (by omega), Traced.some_bind, hcase]
  unfold ExtractsData
  by_cases h32 : payload.length < 32
  · rw [if_pos h32, casePublish_small _ (by omega)]
    -- too short for a UUID, and yet 32 bytes are allocated for one
    intro hrejects
    exact (hrejects (.malloc .uuid 32) (by simp)).1 _ _ rfl
  · rw [if_neg h32]
    rintro ⟨-, -, -, hrange⟩
    have hsplit : InRange (headerEvents ++ ((casePublish (ρ 0)
        (ThArgs.received fd (publishBytes payload)) payload.length).trace ++ rest') ++ rest) := hrange
    rw [← List.append_assoc] at hsplit
    exact casePublish_not_inRange _ _ hsplit.of_append.of_append

/-- A `PUBLISH` of `HELLO`. -/
theorem publish_hello_never_exact :
    ∃ t, parsePacket 2 (fun _ => .quiet 5) (ThArgs.received 5
        (publishBytes (List.replicate 32 48 ++ [72, 69, 76, 76, 79]))) = some t
      ∧ ¬ ExtractsData (List.replicate 32 48 ++ [72, 69, 76, 76, 79]).length t :=
  publish_never_exact (Nat.le_refl 2) (fun _ => .quiet 5) rfl 5
    (List.replicate 32 48 ++ [72, 69, 76, 76, 79]) (by decide)

/-- Of the `PUBLISH` of `HELLO` six bytes are copied, not five. -/
theorem publish_hello_overrun :
    ∃ t, parsePacket 2 (fun _ => .quiet 5) (ThArgs.received 5
        (publishBytes (List.replicate 32 48 ++ [72, 69, 76, 76, 79]))) = some t
      ∧ ¬ ExtractsData 37 t := by
  refine ⟨_, rfl, fun h => ?_⟩
  have hcopy : Event.memcpy .data .recv_buffer 38 5 ∈ (parsePacketCall (.quiet 5)
      (ThArgs.received 5 (publishBytes (List.replicate 32 48 ++ [72, 69, 76, 76, 79])))).trace :=
    h.2.2.1
  exact absurd hcopy (by decide)

end SensorServer.Parser
