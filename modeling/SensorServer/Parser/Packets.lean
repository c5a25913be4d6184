/-
  SensorServer.Parser.Packets — the client side of the wire format.

  A client packet is `SSP`, a type byte and, for every type but `PING`, a two-byte
  big-endian length and that many payload bytes; `CONN` and `PUBLISH` payloads begin with a
  32-byte UUID.  `ClientPacket` carries these conditions, `encode` is the packet on the
  wire, `ack` the reply the protocol promises for it.

  `switchPacketType_survives` and `switchPacketType_dies` say what the switch does with a
  header of one of these types, whatever it declares and whatever has come of it;
  `switchPacketType_answered` and `switchPacketType_unanswered` say so for a packet that is
  complete in the buffer.
-/
import SensorServer.Parser.CallSpec

namespace SensorServer.Parser

open SensorServer.Framework
open SensorServer.Framework.Traced (emit stop)

/-! ## §1. Packets. -/

/-- The packet types a client sends and the server answers. -/
inductive ClientType where
  | PING
  | CONN
  | SEND
  | PUBLISH
  deriving Repr, DecidableEq

namespace ClientType

/-- The type byte's enumerator. -/
def packetType : ClientType → PacketType
  | PING => .PING
  | CONN => .CONN
  | SEND => .SEND
  | PUBLISH => .PUBLISH

/-- The payloads a type admits: none for `PING`, a 16-bit length for the others, with room
for the UUID in `CONN` and `PUBLISH`. -/
def Admits : ClientType → List UInt8 → Prop
  | PING, payload => payload = []
  | SEND, payload => payload.length < 65536
  | CONN, payload | PUBLISH, payload => 32 ≤ payload.length ∧ payload.length < 65536

instance (t : ClientType) (payload : List UInt8) : Decidable (t.Admits payload) := by
  cases t <;> unfold Admits <;> infer_instance

/-- The reply to a packet of the type: `S|S|P|type + 1`, and for all but `PING` a zero byte. -/
def ack : ClientType → List UInt8
  | PING => [83, 83, 80, 1]
  | t => [83, 83, 80, t.packetType.toByte + 1, 0]

/-- Where the packet after one of the type begins, if that declares `data_len` bytes. -/
def size : ClientType → Nat → Nat
  | PING, _ => 4
  | _, data_len => 6 + data_len

/-- Different types have different replies. -/
theorem ack_injective {t t' : ClientType} (h : t.ack = t'.ack) : t = t' := by
  revert h
  cases t <;> cases t' <;> decide

end ClientType

/-- A well-formed client packet. -/
structure ClientPacket where
  type : ClientType
  payload : List UInt8
  admitted : type.Admits payload

namespace ClientPacket

/-- `S|S|P|type`, and for all but `PING` the big-endian length and the payload. -/
def encode (p : ClientPacket) : List UInt8 :=
  match p.type with
  | .PING => [83, 83, 80, 0]
  | t => [83, 83, 80, t.packetType.toByte, UInt8.ofNat (p.payload.length / 256),
      UInt8.ofNat (p.payload.length % 256)] ++ p.payload

/-- `S|S|P|type + 1`, and for all but `PING` a zero byte. -/
def ack (p : ClientPacket) : List UInt8 :=
  match p.type with
  | .PING => [83, 83, 80, 1]
  | t => [83, 83, 80, t.packetType.toByte + 1, 0]

/-- A packet without payload bytes beyond its header. -/
def ping : ClientPacket := ⟨.PING, [], rfl⟩

theorem ack_type (p : ClientPacket) : p.type.ack = p.ack := by
  obtain ⟨t, payload, h⟩ := p
  cases t <;> rfl

theorem length_lt (p : ClientPacket) : p.payload.length < 65536 := by
  obtain ⟨t, payload, h⟩ := p
  cases t with
  | PING =>
      have hnil : payload = [] := h
      simp [hnil]
  | SEND => exact h
  | CONN | PUBLISH => exact h.2

/-- The length of a packet on the wire. -/
theorem length_encode (p : ClientPacket) :
    p.encode.length = if p.type = .PING then 4 else 6 + p.payload.length := by
  obtain ⟨t, payload, h⟩ := p
  cases t <;> simp [encode] <;> omega

theorem four_le_length_encode (p : ClientPacket) : 4 ≤ p.encode.length := by
  rw [length_encode]
  split <;> omega

/-! ## §2. A packet at the front of the buffer. -/

/-- The header bytes of a buffer that begins with the packet. -/
theorem load_encode_header (p : ClientPacket) (rest : List UInt8) :
    Region.load (p.encode ++ rest) 0 = 83 ∧ Region.load (p.encode ++ rest) 1 = 83
      ∧ Region.load (p.encode ++ rest) 2 = 80
      ∧ Region.load (p.encode ++ rest) 3 = p.type.packetType.toByte := by
  obtain ⟨t, payload, h⟩ := p
  cases t <;> exact ⟨rfl, rfl, rfl, rfl⟩

/-- The length field of a buffer that begins with the packet. -/
theorem dataLen_encode (p : ClientPacket) (rest : List UInt8) (ht : p.type ≠ .PING) :
    dataLen (Region.load (p.encode ++ rest)) = p.payload.length := by
  have hsplit := Region.be16_split p.length_lt
  obtain ⟨t, payload, h⟩ := p
  cases t with
  | PING => exact absurd rfl ht
  | CONN | SEND | PUBLISH => exact hsplit

end ClientPacket

/-- What the code needs from memory beyond its buffers to get through a packet.  Only
`PUBLISH` needs anything: its copy writes one byte behind the data block and, when the
packet fills the buffer, reads one byte behind `recv_buffer`. -/
def Answered (ρ : Residue) (p : ClientPacket) : Prop :=
  p.type = .PUBLISH →
    ρ.overrun = true ∧ (7 + p.payload.length ≤ RECV_BUFFER_LEN ∨ ρ.overread = true)

instance (ρ : Residue) (p : ClientPacket) : Decidable (Answered ρ p) := by
  unfold Answered
  infer_instance

/-- A well-formed `PUBLISH` survives exactly when it is answered. -/
theorem publishSurvives_iff {ρ : Residue} {p : ClientPacket} (ht : p.type = .PUBLISH) :
    PublishSurvives ρ p.payload.length ↔ Answered ρ p := by
  obtain ⟨type, payload, hadm⟩ := p
  subst ht
  have h32 : 32 ≤ payload.length := hadm.1
  have hroom : (7 : Int) + payload.length ≤ RECV_BUFFER_LEN
      ↔ 7 + payload.length ≤ RECV_BUFFER_LEN := by omega
  unfold PublishSurvives Answered
  simp only [forall_const, hroom]
  exact ⟨fun h => h.2, fun h => ⟨by omega, h⟩⟩

/-- An event after which the socket is as open as before. -/
def Event.Keeps : Event → Prop
  | .close _ => False
  | .fault => False
  | _ => True

/-! ## §3. The switch on a client's header. -/

/-- The run outlives the copies of a packet of type `t` that declares `data_len` bytes. -/
def CopiesSurvive (ρ : Residue) (data_len : Nat) : ClientType → Prop
  | .PING | .CONN => True
  | .SEND => 6 + data_len ≤ RECV_BUFFER_LEN ∨ ρ.overread = true
  | .PUBLISH => PublishSurvives ρ data_len

/-- **A packet whose copies do no harm is answered once.**  The switch sends the
acknowledgement, leaves the socket open and goes on behind the bytes the packet declares. -/
theorem switchPacketType_survives {ρ : Residue} (args : ThArgs) {t : ClientType} {data_len : Nat}
    (h : CopiesSurvive ρ data_len t) :
    ∃ u, switchPacketType ρ args t.packetType.toByte data_len = ⟨u, some (t.size data_len : Int)⟩
      ∧ replies args.socket_fd u = [t.ack] ∧ ∀ e ∈ u, e.Keeps := by
  cases t with
  | PING =>
      refine ⟨_, casePing_eq, ?_, ?_⟩
      · simp [replies, reply, ClientType.ack, PacketType.toByte]
      · simp [Event.Keeps]
  | CONN =>
      refine ⟨_, caseConn_eq, ?_, ?_⟩
      · simp [replies, reply, ClientType.ack, PacketType.toByte, ClientType.packetType]
      · simp [Event.Keeps]
  | SEND =>
      have hread : 6 + (data_len : Int) ≤ RECV_BUFFER_LEN ∨ ρ.overread = true :=
        h.imp_left (by omega)
      refine ⟨_, caseSend_ok (by omega) hread, ?_, ?_⟩
      · simp [replies, reply, ClientType.ack, PacketType.toByte, ClientType.packetType]
      · simp [Event.Keeps]
  | PUBLISH =>
      refine ⟨_, casePublish_ok h, ?_, ?_⟩
      · simp [replies, reply, ClientType.ack, PacketType.toByte, ClientType.packetType]
      · simp [Event.Keeps]

/-- A packet whose copies the run does not outlive ends it before anything is sent. -/
theorem switchPacketType_dies {ρ : Residue} (args : ThArgs) {t : ClientType} {data_len : Nat}
    (h : ¬ CopiesSurvive ρ data_len t) :
    ∃ u, switchPacketType ρ args t.packetType.toByte data_len = ⟨u ++ [.fault], none⟩
      ∧ ∀ e ∈ u, e.target = none := by
  cases t with
  | PING | CONN => exact absurd trivial h
  | SEND =>
      have hread : ¬ (6 + data_len ≤ RECV_BUFFER_LEN ∨ ρ.overread = true) := h
      rw [not_or] at hread
      refine ⟨[.malloc .data data_len, .bzero .data 0 data_len,
        .memcpy .data .recv_buffer 6 data_len],
        caseSend_fault (by omega) ⟨by omega, by simpa using hread.2⟩, ?_⟩
      simp [Event.target]
  | PUBLISH => exact casePublish_fault args h

/-! ## §4. The switch on a complete packet. -/

/-- A packet that fits the buffer is answered when the run outlives its copies. -/
theorem copiesSurvive_iff {ρ : Residue} {p : ClientPacket}
    (hfits : p.encode.length ≤ RECV_BUFFER_LEN) :
    CopiesSurvive ρ p.payload.length p.type ↔ Answered ρ p := by
  have hsurv := publishSurvives_iff (ρ := ρ) (p := p)
  rw [p.length_encode] at hfits
  obtain ⟨type, payload, hadm⟩ := p
  cases type with
  | PING | CONN => exact iff_of_true trivial nofun
  | SEND => exact iff_of_true (.inl hfits) nofun
  | PUBLISH => exact hsurv rfl

/-- **A complete packet is answered once.**  The switch sends the acknowledgement, leaves
the socket open and goes on with the offset of the next packet. -/
theorem switchPacketType_answered {ρ : Residue} (args : ThArgs) {p : ClientPacket}
    {data_len : Nat} (hans : Answered ρ p) (hfits : p.encode.length ≤ RECV_BUFFER_LEN)
    (hlen : p.type ≠ .PING → data_len = p.payload.length) :
    ∃ t, switchPacketType ρ args p.type.packetType.toByte data_len
        = ⟨t, some (p.encode.length : Int)⟩
      ∧ replies args.socket_fd t = [p.ack] ∧ ∀ e ∈ t, e.Keeps := by
  have hsurv := (copiesSurvive_iff hfits).mpr hans
  have hack := p.ack_type
  rw [p.length_encode]
  obtain ⟨type, payload, hadm⟩ := p
  rw [← hack]
  cases type with
  | PING => exact switchPacketType_survives args (t := .PING) trivial
  | CONN | SEND | PUBLISH =>
      obtain rfl : data_len = payload.length := hlen (by intro h; cases h)
      exact switchPacketType_survives args hsurv

/-- A packet that is not answered ends the process before anything is sent. -/
theorem switchPacketType_unanswered {ρ : Residue} (args : ThArgs) {p : ClientPacket}
    {data_len : Nat} (hans : ¬ Answered ρ p)
    (hlen : p.type ≠ .PING → data_len = p.payload.length) :
    ∃ t, switchPacketType ρ args p.type.packetType.toByte data_len = ⟨t ++ [.fault], none⟩
      ∧ ∀ e ∈ t, e.target = none := by
  have htype : p.type = .PUBLISH := by
    by_contra hne
    exact hans fun h => absurd h hne
  have hsurv := mt (publishSurvives_iff htype).mp hans
  obtain ⟨type, payload, hadm⟩ := p
  subst htype
  obtain rfl : data_len = payload.length := hlen (by intro h; cases h)
  exact casePublish_fault args hsurv

end SensorServer.Parser
