/-
  SensorServer.Parser.EncodePacket — `encode_packet`, and the wire format it is meant for.

  The wire has the type, a big-endian length and the data one behind the other.  The encoder
  copies a `Packet` as it lies in memory, where a byte of padding follows the type, the length
  is little-endian, and a pointer stands for the data.  `encode_packet_iff` says which packets
  come out right all the same.
-/
import SensorServer.Framework.CString
import SensorServer.Parser.ParsePacket

namespace SensorServer.Parser

open SensorServer.Framework

/-! ## §1. `Packet` in memory. -/

/-- `struct Packet`.  `data` is an address; the string it points to is kept apart. -/
structure Packet where
  type : UInt8
  data_len : UInt16
  data : UInt64
  deriving Repr, DecidableEq

/-- What lies in and behind a `Packet` without being a member of it. -/
structure PacketResidue where
  /-- The byte between `type` and `data_len`. -/
  padding : UInt8
  /-- The four bytes between `data_len` and `data`. -/
  tail_padding : Fin 4 → UInt8
  /-- Memory behind the structure. -/
  behind : Region
  /-- A read behind the structure returns; otherwise it ends the run. -/
  overread : Bool

/-- `sizeof(Packet)`. -/
def PACKET_SIZE : Nat := 16

/-- The `i`-th byte of a number, least significant first. -/
def leByte (n i : Nat) : UInt8 := UInt8.ofNat (n >>> (8 * i))

/-- The structure as the x86-64 ABI lays it out: `type` at 0, `data_len` at 2, `data` at 8. -/
def Packet.layout (ρ : PacketResidue) (packet : Packet) : Region := fun i =>
  if i = 0 then packet.type
  else if i = 1 then ρ.padding
  else if i < 4 then leByte packet.data_len.toNat (i - 2)
  else if h : i < 8 then ρ.tail_padding ⟨i - 4, by omega⟩
  else if i < 16 then leByte packet.data.toNat (i - 8)
  else ρ.behind (i - 16)

/-- `encode_packet`: the bytes written to `dist`, where `data` is the string `packet.data` points
to; `none` when the read behind the structure ends the run. -/
def encodePacket (ρ : PacketResidue) (packet : Packet) (data : CString) : Option (List UInt8) :=
  let len := 3 + data.length
  if len > PACKET_SIZE ∧ ρ.overread = false then none
  else some ((packet.layout ρ).slice 0 len)

/-- The encoder gets through if it need not, or may, read behind the structure. -/
theorem encodePacket_eq_some_iff {ρ : PacketResidue} {packet : Packet} {data : CString}
    {bytes : List UInt8} :
    encodePacket ρ packet data = some bytes
      ↔ (3 + data.length ≤ PACKET_SIZE ∨ ρ.overread = true)
        ∧ (packet.layout ρ).slice 0 (3 + data.length) = bytes := by
  show (if 3 + data.length > PACKET_SIZE ∧ ρ.overread = false then none
    else some ((packet.layout ρ).slice 0 (3 + data.length))) = some bytes ↔ _
  by_cases hdies : 3 + data.length > PACKET_SIZE ∧ ρ.overread = false
  · have hnot : ¬ (3 + data.length ≤ PACKET_SIZE ∨ ρ.overread = true) := by
      rintro (h | h)
      · omega
      · rw [hdies.2] at h
        cases h
    rw [if_pos hdies]
    constructor
    · intro h
      cases h
    · intro h
      exact absurd h.1 hnot
  · have hreads : 3 + data.length ≤ PACKET_SIZE ∨ ρ.overread = true := by
      by_cases hlen : 3 + data.length ≤ PACKET_SIZE
      · exact .inl hlen
      · refine .inr ?_
        by_contra hover
        exact hdies ⟨by omega, by simpa using hover⟩
    rw [if_neg hdies, Option.some.injEq, and_iff_right hreads]

/-! ## §2. The wire format. -/

/-- A packet on the wire, without the magic bytes: `type`, `data_len` big-endian, the data. -/
def Packet.wire (packet : Packet) (data : CString) : List UInt8 :=
  packet.type :: leByte packet.data_len.toNat 1 :: leByte packet.data_len.toNat 0 :: data.bytes

/-- `parse_packet` reads the packet back from a buffer that holds `bytes`: its type byte, its
length, and the data where the cases of the switch copy it from. -/
def ReadBack (bytes : List UInt8) (packet : Packet) (data : CString) : Prop :=
  let recv_buffer := Region.load bytes
  recv_buffer 3 = packet.type ∧ dataLen recv_buffer = packet.data_len.toNat
    ∧ recv_buffer.slice 6 (dataLen recv_buffer) = data.bytes

/-- The encoder writes the packet's wire format, and with `S|S|P` before it that is read back as
the same packet. -/
def EncodesWire (ρ : PacketResidue) (packet : Packet) (data : CString) : Prop :=
  ∃ bytes, encodePacket ρ packet data = some bytes ∧ bytes = packet.wire data
    ∧ ReadBack ([83, 83, 80] ++ bytes) packet data

theorem leByte_be16 (n : UInt16) : Region.be16 (leByte n.toNat 1) (leByte n.toNat 0) = n.toNat := by
  have hlt := n.toNat_lt
  have hhigh : leByte n.toNat 1 = UInt8.ofNat (n.toNat / 256) := by
    rw [leByte, Nat.shiftRight_eq_div_pow]
  have hlow : leByte n.toNat 0 = UInt8.ofNat (n.toNat % 256) := by
    apply UInt8.toNat_inj.mp
    simp [leByte]
  rw [hhigh, hlow]
  exact Region.be16_split (by simpa using hlt)

/-- The wire format is always read back. -/
theorem readBack_wire {packet : Packet} {data : CString}
    (hlen : data.length = packet.data_len.toNat) :
    ReadBack ([83, 83, 80] ++ packet.wire data) packet data := by
  have hdata : dataLen (Region.load ([83, 83, 80] ++ packet.wire data)) = packet.data_len.toNat :=
    leByte_be16 packet.data_len
  refine ⟨rfl, hdata, ?_⟩
  rw [hdata, ← hlen, ← data.length_bytes, Region.slice_load_drop]
  · exact List.take_length
  · simp only [Packet.wire, List.length_append, List.length_cons, List.length_nil]
    omega

/-! ## §3. What the encoder writes. -/

section Layout

variable (ρ : PacketResidue) (packet : Packet)

/-- The structure from its fourth byte on: the high byte of `data_len`, padding, the pointer. -/
def Packet.tail : List UInt8 :=
  leByte packet.data_len.toNat 1 ::
    (List.ofFn ρ.tail_padding ++ (List.range 8).map (leByte packet.data.toNat))

theorem layout_front : (packet.layout ρ).slice 0 3
    = [packet.type, ρ.padding, leByte packet.data_len.toNat 0] := rfl

theorem layout_tail : (packet.layout ρ).slice 3 13 = packet.tail ρ := rfl

theorem layout_behind (n : Nat) : (packet.layout ρ).slice 16 n = ρ.behind.slice 0 n := by
  unfold Region.slice
  apply List.map_congr_left
  intro i _
  unfold Packet.layout
  rw [if_neg (by omega), if_neg (by omega), if_neg (by omega), dif_neg (by omega),
    if_neg (by omega)]
  congr 1
  omega

end Layout

/-- The padding byte is the high byte of the length, and there is no data, or at least 256
bytes of it which repeat the rest of the structure and the memory behind it. -/
def RepeatsMemory (ρ : PacketResidue) (packet : Packet) (data : CString) : Prop :=
  ρ.padding = leByte packet.data_len.toNat 1 ∧
    (data = [] ∨ 256 ≤ data.length ∧ ρ.overread = true
      ∧ data.bytes = packet.tail ρ ++ ρ.behind.slice 0 (data.length - 13))

/-- The bytes written are the wire format's exactly if the padding byte and the memory behind
the length field are. -/
theorem layout_eq_wire_iff (ρ : PacketResidue) (packet : Packet) (data : CString) :
    (packet.layout ρ).slice 0 (3 + data.length) = packet.wire data
      ↔ ρ.padding = leByte packet.data_len.toNat 1
        ∧ (packet.layout ρ).slice 3 data.length = data.bytes := by
  rw [Region.slice_add, layout_front]
  unfold Packet.wire
  simp

/-- Data of one byte or more begins where the high byte of its length lies, which is zero for
lengths below 256. -/
theorem long_of_data {ρ : PacketResidue} {packet : Packet} {data : CString}
    (hlen : data.length = packet.data_len.toNat) (hne : data ≠ [])
    (h : (packet.layout ρ).slice 3 data.length = data.bytes) : 256 ≤ data.length := by
  obtain ⟨c, rest, rfl⟩ := List.exists_cons_of_ne_nil hne
  have hhead : leByte packet.data_len.toNat 1 = c.1 := by
    rw [List.length_cons, Nat.add_comm, Region.slice_add] at h
    exact (List.cons.inj h).1
  by_contra hshort
  apply c.2
  rw [← hhead, ← hlen, leByte, Nat.shiftRight_eq_div_pow, Nat.div_eq_of_lt (by omega)]
  rfl

/-- **The encoder.**  Of the packets whose data is a string of `data_len` bytes, exactly those
come out in the wire format, to be read back as the same packet, that repeat what lies in and
behind the structure. -/
theorem encode_packet_iff (ρ : PacketResidue) (packet : Packet) (data : CString)
    (hlen : data.length = packet.data_len.toNat) :
    EncodesWire ρ packet data ↔ RepeatsMemory ρ packet data := by
  unfold EncodesWire RepeatsMemory
  constructor
  · rintro ⟨bytes, henc, rfl, -⟩
    obtain ⟨hread, hbytes⟩ := encodePacket_eq_some_iff.mp henc
    obtain ⟨hpad, htail⟩ := (layout_eq_wire_iff ρ packet data).mp hbytes
    refine ⟨hpad, ?_⟩
    by_cases hne : data = []
    · exact .inl hne
    have hlong := long_of_data hlen hne htail
    -- data there is: the copy runs past the structure, and what lies there must repeat it
    refine .inr ⟨hlong, ?_, ?_⟩
    · refine hread.resolve_left ?_
      show ¬ 3 + data.length ≤ 16
      omega
    · obtain ⟨n, hn⟩ : ∃ n, data.length = 13 + n := ⟨data.length - 13, by omega⟩
      rw [← htail, hn, Region.slice_add, layout_tail, layout_behind, Nat.add_sub_cancel_left]
  · rintro ⟨hpad, hdata⟩
    refine ⟨packet.wire data, encodePacket_eq_some_iff.mpr ?_, rfl, readBack_wire hlen⟩
    rcases hdata with rfl | ⟨hlong, hover, hbytes⟩
    · exact ⟨.inl (by decide), (layout_eq_wire_iff ρ packet []).mpr ⟨hpad, rfl⟩⟩
    · refine ⟨.inr hover, (layout_eq_wire_iff ρ packet data).mpr ⟨hpad, ?_⟩⟩
      obtain ⟨n, hn⟩ : ∃ n, data.length = 13 + n := ⟨data.length - 13, by omega⟩
      rw [hbytes, hn, Region.slice_add, layout_tail, layout_behind, Nat.add_sub_cancel_left]

/-- A packet without data, and a zero padding byte. -/
theorem encode_packet_empty : EncodesWire ⟨0, fun _ => 0, fun _ => 0, true⟩ ⟨6, 0, 4096⟩ [] :=
  (encode_packet_iff ⟨0, fun _ => 0, fun _ => 0, true⟩ ⟨6, 0, 4096⟩ [] rfl).mpr
    ⟨by decide, .inl rfl⟩

/-- A `SEND` of the single byte `A`, in zeroed memory: the low byte of the length comes right
behind the padding, and a zero in the place of the data. -/
theorem encode_one_byte :
    (CString.ofBytes [65]).length = (1 : UInt16).toNat
      ∧ encodePacket ⟨0, fun _ => 0, fun _ => 0, true⟩ ⟨6, 1, 4096⟩ (CString.ofBytes [65])
        = some [6, 0, 1, 0]
      ∧ ¬ EncodesWire ⟨0, fun _ => 0, fun _ => 0, true⟩ ⟨6, 1, 4096⟩ (CString.ofBytes [65]) := by
  refine ⟨by decide, by decide, ?_⟩
  rintro ⟨bytes, henc, rfl, -⟩
  exact absurd henc (by decide)

end SensorServer.Parser
