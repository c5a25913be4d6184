/-
  SensorServer.Parser.Pipelining — several packets in one read.

  The protocol promises one acknowledgement per packet, in order.  The parser keeps that
  promise for the first packet only: it clears the bytes behind the packet before it copies
  them down, so the self-call that should parse the second packet finds zeros.
  `replies_encodeAll` is what a run sends, and `pipelined_replies_iff` the exact condition
  under which that is what the protocol promises.
-/
import SensorServer.Parser.Packets

namespace SensorServer.Parser

open SensorServer.Framework

/-- The bytes of several packets sent back to back. -/
def encodeAll (packets : List ClientPacket) : List UInt8 := packets.flatMap ClientPacket.encode

/-! ## §1. The first packet of a read. -/

/-- The first call on a buffer that begins with a packet: the switch on that packet's type
and length. -/
theorem parsePacketCall_front {ρ : Residue} (hb3 : ρ.header_b3 = 0) (fd : Int)
    (p : ClientPacket) (rest : List UInt8) :
    ∃ data_len : Nat, (p.type ≠ .PING → data_len = p.payload.length)
      ∧ parsePacketCall ρ (ThArgs.received fd (p.encode ++ rest)) =
        (⟨[.access .recv_len, .memcpy .header .recv_buffer 0 3, .access .recv_buffer],
          some ()⟩ : Traced Event Unit) >>= fun _ =>
            switchPacketType ρ (ThArgs.received fd (p.encode ++ rest))
              p.type.packetType.toByte data_len
              >>= shiftRemaining ρ (ThArgs.received fd (p.encode ++ rest)) := by
  have h4 := p.four_le_length_encode
  have hlen : ¬ (ThArgs.received fd (p.encode ++ rest)).recv_len < 4 := by
    show ¬ ((p.encode ++ rest).length : Int) < 4
    rw [List.length_append]
    omega
  obtain ⟨h0, h1, h2, h3⟩ := p.load_encode_header rest
  have hmagic : headerValue (ThArgs.received fd (p.encode ++ rest)).recv_buffer ρ.header_b3
      = 5264211 := (headerValue_eq_magic _ _).mpr ⟨h0, h1, h2, hb3⟩
  refine ⟨dataLen (Region.load (p.encode ++ rest)), p.dataLen_encode rest, ?_⟩
  rw [parsePacketCall_packet ρ _ hlen hmagic]
  show _ >>= (fun _ => switchPacketType ρ _ (Region.load (p.encode ++ rest) 3) _ >>= _) = _
  rw [h3]
  rfl

/-- The first call answers the first packet of the read, and no other. -/
theorem replies_parsePacketCall_front {ρ : Residue} (hb3 : ρ.header_b3 = 0) (fd : Int)
    (p : ClientPacket) (rest : List UInt8) (hfits : p.encode.length ≤ RECV_BUFFER_LEN) :
    replies fd (parsePacketCall ρ (ThArgs.received fd (p.encode ++ rest))).trace
      = if Answered ρ p then [p.ack] else [] := by
  obtain ⟨data_len, hdata, hcall⟩ := parsePacketCall_front hb3 fd p rest
  rw [hcall]
  by_cases hans : Answered ρ p
  · obtain ⟨t, hsw, hrep, -⟩ := switchPacketType_answered
      (ThArgs.received fd (p.encode ++ rest)) hans hfits hdata
    have hrep' : replies fd t = [p.ack] := hrep
    rw [if_pos hans, hsw, Traced.some_bind, Traced.some_bind, replies_append, replies_append,
      hrep', replies_shiftRemaining]
    rfl
  · obtain ⟨t, hsw, hquiet⟩ := switchPacketType_unanswered
      (ThArgs.received fd (p.encode ++ rest)) hans hdata
    rw [if_neg hans, hsw, Traced.none_bind, Traced.some_bind, replies_append, replies_append,
      replies_eq_nil hquiet]
    rfl

/-- The call on a chunk that is one packet answers it or sends nothing, and is the last. -/
theorem parsePacketCall_encode (ρ : Residue) (fd : Int) (p : ClientPacket)
    (hfits : p.encode.length ≤ RECV_BUFFER_LEN) :
    (parsePacketCall ρ (ThArgs.received fd p.encode)).result = none
      ∧ (replies fd (parsePacketCall ρ (ThArgs.received fd p.encode)).trace).Sublist [p.ack] := by
  by_cases hb3 : ρ.header_b3 = 0
  · have hreplies := replies_parsePacketCall_front hb3 fd p [] hfits
    obtain ⟨data_len, hdata, hcall⟩ := parsePacketCall_front hb3 fd p []
    rw [List.append_nil] at hreplies hcall
    refine ⟨?_, ?_⟩
    · rw [hcall]
      by_cases hans : Answered ρ p
      · -- nothing remains behind the packet
        obtain ⟨t, hsw, -, -⟩ := switchPacketType_answered
          (ThArgs.received fd p.encode) hans hfits hdata
        have hlen : (ThArgs.received fd p.encode).recv_len = p.encode.length := rfl
        have hdone := shiftRemaining_done (ρ := ρ) hlen
        rw [hsw, Traced.some_bind, Traced.some_bind, hdone]
      · obtain ⟨t, hsw, -⟩ := switchPacketType_unanswered
          (ThArgs.received fd p.encode) hans hdata
        rw [hsw]
        rfl
    · rw [hreplies]
      split
      · exact List.Sublist.refl _
      · exact List.nil_sublist _
  · -- the fourth byte of the header spoils the comparison
    have h4 := p.four_le_length_encode
    have hlen : ¬ (ThArgs.received fd p.encode).recv_len < 4 := by
      show ¬ (p.encode.length : Int) < 4
      omega
    rw [parsePacketCall_drop ρ _ hlen fun hm => hb3 ((headerValue_eq_magic _ _).mp hm).2.2.2]
    exact ⟨rfl, List.nil_sublist _⟩

/-! ## §2. Whole reads. -/

/-- What a run sends for a read full of packets: at most the first acknowledgement. -/
theorem replies_encodeAll {fuel : Nat} (hfuel : 2 ≤ fuel) {ρ : Nat → Residue}
    (hb3 : (ρ 0).header_b3 = 0) (fd : Int) (p : ClientPacket) (packets : List ClientPacket)
    (hfits : (encodeAll (p :: packets)).length ≤ RECV_BUFFER_LEN) :
    (parsePacket fuel ρ (ThArgs.received fd (encodeAll (p :: packets)))).map (replies fd)
      = some (if Answered (ρ 0) p then [p.ack] else []) := by
  have hsplit : encodeAll (p :: packets) = p.encode ++ encodeAll packets := rfl
  rw [hsplit, List.length_append] at hfits
  rw [replies_parsePacket hfuel, hsplit, replies_parsePacketCall_front hb3 fd p _ (by omega)]

/-- **Pipelined packets.**  A run over a non-empty read of well-formed packets sends one
acknowledgement per packet, in order, exactly when the read holds a single packet (and, if
that is a `PUBLISH`, the run outlives the byte its copy puts behind the data block). -/
theorem pipelined_replies_iff {fuel : Nat} (hfuel : 2 ≤ fuel) (ρ : Nat → Residue)
    (hb3 : ∀ d, (ρ d).header_b3 = 0) (fd : Int) (packets : List ClientPacket)
    (hne : packets ≠ []) (hfits : (encodeAll packets).length ≤ RECV_BUFFER_LEN) :
    (parsePacket fuel ρ (ThArgs.received fd (encodeAll packets))).map (replies fd)
        = some (packets.map ClientPacket.ack)
      ↔ ∃ p, packets = [p] ∧ Answered (ρ 0) p := by
  obtain ⟨p, rest, rfl⟩ := List.exists_cons_of_ne_nil hne
  rw [replies_encodeAll hfuel (hb3 0) fd p rest hfits]
  constructor
  · intro h
    by_cases hans : Answered (ρ 0) p
    · rw [if_pos hans, Option.some.injEq, List.map_cons, List.cons.injEq] at h
      have hrest : rest = [] := List.map_eq_nil_iff.mp h.2.symm
      exact ⟨p, by rw [hrest], hans⟩
    · rw [if_neg hans] at h
      cases h
  · rintro ⟨q, hq, hans⟩
    obtain ⟨rfl, rfl⟩ : p = q ∧ rest = [] := by simpa using hq
    rw [if_pos hans]
    rfl

/-- A single `PING` is answered. -/
theorem pipelined_replies_ping :
    (parsePacket 2 (fun _ => .quiet 7) (ThArgs.received 7 (encodeAll [.ping]))).map (replies 7)
      = some [ClientPacket.ping.ack] :=
  (pipelined_replies_iff (Nat.le_refl 2) (fun _ => .quiet 7) (fun _ => rfl) 7 [.ping]
    (by decide) (by decide)).mpr ⟨.ping, rfl, nofun⟩

/-- Of two `PING`s in one read, one is answered. -/
theorem pipelined_pings_lost :
    (parsePacket 2 (fun _ => .quiet 7) (ThArgs.received 7 (encodeAll [.ping, .ping]))).map
        (replies 7)
      ≠ some ([ClientPacket.ping, .ping].map ClientPacket.ack) := by
  decide

end SensorServer.Parser
