/-
  SensorServer.Parser.Received — replies, and the received bytes they answer.

  A run is followed call by call (`AtDepth`): how deep it goes, what each call sends, and at
  which position of the received bytes that call stands.  Since the self-call finds zeros,
  whatever is sent is sent for the header at position 0 (`replies_matched`), and it is sent
  whether or not the packet has come in full (`acks_received_iff`).
-/
import SensorServer.Parser.Bounds
import SensorServer.Parser.Pipelining

namespace SensorServer.Parser

open SensorServer.Framework

/-! ## §1. Depth. -/

/-- Only the first call calls itself, and only on a header's worth of bytes. -/
theorem AtDepth.depth {ρ : Nat → Residue} {args a : ThArgs} {d : Nat} (h : AtDepth ρ args d a) :
    d = 0 ∨ d = 1 ∧ 4 ≤ args.recv_len := by
  cases h with
  | top => exact .inl rfl
  | @selfCall d a₀ _ hcaller hnext =>
      rcases hcaller.cleared with ⟨rfl, rfl⟩ | hzero
      · have hlen := (parsePacketCall_some hnext).1
        exact .inr ⟨rfl, by omega⟩
      · -- a cleared block is dropped
        have hstop := (parsePacketCall_cleared (ρ d) hzero 0).1
        rw [hnext] at hstop
        cases hstop

/-- **Bounded depth.**  Whatever the buffer holds and whatever the calls find in memory that
is not theirs, `recv_len / 4 + 1` calls are enough for the run, and none is made deeper. -/
theorem parse_packet_ends (ρ : Nat → Residue) (args : ThArgs) :
    (∃ t, parsePacket (args.recv_len.toNat / 4 + 1) ρ args = some t)
      ∧ ∀ d a, AtDepth ρ args d a → d < args.recv_len.toNat / 4 + 1 := by
  constructor
  · by_cases hlen : args.recv_len < 4
    · have hzero : args.recv_len.toNat / 4 = 0 := by omega
      rw [hzero, parsePacket, parsePacketCall_short (ρ 0) args hlen]
      exact ⟨_, rfl⟩
    · exact ⟨_, parsePacket_eq (by omega) ρ args⟩
  · intro d a h
    rcases h.depth with rfl | ⟨rfl, hlen⟩ <;> omega

/-! ## §2. What is sent. -/

/-- The sends of a trace, in order, with their descriptors. -/
def sent (t : List Event) : List (Int × List UInt8) :=
  t.filterMap fun
    | .send fd bytes => some (fd, bytes)
    | _ => none

@[simp] theorem sent_nil : sent [] = [] := rfl

@[simp] theorem sent_append (t u : List Event) : sent (t ++ u) = sent t ++ sent u :=
  List.filterMap_append

theorem mem_sent {t : List Event} {fd : Int} {bytes : List UInt8} :
    (fd, bytes) ∈ sent t ↔ .send fd bytes ∈ t := by
  rw [sent, List.mem_filterMap]
  constructor
  · rintro ⟨e, he, hsend⟩
    cases e with
    | send fd' bytes' =>
        cases hsend
        exact he
    | _ => cases hsend
  · intro h
    exact ⟨_, h, rfl⟩

/-- A trace that sends nothing on any descriptor sends nothing. -/
theorem sent_eq_nil {t : List Event} (h : ∀ fd, replies fd t = []) : sent t = [] := by
  rw [List.eq_nil_iff_forall_not_mem]
  rintro ⟨fd, bytes⟩ hmem
  have hin : bytes ∈ replies fd t := by
    rw [replies, List.mem_filterMap]
    exact ⟨_, mem_sent.mp hmem, if_pos rfl⟩
  rw [h fd] at hin
  cases hin

/-- A trace that sends nothing replies nothing. -/
theorem replies_of_sent_nil {t : List Event} (h : sent t = []) (fd : Int) : replies fd t = [] := by
  rw [replies, List.filterMap_eq_nil_iff]
  intro e he
  rw [sent, List.filterMap_eq_nil_iff] at h
  have hnone := h e he
  cases e <;> first | rfl | cases hnone

instance (ρ : Residue) (data_len : Int) : Decidable (PublishSurvives ρ data_len) := by
  unfold PublishSurvives
  infer_instance

/-- What the switch sends: one reply for each type a client sends, unless the run dies
before it. -/
theorem sent_switchPacketType (ρ : Residue) (args : ThArgs) (packet_type : UInt8)
    (data_len : Nat) :
    sent (switchPacketType ρ args packet_type data_len).trace =
      match Case.select packet_type with
      | .PING => [(args.socket_fd, reply .PING_OK)]
      | .CONN => [(args.socket_fd, reply .CONN_ACK ++ [0])]
      | .SEND =>
          if 6 + data_len ≤ RECV_BUFFER_LEN ∨ ρ.overread = true then
            [(args.socket_fd, reply .SEND_ACK ++ [0])]
          else []
      | .PUBLISH =>
          if PublishSurvives ρ data_len then [(args.socket_fd, reply .PUBLISH_ACK ++ [0])]
          else []
      | _ => [] := by
  unfold switchPacketType
  cases Case.select packet_type with
  | PING => rfl
  | CONN =>
      simp only [caseConn_eq]
      rfl
  | DIS_CONN => rfl
  | SEND =>
      by_cases hread : 6 + data_len ≤ RECV_BUFFER_LEN ∨ ρ.overread = true
      · simp only [hread, if_true]
        rw [caseSend_ok (by omega) (hread.imp_left (by omega))]
        rfl
      · simp only [hread, if_false]
        rw [not_or] at hread
        -- the copy dies before `SEND_ACK`
        rw [caseSend_fault (by omega) ⟨by omega, by simpa using hread.2⟩]
        rfl
  | PUBLISH =>
      by_cases hsurv : PublishSurvives ρ data_len
      · simp only [hsurv, if_true, casePublish_ok hsurv]
        rfl
      · obtain ⟨t, ht, hquiet⟩ := casePublish_fault args hsurv
        simp only [hsurv, if_false, ht, sent_append]
        rw [sent_eq_nil fun fd => replies_eq_nil hquiet]
        rfl
  | default => rfl

theorem sent_shiftRemaining (ρ : Residue) (args : ThArgs) (off : Int) :
    sent (shiftRemaining ρ args off).trace = [] :=
  sent_eq_nil fun fd => replies_shiftRemaining fd ρ args off

/-- A call sends what its switch sends, if it gets there. -/
theorem sent_parsePacketCall (ρ : Residue) (args : ThArgs) :
    sent (parsePacketCall ρ args).trace =
      if BeginsPacket args ∧ ρ.header_b3 = 0 then
        sent (switchPacketType ρ args (args.recv_buffer 3) (dataLen args.recv_buffer)).trace
      else [] := by
  by_cases hfront : BeginsPacket args ∧ ρ.header_b3 = 0
  · rw [if_pos hfront, parsePacketCall_begins hfront.1 hfront.2, Traced.some_bind]
    rcases switchPacketType ρ args (args.recv_buffer 3) (dataLen args.recv_buffer)
      with ⟨t, _ | off⟩
    · rfl
    · rw [Traced.some_bind, sent_append, sent_append, sent_shiftRemaining, List.append_nil]
      rfl
  · rw [if_neg hfront]
    rcases no_packet_cases hfront with ⟨-, hcall⟩ | ⟨-, hcall⟩ <;> rw [hcall] <;> rfl

/-- A call that finds zeros sends nothing. -/
theorem sent_cleared (ρ : Residue) {args : ThArgs}
    (h : ∀ i : Nat, (i : Int) < args.recv_len → args.recv_buffer i = 0) :
    sent (parsePacketCall ρ args).trace = [] :=
  sent_eq_nil fun fd => (parsePacketCall_cleared ρ h fd).2

/-- A run sends what its first call sends. -/
theorem sent_parsePacket {fuel : Nat} (hfuel : 2 ≤ fuel) (ρ : Nat → Residue) (args : ThArgs) :
    (parsePacket fuel ρ args).map sent = some (sent (parsePacketCall (ρ 0) args).trace) := by
  rw [parsePacket_eq hfuel, Option.map_some, sent_append]
  rcases hnext : (parsePacketCall (ρ 0) args).result with _ | args'
  · rw [sent_nil, List.append_nil]
  · rw [sent_cleared (ρ 1) (parsePacketCall_some_cleared hnext).2, List.append_nil]

/-! ## §3. Each reply has a header of its own. -/

/-- `S|S|P|t` stands at position `k` of the received bytes. -/
structure HeaderAt (args : ThArgs) (k : Nat) (t : ClientType) : Prop where
  received : (k : Int) + 4 ≤ args.recv_len
  magic : args.recv_buffer k = 83 ∧ args.recv_buffer (k + 1) = 83 ∧ args.recv_buffer (k + 2) = 80
  type : args.recv_buffer (k + 3) = t.packetType.toByte

/-- The bytes are a reply to a request of type `t`: they begin with `S|S|P|t + 1`. -/
def Answers (bytes : List UInt8) (t : ClientType) : Prop :=
  bytes.take 4 = [83, 83, 80, t.packetType.toByte + 1]

/-- The replies, all on the block's descriptor, are matched one by one to headers at strictly
increasing positions. -/
def Matched (args : ThArgs) (replies : List (Int × List UInt8)) : Prop :=
  ∃ headers : List (Nat × ClientType), (headers.map Prod.fst).Pairwise (· < ·)
    ∧ List.Forall₂ (fun r h => r.1 = args.socket_fd ∧ Answers r.2 h.2 ∧ HeaderAt args h.1 h.2)
        replies headers

theorem Matched.nil (args : ThArgs) : Matched args [] := ⟨[], .nil, .nil⟩

/-- One reply to the header the block begins with. -/
theorem Matched.front {args : ThArgs} (h : BeginsPacket args) {t : ClientType}
    {bytes : List UInt8} (htype : args.recv_buffer 3 = t.packetType.toByte)
    (hbytes : Answers bytes t) : Matched args [(args.socket_fd, bytes)] := by
  obtain ⟨hlen, hmagic⟩ := h
  refine ⟨[(0, t)], List.pairwise_singleton _ _, .cons ⟨rfl, hbytes, ?_⟩ .nil⟩
  exact ⟨by simpa using hlen, hmagic, htype⟩

/-- What a call sends is matched to the header it begins with. -/
theorem matched_parsePacketCall (ρ : Residue) (args : ThArgs) :
    Matched args (sent (parsePacketCall ρ args).trace) := by
  rw [sent_parsePacketCall]
  by_cases hfront : BeginsPacket args ∧ ρ.header_b3 = 0
  · -- the case is that of the type byte in front, which is the header of the reply
    have htype := Case.select_type (args.recv_buffer 3)
    rw [if_pos hfront, sent_switchPacketType]
    cases hcase : Case.select (args.recv_buffer 3) with
    | PING =>
        rw [hcase] at htype
        exact .front hfront.1 (t := .PING) htype rfl
    | CONN =>
        rw [hcase] at htype
        exact .front hfront.1 (t := .CONN) htype rfl
    | SEND =>
        rw [hcase] at htype
        show Matched args (if _ then _ else [])
        split
        · exact .front hfront.1 (t := .SEND) htype rfl
        · exact .nil args
    | PUBLISH =>
        rw [hcase] at htype
        show Matched args (if _ then _ else [])
        split
        · exact .front hfront.1 (t := .PUBLISH) htype rfl
        · exact .nil args
    | DIS_CONN | default => exact .nil args
  · rw [if_neg hfront]
    exact .nil args

/-- **No reply without its own received header.**  For every content of the buffer, also
behind the received bytes, and every residue, the replies of a run are matched to headers at
strictly increasing positions of the received bytes. -/
theorem replies_matched {fuel : Nat} (hfuel : 2 ≤ fuel) (ρ : Nat → Residue) (args : ThArgs) :
    ∃ t, parsePacket fuel ρ args = some t ∧ Matched args (sent t) := by
  have hsent := sent_parsePacket hfuel ρ args
  rw [parsePacket_eq hfuel, Option.map_some, Option.some.injEq] at hsent
  refine ⟨_, parsePacket_eq hfuel ρ args, ?_⟩
  rw [hsent]
  exact matched_parsePacketCall (ρ 0) args

/-- A `SEND` whose payload is a `PING`. -/
theorem replies_matched_nested :
    ∃ t, parsePacket 2 (fun _ => .quiet 5)
        (ThArgs.received 5 [83, 83, 80, 6, 0, 4, 83, 83, 80, 0]) = some t
      ∧ Matched (ThArgs.received 5 [83, 83, 80, 6, 0, 4, 83, 83, 80, 0]) (sent t) :=
  replies_matched (Nat.le_refl 2) (fun _ => .quiet 5)
    (ThArgs.received 5 [83, 83, 80, 6, 0, 4, 83, 83, 80, 0])

/-! ## §4. Acknowledged packets. -/

/-- The packet acknowledged at position `k` of the received bytes has come in full, and has
room for its UUID unless it is a `SEND`. -/
def CompleteAt (args : ThArgs) (k : Int) (ack : PacketType) : Prop :=
  let data_len := Region.be16 (args.recv_buffer (k.toNat + 4)) (args.recv_buffer (k.toNat + 5))
  k + 6 + data_len ≤ args.recv_len ∧ (ack ≠ .SEND_ACK → 32 ≤ data_len)

/-- The acknowledgements that are sent, by any call, are for complete packets.  A call on
the block `a` stands where the bytes it has yet to parse begin. -/
def AcksReceived (ρ : Nat → Residue) (args : ThArgs) : Prop :=
  ∀ d a, AtDepth ρ args d a →
    ∀ ack ∈ [PacketType.CONN_ACK, .SEND_ACK, .PUBLISH_ACK], ∀ fd,
      .send fd (reply ack ++ [0]) ∈ (parsePacketCall (ρ d) a).trace →
        CompleteAt args (args.recv_len - a.recv_len) ack

/-- The packet the block begins with has come in full, if the run gets as far as
acknowledging it.  A `SEND` too long for the buffer may die at its copy, a `PUBLISH` at its
copy or for want of room for the UUID. -/
def CompleteInFront (ρ : Residue) (args : ThArgs) : Prop :=
  BeginsPacket args →
    match Case.select (args.recv_buffer 3) with
    | .CONN => 32 ≤ dataLen args.recv_buffer ∧ 6 + (dataLen args.recv_buffer : Int) ≤ args.recv_len
    | .SEND => 6 + dataLen args.recv_buffer ≤ RECV_BUFFER_LEN ∨ ρ.overread = true →
        6 + (dataLen args.recv_buffer : Int) ≤ args.recv_len
    | .PUBLISH => PublishSurvives ρ (dataLen args.recv_buffer) →
        6 + (dataLen args.recv_buffer : Int) ≤ args.recv_len
    | _ => True

/-- At the front, what was received is what the length field is compared with. -/
theorem completeAt_front (args : ThArgs) (ack : PacketType) :
    CompleteAt args (args.recv_len - args.recv_len) ack
      ↔ 6 + (dataLen args.recv_buffer : Int) ≤ args.recv_len
        ∧ (ack ≠ .SEND_ACK → 32 ≤ dataLen args.recv_buffer) := by
  rw [Int.sub_self]
  unfold CompleteAt dataLen
  simp

/-- Only the first call acknowledges anything. -/
theorem acksReceived_iff_call (ρ : Nat → Residue) (args : ThArgs) :
    AcksReceived ρ args ↔
      ∀ ack ∈ [PacketType.CONN_ACK, .SEND_ACK, .PUBLISH_ACK], ∀ fd,
        (fd, reply ack ++ [0]) ∈ sent (parsePacketCall (ρ 0) args).trace →
          6 + (dataLen args.recv_buffer : Int) ≤ args.recv_len
            ∧ (ack ≠ .SEND_ACK → 32 ≤ dataLen args.recv_buffer) := by
  constructor
  · intro h ack hack fd hsend
    exact (completeAt_front args ack).mp (h 0 args .top ack hack fd (mem_sent.mp hsend))
  · intro h d a ha ack hack fd hsend
    rcases ha.cleared with ⟨rfl, rfl⟩ | hzero
    · exact (completeAt_front _ ack).mpr (h ack hack fd (mem_sent.mpr hsend))
    · have hmem := mem_sent.mpr hsend
      rw [sent_cleared (ρ d) hzero] at hmem
      cases hmem

/-- **Acknowledged packets.**  With a zero fourth header byte, everything a run acknowledges
has been received in full exactly when the packet in front has, if it is acknowledged. -/
theorem acks_received_iff (ρ : Nat → Residue) (hb3 : (ρ 0).header_b3 = 0) (args : ThArgs) :
    AcksReceived ρ args ↔ CompleteInFront (ρ 0) args := by
  rw [acksReceived_iff_call, sent_parsePacketCall, sent_switchPacketType]
  unfold CompleteInFront
  by_cases hfront : BeginsPacket args
  · simp only [hfront, hb3, and_true, if_true, forall_const]
    -- `PING_OK` is no acknowledgement, and the other two cases send nothing
    cases Case.select (args.recv_buffer 3) with
    | PING => simp [reply]
    | CONN => simp [reply, PacketType.toByte, and_comm]
    | DIS_CONN => simp
    | SEND =>
        by_cases hread : 6 + dataLen args.recv_buffer ≤ RECV_BUFFER_LEN ∨ (ρ 0).overread = true
        · simp [hread, reply, PacketType.toByte]
        · simp [hread]
    | PUBLISH =>
        by_cases hsurv : PublishSurvives (ρ 0) (dataLen args.recv_buffer)
        · have h32 : 32 ≤ dataLen args.recv_buffer := by
            have h := hsurv.1
            omega
          simp [hsurv, h32, reply, PacketType.toByte]
        · simp [hsurv]
    | default => simp
  · simp [hfront]

/-- A `SEND` that has come in full. -/
theorem acks_received_send :
    AcksReceived (fun _ => .quiet 5) (ThArgs.received 5 [83, 83, 80, 6, 0, 1, 72]) :=
  (acks_received_iff (fun _ => .quiet 5) rfl (ThArgs.received 5 [83, 83, 80, 6, 0, 1, 72])).mpr
    fun _ => by
      intro _
      show 6 + (dataLen (ThArgs.received 5 [83, 83, 80, 6, 0, 1, 72]).recv_buffer : Int) ≤ 7
      decide

/-- A `SEND` that declares one byte is acknowledged before the byte has come. -/
theorem send_acked_early :
    (ThArgs.received 5 [83, 83, 80, 6, 0, 1]).recv_len = 6
      ∧ ¬ AcksReceived (fun _ => .quiet 5) (ThArgs.received 5 [83, 83, 80, 6, 0, 1]) := by
  refine ⟨rfl, fun h => ?_⟩
  have hsend : Event.send 5 (reply .SEND_ACK ++ [0])
      ∈ (parsePacketCall (.quiet 5) (ThArgs.received 5 [83, 83, 80, 6, 0, 1])).trace := by decide
  have hfits := (h 0 _ .top .SEND_ACK (by decide) 5 hsend).1
  exact absurd hfits (by decide)

end SensorServer.Parser
