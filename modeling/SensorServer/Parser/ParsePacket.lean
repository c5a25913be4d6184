/-
  SensorServer.Parser.ParsePacket — `parse_packet`, call by call.

  `parse_packet` ends most paths by returning and one by calling itself on the argument
  block it has rewritten.  `parsePacketCall` is one call up to that point: its trace, and
  the block of the self-call when there is one.  `parsePacket` follows the self-calls.

  The cases of the switch are separate definitions with the values the source uses; each
  returns the `next_parse_offset` the code after the switch goes on with.
-/
import SensorServer.Framework.Traced
import SensorServer.Parser.Syntax

namespace SensorServer.Parser

open SensorServer.Framework
open SensorServer.Framework.Traced (emit stop)

/-! ## §1. Memory operations. -/

/-- The run ends here. -/
def abort {α : Type} : Traced Event α := do
  emit .fault
  stop

/-- `malloc(size)` and `bzero(b, size)`.  A negative size is a huge `size_t`: `malloc`
returns `NULL` and clearing it faults. -/
def allocCleared (b : Block) (size : Int) : Traced Event Unit := do
  emit (.malloc b size)
  emit (.bzero b 0 size)
  if size < 0 then abort else return ()

/-- `memcpy(b, &args->recv_buffer[off], len)` into the cleared block `b` of `size` bytes.
The value is the content of `b` afterwards. -/
def copyOut (ρ : Residue) (args : ThArgs) (b : Block) (size off len : Int) :
    Traced Event (List UInt8) := do
  emit (.memcpy b .recv_buffer off len)
  if len < 0 then abort
  else if off + len > RECV_BUFFER_LEN ∧ ρ.overread = false then abort
  else if len > size ∧ ρ.overrun = false then abort
  else return args.recv_buffer.slice off.toNat (min len size).toNat
    ++ List.replicate (size - len).toNat 0

/-! ## §2. The cases of the switch. -/

/-- `{'S', 'S', 'P', t}`. -/
def reply (t : PacketType) : List UInt8 := [83, 83, 80, t.toByte]

/-- `case PING`. -/
def casePing (args : ThArgs) : Traced Event Int := do
  emit (.logDebug "Client PING" [])
  emit (.access .socket_fd)
  emit (.send args.socket_fd (reply .PING_OK))
  return 4

/-- `case CONN`. -/
def caseConn (ρ : Residue) (args : ThArgs) (data_len : Int) : Traced Event Int := do
  emit (.logDebug "Client COUNT:%ld" [])
  allocCleared .uuid 32
  let uuid ← copyOut ρ args .uuid 32 6 32
  emit (.logDebug "Client CONN: %s" [uuid])
  emit (.access .socket_fd)
  emit (.send args.socket_fd (reply .CONN_ACK ++ [0]))
  emit (.free .uuid)
  return 6 + data_len

/-- `case DIS_CONN`: assigns no offset. -/
def caseDisConn (ρ : Residue) (args : ThArgs) : Traced Event Int := do
  emit (.logDebug "Client DIS_CONN" [])
  emit (.access .socket_fd)
  emit (.close args.socket_fd)
  return ρ.next_parse_offset

/-- `case SEND`. -/
def caseSend (ρ : Residue) (args : ThArgs) (data_len : Int) : Traced Event Int := do
  allocCleared .data data_len
  let data ← copyOut ρ args .data data_len 6 data_len
  emit (.logDebug "Client SEND data: [%s]" [data])
  emit (.access .socket_fd)
  emit (.send args.socket_fd (reply .SEND_ACK ++ [0]))
  emit (.free .data)
  return 6 + data_len

/-- `case PUBLISH`: the data block has `data_len - 32` bytes, the copy `data_len - 31`. -/
def casePublish (ρ : Residue) (args : ThArgs) (data_len : Int) : Traced Event Int := do
  allocCleared .uuid 32
  let uuid ← copyOut ρ args .uuid 32 6 32
  allocCleared .data (data_len - 32)
  let data ← copyOut ρ args .data (data_len - 32) 38 (data_len - 31)
  emit (.logDebug "Client PUBLISH data: [%s] to [%s]" [data, uuid])
  emit (.access .socket_fd)
  emit (.send args.socket_fd (reply .PUBLISH_ACK ++ [0]))
  emit (.free .uuid)
  emit (.free .data)
  return 6 + data_len

/-- The switch. -/
def switchPacketType (ρ : Residue) (args : ThArgs) (packet_type : UInt8) (data_len : Int) :
    Traced Event Int :=
  match Case.select packet_type with
  | .PING => casePing args
  | .CONN => caseConn ρ args data_len
  | .DIS_CONN => caseDisConn ρ args
  | .SEND => caseSend ρ args data_len
  | .PUBLISH => casePublish ρ args data_len
  | .default => do
      emit (.access .recv_buffer)
      emit (.logError "Unknown packet type: %d, recv_buffer is: %s")
      stop

/-! ## §3. After the switch: shift the remainder and call again. -/

/-- The value of `args->recv_len` after the block was cleared from `recv_buffer + off` on.  Its
four bytes, the lowest first, lie right before the buffer: each byte the clearing begins early
takes the highest one that is left. -/
def recvLenCleared (off recv_len : Int) : Int :=
  if 0 ≤ off then recv_len
  else if off = -1 then recv_len % 16777216
  else if off = -2 then recv_len % 65536
  else if off = -3 then recv_len % 256
  else 0

/-- The buffer after it was cleared from `off` on and `len` bytes were copied down from there.
Bytes before the buffer that are copied into it have been cleared too. -/
def shifted (recv_buffer : Region) (off len : Int) : Region :=
  if 0 ≤ off then
    (recv_buffer.clear off.toNat ((RECV_BUFFER_LEN : Int) - off).toNat).move off.toNat len.toNat
  else
    (recv_buffer.clear 0 RECV_BUFFER_LEN).clear 0 len.toNat

/-- The run does not outlive clearing the block from `recv_buffer + off` on: `off` lies before
the block, which has eight bytes in front of the buffer, or behind the buffer. -/
def ClearFaults (ρ : Residue) (off : Int) : Prop :=
  off < -8 ∧ ρ.underrun = false ∨ (RECV_BUFFER_LEN : Int) - off < 0 ∧ ρ.wraparound = false

instance (ρ : Residue) (off : Int) : Decidable (ClearFaults ρ off) := by
  unfold ClearFaults
  infer_instance

/-- The run does not outlive copying `len` bytes down from `off`.  No caller has more than
`RECV_BUFFER_LEN` bytes, so nothing is read behind the buffer. -/
def CopyFaults (ρ : Residue) (off len : Int) : Prop :=
  len < 0 ∧ ρ.wraparound = false ∨ 0 ≤ len ∧ off + len > RECV_BUFFER_LEN
    ∨ len > RECV_BUFFER_LEN ∧ ρ.overrun = false

instance (ρ : Residue) (off len : Int) : Decidable (CopyFaults ρ off len) := by
  unfold CopyFaults
  infer_instance

/-- The code after the switch.  The value is the block of the self-call: its length is the
remainder's, and the remainder's bytes are cleared before they are copied down.  What `bzero`
reaches of `recv_len` is read again for the copy; what it reaches of `socket_fd` is not read
again. -/
def shiftRemaining (ρ : Residue) (args : ThArgs) (next_parse_offset : Int) :
    Traced Event ThArgs := do
  emit (.access .recv_len)
  let remain_len := args.recv_len - next_parse_offset
  if remain_len = 0 then
    emit .freeArgs
    stop
  else
    emit (.access .recv_len)
    emit (.bzero .recv_buffer next_parse_offset (RECV_BUFFER_LEN - next_parse_offset))
    if ClearFaults ρ next_parse_offset then abort
    else
      let recv_len := recvLenCleared next_parse_offset remain_len
      emit (.memcpy .recv_buffer .recv_buffer next_parse_offset recv_len)
      if CopyFaults ρ next_parse_offset recv_len then abort
      else
        return { args with
          recv_len := recv_len
          recv_buffer := shifted args.recv_buffer next_parse_offset recv_len }

/-! ## §4. One call, and the run. -/

/-- `header.v`: the first three bytes and a fourth one nobody set, as a little-endian word. -/
def headerValue (recv_buffer : Region) (b3 : UInt8) : Nat :=
  (recv_buffer 0).toNat + (recv_buffer 1).toNat * 256 + (recv_buffer 2).toNat * 65536
    + b3.toNat * 16777216

/-- `data_len.value`: the fifth byte is stored as the high byte, the sixth as the low one. -/
def dataLen (recv_buffer : Region) : Nat := Region.be16 (recv_buffer 4) (recv_buffer 5)

/-- One call of `parse_packet`, up to the self-call. -/
def parsePacketCall (ρ : Residue) (args : ThArgs) : Traced Event ThArgs := do
  emit (.access .recv_len)
  if args.recv_len < 4 then
    emit (.logError "parse_packet error, receive len is:%d")
    emit .freeArgs
    -- the descriptor is read through the block that was just freed
    emit (.access .socket_fd)
    emit (.close ρ.freed_socket_fd)
    stop
  else
    emit (.memcpy .header .recv_buffer 0 3)
    if headerValue args.recv_buffer ρ.header_b3 = 5264211 then
      emit (.access .recv_buffer)
      let next_parse_offset ←
        switchPacketType ρ args (args.recv_buffer 3) (dataLen args.recv_buffer)
      shiftRemaining ρ args next_parse_offset
    else
      emit (.logError "Unknown packet drop it")
      stop

/-- `parse_packet` with its self-calls, at most `fuel` calls deep; `none` when the fuel runs
out.  The call at depth `d` finds the residue `ρ d`. -/
def parsePacket : Nat → (Nat → Residue) → ThArgs → Option (List Event)
  | 0, _, _ => none
  | fuel + 1, ρ, args =>
      match parsePacketCall (ρ 0) args with
      | ⟨t, none⟩ => some t
      | ⟨t, some args'⟩ => (parsePacket fuel (fun d => ρ (d + 1)) args').map (t ++ ·)

end SensorServer.Parser
