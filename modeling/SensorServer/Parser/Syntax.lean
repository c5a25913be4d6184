/-
  SensorServer.Parser.Syntax — the data `parse_packet` works on, and what a run of it does.

  `ThArgs` is the argument block `start_epoll` hands to a worker, `PacketType` the packet
  types of the protocol, and `Event` one observable action of a run: an access to the
  argument block, an operation on memory, a log line, a `send`, a `close`, a `free`.

  What the C text leaves indeterminate is collected in `Residue`: the fourth byte of the
  header union, the offset the `DIS_CONN` case never assigns, what a read through the
  freed argument block returns, and whether a run outlives an access beyond a buffer or an
  operation with a negative length.
-/
import SensorServer.Framework.Bytes

namespace SensorServer.Parser

open SensorServer.Framework

/-! ## §1. Packet types. -/

/-- `enum PacketType`. -/
inductive PacketType where
  | PING
  | PING_OK
  | CONN
  | CONN_ACK
  | DIS_CONN
  | DIS_CONN_ACK
  | SEND
  | SEND_ACK
  | PUBLISH
  | PUBLISH_ACK
  deriving Repr, DecidableEq

/-- The value of an enumerator: `PING = 0x00`, each next one larger by one. -/
def PacketType.toByte : PacketType → UInt8
  | .PING => 0
  | .PING_OK => 1
  | .CONN => 2
  | .CONN_ACK => 3
  | .DIS_CONN => 4
  | .DIS_CONN_ACK => 5
  | .SEND => 6
  | .SEND_ACK => 7
  | .PUBLISH => 8
  | .PUBLISH_ACK => 9

/-- The cases of `switch (packet_type)`; every other byte takes the `default`. -/
inductive Case where
  | PING
  | CONN
  | DIS_CONN
  | SEND
  | PUBLISH
  | default
  deriving Repr, DecidableEq

/-- Which case of the switch a type byte selects. -/
def Case.select (packet_type : UInt8) : Case :=
  if packet_type = PacketType.PING.toByte then .PING
  else if packet_type = PacketType.CONN.toByte then .CONN
  else if packet_type = PacketType.DIS_CONN.toByte then .DIS_CONN
  else if packet_type = PacketType.SEND.toByte then .SEND
  else if packet_type = PacketType.PUBLISH.toByte then .PUBLISH
  else .default

/-- The type byte that selects a case. -/
theorem Case.select_type (packet_type : UInt8) :
    match Case.select packet_type with
    | .PING => packet_type = PacketType.PING.toByte
    | .CONN => packet_type = PacketType.CONN.toByte
    | .DIS_CONN => packet_type = PacketType.DIS_CONN.toByte
    | .SEND => packet_type = PacketType.SEND.toByte
    | .PUBLISH => packet_type = PacketType.PUBLISH.toByte
    | .default => True := by
  unfold Case.select
  by_cases h0 : packet_type = PacketType.PING.toByte
  · rw [if_pos h0]
    exact h0
  by_cases h2 : packet_type = PacketType.CONN.toByte
  · rw [if_neg h0, if_pos h2]
    exact h2
  by_cases h4 : packet_type = PacketType.DIS_CONN.toByte
  · rw [if_neg h0, if_neg h2, if_pos h4]
    exact h4
  by_cases h6 : packet_type = PacketType.SEND.toByte
  · rw [if_neg h0, if_neg h2, if_neg h4, if_pos h6]
    exact h6
  by_cases h8 : packet_type = PacketType.PUBLISH.toByte
  · rw [if_neg h0, if_neg h2, if_neg h4, if_neg h6, if_pos h8]
    exact h8
  · rw [if_neg h0, if_neg h2, if_neg h4, if_neg h6, if_neg h8]
    trivial

/-! ## §2. The argument block. -/

/-- The size of `recv_buffer`. -/
def RECV_BUFFER_LEN : Nat := 10240

/-- `struct th_args`: four bytes of `socket_fd`, four of `recv_len`, then the buffer.  Offsets
of `recv_buffer` from `RECV_BUFFER_LEN` on stand for the memory behind the block, which the
code can read only by overrunning the buffer. -/
structure ThArgs where
  socket_fd : Int
  recv_len : Int
  recv_buffer : Region

/-- The block as `start_epoll` fills it: cleared, then the received bytes. -/
def ThArgs.received (socket_fd : Int) (bytes : List UInt8) : ThArgs where
  socket_fd := socket_fd
  recv_len := bytes.length
  recv_buffer := Region.load bytes

/-- The received bytes of a block. -/
def ThArgs.bytes (args : ThArgs) : List UInt8 := args.recv_buffer.slice 0 args.recv_len.toNat

@[simp] theorem ThArgs.bytes_received (socket_fd : Int) (bytes : List UInt8) :
    (ThArgs.received socket_fd bytes).bytes = bytes :=
  Region.slice_load bytes

/-- What one call of `parse_packet` finds in memory the code has not initialised, has freed
or does not own. -/
structure Residue where
  /-- The fourth byte of the header union; `memcpy` sets three. -/
  header_b3 : UInt8
  /-- `next_parse_offset` as the `DIS_CONN` case leaves it. -/
  next_parse_offset : Int
  /-- What `args->socket_fd` reads after `free(args)`. -/
  freed_socket_fd : Int
  /-- A read behind `recv_buffer` returns; otherwise it ends the run. -/
  overread : Bool
  /-- A write behind a heap block returns; otherwise it ends the run. -/
  overrun : Bool
  /-- A write that begins before a heap block returns; otherwise it ends the run. -/
  underrun : Bool
  /-- Clearing or copying within the argument block returns although the length is negative, and
  huge as a `size_t`; otherwise it ends the run.  One that returns leaves `recv_len` alone. -/
  wraparound : Bool
  deriving Repr, DecidableEq

/-- Memory that keeps quiet: the header's fourth byte is zero, the freed block still holds
its descriptor, operations that leave a block return. -/
def Residue.quiet (fd : Int) : Residue where
  header_b3 := 0
  next_parse_offset := 4
  freed_socket_fd := fd
  overread := true
  overrun := true
  underrun := true
  wraparound := true

/-- The same, but an operation that leaves its block ends the run. -/
def Residue.strict (fd : Int) : Residue where
  header_b3 := 0
  next_parse_offset := 4
  freed_socket_fd := fd
  overread := false
  overrun := false
  underrun := false
  wraparound := false

/-! ## §3. Events. -/

/-- The objects a run reads and writes. -/
inductive Block where
  | header
  | recv_buffer
  | uuid
  | data
  deriving Repr, DecidableEq

/-- The fields of `th_args`. -/
inductive Field where
  | socket_fd
  | recv_len
  | recv_buffer
  deriving Repr, DecidableEq

/-- One action of a run. -/
inductive Event where
  /-- `args->f` is read or written. -/
  | access (f : Field)
  /-- A block of `size` bytes is requested; a negative `size` is huge as a `size_t`, and
  `malloc` then returns `NULL`. -/
  | malloc (b : Block) (size : Int)
  /-- `len` bytes of `b` from `off` on are cleared. -/
  | bzero (b : Block) (off len : Int)
  /-- `len` bytes of `src` from `off` on are copied to the beginning of `dst`. -/
  | memcpy (dst src : Block) (off len : Int)
  /-- A debug line, with the content of each block printed under `%s`. -/
  | logDebug (text : String) (strings : List (List UInt8))
  | logError (text : String)
  | send (fd : Int) (bytes : List UInt8)
  | close (fd : Int)
  | freeArgs
  | free (b : Block)
  /-- The run ends the process: an access the run does not outlive. -/
  | fault
  deriving DecidableEq

/-- The descriptor a `send` or a `close` acts on. -/
def Event.target : Event → Option Int
  | .send fd _ => some fd
  | .close fd => some fd
  | _ => none

/-- The event closes a descriptor. -/
def Event.isClose : Event → Bool
  | .close _ => true
  | _ => false

/-- The bytes sent on `fd`, in order. -/
def replies (fd : Int) (t : List Event) : List (List UInt8) :=
  t.filterMap fun
    | .send fd' bytes => if fd' = fd then some bytes else none
    | _ => none

@[simp] theorem replies_nil (fd : Int) : replies fd [] = [] := rfl

@[simp] theorem replies_append (fd : Int) (t u : List Event) :
    replies fd (t ++ u) = replies fd t ++ replies fd u :=
  List.filterMap_append

/-- Events without a target reply nothing. -/
theorem replies_eq_nil {fd : Int} {t : List Event} (h : ∀ e ∈ t, e.target = none) :
    replies fd t = [] := by
  rw [replies, List.filterMap_eq_nil_iff]
  intro e he
  have hnone := h e he
  cases e <;> first | rfl | cases hnone

end SensorServer.Parser
