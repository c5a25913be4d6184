/-
  SensorServer.Parser.Fragments — one packet cut into several reads.

  TCP may hand a packet over in pieces.  Every read becomes an argument block of its own,
  and nothing of it is kept for the next one, so each piece is parsed as if it began a
  packet: `Acknowledged` and `Loses` say what a read is worth to the client.  The first piece
  of a cut packet is either too short for a header, and the run closes the descriptor it reads
  from the freed block, or it declares more than it holds, and the run goes on with a negative
  length.  `fragmented_session_iff` says when the client cannot tell the difference: only where
  neither of the two does any harm, and the pieces behind it happen to be worth the rest.
-/
import SensorServer.Parser.Remainder

namespace SensorServer.Parser

open SensorServer.Framework

/-! ## §1. What a client sees of a sequence of jobs. -/

/-- A client's socket during the jobs that parse its reads. -/
structure Session where
  replies : List (List UInt8)
  socket_open : Bool
  /-- The process has not died. -/
  alive : Bool
  deriving Repr, DecidableEq

namespace Session

/-- A connected client nothing was sent to yet. -/
def start : Session := ⟨[], true, true⟩

/-- The effect of one event on the client at `fd`. -/
def perform (fd : Int) (s : Session) (e : Event) : Session :=
  if s.alive then
    match e with
    | .send fd' bytes =>
        if fd' = fd ∧ s.socket_open then { s with replies := s.replies ++ [bytes] } else s
    | .close fd' => if fd' = fd then { s with socket_open := false } else s
    | .fault => { s with socket_open := false, alive := false }
    | _ => s
  else s

/-- The jobs for the client's reads, one after the other in arrival order.  The job of the
`j`-th read finds the residues `ρ j`. -/
def jobs (fuel : Nat) (fd : Int) : (Nat → Nat → Residue) → Session → List (List UInt8) →
    Option Session
  | _, s, [] => some s
  | ρ, s, read :: reads =>
      (parsePacket fuel (ρ 0) (ThArgs.received fd read)).bind fun t =>
        jobs fuel fd (fun j => ρ (j + 1)) (t.foldl (perform fd) s) reads

/-- What the client has received, and whether its socket is still open. -/
def outcome (s : Session) : List (List UInt8) × Bool := (s.replies, s.socket_open)

/-! ## §2. Sockets stay closed. -/

variable {fd : Int}

/-- Nothing is delivered to a closed socket, and it stays closed. -/
theorem perform_closed {s : Session} (e : Event) (h : s.socket_open = false) :
    (perform fd s e).outcome = s.outcome := by
  obtain ⟨r, o, a⟩ := s
  subst h
  unfold perform outcome
  cases a with
  | false => rfl
  | true =>
      cases e with
      | close fd' => by_cases hfd : fd' = fd <;> simp [hfd]
      | _ => simp

theorem foldl_closed {s : Session} (t : List Event) (h : s.socket_open = false) :
    (t.foldl (perform fd) s).outcome = s.outcome := by
  induction t generalizing s with
  | nil => rfl
  | cons e t ih =>
      have he : (perform fd s e).outcome = s.outcome := perform_closed e h
      exact (ih ((congrArg Prod.snd he).trans h)).trans he

/-- Enough fuel for two calls each finishes every job. -/
theorem jobs_closed {fuel : Nat} (hfuel : 2 ≤ fuel) (ρ : Nat → Nat → Residue) {s : Session}
    (reads : List (List UInt8)) (h : s.socket_open = false) :
    (jobs fuel fd ρ s reads).map outcome = some s.outcome := by
  induction reads generalizing s ρ with
  | nil => rfl
  | cons read reads ih =>
      have hread : ∀ t : List Event, (t.foldl (perform fd) s).outcome = s.outcome :=
        fun t => foldl_closed t h
      rw [jobs, parsePacket_eq hfuel, Option.bind_some,
        ih _ ((congrArg Prod.snd (hread _)).trans h), hread]

/-- A job that closes the socket, or dies, leaves it closed. -/
theorem foldl_closes {s : Session} {t : List Event} (ha : s.alive = true)
    (h : .close fd ∈ t ∨ .fault ∈ t) : (t.foldl (perform fd) s).socket_open = false := by
  induction t generalizing s with
  | nil => simp at h
  | cons e t ih =>
      by_cases hopen : (perform fd s e).socket_open = false
      · exact (congrArg Prod.snd (foldl_closed t hopen)).trans hopen
      -- an event that leaves the socket open is neither the close nor the fault
      · have halive : (perform fd s e).alive = true := by
          unfold perform at hopen ⊢
          cases e <;> simp_all <;> split <;> simp_all
        have htail : .close fd ∈ t ∨ .fault ∈ t := by
          rcases h with h | h
          · rcases List.mem_cons.mp h with he | ht
            · rw [← he] at hopen
              simp [perform, ha] at hopen
            · exact .inl ht
          · rcases List.mem_cons.mp h with he | ht
            · rw [← he] at hopen
              simp [perform, ha] at hopen
            · exact .inr ht
        exact ih halive htail

/-- Events that send nothing deliver nothing. -/
theorem foldl_silent {s : Session} {t : List Event} (h : Parser.replies fd t = []) :
    (t.foldl (perform fd) s).replies = s.replies := by
  induction t generalizing s with
  | nil => rfl
  | cons e t ih =>
      rw [← List.singleton_append, replies_append, List.append_eq_nil_iff] at h
      have he : (perform fd s e).replies = s.replies := by
        unfold perform
        cases e with
        | send fd' bytes =>
            have hfd : fd' ≠ fd := by
              rintro rfl
              simp [Parser.replies] at h
            simp [hfd]
        | close fd' => by_cases hfd : fd' = fd <;> cases s.alive <;> simp [hfd]
        | _ => cases s.alive <;> rfl
      rw [List.foldl_cons, ih h.2, he]

/-- What was delivered stays delivered. -/
theorem replies_prefix_foldl (s : Session) (t : List Event) :
    s.replies <+: (t.foldl (perform fd) s).replies := by
  induction t generalizing s with
  | nil => exact List.prefix_rfl
  | cons e t ih =>
      refine List.IsPrefix.trans ?_ (ih (perform fd s e))
      unfold perform
      cases e with
      | send fd' bytes =>
          by_cases hsend : fd' = fd ∧ s.socket_open <;> cases s.alive <;> simp [hsend]
      | close fd' => by_cases hfd : fd' = fd <;> cases s.alive <;> simp [hfd]
      | _ => cases s.alive <;> exact List.prefix_rfl

/-- Events among which the socket is not closed and the process does not die deliver their
replies. -/
theorem foldl_spares {s : Session} {t : List Event} (ha : s.alive = true)
    (ho : s.socket_open = true) (h : ¬ (.close fd ∈ t ∨ .fault ∈ t)) :
    t.foldl (perform fd) s = { s with replies := s.replies ++ Parser.replies fd t } := by
  induction t generalizing s with
  | nil => simp
  | cons e t ih =>
      -- one event adds its own reply and nothing else
      have he : perform fd s e
          = { s with replies := s.replies ++ Parser.replies fd [e] } := by
        have hclose : e ≠ .close fd := fun he => h (.inl (he ▸ List.mem_cons_self))
        have hfault : e ≠ .fault := fun he => h (.inr (he ▸ List.mem_cons_self))
        obtain ⟨r, o, a⟩ := s
        unfold perform Parser.replies
        rw [if_pos ha]
        cases e with
        | send fd' bytes =>
            have ho' : o = true := ho
            by_cases hfd : fd' = fd <;> simp [hfd, ho']
        | close fd' =>
            have hfd : fd' ≠ fd := fun hfd => hclose (congrArg Event.close hfd)
            simp [hfd]
        | fault => exact absurd rfl hfault
        | _ => simp
      have htail := ih (s := { s with replies := s.replies ++ Parser.replies fd [e] }) ha ho
        fun ht => h (ht.imp (List.mem_cons_of_mem e) (List.mem_cons_of_mem e))
      rw [List.foldl_cons, he, htail]
      show Session.mk _ _ _ = Session.mk _ _ _
      rw [List.append_assoc, ← replies_append, List.singleton_append]

end Session

/-! ## §3. What one read is worth. -/

/-- The read begins with the magic bytes. -/
def IsMarked (read : List UInt8) : Prop :=
  4 ≤ read.length ∧ Region.load read 0 = 83 ∧ Region.load read 1 = 83 ∧ Region.load read 2 = 80

/-- The read begins with the header of a packet of type `t`, and the run outlives the copies of
what it declares: the run sends the type's acknowledgement. -/
def Acknowledged (ρ : Residue) (read : List UInt8) (t : ClientType) : Prop :=
  IsMarked read ∧ Region.load read 3 = t.packetType.toByte
    ∧ CopiesSurvive ρ (dataLen (Region.load read)) t

/-- The bytes behind a packet of `size` bytes cost the client its socket.  They are fewer than a
header, and the self-call closes the descriptor it reads from the freed block; or fewer than
none, and the run does not outlive the negative length. -/
def RestLoses (fd : Int) (ρ : Nat → Residue) (read : List UInt8) (size : Nat) : Prop :=
  LeavesShort read size
    ∧ (read.length < size ∧ (ρ 0).wraparound = false ∨ (ρ 1).freed_socket_fd = fd)

/-- The run on the read closes the client's socket or ends the process.  The read is shorter than
a header and the freed block still holds the descriptor; or it is a `DIS_CONN`; or it begins
with a packet whose copies the run does not outlive, or whose remainder costs the socket. -/
def Loses (fd : Int) (ρ : Nat → Residue) (read : List UInt8) : Prop :=
  read.length < 4 ∧ (ρ 0).freed_socket_fd = fd
    ∨ IsMarked read ∧ Region.load read 3 = PacketType.DIS_CONN.toByte
    ∨ IsMarked read ∧ ∃ t : ClientType, Region.load read 3 = t.packetType.toByte
        ∧ (CopiesSurvive (ρ 0) (dataLen (Region.load read)) t →
            RestLoses fd ρ read (t.size (dataLen (Region.load read))))

/-- The run sends nothing and leaves the socket open. -/
def Ignored (fd : Int) (ρ : Nat → Residue) (read : List UInt8) : Prop :=
  (∀ t, ¬ Acknowledged (ρ 0) read t) ∧ ¬ Loses fd ρ read

theorem isMarked_iff (fd : Int) (read : List UInt8) :
    BeginsPacket (ThArgs.received fd read) ↔ IsMarked read := by
  unfold BeginsPacket IsMarked
  have hlen : 4 ≤ (ThArgs.received fd read).recv_len ↔ 4 ≤ read.length := by
    show 4 ≤ (read.length : Int) ↔ _
    omega
  rw [hlen]
  exact Iff.rfl

/-- The types have different type bytes. -/
theorem packetType_injective {t t' : ClientType}
    (h : t.packetType.toByte = t'.packetType.toByte) : t = t' := by
  revert h
  cases t <;> cases t' <;> decide

/-- A read is acknowledged at most once. -/
theorem Acknowledged.unique {ρ : Residue} {read : List UInt8} {t t' : ClientType}
    (h : Acknowledged ρ read t) (h' : Acknowledged ρ read t') : t = t' :=
  packetType_injective (h.2.1.symm.trans h'.2.1)

/-- The type bytes the switch knows. -/
theorem type_byte_cases (b : UInt8) :
    (∃ t : ClientType, b = t.packetType.toByte) ∨ b = PacketType.DIS_CONN.toByte
      ∨ Case.select b = .default ∧ b ≠ PacketType.DIS_CONN.toByte
        ∧ ∀ t : ClientType, b ≠ t.packetType.toByte := by
  have hselect := Case.select_type b
  cases hcase : Case.select b with
  | PING => exact .inl ⟨.PING, by rwa [hcase] at hselect⟩
  | CONN => exact .inl ⟨.CONN, by rwa [hcase] at hselect⟩
  | SEND => exact .inl ⟨.SEND, by rwa [hcase] at hselect⟩
  | PUBLISH => exact .inl ⟨.PUBLISH, by rwa [hcase] at hselect⟩
  | DIS_CONN => exact .inr (.inl (by rwa [hcase] at hselect))
  | default =>
      refine .inr (.inr ⟨rfl, ?_, ?_⟩)
      · rintro rfl
        cases hcase
      · rintro t rfl
        cases t <;> cases hcase

/-- What a run is worth to the client at `fd`: what `u` sends is delivered, `v` sends nothing, and
the socket is lost in `v` or not at all. -/
structure Worth (fd : Int) (ρ : Nat → Residue) (read : List UInt8) (u v : List Event) : Prop where
  spares : ¬ (.close fd ∈ u ∨ .fault ∈ u)
  silent : replies fd v = []
  answered : ∀ t, Acknowledged (ρ 0) read t → replies fd u = [t.ack]
  unanswered : (∀ t, ¬ Acknowledged (ρ 0) read t) → replies fd u = []
  loses : (.close fd ∈ v ∨ .fault ∈ v) ↔ Loses fd ρ read

section Read

variable {fuel : Nat} {ρ : Nat → Residue} {read : List UInt8}

/-- A read without the magic bytes. -/
theorem read_unmarked (hfuel : 2 ≤ fuel) (fd : Int) (h : ¬ IsMarked read) :
    ∃ u v, parsePacket fuel ρ (ThArgs.received fd read) = some (u ++ v)
      ∧ Worth fd ρ read u v := by
  have hfront : ¬ (BeginsPacket (ThArgs.received fd read) ∧ (ρ 0).header_b3 = 0) :=
    fun hfront => h ((isMarked_iff fd read).mp hfront.1)
  refine ⟨[], (parsePacketCall (ρ 0) (ThArgs.received fd read)).trace,
    parsePacket_no_packet hfuel hfront, ?_⟩
  have hlen : (ThArgs.received fd read).recv_len < 4 ↔ read.length < 4 := by
    show (read.length : Int) < 4 ↔ _
    omega
  constructor
  · simp
  · rcases no_packet_cases hfront with ⟨-, hcall⟩ | ⟨-, hcall⟩ <;> rw [hcall] <;> rfl
  · exact fun t ht => absurd ht.1 h
  · exact fun _ => rfl
  · rw [or_iff_left (no_packet_lives hfront), close_no_packet_iff hfront, hlen]
    unfold Loses
    simp only [h, false_and, or_false]

/-- A packet whose copies the run outlives: the acknowledgement, then the remainder. -/
theorem read_survives (hfuel : 2 ≤ fuel) (hb3 : (ρ 0).header_b3 = 0) (fd : Int)
    (hlen : read.length ≤ RECV_BUFFER_LEN) (h : IsMarked read) {t : ClientType}
    (ht : Region.load read 3 = t.packetType.toByte)
    (hsurv : CopiesSurvive (ρ 0) (dataLen (Region.load read)) t) :
    ∃ u v, parsePacket fuel ρ (ThArgs.received fd read) = some (u ++ v)
      ∧ Worth fd ρ read u v := by
  have hp := (isMarked_iff fd read).mpr h
  obtain ⟨u, hsw, hreply, hkeep⟩ :=
    switchPacketType_survives (ThArgs.received fd read) hsurv
  have hsw' : switchPacketType (ρ 0) (ThArgs.received fd read)
      ((ThArgs.received fd read).recv_buffer 3) (dataLen (ThArgs.received fd read).recv_buffer)
      = ⟨u, some (t.size (dataLen (Region.load read)) : Int)⟩ := by
    show switchPacketType (ρ 0) _ (Region.load read 3) _ = _
    rw [ht]
    exact hsw
  refine ⟨_, _, parsePacket_switched hfuel hp hb3 hsw', ?_⟩
  have hrecv : (ThArgs.received fd read).recv_len = read.length := rfl
  have hack : Acknowledged (ρ 0) read t := ⟨h, ht, hsurv⟩
  have hreplies : replies fd (headerEvents ++ u) = [t.ack] := by
    rw [replies_append]
    exact hreply
  constructor
  · rintro (hmem | hmem)
    all_goals
      rcases List.mem_append.mp hmem with hmem | hmem
      · simp [headerEvents] at hmem
      · exact hkeep _ hmem
  · exact replies_of_sent_nil (sent_afterSwitch ρ _ _) fd
  · intro t' ht'
    rw [ht'.unique hack]
    exact hreplies
  · exact fun hno => absurd hack (hno t)
  · -- the self-call or the shift loses the socket, if anything does
    have hlost : Loses fd ρ read
        ↔ RestLoses fd ρ read (t.size (dataLen (Region.load read))) := by
      constructor
      · rintro (⟨hshort, -⟩ | ⟨-, hdis⟩ | ⟨-, t', ht', hrest⟩)
        · exact absurd h.1 (by omega)
        · rw [ht] at hdis
          cases t <;> cases hdis
        · obtain rfl := packetType_injective (ht.symm.trans ht')
          exact hrest hsurv
      · exact fun hrest => .inr (.inr ⟨h, t, ht, fun _ => hrest⟩)
    rw [hlost, close_afterSwitch_iff hp.1 (by omega), shortRemainder_behind (by omega),
      fault_afterSwitch_iff (by omega) (by omega), hrecv]
    unfold RestLoses LeavesShort
    cases (ρ 0).wraparound <;> simp <;> omega

/-- A packet whose copies end the process. -/
theorem read_dies (hfuel : 2 ≤ fuel) (hb3 : (ρ 0).header_b3 = 0) (fd : Int) (h : IsMarked read)
    {t : ClientType} (ht : Region.load read 3 = t.packetType.toByte)
    (hdies : ¬ CopiesSurvive (ρ 0) (dataLen (Region.load read)) t) :
    ∃ u v, parsePacket fuel ρ (ThArgs.received fd read) = some (u ++ v)
      ∧ Worth fd ρ read u v := by
  have hp := (isMarked_iff fd read).mpr h
  obtain ⟨u, hsw, hquiet⟩ := switchPacketType_dies (ThArgs.received fd read) hdies
  have hsw' : switchPacketType (ρ 0) (ThArgs.received fd read)
      ((ThArgs.received fd read).recv_buffer 3) (dataLen (ThArgs.received fd read).recv_buffer)
      = ⟨u ++ [.fault], none⟩ := by
    show switchPacketType (ρ 0) _ (Region.load read 3) _ = _
    rw [ht]
    exact hsw
  have hnone : ∀ t', ¬ Acknowledged (ρ 0) read t' := by
    intro t' ht'
    -- the type byte names one type, and the run dies of that one
    obtain rfl := packetType_injective (ht.symm.trans ht'.2.1)
    exact hdies ht'.2.2
  refine ⟨[], headerEvents ++ (u ++ [.fault]), parsePacket_stopped hfuel hp hb3 hsw', ?_⟩
  constructor
  · simp
  · rw [replies_append, replies_append, replies_eq_nil hquiet]
    rfl
  · exact fun t' ht' => absurd ht' (hnone t')
  · exact fun _ => rfl
  · refine iff_of_true (.inr ?_) (.inr (.inr ⟨h, t, ht, fun hsurv => absurd hsurv hdies⟩))
    simp

/-- A `DIS_CONN`: the socket is closed before the run goes on. -/
theorem read_dis_conn (hfuel : 2 ≤ fuel) (hb3 : (ρ 0).header_b3 = 0) (fd : Int)
    (h : IsMarked read) (hdis : Region.load read 3 = PacketType.DIS_CONN.toByte) :
    ∃ u v, parsePacket fuel ρ (ThArgs.received fd read) = some (u ++ v)
      ∧ Worth fd ρ read u v := by
  have hp := (isMarked_iff fd read).mpr h
  have hcase : Case.select ((ThArgs.received fd read).recv_buffer 3) = .DIS_CONN := by
    show Case.select (Region.load read 3) = _
    rw [hdis]
    rfl
  have hsw := switchPacketType_dis_conn (ρ 0) (ThArgs.received fd read) hcase
    (dataLen (ThArgs.received fd read).recv_buffer)
  have hnone : ∀ t, ¬ Acknowledged (ρ 0) read t := by
    rintro t ⟨-, ht, -⟩
    rw [hdis] at ht
    cases t <;> cases ht
  refine ⟨[], headerEvents ++ disConnEvents fd
    ++ afterSwitch ρ (ThArgs.received fd read) (ρ 0).next_parse_offset,
    parsePacket_switched hfuel hp hb3 hsw, ?_⟩
  constructor
  · simp
  · refine replies_of_sent_nil ?_ fd
    rw [sent_append, sent_afterSwitch]
    rfl
  · exact fun t ht => absurd ht (hnone t)
  · exact fun _ => rfl
  · -- the close is there before the run goes on, whatever follows
    exact iff_of_true (.inl (by simp [disConnEvents])) (.inr (.inl ⟨h, hdis⟩))

/-- An unknown type is dropped. -/
theorem read_unknown (hfuel : 2 ≤ fuel) (hb3 : (ρ 0).header_b3 = 0) (fd : Int)
    (h : IsMarked read) (hcase : Case.select (Region.load read 3) = .default)
    (hdis : Region.load read 3 ≠ PacketType.DIS_CONN.toByte)
    (hnone : ∀ t : ClientType, Region.load read 3 ≠ t.packetType.toByte) :
    ∃ u v, parsePacket fuel ρ (ThArgs.received fd read) = some (u ++ v)
      ∧ Worth fd ρ read u v := by
  have hp := (isMarked_iff fd read).mpr h
  have hsw := switchPacketType_unknown (ρ 0) (ThArgs.received fd read) hcase
    (dataLen (ThArgs.received fd read).recv_buffer)
  refine ⟨[], headerEvents ++ unknownEvents, parsePacket_stopped hfuel hp hb3 hsw, ?_⟩
  constructor
  · simp
  · rfl
  · exact fun t ht => absurd ht.2.1 (hnone t)
  · exact fun _ => rfl
  · refine iff_of_false (by simp [headerEvents, unknownEvents]) ?_
    rintro (⟨hshort, -⟩ | ⟨-, hclose⟩ | ⟨-, t, ht, -⟩)
    · exact absurd h.1 (by omega)
    · exact hdis hclose
    · exact hnone t ht

/-- **What a read is worth.**  A read is acknowledged as `Acknowledged` says, before anything
costs the client its socket, and that happens as `Loses` says. -/
theorem read_worth (hfuel : 2 ≤ fuel) (hb3 : (ρ 0).header_b3 = 0) (fd : Int)
    (hlen : read.length ≤ RECV_BUFFER_LEN) :
    ∃ u v, parsePacket fuel ρ (ThArgs.received fd read) = some (u ++ v)
      ∧ Worth fd ρ read u v := by
  by_cases h : IsMarked read
  · rcases type_byte_cases (Region.load read 3) with ⟨t, ht⟩ | hdis | ⟨hcase, hnot, hnone⟩
    · by_cases hsurv : CopiesSurvive (ρ 0) (dataLen (Region.load read)) t
      · exact read_survives hfuel hb3 fd hlen h ht hsurv
      · exact read_dies hfuel hb3 fd h ht hsurv
    · exact read_dis_conn hfuel hb3 fd h hdis
    · exact read_unknown hfuel hb3 fd h hcase hnot hnone
  · exact read_unmarked hfuel fd h

end Read

/-! ## §4. What a sequence of reads is worth. -/

/-- No read is acknowledged, and none costs the client its socket. -/
def Passed (fd : Int) (ρ : Nat → Nat → Residue) (reads : List (List UInt8)) : Prop :=
  ∀ j read, reads[j]? = some read → Ignored fd (ρ j) read

/-- One read is acknowledged as a packet of type `t`, the others are not, and none costs the
client its socket. -/
def AnsweredOnce (fd : Int) (ρ : Nat → Nat → Residue) (t : ClientType)
    (reads : List (List UInt8)) : Prop :=
  ∃ k read, reads[k]? = some read ∧ Acknowledged (ρ k 0) read t ∧ ¬ Loses fd (ρ k) read
    ∧ ∀ j read, reads[j]? = some read → j ≠ k → Ignored fd (ρ j) read

/-- Some read costs the client its socket, and no read up to it is acknowledged. -/
def LostUnanswered (fd : Int) (ρ : Nat → Nat → Residue) (reads : List (List UInt8)) : Prop :=
  ∃ k read, reads[k]? = some read ∧ Loses fd (ρ k) read
    ∧ ∀ j read, reads[j]? = some read → j ≤ k → ∀ t, ¬ Acknowledged (ρ j 0) read t

section Reads

variable {fd : Int} {ρ : Nat → Nat → Residue} {t : ClientType} {read : List UInt8}
  {reads : List (List UInt8)}

theorem passed_cons :
    Passed fd ρ (read :: reads)
      ↔ Ignored fd (ρ 0) read ∧ Passed fd (fun j => ρ (j + 1)) reads := by
  constructor
  · exact fun h => ⟨h 0 read rfl, fun j r hr => h (j + 1) r hr⟩
  · rintro ⟨hread, hreads⟩ (_ | j) r hr
    · obtain rfl := Option.some.inj hr
      exact hread
    · exact hreads j r hr

theorem answeredOnce_cons :
    AnsweredOnce fd ρ t (read :: reads) ↔
      (Ignored fd (ρ 0) read ∧ AnsweredOnce fd (fun j => ρ (j + 1)) t reads)
        ∨ (Acknowledged (ρ 0 0) read t ∧ ¬ Loses fd (ρ 0) read
            ∧ Passed fd (fun j => ρ (j + 1)) reads) := by
  constructor
  · rintro ⟨_ | k, r, hr, hack, hkeeps, hothers⟩
    · obtain rfl := Option.some.inj hr
      exact .inr ⟨hack, hkeeps, fun j r' hr' => hothers (j + 1) r' hr' (Nat.succ_ne_zero j)⟩
    · refine .inl ⟨hothers 0 read rfl (Nat.succ_ne_zero k).symm, k, r, hr, hack, hkeeps, ?_⟩
      exact fun j r' hr' hne => hothers (j + 1) r' hr' (by omega)
  · rintro (⟨hread, k, r, hr, hack, hkeeps, hothers⟩ | ⟨hack, hkeeps, hothers⟩)
    · refine ⟨k + 1, r, hr, hack, hkeeps, ?_⟩
      rintro (_ | j) r' hr' hne
      · obtain rfl := Option.some.inj hr'
        exact hread
      · exact hothers j r' hr' (by omega)
    · refine ⟨0, read, rfl, hack, hkeeps, ?_⟩
      rintro (_ | j) r' hr' hne
      · exact absurd rfl hne
      · exact hothers j r' hr'

theorem lostUnanswered_cons :
    LostUnanswered fd ρ (read :: reads) ↔
      (∀ t, ¬ Acknowledged (ρ 0 0) read t)
        ∧ (Loses fd (ρ 0) read ∨ LostUnanswered fd (fun j => ρ (j + 1)) reads) := by
  constructor
  · rintro ⟨_ | k, r, hr, hlost, hnone⟩
    · obtain rfl := Option.some.inj hr
      exact ⟨hnone 0 read rfl (Nat.le_refl 0), .inl hlost⟩
    · refine ⟨hnone 0 read rfl (Nat.zero_le _), .inr ⟨k, r, hr, hlost, ?_⟩⟩
      exact fun j r' hr' hle => hnone (j + 1) r' hr' (by omega)
  · rintro ⟨hread, hlost | ⟨k, r, hr, hlost, hnone⟩⟩
    · refine ⟨0, read, rfl, hlost, ?_⟩
      rintro (_ | j) r' hr' hle
      · obtain rfl := Option.some.inj hr'
        exact hread
      · exact absurd hle (Nat.not_succ_le_zero j)
    · refine ⟨k + 1, r, hr, hlost, ?_⟩
      rintro (_ | j) r' hr' hle
      · obtain rfl := Option.some.inj hr'
        exact hread
      · exact hnone j r' hr' (by omega)

end Reads

namespace Session

section Jobs

variable {fuel : Nat} {fd : Int} {ρ : Nat → Nat → Residue} {s : Session} {read : List UInt8}
  {reads : List (List UInt8)}

/-- A read that keeps the socket adds what it sends. -/
theorem jobs_keeps (hfuel : 2 ≤ fuel) (reads : List (List UInt8)) (hb3 : (ρ 0 0).header_b3 = 0)
    (hlen : read.length ≤ RECV_BUFFER_LEN) (ha : s.alive = true) (ho : s.socket_open = true)
    (hkeeps : ¬ Loses fd (ρ 0) read) :
    ∃ sent, jobs fuel fd ρ s (read :: reads)
        = jobs fuel fd (fun j => ρ (j + 1)) { s with replies := s.replies ++ sent } reads
      ∧ (∀ t, Acknowledged (ρ 0 0) read t → sent = [t.ack])
      ∧ ((∀ t, ¬ Acknowledged (ρ 0 0) read t) → sent = []) := by
  obtain ⟨u, v, hrun, hworth⟩ := read_worth hfuel hb3 fd hlen
  have hspares : ¬ (.close fd ∈ u ++ v ∨ .fault ∈ u ++ v) := by
    have hlost := mt hworth.loses.mp hkeeps
    have hkept := hworth.spares
    simp only [List.mem_append, not_or] at hlost hkept ⊢
    exact ⟨⟨hkept.1, hlost.1⟩, ⟨hkept.2, hlost.2⟩⟩
  refine ⟨Parser.replies fd u, ?_, hworth.answered, hworth.unanswered⟩
  rw [jobs, hrun, Option.bind_some, foldl_spares ha ho hspares, replies_append, hworth.silent,
    List.append_nil]

/-- A read that loses the socket is the last that matters. -/
theorem jobs_loses (hfuel : 2 ≤ fuel) (reads : List (List UInt8)) (hb3 : (ρ 0 0).header_b3 = 0)
    (hlen : read.length ≤ RECV_BUFFER_LEN) (ha : s.alive = true) (ho : s.socket_open = true)
    (hlost : Loses fd (ρ 0) read) :
    ∃ sent, (jobs fuel fd ρ s (read :: reads)).map outcome = some (s.replies ++ sent, false)
      ∧ (∀ t, Acknowledged (ρ 0 0) read t → sent = [t.ack])
      ∧ ((∀ t, ¬ Acknowledged (ρ 0 0) read t) → sent = []) := by
  obtain ⟨u, v, hrun, hworth⟩ := read_worth hfuel hb3 fd hlen
  refine ⟨Parser.replies fd u, ?_, hworth.answered, hworth.unanswered⟩
  have hclosed : ((u ++ v).foldl (perform fd) s).socket_open = false :=
    foldl_closes ha ((hworth.loses.mpr hlost).imp (List.mem_append_right u)
      (List.mem_append_right u))
  have hreplies : ((u ++ v).foldl (perform fd) s).replies = s.replies ++ Parser.replies fd u := by
    rw [List.foldl_append, foldl_silent hworth.silent, foldl_spares ha ho hworth.spares]
  rw [jobs, hrun, Option.bind_some, jobs_closed hfuel _ reads hclosed, outcome, hclosed, hreplies]

/-- The outcome of a session begins with what was delivered. -/
theorem replies_prefix_jobs (hfuel : 2 ≤ fuel) (ρ : Nat → Nat → Residue) (s : Session)
    (reads : List (List UInt8)) {out : List (List UInt8) × Bool}
    (h : (jobs fuel fd ρ s reads).map outcome = some out) : s.replies <+: out.1 := by
  induction reads generalizing s ρ with
  | nil =>
      obtain rfl := Option.some.inj h
      exact List.prefix_rfl
  | cons read reads ih =>
      rw [jobs, parsePacket_eq hfuel, Option.bind_some] at h
      exact (replies_prefix_foldl s _).trans (ih _ _ h)

/-- **Reads that are ignored** leave the session as it was, and only they do. -/
theorem jobs_passed_iff (hfuel : 2 ≤ fuel) (hb3 : ∀ j, (ρ j 0).header_b3 = 0)
    (hlen : ∀ read ∈ reads, read.length ≤ RECV_BUFFER_LEN) (ha : s.alive = true)
    (ho : s.socket_open = true) :
    (jobs fuel fd ρ s reads).map outcome = some (s.replies, true) ↔ Passed fd ρ reads := by
  induction reads generalizing s ρ with
  | nil =>
      refine iff_of_true ?_ (fun j read hread => nomatch hread)
      show some (s.replies, s.socket_open) = _
      rw [ho]
  | cons read reads ih =>
      obtain ⟨hread, hreads⟩ := List.forall_mem_cons.mp hlen
      rw [passed_cons]
      by_cases hlost : Loses fd (ρ 0) read
      · obtain ⟨sent, hout, -, -⟩ :=
          jobs_loses hfuel reads (hb3 0) hread ha ho hlost
        rw [hout]
        exact iff_of_false (by simp) fun h => h.1.2 hlost
      obtain ⟨sent, hjobs, hacked, hnone⟩ :=
        jobs_keeps hfuel reads (hb3 0) hread ha ho hlost
      rw [hjobs]
      by_cases hack : ∃ t, Acknowledged (ρ 0 0) read t
      · obtain ⟨t, ht⟩ := hack
        refine iff_of_false (fun h => ?_) fun h => h.1.1 t ht
        -- what was sent for the read stays sent
        have hprefix := replies_prefix_jobs hfuel _ _ reads h
        have hle := hprefix.length_le
        rw [hacked t ht, List.length_append] at hle
        exact absurd hle (Nat.not_succ_le_self _)
      · have hack' := not_exists.mp hack
        rw [hnone hack', List.append_nil, and_iff_right ⟨hack', hlost⟩]
        exact ih (fun j => hb3 (j + 1)) hreads ha ho

/-- **One acknowledged read** among ignored ones adds its reply, and no other sequence adds just
that. -/
theorem jobs_answeredOnce_iff (hfuel : 2 ≤ fuel) (hb3 : ∀ j, (ρ j 0).header_b3 = 0)
    (hlen : ∀ read ∈ reads, read.length ≤ RECV_BUFFER_LEN) (ha : s.alive = true)
    (ho : s.socket_open = true) (t : ClientType) :
    (jobs fuel fd ρ s reads).map outcome = some (s.replies ++ [t.ack], true)
      ↔ AnsweredOnce fd ρ t reads := by
  induction reads generalizing s ρ with
  | nil =>
      refine iff_of_false (fun h => ?_) ?_
      · have hsame : s.replies = s.replies ++ [t.ack] := congrArg Prod.fst (Option.some.inj h)
        simp at hsame
      · rintro ⟨k, read, hread, -⟩
        cases hread
  | cons read reads ih =>
      obtain ⟨hread, hreads⟩ := List.forall_mem_cons.mp hlen
      rw [answeredOnce_cons]
      by_cases hlost : Loses fd (ρ 0) read
      · -- the session ends here, closed or dead
        obtain ⟨sent, hout, -, -⟩ :=
          jobs_loses hfuel reads (hb3 0) hread ha ho hlost
        rw [hout]
        refine iff_of_false (by simp) ?_
        rintro (⟨hignored, -⟩ | ⟨-, hkeeps, -⟩)
        · exact hignored.2 hlost
        · exact hkeeps hlost
      obtain ⟨sent, hjobs, hacked, hnone⟩ :=
        jobs_keeps hfuel reads (hb3 0) hread ha ho hlost
      rw [hjobs]
      by_cases hack : ∃ t', Acknowledged (ρ 0 0) read t'
      · obtain ⟨t', ht'⟩ := hack
        have hignored : ¬ Ignored fd (ρ 0) read := fun h => h.1 t' ht'
        rw [hacked t' ht']
        by_cases htype : t = t'
        · subst htype
          simp only [hignored, false_and, false_or, ht', hlost, not_false_eq_true, true_and]
          exact jobs_passed_iff (s := { s with replies := s.replies ++ [t.ack] }) hfuel
            (fun j => hb3 (j + 1)) hreads ha ho
        · -- the reply to the read is the only one, and it is another type's
          refine iff_of_false (fun h => htype ?_) ?_
          · have hprefix := replies_prefix_jobs hfuel _ _ reads h
            have hsame := hprefix.eq_of_length (by simp)
            exact ClientType.ack_injective (by simpa using hsame.symm)
          · rintro (⟨hskip, -⟩ | ⟨hother, -⟩)
            · exact hignored hskip
            · exact htype (hother.unique ht')
      · have hack' := not_exists.mp hack
        have hignored : Ignored fd (ρ 0) read := ⟨hack', hlost⟩
        rw [hnone hack', List.append_nil, and_iff_right hignored, or_iff_left fun h => hack' t h.1]
        exact ih (fun j => hb3 (j + 1)) hreads ha ho

/-- **A session that is lost before anything is acknowledged** ends without a new reply, and with
the socket closed or the process dead; no other does. -/
theorem jobs_lostUnanswered_iff (hfuel : 2 ≤ fuel) (hb3 : ∀ j, (ρ j 0).header_b3 = 0)
    (hlen : ∀ read ∈ reads, read.length ≤ RECV_BUFFER_LEN) (ha : s.alive = true)
    (ho : s.socket_open = true) :
    (jobs fuel fd ρ s reads).map outcome = some (s.replies, false)
      ↔ LostUnanswered fd ρ reads := by
  induction reads generalizing s ρ with
  | nil =>
      refine iff_of_false (fun h => ?_) ?_
      · have hopen : s.socket_open = false := congrArg Prod.snd (Option.some.inj h)
        rw [ho] at hopen
        cases hopen
      · rintro ⟨k, read, hread, -⟩
        cases hread
  | cons read reads ih =>
      obtain ⟨hread, hreads⟩ := List.forall_mem_cons.mp hlen
      rw [lostUnanswered_cons]
      by_cases hack : ∃ t, Acknowledged (ρ 0 0) read t
      · -- the acknowledgement is sent, and no later read takes it back
        obtain ⟨t, ht⟩ := hack
        refine iff_of_false (fun h => ?_) fun h => h.1 t ht
        by_cases hlost : Loses fd (ρ 0) read
        · obtain ⟨sent, hout, hacked, -⟩ :=
            jobs_loses hfuel reads (hb3 0) hread ha ho hlost
          rw [hout, hacked t ht] at h
          simp at h
        · obtain ⟨sent, hjobs, hacked, -⟩ :=
            jobs_keeps hfuel reads (hb3 0) hread ha ho hlost
          rw [hjobs] at h
          have hle := (replies_prefix_jobs hfuel _ _ reads h).length_le
          rw [hacked t ht, List.length_append] at hle
          exact absurd hle (Nat.not_succ_le_self _)
      have hack' := not_exists.mp hack
      rw [and_iff_right hack']
      by_cases hlost : Loses fd (ρ 0) read
      · -- lost at this read, without a reply
        obtain ⟨sent, hout, -, hnone⟩ :=
          jobs_loses hfuel reads (hb3 0) hread ha ho hlost
        rw [hout, hnone hack', List.append_nil]
        exact iff_of_true rfl (.inl hlost)
      · obtain ⟨sent, hjobs, -, hnone⟩ :=
          jobs_keeps hfuel reads (hb3 0) hread ha ho hlost
        rw [hjobs, hnone hack', List.append_nil, or_iff_right hlost]
        exact ih (fun j => hb3 (j + 1)) hreads ha ho

end Jobs

end Session

/-! ## §5. A packet in one read. -/

section Whole

variable {fuel : Nat} {ρ : Nat → Nat → Residue}

/-- A complete packet is marked, has its type byte, and declares what it holds. -/
theorem encode_header (p : ClientPacket) :
    IsMarked p.encode ∧ Region.load p.encode 3 = p.type.packetType.toByte
      ∧ p.type.size (dataLen (Region.load p.encode)) = p.encode.length := by
  have hheader := p.load_encode_header []
  have hdata := p.dataLen_encode []
  rw [List.append_nil] at hheader hdata
  obtain ⟨h0, h1, h2, h3⟩ := hheader
  refine ⟨⟨p.four_le_length_encode, h0, h1, h2⟩, h3, ?_⟩
  rw [p.length_encode]
  by_cases ht : p.type = .PING
  · rw [ht]
    rfl
  · rw [hdata ht, if_neg ht]
    obtain ⟨t, payload, hadm⟩ := p
    cases t with
    | PING => exact absurd rfl ht
    | CONN | SEND | PUBLISH => rfl

theorem copiesSurvive_encode {ρ : Residue} {p : ClientPacket}
    (hfits : p.encode.length ≤ RECV_BUFFER_LEN) :
    CopiesSurvive ρ (dataLen (Region.load p.encode)) p.type ↔ Answered ρ p := by
  rw [← copiesSurvive_iff hfits]
  by_cases ht : p.type = .PING
  · rw [ht]
    exact Iff.rfl
  · have hdata := p.dataLen_encode [] ht
    rw [List.append_nil] at hdata
    rw [hdata]

/-- The session of a packet in one read: it is answered and keeps its socket, or it dies. -/
theorem whole_session (hfuel : 2 ≤ fuel) (fd : Int) (p : ClientPacket)
    (hfits : p.encode.length ≤ RECV_BUFFER_LEN) (hb3 : ∀ j, (ρ j 0).header_b3 = 0) :
    (Session.jobs fuel fd ρ .start [p.encode]).map Session.outcome
      = some (if Answered (ρ 0 0) p then ([p.ack], true) else ([], false)) := by
  obtain ⟨hmarked, htype, hsize⟩ := encode_header p
  have hlen : ∀ read ∈ [p.encode], read.length ≤ RECV_BUFFER_LEN := by simpa using hfits
  have hsurv := copiesSurvive_encode (ρ := ρ 0 0) hfits
  by_cases hans : Answered (ρ 0 0) p
  · have hack : Acknowledged (ρ 0 0) p.encode p.type := ⟨hmarked, htype, hsurv.mpr hans⟩
    rw [if_pos hans, ← p.ack_type]
    refine (Session.jobs_answeredOnce_iff (s := .start) hfuel hb3 hlen rfl rfl p.type).mpr ?_
    refine ⟨0, p.encode, rfl, hack, ?_, ?_⟩
    · rintro (⟨hshort, -⟩ | ⟨-, hdis⟩ | ⟨-, t, ht, hrest⟩)
      · exact absurd hmarked.1 (by omega)
      · rw [htype] at hdis
        cases hkind : p.type <;> rw [hkind] at hdis <;> cases hdis
      · -- nothing is left behind the packet
        obtain rfl := packetType_injective (htype.symm.trans ht)
        exact (hrest hack.2.2).1.1 hsize.symm
    · rintro (_ | j) read hread hne
      · exact absurd rfl hne
      · cases hread
  · -- only a `PUBLISH` can stay without an answer: its copies end the process
    rw [if_neg hans]
    refine (Session.jobs_lostUnanswered_iff (s := .start) hfuel hb3 hlen rfl rfl).mpr ?_
    refine ⟨0, p.encode, rfl, .inr (.inr ⟨hmarked, p.type, htype, ?_⟩), ?_⟩
    · exact fun h => absurd (hsurv.mp h) hans
    · rintro (_ | j) read hread hle t ht
      · obtain rfl := Option.some.inj hread
        obtain rfl := packetType_injective (htype.symm.trans ht.2.1)
        exact hans (hsurv.mp ht.2.2)
      · cases hread

end Whole

/-! ## §6. The first piece of a cut packet. -/

section Piece

variable {ρ : Nat → Residue} {p : ClientPacket} {piece rest : List UInt8}

/-- A piece shorter than a header is not acknowledged, and costs the socket when the freed block
still holds the descriptor. -/
theorem short_piece (ρ : Nat → Residue) (fd : Int) (h : piece.length < 4) :
    (∀ t, ¬ Acknowledged (ρ 0) piece t)
      ∧ (Loses fd ρ piece ↔ (ρ 0).freed_socket_fd = fd) := by
  have hunmarked : ¬ IsMarked piece := fun hmarked => absurd hmarked.1 (by omega)
  refine ⟨fun t ht => hunmarked ht.1, ?_⟩
  unfold Loses
  simp [h, hunmarked]

/-- A longer one declares more than it holds, but no more than the packet. -/
theorem long_piece (hfits : p.encode.length ≤ RECV_BUFFER_LEN) (hcut : p.encode = piece ++ rest)
    (hrest : rest ≠ []) (h4 : 4 ≤ piece.length) :
    IsMarked piece ∧ Region.load piece 3 = p.type.packetType.toByte
      ∧ piece.length < p.type.size (dataLen (Region.load piece))
      ∧ (CopiesSurvive (ρ 0) (dataLen (Region.load piece)) p.type ↔
          (p.type = .PUBLISH → PublishSurvives (ρ 0) (dataLen (Region.load piece)))) := by
  obtain ⟨⟨-, h0, h1, h2⟩, h3, -⟩ := encode_header p
  have hpos : 0 < rest.length := List.length_pos_iff.mpr hrest
  have hlength : piece.length + rest.length = p.encode.length := by
    rw [hcut, List.length_append]
  -- the piece agrees with the packet as far as it goes
  have hbyte : ∀ i, i < piece.length → Region.load piece i = Region.load p.encode i := by
    intro i hi
    rw [hcut, Region.load_append_left hi]
  have htype : p.type ≠ .PING := by
    intro ht
    rw [p.length_encode, if_pos ht] at hlength
    omega
  rw [p.length_encode, if_neg htype] at hfits hlength
  have hdata : p.payload.length = dataLen (Region.load p.encode) := by
    have hdeclared := p.dataLen_encode [] htype
    rwa [List.append_nil, eq_comm] at hdeclared
  have hsize : p.type.size (dataLen (Region.load piece)) = 6 + dataLen (Region.load piece) := by
    cases hkind : p.type with
    | PING => exact absurd hkind htype
    | CONN | SEND | PUBLISH => rfl
  have hdeclares : piece.length < 6 + dataLen (Region.load piece)
      ∧ dataLen (Region.load piece) ≤ p.payload.length := by
    rw [hdata]
    unfold dataLen Region.be16
    by_cases h6 : 6 ≤ piece.length
    · rw [hbyte 4 (by omega), hbyte 5 (by omega)]
      refine ⟨?_, Nat.le_refl _⟩
      unfold dataLen Region.be16 at hdata
      omega
    · have hlow : Region.load piece 5 = 0 := List.getD_eq_default _ _ (by omega)
      rw [hlow]
      refine ⟨by omega, ?_⟩
      by_cases h5 : 5 ≤ piece.length
      · rw [hbyte 4 (by omega)]
        simp
      · have hhigh : Region.load piece 4 = 0 := List.getD_eq_default _ _ (by omega)
        rw [hhigh]
        simp
  refine ⟨⟨h4, ?_, ?_, ?_⟩, ?_, by omega, ?_⟩
  · rw [hbyte 0 (by omega), h0]
  · rw [hbyte 1 (by omega), h1]
  · rw [hbyte 2 (by omega), h2]
  · rw [hbyte 3 (by omega), h3]
  · cases hkind : p.type with
    | PING => exact absurd hkind htype
    | CONN => exact iff_of_true trivial nofun
    | SEND => exact iff_of_true (.inl (by omega)) nofun
    | PUBLISH => exact (imp_iff_right rfl).symm

end Piece

/-! ## §7. Cut packets. -/

/-- The client of an answered packet does not notice that it was cut.  Either the first piece is
shorter than a header, the freed block no longer holds the descriptor, and a later piece happens
to be acknowledged in the packet's stead; or the first piece is acknowledged, the negative
length that remains does no harm, and the later pieces are ignored. -/
def CutUnnoticed (fd : Int) (ρ : Nat → Nat → Residue) (p : ClientPacket) (piece : List UInt8)
    (reads : List (List UInt8)) : Prop :=
  if piece.length < 4 then
    (ρ 0 0).freed_socket_fd ≠ fd ∧ AnsweredOnce fd (fun j => ρ (j + 1)) p.type reads
  else
    (p.type = .PUBLISH → PublishSurvives (ρ 0 0) (dataLen (Region.load piece)))
      ∧ ((ρ 0 0).wraparound = true ∧ (ρ 0 1).freed_socket_fd ≠ fd)
      ∧ Passed fd (fun j => ρ (j + 1)) reads

/-- The session of a cut packet is lost before anything is acknowledged.  Either the first piece is
shorter than a header, and it or a later one costs the socket; or the run does not outlive the
copies of the first piece. -/
def CutLost (fd : Int) (ρ : Nat → Nat → Residue) (piece : List UInt8)
    (reads : List (List UInt8)) : Prop :=
  if piece.length < 4 then
    (ρ 0 0).freed_socket_fd = fd ∨ LostUnanswered fd (fun j => ρ (j + 1)) reads
  else ¬ PublishSurvives (ρ 0 0) (dataLen (Region.load piece))

section Cut

variable {fuel : Nat} {ρ : Nat → Nat → Residue} {fd : Int} {p : ClientPacket}
  {piece : List UInt8} {reads : List (List UInt8)}

/-- The first piece decides what the later ones have to be worth. -/
theorem answeredOnce_cut_iff (hfits : p.encode.length ≤ RECV_BUFFER_LEN)
    (hcut : p.encode = piece ++ reads.flatten) (hrest : reads.flatten ≠ []) :
    AnsweredOnce fd ρ p.type (piece :: reads) ↔ CutUnnoticed fd ρ p piece reads := by
  rw [answeredOnce_cons]
  unfold CutUnnoticed
  by_cases h4 : piece.length < 4
  · obtain ⟨hnone, hloses⟩ := short_piece (ρ 0) fd h4
    unfold Ignored
    simp [h4, hnone, hloses]
  · obtain ⟨hmarked, htype, hmore, hsurv⟩ := long_piece (ρ := ρ 0) hfits hcut hrest (by omega)
    rw [if_neg h4, ← hsurv]
    have hloses : CopiesSurvive (ρ 0 0) (dataLen (Region.load piece)) p.type →
        (¬ Loses fd (ρ 0) piece
          ↔ (ρ 0 0).wraparound = true ∧ (ρ 0 1).freed_socket_fd ≠ fd) := by
      intro hcopies
      rw [← Bool.not_eq_false, ← not_or, not_iff_not]
      constructor
      · rintro (⟨hshort, -⟩ | ⟨-, hdis⟩ | ⟨-, t, ht, hlost⟩)
        · exact absurd hshort h4
        · rw [htype] at hdis
          cases hkind : p.type <;> rw [hkind] at hdis <;> cases hdis
        · obtain rfl := packetType_injective (htype.symm.trans ht)
          exact (hlost hcopies).2.imp_left And.right
      · intro hends
        refine .inr (.inr ⟨hmarked, p.type, htype, fun _ => ⟨⟨by omega, by omega⟩, ?_⟩⟩)
        exact hends.imp_left (And.intro hmore)
    constructor
    · rintro (⟨hignored, -⟩ | ⟨hack, hkeeps, hpassed⟩)
      · -- a piece whose copies are not survived costs the socket, any other is acknowledged
        refine absurd ?_ hignored.2
        refine .inr (.inr ⟨hmarked, p.type, htype, fun hcopies => ?_⟩)
        exact absurd ⟨hmarked, htype, hcopies⟩ (hignored.1 p.type)
      · exact ⟨hack.2.2, (hloses hack.2.2).mp hkeeps, hpassed⟩
    · rintro ⟨hcopies, hkeeps, hpassed⟩
      exact .inr ⟨⟨hmarked, htype, hcopies⟩, (hloses hcopies).mpr hkeeps, hpassed⟩

theorem lostUnanswered_cut_iff (hfits : p.encode.length ≤ RECV_BUFFER_LEN)
    (hpublish : p.type = .PUBLISH) (hcut : p.encode = piece ++ reads.flatten)
    (hrest : reads.flatten ≠ []) :
    LostUnanswered fd ρ (piece :: reads) ↔ CutLost fd ρ piece reads := by
  rw [lostUnanswered_cons]
  unfold CutLost
  by_cases h4 : piece.length < 4
  · obtain ⟨hnone, hloses⟩ := short_piece (ρ 0) fd h4
    rw [if_pos h4, and_iff_right hnone, hloses]
  · obtain ⟨hmarked, htype, hmore, hsurv⟩ := long_piece (ρ := ρ 0) hfits hcut hrest (by omega)
    rw [imp_iff_right hpublish] at hsurv
    rw [if_neg h4, ← hsurv]
    constructor
    · rintro ⟨hnone, -⟩ hcopies
      exact hnone p.type ⟨hmarked, htype, hcopies⟩
    · -- the first piece kills the process as the whole packet does
      intro hdies
      refine ⟨fun t ht => ?_, .inl (.inr (.inr ⟨hmarked, p.type, htype, ?_⟩))⟩
      · obtain rfl := packetType_injective (htype.symm.trans ht.2.1)
        exact hdies ht.2.2
      · exact fun hcopies => absurd hcopies hdies

/-- **Cut packets.**  Cut a well-formed packet into two or more non-empty reads.  The session that
parses the reads ends as the one that parses the whole packet exactly when the packet is
answered whole and its client does not notice the cut, or dies whole and the cut session is lost
without a reply too. -/
theorem fragmented_session_iff (hfuel : 2 ≤ fuel) {ρ₀ : Nat → Nat → Residue} (fd : Int)
    (p : ClientPacket) (hfits : p.encode.length ≤ RECV_BUFFER_LEN)
    (piece : List UInt8) (reads : List (List UInt8)) (hcut : (piece :: reads).flatten = p.encode)
    (htwo : reads ≠ []) (hne : ∀ read ∈ piece :: reads, read ≠ [])
    (hb3 : ∀ j, (ρ j 0).header_b3 = 0) (hb3₀ : ∀ j, (ρ₀ j 0).header_b3 = 0) :
    (Session.jobs fuel fd ρ .start (piece :: reads)).map Session.outcome
        = (Session.jobs fuel fd ρ₀ .start [p.encode]).map Session.outcome
      ↔ if Answered (ρ₀ 0 0) p then CutUnnoticed fd ρ p piece reads
        else CutLost fd ρ piece reads := by
  have hrest : reads.flatten ≠ [] := by
    obtain ⟨next, more, rfl⟩ := List.exists_cons_of_ne_nil htwo
    rw [List.flatten_cons]
    intro h
    exact hne next (by simp) (List.append_eq_nil_iff.mp h).1
  have hlen : ∀ read ∈ piece :: reads, read.length ≤ RECV_BUFFER_LEN := by
    intro read hread
    have hle := (List.sublist_flatten_of_mem hread).length_le
    rw [hcut] at hle
    omega
  have hcut' : p.encode = piece ++ reads.flatten := hcut.symm
  rw [whole_session hfuel fd p hfits hb3₀]
  by_cases hans : Answered (ρ₀ 0 0) p
  · rw [if_pos hans, if_pos hans, ← answeredOnce_cut_iff hfits hcut' hrest, ← p.ack_type]
    exact Session.jobs_answeredOnce_iff (s := .start) hfuel hb3 hlen rfl rfl p.type
  · have hpublish : p.type = .PUBLISH := by
      by_contra hne
      exact hans fun h => absurd h hne
    rw [if_neg hans, if_neg hans, ← lostUnanswered_cut_iff hfits hpublish hcut' hrest]
    exact Session.jobs_lostUnanswered_iff (s := .start) hfuel hb3 hlen rfl rfl

end Cut

/-- A `CONN` of 32 zero bytes. -/
def zeroConn : ClientPacket := ⟨.CONN, List.replicate 32 0, by decide⟩

/-- Cut behind its length field, in a memory where a negative length does no harm and freed blocks
are overwritten, it is answered as if it had come whole. -/
theorem fragmented_session_conn :
    (Session.jobs 2 7 (fun _ _ => .quiet 0) .start
        [[83, 83, 80, 2, 0, 32], List.replicate 32 0]).map Session.outcome
      = (Session.jobs 2 7 (fun _ _ => .quiet 0) .start [zeroConn.encode]).map
          Session.outcome := by
  refine (fragmented_session_iff (Nat.le_refl 2) 7 zeroConn (by decide) [83, 83, 80, 2, 0, 32]
    [List.replicate 32 0] rfl (by decide) (by decide) (fun _ => rfl) (fun _ => rfl)).mpr ?_
  rw [if_pos (by decide)]
  refine ⟨nofun, ⟨rfl, by decide⟩, ?_⟩
  rintro (_ | j) read hread
  · -- the payload does not begin with the magic bytes
    obtain rfl := Option.some.inj hread
    have hunmarked : ¬ IsMarked (List.replicate 32 0) := fun h => absurd h.2.1 (by decide)
    refine ⟨fun t ht => hunmarked ht.1, ?_⟩
    rintro (⟨hshort, -⟩ | ⟨hmarked, -⟩ | ⟨hmarked, -⟩)
    · exact absurd hshort (by decide)
    · exact hunmarked hmarked
    · exact hunmarked hmarked
  · cases hread

/-- A `PING` cut after its magic is not answered, even if it keeps its socket; the whole one is. -/
theorem fragmented_ping_lost :
    (Session.jobs 2 7 (fun _ _ => .quiet 0) .start [[83, 83, 80], [0]]).map Session.outcome
        = some ([], true)
      ∧ (Session.jobs 2 7 (fun _ _ => .quiet 0) .start [ClientPacket.ping.encode]).map
          Session.outcome = some ([ClientPacket.ping.ack], true) := by
  decide

end SensorServer.Parser
