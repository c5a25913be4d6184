/-
  SensorServer.System.Replies — the order of a client's acknowledgements.

  Chunks reach the thread pool in the order in which they were read, and jobs leave its queue in
  that order.  Nothing orders them from there on: two workers that hold chunks of one client may
  send in either order (`acks_overtake`).  `acks_in_order` is what holds: as long as no worker
  takes a job of a client before the client's earlier jobs have replied, the client reads its
  acknowledgements in the order in which its packets were received.

  A run is watched from outside: beside the state of the system stand the chunks handed over
  and the bytes sent so far.
-/
import Mathlib.Data.List.Flatten
import SensorServer.Parser.Pipelining
import SensorServer.Parser.Effects
import SensorServer.System.Leaks

namespace SensorServer.System

open SensorServer.Framework
open SensorServer.Parser
open SensorServer.Table
open SensorServer.Loop

/-! ## §1. Watching a run. -/

/-- Bytes that a step reads or sends for the argument block at `block`.  No two blocks of a run
have one address. -/
structure Message where
  block : Nat
  fd : Int
  bytes : List UInt8
  deriving Repr, DecidableEq

/-- The messages of one descriptor. -/
def on (fd : Int) (messages : List Message) : List (Nat × List UInt8) :=
  (messages.filter (·.fd = fd)).map fun m => (m.block, m.bytes)

@[simp] theorem on_append (fd : Int) (ms ns : List Message) :
    on fd (ms ++ ns) = on fd ms ++ on fd ns := by
  unfold on
  rw [List.filter_append, List.map_append]

theorem on_singleton (fd : Int) (m : Message) :
    on fd [m] = if m.fd = fd then [(m.block, m.bytes)] else [] := by
  unfold on
  rw [List.filter_singleton]
  by_cases h : m.fd = fd
  · simp [h]
  · simp [h]

namespace Server

variable (s : Server)

/-- The chunk a step hands to the thread pool. -/
def handsOver : Act → List Message
  | .loop .go =>
      match s.pc with
      | .received addr args _ _ _ => [⟨addr, args.socket_fd, args.bytes⟩]
      | _ => []
  | _ => []

/-- What a step sends. -/
def sends : Act → List Message
  | .work w _ =>
      match s.workers[w]? with
      | some ⟨job, .send fd bytes :: _, _⟩ => [⟨job.addr, fd, bytes⟩]
      | _ => []
  | _ => []

end Server

/-- The system, the chunks it has handed to the thread pool, and what it has sent. -/
structure Watched where
  server : Server
  received : List Message
  sent : List Message

/-- At the start of the server. -/
def Watched.init : Watched := ⟨.init, [], []⟩

/-- A step of the system, watched. -/
def Watched.step (cfg : Config) (o : Watched) (a : Act) : Option Watched :=
  (o.server.step cfg a).map fun s =>
    ⟨s, o.received ++ o.server.handsOver a, o.sent ++ o.server.sends a⟩

/-! ## §2. Schedules. -/

/-- The number of workers `main` passes to `thpool_init`. -/
def numThreads : Nat := 16

/-- The pool: a worker that is free takes the oldest job of the queue.  Every chunk handed over
for `fd` meets `IsChunk`. -/
def Server.Pooled (IsChunk : List UInt8 → Prop) (fd : Int) (s : Server) : Act → Prop
  | .take k => k = 0 ∧ s.workers.length < numThreads
  | .loop .go => ∀ m ∈ on fd (s.handsOver (.loop .go)), IsChunk m.2
  | _ => True

instance (IsChunk : List UInt8 → Prop) [DecidablePred IsChunk] (fd : Int) (s : Server) :
    DecidablePred (s.Pooled IsChunk fd)
  | .take k => inferInstanceAs (Decidable (k = 0 ∧ s.workers.length < numThreads))
  | .loop .go => inferInstanceAs (Decidable (∀ m ∈ on fd _, IsChunk m.2))
  | .loop (.accept _) | .loop (.ready _) | .loop (.ctl _) | .loop (.recv _)
  | .connect | .traffic _ _ | .work _ _ => .isTrue trivial

/-- The chunk is one complete packet. -/
def IsPacket (bytes : List UInt8) : Prop := ∃ p : ClientPacket, p.encode = bytes

/-- The job will send nothing more on `fd`. -/
def Worker.Replied (fd : Int) (x : Worker) : Prop := x.next.isNone ∧ replies fd x.todo = []

instance (fd : Int) (x : Worker) : Decidable (x.Replied fd) := by
  unfold Worker.Replied
  infer_instance

/-- A worker takes a job for `fd` only when every job for `fd` under way has replied. -/
def Server.OneAtATime (fd : Int) (s : Server) : Act → Prop
  | .take k => ∀ job ∈ s.queue[k]?, job.args.socket_fd = fd →
      ∀ x ∈ s.workers, x.job.args.socket_fd = fd → x.Replied fd
  | _ => True

instance (fd : Int) (s : Server) : DecidablePred (s.OneAtATime fd)
  | .take k => inferInstanceAs (Decidable (∀ job ∈ s.queue[k]?, job.args.socket_fd = fd →
      ∀ x ∈ s.workers, x.job.args.socket_fd = fd → x.Replied fd))
  | .loop _ | .connect | .traffic _ _ | .work _ _ => .isTrue trivial

/-! ## §3. What a job owes its client. -/

/-- The acknowledgement the type byte of a packet promises. -/
def promised (bytes : List UInt8) : List UInt8 :=
  if Region.load bytes 3 = 0 then [83, 83, 80, 1]
  else [83, 83, 80, Region.load bytes 3 + 1, 0]

theorem promised_encode (p : ClientPacket) : promised p.encode = p.ack := by
  obtain ⟨type, payload, hadm⟩ := p
  cases type <;> rfl

/-- What a job may still send on `fd`: the acknowledgement of its chunk before its call, the
rest of its replies afterwards. -/
def owes (fd : Int) (x : Worker) : List (Nat × List UInt8) :=
  if x.job.args.socket_fd = fd then
    match x.next with
    | some args => [(x.job.addr, promised args.bytes)]
    | none => (replies fd x.todo).map (Prod.mk x.job.addr)
  else []

/-- The job is in order as far as `fd` is concerned. -/
inductive Settled (fd : Int) (x : Worker) : Prop where
  /-- It is for `fd`, and its call of `parse_packet` on a single packet is still to come. -/
  | waiting (p : ClientPacket) (hfd : x.job.args.socket_fd = fd) (htodo : x.todo = [])
      (hnext : x.next = some (.received fd p.encode)) (hfits : p.encode.length ≤ RECV_BUFFER_LEN)
  /-- It is for `fd`, and in its only call. -/
  | called (hfd : x.job.args.socket_fd = fd) (hnext : x.next = none)
  /-- It is for another descriptor, and sends nothing on `fd`. -/
  | foreign (hfd : x.job.args.socket_fd ≠ fd) (htodo : replies fd x.todo = [])
      (hnext : ∀ args, x.next = some args → args.socket_fd ≠ fd)

section Owes

variable {fd : Int} {x y : Worker}

theorem owes_of_ne (h : x.job.args.socket_fd ≠ fd) : owes fd x = [] := if_neg h

theorem owes_called (hfd : x.job.args.socket_fd = fd) (hnext : x.next = none) :
    owes fd x = (replies fd x.todo).map (Prod.mk x.job.addr) := by
  unfold owes
  rw [if_pos hfd, hnext]

theorem owes_waiting {args : ThArgs} (hfd : x.job.args.socket_fd = fd)
    (hnext : x.next = some args) : owes fd x = [(x.job.addr, promised args.bytes)] := by
  unfold owes
  rw [if_pos hfd, hnext]

/-- A job that has replied owes nothing. -/
theorem owes_replied (h : x.Replied fd) : owes fd x = [] := by
  by_cases hfd : x.job.args.socket_fd = fd
  · rw [owes_called hfd (Option.isNone_iff_eq_none.mp h.1), h.2]
    rfl
  · exact owes_of_ne hfd

/-- A job just taken, or still in the queue, owes the acknowledgement of its chunk. -/
theorem owes_start (fd : Int) (addr : Nat) (conn : Option Nat) (args : ThArgs) :
    owes fd (Job.start ⟨addr, conn, args⟩)
      = if args.socket_fd = fd then [(addr, promised args.bytes)] else [] := rfl

/-- A chunk that fits the buffer, and is a packet if it is for `fd`, makes a job in order. -/
theorem settled_start {addr : Nat} {conn : Option Nat} {args : ThArgs}
    (hargs : ∃ bytes, args = .received args.socket_fd bytes ∧ bytes.length ≤ RECV_BUFFER_LEN)
    (hchunk : args.socket_fd = fd → IsPacket args.bytes) :
    Settled fd (Job.start ⟨addr, conn, args⟩) := by
  by_cases hfd : args.socket_fd = fd
  · obtain ⟨p, hp⟩ := hchunk hfd
    obtain ⟨bytes, hbytes, hfits⟩ := hargs
    have hencode : p.encode = bytes := by
      rw [hp, hbytes, ThArgs.bytes_received]
    refine .waiting p hfd rfl ?_ (hencode ▸ hfits)
    show some args = _
    rw [hbytes, hfd, hencode]
  · refine .foreign hfd rfl fun args' hnext => ?_
    rw [← Option.some.inj hnext]
    exact hfd

/-- A call for another descriptor sends nothing on `fd`. -/
theorem replies_foreign (ρ : Residue) {args : ThArgs} (h : args.socket_fd ≠ fd) :
    replies fd (parsePacketCall ρ args).trace = []
      ∧ ∀ args', (parsePacketCall ρ args).result = some args' → args'.socket_fd ≠ fd := by
  -- a call sends on the descriptor of its block only, and hands it on
  have hspec : Traced.Spec (fun e => ∀ bytes, e ≠ .send fd bytes)
      (fun args' => args'.socket_fd = args.socket_fd) (parsePacketCall ρ args) := by
    refine call_spec ?_ ?_ ?_ ?_
    · intro e he bytes hsend
      rw [hsend] at he
      cases he
    · intro _ _ bytes bytes' hsend
      exact h (Event.send.inj hsend).1
    · intro _ _ _ bytes hsend
      cases hsend
    · intro _ bytes hsend
      cases hsend
  refine ⟨?_, fun args' hnext => (hspec.value args' hnext).symm ▸ h⟩
  rw [replies, List.filterMap_eq_nil_iff]
  intro e he
  have hne := hspec.events e he
  cases e with
  | send fd' bytes =>
      refine if_neg fun hfd => hne bytes ?_
      rw [hfd]
  | _ => rfl

/-- **A call keeps a job in order, and it promises no more than before.** -/
theorem Settled.call (ρ : Residue) {args : ThArgs} (h : Settled fd x) (hnext : x.next = some args) :
    Settled fd (x.job.call ρ args) ∧ (owes fd (x.job.call ρ args)).Sublist (owes fd x) := by
  cases h with
  | waiting p hfd htodo hwait hfits =>
      obtain rfl : args = .received fd p.encode := Option.some.inj (hnext.symm.trans hwait)
      obtain ⟨hlast, hreplies⟩ := parsePacketCall_encode ρ fd p hfits
      refine ⟨.called hfd hlast, ?_⟩
      rw [owes_called (x := x.job.call ρ _) hfd hlast, owes_waiting hfd hnext,
        ThArgs.bytes_received, promised_encode]
      exact hreplies.map _
  | called hfd hnone =>
      rw [hnone] at hnext
      cases hnext
  | foreign hfd htodo hforeign =>
      obtain ⟨hquiet, hkeeps⟩ := replies_foreign ρ (hforeign args hnext)
      refine ⟨.foreign hfd hquiet hkeeps, ?_⟩
      rw [owes_of_ne (x := x.job.call ρ args) hfd]
      exact List.nil_sublist _

theorem replies_todo (fd : Int) {e : Event} {todo : List Event} (htodo : x.todo = e :: todo) :
    replies fd x.todo = replies fd [e] ++ replies fd todo := by
  rw [htodo]
  exact replies_append fd [e] todo

/-- A job that goes on with an event sends what it owed. -/
theorem Settled.perform {e : Event} {todo : List Event} (h : Settled fd x)
    (htodo : x.todo = e :: todo) :
    Settled fd ⟨x.job, todo, x.next⟩
      ∧ ((replies fd [e]).map (Prod.mk x.job.addr) ++ owes fd ⟨x.job, todo, x.next⟩).Sublist
        (owes fd x) := by
  have hsplit := replies_todo fd htodo
  cases h with
  | waiting p hfd hnil hnext hfits =>
      rw [hnil] at htodo
      cases htodo
  | called hfd hnext =>
      refine ⟨.called hfd hnext, ?_⟩
      rw [owes_called hfd hnext, owes_called (x := ⟨x.job, todo, x.next⟩) hfd hnext, hsplit,
        List.map_append]
  | foreign hfd hquiet hforeign =>
      rw [hsplit, List.append_eq_nil_iff] at hquiet
      refine ⟨.foreign hfd hquiet.2 hforeign, ?_⟩
      rw [hquiet.1, owes_of_ne (x := ⟨x.job, todo, x.next⟩) hfd]
      exact List.nil_sublist _

end Owes

section Server

variable {s : Server} {w : Nat} {ρ : Residue} {x : Worker}

/-- Only a chunk in the loop's hand is handed over. -/
theorem handsOver_go (h : heldBlock s.pc = none) : s.handsOver (.loop .go) = [] := by
  unfold Server.handsOver
  cases hpc : s.pc with
  | received addr args src e todo =>
      rw [hpc] at h
      cases h
  | _ => rfl

/-- The chunk in hand is the one handed over. -/
theorem handsOver_received {addr : Nat} {args : ThArgs} {src : Tag} {e : EpollEvent × Tag}
    {todo : List (EpollEvent × Tag)} (hpc : s.pc = .received addr args src e todo) :
    s.handsOver (.loop .go) = [⟨addr, args.socket_fd, args.bytes⟩] := by
  unfold Server.handsOver
  rw [hpc]

/-- A job sends its next event, if that is one to send. -/
theorem on_sends (fd : Int) {e : Event} {todo : List Event} (hx : s.workers[w]? = some x)
    (htodo : x.todo = e :: todo) :
    on fd (s.sends (.work w ρ)) = (replies fd [e]).map (Prod.mk x.job.addr) := by
  obtain ⟨job, _, next⟩ := x
  obtain rfl : _ = e :: todo := htodo
  simp only [Server.sends, hx]
  cases e with
  | send fd' bytes =>
      rw [on_singleton]
      by_cases hfd : fd' = fd
      · simp [replies, hfd]
      · simp [replies, hfd]
  | _ => rfl

theorem sends_between (hx : s.workers[w]? = some x) (htodo : x.todo = []) :
    s.sends (.work w ρ) = [] := by
  obtain ⟨job, _, next⟩ := x
  obtain rfl : _ = [] := htodo
  simp only [Server.sends, hx]

end Server

/-! ## §4. Jobs in the order of their chunks. -/

/-- Of two jobs for `fd` the one taken first has replied. -/
def RepliedBefore (fd : Int) (x y : Worker) : Prop :=
  x.job.args.socket_fd = fd → y.job.args.socket_fd = fd → x.Replied fd

/-- A member of a list at its place. -/
theorem exists_split {α : Type} {l : List α} {i : Nat} {x : α} (h : l[i]? = some x) :
    ∃ front back, l = front ++ x :: back ∧ (∀ y, l.set i y = front ++ y :: back)
      ∧ l.eraseIdx i = front ++ back := by
  induction l generalizing i with
  | nil => cases h
  | cons a l ih =>
      cases i with
      | zero =>
          cases h
          exact ⟨[], l, rfl, fun _ => rfl, rfl⟩
      | succ i =>
          obtain ⟨front, back, hl, hset, herase⟩ := ih h
          refine ⟨a :: front, back, ?_, fun y => ?_, ?_⟩
          · rw [hl, List.cons_append]
          · rw [List.set_cons_succ, hset, List.cons_append]
          · rw [List.eraseIdx_cons_succ, herase, List.cons_append]

section Front

variable {fd : Int} {x : Worker} {front back : List Worker}

/-- Nothing is owed by the jobs in front of one for `fd`. -/
theorem owes_front (h : (front ++ x :: back).Pairwise (RepliedBefore fd))
    (hfd : x.job.args.socket_fd = fd) : front.flatMap (owes fd) = [] := by
  rw [List.flatMap_eq_nil_iff]
  intro z hz
  by_cases hz' : z.job.args.socket_fd = fd
  · have hbefore := (List.pairwise_append.mp h).2.2 z hz x List.mem_cons_self
    exact owes_replied (hbefore hz' hfd)
  · exact owes_of_ne hz'

/-- A job that goes on and stays as quiet as it was keeps the order. -/
theorem repliedBefore_set {y : Worker} (h : (front ++ x :: back).Pairwise (RepliedBefore fd))
    (hjob : y.job = x.job) (hquiet : x.Replied fd → y.Replied fd) :
    (front ++ y :: back).Pairwise (RepliedBefore fd) := by
  obtain ⟨hfront, hrest, hacross⟩ := List.pairwise_append.mp h
  obtain ⟨hx, hback⟩ := List.pairwise_cons.mp hrest
  refine List.pairwise_append.mpr ⟨hfront, List.pairwise_cons.mpr ⟨?_, hback⟩, ?_⟩
  · intro z hz hy hz'
    exact hquiet (hx z hz (hjob ▸ hy) hz')
  · intro a ha z hz
    rcases List.mem_cons.mp hz with rfl | hz
    · intro ha' hy
      exact hacross a ha x List.mem_cons_self ha' (hjob ▸ hy)
    · exact hacross a ha z (List.mem_cons_of_mem x hz)

/-- **The step of one job.**  What it sends it owed, and so the whole line owes less by it. -/
theorem owes_set {y : Worker} {sent : List (Nat × List UInt8)}
    (h : (front ++ x :: back).Pairwise (RepliedBefore fd))
    (howes : (sent ++ owes fd y).Sublist (owes fd x)) :
    (sent ++ (front ++ y :: back).flatMap (owes fd)).Sublist
      ((front ++ x :: back).flatMap (owes fd)) := by
  rw [List.flatMap_append, List.flatMap_append, List.flatMap_cons, List.flatMap_cons]
  by_cases hfd : x.job.args.socket_fd = fd
  · rw [owes_front h hfd, List.nil_append, List.nil_append, ← List.append_assoc]
    exact howes.append_right _
  · -- a job for another descriptor neither owes nor sends
    rw [owes_of_ne hfd, List.sublist_nil, List.append_eq_nil_iff] at howes
    rw [howes.1, howes.2, owes_of_ne hfd]
    exact List.Sublist.refl _

end Front

/-! ## §5. The invariant. -/

/-- A chunk in the loop's hand fits the buffer it was read into. -/
def HandFits : LoopPc Tag → Prop
  | .received _ args _ _ _ =>
      ∃ bytes, args = .received args.socket_fd bytes ∧ bytes.length ≤ RECV_BUFFER_LEN
  | _ => True

theorem handFits_next (todo : List (EpollEvent × Tag)) : HandFits (.next todo) := by
  cases todo <;> trivial

namespace Watched

/-- The jobs taken and the jobs queued, in the order of their chunks. -/
def line (o : Watched) : List Worker := o.server.workers ++ o.server.queue.map Job.start

/-- What was sent on `fd`, followed by what is still owed, is in the order of the chunks. -/
structure Ordered (fd : Int) (o : Watched) : Prop where
  hand : HandFits o.server.pc
  jobs : ∀ x ∈ o.line, Settled fd x
  taken : o.server.workers.Pairwise (RepliedBefore fd)
  chunks : ∀ m ∈ on fd o.received, IsPacket m.2
  sent : (on fd o.sent ++ o.line.flatMap (owes fd)).Sublist
    ((on fd o.received).map fun m => (m.1, promised m.2))

namespace Ordered

variable {cfg : Config} {fd : Int} {o : Watched} {s' : Server} {ms ns : List Message}

theorem init (fd : Int) : Watched.init.Ordered fd where
  hand := trivial
  jobs := fun _ hx => absurd hx List.not_mem_nil
  taken := List.Pairwise.nil
  chunks := fun _ hm => absurd hm List.not_mem_nil
  sent := List.Sublist.refl _

/-- Steps that hand over nothing: what they send, the line owed. -/
theorem advance (h : o.Ordered fd) (hms : ms = []) (hhand : HandFits s'.pc)
    (hjobs : ∀ x ∈ line ⟨s', o.received ++ ms, o.sent ++ ns⟩, Settled fd x)
    (htaken : s'.workers.Pairwise (RepliedBefore fd))
    (howes : (on fd ns ++ (line ⟨s', o.received ++ ms, o.sent ++ ns⟩).flatMap (owes fd)).Sublist
      (o.line.flatMap (owes fd))) :
    Ordered fd ⟨s', o.received ++ ms, o.sent ++ ns⟩ := by
  subst hms
  refine ⟨hhand, hjobs, htaken, ?_, ?_⟩
  · show ∀ m ∈ on fd (o.received ++ []), IsPacket m.2
    rw [List.append_nil]
    exact h.chunks
  · show (on fd (o.sent ++ ns) ++ _).Sublist ((on fd (o.received ++ [])).map _)
    rw [on_append, List.append_nil, List.append_assoc]
    exact (howes.append_left _).trans h.sent

/-- Steps that hand over nothing and send nothing, and at most drop jobs that were taken. -/
theorem keep (h : o.Ordered fd) (hms : ms = []) (hns : ns = []) (hhand : HandFits s'.pc)
    (hqueue : s'.queue = o.server.queue) (hworkers : s'.workers.Sublist o.server.workers) :
    Ordered fd ⟨s', o.received ++ ms, o.sent ++ ns⟩ := by
  have hline : (line ⟨s', o.received ++ ms, o.sent ++ ns⟩).Sublist o.line := by
    show (s'.workers ++ s'.queue.map Job.start).Sublist o.line
    rw [hqueue]
    exact hworkers.append_right _
  subst hns
  exact h.advance hms hhand (fun x hx => h.jobs x (hline.subset hx)) (h.taken.sublist hworkers)
    (hline.flatMap (owes fd))

/-- A chunk is handed over, and its job goes to the end of the line. -/
theorem submit (h : o.Ordered fd) {addr : Nat} {conn : Option Nat} {args : ThArgs}
    (hargs : ∃ bytes, args = .received args.socket_fd bytes ∧ bytes.length ≤ RECV_BUFFER_LEN)
    (hms : ms = [⟨addr, args.socket_fd, args.bytes⟩]) (hns : ns = [])
    (hchunk : ∀ m ∈ on fd ms, IsPacket m.2) (hhand : HandFits s'.pc)
    (hqueue : s'.queue = o.server.queue ++ [⟨addr, conn, args⟩])
    (hworkers : s'.workers = o.server.workers) :
    Ordered fd ⟨s', o.received ++ ms, o.sent ++ ns⟩ := by
  -- the job comes last in line
  have hline : line ⟨s', o.received ++ ms, o.sent ++ ns⟩
      = o.line ++ [Job.start ⟨addr, conn, args⟩] := by
    show s'.workers ++ s'.queue.map Job.start = _
    rw [hqueue, hworkers, List.map_append, ← List.append_assoc]
    rfl
  subst hms hns
  rw [on_singleton] at hchunk
  refine ⟨hhand, ?_, ?_, ?_, ?_⟩
  · intro x hx
    rw [hline] at hx
    rcases List.mem_append.mp hx with hx | hx
    · exact h.jobs x hx
    · rw [List.mem_singleton] at hx
      rw [hx]
      refine settled_start hargs fun hfd => ?_
      rw [if_pos hfd] at hchunk
      exact hchunk _ List.mem_cons_self
  · show s'.workers.Pairwise _
    rw [hworkers]
    exact h.taken
  · intro m hm
    rw [on_append, on_singleton] at hm
    rcases List.mem_append.mp hm with hm | hm
    · exact h.chunks m hm
    · exact hchunk m hm
  · rw [hline, List.flatMap_append, on_append, on_append, List.map_append, ← List.append_assoc]
    show ((on fd o.sent ++ []) ++ _ ++ _).Sublist _
    rw [List.append_nil]
    refine h.sent.append ?_
    rw [on_singleton, List.flatMap_singleton, owes_start]
    by_cases hfd : args.socket_fd = fd
    · rw [if_pos hfd, if_pos hfd]
      exact List.Sublist.refl _
    · rw [if_neg hfd]
      exact List.nil_sublist _

/-- The `w`-th job goes on: it sends what it owed, or owes less. -/
theorem set (h : o.Ordered fd) {w : Nat} {x y : Worker} (hx : o.server.workers[w]? = some x)
    (hms : ms = []) (hjob : y.job = x.job) (hsettled : Settled fd x → Settled fd y)
    (hquiet : x.Replied fd → y.Replied fd)
    (howes : (on fd ns ++ owes fd y).Sublist (owes fd x))
    (hpc : s'.pc = o.server.pc) (hqueue : s'.queue = o.server.queue)
    (hworkers : s'.workers = o.server.workers.set w y) :
    Ordered fd ⟨s', o.received ++ ms, o.sent ++ ns⟩ := by
  obtain ⟨front, back, hsplit, hset, -⟩ := exists_split hx
  have hold : o.line = front ++ x :: back ++ o.server.queue.map Job.start := by
    rw [← hsplit]
    rfl
  have hnew : line ⟨s', o.received ++ ms, o.sent ++ ns⟩
      = front ++ y :: back ++ o.server.queue.map Job.start := by
    show s'.workers ++ s'.queue.map Job.start = _
    rw [hworkers, hset, hqueue]
  have htaken := h.taken
  rw [hsplit] at htaken
  have hjobs := h.jobs
  rw [hold] at hjobs
  -- before, in and behind the place of the job
  refine h.advance hms (hpc ▸ h.hand) ?_ ?_ ?_
  · intro z hz
    rw [hnew] at hz
    rcases List.mem_append.mp hz with hz | hz
    · rcases List.mem_append.mp hz with hz | hz
      · exact hjobs z (List.mem_append_left _ (List.mem_append_left _ hz))
      · rcases List.mem_cons.mp hz with rfl | hz
        · exact hsettled (hjobs x (by simp))
        · exact hjobs z (by simp [hz])
    · exact hjobs z (List.mem_append_right _ hz)
  · rw [hworkers, hset]
    exact repliedBefore_set htaken hjob hquiet
  · have hrest := (owes_set htaken howes).append_right
      ((o.server.queue.map Job.start).flatMap (owes fd))
    rw [List.append_assoc, ← List.flatMap_append, ← List.flatMap_append] at hrest
    rw [hold, hnew]
    exact hrest

/-- The oldest queued job is taken while no other one for its descriptor owes anything. -/
theorem take (h : o.Ordered fd) {job : Job} {queue : List Job}
    (hms : ms = []) (hns : ns = []) (hjob : o.server.queue = job :: queue)
    (hone : job.args.socket_fd = fd →
      ∀ x ∈ o.server.workers, x.job.args.socket_fd = fd → x.Replied fd)
    (hpc : s'.pc = o.server.pc) (hqueue : s'.queue = queue)
    (hworkers : s'.workers = o.server.workers ++ [job.start]) :
    Ordered fd ⟨s', o.received ++ ms, o.sent ++ ns⟩ := by
  have hline : line ⟨s', o.received ++ ms, o.sent ++ ns⟩ = o.line := by
    show s'.workers ++ s'.queue.map Job.start
      = o.server.workers ++ o.server.queue.map Job.start
    rw [hqueue, hworkers, hjob, List.map_cons, List.append_assoc]
    rfl
  subst hns
  refine h.advance hms (hpc ▸ h.hand) ?_ ?_ ?_
  · rw [hline]
    exact h.jobs
  · rw [hworkers]
    refine List.pairwise_append.mpr ⟨h.taken, List.pairwise_singleton _ _, ?_⟩
    intro x hx y hy hfd hfd'
    rw [List.mem_singleton] at hy
    rw [hy] at hfd'
    exact hone hfd' x hx hfd
  · rw [hline]
    exact List.Sublist.refl _

end Ordered

/-! ## §6. Steps. -/

section Steps

variable {cfg : Config} {o o' : Watched}

theorem step_eq_some {a : Act} (h : o.step cfg a = some o') :
    ∃ s', o.server.step cfg a = some s'
      ∧ o' = ⟨s', o.received ++ o.server.handsOver a, o.sent ++ o.server.sends a⟩ := by
  obtain ⟨s', hs, heq⟩ := Option.map_eq_some_iff.mp h
  exact ⟨s', hs, heq.symm⟩

/-- **Every step of the pool that takes one job at a time keeps the order.** -/
theorem Ordered.step {fd : Int} {a : Act} (h : o.Ordered fd)
    (hpool : o.server.Pooled IsPacket fd a) (hone : o.server.OneAtATime fd a)
    (hs : o.step cfg a = some o') : o'.Ordered fd := by
  obtain ⟨s', hserver, rfl⟩ := step_eq_some hs
  cases move_of_step hserver with
  -- the peers
  | connect | traffic => exact h.keep rfl rfl h.hand rfl (List.Sublist.refl _)
  -- the event loop
  | wait | refuse | registerFails | rearm | rearmFails =>
      exact h.keep rfl rfl (handFits_next _) rfl (List.Sublist.refl _)
  | accept | register | readNothing => exact h.keep rfl rfl trivial rfl (List.Sublist.refl _)
  | count fd' e todo proc hpc hadd =>
      have hgo := handsOver_go (s := o.server) (by rw [hpc]; rfl)
      exact h.keep hgo rfl (handFits_next _) rfl (List.Sublist.refl _)
  | block fd' e todo proc hpc hadd =>
      have hgo := handsOver_go (s := o.server) (by rw [hpc]; rfl)
      exact h.keep hgo rfl trivial rfl (List.Sublist.refl _)
  | hangup e todo hpc hb =>
      have hgo := handsOver_go (s := o.server) (by rw [hpc]; rfl)
      exact h.keep hgo rfl (handFits_next _) rfl (List.Sublist.refl _)
  | skip e todo hpc hb =>
      have hgo := handsOver_go (s := o.server) (by rw [hpc]; rfl)
      exact h.keep hgo rfl (handFits_next _) rfl (List.Sublist.refl _)
  | read e todo n c hpc hb hc hfd hn hlen hunread =>
      refine h.keep rfl rfl ⟨c.unread.take n, rfl, ?_⟩ rfl (List.Sublist.refl _)
      rw [List.length_take]
      omega
  | submit addr args src e todo hpc =>
      have hargs := h.hand
      rw [hpc] at hargs
      exact h.submit hargs (handsOver_received hpc) rfl hpool trivial rfl rfl
  -- the workers
  | take k job hjob =>
      obtain ⟨rfl, -⟩ := hpool
      have hqueue : o.server.queue = job :: o.server.queue.eraseIdx 0 := by
        cases hq : o.server.queue with
        | nil =>
            rw [hq] at hjob
            cases hjob
        | cons j queue =>
            rw [hq] at hjob
            cases hjob
            rfl
      exact h.take rfl rfl hqueue (hone job hjob) rfl rfl rfl
  | perform w ρ x e todo hx htodo =>
      have hmem : x ∈ o.line := List.mem_append_left _ (List.mem_of_getElem? hx)
      refine h.set (y := ⟨x.job, todo, x.next⟩) hx rfl rfl
        (fun hsettled => (hsettled.perform htodo).1) ?_ ?_
        (o.server.perform_pc x.job.addr e) (o.server.perform_queue x.job.addr e) rfl
      · rintro ⟨hnext, hquiet⟩
        refine ⟨hnext, ?_⟩
        rw [replies_todo fd htodo, List.append_eq_nil_iff] at hquiet
        exact hquiet.2
      · rw [on_sends fd hx htodo]
        exact ((h.jobs x hmem).perform htodo).2
  | call w ρ x args hx htodo hnext =>
      have hmem : x ∈ o.line := List.mem_append_left _ (List.mem_of_getElem? hx)
      refine h.set (y := x.job.call ρ args) hx rfl rfl
        (fun hsettled => (hsettled.call ρ hnext).1) ?_ ?_ rfl rfl rfl
      · rintro ⟨hnone, -⟩
        rw [hnext] at hnone
        cases hnone
      · rw [sends_between hx htodo]
        exact ((h.jobs x hmem).call ρ hnext).2
  | retire w ρ x hx htodo hnext =>
      exact h.keep rfl (sends_between hx htodo) h.hand rfl (List.eraseIdx_sublist _ _)

end Steps

/-! ## §7. No two chunks have one block. -/

/-- Blocks are handed over in the order of their addresses. -/
structure Numbered (o : Watched) : Prop where
  old : ∀ m ∈ o.received, m.block < (heldBlock o.server.pc).getD o.server.proc.fresh
  held : ∀ b, heldBlock o.server.pc = some b → b < o.server.proc.fresh
  ascending : (o.received.map Message.block).Pairwise (· < ·)

namespace Numbered

variable {cfg : Config} {o o' : Watched} {s' : Server} {ms ns : List Message}

theorem init : Watched.init.Numbered where
  old := fun _ hm => absurd hm List.not_mem_nil
  held := fun _ hb => by cases hb
  ascending := List.Pairwise.nil

/-- Everything handed over is older than the next block. -/
theorem old_fresh (h : o.Numbered) : ∀ m ∈ o.received, m.block < o.server.proc.fresh := by
  intro m hm
  have hold := h.old m hm
  cases hheld : heldBlock o.server.pc with
  | none =>
      rw [hheld] at hold
      exact hold
  | some b =>
      rw [hheld] at hold
      exact Nat.lt_trans hold (h.held b hheld)

/-- Steps that hand over nothing. -/
theorem keep (h : o.Numbered) (hms : ms = [])
    (hfresh : o.server.proc.fresh ≤ s'.proc.fresh)
    (hheld : heldBlock s'.pc = none ∨ s'.pc = o.server.pc) :
    Numbered ⟨s', o.received ++ ms, o.sent ++ ns⟩ := by
  subst hms
  refine ⟨fun m hm => ?_, fun b hb => ?_, ?_⟩
  · rw [List.append_nil] at hm
    show m.block < (heldBlock s'.pc).getD s'.proc.fresh
    -- the block in hand has been handed over, or is the same
    rcases hheld with hnone | hpc
    · rw [hnone]
      exact Nat.lt_of_lt_of_le (h.old_fresh m hm) hfresh
    · have hold := h.old m hm
      rw [hpc]
      cases hb : heldBlock o.server.pc with
      | none => exact Nat.lt_of_lt_of_le (h.old_fresh m hm) hfresh
      | some b =>
          rw [hb] at hold
          exact hold
  · replace hb : heldBlock s'.pc = some b := hb
    rcases hheld with hnone | hpc
    · rw [hnone] at hb
      cases hb
    · exact Nat.lt_of_lt_of_le (h.held b (hpc ▸ hb)) hfresh
  · show ((o.received ++ []).map Message.block).Pairwise _
    rw [List.append_nil]
    exact h.ascending

theorem step {a : Act} (h : o.Numbered) (hs : o.step cfg a = some o') : o'.Numbered := by
  obtain ⟨s', hserver, rfl⟩ := step_eq_some hs
  cases move_of_step hserver with
  -- the peers
  | connect | traffic => exact h.keep rfl (Nat.le_refl _) (.inr rfl)
  -- the event loop
  | wait | registerFails | rearm | rearmFails =>
      exact h.keep rfl (Nat.le_refl _) (.inl (heldBlock_next _))
  | refuse => exact h.keep rfl (Nat.le_succ _) (.inl (heldBlock_next _))
  | accept | readNothing => exact h.keep rfl (Nat.le_succ _) (.inl rfl)
  | register => exact h.keep rfl (Nat.le_refl _) (.inl rfl)
  | count fd e todo proc hpc hadd =>
      have hgo := handsOver_go (s := o.server) (by rw [hpc]; rfl)
      exact h.keep hgo (addNewConnection_fresh_le (.inl hadd)) (.inl (heldBlock_next _))
  | block fd e todo proc hpc hadd =>
      have hgo := handsOver_go (s := o.server) (by rw [hpc]; rfl)
      exact h.keep hgo (addNewConnection_fresh_le (.inr hadd)) (.inl rfl)
  | hangup e todo hpc hb =>
      have hgo := handsOver_go (s := o.server) (by rw [hpc]; rfl)
      have hfresh : ((epollDelFd o.server.proc.malloc.2 e.1.fd).free o.server.proc.fresh).fresh
          = o.server.proc.fresh + 1 := by
        rw [epollDelFd_eq]
        rfl
      exact h.keep hgo (hfresh ▸ Nat.le_succ _) (.inl (heldBlock_next _))
  | skip e todo hpc hb =>
      have hgo := handsOver_go (s := o.server) (by rw [hpc]; rfl)
      exact h.keep hgo (Nat.le_succ _) (.inl (heldBlock_next _))
  | read e todo n c hpc hb hc hfd hn hlen hunread =>
      refine ⟨fun m hm => ?_, fun b hb => ?_, ?_⟩
      · replace hm : m ∈ o.received ++ [] := hm
        rw [List.append_nil] at hm
        exact h.old_fresh m hm
      · obtain rfl : o.server.proc.fresh = b := Option.some.inj hb
        exact Nat.lt_succ_self _
      · show ((o.received ++ []).map Message.block).Pairwise _
        rw [List.append_nil]
        exact h.ascending
  | submit addr args src e todo hpc =>
      have hgo := handsOver_received (s := o.server) hpc
      have hheld : heldBlock o.server.pc = some addr := by
        rw [hpc]
        rfl
      have hlast := h.held addr hheld
      have hold : ∀ m ∈ o.received, m.block < addr := by
        intro m hm
        have hlt := h.old m hm
        rw [hheld] at hlt
        exact hlt
      rw [hgo]
      refine ⟨fun m hm => ?_, fun b hb => ?_, ?_⟩
      · rcases List.mem_append.mp hm with hm | hm
        · exact Nat.lt_trans (hold m hm) hlast
        · rw [List.mem_singleton] at hm
          rw [hm]
          exact hlast
      · cases hb
      · show ((o.received ++ _).map Message.block).Pairwise _
        rw [List.map_append]
        refine List.pairwise_append.mpr ⟨h.ascending, List.pairwise_singleton _ _, ?_⟩
        intro b hb b' hb'
        obtain ⟨m, hm, rfl⟩ := List.mem_map.mp hb
        obtain rfl : b' = addr := List.mem_singleton.mp hb'
        exact hold m hm
  -- the workers
  | take | call | retire => exact h.keep rfl (Nat.le_refl _) (.inr rfl)
  | perform w ρ x e todo hx htodo =>
      refine h.keep rfl ?_ (.inr (o.server.perform_pc x.job.addr e))
      show o.server.proc.fresh ≤ (o.server.perform x.job.addr e).proc.fresh
      cases e <;> exact Nat.le_refl _

end Numbered

end Watched

/-! ## §8. The theorem. -/

/-- Chunks that are packets, packet by packet. -/
theorem exists_packets {chunks : List (Nat × List UInt8)} (h : ∀ m ∈ chunks, IsPacket m.2) :
    ∃ packets : List (Nat × ClientPacket), chunks = packets.map fun m => (m.1, m.2.encode) := by
  induction chunks with
  | nil => exact ⟨[], rfl⟩
  | cons m chunks ih =>
      obtain ⟨p, hp⟩ := h m List.mem_cons_self
      obtain ⟨packets, hpackets⟩ := ih fun m' hm' => h m' (List.mem_cons_of_mem m hm')
      refine ⟨(m.1, p) :: packets, ?_⟩
      rw [List.map_cons, hpackets, hp]

/-- **Acknowledgements in order.**  Let the chunks read from `fd` be single packets, and the
pool take its jobs oldest first.  In every run in which a worker takes a job for `fd` only when
every job for `fd` under way has replied, what is sent on `fd` is a part of the acknowledgements
of the packets received, each for its own packet, in the order of the packets. -/
theorem acks_in_order (cfg : Config) (fd : Int) {o : Watched}
    (hreach : Reach (Watched.step cfg)
      (fun o a => o.server.Pooled IsPacket fd a ∧ o.server.OneAtATime fd a) .init o) :
    ∃ packets : List (Nat × ClientPacket),
      (packets.map Prod.fst).Nodup
        ∧ on fd o.received = packets.map (fun m => (m.1, m.2.encode))
        ∧ (on fd o.sent).Sublist (packets.map fun m => (m.1, m.2.ack)) := by
  have hinv : o.Ordered fd ∧ o.Numbered := by
    refine hreach.invariant (P := fun o : Watched => o.Ordered fd ∧ o.Numbered)
      ⟨.init fd, .init⟩ ?_
    intro t a t' _ ht hok hs
    exact ⟨ht.1.step hok.1 hok.2 hs, ht.2.step hs⟩
  obtain ⟨hord, hnum⟩ := hinv
  obtain ⟨packets, hpackets⟩ := exists_packets hord.chunks
  refine ⟨packets, ?_, hpackets, ?_⟩
  · have hblocks : packets.map Prod.fst
        = (o.received.filter (·.fd = fd)).map Message.block := by
      have hfst := congrArg (List.map Prod.fst) hpackets
      rw [on, List.map_map, List.map_map] at hfst
      exact hfst.symm
    rw [hblocks]
    have hsub := (List.filter_sublist (p := (·.fd = fd)) (l := o.received)).map Message.block
    exact (hnum.ascending.sublist hsub).imp Nat.ne_of_lt
  · -- what a chunk promises is the acknowledgement of its packet
    have hacks : (on fd o.received).map (fun m => (m.1, promised m.2))
        = packets.map fun m => (m.1, m.2.ack) := by
      rw [hpackets, List.map_map]
      refine List.map_congr_left fun m _ => ?_
      show (m.1, promised m.2.encode) = (m.1, m.2.ack)
      rw [promised_encode]
    rw [← hacks]
    exact (List.sublist_append_left _ _).trans hord.sent

/-- A `SEND` without a payload. -/
def emptySend : ClientPacket := ⟨.SEND, [], by decide⟩

/-- A client that connects and is read twice: a `PING`, then a `SEND`. -/
def twoChunks : List Act :=
  [.connect, .loop (.ready [(none, { epollin := true })]), .loop (.accept (some 5)),
    .loop (.ctl true), .loop .go,
    .traffic 0 (.data ClientPacket.ping.encode), .loop (.ready [(some 0, { epollin := true })]),
    .loop (.recv 4), .loop .go, .loop (.ctl true),
    .traffic 0 (.data emptySend.encode),
    .loop (.ready [(some 0, { epollin := true, epollout := true })]),
    .loop (.recv 6), .loop .go, .loop (.ctl true)]

/-- A guard that can be evaluated, for runs in which these two packets are read. -/
def TwoPackets (o : Watched) (a : Act) : Prop :=
  o.server.Linux a
    ∧ o.server.Pooled (fun b => b = ClientPacket.ping.encode ∨ b = emptySend.encode) 5 a

instance (o : Watched) : DecidablePred (TwoPackets o) := fun _ => instDecidableAnd

theorem TwoPackets.pooled {o : Watched} {a : Act} (h : TwoPackets o a) :
    o.server.Linux a ∧ o.server.Pooled IsPacket 5 a := by
  refine ⟨h.1, ?_⟩
  have hpool := h.2
  cases a with
  | loop c =>
      cases c with
      | go =>
          intro m hm
          rcases hpool m hm with heq | heq
          · exact ⟨_, heq.symm⟩
          · exact ⟨_, heq.symm⟩
      | _ => trivial
  | take k => exact hpool
  | _ => trivial

/-- The second job is taken when the first has replied. -/
theorem acks_in_order_two :
    ∃ o, execute (Watched.step ⟨3, .after⟩)
        (fun o a => TwoPackets o a ∧ o.server.OneAtATime 5 a) .init
        (twoChunks ++ .take 0 :: List.replicate 7 (.work 0 (.quiet 5))
          ++ .take 0 :: List.replicate 10 (.work 1 (.quiet 5))) = some o
      ∧ (on 5 o.sent).length = 2
      ∧ ∃ packets : List (Nat × ClientPacket),
        (packets.map Prod.fst).Nodup
          ∧ on 5 o.received = packets.map (fun m => (m.1, m.2.encode))
          ∧ (on 5 o.sent).Sublist (packets.map fun m => (m.1, m.2.ack)) := by
  apply execute_reaches (P := fun o : Watched => (on 5 o.sent).length = 2) (by decide)
  intro o hreach hsent
  refine ⟨hsent, acks_in_order ⟨3, .after⟩ 5 (hreach.mono ?_)⟩
  intro t a hok
  exact ⟨hok.1.pooled.2, hok.2⟩

/-- Two workers hold the two chunks, and the second is faster. -/
theorem acks_overtake :
    ∃ o, Reach (Watched.step ⟨3, .after⟩)
        (fun o a => o.server.Linux a ∧ o.server.Pooled IsPacket 5 a) .init o
      ∧ on 5 o.received = [(2, ClientPacket.ping.encode), (3, emptySend.encode)]
      ∧ on 5 o.sent = [(3, emptySend.ack), (2, ClientPacket.ping.ack)] := by
  have hrun : ∃ o, execute (Watched.step ⟨3, .after⟩) TwoPackets .init
        (twoChunks ++ [.take 0, .take 0] ++ List.replicate 10 (.work 1 (.quiet 5))
          ++ List.replicate 7 (.work 0 (.quiet 5))) = some o
      ∧ on 5 o.received = [(2, ClientPacket.ping.encode), (3, emptySend.encode)]
      ∧ on 5 o.sent = [(3, emptySend.ack), (2, ClientPacket.ping.ack)] :=
    exists_execute (P := fun o : Watched =>
      on 5 o.received = [(2, ClientPacket.ping.encode), (3, emptySend.encode)]
        ∧ on 5 o.sent = [(3, emptySend.ack), (2, ClientPacket.ping.ack)]) (by decide)
  obtain ⟨o, hexec, hseen⟩ := hrun
  have hreach := Reach.of_execute .init hexec
  exact ⟨o, hreach.mono fun _ _ hok => hok.pooled, hseen⟩

end SensorServer.System
