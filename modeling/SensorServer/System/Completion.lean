/-
  SensorServer.System.Completion — every chunk that was handed over is dealt with.

  A job of the pool is a run of `parse_packet`, and that is at most two calls deep, with boundedly
  many events in each.  So the pool comes to rest when nothing new arrives: from wherever the
  server on its pool has got to, the workers need boundedly many steps until all chunks the loop
  has queued are parsed, unless the process dies (`chunks_parsed`).
-/
import SensorServer.Parser.CallSpec
import SensorServer.System.Pooled

namespace SensorServer.System

open SensorServer.Framework
open SensorServer.Framework.Pthread (State Enabled)
open SensorServer.Parser

/-! ## §1. How long a call is. -/

/-- At most `k` events. -/
def AtMost {ε α : Type} (k : ℕ) (m : Traced ε α) : Prop := m.trace.length ≤ k

namespace AtMost

variable {ε α β : Type} {k a : ℕ}

theorem stop : AtMost k (Traced.stop : Traced ε α) := Nat.zero_le k

theorem pure (x : α) : AtMost k (pure x : Traced ε α) := Nat.zero_le k

theorem emit_then {e : ε} {f : Unit → Traced ε β} (h : AtMost k (f ())) :
    AtMost (k + 1) (Traced.emit e >>= f) := Nat.succ_le_succ h

theorem bind {m : Traced ε α} {f : α → Traced ε β} (hm : AtMost a m) (ha : a ≤ k)
    (hf : ∀ x, AtMost (k - a) (f x)) : AtMost k (m >>= f) := by
  obtain ⟨t, r⟩ := m
  cases r with
  | none => exact Nat.le_trans hm ha
  | some x =>
      have hlength : t.length ≤ a := hm
      have hrest : (f x).trace.length ≤ k - a := hf x
      show (t ++ (f x).trace).length ≤ k
      rw [List.length_append]
      omega

theorem ite {b : Prop} [Decidable b] {m m' : Traced ε α} (h : AtMost k m) (h' : AtMost k m') :
    AtMost k (if b then m else m') := by
  split
  · exact h
  · exact h'

end AtMost

section Length

variable (ρ : Residue) (args : ThArgs)

theorem atMost_abort {α : Type} {k : ℕ} : AtMost (k + 1) (abort : Traced Event α) :=
  .emit_then .stop

theorem atMost_allocCleared (b : Block) (size : Int) : AtMost 3 (allocCleared b size) :=
  .emit_then (.emit_then (.ite atMost_abort (.pure _)))

theorem atMost_copyOut (b : Block) (size off len : Int) :
    AtMost 2 (copyOut ρ args b size off len) :=
  .emit_then (.ite atMost_abort (.ite atMost_abort (.ite atMost_abort (.pure _))))

theorem atMost_shiftRemaining (off : Int) : AtMost 5 (shiftRemaining ρ args off) :=
  .emit_then (.ite (.emit_then .stop)
    (.emit_then (.emit_then (.ite atMost_abort
      (.emit_then (.ite atMost_abort (.pure _)))))))

theorem atMost_switchPacketType (packet_type : UInt8) (data_len : Int) :
    AtMost 15 (switchPacketType ρ args packet_type data_len) := by
  have halloc := atMost_allocCleared
  have hcopy := atMost_copyOut ρ args
  unfold switchPacketType
  split
  · exact .emit_then (.emit_then (.emit_then (.pure _)))
  · refine .emit_then (.bind (halloc _ _) (by omega) fun _ => .bind (hcopy _ _ _ _) (by omega) ?_)
    exact fun _ => .emit_then (.emit_then (.emit_then (.emit_then (.pure _))))
  · exact .emit_then (.emit_then (.emit_then (.pure _)))
  · refine .bind (halloc _ _) (by omega) fun _ => .bind (hcopy _ _ _ _) (by omega) ?_
    exact fun _ => .emit_then (.emit_then (.emit_then (.emit_then (.pure _))))
  · refine .bind (halloc _ _) (by omega) fun _ => .bind (hcopy _ _ _ _) (by omega) fun _ => ?_
    refine .bind (halloc _ _) (by omega) fun _ => .bind (hcopy _ _ _ _) (by omega) fun _ => ?_
    exact .emit_then (.emit_then (.emit_then (.emit_then (.emit_then (.pure _)))))
  · exact .emit_then (.emit_then .stop)

/-- A call has at most 23 events. -/
theorem atMost_parsePacketCall : AtMost 23 (parsePacketCall ρ args) := by
  refine .emit_then (.ite ?_ (.emit_then (.ite (.emit_then ?_) (.emit_then .stop))))
  · exact .emit_then (.emit_then (.emit_then (.emit_then .stop)))
  · exact .bind (atMost_switchPacketType ρ args _ _) (by omega) fun off =>
      atMost_shiftRemaining ρ args off

end Length

/-! ## §2. How long a job is. -/

section Jobs

variable {cfg : Config}

/-- How often `parse_packet` may still run on a block: one that has been shifted is too short, or
zeros. -/
def callsLeft (args : ThArgs) : ℕ := if args.recv_len < 4 ∨ args.recv_buffer 0 = 0 then 1 else 2

/-- The steps a job has still to take, but for its last one. -/
def Worker.stepsLeft (x : Worker) : ℕ := x.todo.length + 24 * (x.next.map callsLeft).getD 0

/-- A self-call finds a block on which it is the last. -/
theorem callsLeft_lt {ρ : Residue} {args args' : ThArgs}
    (h : (parsePacketCall ρ args).result = some args') : callsLeft args' < callsLeft args := by
  obtain ⟨hlen, hmagic, off, -, hshift⟩ := parsePacketCall_some h
  have hzero := (shiftRemaining_some hshift).2.2.2
  have hnot : ¬ (args.recv_len < 4 ∨ args.recv_buffer 0 = 0) := by
    rintro (hshort | hclear)
    · exact hlen hshort
    · exact headerValue_cleared hclear _ hmagic
  have hlast : args'.recv_len < 4 ∨ args'.recv_buffer 0 = 0 := by
    by_cases hshort : args'.recv_len < 4
    · exact .inl hshort
    · exact .inr (hzero 0 (by omega))
  unfold callsLeft
  rw [if_neg hnot, if_pos hlast]
  exact Nat.lt_succ_self 1

/-- Every step of a job leaves fewer. -/
theorem stepsLeft_lt {a : Deed} {x x' : Worker} {env env' : Server}
    (h : (serverClient cfg).work a x env = some (env', some x')) : x'.stepsLeft < x.stepsLeft := by
  cases a with
  | work ρ =>
      obtain ⟨s, hs, hworked⟩ := Option.map_eq_some_iff.mp h
      obtain ⟨-, hhead⟩ := Prod.mk.inj hworked
      cases move_of_step hs with
      | perform w ρ x₀ e todo hx htodo =>
          cases hx
          cases hhead
          show todo.length + 24 * _ < x.todo.length + 24 * _
          rw [htodo, List.length_cons]
          exact Nat.add_lt_add_right (Nat.lt_succ_self _) _
      | call w ρ x₀ args hx htodo hnext =>
          cases hx
          cases hhead
          -- a call leaves at most 23 events, and the next call has a smaller block to parse
          have htrace : (parsePacketCall ρ args).trace.length ≤ 23 := atMost_parsePacketCall ρ args
          show (parsePacketCall ρ args).trace.length
            + 24 * ((parsePacketCall ρ args).result.map callsLeft).getD 0 < x.stepsLeft
          unfold Worker.stepsLeft
          rw [htodo, hnext]
          cases hresult : (parsePacketCall ρ args).result with
          | none =>
              have hpos : 1 ≤ callsLeft args := by
                unfold callsLeft
                split <;> omega
              show _ + 24 * 0 < 0 + 24 * callsLeft args
              omega
          | some args' =>
              have hless := callsLeft_lt hresult
              show _ + 24 * callsLeft args' < 0 + 24 * callsLeft args
              omega
      | retire => cases hhead
  | _ => cases h

/-- While the process lives, every job can go on. -/
theorem work_goes_on {env : Server} (halive : env.crashed = false) (x : Worker) :
    ∃ a, (serverClient cfg).work a x env ≠ none := by
  refine ⟨.work (.strict 0), ?_⟩
  show ((if env.crashed = true then none else Server.work _ 0 _).map Server.worked) ≠ none
  rw [halive, if_neg Bool.false_ne_true]
  unfold Server.work
  obtain ⟨job, todo, next⟩ := x
  cases todo with
  | cons e todo => exact Option.some_ne_none _
  | nil => cases next <;> exact Option.some_ne_none _

end Jobs

/-! ## §3. Coming to rest. -/

section Resting

open SensorServer.Pool

variable {cfg : Config} {n : Nat} {s : PoolState n Party Job Worker Server}

/-- A pool at rest stands for a server without jobs. -/
theorem Stands.nothing_left {ok} {S : Server} (h : Stands s.data s.pcs S)
    (hreach : Reached (serverClient cfg) .main .init ok s) (hrests : Rests s) :
    S.queue = [] ∧ S.workers = [] := by
  constructor
  · obtain ⟨l, hshape, hqueue⟩ := h.queue
    rw [hqueue, hshape.holds.len_eq_zero_iff.mp hrests.empty, hrests.outside .main]
    rfl
  · refine h.workers.eq_nil fun i => ?_
    obtain ⟨p, hwait⟩ := pass_of_asleep hreach (hrests.asleep i)
    generalize s.pcs (.inl i) = next at hwait
    cases hwait
    rfl

/-- What the server, of which a run of the two is a run, knows of its answers. -/
theorem exists_answering {es : List (List Message × List Message)} (h : Runs cfg n Lives es s) :
    ∃ o, (Reach (Watched.step cfg) (fun o act => o.server.Linux act ∧ o.server.InOrder n act)
        .init o ∧ Watches es s o) ∧ o.Numbered ∧ o.Answering := by
  obtain ⟨o, ho, hwatches⟩ := Emits.simulate watches_start (watches_step (G := fun _ => True))
    (h.mono fun _ _ hok => ⟨hok, trivial⟩)
  refine ⟨o, ⟨ho.mono fun _ _ hok => hok.1, hwatches⟩, ?_⟩
  refine ho.invariant (P := fun o : Watched => o.Numbered ∧ o.Answering) ⟨.init, .init⟩ ?_
  rintro o act o' - ⟨hnum, hanswer⟩ - hs
  exact ⟨hnum.step hs, hanswer.step hnum hs⟩

/-- Where the pool is at rest, every chunk is answered in full. -/
theorem answered_at_rest {es : List (List Message × List Message)} (h : Runs cfg n Lives es s)
    (hrests : Rests s) : ∀ m ∈ es.flatMap Prod.fst,
      Answer (.received m.fd m.bytes) (sentFor m.block (es.flatMap Prod.snd)) := by
  obtain ⟨o, ⟨-, hstands, hreceived, hsent⟩, hnum, hanswer⟩ := exists_answering h
  obtain ⟨hqueue, hworkers⟩ := hstands.nothing_left h.reach hrests
  rw [← hreceived, ← hsent]
  intro m hm
  refine hanswer.finished m hm fun x hx => ?_
  rw [Watched.line, hqueue, hworkers] at hx
  cases hx

/-- **Each chunk is answered as `parse_packet` answers it.**  In every run of the server on its
pool, no two chunks have one block, nothing is sent but for a chunk, and what was sent for a chunk
is the beginning of what a call of `parse_packet` sends for it; where the pool is at rest it is all
of that. -/
theorem chunks_answered {es : List (List Message × List Message)} (h : Runs cfg n Lives es s) :
    ((es.flatMap Prod.fst).map Message.block).Nodup
      ∧ (∀ m ∈ es.flatMap Prod.snd, ∃ r ∈ es.flatMap Prod.fst, r.block = m.block)
      ∧ (∀ m ∈ es.flatMap Prod.fst, ∃ rest,
        Answer (.received m.fd m.bytes) (sentFor m.block (es.flatMap Prod.snd) ++ rest))
      ∧ (Rests s → ∀ m ∈ es.flatMap Prod.fst,
        Answer (.received m.fd m.bytes) (sentFor m.block (es.flatMap Prod.snd))) := by
  obtain ⟨o, ⟨-, hstands, hreceived, hsent⟩, hnum, hanswer⟩ := exists_answering h
  refine ⟨?_, ?_, ?_, answered_at_rest h⟩
  all_goals rw [← hreceived]
  · exact hnum.ascending.imp Nat.ne_of_lt
  · rw [← hsent]
    exact hanswer.asked
  rw [← hsent]
  intro m hm
  by_cases hover : ∀ x ∈ o.line, x.job.addr ≠ m.block
  · refine ⟨[], ?_⟩
    rw [List.append_nil]
    exact hanswer.finished m hm hover
  · -- the chunk is still in line: its job may yet send the rest of an answer
    simp only [not_forall, not_not] at hover
    obtain ⟨x, hx, hxm⟩ := hover
    obtain ⟨r, hr, hblock, hargs⟩ := hanswer.known x hx
    have hnodup : (o.received.map Message.block).Nodup := hnum.ascending.imp Nat.ne_of_lt
    obtain rfl := List.inj_on_of_nodup_map hnodup hr hm (hblock.trans hxm)
    obtain ⟨rest, hrest⟩ := exists_maySend x
    refine ⟨rest, ?_⟩
    rw [← hargs, hblock]
    exact hanswer.owed x hx rest hrest

/-- The pool is at rest, and both chunks are answered. -/
theorem chunks_answered_two :
    ∃ es, ∃ s : PoolState 1 Party Job Worker Server, Runs ⟨3, .after⟩ 1 Lives es s
      ∧ (es.flatMap Prod.fst).map Message.bytes = [ClientPacket.ping.encode, emptySend.encode]
      ∧ ∀ m ∈ es.flatMap Prod.fst,
        Answer (.received m.fd m.bytes) (sentFor m.block (es.flatMap Prod.snd)) := by
  obtain ⟨es, s, h, hbytes, hempty, hidle, hasleep, hmain, hkernel⟩ := runs_of_execute
    (firstChunk ++ secondChunk ++ bothJobs)
    (Q := fun es s =>
      (es.flatMap Prod.fst).map Message.bytes = [ClientPacket.ping.encode, emptySend.encode]
        ∧ s.data.pool.jobqueue.len = 0 ∧ s.data.pool.num_threads_working = 0
        ∧ (s.thread (.inl 0)).mode = .asleep .has_jobs .bsem
        ∧ (s.pcs (.inr .main)).isOutside = true ∧ (s.pcs (.inr .kernel)).isOutside = true)
    (by decide)
  refine ⟨es, s, h, hbytes, (chunks_answered h).2.2.2 ⟨hempty, hidle, fun i => ?_, fun c => ?_⟩⟩
  · rw [Subsingleton.elim i 0]
    exact hasleep
  · cases c with
    | main => exact isOutside_iff.mp hmain
    | kernel => exact isOutside_iff.mp hkernel

/-- **One worker answers in order.**  On a pool of one worker, all that was sent for a chunk was
sent before anything for a later one, whichever sockets the two are for. -/
theorem one_worker_in_order {s : PoolState 1 Party Job Worker Server}
    {es : List (List Message × List Message)} (h : Runs cfg 1 Lives es s) :
    es.flatMap Prod.snd = (es.flatMap Prod.fst).flatMap fun m =>
      (es.flatMap Prod.snd).filter fun m' => m'.block = m.block := by
  obtain ⟨o, ⟨ho, -, hreceived, hsent⟩, -⟩ := exists_answering h
  have hinv : (o.Numbered ∧ o.Answering) ∧ o.Serial := by
    refine ho.invariant (P := fun o : Watched => (o.Numbered ∧ o.Answering) ∧ o.Serial)
      ⟨⟨.init, .init⟩, .init⟩ ?_
    rintro o act o' - ⟨⟨hnum, hanswer⟩, hserial⟩ ⟨-, hok⟩ hs
    exact ⟨⟨hnum.step hs, hanswer.step hnum hs⟩, hserial.step hanswer hnum hok hs⟩
  rw [← hreceived, ← hsent]
  exact hinv.2.sent_eq hinv.1.2 hinv.1.1

/-- Two chunks, and two answers. -/
theorem one_worker_in_order_two :
    ∃ es, ∃ s : PoolState 1 Party Job Worker Server, Runs ⟨3, .after⟩ 1 Lives es s
      ∧ (es.flatMap Prod.snd).length = 2
      ∧ es.flatMap Prod.snd = (es.flatMap Prod.fst).flatMap fun m =>
        (es.flatMap Prod.snd).filter fun m' => m'.block = m.block := by
  obtain ⟨es, s, h, hsent⟩ := runs_of_execute (firstChunk ++ secondChunk ++ bothJobs)
    (Q := fun es _ => (es.flatMap Prod.snd).length = 2) (by decide)
  exact ⟨es, s, h, hsent, one_worker_in_order h⟩

/-- **Every chunk that was handed over is dealt with.**  From any state that the server on its
pool reaches, the workers need boundedly many steps until nobody in the pool can go on, whatever
the schedule; unless the process has died, every chunk handed over has then been answered in
full. -/
theorem chunks_parsed (hn : 0 < n) {es : List (List Message × List Message)}
    (h : Runs cfg n Lives es s) (hready : s.data.ready = true) :
    ∃ N, ∀ as s', execute (State.step (code (serverClient cfg)))
        (fun s m => Internal s m ∧ Lives s m) s as = some s' →
      as.length ≤ N + (as.map unasked).sum
        ∧ ((∀ t, (s'.pcs t).isOutside = false → ¬ Enabled (code (serverClient cfg)) s' t) →
          s'.data.env.crashed = false →
          ∀ m ∈ es.flatMap Prod.fst, Answer (.received m.fd m.bytes) (sentFor m.block
            ((es ++ shows (State.step (code (serverClient cfg))) seenOf s as).flatMap
              Prod.snd))) := by
  have hpolite := (reached_polite h.reach).mono fun _ _ hok => hok.2
  obtain ⟨l, hshape⟩ := (orderly (fun _ _ => And.left) hpolite).queue
  refine ⟨workLeft Worker.stepsLeft (Worker.stepsLeft ∘ (serverClient cfg).start) s l,
    fun as s' has => ?_⟩
  obtain ⟨hlength, hrest⟩ := rests_within hn (fun _ _ _ _ _ => stepsLeft_lt) hpolite hready
    (serving h.reach).calm hshape (execute_mono (fun _ _ => And.left) has)
  refine ⟨hlength, fun hstuck halive m hm => ?_⟩
  have hrun : Runs cfg n Lives (es ++ shows _ seenOf s as) s' :=
    h.of_execute (execute_mono (fun _ _ => And.right) has)
  refine answered_at_rest hrun (hrest (work_goes_on halive) hstuck) m ?_
  rw [List.flatMap_append]
  exact List.mem_append_left _ hm

/-- The worker runs the one job, and sleeps. -/
def oneJob : List Happening := .relock onlyWorker :: inPool 10 ++ inJob 10 ++ inPool 9

/-- From where a chunk is queued every run inside the pool is bounded, and at the end of the
worker's own run the chunk is answered. -/
theorem chunks_parsed_one :
    ∃ es, ∃ s : PoolState 1 Party Job Worker Server, Runs ⟨3, .after⟩ 1 Lives es s
      ∧ (es.flatMap Prod.fst).map Message.bytes = [ClientPacket.ping.encode]
      ∧ (∃ N, ∀ as s', execute (State.step (code (serverClient ⟨3, .after⟩)))
          (fun s m => Internal s m ∧ Lives s m) s as = some s' →
        as.length ≤ N + (as.map unasked).sum)
      ∧ (execute (State.step (code (serverClient ⟨3, .after⟩)))
          (fun s m => Internal s m ∧ Lives s m) s oneJob).isSome
      ∧ ∀ m ∈ es.flatMap Prod.fst, Answer (.received m.fd m.bytes) (sentFor m.block
          ((es ++ shows (State.step (code (serverClient ⟨3, .after⟩))) seenOf s oneJob).flatMap
            Prod.snd)) := by
  obtain ⟨es, s, h, hchunk, hready, hany⟩ := runs_of_execute firstChunk
    (Q := fun es s => (es.flatMap Prod.fst).map Message.bytes = [ClientPacket.ping.encode]
      ∧ s.data.ready = true
      ∧ (execute (State.step (code (serverClient ⟨3, .after⟩)))
          (fun s m => Internal s m ∧ Lives s m) s oneJob).any (fun s' =>
        decide ((s'.thread (.inl 0)).mode = .asleep .has_jobs .bsem
          ∧ (s'.pcs (.inr .main)).isOutside = true ∧ (s'.pcs (.inr .kernel)).isOutside = true
          ∧ s'.data.env.crashed = false)) = true) (by decide)
  obtain ⟨s', hs', hasleep, hmain, hkernel, halive⟩ := exists_execute hany
  obtain ⟨N, hN⟩ := chunks_parsed Nat.one_pos h hready
  refine ⟨es, s, h, hchunk, ⟨N, fun as s' has => (hN as s' has).1⟩, ?_, (hN _ s' hs').2 ?_ halive⟩
  · rw [hs']
    rfl
  · rintro (i | c) hinside
    · rw [Subsingleton.elim i 0]
      exact Pthread.not_enabled_of_asleep hasleep
    · cases c with
      | main => rw [hmain] at hinside; cases hinside
      | kernel => rw [hkernel] at hinside; cases hinside

end Resting

end SensorServer.System
