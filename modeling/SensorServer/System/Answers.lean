/-
  SensorServer.System.Answers — what the server sends for each chunk.

  A chunk that the loop has handed over is answered by one run of `parse_packet` on it, on
  whatever worker and in whatever company.  So what is sent for a chunk, in the course of a run
  of the whole system, is what `parse_packet` sends when it is called on that chunk, as far as
  its job has got (`Answering`).  On a pool of one worker the answers moreover leave in the order
  of the chunks, whichever sockets they are for (`Serial`).
-/
import SensorServer.Parser.CallSpec
import SensorServer.System.Replies

namespace SensorServer.System

open SensorServer.Framework
open SensorServer.Parser
open SensorServer.Table
open SensorServer.Loop

/-! ## §1. Answers. -/

/-- What a call sends, and where. -/
def sendsOf (t : List Event) : List (Int × List UInt8) :=
  t.filterMap fun
    | .send fd bytes => some (fd, bytes)
    | _ => none

@[simp] theorem sendsOf_append (t t' : List Event) :
    sendsOf (t ++ t') = sendsOf t ++ sendsOf t' := List.filterMap_append

/-- `parse_packet` may send `out` when it is called on `args`. -/
def Answer (args : ThArgs) (out : List (Int × List UInt8)) : Prop :=
  ∃ ρ t, parsePacket 2 ρ args = some t ∧ sendsOf t = out

theorem exists_answer (args : ThArgs) : ∃ out, Answer args out :=
  ⟨_, fun _ => .strict 0, _, parsePacket_eq (Nat.le_refl 2) _ args, rfl⟩

/-- What was sent for one chunk. -/
def sentFor (block : Nat) (sent : List Message) : List (Int × List UInt8) :=
  (sent.filter (·.block = block)).map fun m => (m.fd, m.bytes)

@[simp] theorem sentFor_append (block : Nat) (ms ns : List Message) :
    sentFor block (ms ++ ns) = sentFor block ms ++ sentFor block ns := by
  unfold sentFor
  rw [List.filter_append, List.map_append]

theorem sentFor_eq_nil {block : Nat} {ms : List Message} (h : ∀ m ∈ ms, m.block ≠ block) :
    sentFor block ms = [] := by
  unfold sentFor
  rw [List.filter_eq_nil_iff.mpr, List.map_nil]
  intro m hm
  rw [decide_eq_true_eq]
  exact h m hm

/-- What a job may still send. -/
def Worker.MaySend (x : Worker) (out : List (Int × List UInt8)) : Prop :=
  ∃ rest, (match x.next with
    | none => rest = []
    | some args => Answer args rest) ∧ out = sendsOf x.todo ++ rest

/-- A job at its start may send what `parse_packet` may. -/
theorem maySend_start {job : Job} {out : List (Int × List UInt8)} :
    job.start.MaySend out ↔ Answer job.args out := by
  constructor
  · rintro ⟨rest, hrest, rfl⟩
    exact hrest
  · exact fun h => ⟨out, h, rfl⟩

/-- A job that is over sends nothing more. -/
theorem maySend_nil {x : Worker} (htodo : x.todo = []) (hnext : x.next = none) : x.MaySend [] := by
  refine ⟨[], ?_, ?_⟩
  · rw [hnext]
  · rw [htodo]
    rfl

/-- There is always something it may send, if only nothing. -/
theorem exists_maySend (x : Worker) : ∃ out, x.MaySend out := by
  obtain ⟨job, todo, next⟩ := x
  cases next with
  | none => exact ⟨_, [], rfl, rfl⟩
  | some args =>
      obtain ⟨rest, hrest⟩ := exists_answer args
      exact ⟨_, rest, hrest, rfl⟩

/-- A job sends its next event. -/
theorem maySend_perform {x : Worker} {e : Event} {todo : List Event} (htodo : x.todo = e :: todo)
    {out : List (Int × List UInt8)} (h : Worker.MaySend ⟨x.job, todo, x.next⟩ out) :
    x.MaySend (sendsOf [e] ++ out) := by
  obtain ⟨rest, hrest, rfl⟩ := h
  refine ⟨rest, hrest, ?_⟩
  rw [htodo, ← List.append_assoc, ← sendsOf_append]
  rfl

/-- A call begins. -/
theorem maySend_call {x : Worker} {args : ThArgs} (htodo : x.todo = []) (hnext : x.next = some args)
    {ρ : Residue} {out : List (Int × List UInt8)} (h : (x.job.call ρ args).MaySend out) :
    x.MaySend out := by
  obtain ⟨rest, hrest, rfl⟩ := h
  refine ⟨sendsOf (parsePacketCall ρ args).trace ++ rest, ?_, ?_⟩
  · rw [hnext]
    change match (parsePacketCall ρ args).result with
      | none => rest = []
      | some args' => Answer args' rest at hrest
    cases hresult : (parsePacketCall ρ args).result with
    | none =>
        rw [hresult] at hrest
        subst hrest
        refine ⟨fun _ => ρ, _, parsePacket_eq (Nat.le_refl 2) _ args, ?_⟩
        simp only [hresult, sendsOf_append]
        rfl
    | some args' =>
        rw [hresult] at hrest
        obtain ⟨ρ', t, ht, rfl⟩ := hrest
        have hzero := (parsePacketCall_some_cleared hresult).2
        have hlast := (parsePacketCall_cleared (ρ' 0) hzero 0).1
        rw [parsePacket_eq (Nat.le_refl 2), hlast] at ht
        obtain rfl := Option.some.inj ht
        -- the first call finds `ρ`, the self-call what it has found here
        refine ⟨fun d => if d = 0 then ρ else ρ' 0, _, parsePacket_eq (Nat.le_refl 2) _ args, ?_⟩
        simp only [hresult, sendsOf_append, List.append_nil, if_true]
        rfl
  · rw [htodo]
    rfl

section Sends

variable {s : Server} {w : Nat} {ρ : Residue} {x : Worker}

/-- A job sends for its own chunk. -/
theorem block_of_sends (hx : s.workers[w]? = some x) {m : Message}
    (hm : m ∈ s.sends (.work w ρ)) : m.block = x.job.addr := by
  obtain ⟨job, todo, next⟩ := x
  simp only [Server.sends, hx] at hm
  cases todo with
  | nil => cases hm
  | cons e todo =>
      cases e with
      | send fd bytes =>
          obtain rfl := List.mem_singleton.mp hm
          rfl
      | _ => cases hm

theorem sentFor_sends {e : Event} {todo : List Event} (hx : s.workers[w]? = some x)
    (htodo : x.todo = e :: todo) : sentFor x.job.addr (s.sends (.work w ρ)) = sendsOf [e] := by
  obtain ⟨job, _, next⟩ := x
  obtain rfl : _ = e :: todo := htodo
  simp only [Server.sends, hx]
  cases e with
  | send fd bytes =>
      unfold sentFor
      rw [List.filter_singleton, decide_eq_true rfl]
      rfl
  | _ => rfl

end Sends

/-! ## §2. Each chunk gets its answer. -/

namespace Watched

/-- What is sent for a chunk, with what its job may still send, is an answer to it. -/
structure Answering (o : Watched) : Prop where
  hand : HandFits o.server.pc
  apart : (o.line.map fun x => x.job.addr).Nodup
  known : ∀ x ∈ o.line, ∃ m ∈ o.received, m.block = x.job.addr ∧ x.job.args = .received m.fd m.bytes
  owed : ∀ x ∈ o.line, ∀ out, x.MaySend out →
    Answer x.job.args (sentFor x.job.addr o.sent ++ out)
  finished : ∀ m ∈ o.received, (∀ x ∈ o.line, x.job.addr ≠ m.block) →
    Answer (.received m.fd m.bytes) (sentFor m.block o.sent)
  asked : ∀ m ∈ o.sent, ∃ r ∈ o.received, r.block = m.block

namespace Answering

variable {cfg : Config} {o o' : Watched} {s' : Server} {ms ns : List Message}

theorem init : Watched.init.Answering where
  hand := trivial
  apart := List.nodup_nil
  known := fun _ hx => absurd hx List.not_mem_nil
  owed := fun _ hx => absurd hx List.not_mem_nil
  finished := fun _ hm => absurd hm List.not_mem_nil
  asked := fun _ hm => absurd hm List.not_mem_nil

/-- Steps that change nothing of it, but for the order of the line. -/
theorem keep (h : o.Answering) (hms : ms = []) (hns : ns = []) (hhand : HandFits s'.pc)
    (hline : (line ⟨s', o.received, o.sent⟩).Perm o.line) :
    Answering ⟨s', o.received ++ ms, o.sent ++ ns⟩ := by
  subst hms hns
  rw [List.append_nil, List.append_nil]
  refine ⟨hhand, (hline.map _).nodup_iff.mpr h.apart, fun x hx => ?_, fun x hx => ?_,
    fun m hm hover => ?_, h.asked⟩
  · exact h.known x (hline.mem_iff.mp hx)
  · exact h.owed x (hline.mem_iff.mp hx)
  · exact h.finished m hm fun x hx => hover x (hline.mem_iff.mpr hx)

/-- A chunk is handed over, at a block that is new. -/
theorem submit (h : o.Answering) (hnum : o.Numbered) {addr : Nat} {conn : Option Nat}
    {args : ThArgs} (hheld : heldBlock o.server.pc = some addr)
    (hargs : ∃ bytes, args = .received args.socket_fd bytes ∧ bytes.length ≤ RECV_BUFFER_LEN)
    (hms : ms = [⟨addr, args.socket_fd, args.bytes⟩]) (hns : ns = []) (hhand : HandFits s'.pc)
    (hqueue : s'.queue = o.server.queue ++ [⟨addr, conn, args⟩])
    (hworkers : s'.workers = o.server.workers) :
    Answering ⟨s', o.received ++ ms, o.sent ++ ns⟩ := by
  subst hms hns
  obtain ⟨bytes, hbytes, -⟩ := hargs
  have hfits : args = .received args.socket_fd args.bytes := by
    rw [hbytes, ThArgs.bytes_received]
    rfl
  have hline : line ⟨s', o.received ++ [⟨addr, args.socket_fd, args.bytes⟩], o.sent ++ []⟩
      = o.line ++ [Job.start ⟨addr, conn, args⟩] := by
    show s'.workers ++ s'.queue.map Job.start = _
    rw [hqueue, hworkers, List.map_append, ← List.append_assoc]
    rfl
  -- all blocks so far are older than the one that is handed over
  have hold : ∀ m ∈ o.received, m.block < addr := by
    intro m hm
    have hlt := hnum.old m hm
    rw [hheld] at hlt
    exact hlt
  have hnew : ∀ x ∈ o.line, x.job.addr < addr := by
    intro x hx
    obtain ⟨m, hm, hblock, -⟩ := h.known x hx
    rw [← hblock]
    exact hold m hm
  have hnothing : sentFor addr o.sent = [] := by
    refine sentFor_eq_nil fun m hm => ?_
    obtain ⟨r, hr, hblock⟩ := h.asked m hm
    rw [← hblock]
    exact Nat.ne_of_lt (hold r hr)
  refine ⟨hhand, ?_, fun x hx => ?_, fun x hx out hout => ?_, fun m hm hover => ?_, fun m hm => ?_⟩
  · rw [hline, List.map_append]
    refine List.nodup_append.mpr ⟨h.apart, List.nodup_singleton _, ?_⟩
    intro a ha b hb
    obtain ⟨x, hx, rfl⟩ := List.mem_map.mp ha
    obtain rfl := List.mem_singleton.mp hb
    exact Nat.ne_of_lt (hnew x hx)
  · rw [hline] at hx
    rcases List.mem_append.mp hx with hx | hx
    · obtain ⟨m, hm, hrest⟩ := h.known x hx
      exact ⟨m, List.mem_append_left _ hm, hrest⟩
    · obtain rfl := List.mem_singleton.mp hx
      exact ⟨_, List.mem_append_right _ List.mem_cons_self, rfl, hfits⟩
  · rw [hline] at hx
    show Answer x.job.args (sentFor x.job.addr (o.sent ++ []) ++ out)
    rw [List.append_nil]
    rcases List.mem_append.mp hx with hx | hx
    · exact h.owed x hx out hout
    · obtain rfl := List.mem_singleton.mp hx
      show Answer args (sentFor addr o.sent ++ out)
      rw [hnothing]
      exact maySend_start.mp hout
  · rw [hline] at hover
    show Answer _ (sentFor m.block (o.sent ++ []))
    rw [List.append_nil]
    rcases List.mem_append.mp hm with hm | hm
    · exact h.finished m hm fun x hx => hover x (List.mem_append_left _ hx)
    · obtain rfl := List.mem_singleton.mp hm
      exact absurd rfl (hover _ (List.mem_append_right _ List.mem_cons_self))
  · rw [List.append_nil] at hm
    obtain ⟨r, hr, hblock⟩ := h.asked m hm
    exact ⟨r, List.mem_append_left _ hr, hblock⟩

/-- The `w`-th job goes on, and sends what it owed, or nothing. -/
theorem set (h : o.Answering) {w : Nat} {x y : Worker} (hx : o.server.workers[w]? = some x)
    (hms : ms = []) (hjob : y.job = x.job) (hblock : ∀ m ∈ ns, m.block = x.job.addr)
    (hsends : ∀ out, y.MaySend out → x.MaySend (sentFor x.job.addr ns ++ out))
    (hhand : s'.pc = o.server.pc) (hqueue : s'.queue = o.server.queue)
    (hworkers : s'.workers = o.server.workers.set w y) :
    Answering ⟨s', o.received ++ ms, o.sent ++ ns⟩ := by
  subst hms
  rw [List.append_nil]
  obtain ⟨front, back, hsplit, hset, -⟩ := exists_split hx
  have hline : o.line = front ++ x :: (back ++ o.server.queue.map Job.start) := by
    show o.server.workers ++ _ = _
    rw [hsplit, List.append_assoc, List.cons_append]
  have hline' : line ⟨s', o.received, o.sent ++ ns⟩
      = front ++ y :: (back ++ o.server.queue.map Job.start) := by
    show s'.workers ++ s'.queue.map Job.start = _
    rw [hworkers, hqueue, hset, List.append_assoc, List.cons_append]
  have haddrs : (line ⟨s', o.received, o.sent ++ ns⟩).map (fun x => x.job.addr)
      = o.line.map fun x => x.job.addr := by
    rw [hline, hline', List.map_append, List.map_append, List.map_cons, List.map_cons, hjob]
  have hmem : x ∈ o.line := by
    rw [hline]
    exact List.mem_append_right _ List.mem_cons_self
  -- of the others, whose blocks are others
  have hothers : ∀ z ∈ line ⟨s', o.received, o.sent ++ ns⟩,
      z = y ∨ z ∈ o.line ∧ z.job.addr ≠ x.job.addr := by
    intro z hz
    have hapart := h.apart
    rw [hline, List.map_append, List.map_cons] at hapart
    obtain ⟨-, hback, hfront⟩ := List.nodup_append.mp hapart
    rw [hline'] at hz
    rw [hline]
    rcases List.mem_append.mp hz with hz | hz
    · refine .inr ⟨List.mem_append_left _ hz, ?_⟩
      exact hfront _ (List.mem_map_of_mem hz) _ List.mem_cons_self
    · rcases List.mem_cons.mp hz with hz | hz
      · exact .inl hz
      · refine .inr ⟨List.mem_append_right _ (List.mem_cons_of_mem x hz), fun heq => ?_⟩
        refine (List.nodup_cons.mp hback).1 ?_
        rw [← heq]
        exact List.mem_map_of_mem hz
  have hunsent : ∀ b, b ≠ x.job.addr → sentFor b (o.sent ++ ns) = sentFor b o.sent := by
    intro b hb
    have hnone : sentFor b ns = [] := by
      refine sentFor_eq_nil fun m hm => ?_
      rw [hblock m hm]
      exact Ne.symm hb
    rw [sentFor_append, hnone, List.append_nil]
  refine ⟨?_, ?_, fun z hz => ?_, fun z hz out hout => ?_, fun m hm hover => ?_, fun m hm => ?_⟩
  · show HandFits s'.pc
    rw [hhand]
    exact h.hand
  · rw [haddrs]
    exact h.apart
  · rcases hothers z hz with rfl | ⟨hz, -⟩
    · rw [hjob]
      exact h.known x hmem
    · exact h.known z hz
  · rcases hothers z hz with rfl | ⟨hz, hne⟩
    · rw [hjob]
      show Answer _ (sentFor x.job.addr (o.sent ++ ns) ++ out)
      rw [sentFor_append, List.append_assoc]
      exact h.owed x hmem _ (hsends out hout)
    · show Answer _ (sentFor z.job.addr (o.sent ++ ns) ++ out)
      rw [hunsent _ hne]
      exact h.owed z hz out hout
  · have hnot : ∀ z ∈ o.line, z.job.addr ≠ m.block := by
      intro z hz hzm
      have hold : m.block ∈ o.line.map fun x => x.job.addr :=
        List.mem_map.mpr ⟨z, hz, hzm⟩
      rw [← haddrs] at hold
      obtain ⟨z', hz', hblock'⟩ := List.mem_map.mp hold
      exact hover z' hz' hblock'
    show Answer _ (sentFor m.block (o.sent ++ ns))
    rw [hunsent _ (hnot x hmem).symm]
    exact h.finished m hm hnot
  · rcases List.mem_append.mp hm with hm | hm
    · exact h.asked m hm
    · obtain ⟨r, hr, hrb, -⟩ := h.known x hmem
      exact ⟨r, hr, hrb.trans (hblock m hm).symm⟩

/-- A job that is over leaves. -/
theorem retire (h : o.Answering) (hnum : o.Numbered) {w : Nat} {x : Worker}
    (hx : o.server.workers[w]? = some x)
    (hover : x.MaySend []) (hms : ms = []) (hns : ns = []) (hhand : s'.pc = o.server.pc)
    (hqueue : s'.queue = o.server.queue) (hworkers : s'.workers = o.server.workers.eraseIdx w) :
    Answering ⟨s', o.received ++ ms, o.sent ++ ns⟩ := by
  subst hms hns
  rw [List.append_nil, List.append_nil]
  obtain ⟨front, back, hsplit, -, herase⟩ := exists_split hx
  have hline : o.line = front ++ x :: (back ++ o.server.queue.map Job.start) := by
    show o.server.workers ++ _ = _
    rw [hsplit, List.append_assoc, List.cons_append]
  have hline' : line ⟨s', o.received, o.sent⟩
      = front ++ (back ++ o.server.queue.map Job.start) := by
    show s'.workers ++ s'.queue.map Job.start = _
    rw [hworkers, hqueue, herase, List.append_assoc]
  have hsub : (line ⟨s', o.received, o.sent⟩).Sublist o.line := by
    rw [hline, hline']
    exact (List.Sublist.refl front).append (List.sublist_cons_self x _)
  have hmem : x ∈ o.line := by
    rw [hline]
    exact List.mem_append_right _ List.mem_cons_self
  refine ⟨?_, h.apart.sublist (hsub.map _), fun z hz => h.known z (hsub.subset hz),
    fun z hz => h.owed z (hsub.subset hz), fun m hm hnot => ?_, h.asked⟩
  · show HandFits s'.pc
    rw [hhand]
    exact h.hand
  · by_cases hxm : x.job.addr = m.block
    · -- the chunk of the job that leaves
      obtain ⟨r, hr, hblock, hargs⟩ := h.known x hmem
      have hnodup : (o.received.map Message.block).Nodup := hnum.ascending.imp Nat.ne_of_lt
      obtain rfl := List.inj_on_of_nodup_map hnodup hr hm (hblock.trans hxm)
      have howed := h.owed x hmem [] hover
      rw [List.append_nil, hargs, hxm] at howed
      exact howed
    · refine h.finished m hm fun z hz => ?_
      rw [hline] at hz
      rw [hline'] at hnot
      rcases List.mem_append.mp hz with hz | hz
      · exact hnot z (List.mem_append_left _ hz)
      · rcases List.mem_cons.mp hz with rfl | hz
        · exact hxm
        · exact hnot z (List.mem_append_right _ hz)

/-- **Every step keeps the answers right.** -/
theorem step {a : Act} (h : o.Answering) (hnum : o.Numbered) (hs : o.step cfg a = some o') :
    o'.Answering := by
  obtain ⟨s', hserver, rfl⟩ := step_eq_some hs
  cases move_of_step hserver with
  -- the peers
  | connect | traffic => exact h.keep rfl rfl h.hand (.refl _)
  -- the event loop
  | wait | refuse | registerFails | rearm | rearmFails =>
      exact h.keep rfl rfl (handFits_next _) (.refl _)
  | accept | register | readNothing => exact h.keep rfl rfl trivial (.refl _)
  | count fd' e todo proc hpc hadd =>
      have hgo := handsOver_go (s := o.server) (by rw [hpc]; rfl)
      exact h.keep hgo rfl (handFits_next _) (.refl _)
  | block fd' e todo proc hpc hadd =>
      have hgo := handsOver_go (s := o.server) (by rw [hpc]; rfl)
      exact h.keep hgo rfl trivial (.refl _)
  | hangup e todo hpc hb =>
      have hgo := handsOver_go (s := o.server) (by rw [hpc]; rfl)
      exact h.keep hgo rfl (handFits_next _) (.refl _)
  | skip e todo hpc hb =>
      have hgo := handsOver_go (s := o.server) (by rw [hpc]; rfl)
      exact h.keep hgo rfl (handFits_next _) (.refl _)
  | read e todo n c hpc hb hc hfd hn hlen hunread =>
      refine h.keep rfl rfl ⟨c.unread.take n, rfl, ?_⟩ (.refl _)
      rw [List.length_take]
      omega
  | submit addr args src e todo hpc =>
      have hargs := h.hand
      rw [hpc] at hargs
      exact h.submit hnum (by rw [hpc]; rfl) hargs (handsOver_received hpc) rfl trivial rfl rfl
  -- the workers
  | take k job hjob =>
      refine h.keep rfl rfl h.hand ?_
      obtain ⟨front, back, hsplit, -, herase⟩ := exists_split hjob
      show ((o.server.workers ++ [job.start])
        ++ (o.server.queue.eraseIdx k).map Job.start).Perm (o.server.workers ++ _)
      rw [herase, hsplit, List.append_assoc, List.map_append, List.map_append, List.map_cons,
        List.singleton_append]
      exact List.perm_middle.symm.append_left _
  | perform w ρ x e todo hx htodo =>
      refine h.set (y := ⟨x.job, todo, x.next⟩) hx rfl rfl (fun m hm => ?_) (fun out hout => ?_)
        (o.server.perform_pc x.job.addr e) (o.server.perform_queue x.job.addr e) rfl
      · exact block_of_sends hx hm
      · rw [sentFor_sends hx htodo]
        exact maySend_perform htodo hout
  | call w ρ x args hx htodo hnext =>
      refine h.set (y := x.job.call ρ args) hx rfl rfl (fun m hm => ?_) (fun out hout => ?_)
        rfl rfl rfl
      · exact block_of_sends hx hm
      · rw [sends_between hx htodo]
        exact maySend_call htodo hnext hout
  | retire w ρ x hx htodo hnext =>
      exact h.retire hnum hx (maySend_nil htodo hnext) rfl (sends_between hx htodo) rfl rfl rfl

end Answering

end Watched

/-! ## §3. One worker. -/

/-- Jobs are taken in the order they were queued, and no more than `n` are under way. -/
def Server.InOrder (n : Nat) (s : Server) : Act → Prop
  | .take k => k = 0 ∧ s.workers.length < n
  | _ => True

instance (n : Nat) (s : Server) : DecidablePred (s.InOrder n)
  | .take k => inferInstanceAs (Decidable (k = 0 ∧ _ < n))
  | .connect | .traffic _ _ | .loop _ | .work _ _ => .isTrue trivial

section Groups

variable {α : Type} {key : α → Nat}

/-- The least key comes first. -/
theorem eq_filter_append {k : Nat} {l : List α} (hl : (l.map key).Pairwise (· ≤ ·))
    (hk : ∀ a ∈ l, k ≤ key a) :
    l = l.filter (fun a => key a = k) ++ l.filter fun a => ¬ key a = k := by
  induction l with
  | nil => rfl
  | cons a l ih =>
      obtain ⟨hfirst, hrest⟩ := List.pairwise_cons.mp hl
      have htail := ih hrest fun b hb => hk b (List.mem_cons_of_mem a hb)
      by_cases ha : key a = k
      · rw [List.filter_cons_of_pos (by simpa using ha), List.filter_cons_of_neg (by simpa using ha),
          List.cons_append, ← htail]
      · -- the others are no smaller than `a`
        have hnone : (a :: l).filter (fun a => key a = k) = [] := by
          refine List.filter_eq_nil_iff.mpr fun b hb => ?_
          have hmin := hk a List.mem_cons_self
          rw [decide_eq_true_eq]
          rcases List.mem_cons.mp hb with rfl | hb
          · exact ha
          · have hle := hfirst (key b) (List.mem_map_of_mem hb)
            omega
        rw [hnone, List.nil_append, List.filter_eq_self.mpr]
        intro b hb
        rw [decide_eq_true_eq]
        intro heq
        have hmem : b ∈ (a :: l).filter fun a => key a = k :=
          List.mem_filter.mpr ⟨hb, decide_eq_true heq⟩
        rw [hnone] at hmem
        cases hmem

/-- **A list that is sorted by a key consists of its groups**, in the order of the keys. -/
theorem eq_flatMap_filter {ks : List Nat} (hks : ks.Pairwise (· < ·)) :
    ∀ {l : List α}, (l.map key).Pairwise (· ≤ ·) → (∀ a ∈ l, key a ∈ ks) →
      l = ks.flatMap fun k => l.filter fun a => key a = k := by
  induction ks with
  | nil =>
      intro l _ hall
      exact List.eq_nil_iff_forall_not_mem.mpr fun a ha => List.not_mem_nil (hall a ha)
  | cons k ks ih =>
      intro l hl hall
      obtain ⟨hleast, hrest⟩ := List.pairwise_cons.mp hks
      have hk : ∀ a ∈ l, k ≤ key a := by
        intro a ha
        rcases List.mem_cons.mp (hall a ha) with heq | hmem
        · exact Nat.le_of_eq heq.symm
        · exact Nat.le_of_lt (hleast _ hmem)
      have htail := ih hrest (l := l.filter fun a => ¬ key a = k)
        (hl.sublist (List.filter_sublist.map key)) ?_
      · rw [List.flatMap_cons]
        refine (eq_filter_append hl hk).trans (congrArg _ (htail.trans ?_))
        -- what is left out is no member of a later group
        refine List.flatMap_congr fun k' hk' => ?_
        rw [List.filter_filter]
        refine List.filter_congr fun a _ => ?_
        have hne := Nat.ne_of_gt (hleast k' hk')
        by_cases ha : key a = k'
        · simp [ha, hne]
        · simp [ha]
      · intro a ha
        obtain ⟨hmem, hne⟩ := List.mem_filter.mp ha
        exact (List.mem_cons.mp (hall a hmem)).resolve_left (of_decide_eq_true hne)

end Groups

namespace Watched

/-- What was sent is for chunks no later than those under way, in the order of the chunks. -/
structure Serial (o : Watched) : Prop where
  one : o.server.workers.length ≤ 1
  ascends : (o.line.map fun x => x.job.addr).Pairwise (· < ·)
  behind : ∀ m ∈ o.sent, ∀ x ∈ o.line, m.block ≤ x.job.addr
  sent : (o.sent.map Message.block).Pairwise (· ≤ ·)

namespace Serial

variable {cfg : Config} {o o' : Watched} {s' : Server} {ms ns : List Message}

theorem init : Watched.init.Serial where
  one := Nat.zero_le 1
  ascends := List.Pairwise.nil
  behind := fun _ hm => absurd hm List.not_mem_nil
  sent := List.Pairwise.nil

/-- Steps that send nothing, and after which no more is under way. -/
theorem keep (h : o.Serial) (hns : ns = []) (hone : s'.workers.length ≤ 1)
    (hline : (line ⟨s', o.received ++ ms, o.sent⟩).Sublist o.line) :
    Serial ⟨s', o.received ++ ms, o.sent ++ ns⟩ := by
  subst hns
  rw [List.append_nil]
  exact ⟨hone, h.ascends.sublist (hline.map _), fun m hm x hx => h.behind m hm x (hline.subset hx),
    h.sent⟩

/-- A chunk is handed over, at a block that is new. -/
theorem submit (h : o.Serial) (job : Job) (hns : ns = [])
    (hnew : ∀ x ∈ o.line, x.job.addr < job.addr) (hlast : ∀ m ∈ o.sent, m.block < job.addr)
    (hqueue : s'.queue = o.server.queue ++ [job]) (hworkers : s'.workers = o.server.workers) :
    Serial ⟨s', o.received ++ ms, o.sent ++ ns⟩ := by
  subst hns
  rw [List.append_nil]
  have hline : line ⟨s', o.received ++ ms, o.sent⟩ = o.line ++ [job.start] := by
    show s'.workers ++ s'.queue.map Job.start = _
    rw [hqueue, hworkers, List.map_append, ← List.append_assoc]
    rfl
  refine ⟨?_, ?_, fun m hm x hx => ?_, h.sent⟩
  · show s'.workers.length ≤ 1
    rw [hworkers]
    exact h.one
  · rw [hline, List.map_append]
    refine List.pairwise_append.mpr ⟨h.ascends, List.pairwise_singleton _ _, ?_⟩
    intro a ha b hb
    obtain ⟨x, hx, rfl⟩ := List.mem_map.mp ha
    obtain rfl := List.mem_singleton.mp hb
    exact hnew x hx
  · rw [hline] at hx
    rcases List.mem_append.mp hx with hx | hx
    · exact h.behind m hm x hx
    · obtain rfl := List.mem_singleton.mp hx
      exact Nat.le_of_lt (hlast m hm)

/-- The only job under way goes on, and sends what it likes for its chunk. -/
theorem set (h : o.Serial) {w : Nat} {x y : Worker} (hx : o.server.workers[w]? = some x)
    (hjob : y.job = x.job) (hblock : ∀ m ∈ ns, m.block = x.job.addr)
    (hqueue : s'.queue = o.server.queue) (hworkers : s'.workers = o.server.workers.set w y) :
    Serial ⟨s', o.received ++ ms, o.sent ++ ns⟩ := by
  -- there is one worker at most, and it is the one that goes on
  have honly : o.server.workers = [x] ∧ o.server.workers.set w y = [y] := by
    have hone := h.one
    cases hworkers : o.server.workers with
    | nil =>
        rw [hworkers] at hx
        cases hx
    | cons z rest =>
        rw [hworkers] at hx hone
        obtain rfl : rest = [] :=
          List.eq_nil_of_length_eq_zero (Nat.le_zero.mp (Nat.le_of_succ_le_succ hone))
        cases w with
        | zero =>
            cases hx
            exact ⟨rfl, rfl⟩
        | succ w => cases hx
  have hline : o.line = x :: o.server.queue.map Job.start := by
    show o.server.workers ++ _ = _
    rw [honly.1]
    rfl
  have hline' : line ⟨s', o.received ++ ms, o.sent ++ ns⟩
      = y :: o.server.queue.map Job.start := by
    show s'.workers ++ s'.queue.map Job.start = _
    rw [hworkers, honly.2, hqueue]
    rfl
  have haddrs : (line ⟨s', o.received ++ ms, o.sent ++ ns⟩).map (fun x => x.job.addr)
      = o.line.map fun x => x.job.addr := by
    rw [hline, hline', List.map_cons, List.map_cons, hjob]
  -- it took its chunk first, so what is in line is for that chunk or a later one
  have hfirst : ∀ z ∈ o.line, x.job.addr ≤ z.job.addr := by
    intro z hz
    have hpairs := h.ascends
    rw [hline] at hz hpairs
    rcases List.mem_cons.mp hz with rfl | hz
    · exact Nat.le_refl _
    · exact Nat.le_of_lt ((List.pairwise_cons.mp hpairs).1 _ (List.mem_map_of_mem hz))
  have hmem : x ∈ o.line := by
    rw [hline]
    exact List.mem_cons_self
  refine ⟨?_, ?_, fun m hm z hz => ?_, ?_⟩
  · show s'.workers.length ≤ 1
    rw [hworkers, honly.2]
    exact Nat.le_refl 1
  · rw [haddrs]
    exact h.ascends
  · have hz' : z.job.addr ∈ o.line.map fun x => x.job.addr := by
      rw [← haddrs]
      exact List.mem_map_of_mem hz
    obtain ⟨z', hz', haddr⟩ := List.mem_map.mp hz'
    rw [← haddr]
    rcases List.mem_append.mp hm with hm | hm
    · exact h.behind m hm z' hz'
    · rw [hblock m hm]
      exact hfirst z' hz'
  · show ((o.sent ++ ns).map Message.block).Pairwise _
    rw [List.map_append]
    refine List.pairwise_append.mpr ⟨h.sent, ?_, fun a ha b hb => ?_⟩
    · refine List.pairwise_iff_forall_sublist.mpr fun {a b} hab => ?_
      have hall : ∀ c ∈ ns.map Message.block, c = x.job.addr := by
        intro c hc
        obtain ⟨m, hm, rfl⟩ := List.mem_map.mp hc
        exact hblock m hm
      have ha := hall a (hab.subset List.mem_cons_self)
      have hb := hall b (hab.subset (List.mem_cons_of_mem a List.mem_cons_self))
      exact Nat.le_of_eq (ha.trans hb.symm)
    · obtain ⟨m, hm, rfl⟩ := List.mem_map.mp ha
      obtain ⟨m', hm', rfl⟩ := List.mem_map.mp hb
      rw [hblock m' hm']
      exact h.behind m hm x hmem

/-- **Every step of a pool of one worker keeps the order of the chunks.** -/
theorem step {a : Act} (h : o.Serial) (hanswer : o.Answering) (hnum : o.Numbered)
    (hok : o.server.InOrder 1 a) (hs : o.step cfg a = some o') : o'.Serial := by
  obtain ⟨s', hserver, rfl⟩ := step_eq_some hs
  cases move_of_step hserver with
  -- the event loop hands a chunk over
  | submit addr args src e todo hpc =>
      have hold : ∀ m ∈ o.received, m.block < addr := by
        intro m hm
        have hlt := hnum.old m hm
        rw [hpc] at hlt
        exact hlt
      refine h.submit ⟨addr, src.map (·.conn), args⟩ rfl (fun x hx => ?_) (fun m hm => ?_)
        rfl rfl
      · obtain ⟨m, hm, hblock, -⟩ := hanswer.known x hx
        rw [← hblock]
        exact hold m hm
      · obtain ⟨r, hr, hblock⟩ := hanswer.asked m hm
        rw [← hblock]
        exact hold r hr
  -- the worker
  | take k job hjob =>
      obtain ⟨rfl, hfree⟩ := hok
      have hworkers : o.server.workers = [] := List.eq_nil_of_length_eq_zero (by omega)
      refine h.keep rfl ?_ ?_
      · show (o.server.workers ++ [job.start]).length ≤ 1
        rw [hworkers]
        exact Nat.le_refl 1
      · show ((o.server.workers ++ [job.start]) ++ (o.server.queue.eraseIdx 0).map Job.start).Sublist
          (o.server.workers ++ o.server.queue.map Job.start)
        rw [hworkers]
        cases hqueue : o.server.queue with
        | nil =>
            rw [hqueue] at hjob
            cases hjob
        | cons j queue =>
            rw [hqueue] at hjob
            cases hjob
            exact List.Sublist.refl _
  | perform w ρ x e todo hx htodo =>
      exact h.set (y := ⟨x.job, todo, x.next⟩) hx rfl (fun m hm => block_of_sends hx hm)
        (o.server.perform_queue x.job.addr e) rfl
  | call w ρ x args hx htodo hnext =>
      exact h.set (y := x.job.call ρ args) hx rfl (fun m hm => block_of_sends hx hm) rfl rfl
  | retire w ρ x hx htodo hnext =>
      have hless := List.eraseIdx_sublist o.server.workers w
      exact h.keep (sends_between hx htodo) (Nat.le_trans hless.length_le h.one)
        (hless.append (List.Sublist.refl _))
  -- the rest of the event loop, and the peers
  | _ => exact h.keep rfl h.one (List.Sublist.refl _)

/-- The answers stand in the order of the chunks. -/
theorem sent_eq (h : o.Serial) (hanswer : o.Answering) (hnum : o.Numbered) :
    o.sent = o.received.flatMap fun m => o.sent.filter fun m' => m'.block = m.block := by
  have hgroups := eq_flatMap_filter hnum.ascending h.sent fun m hm => by
    obtain ⟨r, hr, hblock⟩ := hanswer.asked m hm
    exact List.mem_map.mpr ⟨r, hr, hblock⟩
  rw [List.flatMap_map] at hgroups
  exact hgroups

end Serial

end Watched

end SensorServer.System
