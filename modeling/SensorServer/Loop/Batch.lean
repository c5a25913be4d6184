/-
  SensorServer.Loop.Batch — the events of one batch.

  The `for` loop of `start_epoll` runs through the events `epoll_wait` reported.  Here it runs
  alone, on a batch whose events carry the results their system calls will have, and `visits`
  is what it does at each event it reaches.

  The body leaves an event by `continue`, except where `recv` returned nothing: there it says
  `break`, which leaves the loop and not only the event.  A new client that finds the mutex
  held stops the loop for good.  `visits_iff` says which batches are walked to the end.
-/
import SensorServer.Loop.StartEpoll

namespace SensorServer.Loop

open SensorServer.Parser (RECV_BUFFER_LEN)
open SensorServer.Table

/-! ## §1. A batch with its results. -/

/-- The results the system calls at one event have. -/
structure Results where
  accept : Int
  epoll_add_fd : Int
  recv : Int
  bytes : List UInt8

/-- The reply to the call at a program counter. -/
def answer (listen_socket : Int) : LoopPc Results → Reply Results
  | .wait => .ready []
  | .event e _ =>
      match branch listen_socket e.1 with
      | .accept => .ret e.2.accept
      | .recv => .data e.2.recv e.2.bytes e.2
      | .epollDelFd | .skip => .done
  | .accepted _ e _ => .ret e.2.epoll_add_fd
  | _ => .done

/-- The events the loop reaches before it waits again, each with the call made there; at most
`fuel` steps. -/
def visits (listen_socket : Int) (order : IndexRead) :
    Nat → LoopPc Results → Proc → List (EpollEvent × Call Results)
  | 0, _, _ => []
  | _ + 1, .wait, _ => []
  | fuel + 1, pc, p =>
      let here := match pc with
        | .event e _ => [(e.1, pc.call listen_socket)]
        | _ => []
      match resume listen_socket order pc p (answer listen_socket pc) with
      | none => here
      | some (pc', p') => here ++ visits listen_socket order fuel pc' p'

/-- What each event is due: a listen event an `accept`, a hang-up an `epoll_del_fd`, other
input a `recv`. -/
def due (listen_socket : Int) (e : EpollEvent) : Call Results :=
  if e.fd = listen_socket ∧ e.events.epollin then .accept
  else if e.events.epollrdhup ∨ e.events.epollhup then .epollDelFd e.fd
  else if e.events.epollin then .recv e.fd RECV_BUFFER_LEN
  else .skip

/-! ## §2. Which events let the loop go on. -/

/-- What of the memory decides whether an event can stop the loop. -/
structure Gate where
  global_connection_id : UInt32
  mutex_locked : Bool

/-- The gate of a memory. -/
def Gate.of (p : Proc) : Gate := ⟨p.global_connection_id, p.mutex_locked⟩

/-- An event adds a client. -/
def Admitted (r : Results) : Prop := 0 ≤ r.accept ∧ 0 ≤ r.epoll_add_fd

instance (r : Results) : Decidable (Admitted r) := by unfold Admitted; infer_instance

/-- The event lets the loop go on: `recv` returns something, a new client finds the mutex
free. -/
def GoesOn (listen_socket : Int) (g : Gate) (e : EpollEvent × Results) : Prop :=
  match branch listen_socket e.1 with
  | .accept => Admitted e.2 → g.mutex_locked = false
  | .recv => 0 < e.2.recv
  | .epollDelFd | .skip => True

/-- The gate behind an event. -/
def Gate.after (listen_socket : Int) (g : Gate) (e : EpollEvent × Results) : Gate :=
  match branch listen_socket e.1 with
  | .accept =>
      if Admitted e.2 then
        ⟨g.global_connection_id + 1, decide (g.global_connection_id + 1 > maxConnections)⟩
      else g
  | .epollDelFd => ⟨g.global_connection_id - 1, g.mutex_locked⟩
  | .recv | .skip => g

/-- Every event but the last lets the loop go on. -/
def Uninterrupted (listen_socket : Int) : Gate → List (EpollEvent × Results) → Prop
  | _, [] => True
  | g, e :: todo =>
      (todo = [] ∨ GoesOn listen_socket g e)
        ∧ Uninterrupted listen_socket (g.after listen_socket e) todo

/-! ## §3. One event. -/

section OneEvent

variable {listen_socket : Int} {order : IndexRead} {p : Proc} {e : EpollEvent × Results}
  {todo : List (EpollEvent × Results)}

/-- Every event is met with the call it is due. -/
theorem call_event (todo : List (EpollEvent × Results)) (hfd : 0 ≤ e.1.fd) :
    (LoopPc.event e todo).call listen_socket = due listen_socket e.1 := by
  have hneg : ¬ e.1.fd < 0 := by omega
  unfold due
  show (match branch listen_socket e.1 with
    | .accept => Call.accept
    | .epollDelFd => .epollDelFd e.1.fd
    | .recv => .recv e.1.fd RECV_BUFFER_LEN
    | .skip => .skip) = _
  unfold branch
  by_cases hl : e.1.fd = listen_socket ∧ e.1.events.epollin
  · rw [if_pos hl, if_pos hl]
  rw [if_neg hl, if_neg hneg, if_neg hl]
  by_cases hh : e.1.events.epollrdhup ∨ e.1.events.epollhup
  · rw [if_pos hh, if_pos hh]
  rw [if_neg hh, if_neg hh]
  by_cases hi : e.1.events.epollin
  · rw [if_pos hi, if_pos hi]
  · rw [if_neg hi, if_neg hi]

/-- One step from an event: the call, and what its reply leads to. -/
theorem visits_event (hfd : 0 ≤ e.1.fd) (fuel : Nat) {pc' : LoopPc Results} {p' : Proc}
    (h : resume listen_socket order (.event e todo) p
      (answer listen_socket (.event e todo)) = some (pc', p')) :
    visits listen_socket order (fuel + 1) (.event e todo) p =
      (e.1, due listen_socket e.1) :: visits listen_socket order fuel pc' p' := by
  rw [← call_event todo hfd, visits, h]
  rfl

/-- The batch is over once the loop waits. -/
theorem visits_wait (fuel : Nat) : visits listen_socket order fuel .wait p = [] := by
  cases fuel <;> rfl

/-- An event after which the loop waits is the last one reached. -/
theorem visits_break (hfd : 0 ≤ e.1.fd) (hb : branch listen_socket e.1 = .recv)
    (h : e.2.recv ≤ 0) (fuel : Nat) :
    visits listen_socket order (fuel + 1) (.event e todo) p = [(e.1, due listen_socket e.1)] := by
  have hanswer : answer listen_socket (.event e todo) = .data e.2.recv e.2.bytes e.2 := by
    simp only [answer, hb]
  rw [visits_event hfd fuel (hanswer ▸ resume_recv_nothing hb h _ _), visits_wait]

variable (order todo) in
/-- A chunk is handed over and its client registered again. -/
theorem visits_chunk (hfd : 0 ≤ e.1.fd) (hb : branch listen_socket e.1 = .recv)
    (h : 0 < e.2.recv) (fuel : Nat) :
    ∃ k, visits listen_socket order (fuel + 3) (.event e todo) p =
      (e.1, due listen_socket e.1) ::
        visits listen_socket order (fuel + k) (.next todo) p.malloc.2 := by
  have hanswer : answer listen_socket (.event e todo) = .data e.2.recv e.2.bytes e.2 := by
    simp only [answer, hb]
  have hchunk : resume listen_socket order (.event e todo) p (.data e.2.recv e.2.bytes e.2) = _ :=
    resume_recv_chunk hb h e.2.bytes e.2
  by_cases hlong : e.2.recv > RECV_BUFFER_LEN
  · rw [if_pos hlong] at hchunk
    exact ⟨2, visits_event hfd (fuel + 2) (hanswer ▸ hchunk)⟩
  · rw [if_neg hlong] at hchunk
    exact ⟨0, visits_event hfd (fuel + 2) (hanswer ▸ hchunk)⟩

variable (order todo) in
/-- A connection that is not admitted costs its event only. -/
theorem visits_refused (hfd : 0 ≤ e.1.fd) (hb : branch listen_socket e.1 = .accept)
    (h : ¬ Admitted e.2) (fuel : Nat) :
    ∃ k, visits listen_socket order (fuel + 3) (.event e todo) p =
      (e.1, due listen_socket e.1) ::
        visits listen_socket order (fuel + k) (.next todo) p.malloc.2 := by
  have hanswer : answer listen_socket (.event e todo) = .ret e.2.accept := by
    simp only [answer, hb]
  have haccept : resume listen_socket order (.event e todo) p (.ret e.2.accept) = _ :=
    resume_accept hb e.2.accept
  by_cases ha : e.2.accept < 0
  · rw [if_pos ha] at haccept
    exact ⟨2, visits_event hfd (fuel + 2) (hanswer ▸ haccept)⟩
  · rw [if_neg ha] at haccept
    have hadd : e.2.epoll_add_fd < 0 := by
      unfold Admitted at h
      omega
    refine ⟨1, ?_⟩
    rw [visits_event hfd (fuel + 2) (hanswer ▸ haccept), visits]
    · simp only [answer, resume, if_pos hadd]
      rfl
    · intro hwait
      cases hwait
    · intro e' todo' hevent
      cases hevent

/-- An admitted connection reaches `add_new_connection`. -/
theorem visits_admitted (hfd : 0 ≤ e.1.fd) (hb : branch listen_socket e.1 = .accept)
    (h : Admitted e.2) (fuel : Nat) :
    visits listen_socket order (fuel + 2) (.event e todo) p =
      (e.1, due listen_socket e.1) ::
        visits listen_socket order fuel (.registered e.2.accept e todo) p.malloc.2 := by
  have hanswer : answer listen_socket (.event e todo) = .ret e.2.accept := by
    simp only [answer, hb]
  have haccept : resume listen_socket order (.event e todo) p (.ret e.2.accept) = _ :=
    resume_accept hb e.2.accept
  rw [if_neg (by have := h.1; omega)] at haccept
  have hadd : ¬ e.2.epoll_add_fd < 0 := by
    have := h.2
    omega
  rw [visits_event hfd (fuel + 1) (hanswer ▸ haccept), visits]
  · simp only [answer, resume, if_neg hadd]
    rfl
  · intro hwait
    cases hwait
  · intro e' todo' hevent
    cases hevent

/-- With the mutex held the loop stays in `add_new_connection`. -/
theorem visits_registered_held (new_socket : Int) (h : p.mutex_locked = true) (fuel : Nat) :
    visits listen_socket order fuel (.registered new_socket e todo) p = [] := by
  obtain ⟨p', hp', -⟩ := addNewConnection_held order new_socket h
  match fuel with
  | 0 => rfl
  | 1 =>
      unfold visits resume answer
      simp [hp', visits]
  | fuel + 2 =>
      unfold visits resume answer
      simp only [hp']
      rfl

variable (listen_socket order e todo) in
/-- With the mutex free the loop goes on to the next event, one client further. -/
theorem visits_registered_free (new_socket : Int) (h : p.mutex_locked = false) (fuel : Nat) :
    ∃ p', Gate.of p' = ⟨p.global_connection_id + 1,
        decide (p.global_connection_id + 1 > maxConnections)⟩ ∧
      visits listen_socket order (fuel + 1) (.registered new_socket e todo) p
        = visits listen_socket order fuel (.next todo) p' := by
  obtain ⟨p', hp', hcount, hmutex⟩ := addNewConnection_free order new_socket h
  refine ⟨p', by rw [Gate.of, hcount, hmutex], ?_⟩
  rw [visits]
  · simp only [resume, hp', answer]
    rfl
  · intro hwait
    cases hwait
  · intro e' todo' hevent
    cases hevent

variable (order todo) in
/-- An event that lets the loop go on: three steps at most, and the next event. -/
theorem visits_goesOn (hfd : 0 ≤ e.1.fd) (hgo : GoesOn listen_socket (.of p) e) (fuel : Nat) :
    ∃ k p', Gate.of p' = (Gate.of p).after listen_socket e ∧
      visits listen_socket order (fuel + 3) (.event e todo) p =
        (e.1, due listen_socket e.1) ::
          visits listen_socket order (fuel + k) (.next todo) p' := by
  unfold GoesOn at hgo
  unfold Gate.after
  -- one case per branch of the loop body
  cases hb : branch listen_socket e.1 with
  | accept =>
      simp only [hb] at hgo
      by_cases ha : Admitted e.2
      · obtain ⟨p', hgate, hp'⟩ := visits_registered_free listen_socket order e todo
          (p := p.malloc.2) e.2.accept (hgo ha) fuel
        refine ⟨0, p', by rw [hgate, if_pos ha]; rfl, ?_⟩
        rw [visits_admitted hfd hb ha (fuel + 1), hp']
        rfl
      · -- not accepted or not registered: the lock is not reached
        obtain ⟨k, hk⟩ := visits_refused order todo (p := p) hfd hb ha fuel
        exact ⟨k, p.malloc.2, by rw [if_neg ha]; rfl, hk⟩
  | epollDelFd =>
      have hanswer : answer listen_socket (.event e todo) = .done := by
        simp only [answer, hb]
      refine ⟨2, (epollDelFd p.malloc.2 e.1.fd).free p.malloc.1, ?_, ?_⟩
      · show Gate.of (epollDelFd p.malloc.2 e.1.fd) = _
        rw [Gate.of, epollDelFd_count, epollDelFd_mutex]
        rfl
      · exact visits_event hfd (fuel + 2) (hanswer ▸ resume_hangup hb)
  | recv =>
      simp only [hb] at hgo
      obtain ⟨k, hk⟩ := visits_chunk order todo (p := p) hfd hb hgo fuel
      exact ⟨k, p.malloc.2, rfl, hk⟩
  | skip =>
      have hanswer : answer listen_socket (.event e todo) = .done := by
        simp only [answer, hb]
      exact ⟨2, p.malloc.2, rfl, visits_event hfd (fuel + 2) (hanswer ▸ resume_skip hb)⟩

/-- Any other event is the last one reached. -/
theorem visits_stops (hfd : 0 ≤ e.1.fd) (hstop : ¬ GoesOn listen_socket (.of p) e)
    (fuel : Nat) :
    visits listen_socket order (fuel + 3) (.event e todo) p
      = [(e.1, due listen_socket e.1)] := by
  unfold GoesOn at hstop
  cases hb : branch listen_socket e.1 with
  | accept =>
      simp only [hb, Classical.not_imp, Bool.not_eq_false] at hstop
      rw [visits_admitted hfd hb hstop.1, visits_registered_held (p := p.malloc.2) _ hstop.2]
  | recv =>
      simp only [hb] at hstop
      exact visits_break hfd hb (by omega) _
  | epollDelFd | skip =>
      simp only [hb] at hstop
      exact absurd trivial hstop

end OneEvent

/-! ## §4. The whole batch. -/

/-- **One batch.**  The loop reaches every event of a batch, and makes the call each is due,
exactly when every event but the last lets it go on: no `recv` of theirs returns zero or an
error, and no new client of theirs meets the mutex held. -/
theorem visits_eq_due_iff (listen_socket : Int) (order : IndexRead)
    (events : List (EpollEvent × Results)) (p : Proc) (hfd : ∀ e ∈ events, 0 ≤ e.1.fd)
    {fuel : Nat} (hfuel : 3 * events.length ≤ fuel) :
    visits listen_socket order fuel (.next events) p
        = events.map (fun e => (e.1, due listen_socket e.1))
      ↔ Uninterrupted listen_socket (.of p) events := by
  induction events generalizing p fuel with
  | nil => exact iff_of_true (visits_wait fuel) trivial
  | cons e todo ih =>
      have he := hfd e List.mem_cons_self
      have htodo : ∀ e' ∈ todo, 0 ≤ e'.1.fd := fun e' h' => hfd e' (List.mem_cons_of_mem e h')
      rw [List.length_cons] at hfuel
      obtain ⟨rest, rfl⟩ : ∃ rest, fuel = rest + 3 := ⟨fuel - 3, by omega⟩
      show visits listen_socket order (rest + 3) (.event e todo) p = _ ↔ _
      rw [List.map_cons, Uninterrupted]
      by_cases hgo : GoesOn listen_socket (.of p) e
      · obtain ⟨k, p', hgate, hvisits⟩ := visits_goesOn order todo he hgo rest
        rw [hvisits, List.cons.injEq, and_iff_right rfl, ih p' htodo (by omega), hgate]
        simp [hgo]
      · rw [visits_stops he hgo, List.cons.injEq, and_iff_right rfl]
        -- nothing behind this event is reached, so nothing may be behind it
        cases todo with
        | nil => simp [Uninterrupted]
        | cons e' todo => simp [hgo]

/-- A chunk, then a hang-up. -/
theorem visits_eq_due_hangup :
    visits 3 .after 6
        (.next [(⟨5, { epollin := true }⟩, ⟨0, 0, 4, [83, 83, 80, 0]⟩),
          (⟨6, { epollrdhup := true }⟩, ⟨0, 0, 0, []⟩)]) .init
      = [(⟨5, { epollin := true }⟩, due 3 ⟨5, { epollin := true }⟩),
          (⟨6, { epollrdhup := true }⟩, due 3 ⟨6, { epollrdhup := true }⟩)] :=
  (visits_eq_due_iff 3 .after _ .init (by decide) (by decide)).mpr
    ⟨.inr (show (0 : Int) < 4 by decide), .inl rfl, trivial⟩

/-- The end of file of client `5` costs client `6` its event. -/
theorem visits_after_eof :
    visits 3 .after 6
        (.next [(⟨5, { epollin := true }⟩, ⟨0, 0, 0, []⟩),
          (⟨6, { epollin := true }⟩, ⟨0, 0, 4, [83, 83, 80, 0]⟩)]) .init
      ≠ [(⟨5, { epollin := true }⟩, due 3 ⟨5, { epollin := true }⟩),
          (⟨6, { epollin := true }⟩, due 3 ⟨6, { epollin := true }⟩)] := by
  intro h
  have hlength := congrArg List.length h
  revert hlength
  decide

end SensorServer.Loop
