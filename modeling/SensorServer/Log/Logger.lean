/-
  SensorServer.Log.Logger — the logger, over all its calls.

  The logger holds up to 32 callbacks in an array whose first empty slot ends it.
  `log_log_delivers` says of any sequence of calls what a message then does: it is written to
  `stderr` and handed to the callbacks registered so far, in the order of their registration,
  each if the message is of its level, between one call of the lock function and another, and
  with one reading of the clock for all.  `log_add_callback_returns` says when a callback is
  refused.
-/
import Mathlib.Data.List.Induction

namespace SensorServer.Log

/-! ## §1. The state. -/

/-- `MAX_CALLBACKS`. -/
def MAX_CALLBACKS : Nat := 32

section Types

variable (F U : Type)

/-- A `log_LogFn`: the one `log_add_fp` registers, or one of the program's. -/
inductive LogFn where
  | fileCallback
  | program (fn : F)
  deriving Repr, DecidableEq

/-- `Callback`, a slot of the array; a slot is empty where `fn` is null. -/
structure Callback where
  fn : Option (LogFn F)
  udata : Option U
  level : Int

/-- `L`, with lock functions from `F`. -/
structure Logger where
  udata : Option U
  lock : Option F
  level : Int
  quiet : Bool
  callbacks : List (Callback F U)

/-- `L` before the first call: zeros. -/
def Logger.zero : Logger F U where
  udata := none
  lock := none
  level := 0
  quiet := false
  callbacks := List.replicate MAX_CALLBACKS ⟨none, none, 0⟩

end Types

/-- `log_Event`, with the text that `fmt` and `ap` make. -/
structure Event (U T : Type) where
  message : String
  file : String
  time : Option T
  udata : Option U
  line : Int
  level : Int

/-- What the logger does to the rest of the program. -/
inductive Out (F U T : Type) where
  /-- A call of the lock function. -/
  | lock (fn : F) (lock : Bool) (udata : Option U)
  /-- A line printed to a stream and flushed; `none` where the level has no name. -/
  | print (stream : Option U) (text : Option String)
  /-- A call of a callback of the program. -/
  | call (fn : F) (ev : Event U T)

/-- The world of the logger: its error stream, the clock, reading by reading, and the formats of a
time. -/
structure World (U T : Type) where
  stderr : U
  clock : Nat → T
  strftime : String → T → String

/-! ## §2. The functions. -/

/-- `level_strings`. -/
def levelStrings : List String := ["TRACE", "DEBUG", "INFO", "WARN", "ERROR", "FATAL"]

/-- `log_level_string(level)`; `none` outside the table. -/
def logLevelString (level : Int) : Option String :=
  if 0 ≤ level then levelStrings[level.toNat]? else none

section Functions

variable {F U T : Type} (w : World U T)

/-- The conversion `%-5s`. -/
def padded (s : String) : String := s ++ String.ofList (List.replicate (5 - s.length) ' ')

/-- The line the callbacks of the logger print, with the time in a format. -/
def printed (format : String) (ev : Event U T) : Option String :=
  match ev.time, logLevelString ev.level with
  | some time, some level =>
      some (w.strftime format time ++ " " ++ padded level ++ " " ++ ev.file ++ ":"
        ++ toString ev.line ++ ": " ++ ev.message ++ "\n")
  | _, _ => none

/-- `stdout_callback(ev)`, without colours. -/
def stdoutCallback (ev : Event U T) : Out F U T := .print ev.udata (printed w "%H:%M:%S" ev)

/-- `file_callback(ev)`. -/
def fileCallback (ev : Event U T) : Out F U T :=
  .print ev.udata (printed w "%Y-%m-%d %H:%M:%S" ev)

/-- `cb->fn(&ev)`. -/
def LogFn.call (ev : Event U T) : LogFn F → Out F U T
  | .fileCallback => Log.fileCallback w ev
  | .program fn => .call fn ev

/-- `init_event(ev, udata)`; `k` readings of the clock have been taken. -/
def initEvent (k : Nat) (ev : Event U T) (udata : Option U) : Nat × Event U T :=
  match ev.time with
  | none => (k + 1, { ev with time := some (w.clock k), udata := udata })
  | some _ => (k, { ev with udata := udata })

/-- The loop of `log_log` over the callbacks. -/
def deliver (level : Int) : List (Callback F U) → Nat → Event U T → Nat × List (Out F U T)
  | [], k, _ => (k, [])
  | cb :: cbs, k, ev =>
      match cb.fn with
      | none => (k, [])
      | some fn =>
          if level ≥ cb.level then
            let (k, ev) := initEvent w k ev cb.udata
            let (k, outs) := deliver level cbs k ev
            (k, fn.call w ev :: outs)
          else deliver level cbs k ev

/-- `lock()` and `unlock()`. -/
def lock (L : Logger F U) (enable : Bool) : List (Out F U T) :=
  match L.lock with
  | some fn => [.lock fn enable L.udata]
  | none => []

/-- `log_log(level, file, line, fmt, ..)`: the readings of the clock after it, and what it does. -/
def logLog (L : Logger F U) (k : Nat) (level : Int) (file : String) (line : Int)
    (message : String) : Nat × List (Out F U T) :=
  let ev : Event U T := ⟨message, file, none, none, line, level⟩
  if !L.quiet ∧ level ≥ L.level then
    let (k, ev) := initEvent w k ev (some w.stderr)
    let (k', outs) := deliver w level L.callbacks k ev
    (k', lock L true ++ stdoutCallback w ev :: outs ++ lock L false)
  else
    let (k', outs) := deliver w level L.callbacks k ev
    (k', lock L true ++ outs ++ lock L false)

/-- The loop of `log_add_callback`: the first empty slot is filled. -/
def fill (cb : Callback F U) : List (Callback F U) → Option (List (Callback F U))
  | [] => none
  | c :: cs => if c.fn.isNone then some (cb :: cs) else (fill cb cs).map (c :: ·)

/-- `log_add_callback(fn, udata, level)`: what it returns, and the logger it leaves. -/
def logAddCallback (L : Logger F U) (fn : Option (LogFn F)) (udata : Option U) (level : Int) :
    Int × Logger F U :=
  match fill ⟨fn, udata, level⟩ L.callbacks with
  | some callbacks => (0, { L with callbacks := callbacks })
  | none => (-1, L)

/-- `log_add_fp(fp, level)`. -/
def logAddFp (L : Logger F U) (fp : Option U) (level : Int) : Int × Logger F U :=
  logAddCallback L (some .fileCallback) fp level

/-- A call that sets up the logger. -/
inductive SetUp (F U : Type) where
  | logSetLock (fn : Option F) (udata : Option U)
  | logSetLevel (level : Int)
  | logSetQuiet (enable : Bool)
  | logAddCallback (fn : Option (LogFn F)) (udata : Option U) (level : Int)
  | logAddFp (fp : Option U) (level : Int)

/-- The logger a call leaves. -/
def SetUp.next : SetUp F U → Logger F U → Logger F U
  | .logSetLock fn udata, L => { L with lock := fn, udata := udata }
  | .logSetLevel level, L => { L with level := level }
  | .logSetQuiet enable, L => { L with quiet := enable }
  | .logAddCallback fn udata level, L => (Log.logAddCallback L fn udata level).2
  | .logAddFp fp level, L => (Log.logAddFp L fp level).2

/-- The logger after some calls.  `log_log` changes nothing in it. -/
def after (calls : List (SetUp F U)) : Logger F U :=
  calls.foldl (fun L call => call.next L) (Logger.zero F U)

end Functions

/-! ## §3. What the calls ask for. -/

section Asked

variable {F U : Type}

/-- A callback that is registered. -/
structure Sink (F U : Type) where
  fn : LogFn F
  udata : Option U
  level : Int

/-- The registration a call asks for; a null callback is none. -/
def SetUp.sink : SetUp F U → Option (Sink F U)
  | .logAddCallback (some fn) udata level => some ⟨fn, udata, level⟩
  | .logAddFp fp level => some ⟨.fileCallback, fp, level⟩
  | _ => none

/-- The callbacks registered: the first 32 that were asked for. -/
def sinks (calls : List (SetUp F U)) : List (Sink F U) :=
  (calls.filterMap SetUp.sink).take MAX_CALLBACKS

/-- The lock function and its argument once a call is made. -/
def SetUp.lockOr (old : Option F × Option U) : SetUp F U → Option F × Option U
  | .logSetLock fn udata => (fn, udata)
  | _ => old

/-- The level once a call is made. -/
def SetUp.levelOr (old : Int) : SetUp F U → Int
  | .logSetLevel level => level
  | _ => old

/-- Whether the logger is quiet once a call is made. -/
def SetUp.quietOr (old : Bool) : SetUp F U → Bool
  | .logSetQuiet enable => enable
  | _ => old

/-- What the calls set last. -/
def lastLock (calls : List (SetUp F U)) : Option F × Option U :=
  calls.foldl SetUp.lockOr (none, none)

def lastLevel (calls : List (SetUp F U)) : Int := calls.foldl SetUp.levelOr 0

def lastQuiet (calls : List (SetUp F U)) : Bool := calls.foldl SetUp.quietOr false

/-- The slot a registered callback is in. -/
def Sink.slot (s : Sink F U) : Callback F U := ⟨some s.fn, s.udata, s.level⟩

/-- The logger is as the calls have left it: its array begins with the callbacks registered, and
is empty after them. -/
structure Stands (calls : List (SetUp F U)) (L : Logger F U) : Prop where
  lock : (L.lock, L.udata) = lastLock calls
  level : L.level = lastLevel calls
  quiet : L.quiet = lastQuiet calls
  callbacks : ∃ rest, L.callbacks = (sinks calls).map Sink.slot ++ rest ∧ ∀ c ∈ rest, c.fn = none
  length : L.callbacks.length = MAX_CALLBACKS

/-- The callbacks that a loop over the array comes to: those before its first empty slot. -/
def registered (callbacks : List (Callback F U)) : List (Callback F U) :=
  callbacks.takeWhile fun c => c.fn.isSome

variable {calls : List (SetUp F U)} {call : SetUp F U}

/-- The array holds the callbacks that were asked for. -/
theorem Stands.registered_eq {L : Logger F U} (h : Stands calls L) :
    registered L.callbacks = (sinks calls).map Sink.slot := by
  obtain ⟨rest, hcallbacks, hrest⟩ := h.callbacks
  have hslots : ∀ c ∈ (sinks calls).map Sink.slot, c.fn.isSome = true := by
    intro c hc
    obtain ⟨s, -, rfl⟩ := List.mem_map.mp hc
    rfl
  have hempty : rest.takeWhile (fun c => c.fn.isSome) = [] := by
    cases rest with
    | nil => rfl
    | cons c cs =>
        rw [List.takeWhile_cons_of_neg]
        rw [hrest c List.mem_cons_self]
        exact Bool.false_ne_true
  unfold registered
  rw [hcallbacks, List.takeWhile_append_of_pos hslots, hempty, List.append_nil]

theorem sinks_of_none (h : call.sink = none) : sinks (calls ++ [call]) = sinks calls := by
  unfold sinks
  rw [List.filterMap_append, List.filterMap_cons, h, List.filterMap_nil, List.append_nil]

/-- A registration while there is room. -/
theorem sinks_of_room {s : Sink F U} (h : call.sink = some s)
    (hroom : (sinks calls).length < MAX_CALLBACKS) :
    sinks (calls ++ [call]) = sinks calls ++ [s] := by
  have hlength : (sinks calls).length = min MAX_CALLBACKS (calls.filterMap SetUp.sink).length :=
    List.length_take
  have hlast : [s].take (MAX_CALLBACKS - (calls.filterMap SetUp.sink).length) = [s] := by
    apply List.take_of_length_le
    rw [List.length_singleton]
    omega
  unfold sinks
  rw [List.filterMap_append, List.filterMap_cons, h, List.filterMap_nil, List.take_append, hlast]

/-- A registration without room. -/
theorem sinks_of_full (hfull : (sinks calls).length = MAX_CALLBACKS) :
    sinks (calls ++ [call]) = sinks calls := by
  unfold sinks at hfull ⊢
  rw [List.length_take] at hfull
  rw [List.filterMap_append, List.take_append_of_le_length (by omega)]

/-- The loop passes the callbacks registered and fills the slot after them. -/
theorem fill_sinks (cb : Callback F U) (ss : List (Sink F U)) (rest : List (Callback F U))
    (hrest : ∀ c ∈ rest, c.fn = none) :
    fill cb (ss.map Sink.slot ++ rest) =
      match rest with
      | [] => none
      | _ :: cs => some (ss.map Sink.slot ++ cb :: cs) := by
  induction ss with
  | nil =>
      cases rest with
      | nil => rfl
      | cons c cs =>
          have hc : c.fn = none := hrest c List.mem_cons_self
          show (if c.fn.isNone then some (cb :: cs) else (fill cb cs).map (c :: ·)) = _
          rw [hc]
          rfl
  | cons s ss ih =>
      show (fill cb (ss.map Sink.slot ++ rest)).map (s.slot :: ·) = _
      rw [ih]
      cases rest <;> rfl

/-- Registering: what is returned, and the array after it. -/
theorem logAddCallback_cases {L : Logger F U} (h : Stands calls L) (fn : Option (LogFn F))
    (udata : Option U) (level : Int) :
    ((sinks calls).length = MAX_CALLBACKS ∧ logAddCallback L fn udata level = (-1, L))
      ∨ ((sinks calls).length < MAX_CALLBACKS
        ∧ ∃ c cs, L.callbacks = (sinks calls).map Sink.slot ++ c :: cs ∧ (∀ c ∈ cs, c.fn = none)
          ∧ logAddCallback L fn udata level
            = (0,
              { L with callbacks := (sinks calls).map Sink.slot ++ ⟨fn, udata, level⟩ :: cs })) := by
  obtain ⟨rest, hcallbacks, hrest⟩ := h.callbacks
  have hfill := fill_sinks ⟨fn, udata, level⟩ (sinks calls) rest hrest
  have hlength := h.length
  rw [hcallbacks, List.length_append, List.length_map] at hlength
  rw [← hcallbacks] at hfill
  cases rest with
  | nil =>
      left
      refine ⟨hlength, ?_⟩
      unfold logAddCallback
      rw [hfill]
  | cons c cs =>
      right
      rw [List.length_cons] at hlength
      refine ⟨by omega, c, cs, hcallbacks, fun c hc => hrest c (List.mem_cons_of_mem _ hc), ?_⟩
      unfold logAddCallback
      rw [hfill]

theorem stands_zero : Stands [] (Logger.zero F U) where
  lock := rfl
  level := rfl
  quiet := rfl
  callbacks := by
    refine ⟨List.replicate MAX_CALLBACKS ⟨none, none, 0⟩, rfl, ?_⟩
    intro c hc
    rw [List.eq_of_mem_replicate hc]
  length := List.length_replicate

/-- What a registration leaves, whether there was room or not, and whether it was of a null
callback or not. -/
theorem Stands.add {L : Logger F U} (h : Stands calls L) {fn : Option (LogFn F)}
    {udata : Option U} {level : Int} {call : SetUp F U}
    (hsink : call.sink = fn.map fun fn => ⟨fn, udata, level⟩)
    (hlock : lastLock (calls ++ [call]) = lastLock calls)
    (hlevel : lastLevel (calls ++ [call]) = lastLevel calls)
    (hquiet : lastQuiet (calls ++ [call]) = lastQuiet calls) :
    Stands (calls ++ [call]) (logAddCallback L fn udata level).2 := by
  rcases logAddCallback_cases h fn udata level with ⟨hfull, heq⟩ | ⟨hroom, c, cs, hold, hcs, heq⟩
  · rw [heq]
    -- no slot is free: nothing is registered, in the array or in the list
    exact ⟨hlock ▸ h.lock, hlevel ▸ h.level, hquiet ▸ h.quiet, (sinks_of_full hfull) ▸ h.callbacks,
      h.length⟩
  · rw [heq]
    have hlength := h.length
    rw [hold] at hlength
    refine ⟨hlock ▸ h.lock, hlevel ▸ h.level, hquiet ▸ h.quiet, ?_, ?_⟩
    · cases fn with
      | none =>
          -- a null callback fills the slot with what it held
          rw [sinks_of_none hsink]
          refine ⟨_, rfl, ?_⟩
          intro c hc
          rcases List.mem_cons.mp hc with rfl | hc
          · rfl
          · exact hcs c hc
      | some fn =>
          rw [sinks_of_room hsink hroom, List.map_append]
          refine ⟨cs, ?_, hcs⟩
          rw [List.append_assoc]
          rfl
    · rw [← hlength]
      simp only [List.length_append, List.length_cons]

/-- **The invariant**: it holds after any calls. -/
theorem stands_after (calls : List (SetUp F U)) : Stands calls (after calls) := by
  induction calls using List.reverseRecOn with
  | nil => exact stands_zero
  | append_singleton calls call ih =>
      have hafter : after (calls ++ [call]) = call.next (after calls) := List.foldl_append
      have hlock : lastLock (calls ++ [call]) = call.lockOr (lastLock calls) :=
        List.foldl_append
      have hlevel : lastLevel (calls ++ [call]) = call.levelOr (lastLevel calls) :=
        List.foldl_append
      have hquiet : lastQuiet (calls ++ [call]) = call.quietOr (lastQuiet calls) :=
        List.foldl_append
      have hsinks : call.sink = none → sinks (calls ++ [call]) = sinks calls := sinks_of_none
      rw [hafter]
      cases call with
      | logSetLock fn udata =>
          exact ⟨hlock.symm, ih.level.trans hlevel.symm, ih.quiet.trans hquiet.symm,
            hsinks rfl ▸ ih.callbacks, ih.length⟩
      | logSetLevel level =>
          exact ⟨ih.lock.trans hlock.symm, hlevel.symm, ih.quiet.trans hquiet.symm,
            hsinks rfl ▸ ih.callbacks, ih.length⟩
      | logSetQuiet enable =>
          exact ⟨ih.lock.trans hlock.symm, ih.level.trans hlevel.symm, hquiet.symm,
            hsinks rfl ▸ ih.callbacks, ih.length⟩
      | logAddCallback fn udata level =>
          apply ih.add _ hlock hlevel hquiet
          cases fn <;> rfl
      | logAddFp fp level => exact ih.add rfl hlock hlevel hquiet

end Asked

/-! ## §4. What a message does. -/

section Messages

variable {F U T : Type} (w : World U T)

/-- The callbacks registered that want messages of a level. -/
def wanting (level : Int) (ss : List (Sink F U)) : List (Sink F U) :=
  ss.filter fun s => s.level ≤ level

theorem wanting_cons_pos {level : Int} {s : Sink F U} (h : s.level ≤ level)
    (ss : List (Sink F U)) : wanting level (s :: ss) = s :: wanting level ss :=
  List.filter_cons_of_pos (decide_eq_true h)

theorem wanting_cons_neg {level : Int} {s : Sink F U} (h : ¬ s.level ≤ level)
    (ss : List (Sink F U)) : wanting level (s :: ss) = wanting level ss :=
  List.filter_cons_of_neg (fun hd => h (of_decide_eq_true hd))

/-- The call of a registered callback on an event. -/
def Sink.hears (s : Sink F U) (ev : Event U T) : Out F U T :=
  s.fn.call w { ev with udata := s.udata }

/-- One callback of the loop that wants the message. -/
theorem deliver_cons_pos {level : Int} {s : Sink F U} (h : s.level ≤ level)
    (cbs : List (Callback F U)) (k : Nat) (ev : Event U T) :
    deliver w level (s.slot :: cbs) k ev =
      ((deliver w level cbs (initEvent w k ev s.udata).1 (initEvent w k ev s.udata).2).1,
        s.fn.call w (initEvent w k ev s.udata).2
          :: (deliver w level cbs (initEvent w k ev s.udata).1
            (initEvent w k ev s.udata).2).2) :=
  if_pos h

/-- One that does not. -/
theorem deliver_cons_neg {level : Int} {s : Sink F U} (h : ¬ s.level ≤ level)
    (cbs : List (Callback F U)) (k : Nat) (ev : Event U T) :
    deliver w level (s.slot :: cbs) k ev = deliver w level cbs k ev :=
  if_neg h

/-- The loop ends at the first empty slot. -/
theorem deliver_empty (level : Int) {rest : List (Callback F U)} (hrest : ∀ c ∈ rest, c.fn = none)
    (k : Nat) (ev : Event U T) : deliver w level rest k ev = (k, ([] : List (Out F U T))) := by
  cases rest with
  | nil => rfl
  | cons c cs =>
      have hc : c.fn = none := hrest c List.mem_cons_self
      unfold deliver
      rw [hc]

/-- The loop over an event that has its time: the clock is not read again. -/
theorem deliver_timed (level : Int) (ss : List (Sink F U)) {rest : List (Callback F U)}
    (hrest : ∀ c ∈ rest, c.fn = none) (k : Nat) (ev : Event U T) {time : T}
    (htime : ev.time = some time) :
    deliver w level (ss.map Sink.slot ++ rest) k ev
      = (k, (wanting level ss).map fun s => s.hears w ev) := by
  induction ss generalizing ev with
  | nil => exact deliver_empty w level hrest k ev
  | cons s ss ih =>
      rw [List.map_cons, List.cons_append]
      by_cases h : s.level ≤ level
      · have hinit : initEvent w k ev s.udata = (k, { ev with udata := s.udata }) := by
          unfold initEvent
          rw [htime]
        have hlater := ih { ev with udata := s.udata } htime
        rw [deliver_cons_pos w h, hinit, hlater, wanting_cons_pos h]
        rfl
      · rw [deliver_cons_neg w h, ih ev htime, wanting_cons_neg h]

/-- The loop over an event without a time: the first callback that wants it gets the clock
read. -/
theorem deliver_untimed (level : Int) (ss : List (Sink F U)) {rest : List (Callback F U)}
    (hrest : ∀ c ∈ rest, c.fn = none) (k : Nat) (ev : Event U T) (htime : ev.time = none) :
    deliver w level (ss.map Sink.slot ++ rest) k ev
      = (if wanting level ss = [] then k else k + 1,
          (wanting level ss).map fun s => s.hears w { ev with time := some (w.clock k) }) := by
  induction ss with
  | nil => exact deliver_empty w level hrest k ev
  | cons s ss ih =>
      rw [List.map_cons, List.cons_append]
      by_cases h : s.level ≤ level
      · have hinit : initEvent w k ev s.udata
            = (k + 1, { ev with time := some (w.clock k), udata := s.udata }) := by
          unfold initEvent
          rw [htime]
        have hlater := deliver_timed w level ss hrest (k + 1)
          { ev with time := some (w.clock k), udata := s.udata } rfl
        rw [deliver_cons_pos w h, hinit, hlater, wanting_cons_pos h, if_neg (List.cons_ne_nil _ _)]
        rfl
      · rw [deliver_cons_neg w h, ih, wanting_cons_neg h]

/-- What a message does between the calls of the lock function, given what the calls before it have
set up; `ev` has its time. -/
def effects (calls : List (SetUp F U)) (ev : Event U T) : List (Out F U T) :=
  (if lastQuiet calls = false ∧ lastLevel calls ≤ ev.level then
      [stdoutCallback w { ev with udata := some w.stderr }]
    else [])
    ++ (wanting ev.level (sinks calls)).map fun s => s.hears w ev

theorem effects_shown {calls : List (SetUp F U)} {ev : Event U T}
    (h : lastQuiet calls = false ∧ lastLevel calls ≤ ev.level) :
    effects w calls ev = stdoutCallback w { ev with udata := some w.stderr }
      :: (wanting ev.level (sinks calls)).map fun s => s.hears w ev := by
  unfold effects
  rw [if_pos h]
  rfl

theorem effects_silent {calls : List (SetUp F U)} {ev : Event U T}
    (h : ¬ (lastQuiet calls = false ∧ lastLevel calls ≤ ev.level)) :
    effects w calls ev = (wanting ev.level (sinks calls)).map fun s => s.hears w ev := by
  unfold effects
  rw [if_neg h]
  rfl

/-- A call of the lock function that was set last. -/
def locking (calls : List (SetUp F U)) (enable : Bool) : List (Out F U T) :=
  match lastLock calls with
  | (some fn, udata) => [.lock fn enable udata]
  | (none, _) => []

theorem lock_eq {calls : List (SetUp F U)} {L : Logger F U} (h : Stands calls L) (enable : Bool) :
    (lock L enable : List (Out F U T)) = locking calls enable := by
  unfold lock locking
  rw [← h.lock]
  cases L.lock <;> rfl

/-- **What a message does**, after any calls: it is printed to `stderr` unless the logger is quiet
or its level is too low, and heard by those of the first 32 callbacks registered whose level is not
above its own, in the order of their registration; all between the two calls of the lock function,
and with one time, read once and only if somebody hears of the message. -/
theorem log_log_delivers (calls : List (SetUp F U)) (k : Nat) (level : Int) (file : String)
    (line : Int) (message : String) :
    logLog w (after calls) k level file line message
      = (if effects w calls ⟨message, file, some (w.clock k), none, line, level⟩ = [] then k
          else k + 1,
        locking calls true
          ++ effects w calls ⟨message, file, some (w.clock k), none, line, level⟩
          ++ locking calls false) := by
  have h := stands_after calls
  obtain ⟨rest, hcallbacks, hrest⟩ := h.callbacks
  have hown : (!(after calls).quiet) = true ∧ level ≥ (after calls).level
      ↔ lastQuiet calls = false ∧ lastLevel calls ≤ level := by
    rw [h.quiet, h.level, Bool.not_eq_true']
  unfold logLog
  rw [lock_eq h, lock_eq h, hcallbacks]
  by_cases hshown : lastQuiet calls = false ∧ lastLevel calls ≤ level
  · -- shown on `stderr`: the clock is read there, and the callbacks find the time set
    have hinit : initEvent w k ⟨message, file, none, none, line, level⟩ (some w.stderr)
        = (k + 1, ⟨message, file, some (w.clock k), some w.stderr, line, level⟩) := rfl
    have hlater := deliver_timed w level (sinks calls) hrest (k + 1)
      ⟨message, file, some (w.clock k), some w.stderr, line, level⟩ rfl
    rw [if_pos (hown.mpr hshown), hinit]
    dsimp only
    rw [hlater, effects_shown w hshown, if_neg (List.cons_ne_nil _ _)]
    rfl
  · -- not shown: the first callback that hears of the message reads the clock
    have hlater := deliver_untimed w level (sinks calls) hrest k
      ⟨message, file, none, none, line, level⟩ rfl
    rw [if_neg (fun hd => hshown (hown.mp hd))]
    dsimp only
    rw [hlater, effects_silent w hshown]
    exact Prod.ext (if_congr List.map_eq_nil_iff.symm rfl rfl) rfl

/-- **When a callback is refused**, after any calls: exactly if 32 callbacks are registered, and
then nothing changes, neither what is registered nor the array.  A null callback is not registered,
but not refused either. -/
theorem log_add_callback_returns (calls : List (SetUp F U)) (fn : Option (LogFn F))
    (udata : Option U) (level : Int) :
    ((logAddCallback (after calls) fn udata level).1
        = if (sinks calls).length < MAX_CALLBACKS then 0 else -1)
      ∧ sinks (calls ++ [.logAddCallback fn udata level])
        = (if (sinks calls).length < MAX_CALLBACKS then
            sinks calls ++ (fn.map fun fn => ⟨fn, udata, level⟩).toList
          else sinks calls)
      ∧ registered (after calls).callbacks = (sinks calls).map Sink.slot
      ∧ registered (logAddCallback (after calls) fn udata level).2.callbacks
        = if (sinks calls).length < MAX_CALLBACKS then
            registered (after calls).callbacks ++ (fn.map fun fn => ⟨some fn, udata, level⟩).toList
          else registered (after calls).callbacks := by
  have hsink : (SetUp.logAddCallback fn udata level).sink
      = fn.map fun fn => ⟨fn, udata, level⟩ := by
    cases fn <;> rfl
  have hbefore := (stands_after calls).registered_eq
  -- the logger after the call stands for the calls with this one
  have hnext : after (calls ++ [.logAddCallback fn udata level])
      = (logAddCallback (after calls) fn udata level).2 := List.foldl_append
  have hafter := (stands_after (calls ++ [.logAddCallback fn udata level])).registered_eq
  rw [hnext] at hafter
  rw [hafter, hbefore]
  rcases logAddCallback_cases (stands_after calls) fn udata level with
    ⟨hfull, heq⟩ | ⟨hroom, c, cs, -, -, heq⟩
  · rw [heq, if_neg (by omega), if_neg (by omega), if_neg (by omega), sinks_of_full hfull]
    exact ⟨rfl, rfl, rfl, rfl⟩
  · rw [heq, if_pos hroom, if_pos hroom, if_pos hroom]
    cases fn with
    | none =>
        rw [sinks_of_none hsink]
        exact ⟨rfl, (List.append_nil _).symm, rfl, (List.append_nil _).symm⟩
    | some fn =>
        rw [sinks_of_room hsink hroom, List.map_append]
        exact ⟨rfl, rfl, rfl, rfl⟩

end Messages

end SensorServer.Log
