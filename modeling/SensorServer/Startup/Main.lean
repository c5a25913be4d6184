/-
  SensorServer.Startup.Main — from the command line to the address that is bound.

  `main` reads its options into an array of 15 bytes and an `int`, neither of which it
  initialises, checks that the one holds a string of 7 characters or more and the other a
  positive number, and starts the server on them.  `starts_as_asked_iff` says for which
  options it then listens where it was told to.
-/
import SensorServer.Framework.CString
import SensorServer.Framework.GetOpt

namespace SensorServer.Startup

open SensorServer.Framework

/-! ## §1. The address that is bound. -/

/-- `struct sockaddr_in`; the port and the address in network order. -/
structure SockAddrIn where
  sin_family : Nat
  sin_port : Nat
  sin_addr : Nat
  deriving Repr, DecidableEq

def AF_INET : Nat := 2

/-- The bytes of a 16-bit number swapped. -/
def swapBytes (n : Nat) : Nat := n % 256 * 256 + n / 256 % 256

/-- `htons` of an `int`, on a little-endian machine: the low 16 bits, swapped. -/
def htons (port : Int) : Nat := swapBytes (port % 65536).toNat

/-- `ntohs`: a port read back from network order. -/
def ntohs (sin_port : Nat) : Nat := swapBytes sin_port

theorem swapBytes_swapBytes {n : Nat} (h : n < 65536) : swapBytes (swapBytes n) = n := by
  have hhigh : n / 256 % 256 = n / 256 := Nat.mod_eq_of_lt (by omega)
  have hlow : (n % 256 * 256 + n / 256) % 256 = n / 256 := by omega
  have hquot : (n % 256 * 256 + n / 256) / 256 = n % 256 := by omega
  unfold swapBytes
  rw [hhigh, hlow, hquot]
  omega

/-- What comes back from network order is the port without its higher bits. -/
theorem ntohs_htons (port : Int) : (ntohs (htons port) : Int) = port % 65536 := by
  unfold ntohs htons
  rw [swapBytes_swapBytes (by omega)]
  omega

/-- `struct sockaddr_in local`, as `init_socket` fills it. -/
def localAddr (inetAddr : CString → Nat) (ip : CString) (port : Int) : SockAddrIn :=
  ⟨AF_INET, htons port, inetAddr ip⟩

/-! ## §2. `main`. -/

/-- `char ip[15]`. -/
def IP_SIZE : Nat := 15

/-- What `main` finds in memory it has not initialised or does not own. -/
structure MainResidue where
  /-- The stack from the first byte of `ip` on, before anything is written there. -/
  stack : List UInt8
  /-- `port` before it is assigned. -/
  port : Int
  /-- What `port` holds after a string that does not fit was copied to `ip`; `none` when the
  process does not outlive the copy. -/
  overrun : CString → Int → Option Int

/-- The variables of `main`. -/
structure Locals where
  stack : List UInt8
  port : Int
  /-- A write went beyond `ip`. -/
  beyond : Bool
  deriving DecidableEq

/-- The process ends before it reaches `start_tcp_server`. -/
inductive Stop where
  | exit (code : Nat)
  | fault
  deriving Repr, DecidableEq

/-- The call `start_tcp_server(ip, port)`, and whether a write went beyond `ip` before it. -/
structure Started where
  ip : CString
  port : Int
  beyond : Bool
  deriving DecidableEq

/-- The characters `h` and `p`, and the dash. -/
def optHost : CChar := ⟨104, by decide⟩
def optPort : CChar := ⟨112, by decide⟩
def dash : CChar := ⟨45, by decide⟩

/-- The option string `"h:p:"`: both options take a value. -/
def optstring (c : CChar) : Option Bool := if c = optHost ∨ c = optPort then some true else none

/-- `getopt(argc, argv, "h:p:")`, call after call.  The first argument is the program's name. -/
def getopt (posix : Bool) (argv : List CString) : List (Opt CChar) :=
  GetOpt.scan dash optstring posix none argv.tail

/-- `strcpy(ip, optarg)`. -/
def strcpyIp (ρ : MainResidue) (optarg : CString) (l : Locals) : Except Stop Locals :=
  let stack := optarg.memory ++ l.stack.drop optarg.memory.length
  if optarg.memory.length ≤ IP_SIZE then .ok { l with stack := stack }
  else
    match ρ.overrun optarg l.port with
    | none => .error .fault
    | some port => .ok { stack := stack, port := port, beyond := true }

/-- The `while` loop over the options. -/
def readOptions (ρ : MainResidue) : List (Opt CChar) → Locals → Except Stop Locals
  | [], l => .ok l
  | .value c optarg :: opts, l =>
      if c = optHost then strcpyIp ρ optarg l >>= readOptions ρ opts
      else if c = optPort then readOptions ρ opts { l with port := CString.atoi optarg }
      else .error (.exit 1)
  | _ :: _, _ => .error (.exit 1)

/-- `main`, up to the call of `start_tcp_server`. -/
def main (ρ : MainResidue) (posix : Bool) (argv : List CString) : Except Stop Started := do
  let l ← readOptions ρ (getopt posix argv) { stack := ρ.stack, port := ρ.port, beyond := false }
  match CString.read l.stack with
  | none => .error .fault
  | some ip =>
      if ip.length < 7 ∨ l.port < 1 then .error (.exit 1)
      else .ok { ip := ip, port := l.port, beyond := l.beyond }

/-! ## §3. What the options leave. -/

/-- The values of the `-h` and of the `-p` options. -/
def hosts (opts : List (Opt CChar)) : List CString := GetOpt.values optHost opts
def ports (opts : List (Opt CChar)) : List CString := GetOpt.values optPort opts

/-- One of the two options, with a value. -/
def IsOption (o : Opt CChar) : Prop := ∃ s, o = .value optHost s ∨ o = .value optPort s

/-- The string at `ip` after the options: the last `-h` value, or what the stack held. -/
def ipLeft (ρ : MainResidue) (opts : List (Opt CChar)) : Option CString :=
  (hosts opts).getLast?.or (CString.read ρ.stack)

/-- `port` after the options: the last `-p` counts, unless an over-long `-h` value comes after
it; without a `-p`, what `port` held. -/
def portLeft (ρ : MainResidue) : Int → List (Opt CChar) → Option Int
  | port, [] => some port
  | port, .value c s :: opts =>
      if c = optHost then
        if s.length < IP_SIZE then portLeft ρ port opts
        else (ρ.overrun s port).bind fun port' => portLeft ρ port' opts
      else if c = optPort then portLeft ρ (CString.atoi s) opts
      else portLeft ρ port opts
  | port, _ :: opts => portLeft ρ port opts

/-- `main` gets through to `start_tcp_server`: only options with values, an address of seven
characters or more, a positive port. -/
def GetsThrough (ρ : MainResidue) (opts : List (Opt CChar)) : Prop :=
  (∀ o ∈ opts, IsOption o) ∧ (∃ ip, ipLeft ρ opts = some ip ∧ 7 ≤ ip.length)
    ∧ ∃ port, portLeft ρ ρ.port opts = some port ∧ 1 ≤ port

/-- Both options are given, every address fits with its terminator, and the last port is one. -/
def AsksWell (opts : List (Opt CChar)) : Prop :=
  (∀ host ∈ hosts opts, host.length < IP_SIZE) ∧ hosts opts ≠ []
    ∧ ∃ port, (ports opts).getLast? = some port ∧ 1 ≤ port.number ∧ port.number ≤ 65535

section Options

variable {ρ : MainResidue} {opts : List (Opt CChar)}

theorem optPort_ne_optHost : optPort ≠ optHost := by decide

@[simp] theorem hosts_cons_host (s : CString) : hosts (.value optHost s :: opts) = s :: hosts opts :=
  GetOpt.values_cons_self optHost s opts

@[simp] theorem hosts_cons_port (s : CString) : hosts (.value optPort s :: opts) = hosts opts :=
  GetOpt.values_cons_of_ne optPort_ne_optHost s opts

@[simp] theorem ports_cons_port (s : CString) : ports (.value optPort s :: opts) = s :: ports opts :=
  GetOpt.values_cons_self optPort s opts

@[simp] theorem ports_cons_host (s : CString) : ports (.value optHost s :: opts) = ports opts :=
  GetOpt.values_cons_of_ne optPort_ne_optHost.symm s opts

/-- The last value of a list with one more in front. -/
theorem getLast?_cons_or {s : CString} {ss : List CString} {old : Option CString} :
    (s :: ss).getLast?.or old = ss.getLast?.or (some s) := by
  rw [List.getLast?_cons]
  cases ss.getLast? <;> rfl

/-- What `port` holds after a string was copied to `ip`. -/
def portCopied (ρ : MainResidue) (s : CString) (port : Int) : Option Int :=
  if s.length < IP_SIZE then some port else ρ.overrun s port

/-- A copy that is outlived: the string is at `ip`, its terminator beyond it if it does not
fit. -/
theorem strcpyIp_eq (ρ : MainResidue) (s : CString) (l : Locals) :
    strcpyIp ρ s l =
      match portCopied ρ s l.port with
      | none => .error .fault
      | some port =>
          .ok ⟨CString.memory s ++ l.stack.drop (s.length + 1), port,
            l.beyond || decide (¬ s.length < IP_SIZE)⟩ := by
  unfold strcpyIp portCopied
  simp only [CString.length_memory]
  by_cases hfits : s.length < IP_SIZE
  · rw [if_pos (by omega), if_pos hfits]
    simp [hfits]
  · rw [if_neg (by omega), if_neg hfits]
    cases ρ.overrun s l.port <;> simp [hfits]

theorem portLeft_cons_host (s : CString) (port : Int) :
    portLeft ρ port (.value optHost s :: opts)
      = (portCopied ρ s port).bind fun port' => portLeft ρ port' opts := by
  unfold portCopied
  rw [portLeft, if_pos rfl]
  by_cases hfits : s.length < IP_SIZE
  · rw [if_pos hfits, if_pos hfits]
    rfl
  · rw [if_neg hfits, if_neg hfits]

theorem portLeft_cons_port (s : CString) (port : Int) :
    portLeft ρ port (.value optPort s :: opts) = portLeft ρ (CString.atoi s) opts := by
  rw [portLeft, if_neg optPort_ne_optHost, if_pos rfl]

/-- The loop comes through with the options read: what it leaves in the variables. -/
structure OptionsRead (ρ : MainResidue) (opts : List (Opt CChar)) (l l' : Locals) : Prop where
  options : ∀ o ∈ opts, IsOption o
  port : portLeft ρ l.port opts = some l'.port
  ip : CString.read l'.stack = (hosts opts).getLast?.or (CString.read l.stack)
  beyond : l'.beyond = true ↔ l.beyond = true ∨ ∃ host ∈ hosts opts, ¬ host.length < IP_SIZE

/-- One `-h`, then the rest. -/
theorem OptionsRead.host {s : CString} {port : Int} {l l' : Locals}
    (hport : portCopied ρ s l.port = some port)
    (h : OptionsRead ρ opts ⟨CString.memory s ++ l.stack.drop (s.length + 1), port,
      l.beyond || decide (¬ s.length < IP_SIZE)⟩ l') :
    OptionsRead ρ (.value optHost s :: opts) l l' where
  options := by
    intro o ho
    rcases List.mem_cons.mp ho with rfl | ho
    · exact ⟨s, .inl rfl⟩
    · exact h.options o ho
  port := by
    rw [portLeft_cons_host, hport]
    exact h.port
  ip := by
    rw [h.ip, hosts_cons_host, getLast?_cons_or, CString.read_memory]
  beyond := by
    rw [h.beyond, hosts_cons_host]
    simp only [Bool.or_eq_true, decide_eq_true_eq, List.mem_cons, exists_eq_or_imp, or_assoc]

/-- One `-p`, then the rest. -/
theorem OptionsRead.port_cons {s : CString} {l l' : Locals}
    (h : OptionsRead ρ opts { l with port := CString.atoi s } l') :
    OptionsRead ρ (.value optPort s :: opts) l l' where
  options := by
    intro o ho
    rcases List.mem_cons.mp ho with rfl | ho
    · exact ⟨s, .inr rfl⟩
    · exact h.options o ho
  port := by
    rw [portLeft_cons_port]
    exact h.port
  ip := by
    rw [hosts_cons_port]
    exact h.ip
  beyond := by
    rw [hosts_cons_port]
    exact h.beyond

/-- **The option loop**: a loop that comes through has read its options. -/
theorem readOptions_ok {l l' : Locals} (h : readOptions ρ opts l = .ok l') :
    OptionsRead ρ opts l l' := by
  induction opts generalizing l with
  | nil =>
      cases h
      exact ⟨nofun, rfl, rfl, by simp [hosts]⟩
  | cons o opts ih =>
      cases o with
      | flag c => cases h
      | bad c => cases h
      | value c s =>
          rw [readOptions] at h
          by_cases hc : c = optHost
          · subst hc
            rw [if_pos rfl, strcpyIp_eq] at h
            -- a host too long for its array may write over the port, or end the process
            cases hport : portCopied ρ s l.port with
            | none =>
                rw [hport] at h
                cases h
            | some port =>
                rw [hport] at h
                exact .host hport (ih h)
          · rw [if_neg hc] at h
            by_cases hc' : c = optPort
            · subst hc'
              rw [if_pos rfl] at h
              exact .port_cons (ih h)
            · rw [if_neg hc'] at h
              cases h

/-- The loop comes through if every option is one, and the process outlives every copy. -/
theorem readOptions_comes_through {l : Locals} {port : Int} (hopts : ∀ o ∈ opts, IsOption o)
    (hport : portLeft ρ l.port opts = some port) : ∃ l', readOptions ρ opts l = .ok l' := by
  induction opts generalizing l with
  | nil => exact ⟨l, rfl⟩
  | cons o opts ih =>
      have htail : ∀ o ∈ opts, IsOption o := fun o ho => hopts o (List.mem_cons_of_mem _ ho)
      obtain ⟨s, rfl | rfl⟩ := hopts o List.mem_cons_self
      · rw [portLeft_cons_host] at hport
        obtain ⟨port', hcopied, hrest⟩ := Option.bind_eq_some_iff.mp hport
        rw [readOptions, if_pos rfl, strcpyIp_eq, hcopied]
        exact ih htail hrest
      · rw [portLeft_cons_port] at hport
        rw [readOptions, if_neg optPort_ne_optHost, if_pos rfl]
        exact ih htail hport

/-- If every address fits, the last `-p` is the port. -/
theorem portLeft_of_fits {port : Int} (hopts : ∀ o ∈ opts, IsOption o)
    (hfits : ∀ host ∈ hosts opts, host.length < IP_SIZE) :
    portLeft ρ port opts = some (((ports opts).getLast?.map CString.atoi).getD port) := by
  induction opts generalizing port with
  | nil => rfl
  | cons o opts ih =>
      have htail : ∀ o ∈ opts, IsOption o := fun o ho => hopts o (List.mem_cons_of_mem _ ho)
      obtain ⟨s, rfl | rfl⟩ := hopts o List.mem_cons_self
      · rw [hosts_cons_host] at hfits
        have hs : portCopied ρ s port = some port := if_pos (hfits s List.mem_cons_self)
        rw [portLeft_cons_host, hs, ports_cons_host]
        exact ih htail fun host hhost => hfits host (List.mem_cons_of_mem _ hhost)
      · rw [hosts_cons_port] at hfits
        rw [portLeft_cons_port, ports_cons_port, ih htail hfits, List.getLast?_cons]
        cases (ports opts).getLast? <;> rfl

end Options

/-! ## §4. The address asked for. -/

section Address

variable {ρ : MainResidue} {posix : Bool} {argv : List CString}

/-- The end of `main`, on what the options left in its variables. -/
theorem main_of_read {l : Locals}
    (h : readOptions ρ (getopt posix argv) ⟨ρ.stack, ρ.port, false⟩ = .ok l) :
    main ρ posix argv =
      match CString.read l.stack with
      | none => .error .fault
      | some ip =>
          if ip.length < 7 ∨ l.port < 1 then .error (.exit 1)
          else .ok { ip := ip, port := l.port, beyond := l.beyond } := by
  unfold main
  rw [h]
  rfl

/-- What `main` starts the server on. -/
structure StartsOn (ρ : MainResidue) (opts : List (Opt CChar)) (s : Started) : Prop where
  options : ∀ o ∈ opts, IsOption o
  ip : ipLeft ρ opts = some s.ip
  ip_long : 7 ≤ s.ip.length
  port : portLeft ρ ρ.port opts = some s.port
  port_positive : 1 ≤ s.port
  beyond : s.beyond = true ↔ ∃ host ∈ hosts opts, ¬ host.length < IP_SIZE

/-- **`main`** starts the server on the string and the port its options leave. -/
theorem main_ok {s : Started} (h : main ρ posix argv = .ok s) :
    StartsOn ρ (getopt posix argv) s := by
  cases hread : readOptions ρ (getopt posix argv) ⟨ρ.stack, ρ.port, false⟩ with
  | error stop =>
      unfold main at h
      rw [hread] at h
      cases h
  | ok l =>
      have hleft := readOptions_ok hread
      rw [main_of_read hread] at h
      cases hip : CString.read l.stack with
      | none =>
          rw [hip] at h
          cases h
      | some ip =>
          rw [hip] at h
          -- `main` gives up on an address below seven bytes and on a port below one
          by_cases hbad : ip.length < 7 ∨ l.port < 1
          · simp only [hbad, if_true] at h
            cases h
          · simp only [hbad, if_false] at h
            cases h
            rw [not_or] at hbad
            refine ⟨hleft.options, ?_, by show 7 ≤ ip.length; omega, hleft.port,
              by show 1 ≤ l.port; omega, ?_⟩
            · rw [ipLeft, ← hip]
              exact hleft.ip.symm
            · rw [hleft.beyond]
              simp

theorem main_gets_through (h : GetsThrough ρ (getopt posix argv)) :
    ∃ s, main ρ posix argv = .ok s := by
  obtain ⟨hopts, ⟨ip, hip, hlong⟩, port, hport, hpos⟩ := h
  obtain ⟨l, hread⟩ := readOptions_comes_through (l := ⟨ρ.stack, ρ.port, false⟩) hopts hport
  have hleft := readOptions_ok hread
  have hip' : CString.read l.stack = some ip := hleft.ip.trans hip
  have hport' : l.port = port := Option.some.inj (hleft.port.symm.trans hport)
  refine ⟨⟨ip, l.port, l.beyond⟩, ?_⟩
  rw [main_of_read hread, hip']
  show (if ip.length < 7 ∨ l.port < 1 then _ else _) = _
  rw [if_neg (by omega)]

/-- If `main` reaches `start_tcp_server`, both options were given, no write went beyond `ip`, and
the address bound has the last `-h` value as its string and the number of the last `-p` as its
port. -/
def StartsAsAsked (inetAddr : CString → Nat) (ρ : MainResidue) (posix : Bool)
    (argv : List CString) : Prop :=
  ∀ s, main ρ posix argv = .ok s →
    s.beyond = false ∧ ∃ host port, (hosts (getopt posix argv)).getLast? = some host
      ∧ (ports (getopt posix argv)).getLast? = some port
      ∧ s.ip = host ∧ (localAddr inetAddr s.ip s.port).sin_addr = inetAddr host
      ∧ (ntohs (localAddr inetAddr s.ip s.port).sin_port : Int) = CString.number port

/-- Options asked for well start the server as asked. -/
theorem startsOn_asked (inetAddr : CString → Nat) {opts : List (Opt CChar)} {s : Started}
    (hs : StartsOn ρ opts s) (hwell : AsksWell opts) :
    s.beyond = false ∧ ∃ host port, (hosts opts).getLast? = some host
      ∧ (ports opts).getLast? = some port
      ∧ s.ip = host ∧ (localAddr inetAddr s.ip s.port).sin_addr = inetAddr host
      ∧ (ntohs (localAddr inetAddr s.ip s.port).sin_port : Int)
        = CString.number port := by
  obtain ⟨hfits, hne, port, hlast, hlow, hhigh⟩ := hwell
  have hhost : (hosts opts).getLast? = some s.ip := by
    have hhost := List.getLast?_eq_some_getLast hne
    have hip := hs.ip
    rw [ipLeft, hhost] at hip
    rw [hhost]
    exact hip
  have hport : s.port = CString.number port := by
    have hleft := hs.port
    rw [portLeft_of_fits hs.options hfits, hlast] at hleft
    rw [← CString.atoi_eq_number (s := port) (by omega) (by omega)]
    exact (Option.some.inj hleft).symm
  refine ⟨?_, s.ip, port, hhost, hlast, rfl, rfl, ?_⟩
  · rw [← Bool.not_eq_true, hs.beyond]
    rintro ⟨host, hmem, hlong⟩
    exact hlong (hfits host hmem)
  · show (ntohs (htons s.port) : Int) = _
    rw [ntohs_htons, hport]
    omega

/-- **The address asked for.**  For every command line and every content of the variables `main`
does not initialise, the server starts on what it was asked for exactly when `main` does not get
through to starting it, or is asked well. -/
theorem starts_as_asked_iff (inetAddr : CString → Nat) (ρ : MainResidue) (posix : Bool)
    (argv : List CString) :
    StartsAsAsked inetAddr ρ posix argv
      ↔ (GetsThrough ρ (getopt posix argv) → AsksWell (getopt posix argv)) := by
  constructor
  · intro h hthrough
    obtain ⟨s, hmain⟩ := main_gets_through hthrough
    have hs := main_ok hmain
    obtain ⟨hbeyond, host, port, hhost, hlast, -, -, hnumber⟩ := h s hmain
    have hfits : ∀ host ∈ hosts (getopt posix argv), host.length < IP_SIZE := by
      intro host' hmem
      by_contra hlong
      have htrue := hs.beyond.mpr ⟨host', hmem, hlong⟩
      rw [hbeyond] at htrue
      cases htrue
    refine ⟨hfits, ?_, port, hlast, ?_⟩
    · intro hnil
      rw [hnil] at hhost
      cases hhost
    · -- a number read back from a port is one of 16 bits, and `0` is not positive
      have hread : (ntohs (htons s.port) : Int) = CString.number port := hnumber
      rw [ntohs_htons] at hread
      have hne : CString.number port ≠ 0 := by
        intro hzero
        have hleft := hs.port
        rw [portLeft_of_fits hs.options hfits, hlast] at hleft
        have hport : CString.atoi port = s.port := Option.some.inj hleft
        rw [CString.atoi_eq_number (by omega) (by omega)] at hport
        have hpos := hs.port_positive
        omega
      omega
  · intro h s hmain
    have hs := main_ok hmain
    exact startsOn_asked inetAddr hs
      (h ⟨hs.options, ⟨s.ip, hs.ip, hs.ip_long⟩, s.port, hs.port, hs.port_positive⟩)

/-- Options written as pairs of arguments are what `getopt` finds. -/
theorem getopt_write (posix : Bool) (name : CString) (opts : List (CChar × CString))
    (h : ∀ opt ∈ opts, opt.1 = optHost ∨ opt.1 = optPort) :
    getopt posix (name :: opts.flatMap (GetOpt.write dash))
      = opts.map fun opt => .value opt.1 opt.2 := by
  apply GetOpt.scan_write
  intro opt hopt
  refine ⟨if_pos (h opt hopt), ?_⟩
  rcases h opt hopt with hc | hc <;> rw [hc] <;> decide

/-- The options `-h 127.0.0.1 -p 70000`. -/
def narrowing : List (CChar × CString) :=
  [(optHost, CString.ofBytes [49, 50, 55, 46, 48, 46, 48, 46, 49]),
    (optPort, CString.ofBytes [55, 48, 48, 48, 48])]

/-- The command line `sserver -h 127.0.0.1 -p 70000` binds port 4464. -/
theorem port_narrowed :
    ¬ StartsAsAsked (fun _ => 0) ⟨List.replicate 15 0, 0, fun _ port => some port⟩ false
      (CString.ofBytes [115] :: narrowing.flatMap (GetOpt.write dash)) := by
  have hopts := getopt_write false (CString.ofBytes [115]) narrowing (by decide)
  have hthrough : GetsThrough ⟨List.replicate 15 0, 0, fun _ port => some port⟩
      (getopt false (CString.ofBytes [115] :: narrowing.flatMap (GetOpt.write dash))) := by
    rw [hopts]
    refine ⟨?_, ⟨_, rfl, by decide⟩, 70000, by decide, by decide⟩
    intro o ho
    rcases List.mem_cons.mp ho with rfl | ho
    · exact ⟨_, .inl rfl⟩
    · exact ⟨_, .inr (List.mem_singleton.mp ho)⟩
  intro h
  obtain ⟨s, hmain⟩ := main_gets_through hthrough
  obtain ⟨-, host, port, -, hlast, -, -, hnumber⟩ := h s hmain
  rw [hopts] at hlast
  obtain rfl : CString.ofBytes [55, 48, 48, 48, 48] = port := Option.some.inj hlast
  -- the number is `70000`, and what was bound has 16 bits
  have hnumber' : (ntohs (htons s.port) : Int) = 70000 := hnumber
  rw [ntohs_htons] at hnumber'
  omega

end Address

end SensorServer.Startup
