/-
  SensorServer.Framework.GetOpt — command-line options, as `getopt` finds them.

  `getopt` walks through the arguments.  An argument that begins with a dash and goes on is a
  run of option characters; an option that takes a value takes the rest of its argument or,
  if there is none, the next argument whatever that looks like.  Other arguments are skipped,
  `--` ends the options.  The characters, the dash and the option table are parameters.
-/
import Mathlib.Data.List.Basic

namespace SensorServer.Framework

/-- What one call of `getopt` returns, but for the end of the options. -/
inductive Opt (α : Type) where
  /-- An option without a value. -/
  | flag (c : α)
  /-- An option and its value, `optarg`. -/
  | value (c : α) (optarg : List α)
  /-- `'?'`: an option that is not in the table, or lacks its value.  `c` is `optopt`. -/
  | bad (c : α)
  deriving Repr, DecidableEq

namespace GetOpt

variable {α : Type} [DecidableEq α]

/-- The options of one argument behind its dash, and the option still waiting for a value.
`takes c` is none for an unknown option, and else says whether it takes a value. -/
def element (takes : α → Option Bool) : List α → List (Opt α) × Option α
  | [] => ([], none)
  | c :: cs =>
      match takes c with
      | some true => if cs = [] then ([], some c) else ([.value c cs], none)
      | some false => (.flag c :: (element takes cs).1, (element takes cs).2)
      | none => (.bad c :: (element takes cs).1, (element takes cs).2)

/-- What the calls of `getopt` return, one after the other.  `waiting` is an option whose value
is the next argument; with `posix`, the first argument that is no option ends the options. -/
def scan (dash : α) (takes : α → Option Bool) (posix : Bool) :
    Option α → List (List α) → List (Opt α)
  | some c, [] => [.bad c]
  | some c, arg :: args => .value c arg :: scan dash takes posix none args
  | none, [] => []
  | none, arg :: args =>
      if arg = [dash, dash] then []
      else if arg.head? = some dash ∧ arg.tail ≠ [] then
        (element takes arg.tail).1 ++ scan dash takes posix (element takes arg.tail).2 args
      else if posix then []
      else scan dash takes posix none args

/-- The value a call returns for the option `c`. -/
def valueOf (c : α) : Opt α → Option (List α)
  | .value c' optarg => if c' = c then some optarg else none
  | _ => none

/-- The values of an option, in order. -/
def values (c : α) (opts : List (Opt α)) : List (List α) := opts.filterMap (valueOf c)

@[simp] theorem values_nil (c : α) : values c [] = [] := rfl

theorem values_cons_self (c : α) (optarg : List α) (opts : List (Opt α)) :
    values c (.value c optarg :: opts) = optarg :: values c opts := by
  have hvalue : valueOf c (.value c optarg) = some optarg := if_pos rfl
  exact List.filterMap_cons_some hvalue

theorem values_cons_of_ne {c c' : α} (h : c' ≠ c) (optarg : List α) (opts : List (Opt α)) :
    values c (.value c' optarg :: opts) = values c opts := by
  have hvalue : valueOf c (.value c' optarg) = none := if_neg h
  exact List.filterMap_cons_none hvalue

/-- An option and its value as two arguments. -/
def write (dash : α) (opt : α × List α) : List (List α) := [[dash, opt.1], opt.2]

/-- Options written as pairs of arguments are found as they were written. -/
theorem scan_write {dash : α} {takes : α → Option Bool} (posix : Bool) {opts : List (α × List α)}
    (htakes : ∀ opt ∈ opts, takes opt.1 = some true ∧ opt.1 ≠ dash) :
    scan dash takes posix none (opts.flatMap (write dash))
      = opts.map fun opt => .value opt.1 opt.2 := by
  induction opts with
  | nil => rfl
  | cons opt opts ih =>
      obtain ⟨hopt, hdash⟩ := htakes opt List.mem_cons_self
      have helement : element takes [opt.1] = ([], some opt.1) := by
        rw [element, hopt]
        rfl
      rw [List.flatMap_cons, List.map_cons,
        ← ih fun opt' hopt' => htakes opt' (List.mem_cons_of_mem _ hopt')]
      show scan dash takes posix none ([dash, opt.1] :: opt.2 :: opts.flatMap (write dash)) = _
      rw [scan, if_neg (by simpa using hdash), if_pos (by simp)]
      show (element takes [opt.1]).1 ++ scan dash takes posix (element takes [opt.1]).2 _ = _
      rw [helement]
      rfl

end GetOpt

end SensorServer.Framework
