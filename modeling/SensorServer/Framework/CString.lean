/-
  SensorServer.Framework.CString — strings that end with a zero byte.

  A `CString` is the bytes before the terminator; none of them is zero, which is part of the
  type.  `memory` is the string as it lies in memory and `read` what `strlen` and its likes
  make of memory: everything up to the first zero byte, if there is one.

  `number` is the decimal number a string begins with, and `atoi` what the library function
  makes of it in 32 bits.
-/
import Mathlib.Tactic.Common

namespace SensorServer.Framework

/-- A byte of a string. -/
abbrev CChar := { b : UInt8 // b ≠ 0 }

/-- A zero-terminated string, without its terminator. -/
abbrev CString := List CChar

namespace CString

/-! ## §1. Strings in memory. -/

/-- The bytes before the terminator. -/
def bytes (s : CString) : List UInt8 := s.map Subtype.val

/-- The bytes of the string, its terminator included. -/
def memory (s : CString) : List UInt8 := s.bytes ++ [0]

/-- The string of the bytes of a list, zeros left out. -/
def ofBytes (bs : List UInt8) : CString :=
  bs.filterMap fun b => if h : b ≠ 0 then some ⟨b, h⟩ else none

/-- The string that memory begins with; without a zero byte there is none. -/
def read : List UInt8 → Option CString
  | [] => none
  | b :: bs => if h : b ≠ 0 then (read bs).map (⟨b, h⟩ :: ·) else some []

@[simp] theorem length_bytes (s : CString) : s.bytes.length = s.length := List.length_map _

@[simp] theorem length_memory (s : CString) : s.memory.length = s.length + 1 := by
  simp [memory]

/-- What was written as a string is read back as that string, whatever lies behind it. -/
theorem read_memory (s : CString) (rest : List UInt8) : read (s.memory ++ rest) = some s := by
  induction s with
  | nil => rfl
  | cons c s ih =>
      obtain ⟨b, hb⟩ := c
      show (if h : b ≠ 0 then (read (memory s ++ rest)).map (⟨b, h⟩ :: ·) else some []) = _
      rw [dif_pos hb, ih]
      rfl

/-! ## §2. Numbers. -/

/-- `isspace` of the C locale. -/
def isSpace (c : CChar) : Bool := c.1 = 32 || (9 ≤ c.1 && c.1 ≤ 13)

/-- `isdigit`. -/
def isDigit (c : CChar) : Bool := 48 ≤ c.1 && c.1 ≤ 57

/-- The value of a string of digits, most significant first. -/
def decimal (digits : CString) : Nat :=
  digits.foldl (fun n c => n * 10 + (c.1.toNat - 48)) 0

/-- The decimal number a string begins with, after white space and a sign: 0 without a digit. -/
def number (s : CString) : Int :=
  match s.dropWhile isSpace with
  | [] => 0
  | c :: s =>
      if c.1 = 45 then -(decimal (s.takeWhile isDigit))
      else if c.1 = 43 then decimal (s.takeWhile isDigit)
      else decimal ((c :: s).takeWhile isDigit)

/-- `strtol` to base 10 stops at the bounds of a 64-bit `long`. -/
def strtol (s : CString) : Int :=
  if s.number < -9223372036854775808 then -9223372036854775808
  else if 9223372036854775807 < s.number then 9223372036854775807
  else s.number

/-- `atoi`: the low 32 bits of `strtol`, as a signed number. -/
def atoi (s : CString) : Int := (s.strtol + 2147483648) % 4294967296 - 2147483648

/-- A number that fits in an `int` is what `atoi` returns. -/
theorem atoi_eq_number {s : CString} (h1 : -2147483648 ≤ s.number) (h2 : s.number < 2147483648) :
    s.atoi = s.number := by
  have hlong : s.strtol = s.number := by
    rw [strtol, if_neg (by omega), if_neg (by omega)]
  unfold atoi
  rw [hlong]
  omega

end CString

end SensorServer.Framework
