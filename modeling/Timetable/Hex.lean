/-!
# Hexadecimal digits

Digits are written in lower case and read in either. Reading the digit of a number below sixteen
gives the number back (`value?_digit`).
-/

namespace Timetable.Hex

/-- The digit of a number below sixteen. -/
def digit (n : Nat) : Char :=
  Char.ofNat (if n < 10 then '0'.toNat + n else 'a'.toNat + (n - 10))

/-- The value of a digit. -/
def value? (c : Char) : Option Nat :=
  if '0' ≤ c ∧ c ≤ '9' then some (c.toNat - '0'.toNat)
  else if 'a' ≤ c ∧ c ≤ 'f' then some (c.toNat - 'a'.toNat + 10)
  else if 'A' ≤ c ∧ c ≤ 'F' then some (c.toNat - 'A'.toNat + 10)
  else none

/-- Whether a character is a digit. -/
def isDigit (c : Char) : Bool := (value? c).isSome

/-- The number that digits denote. -/
def number (ds : List Char) : Nat := ds.foldl (fun n c => n * 16 + (value? c).getD 0) 0

/-- The two digits of a byte, the higher one first. -/
def byteDigits (b : UInt8) : List Char := [digit (b.toNat / 16), digit (b.toNat % 16)]

theorem value?_digit {n : Nat} (h : n < 16) : value? (digit n) = some n :=
  (by decide : ∀ n < 16, value? (digit n) = some n) n h

end Timetable.Hex
