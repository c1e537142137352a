/-!
# Unsigned decimal numerals

`Numeral.value` reads digits, `Numeral.digits` writes them, and reading what was written gives the
number back (`value_digits`). `Numeral.parse?` is the reader for counts typed by an operator: digits
only, at least one, and no more than a given largest number. It takes the digits into a word one by
one and sees to it that none makes the word overflow.
-/

namespace Timetable.Numeral

/-- The number that a list of decimal digits denotes. -/
def value (ds : List Char) : Nat := Nat.ofDigitChars 10 ds 0

/-- The decimal digits of a number, without leading zeros. -/
def digits (n : Nat) : List Char := Nat.toDigits 10 n

theorem value_digits (n : Nat) : value (digits n) = n :=
  Nat.ofDigitChars_toDigits (by decide) (by decide)

theorem isDigit_of_mem_digits {n : Nat} {c : Char} (h : c ∈ digits n) : c.isDigit = true :=
  Nat.isDigit_of_mem_toDigits (by decide) (by decide) h

/-- The digits of `n`, with zeros in front up to `width` places. -/
def padded (width n : Nat) : List Char :=
  List.replicate (width - (digits n).length) '0' ++ digits n

/-- A sign, if one is needed, and digits, with zeros between them up to `width` places in all. -/
def paddedInt (width : Nat) : Int → List Char
  | .ofNat n => padded width n
  | .negSucc n => '-' :: padded (width - 1) (n + 1)

/-! ### Counts -/

/-- The largest number that 64 bits hold. -/
def largest : UInt64 := 18446744073709551615

/-- Whether a byte is a decimal digit. -/
def isDigit (b : UInt8) : Bool := 48 ≤ b && b ≤ 57

/-- Puts a digit behind a word, unless the number that this makes has no room in a word. -/
def append? (n : UInt64) (b : UInt8) : Option UInt64 :=
  let d := (b - 48).toUInt64
  if n ≤ largest / 10 ∧ n * 10 ≤ largest - d then some (n * 10 + d) else none

/-- Goes through the digits at the front of some bytes: the word that they make, if there is room
for it, and the bytes behind them. -/
def scan (n : Option UInt64) : List UInt8 → Option UInt64 × List UInt8
  | [] => (n, [])
  | b :: bs => if isDigit b then scan (n.bind (append? · b)) bs else (n, b :: bs)

/-- Reads an unsigned numeral from bytes: one or more digits and nothing else, denoting at most
`max`. -/
def parseBytes? (max : UInt64) (bs : List UInt8) : Option UInt64 :=
  if bs.head?.any isDigit then
    match scan (some 0) bs with
    | (some n, []) => if n ≤ max then some n else none
    | _ => none
  else
    none

/-- Reads an unsigned numeral from a text, by its UTF-8 bytes. -/
def parse? (max : UInt64) (text : String) : Option UInt64 :=
  parseBytes? max text.toByteArray.data.toList

end Timetable.Numeral
