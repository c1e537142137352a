import Timetable.Binary64
import Timetable.Hex
import Timetable.Numeral

/-!
# Texts of floating-point numbers

`Binary64.parse?` reads a number from the whole of a text: blanks, a sign, and then decimal digits
with a point and an exponent of ten, hexadecimal digits with a point and an exponent of two, or a
word for infinity or for what is not a number. The result is the number that stands for the value
of the text.
-/

namespace Timetable.Binary64

/-- The digits before and after a point, and what follows them. -/
def significand (isDigit : Char → Bool) (cs : List Char) : List Char × List Char × List Char :=
  let whole := cs.takeWhile isDigit
  match cs.dropWhile isDigit with
  | '.' :: r => (whole, r.takeWhile isDigit, r.dropWhile isDigit)
  | r => (whole, [], r)

/-- Reads an exponent up to the end of a text: nothing, or a letter, a sign and digits. -/
def exponent? (letter : Char) : List Char → Option Int
  | [] => some 0
  | c :: cs =>
    if c.toLower = letter then
      match cs with
      | '-' :: ds => (digits? ds).map (- ·)
      | '+' :: ds => digits? ds
      | ds => digits? ds
    else none
where
  /-- Reads one or more digits. -/
  digits? (ds : List Char) : Option Int :=
    if ds ≠ [] ∧ ds.all Char.isDigit then some (Numeral.value ds) else none

/-- The number that stands for `m * base ^ e`, for a base of at least two. Far beyond the range of
exponents there is only infinity, and far below it only zero, so that no such power is worked out.
If there is a last place, it is known whether there are digits behind it. -/
def ofPower (base m : Nat) (e : Int) (lastPlace : Option Nat) : Binary64 :=
  if m = 0 then ⟨0⟩
  else if 0 ≤ e then
    if 5000 < m.log2 + e then infinity else ofQuotient (m * base.pow e.toNat) 1 false
  else if m.log2 + e < -5000 then ⟨0⟩
  else
    let places := (-e).toNat
    let hasMore := lastPlace.any fun last => m % base.pow (places - last) ≠ 0
    ofQuotient m (base.pow places) hasMore

/-- The last decimal place that is worked with: that of a quarter of the smallest number. -/
def lastDecimalPlace : Nat := 1076

/-- Reads a decimal number. -/
def decimal? (cs : List Char) : Option Binary64 := do
  let (whole, fraction, r) := significand Char.isDigit cs
  guard (whole ++ fraction ≠ [])
  let e ← exponent? 'e' r
  return ofPower 10 (Numeral.value (whole ++ fraction)) (e - fraction.length) lastDecimalPlace

/-- Reads a hexadecimal number after its mark. -/
def hexadecimal? (cs : List Char) : Option Binary64 := do
  let (whole, fraction, r) := significand Hex.isDigit cs
  guard (whole ++ fraction ≠ [])
  let e ← exponent? 'p' r
  return ofPower 2 (Hex.number (whole ++ fraction)) (e - 4 * fraction.length) none

/-- Whether a text is the word for what is not a number, with or without a remark in brackets. -/
def isNan (cs : List Char) : Bool :=
  match (cs.take 3).map Char.toLower, cs.drop 3 with
  | ['n', 'a', 'n'], [] => true
  | ['n', 'a', 'n'], '(' :: r =>
    r.getLast? == some ')' && r.dropLast.all fun c => c.isAlphanum || c == '_'
  | _, _ => false

/-- Reads a number without a sign. -/
def unsigned? (cs : List Char) : Option Binary64 :=
  let word := cs.map Char.toLower
  if word = "inf".toList ∨ word = "infinity".toList then some infinity
  else if isNan cs then some notANumber
  else
    match cs with
    | '0' :: 'x' :: r | '0' :: 'X' :: r => hexadecimal? r
    | _ => decimal? cs

/-- Reads a number from the whole of a text. -/
def parse? (text : List Char) : Option Binary64 :=
  match text.dropWhile fun c => c == ' ' || ('\t' ≤ c && c ≤ '\r') with
  | '-' :: r => (unsigned? r).map negate
  | '+' :: r => unsigned? r
  | r => unsigned? r

end Timetable.Binary64
