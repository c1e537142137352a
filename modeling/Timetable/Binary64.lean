/-!
# Floating-point numbers by their bits

A `Binary64` is a double-precision number, given by its 64 bits. `Binary64.ofQuotient` gives the
number nearest to a quotient of two natural numbers; of two equally near ones, the one with the
even last bit. Numbers so small that they lose bits of their significand are rounded from those
bits and from what stands behind the next one.
-/

namespace Timetable

/-- A double-precision number. -/
structure Binary64 where
  bits : UInt64
deriving DecidableEq, Repr, Inhabited

namespace Binary64

/-- The number of bits of a significand, the leading one included. -/
def precision : Nat := 53

/-- The least significand whose leading bit stands in its place. -/
def leastSignificand : Nat := 0x10000000000000

/-- The exponent of the last bit of the smallest numbers. -/
def leastExponent : Int := -1074

/-- Positive infinity. -/
def infinity : Binary64 := ⟨0x7ff0000000000000⟩

/-- What is not a number. -/
def notANumber : Binary64 := ⟨0x7ff8000000000000⟩

/-- Whether a number has no value. -/
def isNotANumber (x : Binary64) : Bool := x.bits &&& 0x7fffffffffffffff > infinity.bits

/-- The number of the other sign. -/
def negate (x : Binary64) : Binary64 := ⟨x.bits ^^^ 0x8000000000000000⟩

/-- The quotient and the divisor of `num / den` scaled by a power of two. -/
def scaled (num den : Nat) (e : Int) : Nat × Nat :=
  if 0 ≤ e then (num, den <<< e.toNat) else (num <<< (-e).toNat, den)

/-- The quotient rounded to a whole number, a half to the even one. -/
def roundHalfEven (num den : Nat) : Nat :=
  let q := num / den
  let twice := 2 * (num % den)
  if den < twice ∨ (twice = den ∧ q % 2 = 1) then q + 1 else q

/-- The exponent of the last bit of a significand for `num / den`: the quotient scaled by it lies
between `2 ^ 52` and `2 ^ 53`. -/
def exponent (num den : Nat) : Int :=
  let guess : Int := (num.log2 : Int) - den.log2 - precision
  let (n, d) := scaled num den guess
  if n / d < 2 * leastSignificand then guess else guess + 1

/-- The significand of a number that is so small that it loses `lost` of the bits of `num / den`,
which lies between `2 ^ 52` and `2 ^ 53`. Of the bits behind these the first one is not looked at,
hence a number that differs from a half only there counts as a half, unless it is known otherwise
that there is more. -/
def roundSmall (num den lost : Nat) (hasMore : Bool) : Nat :=
  let more := if hasMore || 2 * (num % den) % den ≠ 0 then 1 else 0
  roundHalfEven (2 * (num / den) + more) (2 <<< lost)

/-- The number with a significand of at most `2 ^ 53` and the exponent of its last bit. -/
def ofSignificand (q : Nat) (e : Int) : Binary64 :=
  let (q, e) := if q = 2 * leastSignificand then (leastSignificand, e + 1) else (q, e)
  if q < leastSignificand then ⟨UInt64.ofNat q⟩
  else
    let biased := (e - leastExponent).toNat + 1
    if 2047 ≤ biased then infinity
    else ⟨UInt64.ofNat (biased * leastSignificand + (q - leastSignificand))⟩

/-- The number that stands for `num / den`: the nearest one, if it does not lose bits. For one that
does, `hasMore` tells whether the quotient is known to be finer than those bits. -/
def ofQuotient (num den : Nat) (hasMore : Bool) : Binary64 :=
  if num = 0 then ⟨0⟩
  else
    let e := exponent num den
    let (n, d) := scaled num den e
    if leastExponent ≤ e then ofSignificand (roundHalfEven n d) e
    else ofSignificand (roundSmall n d (leastExponent - e).toNat hasMore) leastExponent

end Binary64

end Timetable
