import Timetable.Failure
import Timetable.Hex
import Timetable.Random.MersenneTwister

/-!
# Identifiers of sixteen bytes

A `Uuid` is written as 32 lower-case hexadecimal digits with hyphens before the fifth, seventh,
ninth and eleventh byte. `Uuid.ofBytes?` reads digits of either case and accepts only texts of
that form (`Uuid.isValid_of_ofBytes?`). Identifiers come from a generator (version 4) or from a
name (version 8); the same name always gives the same identifier.
-/

namespace Timetable

/-- Sixteen bytes. -/
structure Uuid where
  octets : List UInt8
  length_octets : octets.length = 16
deriving DecidableEq

namespace Uuid

/-! ### Text -/

/-- The digits of the bytes, without hyphens. -/
def hex (bs : List UInt8) : List Char := bs.flatMap Hex.byteDigits

/-- The text of an identifier, in groups of four, two, two, two and six bytes. -/
def toText (u : Uuid) : List Char :=
  let group (i n : Nat) := hex ((u.octets.drop i).take n)
  group 0 4 ++ '-' :: group 4 2 ++ '-' :: group 6 2 ++ '-' :: group 8 2 ++ '-' :: group 10 6

/-- The text of an identifier. -/
protected def toString (u : Uuid) : String := String.ofList u.toText

/-- The places of the hyphens in a text. -/
def isHyphenPlace (i : Nat) : Bool := i == 8 || i == 13 || i == 18 || i == 23

/-- The characters of a text that is gone through byte by byte. -/
def chars (bs : List UInt8) : List Char := bs.map Char.ofUInt8

/-- Whether bytes are 36, hyphens in their four places and digits in all others. -/
def isValidBytes (bs : List UInt8) : Bool :=
  let cs := chars bs
  cs.length == 36 &&
    cs.zipIdx.all fun (c, i) => if isHyphenPlace i then c == '-' else (Hex.value? c).isSome

/-- Whether a text is that of an identifier. -/
def isValid (text : String) : Bool := isValidBytes text.toByteArray.data.toList

/-- The bytes that pairs of digits denote. -/
def pairs : List Nat → List UInt8
  | high :: low :: r => UInt8.ofNat (high * 16 + low) :: pairs r
  | _ => []

/-- The bytes that the digits of a text denote, wherever its hyphens stand. -/
def octetsOfBytes (bs : List UInt8) : List UInt8 :=
  pairs (((chars bs).filter (· ≠ '-')).filterMap Hex.value?)

/-- Reads the bytes of an identifier's text. -/
def ofBytes? (bs : List UInt8) : Option Uuid :=
  if isValidBytes bs = true then
    if h : (octetsOfBytes bs).length = 16 then some ⟨octetsOfBytes bs, h⟩ else none
  else none

theorem isValid_of_ofBytes? {bs : List UInt8} {u : Uuid} (h : ofBytes? bs = some u) :
    isValidBytes bs = true := by
  unfold ofBytes? at h
  split at h
  · assumption
  · cases h

/-- Reads the text of an identifier, or fails because it is none. -/
def read (text : String) : Except Failure Uuid :=
  match ofBytes? text.toByteArray.data.toList with
  | some u => .ok u
  | none => .error (.invalidUuid text)

/-! ### Making identifiers -/

/-- Sets the version and the variant among sixteen bytes. -/
def stamp (version : UInt8) (bs : List UInt8) : List UInt8 :=
  let setVersion (b : UInt8) : UInt8 := (b &&& 0x0f) ||| (version * 16)
  let setVariant (b : UInt8) : UInt8 := (b &&& 0x3f) ||| 0x80
  (bs.modify 6 setVersion).modify 8 setVariant

theorem length_stamp (version : UInt8) (bs : List UInt8) :
    (stamp version bs).length = bs.length := by
  simp [stamp]

/-- Sixteen bytes of a generator, stamped with a version. -/
def draw (version : UInt8) (g : MersenneTwister) : Uuid × MersenneTwister :=
  let r := g.bytes 16
  (⟨stamp version r.1, by rw [length_stamp]; exact g.length_bytes 16⟩, r.2)

/-- A fresh identifier. -/
def fresh (g : MersenneTwister) : Uuid × MersenneTwister := draw 4 g

/-- The identifier of a name: its bytes and then its length seed a generator. -/
def ofName (name : List UInt8) : Uuid :=
  let seeds := name.map UInt8.toUInt32 ++ [UInt32.ofNat name.length]
  (draw 8 (.ofSeeds seeds.toArray)).1

/-- The identifier of a text, by its UTF-8 bytes. -/
def ofText (name : String) : Uuid := ofName name.toUTF8.toList

end Uuid

end Timetable
