import Timetable.Random.SeedSequence

/-!
# A generator of 64-bit words

The Mersenne twister with 312 words of 64 bits. Its state advances by whole rounds of 312 words;
each word is tempered when it is drawn. `MersenneTwister.ofSeed` starts it from one number and
`MersenneTwister.ofSeeds` from a list of words, spread by `SeedSequence.generate`.
-/

namespace Timetable

/-- The words of the current round and the place of the next to be drawn. -/
structure MersenneTwister where
  words : Array UInt64
  position : Nat

namespace MersenneTwister

/-- The number of words in a round. -/
def size : Nat := 312

/-- The distance from a word to the one that its twist takes in. -/
def shift : Nat := 156

/-- The upper bits of a word that a twist keeps; it takes the others from the next word. -/
def upperMask : UInt64 := 0xffffffff80000000

/-- The constant that a twist adds for an odd word. -/
def twistMatrix : UInt64 := 0xb5026f5aa96619e9

/-- One linear step from a word to the next state of a seed's round. -/
def grow (x : UInt64) (i : Nat) : UInt64 :=
  (x ^^^ (x >>> 62)) * 6364136223846793005 + UInt64.ofNat i

/-- The generator started from one number. -/
def ofSeed (seed : UInt64) : MersenneTwister :=
  let words := (List.range' 1 (size - 1)).foldl
    (fun words i => words.push (grow (words.getD (i - 1) 0) i)) #[seed]
  ⟨words, size⟩

/-- The generator started from a list of words. A round in which nothing but bits that a twist drops
is set would never change, so it gets its highest bit. -/
def ofSeeds (seeds : Array UInt32) : MersenneTwister :=
  let halves := SeedSequence.generate seeds (2 * size)
  let words := (Array.range size).map fun i =>
    (halves.getD (2 * i) 0).toUInt64 + ((halves.getD (2 * i + 1) 0).toUInt64 <<< 32)
  let stuck := words.getD 0 0 &&& upperMask = 0 ∧ (words.toList.drop 1).all (· == 0)
  ⟨if stuck then words.modify 0 fun _ => 0x8000000000000000 else words, size⟩

/-- The word that replaces the one at place `i` of a round whose earlier words are replaced. -/
def twist (words : Array UInt64) (i : Nat) : Array UInt64 :=
  let word (j : Nat) := words.getD (j % size) 0
  let y := (word i &&& upperMask) ||| (word (i + 1) &&& ~~~upperMask)
  let z := word (i + shift) ^^^ (y >>> 1) ^^^ (if y &&& 1 = 0 then 0 else twistMatrix)
  words.modify i fun _ => z

/-- Scrambles the bits of a drawn word. -/
def temper (x : UInt64) : UInt64 :=
  let x := x ^^^ ((x >>> 29) &&& 0x5555555555555555)
  let x := x ^^^ ((x <<< 17) &&& 0x71d67fffeda60000)
  let x := x ^^^ ((x <<< 37) &&& 0xfff7eee000000000)
  x ^^^ (x >>> 43)

/-- Draws a word, after a new round if the last one is used up. -/
def next (g : MersenneTwister) : UInt64 × MersenneTwister :=
  let g := if g.position < size then g else ⟨(List.range size).foldl twist g.words, 0⟩
  (temper (g.words.getD g.position 0), { g with position := g.position + 1 })

/-- The low bytes of the next `n` words. -/
def bytes : Nat → MersenneTwister → List UInt8 × MersenneTwister
  | 0, g => ([], g)
  | n + 1, g =>
    let (x, g) := g.next
    let (xs, g) := bytes n g
    (x.toUInt8 :: xs, g)

theorem length_bytes : ∀ (n : Nat) (g : MersenneTwister), (bytes n g).1.length = n
  | 0, _ => rfl
  | n + 1, g => by simp [bytes, length_bytes n]

end MersenneTwister

end Timetable
