/-!
# Spreading a few seeds over many words

`SeedSequence.generate` turns any number of 32-bit seeds into the words that fill the state of a
large generator, so that every seed reaches every word. Two passes mix the words in place: the first
adds the seeds in, the second stirs further with another multiplier.
-/

namespace Timetable.SeedSequence

/-- The value that each word has before mixing. -/
def filler : UInt32 := 0x8b8b8b8b

/-- Folds the high bits of a word into its low ones. -/
def fold (x : UInt32) : UInt32 := x ^^^ (x >>> 27)

/-- The word at a place counted around the end. -/
def wordAt (words : Array UInt32) (i : Nat) : UInt32 := words.getD (i % words.size) 0

/-- Changes the word at a place counted around the end. -/
def update (words : Array UInt32) (i : Nat) (f : UInt32 → UInt32) : Array UInt32 :=
  words.modify (i % words.size) f

/-- How far from the current word the two others lie that change with it. -/
def offsets (n : Nat) : Nat × Nat :=
  let t := if 623 ≤ n then 11 else if 68 ≤ n then 7 else if 39 ≤ n then 5
    else if 7 ≤ n then 3 else (n - 1) / 2
  let p := (n - t) / 2
  (p, p + t)

/-- What the first pass adds at step `k` beside the mixed word: the number of seeds, then the seeds
themselves with their places, then the places alone. -/
def increment (seeds : Array UInt32) (n k : Nat) : UInt32 :=
  if k = 0 then UInt32.ofNat seeds.size
  else UInt32.ofNat (k % n) + seeds.getD (k - 1) 0

/-- One step of the first pass. -/
def absorb (seeds words : Array UInt32) (k : Nat) : Array UInt32 :=
  let n := words.size
  let (p, q) := offsets n
  let r := 1664525 * fold (wordAt words k ^^^ wordAt words (k + p) ^^^ wordAt words (k + n - 1))
  let r' := r + increment seeds n k
  let words := update words (k + p) (· + r)
  let words := update words (k + q) (· + r')
  update words k fun _ => r'

/-- One step of the second pass. -/
def stir (words : Array UInt32) (k : Nat) : Array UInt32 :=
  let n := words.size
  let (p, q) := offsets n
  let r := 1566083941 * fold (wordAt words k + wordAt words (k + p) + wordAt words (k + n - 1))
  let r' := r - UInt32.ofNat (k % n)
  let words := update words (k + p) (· ^^^ r)
  let words := update words (k + q) (· ^^^ r')
  update words k fun _ => r'

/-- The `n` words grown from some seeds. -/
def generate (seeds : Array UInt32) (n : Nat) : Array UInt32 :=
  let m := max (seeds.size + 1) n
  let words := (List.range m).foldl (absorb seeds) (Array.replicate n filler)
  (List.range' m n).foldl stir words

end Timetable.SeedSequence
