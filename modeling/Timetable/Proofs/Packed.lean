import Timetable.Proofs.Bytes
import Timetable.Uuid

/-!
# Identifiers of given names

Thousands of steps on arrays lead from a name to its identifier. Here an array of words is one
number, in which each word has 32 bits of its own (`Packed.Packs`), and each of the steps takes a
few operations on that number. The words come out the same (`Packed.packs_generate`), and so do the
bytes that are drawn from them (`Packed.bytes_ofSeeds`), so the identifier of a given name can be
computed within a proof (`Uuid.toString_ofText`).
-/

namespace Timetable

namespace Packed

open MersenneTwister
open SeedSequence (filler fold increment offsets)

/-! ### Words of a number -/

/-- The word at a place of a number. -/
def word (s i : Nat) : UInt32 := UInt32.ofNat (s >>> (32 * i))

/-- Replaces the word at a place of a number. -/
def put (s i : Nat) (x : UInt32) : Nat :=
  s >>> (32 * (i + 1)) <<< (32 * (i + 1)) ||| x.toNat <<< (32 * i) ||| s % 2 ^ (32 * i)

theorem testBit_word (s i b : Nat) :
    (word s i).toNat.testBit b = (decide (b < 32) && s.testBit (32 * i + b)) := by
  show (s >>> (32 * i) % 2 ^ 32).testBit b = _
  rw [Nat.testBit_mod_two_pow, Nat.testBit_shiftRight]

theorem testBit_of_le (x : UInt32) {b : Nat} (hb : 32 ≤ b) : x.toNat.testBit b = false :=
  Nat.testBit_lt_two_pow (Nat.lt_of_lt_of_le x.toNat_lt (Nat.pow_le_pow_right (by decide) hb))

theorem testBit_put_self (s i : Nat) (x : UInt32) {b : Nat} (hb : b < 32) :
    (put s i x).testBit (32 * i + b) = x.toNat.testBit b := by
  have habove : ¬ 32 * (i + 1) ≤ 32 * i + b := by omega
  simp [put, Nat.testBit_shiftLeft, Nat.testBit_mod_two_pow, habove]

theorem testBit_put_of_ne (s : Nat) {i j : Nat} (x : UInt32) {b : Nat} (hb : b < 32)
    (h : j ≠ i) : (put s i x).testBit (32 * j + b) = s.testBit (32 * j + b) := by
  rcases Nat.lt_or_gt_of_ne h with hlt | hgt
  · have habove : ¬ 32 * (i + 1) ≤ 32 * j + b := by omega
    have hbelow : 32 * j + b < 32 * i := by omega
    simp [put, Nat.testBit_shiftLeft, Nat.testBit_mod_two_pow, habove, hbelow]
  · have habove : 32 * (i + 1) ≤ 32 * j + b := by omega
    have hbelow : ¬ 32 * j + b < 32 * i := by omega
    have hback : 32 * (i + 1) + (32 * j + b - 32 * (i + 1)) = 32 * j + b := by omega
    have hpast := testBit_of_le x (b := 32 * j + b - 32 * i) (by omega)
    simp [put, Nat.testBit_shiftLeft, Nat.testBit_mod_two_pow, Nat.testBit_shiftRight, habove,
      hbelow, hback, hpast]

/-- A word that has been replaced is read back, and no other word changes. -/
theorem word_put (s i : Nat) (x : UInt32) (j : Nat) :
    word (put s i x) j = if j = i then x else word s j := by
  rw [← UInt32.toNat_inj]
  apply Nat.eq_of_testBit_eq
  intro b
  rw [testBit_word]
  by_cases hb : b < 32
  · split
    · next h => rw [h, testBit_put_self s i x hb, decide_eq_true hb, Bool.true_and]
    · next h => rw [testBit_put_of_ne s x hb h, testBit_word]
  · rw [testBit_of_le _ (Nat.le_of_not_lt hb), decide_eq_false hb, Bool.false_and]

/-- The first `n` words of a number are the words of an array. -/
structure Packs (n s : Nat) (words : Array UInt32) : Prop where
  pos : 0 < n
  size_eq : words.size = n
  word_eq : ∀ i < n, words.getD i 0 = word s i

/-- The word at a place counted around the end. -/
def wordAt (n s i : Nat) : UInt32 := word s (i % n)

/-- Changes the word at a place counted around the end. -/
def update (n s i : Nat) (f : UInt32 → UInt32) : Nat := put s (i % n) (f (wordAt n s i))

section Packs

variable {n s : Nat} {words : Array UInt32}

theorem Packs.wordAt_eq (h : Packs n s words) (i : Nat) :
    SeedSequence.wordAt words i = wordAt n s i := by
  rw [SeedSequence.wordAt, h.size_eq]
  exact h.word_eq _ (Nat.mod_lt _ h.pos)

theorem Packs.update (h : Packs n s words) (i : Nat) (f : UInt32 → UInt32) :
    Packs n (update n s i f) (SeedSequence.update words i f) where
  pos := h.pos
  size_eq := by rw [SeedSequence.update, Array.size_modify, h.size_eq]
  word_eq j hj := by
    have hnew := h.word_eq (i % n) (Nat.mod_lt _ h.pos)
    have hold := h.word_eq j hj
    have hsize : j < words.size := h.size_eq ▸ hj
    rw [Packed.update, word_put, wordAt, ← hnew, ← hold, SeedSequence.update, h.size_eq]
    simp only [Array.getD_eq_getD_getElem?, Array.getElem?_modify, eq_comm (a := i % n),
      Array.getElem?_eq_getElem hsize]
    split
    · next h => simp [← h, Array.getElem?_eq_getElem hsize]
    · rfl

/-! ### Growing words from seeds -/

/-- Goes through places. A number is computed before the next one is begun. -/
def run (f : Nat → Nat → Nat) : Nat → List Nat → Nat
  | s, [] => s
  | s, k :: ks =>
    match f s k with
    | 0 => run f 0 ks
    | s' + 1 => run f (s' + 1) ks

theorem run_eq_foldl (f : Nat → Nat → Nat) (s : Nat) (ks : List Nat) :
    run f s ks = ks.foldl f s := by
  induction ks generalizing s with
  | nil => rfl
  | cons k ks ih =>
    rw [run, List.foldl_cons]
    split
    · next h => rw [h, ih]
    · next h => rw [h, ih]

/-- If each step keeps the words of a number those of an array, all of them do. -/
theorem Packs.run {f : Nat → Nat → Nat} {g : Array UInt32 → Nat → Array UInt32}
    (h : Packs n s words)
    (hstep : ∀ {s words} k, Packs n s words → Packs n (f s k) (g words k)) (ks : List Nat) :
    Packs n (run f s ks) (ks.foldl g words) := by
  rw [run_eq_foldl]
  induction ks generalizing s words with
  | nil => exact h
  | cons k ks ih => exact ih (hstep k h)

/-- The number in which each of the first words is the one from before mixing. -/
def blank (n : Nat) : Nat := run (fun s i => put s i filler) 0 (List.range n)

theorem word_blank {i : Nat} (hi : i < n) : word (blank n) i = filler := by
  rw [blank, run_eq_foldl]
  induction n with
  | zero => omega
  | succ n ih =>
    rw [List.range_succ, List.foldl_append, List.foldl_cons, List.foldl_nil, word_put]
    split
    · rfl
    · exact ih (by omega)

theorem packs_blank (hn : 0 < n) : Packs n (blank n) (Array.replicate n filler) where
  pos := hn
  size_eq := Array.size_replicate
  word_eq i hi := by
    rw [word_blank hi]
    simp [Array.getD_eq_getD_getElem?, hi]

/-- One step of the first pass. -/
def absorb (seeds : Array UInt32) (n s k : Nat) : Nat :=
  let (p, q) := offsets n
  let r := 1664525 * fold (wordAt n s k ^^^ wordAt n s (k + p) ^^^ wordAt n s (k + n - 1))
  let r' := r + increment seeds n k
  let s := update n s (k + p) (· + r)
  let s := update n s (k + q) (· + r')
  update n s k fun _ => r'

/-- One step of the second pass. -/
def stir (n s k : Nat) : Nat :=
  let (p, q) := offsets n
  let r := 1566083941 * fold (wordAt n s k + wordAt n s (k + p) + wordAt n s (k + n - 1))
  let r' := r - UInt32.ofNat (k % n)
  let s := update n s (k + p) (· ^^^ r)
  let s := update n s (k + q) (· ^^^ r')
  update n s k fun _ => r'

/-- The number with the `n` words grown from some seeds. -/
def generate (seeds : Array UInt32) (n : Nat) : Nat :=
  let m := max (seeds.size + 1) n
  run (stir n) (run (absorb seeds n) (blank n) (List.range m)) (List.range' m n)

theorem Packs.absorb (h : Packs n s words) (seeds : Array UInt32) (k : Nat) :
    Packs n (absorb seeds n s k) (SeedSequence.absorb seeds words k) := by
  unfold Packed.absorb SeedSequence.absorb
  simp only [h.size_eq, h.wordAt_eq]
  exact ((h.update _ _).update _ _).update _ _

theorem Packs.stir (h : Packs n s words) (k : Nat) :
    Packs n (stir n s k) (SeedSequence.stir words k) := by
  unfold Packed.stir SeedSequence.stir
  simp only [h.size_eq, h.wordAt_eq]
  exact ((h.update _ _).update _ _).update _ _

/-- Seeds grow into the same words either way. -/
theorem packs_generate (seeds : Array UInt32) (hn : 0 < n) :
    Packs n (generate seeds n) (SeedSequence.generate seeds n) :=
  ((packs_blank hn).run (fun k h => h.absorb seeds k) _).run (fun k h => h.stir k) _

end Packs

/-! ### Drawing bytes -/

/-- What replaces a word of a round, from it, the next word and the one that is taken in. -/
def twisted (x next other : UInt64) : UInt64 :=
  let y := (x &&& upperMask) ||| (next &&& ~~~upperMask)
  other ^^^ (y >>> 1) ^^^ (if y &&& 1 = 0 then 0 else twistMatrix)

section Round

variable {words : Array UInt64} {n j : Nat}

theorem getD_twist (hsize : words.size = size) {i : Nat} (hi : i < size) (j : Nat) :
    (twist words i).getD j 0 = if j = i then
      twisted (words.getD i 0) (words.getD ((i + 1) % size) 0) (words.getD ((i + shift) % size) 0)
    else words.getD j 0 := by
  unfold twist
  simp only [Array.getD_eq_getD_getElem?, Array.getElem?_modify, Nat.mod_eq_of_lt hi]
  by_cases h : i = j
  · subst h
    have hi' : i < words.size := hsize ▸ hi
    simp [Array.getElem?_eq_getElem hi', twisted]
  · simp [h, Ne.symm h]

theorem size_foldl_twist (words : Array UInt64) (is : List Nat) :
    (is.foldl twist words).size = words.size := by
  induction is generalizing words with
  | nil => rfl
  | cons i is ih => rw [List.foldl_cons, ih, twist, Array.size_modify]

/-- A round goes from the first word to the last. -/
theorem getD_round_of_le (hsize : words.size = size) (hn : n ≤ size) (hj : n ≤ j) :
    ((List.range n).foldl twist words).getD j 0 = words.getD j 0 := by
  induction n with
  | zero => rfl
  | succ n ih =>
    rw [List.range_succ, List.foldl_append, List.foldl_cons, List.foldl_nil,
      getD_twist (by rw [size_foldl_twist, hsize]) hn, if_neg (by omega), ih (by omega) (by omega)]

/-- The first words of a round are replaced before those are that they take in. -/
theorem getD_round (hsize : words.size = size) (hn : n ≤ size) (hj : j < n)
    (hshift : j + shift < size) : ((List.range n).foldl twist words).getD j 0 =
      twisted (words.getD j 0) (words.getD (j + 1) 0) (words.getD (j + shift) 0) := by
  induction n with
  | zero => omega
  | succ n ih =>
    rw [List.range_succ, List.foldl_append, List.foldl_cons, List.foldl_nil,
      getD_twist (by rw [size_foldl_twist, hsize]) hn]
    split
    · next h =>
      subst h
      have hpos : 0 < shift := by decide
      have hnext : j + 1 < size := by omega
      rw [Nat.mod_eq_of_lt hnext, Nat.mod_eq_of_lt hshift,
        getD_round_of_le hsize (by omega) (Nat.le_refl j),
        getD_round_of_le hsize (by omega) (Nat.le_add_right j 1),
        getD_round_of_le hsize (by omega) (Nat.le_add_right j shift)]
    · exact ih (by omega) (by omega)

end Round

/-- Within a round, the bytes that are drawn are those of its words. -/
theorem bytes_eq_map (n : Nat) {g : MersenneTwister} (h : g.position + n ≤ size) :
    (g.bytes n).1 =
      (List.range' g.position n).map fun i => (temper (g.words.getD i 0)).toUInt8 := by
  induction n generalizing g with
  | zero => rfl
  | succ n ih =>
    have hlt : g.position < size := by omega
    have hle : g.position + 1 + n ≤ size := by omega
    have hnext : g.next = (temper (g.words.getD g.position 0), ⟨g.words, g.position + 1⟩) := by
      rw [next, if_pos hlt]
    rw [bytes, hnext, List.range'_succ, List.map_cons]
    exact congrArg (List.cons _) (ih (g := ⟨g.words, g.position + 1⟩) hle)

/-- A generator whose round is used up draws from the next one. -/
theorem bytes_of_used (words : Array UInt64) (n : Nat) :
    ((⟨words, size⟩ : MersenneTwister).bytes n).1 =
      ((⟨(List.range size).foldl twist words, 0⟩ : MersenneTwister).bytes n).1 := by
  have hnext : (⟨words, size⟩ : MersenneTwister).next =
      (⟨(List.range size).foldl twist words, 0⟩ : MersenneTwister).next := by
    rw [next, if_neg (Nat.lt_irrefl size), next, if_pos (show 0 < size by decide)]
  cases n with
  | zero => rw [bytes, bytes]
  | succ n => rw [bytes, bytes, hnext]

/-- The word of 64 bits at a place of a number. -/
def wideWord (s i : Nat) : UInt64 :=
  (word s (2 * i)).toUInt64 + ((word s (2 * i + 1)).toUInt64 <<< 32)

/-- The byte that is drawn at one of the first places of a round. -/
def octet (s i : Nat) : UInt8 :=
  (temper (twisted (wideWord s i) (wideWord s (i + 1)) (wideWord s (i + shift)))).toUInt8

/-- A generator that seeds start has the words of the number, unless the first one is too small. -/
theorem exists_ofSeeds_eq (seeds : Array UInt32)
    (hfirst : wideWord (generate seeds (2 * size)) 0 &&& upperMask ≠ 0) :
    ∃ words : Array UInt64, ofSeeds seeds = ⟨words, size⟩ ∧ words.size = size ∧
      ∀ i < size, words.getD i 0 = wideWord (generate seeds (2 * size)) i := by
  have hpacks := packs_generate seeds (n := 2 * size) (by decide)
  let words := (Array.range size).map fun i =>
    ((SeedSequence.generate seeds (2 * size)).getD (2 * i) 0).toUInt64 +
      (((SeedSequence.generate seeds (2 * size)).getD (2 * i + 1) 0).toUInt64 <<< 32)
  have hwords : ∀ i < size, words.getD i 0 = wideWord (generate seeds (2 * size)) i := by
    intro i hi
    have heven := hpacks.word_eq (2 * i) (by omega)
    have hodd := hpacks.word_eq (2 * i + 1) (by omega)
    simp [words, Array.getD_eq_getD_getElem?, hi, wideWord, ← heven, ← hodd]
  have hstuck : words.getD 0 0 &&& upperMask ≠ 0 := by
    rw [hwords 0 (by decide)]
    exact hfirst
  refine ⟨words, ?_, by simp [words], hwords⟩
  show (⟨if words.getD 0 0 &&& upperMask = 0 ∧ _ then _ else words, size⟩ : MersenneTwister) = _
  rw [if_neg fun h => hstuck h.1]

/-- The bytes that seeds give first. -/
theorem bytes_ofSeeds (seeds : Array UInt32) {n : Nat} (hn : n + shift ≤ size)
    (hfirst : wideWord (generate seeds (2 * size)) 0 &&& upperMask ≠ 0) :
    ((ofSeeds seeds).bytes n).1 = (List.range n).map (octet (generate seeds (2 * size))) := by
  obtain ⟨words, hofSeeds, hsize, hwords⟩ := exists_ofSeeds_eq seeds hfirst
  have hpos : 0 < shift := by decide
  have hle : 0 + n ≤ size := by omega
  rw [hofSeeds, bytes_of_used, bytes_eq_map n hle, ← List.range_eq_range']
  apply List.map_congr_left
  intro i hi
  have hi : i < n := List.mem_range.1 hi
  rw [getD_round hsize (Nat.le_refl size) (by omega) (by omega), hwords i (by omega),
    hwords (i + 1) (by omega), hwords (i + shift) (by omega)]
  rfl

/-- The number with the words that a text seeds. -/
def ofText (name : String) : Nat :=
  let bs := Text.bytes name
  generate (bs.map UInt8.toUInt32 ++ [UInt32.ofNat bs.length]).toArray (2 * size)

/-- The identifier that is made of the bytes drawn from that number. -/
def identifier (name : String) : Uuid :=
  ⟨Uuid.stamp 8 ((List.range 16).map (octet (ofText name))), by simp [Uuid.length_stamp]⟩

end Packed

namespace Uuid

open MersenneTwister

/-- The bytes of a text's identifier are drawn from the number that the text seeds. -/
theorem octets_ofText (name : String)
    (hfirst : Packed.wideWord (Packed.ofText name) 0 &&& upperMask ≠ 0) :
    (ofText name).octets = stamp 8 ((List.range 16).map (Packed.octet (Packed.ofText name))) := by
  rw [ofText, Text.toList_toUTF8]
  show stamp 8 ((ofSeeds _).bytes 16).1 = _
  rw [Packed.bytes_ofSeeds _ (by decide) hfirst]
  rfl

/-- The identifier of a text has the text of the bytes that are drawn. -/
theorem toString_ofText {name text : String}
    (h : Packed.wideWord (Packed.ofText name) 0 &&& upperMask ≠ 0 ∧
      (Packed.identifier name).toString = text) : (ofText name).toString = text := by
  rw [Uuid.toString, toText, octets_ofText name h.1]
  exact h.2

end Uuid

end Timetable
