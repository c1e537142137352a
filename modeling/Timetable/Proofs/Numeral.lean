import Mathlib.Data.List.Induction
import Mathlib.Data.List.TakeWhile
import Mathlib.Data.Nat.Digits.Defs
import Timetable.Numeral
import Timetable.Proofs.Bytes

/-!
# Which bytes are read as counts

A reader for counts goes through digits with a word, and gives up as soon as the word would
overflow. What it reads is told without words and without a reader: a numeral is one or more digits,
the digits denote a number (`Numeral.denoted`), and the numeral is read as this number exactly if it
is not too large (`Numeral.reads_numerals_up_to`).
-/

namespace Timetable.Numeral

variable {b : UInt8} {bs : List UInt8} {n m max : UInt64}

/-! ### Numerals -/

/-- Bytes that are a decimal numeral: one or more digits, whatever the first of them. -/
def IsNumeral (bs : List UInt8) : Prop :=
  bs ≠ [] ∧ ∀ b ∈ bs, '0'.toNat ≤ b.toNat ∧ b.toNat ≤ '9'.toNat

/-- The number that digits denote: the last of them counts once, and each other one ten times as
much as the one behind it. -/
def denoted (bs : List UInt8) : Nat := Nat.ofDigits 10 (bs.reverse.map fun b => b.toNat - '0'.toNat)

theorem denoted_cons (b : UInt8) (bs : List UInt8) :
    denoted (b :: bs) = (b.toNat - '0'.toNat) * 10 ^ bs.length + denoted bs := by
  rw [denoted, List.reverse_cons, List.map_append, Nat.ofDigits_append, List.map_singleton,
    Nat.ofDigits_singleton, List.length_map, List.length_reverse, denoted, Nat.mul_comm,
    Nat.add_comm]

theorem denoted_concat (bs : List UInt8) (b : UInt8) :
    denoted (bs ++ [b]) = 10 * denoted bs + (b.toNat - '0'.toNat) := by
  rw [denoted, List.reverse_concat, List.map_cons, Nat.ofDigits_cons, denoted, Nat.add_comm]

/-- The bytes of digits denote their value. -/
theorem denoted_map {ds : List Char} (h : ∀ d ∈ ds, d.isDigit = true) :
    denoted (ds.map Char.toUInt8) = value ds := by
  induction ds using List.reverseRecOn with
  | nil => rfl
  | append_singleton ds d ih =>
    have hd : d.toNat ≤ 57 := (Char.isDigit_iff_toNat.1 (h d (by simp))).2
    have hds : denoted (ds.map Char.toUInt8) = value ds := ih fun c hc => h c (by simp [hc])
    rw [List.map_append, List.map_singleton, denoted_concat, hds, Text.toNat_toUInt8 (by omega),
      value, value, Nat.ofDigitChars_append]
    rfl

/-! ### Going through digits -/

theorem isDigit_iff : isDigit b = true ↔ '0'.toNat ≤ b.toNat ∧ b.toNat ≤ '9'.toNat := by
  rw [isDigit, Bool.and_eq_true, decide_eq_true_iff, decide_eq_true_iff, UInt8.le_iff_toNat_le,
    UInt8.le_iff_toNat_le]
  rfl

theorem toNat_digit (hb : isDigit b = true) :
    (b - 48).toUInt64.toNat = b.toNat - '0'.toNat := by
  have hle : (48 : UInt8) ≤ b := UInt8.le_iff_toNat_le.2 (isDigit_iff.1 hb).1
  rw [UInt8.toNat_toUInt64, UInt8.toNat_sub_of_le b 48 hle]
  rfl

/-- The two tests before a digit is taken let a word through exactly if it has room for it. -/
theorem room_iff {d : UInt64} (hd : d.toNat ≤ 9) :
    (n ≤ largest / 10 ∧ n * 10 ≤ largest - d) ↔ n.toNat * 10 + d.toNat < 2 ^ 64 := by
  have hlargest : largest.toNat = 18446744073709551615 := rfl
  have htenth : (largest / 10).toNat = 1844674407370955161 := rfl
  have hrest : (largest - d).toNat = 18446744073709551615 - d.toNat := by
    rw [UInt64.toNat_sub_of_le, hlargest]
    rw [UInt64.le_iff_toNat_le, hlargest]
    omega
  have hten : n.toNat ≤ 1844674407370955161 → (n * 10).toNat = n.toNat * 10 := by
    intro hsmall
    rw [UInt64.toNat_mul]
    apply Nat.mod_eq_of_lt
    show n.toNat * 10 < 2 ^ 64
    omega
  rw [UInt64.le_iff_toNat_le, UInt64.le_iff_toNat_le, htenth, hrest]
  constructor
  · rintro ⟨hsmall, hle⟩
    rw [hten hsmall] at hle
    omega
  · intro hlt
    have hsmall : n.toNat ≤ 1844674407370955161 := by omega
    rw [hten hsmall]
    omega

/-- A digit is put behind a word exactly if a word has room for what comes out. -/
theorem append?_eq_some_iff (hb : isDigit b = true) :
    append? n b = some m ↔ n.toNat * 10 + (b.toNat - '0'.toNat) = m.toNat := by
  have hdigit := toNat_digit hb
  have hsmall : (b - 48).toUInt64.toNat ≤ 9 := by
    have hnine : b.toNat ≤ 57 := (isDigit_iff.1 hb).2
    rw [hdigit]
    show b.toNat - 48 ≤ 9
    omega
  rw [← hdigit]
  simp only [append?, room_iff hsmall]
  split
  · next hroom =>
    have hsum : (n * 10 + (b - 48).toUInt64).toNat =
        n.toNat * 10 + (b - 48).toUInt64.toNat := by
      rw [UInt64.toNat_add, UInt64.toNat_mul, Nat.mod_add_mod]
      exact Nat.mod_eq_of_lt hroom
    rw [Option.some.injEq, ← UInt64.toNat_inj, hsum]
  · next hroom =>
    constructor
    · intro h
      cases h
    · intro h
      exact absurd (h ▸ m.toNat_lt) hroom

/-- Once there is no room, no digit makes room again. -/
theorem scan_none (bs : List UInt8) : (scan none bs).1 = none := by
  induction bs with
  | nil => rfl
  | cons b bs ih =>
    rw [scan]
    split
    · exact ih
    · rfl

/-- Digits make a word exactly if the number that they denote behind the word has room in one. -/
theorem scan_eq_some_iff (hbs : ∀ b ∈ bs, isDigit b = true) :
    (scan (some n) bs).1 = some m ↔ n.toNat * 10 ^ bs.length + denoted bs = m.toNat := by
  induction bs generalizing n with
  | nil =>
    rw [scan, Option.some.injEq, ← UInt64.toNat_inj, List.length_nil, Nat.pow_zero, Nat.mul_one]
    rfl
  | cons b bs ih =>
    have hb : isDigit b = true := hbs b List.mem_cons_self
    have hrest := fun k => ih (n := k) fun c hc => hbs c (List.mem_cons_of_mem b hc)
    have hsplit : n.toNat * 10 ^ (b :: bs).length + denoted (b :: bs) =
        (n.toNat * 10 + (b.toNat - '0'.toNat)) * 10 ^ bs.length + denoted bs := by
      rw [denoted_cons, List.length_cons, Nat.pow_succ', ← Nat.mul_assoc, Nat.add_mul,
        Nat.add_assoc]
    rw [scan, if_pos hb, Option.bind_some, hsplit]
    cases happend : append? n b with
    | some k => rw [hrest, (append?_eq_some_iff hb).1 happend]
    | none =>
      rw [scan_none]
      constructor
      · intro h
        cases h
      · intro h
        -- the digits that follow only make the number larger
        have hpos : 0 < 10 ^ bs.length := Nat.pow_pos (by decide)
        have hle := Nat.le_mul_of_pos_right (n.toNat * 10 + (b.toNat - '0'.toNat)) hpos
        have hm := m.toNat_lt
        have hfits : n.toNat * 10 + (b.toNat - '0'.toNat) < 2 ^ 64 := by omega
        have hsome := (append?_eq_some_iff hb).2 (UInt64.toNat_ofNat_of_lt' hfits).symm
        rw [happend] at hsome
        cases hsome

theorem scan_snd (n : Option UInt64) (bs : List UInt8) :
    (scan n bs).2 = bs.dropWhile isDigit := by
  induction bs generalizing n with
  | nil => rfl
  | cons b bs ih =>
    rw [scan, List.dropWhile_cons]
    split
    · exact ih _
    · rfl

/-! ### Reading -/

/-- Bytes are read as a number exactly if they are a numeral that denotes it and it is not too
large. -/
theorem parseBytes?_eq_some_iff :
    parseBytes? max bs = some n ↔ IsNumeral bs ∧ denoted bs = n.toNat ∧ n ≤ max := by
  constructor
  · intro h
    unfold parseBytes? at h
    split at h
    · next hhead =>
      split at h
      · next k hscan =>
        split at h
        · next hle =>
          obtain rfl : k = n := Option.some.inj h
          have hdigits : ∀ b ∈ bs, isDigit b = true := by
            have hrest := scan_snd (some 0) bs
            rw [hscan] at hrest
            exact List.dropWhile_eq_nil_iff.1 hrest.symm
          have hnumber := (scan_eq_some_iff hdigits).1 (congrArg Prod.fst hscan)
          rw [UInt64.toNat_zero, Nat.zero_mul, Nat.zero_add] at hnumber
          refine ⟨⟨?_, fun b hb => isDigit_iff.1 (hdigits b hb)⟩, hnumber, hle⟩
          rintro rfl
          cases hhead
        · cases h
      · cases h
    · cases h
  · rintro ⟨⟨hne, hbytes⟩, hnumber, hle⟩
    have hdigits : ∀ b ∈ bs, isDigit b = true := fun b hb => isDigit_iff.2 (hbytes b hb)
    have hhead : bs.head?.any isDigit = true := by
      obtain ⟨b, rest, rfl⟩ := List.exists_cons_of_ne_nil hne
      exact hdigits b List.mem_cons_self
    have hscan : scan (some 0) bs = (some n, []) := by
      apply Prod.ext
      · apply (scan_eq_some_iff hdigits).2
        rw [UInt64.toNat_zero, Nat.zero_mul, Nat.zero_add, hnumber]
      · rw [scan_snd]
        exact List.dropWhile_eq_nil_iff.2 hdigits
    rw [parseBytes?, if_pos hhead, hscan]
    exact if_pos hle

theorem value_zeros_append (zeros : Nat) (ds : List Char) :
    value (List.replicate zeros '0' ++ ds) = value ds := by
  induction zeros with
  | zero => rfl
  | succ zeros ih => exact ih

/-- The text of a number, with zeros in front, is a numeral that denotes the number. -/
theorem denoted_zeros_digits (zeros k : Nat) :
    IsNumeral (Text.bytes (String.ofList (List.replicate zeros '0' ++ digits k))) ∧
      denoted (Text.bytes (String.ofList (List.replicate zeros '0' ++ digits k))) = k := by
  have hdigits : ∀ c ∈ List.replicate zeros '0' ++ digits k, c.isDigit = true := by
    intro c hc
    rcases List.mem_append.1 hc with hc | hc
    · rw [(List.mem_replicate.1 hc).2]
      rfl
    · exact isDigit_of_mem_digits hc
  have hrange : ∀ c ∈ List.replicate zeros '0' ++ digits k, 48 ≤ c.toNat ∧ c.toNat ≤ 57 :=
    fun c hc => Char.isDigit_iff_toNat.1 (hdigits c hc)
  have hbytes : Text.bytes (String.ofList (List.replicate zeros '0' ++ digits k)) =
      (List.replicate zeros '0' ++ digits k).map Char.toUInt8 := by
    rw [Text.bytes_eq_map, String.toList_ofList]
    intro c hc
    rw [String.toList_ofList] at hc
    exact Nat.lt_of_le_of_lt (hrange c hc).2 (by decide)
  rw [hbytes]
  refine ⟨⟨?_, ?_⟩, ?_⟩
  · rw [ne_eq, List.map_eq_nil_iff, List.append_eq_nil_iff, not_and]
    exact fun _ => Nat.toDigits_ne_nil
  · intro b hb
    obtain ⟨c, hc, rfl⟩ := List.mem_map.1 hb
    obtain ⟨hlow, hhigh⟩ := hrange c hc
    rw [Text.toNat_toUInt8 (Nat.lt_of_le_of_lt hhigh (by decide))]
    exact ⟨hlow, hhigh⟩
  · rw [denoted_map hdigits, value_zeros_append, value_digits]

/-- Bytes are read as a number exactly if they are one or more digits that denote it, however many
zeros stand in front, and it is at most `max`. So nothing is read if the number that digits denote
is larger, be it too large for a word, and the text of every number up to `max` is read as this
number. -/
theorem reads_numerals_up_to (max : UInt64) (bs : List UInt8) :
    (∀ n, parseBytes? max bs = some n ↔ IsNumeral bs ∧ denoted bs = n.toNat ∧ n ≤ max) ∧
      (parseBytes? max bs = none ↔ ¬ IsNumeral bs ∨ max.toNat < denoted bs) ∧
      ∀ n ≤ max, ∀ zeros,
        parse? max (String.ofList (List.replicate zeros '0' ++ digits n.toNat)) = some n := by
  refine ⟨fun n => parseBytes?_eq_some_iff, ?_, ?_⟩
  · constructor
    · intro hnone
      by_contra hread
      obtain ⟨hnumeral, hle⟩ := not_or.1 hread
      have hle : denoted bs ≤ max.toNat := Nat.le_of_not_lt hle
      have hword : (UInt64.ofNat (denoted bs)).toNat = denoted bs :=
        UInt64.toNat_ofNat_of_lt' (Nat.lt_of_le_of_lt hle max.toNat_lt)
      have hsome : parseBytes? max bs = some (.ofNat (denoted bs)) := by
        apply parseBytes?_eq_some_iff.2
        refine ⟨not_not.1 hnumeral, hword.symm, ?_⟩
        rwa [UInt64.le_iff_toNat_le, hword]
      rw [hnone] at hsome
      cases hsome
    · intro hunread
      apply Option.eq_none_iff_forall_ne_some.2
      intro n hsome
      obtain ⟨hnumeral, hnumber, hle⟩ := parseBytes?_eq_some_iff.1 hsome
      rw [UInt64.le_iff_toNat_le, ← hnumber] at hle
      rcases hunread with hnot | hlt
      · exact hnot hnumeral
      · exact Nat.not_lt.2 hle hlt
  · intro n hle zeros
    obtain ⟨hnumeral, hnumber⟩ := denoted_zeros_digits zeros n.toNat
    exact parseBytes?_eq_some_iff.2 ⟨hnumeral, hnumber, hle⟩

/-- Up to ten, ten is read with zeros in front, and a number that leaves ten over when it is divided
by 2 to the 64th is not. -/
theorem reads_numerals_up_to_ten :
    (10 : UInt64) ≤ 10 ∧ parse? 10 "0010" = some 10 ∧
      denoted (Text.bytes "18446744073709551626") % 2 ^ 64 = 10 ∧
      parseBytes? 10 (Text.bytes "18446744073709551626") = none := by
  have hten : (10 : UInt64) ≤ 10 := by decide
  have hdenoted : denoted (Text.bytes "18446744073709551626") = 18446744073709551626 := by
    decide +kernel
  refine ⟨hten, ?_, ?_, ?_⟩
  · exact (reads_numerals_up_to 10 []).2.2 10 hten 2
  · rw [hdenoted]
    rfl
  · apply (reads_numerals_up_to 10 _).2.1.2
    right
    rw [hdenoted]
    decide

end Timetable.Numeral
