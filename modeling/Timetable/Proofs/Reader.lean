import Mathlib.Algebra.Group.Nat.Defs
import Mathlib.Data.Option.Basic
import Timetable.Proofs.Rfc3339

/-!
# Which texts are read as times

A `Writing` is a text in its parts: six fields, the digits of a fraction, and a letter for UTC or an
offset from it. What a field reads is a `Number`: blanks, which do not count, then a sign, if there
is one, and digits. The texts that are read as instants are those whose parts read as numbers that
the calendar and the clock have (`parse?_eq_some_iff`), and they have these parts in one way
(`Writing.text_inj`).
-/

namespace Timetable

namespace Numeral

theorem value_append (ds ds' : List Char) :
    value (ds ++ ds') = value ds * 10 ^ ds'.length + value ds' := by
  rw [value, value, value, Nat.ofDigitChars_append, Nat.ofDigitChars_eq_ofDigitChars_zero,
    Nat.mul_comm]

/-- The value of digits has no more digits than these. -/
theorem value_lt {ds : List Char} (h : ∀ c ∈ ds, c.isDigit = true) :
    value ds < 10 ^ ds.length := by
  induction ds with
  | nil => decide
  | cons d ds ih =>
    have hfirst : value [d] ≤ 9 := by
      have hd : d.toNat ≤ 57 := (Char.isDigit_iff_toNat.1 (h d (by simp))).2
      show 10 * 0 + (d.toNat - 48) ≤ 9
      omega
    have hrest : value ds < 10 ^ ds.length := ih fun c hc => h c (by simp [hc])
    calc value (d :: ds) = value [d] * 10 ^ ds.length + value ds := value_append [d] ds
      _ < 9 * 10 ^ ds.length + 10 ^ ds.length :=
        Nat.add_lt_add_of_le_of_lt (Nat.mul_le_mul_right _ hfirst) hrest
      _ = 10 ^ (d :: ds).length := by rw [List.length_cons, Nat.pow_succ]; omega

/-- Digits left off at the end are cut off the value. -/
theorem value_take {ds : List Char} (h : ∀ c ∈ ds, c.isDigit = true) (n : Nat) :
    value (ds.take n) = value ds / 10 ^ (ds.length - n) := by
  have hrest : value (ds.drop n) < 10 ^ (ds.length - n) := by
    rw [← List.length_drop]
    exact value_lt fun c hc => h c (List.mem_of_mem_drop hc)
  conv_rhs =>
    rw [← List.take_append_drop n ds, value_append, List.length_drop, List.take_append_drop]
  rw [Nat.add_comm, Nat.add_mul_div_right _ _ (Nat.pow_pos (by decide)), Nat.div_eq_of_lt hrest,
    Nat.zero_add]

/-- Three places of a fraction are its thousandths, rounded down. -/
theorem value_take_three {ds : List Char} (hsome : ds ≠ []) (h : ∀ c ∈ ds, c.isDigit = true) :
    value ((ds ++ ['0', '0']).take 3) = value ds * 1000 / 10 ^ ds.length := by
  have hdigits : ∀ c ∈ ds ++ ['0', '0'], c.isDigit = true := by
    intro c hc
    rcases List.mem_append.1 hc with hc | hc
    · exact h c hc
    · obtain rfl : c = '0' := by simpa using hc
      rfl
  obtain ⟨k, hk⟩ := Nat.exists_eq_succ_of_ne_zero (mt List.length_eq_zero_iff.1 hsome)
  have hlength : (ds ++ ['0', '0']).length - 3 = k := by
    rw [List.length_append, hk]
    rfl
  calc value ((ds ++ ['0', '0']).take 3) = (value ds * 100 + 0) / 10 ^ k := by
        rw [value_take hdigits, hlength, value_append]
        rfl
    _ = value ds * 100 * 10 / (10 ^ k * 10) := (Nat.mul_div_mul_right _ _ (by decide)).symm
    _ = value ds * 1000 / 10 ^ ds.length := by rw [Nat.mul_assoc, hk, Nat.pow_succ]

end Numeral

namespace Rfc3339

open Numeral

/-! ### Numbers -/

/-- One or more digits, and no more than a field has room for. -/
structure Run (width : Nat) (ds : List Char) : Prop where
  some : ds ≠ []
  digits : ∀ c ∈ ds, c.isDigit = true
  length_le : ds.length ≤ width

/-- What a field reads as a number: blanks, for which there is always room, then a sign, if there is
one, and digits. -/
inductive Number (width : Nat) : List Char → Int → Prop
  | plain {blanks ds : List Char} (hblanks : ∀ c ∈ blanks, isBlank c = true) (h : Run width ds) :
      Number width (blanks ++ ds) (value ds)
  | plus {blanks ds : List Char} (hblanks : ∀ c ∈ blanks, isBlank c = true)
      (h : Run (width - 1) ds) : Number width (blanks ++ '+' :: ds) (value ds)
  | minus {blanks ds : List Char} (hblanks : ∀ c ∈ blanks, isBlank c = true)
      (h : Run (width - 1) ds) : Number width (blanks ++ '-' :: ds) (-value ds)

/-- The number does not go on: no digit follows it, or there is no room for one. -/
def Ends (width : Nat) (text rest : List Char) : Prop :=
  ∀ c ∈ rest.head?, c.isDigit = true → width ≤ (text.dropWhile isBlank).length

theorem isBlank_of_isDigit {c : Char} (h : c.isDigit = true) : isBlank c = false := by
  rw [Bool.eq_false_iff]
  intro hblank
  have hdigit : 48 ≤ c.toNat := (Char.isDigit_iff_toNat.1 h).1
  simp only [isBlank, Bool.or_eq_true, beq_iff_eq, Bool.and_eq_true, decide_eq_true_eq] at hblank
  rcases hblank with rfl | ⟨-, hle⟩
  · revert hdigit
    decide
  · have hle' : c.toNat ≤ 13 := hle
    omega

/-- The longest run of digits at the front of a text, as far as there is room. -/
theorem exists_takeWhile_take (p : Char → Bool) (width : Nat) (cs : List Char) : ∃ rest,
    cs = (cs.take width).takeWhile p ++ rest ∧
      ∀ c ∈ rest.head?, p c = true → width ≤ ((cs.take width).takeWhile p).length := by
  induction cs generalizing width with
  | nil => exact ⟨[], by simp, by simp⟩
  | cons a cs ih =>
    cases width with
    | zero => exact ⟨a :: cs, by simp, by simp⟩
    | succ width =>
      obtain ⟨rest, hsplit, hends⟩ := ih width
      rw [List.take_succ_cons, List.takeWhile_cons]
      split
      · refine ⟨rest, congrArg (a :: ·) hsplit, fun c hc hp => ?_⟩
        exact Nat.succ_le_succ (hends c hc hp)
      · next ha =>
        refine ⟨a :: cs, rfl, fun c hc hp => ?_⟩
        cases hc
        exact absurd hp ha

theorem takeWhile_take_append {p : Char → Bool} {width : Nat} {ds rest : List Char}
    (hds : ∀ c ∈ ds, p c = true) (hlength : ds.length ≤ width)
    (hends : ∀ c ∈ rest.head?, p c = true → width ≤ ds.length) :
    ((ds ++ rest).take width).takeWhile p = ds := by
  rw [List.take_append, List.take_of_length_le hlength, List.takeWhile_append_of_pos hds]
  rcases Nat.lt_or_ge ds.length width with hlt | hge
  · cases rest with
    | nil => simp
    | cons c rest =>
      obtain ⟨room, hroom⟩ := Nat.exists_eq_succ_of_ne_zero (show width - ds.length ≠ 0 by omega)
      have hc : ¬ p c = true := fun hp => Nat.not_lt.2 (hends c rfl hp) hlt
      rw [hroom, List.take_succ_cons, List.takeWhile_cons_of_neg hc, List.append_nil]
  · rw [Nat.sub_eq_zero_of_le hge, List.take_zero, List.takeWhile_nil, List.append_nil]

theorem digits?_eq_some_iff {width : Nat} {cs rest : List Char} {n : Int} :
    field?.digits? width cs = some (n, rest) ↔ ∃ ds, cs = ds ++ rest ∧ Run width ds ∧
      n = value ds ∧ ∀ c ∈ rest.head?, c.isDigit = true → width ≤ ds.length := by
  constructor
  · intro h
    obtain ⟨rest', hsplit, hends⟩ := exists_takeWhile_take Char.isDigit width cs
    have hdrop : cs.drop ((cs.take width).takeWhile Char.isDigit).length = rest' := by
      conv_lhs => arg 2; rw [hsplit]
      exact List.drop_left
    simp only [field?.digits?, hdrop] at h
    split at h
    · cases h
    · next hsome =>
      obtain ⟨rfl, rfl⟩ := Prod.mk.inj (Option.some.inj h)
      refine ⟨_, hsplit, ⟨by simpa using hsome, ?_, ?_⟩, rfl, hends⟩
      · exact fun c hc => List.all_eq_true.1 List.all_takeWhile c hc
      · exact Nat.le_trans (List.takeWhile_prefix _).length_le (List.length_take_le _ _)
  · rintro ⟨ds, rfl, ⟨hsome, hdigits, hlength⟩, rfl, hends⟩
    have htake := takeWhile_take_append hdigits hlength hends
    simp only [field?.digits?, htake, List.drop_left, List.isEmpty_eq_false_iff.2 hsome,
      Bool.false_eq_true, if_false]

theorem dropWhile_blanks {blanks cs : List Char} (hblanks : ∀ c ∈ blanks, isBlank c = true)
    (hcs : ∀ c ∈ cs.head?, isBlank c = false) : (blanks ++ cs).dropWhile isBlank = cs := by
  rw [List.dropWhile_append_of_pos hblanks]
  cases cs with
  | nil => rfl
  | cons c cs => rw [List.dropWhile_cons_of_neg (by simp [hcs c rfl])]

theorem Run.isDigit_head {width : Nat} {ds rest cs : List Char} {c : Char} (h : Run width ds)
    (hcs : ds ++ rest = c :: cs) : c.isDigit = true := by
  cases ds with
  | nil => exact absurd rfl h.some
  | cons d ds =>
    obtain ⟨rfl, -⟩ := List.cons.inj hcs
    exact h.digits _ (by simp)

theorem Run.isBlank_head {width : Nat} {ds : List Char} (h : Run width ds) (rest : List Char) :
    ∀ c ∈ (ds ++ rest).head?, isBlank c = false := by
  intro c hc
  cases hcs : ds ++ rest with
  | nil => exact absurd hc (by simp [hcs])
  | cons d cs =>
    rw [hcs] at hc
    cases hc
    exact isBlank_of_isDigit (h.isDigit_head hcs)

theorem ends_digits_iff {width : Nat} {blanks ds rest : List Char}
    (hblanks : ∀ c ∈ blanks, isBlank c = true) (h : Run width ds) :
    Ends width (blanks ++ ds) rest ↔ ∀ c ∈ rest.head?, c.isDigit = true → width ≤ ds.length := by
  have hhead : ∀ c ∈ ds.head?, isBlank c = false := by simpa using h.isBlank_head []
  rw [Ends, dropWhile_blanks hblanks hhead]

/-- A sign takes the room of a digit. -/
theorem ends_sign_iff {width : Nat} {blanks ds rest : List Char} {sign : Char}
    (hblanks : ∀ c ∈ blanks, isBlank c = true) (hsign : isBlank sign = false) :
    Ends width (blanks ++ sign :: ds) rest ↔
      ∀ c ∈ rest.head?, c.isDigit = true → width - 1 ≤ ds.length := by
  rw [Ends, dropWhile_blanks hblanks (by simpa using hsign), List.length_cons]
  simp only [Nat.sub_le_iff_le_add]

/-- What a field has read is a number. -/
theorem exists_of_field? {width : Nat} {cs rest : List Char} {n : Int}
    (h : field? width cs = some (n, rest)) :
    ∃ text, cs = text ++ rest ∧ Number width text n ∧ Ends width text rest := by
  have hblanks : ∀ c ∈ cs.takeWhile isBlank, isBlank c = true :=
    fun c hc => List.all_eq_true.1 List.all_takeWhile c hc
  have hcs : cs = cs.takeWhile isBlank ++ cs.dropWhile isBlank :=
    List.takeWhile_append_dropWhile.symm
  generalize cs.takeWhile isBlank = blanks at hblanks hcs
  unfold field? at h
  generalize cs.dropWhile isBlank = r at h hcs
  subst hcs
  dsimp only at h
  split at h
  · obtain ⟨⟨m, rest'⟩, hdigits, heq⟩ := Option.map_eq_some_iff.1 h
    obtain ⟨rfl, rfl⟩ := Prod.mk.inj heq
    obtain ⟨ds, rfl, hrun, rfl, hends⟩ := digits?_eq_some_iff.1 hdigits
    exact ⟨blanks ++ '-' :: ds, by simp, .minus hblanks hrun, (ends_sign_iff hblanks rfl).2 hends⟩
  · obtain ⟨ds, rfl, hrun, rfl, hends⟩ := digits?_eq_some_iff.1 h
    exact ⟨blanks ++ '+' :: ds, by simp, .plus hblanks hrun, (ends_sign_iff hblanks rfl).2 hends⟩
  · obtain ⟨ds, rfl, hrun, rfl, hends⟩ := digits?_eq_some_iff.1 h
    exact ⟨blanks ++ ds, by simp, .plain hblanks hrun, (ends_digits_iff hblanks hrun).2 hends⟩

/-- A field reads a number that does not go on. -/
theorem field?_append {width : Nat} {text rest : List Char} {n : Int} (h : Number width text n)
    (hends : Ends width text rest) : field? width (text ++ rest) = some (n, rest) := by
  unfold field?
  cases h with
  | @plain blanks ds hblanks hrun =>
    rw [List.append_assoc, dropWhile_blanks hblanks (hrun.isBlank_head rest)]
    have hdigits := digits?_eq_some_iff.2
      ⟨ds, rfl, hrun, rfl, (ends_digits_iff hblanks hrun).1 hends⟩
    dsimp only
    -- a digit is not a sign
    split
    · next hsign => exact absurd (hrun.isDigit_head hsign) (by decide)
    · next hsign => exact absurd (hrun.isDigit_head hsign) (by decide)
    · exact hdigits
  | @plus blanks ds hblanks hrun =>
    rw [List.append_assoc, dropWhile_blanks hblanks (by simp [isBlank])]
    exact digits?_eq_some_iff.2 ⟨ds, rfl, hrun, rfl, (ends_sign_iff hblanks rfl).1 hends⟩
  | @minus blanks ds hblanks hrun =>
    rw [List.append_assoc, dropWhile_blanks hblanks (by simp [isBlank])]
    have hdigits := digits?_eq_some_iff.2 ⟨ds, rfl, hrun, rfl, (ends_sign_iff hblanks rfl).1 hends⟩
    exact congrArg (Option.map _) hdigits

/-- A field reads a number, and no more than one. -/
theorem field?_eq_some_iff {width : Nat} {cs rest : List Char} {n : Int} :
    field? width cs = some (n, rest) ↔
      ∃ text, cs = text ++ rest ∧ Number width text n ∧ Ends width text rest := by
  refine ⟨exists_of_field?, ?_⟩
  rintro ⟨text, rfl, hnumber, hends⟩
  exact field?_append hnumber hends

theorem expect?_eq_some_iff {c : Char} {cs rest : List Char} :
    expect? c cs = some rest ↔ cs = c :: rest := by
  cases cs with
  | nil => simp [expect?]
  | cons d cs =>
    simp only [expect?, Option.ite_none_right_eq_some, Option.some.injEq, List.cons.injEq]

theorem Ends.of_cons {width : Nat} {text rest : List Char} {c : Char} (h : c.isDigit = false) :
    Ends width text (c :: rest) := by
  rintro _ ⟨⟩ hdigit
  rw [h] at hdigit
  cases hdigit

/-- Where a mark is to follow, the number ends before it. -/
theorem exists_field?_expect?_iff {width : Nat} {c : Char} (hc : c.isDigit = false)
    {cs : List Char} {P : Int → List Char → Prop} :
    (∃ n r, field? width cs = some (n, r) ∧ ∃ rest, expect? c r = some rest ∧ P n rest) ↔
      ∃ text n rest, cs = text ++ c :: rest ∧ Number width text n ∧ P n rest := by
  constructor
  · rintro ⟨n, r, hfield, rest, hmark, h⟩
    obtain ⟨text, rfl, hnumber, -⟩ := field?_eq_some_iff.1 hfield
    rw [expect?_eq_some_iff.1 hmark]
    exact ⟨text, n, rest, rfl, hnumber, h⟩
  · rintro ⟨text, n, rest, rfl, hnumber, h⟩
    exact ⟨n, c :: rest, field?_eq_some_iff.2 ⟨text, rfl, hnumber, .of_cons hc⟩, rest,
      expect?_eq_some_iff.2 rfl, h⟩

/-! ### Dates and times of day -/

/-- The six parts of a date and a time of day. -/
structure Civil (α : Type) where
  year : α
  month : α
  day : α
  hour : α
  minute : α
  second : α

namespace Civil

/-- The parts with the marks between them. -/
def text (c : Civil (List Char)) : List Char :=
  c.year ++ '-' :: c.month ++ '-' :: c.day ++ 'T' :: c.hour ++ ':' :: c.minute ++ ':' :: c.second

/-- Each part reads as its number. -/
structure Says (c : Civil (List Char)) (n : Civil Int) : Prop where
  year : Number 4 c.year n.year
  month : Number 2 c.month n.month
  day : Number 2 c.day n.day
  hour : Number 2 c.hour n.hour
  minute : Number 2 c.minute n.minute
  second : Number 2 c.second n.second

/-- The date of the first three numbers. -/
def date (n : Civil Int) : Date := ⟨n.year, n.month.toNat, n.day.toNat⟩

/-- The calendar has the date, and the numbers of the clock do not exceed theirs. -/
def Accepted (n : Civil Int) : Prop :=
  n.date.Valid ∧ n.hour ≤ 23 ∧ n.minute ≤ 59 ∧ n.second ≤ 60

instance (n : Civil Int) : Decidable n.Accepted := by unfold Accepted; infer_instance

/-- The instant of a date and a time of day, UTC. -/
def instant (n : Civil Int) : Instant :=
  .ofDay n.date.toDay (((n.hour * 60 + n.minute) * 60 + n.second) * 1000)

end Civil

/-- Dates and times of day are read as six numbers, which are then tested. -/
theorem dateTime?_eq_some_iff {cs rest : List Char} {t : Instant} :
    dateTime? cs = some (t, rest) ↔ ∃ c n, cs = c.text ++ rest ∧ Civil.Says c n ∧
      Ends 2 c.second rest ∧ n.Accepted ∧ t = n.instant := by
  have hdash : '-'.isDigit = false := rfl
  have hletter : 'T'.isDigit = false := rfl
  have hcolon : ':'.isDigit = false := rfl
  simp only [dateTime?, Option.bind_eq_bind, Option.bind_eq_some_iff, Prod.exists,
    Option.guard_eq_some', exists_const, exists_field?_expect?_iff hdash,
    exists_field?_expect?_iff hletter, exists_field?_expect?_iff hcolon, Option.pure_def,
    Option.some.injEq, Prod.mk.injEq]
  constructor
  · rintro ⟨year, y, _, rfl, hyear, month, m, _, rfl, hmonth, day, d, _, rfl, hday, hour, h, _, rfl,
      hhour, minute, i, _, rfl, hminute, s, _, hfield, htest, rfl, rfl⟩
    obtain ⟨second, rfl, hsecond, hends⟩ := field?_eq_some_iff.1 hfield
    refine ⟨⟨year, month, day, hour, minute, second⟩, ⟨y, m, d, h, i, s⟩, ?_,
      ⟨hyear, hmonth, hday, hhour, hminute, hsecond⟩, hends, htest, rfl⟩
    simp only [Civil.text, List.append_assoc, List.cons_append]
  · rintro ⟨c, n, rfl, hsay, hends, haccepted, rfl⟩
    refine ⟨c.year, n.year, _, ?_, hsay.year, c.month, n.month, _, rfl, hsay.month, c.day, n.day,
      _, rfl, hsay.day, c.hour, n.hour, _, rfl, hsay.hour, c.minute, n.minute, _, rfl,
      hsay.minute, n.second, rest, field?_eq_some_iff.2 ⟨c.second, rfl, hsay.second, hends⟩,
      haccepted, rfl, rfl⟩
    simp only [Civil.text, List.append_assoc, List.cons_append]

/-! ### Fractions and offsets -/

/-- The point and the digits of a fraction, if there are any. -/
def fractionText (ds : List Char) : List Char := if ds = [] then [] else '.' :: ds

/-- The whole milliseconds of the digits of a fraction. -/
def fractionMillis (ds : List Char) : Int := (value ds * 1000 / 10 ^ ds.length : Nat)

theorem exists_of_fraction? {cs rest : List Char} {millis : Int}
    (h : fraction? cs = some (millis, rest)) : ∃ ds, cs = fractionText ds ++ rest ∧
      (∀ c ∈ ds, c.isDigit = true) ∧ millis = fractionMillis ds := by
  unfold fraction? at h
  split at h
  · next cs =>
    dsimp only at h
    split at h
    · cases h
    · next hsome =>
      obtain ⟨rfl, rfl⟩ := Prod.mk.inj (Option.some.inj h)
      have hdigits : ∀ c ∈ cs.takeWhile Char.isDigit, c.isDigit = true :=
        fun c hc => List.all_eq_true.1 List.all_takeWhile c hc
      have hsome : cs.takeWhile Char.isDigit ≠ [] := by simpa using hsome
      refine ⟨_, ?_, hdigits, congrArg Nat.cast (value_take_three hsome hdigits)⟩
      rw [fractionText, if_neg hsome, List.cons_append,
        List.prefix_iff_eq_append.1 (List.takeWhile_prefix _)]
  · obtain ⟨rfl, rfl⟩ := Prod.mk.inj (Option.some.inj h)
    exact ⟨[], rfl, by simp, rfl⟩

theorem fraction?_append {ds rest : List Char} (hds : ∀ c ∈ ds, c.isDigit = true)
    (hrest : ∀ c ∈ rest.head?, c ≠ '.' ∧ c.isDigit = false) :
    fraction? (fractionText ds ++ rest) = some (fractionMillis ds, rest) := by
  by_cases hsome : ds = []
  · subst hsome
    unfold fraction?
    split
    · next hpoint =>
      have hpoint : rest = '.' :: _ := hpoint
      rw [hpoint] at hrest
      exact absurd rfl (hrest _ rfl).1
    · rfl
  · have htake : (ds ++ rest).takeWhile Char.isDigit = ds := by
      rw [List.takeWhile_append_of_pos hds]
      cases rest with
      | nil => simp
      | cons c rest =>
        rw [List.takeWhile_cons_of_neg (by simp [(hrest c rfl).2]), List.append_nil]
    rw [fractionText, if_neg hsome, List.cons_append]
    simp only [fraction?, htake, List.isEmpty_eq_false_iff.2 hsome, Bool.false_eq_true, if_false,
      List.drop_left, value_take_three hsome hds, fractionMillis]

/-- What stands at the end of a text: a letter for UTC, or an offset from it and whatever stands
behind its minutes. -/
inductive Zone
  | zulu (capital : Bool)
  | offset (ahead : Bool) (hours minutes rest : List Char)

namespace Zone

def text : Zone → List Char
  | zulu capital => [if capital then 'Z' else 'z']
  | offset ahead hours minutes rest =>
    (if ahead then '+' else '-') :: hours ++ ':' :: minutes ++ rest

/-- Hours and minutes read as numbers, and with what stands behind them take up five bytes. -/
inductive Says : Zone → Int → Prop
  | zulu (capital : Bool) : Says (zulu capital) 0
  | offset {ahead : Bool} {hours minutes rest : List Char} {h m : Int} (hhours : Number 2 hours h)
      (hminutes : Number 2 minutes m) (hends : Ends 2 minutes rest)
      (hsize : (String.ofList (hours ++ ':' :: minutes ++ rest)).utf8ByteSize = 5) :
      Says (offset ahead hours minutes rest) (if ahead then h * 60 + m else -(h * 60 + m))

end Zone

theorem minutes?_eq_some_iff {cs : List Char} {n : Int} : offset?.minutes? cs = some n ↔
    ∃ hours minutes rest h m, cs = hours ++ ':' :: minutes ++ rest ∧ Number 2 hours h ∧
      Number 2 minutes m ∧ Ends 2 minutes rest ∧ (String.ofList cs).utf8ByteSize = 5 ∧
      n = h * 60 + m := by
  have hcolon : ':'.isDigit = false := rfl
  simp only [offset?.minutes?, Option.bind_eq_bind, Option.bind_eq_some_iff, Prod.exists,
    Option.guard_eq_some', exists_const, exists_field?_expect?_iff hcolon, Option.pure_def,
    Option.some.injEq]
  constructor
  · rintro ⟨hours, h, r, hcs, hhours, m, rest, hfield, hsize, rfl⟩
    obtain ⟨minutes, rfl, hminutes, hends⟩ := field?_eq_some_iff.1 hfield
    refine ⟨hours, minutes, rest, h, m, ?_, hhours, hminutes, hends, hsize, rfl⟩
    rw [hcs, List.append_assoc, List.cons_append]
  · rintro ⟨hours, minutes, rest, h, m, hcs, hhours, hminutes, hends, hsize, rfl⟩
    refine ⟨hours, h, _, ?_, hhours, m, rest, field?_eq_some_iff.2 ⟨minutes, rfl, hminutes, hends⟩,
      hsize, rfl⟩
    rw [hcs, List.append_assoc, List.cons_append]

theorem offset?_eq_some_iff {cs : List Char} {n : Int} :
    offset? cs = some n ↔ ∃ z : Zone, cs = z.text ∧ z.Says n := by
  constructor
  · intro h
    unfold offset? at h
    split at h
    · cases h
      exact ⟨.zulu true, rfl, .zulu true⟩
    · cases h
      exact ⟨.zulu false, rfl, .zulu false⟩
    · obtain ⟨hours, minutes, rest, h, m, rfl, hhours, hminutes, hends, hsize, rfl⟩ :=
        minutes?_eq_some_iff.1 h
      exact ⟨.offset true hours minutes rest, rfl, .offset hhours hminutes hends hsize⟩
    · obtain ⟨k, hk, rfl⟩ := Option.map_eq_some_iff.1 h
      obtain ⟨hours, minutes, rest, h, m, rfl, hhours, hminutes, hends, hsize, rfl⟩ :=
        minutes?_eq_some_iff.1 hk
      exact ⟨.offset false hours minutes rest, rfl, .offset hhours hminutes hends hsize⟩
    · cases h
  · rintro ⟨z, rfl, hsay⟩
    cases hsay with
    | zulu capital => cases capital <;> rfl
    | @offset ahead hours minutes rest h m hhours hminutes hends hsize =>
      have hminutes := minutes?_eq_some_iff.2
        ⟨hours, minutes, rest, h, m, rfl, hhours, hminutes, hends, hsize, rfl⟩
      cases ahead with
      | true => exact hminutes
      | false => exact congrArg (Option.map (- ·)) hminutes

/-- An offset begins with a letter or a sign. -/
theorem Zone.head?_text {z : Zone} {c : Char} (h : c ∈ z.text.head?) :
    c ≠ '.' ∧ c.isDigit = false := by
  cases z with
  | zulu capital => cases capital <;> cases h <;> decide
  | offset ahead hours minutes rest => cases ahead <;> cases h <;> decide

/-! ### Texts -/

/-- The parts of a text that is read as an instant. -/
structure Writing where
  civil : Civil (List Char)
  fraction : List Char
  zone : Zone

namespace Writing

def text (w : Writing) : List Char := w.civil.text ++ fractionText w.fraction ++ w.zone.text

/-- What stands behind the seconds does not lengthen them. -/
theorem ends_second (w : Writing) :
    Ends 2 w.civil.second (fractionText w.fraction ++ w.zone.text) := by
  unfold fractionText
  split
  · intro c hc hdigit
    rw [(Zone.head?_text hc).2] at hdigit
    cases hdigit
  · exact .of_cons rfl

/-- The parts read as six numbers, the digits of a fraction and an offset in minutes. -/
structure Says (w : Writing) (n : Civil Int) (offset : Int) : Prop where
  civil : w.civil.Says n
  fraction : ∀ c ∈ w.fraction, c.isDigit = true
  zone : w.zone.Says offset

/-- The instant of numbers that the parts read as. -/
def instant (w : Writing) (n : Civil Int) (offset : Int) : Instant :=
  n.instant.addMillis (fractionMillis w.fraction - offset * 60000)

end Writing

/-- The texts that are read, and the instants they are read as. -/
theorem parse?_eq_some_iff {text : String} {t : Instant} : parse? text = some t ↔
    ∃ (w : Writing) (n : Civil Int) (offset : Int), text.toList = w.text ∧ w.Says n offset ∧
      n.Accepted ∧ t = w.instant n offset := by
  simp only [parse?, Option.bind_eq_bind, Option.bind_eq_some_iff, Prod.exists, Option.pure_def,
    Option.some.injEq]
  constructor
  · rintro ⟨civil, r, hcivil, millis, r', hfraction, offset, hoffset, rfl⟩
    obtain ⟨c, n, hcs, hsay, -, haccepted, rfl⟩ := dateTime?_eq_some_iff.1 hcivil
    obtain ⟨ds, rfl, hdigits, rfl⟩ := exists_of_fraction? hfraction
    obtain ⟨z, rfl, hzone⟩ := offset?_eq_some_iff.1 hoffset
    refine ⟨⟨c, ds, z⟩, n, offset, ?_, ⟨hsay, hdigits, hzone⟩, haccepted, rfl⟩
    rw [hcs, Writing.text, List.append_assoc]
  · rintro ⟨w, n, offset, hcs, hsay, haccepted, rfl⟩
    refine ⟨n.instant, _, dateTime?_eq_some_iff.2
      ⟨w.civil, n, ?_, hsay.civil, w.ends_second, haccepted, rfl⟩, fractionMillis w.fraction, _,
      fraction?_append hsay.fraction fun c hc => Zone.head?_text hc, offset,
      offset?_eq_some_iff.2 ⟨w.zone, rfl, hsay.zone⟩, rfl⟩
    rw [hcs, Writing.text, List.append_assoc]

/-! ### A text is read in one way -/

theorem Number.append_inj {width : Nat} {text text' rest rest' : List Char} {n n' : Int}
    (h : Number width text n) (h' : Number width text' n') (hends : Ends width text rest)
    (hends' : Ends width text' rest') (heq : text ++ rest = text' ++ rest') :
    text = text' ∧ rest = rest' := by
  have hfield := field?_eq_some_iff.2 ⟨text, rfl, h, hends⟩
  rw [heq, field?_eq_some_iff.2 ⟨text', rfl, h', hends'⟩] at hfield
  obtain ⟨-, rfl⟩ := Prod.mk.inj (Option.some.inj hfield)
  exact ⟨List.append_cancel_right heq, rfl⟩

/-- Behind a number stands a mark. -/
theorem Number.append_cons_inj {width : Nat} {text text' rest rest' : List Char} {c : Char}
    {n n' : Int} (h : Number width text n) (h' : Number width text' n') (hc : c.isDigit = false)
    (heq : text ++ c :: rest = text' ++ c :: rest') : text = text' ∧ rest = rest' := by
  obtain ⟨htext, hrest⟩ := h.append_inj h' (.of_cons hc) (.of_cons hc) heq
  exact ⟨htext, (List.cons.inj hrest).2⟩

theorem Civil.text_append_inj {c c' : Civil (List Char)} {n n' : Civil Int} {rest rest' : List Char}
    (h : c.Says n) (h' : c'.Says n') (hends : Ends 2 c.second rest)
    (hends' : Ends 2 c'.second rest') (heq : c.text ++ rest = c'.text ++ rest') :
    c = c' ∧ rest = rest' := by
  simp only [text, List.append_assoc, List.cons_append] at heq
  obtain ⟨hyear, heq⟩ := h.year.append_cons_inj h'.year rfl heq
  obtain ⟨hmonth, heq⟩ := h.month.append_cons_inj h'.month rfl heq
  obtain ⟨hday, heq⟩ := h.day.append_cons_inj h'.day rfl heq
  obtain ⟨hhour, heq⟩ := h.hour.append_cons_inj h'.hour rfl heq
  obtain ⟨hminute, heq⟩ := h.minute.append_cons_inj h'.minute rfl heq
  obtain ⟨hsecond, heq⟩ := h.second.append_inj h'.second hends hends' heq
  cases c
  cases c'
  simp_all

theorem fractionText_append_inj {ds ds' : List Char} {z z' : Zone}
    (h : ∀ c ∈ ds, c.isDigit = true) (h' : ∀ c ∈ ds', c.isDigit = true)
    (heq : fractionText ds ++ z.text = fractionText ds' ++ z'.text) :
    ds = ds' ∧ z.text = z'.text := by
  have hread := fraction?_append h fun c hc => Zone.head?_text (z := z) hc
  rw [heq, fraction?_append h' fun c hc => Zone.head?_text hc] at hread
  obtain ⟨-, hzone⟩ := Prod.mk.inj (Option.some.inj hread)
  rw [hzone] at heq
  have hfraction := List.append_cancel_right heq
  unfold fractionText at hfraction
  refine ⟨?_, hzone.symm⟩
  split at hfraction <;> split at hfraction <;> simp_all

theorem Zone.text_inj {z z' : Zone} {n n' : Int} (h : z.Says n) (h' : z'.Says n')
    (heq : z.text = z'.text) : z = z' := by
  cases h with
  | zulu capital =>
    cases h' with
    | zulu capital' => cases capital <;> cases capital' <;> simp_all [text]
    | @offset ahead => cases capital <;> cases ahead <;> simp [text] at heq
  | @offset ahead hours minutes rest _ _ hhours hminutes hends =>
    cases h' with
    | zulu capital' => cases capital' <;> cases ahead <;> simp [text] at heq
    | @offset ahead' hours' minutes' rest' _ _ hhours' hminutes' hends' =>
      simp only [text, List.cons_append, List.append_assoc, List.cons.injEq] at heq
      obtain ⟨hsign, heq⟩ := heq
      have hahead : ahead = ahead' := by cases ahead <;> cases ahead' <;> simp_all
      obtain ⟨rfl, hrest⟩ := hhours.append_cons_inj hhours' rfl heq
      obtain ⟨rfl, rfl⟩ := hminutes.append_inj hminutes' hends hends' hrest
      rw [hahead]

/-- A text that is read has its parts in one way. -/
theorem Writing.text_inj {w w' : Writing} {n n' : Civil Int} {offset offset' : Int}
    (h : w.Says n offset) (h' : w'.Says n' offset') (heq : w.text = w'.text) : w = w' := by
  unfold text at heq
  rw [List.append_assoc, List.append_assoc] at heq
  obtain ⟨hcivil, heq⟩ := Civil.text_append_inj h.civil h'.civil w.ends_second w'.ends_second heq
  obtain ⟨hfraction, heq⟩ := fractionText_append_inj h.fraction h'.fraction heq
  have hzone := Zone.text_inj h.zone h'.zone heq
  cases w
  cases w'
  simp_all

end Rfc3339

end Timetable
