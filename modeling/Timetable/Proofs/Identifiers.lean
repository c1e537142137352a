import Mathlib.Data.List.Basic
import Timetable.Proofs.Bytes
import Timetable.Proofs.Uuid

/-!
# Which texts are identifiers

Writing, testing and reading an identifier go about its hyphens in different ways: the writer puts
groups of bytes together, the test goes by places, and the reader skips hyphens wherever they stand.
All three agree on one form, 32 digits with hyphens set in between (`Uuid.hyphenate`): what is
written has it, the test accepts exactly what has it (`Uuid.isValid_iff_hyphenate`), and the digits
are left to the reader. So an identifier is read from its own text and from no other text but that
in upper case (`Uuid.reads_what_is_written`).
-/

namespace Timetable

/-! ### Digits -/

namespace Hex

/-- The digits, those above nine in either case. -/
def alphabet : List Char := "0123456789abcdefABCDEF".toList

/-- No character beyond the first 128 is a digit. -/
theorem value?_of_le {c : Char} (h : 128 ≤ c.toNat) : value? c = none := by
  have hle : ∀ d : Char, d.toNat < 128 → ¬ c ≤ d := by
    intro d hd hcd
    have hcd : c.toNat ≤ d.toNat := hcd
    omega
  rw [value?, if_neg, if_neg, if_neg]
  · exact fun hc => hle 'F' (by decide) hc.2
  · exact fun hc => hle 'f' (by decide) hc.2
  · exact fun hc => hle '9' (by decide) hc.2

/-- What is so of the values of the first 128 characters is so of all values. -/
theorem value?_ind {p : Char → Nat → Prop}
    (h : ∀ n < 128, ∀ k, value? (Char.ofNat n) = some k → p (Char.ofNat n) k) {c : Char} {k : Nat}
    (hc : value? c = some k) : p c k := by
  rcases Nat.lt_or_ge c.toNat 128 with hlt | hge
  · have hp := h c.toNat hlt k
    rw [Char.ofNat_toNat] at hp
    exact hp hc
  · rw [value?_of_le hge] at hc
    cases hc

theorem lt_of_value? {c : Char} {k : Nat} (h : value? c = some k) : k < 16 :=
  value?_ind (p := fun _ k => k < 16) (by decide) h

/-- The digit of a value is the one that has been read, in lower case. -/
theorem digit_of_value? {c : Char} {k : Nat} (h : value? c = some k) : digit k = c.toLower :=
  value?_ind (p := fun c k => digit k = c.toLower) (by decide) h

theorem isDigit_iff {c : Char} : isDigit c = true ↔ c ∈ alphabet := by
  constructor
  · intro h
    obtain ⟨k, hk⟩ := Option.isSome_iff_exists.1 h
    exact value?_ind (p := fun c _ => c ∈ alphabet) (by decide) hk
  · intro h
    have hall : alphabet.all isDigit = true := rfl
    exact List.all_eq_true.1 hall c h

end Hex

namespace Uuid

/-! ### Digits of bytes -/

theorem length_hex (bs : List UInt8) : (hex bs).length = 2 * bs.length := by
  induction bs with
  | nil => rfl
  | cons b bs ih =>
    show (hex bs).length + 2 = 2 * (bs.length + 1)
    omega

theorem hex_take (bs : List UInt8) (n : Nat) : hex (bs.take n) = (hex bs).take (2 * n) := by
  induction n generalizing bs with
  | zero => rfl
  | succ n ih =>
    cases bs with
    | nil => rfl
    | cons b bs =>
      show Hex.byteDigits b ++ hex (bs.take n) = _
      rw [ih]
      rfl

theorem hex_drop (bs : List UInt8) (n : Nat) : hex (bs.drop n) = (hex bs).drop (2 * n) := by
  induction n generalizing bs with
  | zero => rfl
  | succ n ih =>
    cases bs with
    | nil => rfl
    | cons b bs => exact ih bs

/-- A byte begins with its higher digit. -/
theorem getElem?_hex (bs : List UInt8) (i : Nat) :
    (hex bs)[2 * i]? = bs[i]?.map fun b => Hex.digit (b.toNat / 16) := by
  have hhead : (hex bs)[2 * i]? = (hex (bs.drop i)).head? := by
    rw [hex_drop, List.head?_drop]
  rw [hhead, ← List.head?_drop]
  cases bs.drop i <;> rfl

theorem isDigit_of_mem_hex {bs : List UInt8} {c : Char} (h : c ∈ hex bs) :
    Hex.isDigit c = true := by
  obtain ⟨b, -, hc⟩ := List.mem_flatMap.1 h
  have hb : b.toNat < 256 := b.toNat_lt
  rw [Hex.byteDigits, List.mem_cons, List.mem_singleton] at hc
  rcases hc with rfl | rfl
  · rw [Hex.isDigit, Hex.value?_digit (by omega)]
    rfl
  · rw [Hex.isDigit, Hex.value?_digit (by omega)]
    rfl

/-- Bytes that pairs of digits denote have these digits, in lower case. -/
theorem hex_pairs {ds : List Char} (h : ∀ c ∈ ds, Hex.isDigit c = true) {n : Nat}
    (hlength : ds.length = 2 * n) :
    hex (pairs (ds.filterMap Hex.value?)) = ds.map Char.toLower ∧
      (pairs (ds.filterMap Hex.value?)).length = n := by
  induction n generalizing ds with
  | zero =>
    obtain rfl := List.length_eq_zero_iff.1 hlength
    exact ⟨rfl, rfl⟩
  | succ n ih =>
    match ds, hlength with
    | c :: d :: ds, hlength =>
      obtain ⟨j, hj⟩ := Option.isSome_iff_exists.1 (h c (by simp))
      obtain ⟨k, hk⟩ := Option.isSome_iff_exists.1 (h d (by simp))
      have hrest : ds.length = 2 * n := by
        rw [List.length_cons, List.length_cons] at hlength
        omega
      obtain ⟨hhex, hn⟩ := ih (fun c hc => h c (by simp [hc])) hrest
      have hj16 := Hex.lt_of_value? hj
      have hk16 := Hex.lt_of_value? hk
      have hbyte : (UInt8.ofNat (j * 16 + k)).toNat = j * 16 + k :=
        UInt8.toNat_ofNat_of_lt' (by show j * 16 + k < 256; omega)
      have hdigits : Hex.byteDigits (UInt8.ofNat (j * 16 + k)) = [c.toLower, d.toLower] := by
        rw [Hex.byteDigits, hbyte, ← Hex.digit_of_value? hj, ← Hex.digit_of_value? hk]
        congr 3 <;> omega
      rw [List.filterMap_cons_some hj, List.filterMap_cons_some hk, pairs]
      constructor
      · rw [hex, List.flatMap_cons, ← hex, hdigits, hhex]
        rfl
      · rw [List.length_cons, hn]

/-! ### Hyphens -/

/-- Digits with hyphens set before the ninth, the thirteenth, the seventeenth and the
twenty-first. -/
def hyphenate (ds : List Char) : List Char :=
  ds.take 8 ++ '-' :: ((ds.drop 8).take 4 ++ '-' :: ((ds.drop 12).take 4 ++
    '-' :: ((ds.drop 16).take 4 ++ '-' :: ds.drop 20)))

/-- The digits are the groups that hyphens are set between. -/
theorem eq_groups (ds : List Char) :
    ds = ds.take 8 ++ ((ds.drop 8).take 4 ++ ((ds.drop 12).take 4 ++
      ((ds.drop 16).take 4 ++ ds.drop 20))) := by
  have hjoin : ∀ i n, (ds.drop i).take n ++ ds.drop (i + n) = ds.drop i := by
    intro i n
    rw [← List.drop_drop, List.take_append_drop]
  rw [hjoin 16 4, hjoin 12 4, hjoin 8 4, List.take_append_drop]

theorem toText_eq (u : Uuid) : u.toText = hyphenate (hex u.octets) := by
  have hlength : ((hex u.octets).drop 20).length = 12 := by
    rw [List.length_drop, length_hex, u.length_octets]
  have hlast : ((hex u.octets).drop 20).take 12 = (hex u.octets).drop 20 :=
    List.take_of_length_le (Nat.le_of_eq hlength)
  simp only [toText, hex_take, hex_drop, hyphenate, List.drop_zero, Nat.reduceMul, hlast,
    List.append_assoc, List.cons_append]

theorem hyphenate_map (ds : List Char) :
    hyphenate (ds.map Char.toLower) = (hyphenate ds).map Char.toLower := by
  have hhyphen : Char.toLower '-' = '-' := by decide
  simp only [hyphenate, List.map_append, List.map_cons, List.map_take, List.map_drop, hhyphen]

/-- Skipping the hyphens leaves the digits. -/
theorem filter_hyphenate {ds : List Char} (h : ∀ c ∈ ds, Hex.isDigit c = true) :
    (hyphenate ds).filter (· ≠ '-') = ds := by
  have hskip : (hyphenate ds).filter (· ≠ '-') = ds.filter (· ≠ '-') := by
    conv_rhs => rw [eq_groups ds]
    simp [hyphenate]
  rw [hskip]
  apply List.filter_eq_self.2
  intro c hc
  have hne : c ≠ '-' := by
    rintro rfl
    exact absurd (h '-' hc) (by decide)
  exact decide_eq_true hne

theorem toNat_lt_of_mem_hyphenate {ds : List Char} (h : ∀ c ∈ ds, Hex.isDigit c = true) {c : Char}
    (hc : c ∈ hyphenate ds) : c.toNat < 128 := by
  by_cases hhyphen : c = '-'
  · rw [hhyphen]
    decide
  · have hdigit : c ∈ ds := by
      rw [← filter_hyphenate h]
      exact List.mem_filter.2 ⟨hc, decide_eq_true hhyphen⟩
    by_contra hge
    have hnone := Hex.value?_of_le (Nat.le_of_not_lt hge)
    have hsome := h c hdigit
    rw [Hex.isDigit, hnone] at hsome
    cases hsome

/-- Behind one and behind three hyphens. -/
theorem getElem?_hyphenate {ds : List Char} (h : ds.length = 32) :
    (hyphenate ds)[14]? = ds[12]? ∧ (hyphenate ds)[19]? = ds[16]? := by
  simp [hyphenate, h]

/-! ### The test -/

/-- Characters that stand from a place on, hyphens where hyphens belong and digits elsewhere. -/
def fits (k : Nat) (cs : List Char) : Bool :=
  (cs.zipIdx k).all fun (c, i) => if isHyphenPlace i then c == '-' else (Hex.value? c).isSome

theorem fits_cons (k : Nat) (c : Char) (cs : List Char) :
    fits k (c :: cs) =
      ((if isHyphenPlace k then c == '-' else Hex.isDigit c) && fits (k + 1) cs) := rfl

theorem fits_append (k : Nat) (cs cs' : List Char) :
    fits k (cs ++ cs') = true ↔ fits k cs = true ∧ fits (k + cs.length) cs' = true := by
  rw [fits, List.zipIdx_append, List.all_append, Bool.and_eq_true]
  rfl

theorem fits_hyphen {k : Nat} (hk : isHyphenPlace k = true) (c : Char) (cs : List Char) :
    fits k (c :: cs) = true ↔ c = '-' ∧ fits (k + 1) cs = true := by
  rw [fits_cons, if_pos hk, Bool.and_eq_true, beq_iff_eq]

/-- Where no hyphen belongs, there are only digits. -/
theorem fits_digits (k : Nat) (cs : List Char)
    (hk : ∀ i < cs.length, isHyphenPlace (k + i) = false) :
    fits k cs = true ↔ ∀ c ∈ cs, Hex.isDigit c = true := by
  induction cs generalizing k with
  | nil => exact ⟨fun _ c hc => (nomatch hc), fun _ => rfl⟩
  | cons c cs ih =>
    have hfirst : ¬ isHyphenPlace k = true := Bool.not_eq_true _ ▸ hk 0 (Nat.succ_pos _)
    have hrest : fits (k + 1) cs = true ↔ ∀ c ∈ cs, Hex.isDigit c = true := by
      apply ih
      intro i hi
      rw [Nat.add_assoc, Nat.add_comm 1 i]
      exact hk (i + 1) (Nat.succ_lt_succ hi)
    rw [List.forall_mem_cons, ← hrest, fits_cons, if_neg hfirst, Bool.and_eq_true]

/-- A list falls into a group, the character behind it, and the rest. -/
theorem exists_group {cs : List Char} (m n : Nat) (h : cs.length = m + (n + 1)) :
    ∃ g c r, cs = g ++ c :: r ∧ g.length = m ∧ r.length = n := by
  have hm : m < cs.length := by omega
  refine ⟨cs.take m, cs[m], cs.drop (m + 1), ?_, ?_, ?_⟩
  · rw [← List.drop_eq_getElem_cons hm, List.take_append_drop]
  · rw [List.length_take]
    omega
  · rw [List.length_drop]
    omega

section Groups

variable {g₁ g₂ g₃ g₄ g₅ : List Char} (h₁ : g₁.length = 8) (h₂ : g₂.length = 4)
  (h₃ : g₃.length = 4) (h₄ : g₄.length = 4)

include h₁ h₂ h₃ h₄

/-- Hyphens are set between groups of eight, four, four and four digits and those that follow. -/
theorem hyphenate_groups : hyphenate (g₁ ++ (g₂ ++ (g₃ ++ (g₄ ++ g₅)))) =
    g₁ ++ '-' :: (g₂ ++ '-' :: (g₃ ++ '-' :: (g₄ ++ '-' :: g₅))) := by
  simp [hyphenate, List.drop_append, h₁, h₂, h₃, h₄, List.drop_eq_nil_of_le]

/-- Of a text in groups, the test accepts digits in the groups and hyphens between them. -/
theorem fits_groups (h₅ : g₅.length = 12) {c₁ c₂ c₃ c₄ : Char} :
    fits 0 (g₁ ++ c₁ :: (g₂ ++ c₂ :: (g₃ ++ c₃ :: (g₄ ++ c₄ :: g₅)))) = true ↔
      (c₁ = '-' ∧ c₂ = '-' ∧ c₃ = '-' ∧ c₄ = '-') ∧
        ∀ c ∈ g₁ ++ (g₂ ++ (g₃ ++ (g₄ ++ g₅))), Hex.isDigit c = true := by
  have hd₁ := fits_digits 0 g₁ (by rw [h₁]; decide)
  have hd₂ := fits_digits 9 g₂ (by rw [h₂]; decide)
  have hd₃ := fits_digits 14 g₃ (by rw [h₃]; decide)
  have hd₄ := fits_digits 19 g₄ (by rw [h₄]; decide)
  have hd₅ := fits_digits 24 g₅ (by rw [h₅]; decide)
  simp only [fits_append, h₁, h₂, h₃, h₄, Nat.reduceAdd, fits_hyphen (k := 8) rfl,
    fits_hyphen (k := 13) rfl, fits_hyphen (k := 18) rfl, fits_hyphen (k := 23) rfl, hd₁, hd₂, hd₃,
    hd₄, hd₅, List.forall_mem_append]
  constructor
  · rintro ⟨hg₁, hc₁, hg₂, hc₂, hg₃, hc₃, hg₄, hc₄, hg₅⟩
    exact ⟨⟨hc₁, hc₂, hc₃, hc₄⟩, hg₁, hg₂, hg₃, hg₄, hg₅⟩
  · rintro ⟨⟨hc₁, hc₂, hc₃, hc₄⟩, hg₁, hg₂, hg₃, hg₄, hg₅⟩
    exact ⟨hg₁, hc₁, hg₂, hc₂, hg₃, hc₃, hg₄, hc₄, hg₅⟩

end Groups

variable {bs : List UInt8} {text : String}

/-- The test accepts exactly 32 digits with hyphens set between them. -/
theorem isValid_iff_hyphenate :
    isValidBytes bs = true ↔ ∃ ds : List Char, ds.length = 32 ∧
      (∀ c ∈ ds, Hex.isDigit c = true) ∧ chars bs = hyphenate ds := by
  have htest : isValidBytes bs = true ↔ (chars bs).length = 36 ∧ fits 0 (chars bs) = true := by
    rw [isValidBytes, Bool.and_eq_true, beq_iff_eq]
    rfl
  rw [htest]
  constructor
  · rintro ⟨hlength, hfits⟩
    obtain ⟨g₁, c₁, r₁, htext, h₁, hr₁⟩ := exists_group 8 27 hlength
    obtain ⟨g₂, c₂, r₂, rfl, h₂, hr₂⟩ := exists_group 4 22 hr₁
    obtain ⟨g₃, c₃, r₃, rfl, h₃, hr₃⟩ := exists_group 4 17 hr₂
    obtain ⟨g₄, c₄, g₅, rfl, h₄, h₅⟩ := exists_group 4 12 hr₃
    rw [htext] at hfits
    obtain ⟨⟨rfl, rfl, rfl, rfl⟩, hdigits⟩ := (fits_groups h₁ h₂ h₃ h₄ h₅).1 hfits
    refine ⟨_, ?_, hdigits, ?_⟩
    · simp only [List.length_append, h₁, h₂, h₃, h₄, h₅]
    · rw [htext, hyphenate_groups h₁ h₂ h₃ h₄]
  · rintro ⟨ds, hlength, hdigits, htext⟩
    have hgroup : ∀ i, i + 4 ≤ 32 → ((ds.drop i).take 4).length = 4 := by
      intro i hi
      rw [List.length_take, List.length_drop, hlength]
      omega
    have hfirst : (ds.take 8).length = 8 := by
      rw [List.length_take, hlength]
      rfl
    have hlast : (ds.drop 20).length = 12 := by rw [List.length_drop, hlength]
    rw [htext]
    constructor
    · simp only [hyphenate, List.length_append, List.length_cons, hfirst, hgroup 8 (by decide),
        hgroup 12 (by decide), hgroup 16 (by decide), hlast]
    · apply (fits_groups hfirst (hgroup 8 (by decide)) (hgroup 12 (by decide))
        (hgroup 16 (by decide)) hlast).2
      rw [← eq_groups]
      exact ⟨⟨rfl, rfl, rfl, rfl⟩, hdigits⟩

/-- The form of an identifier's text: 36 characters, with hyphens at the places 8, 13, 18 and 23 and
digits of either case at all others. -/
def HasForm (cs : List Char) : Prop :=
  cs.length = 36 ∧
    ∀ i c, cs[i]? = some c → if i ∈ [8, 13, 18, 23] then c = '-' else c ∈ Hex.alphabet

theorem isValid_iff_hasForm : isValidBytes bs = true ↔ HasForm (chars bs) := by
  have hplace : ∀ i, isHyphenPlace i = true ↔ i ∈ [8, 13, 18, 23] := by
    intro i
    simp [isHyphenPlace, or_assoc]
  rw [isValidBytes, Bool.and_eq_true, beq_iff_eq, HasForm, List.all_eq_true]
  apply and_congr_right'
  constructor
  · intro h i c hc
    have hfit := h (c, i) (List.mk_mem_zipIdx_iff_getElem?.2 hc)
    simp only [hplace] at hfit
    split
    · next hi => simpa [hi] using hfit
    · next hi =>
      rw [if_neg hi] at hfit
      exact Hex.isDigit_iff.1 hfit
  · rintro h ⟨c, i⟩ hc
    have hform := h i c (List.mk_mem_zipIdx_iff_getElem?.1 hc)
    simp only [hplace]
    split at hform
    · next hi => simpa [hi] using hform
    · next hi =>
      rw [if_neg hi]
      exact Hex.isDigit_iff.2 hform

/-! ### Characters and bytes -/

/-- Characters that are their own bytes are told from these. -/
theorem chars_bytes (h : ∀ c ∈ text.toList, c.toNat < 128) :
    chars (Text.bytes text) = text.toList := by
  have hback : ∀ c ∈ text.toList, (Char.ofUInt8 ∘ Char.toUInt8) c = id c := by
    intro c hc
    apply Char.ext
    apply UInt32.toNat_inj.1
    show c.toUInt8.toUInt32.toNat = c.toNat
    rw [UInt8.toNat_toUInt32, Text.toNat_toUInt8 (h c hc)]
  rw [Text.bytes_eq_map h, chars, List.map_map, List.map_congr_left hback, List.map_id]

theorem bytes_ofList_chars (h : ∀ c ∈ chars bs, c.toNat < 128) :
    Text.bytes (String.ofList (chars bs)) = bs := by
  have hback : ∀ b ∈ bs, (Char.toUInt8 ∘ Char.ofUInt8) b = id b :=
    fun b _ => UInt8.toUInt8_toUInt32 b
  rw [Text.bytes_eq_map, String.toList_ofList, chars, List.map_map, List.map_congr_left hback,
    List.map_id]
  rwa [String.toList_ofList]

/-- A text that passes the test has one byte for each character. -/
theorem chars_bytes_of_isValid (h : isValid text = true) :
    chars (Text.bytes text) = text.toList := by
  obtain ⟨ds, -, hdigits, hchars⟩ := isValid_iff_hyphenate.1 h
  have hbytes : Text.bytes (String.ofList (chars (Text.bytes text))) = Text.bytes text := by
    apply bytes_ofList_chars
    intro c hc
    apply toNat_lt_of_mem_hyphenate hdigits
    exact hchars ▸ hc
  have htext := Text.bytes_inj.1 hbytes
  conv_rhs => rw [← htext]
  rw [String.toList_ofList]

theorem chars_bytes_toString (u : Uuid) :
    chars (Text.bytes u.toString) = hyphenate (hex u.octets) := by
  have htext : u.toString.toList = hyphenate (hex u.octets) := by
    rw [Uuid.toString, String.toList_ofList, toText_eq]
  rw [← htext]
  apply chars_bytes
  intro c hc
  apply toNat_lt_of_mem_hyphenate (fun c hc => isDigit_of_mem_hex hc)
  exact htext ▸ hc

/-! ### Writing and reading -/

theorem isValid_toString (u : Uuid) : isValid u.toString = true := by
  apply isValid_iff_hyphenate.2
  refine ⟨hex u.octets, ?_, fun c hc => isDigit_of_mem_hex hc, u.chars_bytes_toString⟩
  rw [length_hex, u.length_octets]

/-- Bytes that pass the test are read, and what is read is written as these bytes in lower case. -/
theorem exists_ofBytes_of_isValid (h : isValidBytes bs = true) :
    ∃ u, ofBytes? bs = some u ∧ u.toString.toList = (chars bs).map Char.toLower := by
  obtain ⟨ds, hds, hdigits, hchars⟩ := isValid_iff_hyphenate.1 h
  obtain ⟨hhex, hlength⟩ := hex_pairs hdigits (n := 16) hds
  have hoctets : octetsOfBytes bs = pairs (ds.filterMap Hex.value?) := by
    rw [octetsOfBytes, hchars, filter_hyphenate hdigits]
  rw [← hoctets] at hhex hlength
  refine ⟨⟨octetsOfBytes bs, hlength⟩, ?_, ?_⟩
  · rw [ofBytes?, if_pos h, dif_pos hlength]
  · rw [Uuid.toString, String.toList_ofList, toText_eq, hhex, hyphenate_map, hchars]

theorem ofBytes_eq_none_iff : ofBytes? bs = none ↔ isValidBytes bs = false := by
  constructor
  · intro hnone
    by_contra hnot
    obtain ⟨u, hsome, -⟩ := exists_ofBytes_of_isValid (eq_true_of_ne_false hnot)
    rw [hnone] at hsome
    cases hsome
  · intro h
    rw [ofBytes?, if_neg (by rw [h]; decide)]

theorem read_of_some {u : Uuid} (h : ofBytes? (Text.bytes text) = some u) : read text = .ok u := by
  rw [read, ← Text.bytes, h]

theorem read_of_none (h : ofBytes? (Text.bytes text) = none) :
    read text = .error (.invalidUuid text) := by
  rw [read, ← Text.bytes, h]

theorem read_toString (u : Uuid) : read u.toString = .ok u := by
  have hoctets : octetsOfBytes (Text.bytes u.toString) = u.octets := by
    rw [octetsOfBytes, chars_bytes_toString, filter_hyphenate fun c hc => isDigit_of_mem_hex hc,
      pairs_filterMap_hex]
  have hlength : (octetsOfBytes (Text.bytes u.toString)).length = 16 := by
    rw [hoctets, u.length_octets]
  have hvalid : isValidBytes (Text.bytes u.toString) = true := u.isValid_toString
  apply read_of_some
  rw [ofBytes?, if_pos hvalid, dif_pos hlength]
  simp only [hoctets]

/-- A text that passes the test is read, and what is read is written as this text in lower case. -/
theorem exists_read_of_isValid (h : isValid text = true) :
    ∃ u, read text = .ok u ∧ u.toString = text.toLower := by
  have hvalid : isValidBytes (Text.bytes text) = true := h
  obtain ⟨u, hread, htext⟩ := exists_ofBytes_of_isValid hvalid
  have hlower : text.toLower = text.map Char.toLower := rfl
  refine ⟨u, read_of_some hread, ?_⟩
  rw [← String.toList_inj, htext, hlower, String.toList_map, chars_bytes_of_isValid h]

/-! ### Identifiers of names -/

/-- A byte that is stamped with the version eight begins with this digit. -/
theorem version_digit (b : UInt8) : Hex.digit (((b &&& 0x0f) ||| 8 * 16).toNat / 16) = '8' := by
  have hall : ∀ n < 256, Hex.digit (((n &&& 15) ||| 128) / 16) = '8' := by
    decide +kernel
  rw [UInt8.toNat_or, UInt8.toNat_and]
  exact hall b.toNat b.toNat_lt

/-- A byte that is stamped with the variant begins with one of four digits. -/
theorem variant_digit (b : UInt8) :
    Hex.digit (((b &&& 0x3f) ||| 0x80).toNat / 16) ∈ ['8', '9', 'a', 'b'] := by
  have hall : ∀ n < 256, Hex.digit (((n &&& 63) ||| 128) / 16) ∈ ['8', '9', 'a', 'b'] := by
    decide +kernel
  rw [UInt8.toNat_or, UInt8.toNat_and]
  exact hall b.toNat b.toNat_lt

/-- The text of sixteen bytes that are stamped with the version eight tells the version and the
variant. -/
theorem digits_of_stamp {u : Uuid} {bs : List UInt8} (hu : u.octets = stamp 8 bs) :
    u.toString.toList[14]? = some '8' ∧
      ∃ c ∈ ['8', '9', 'a', 'b'], u.toString.toList[19]? = some c := by
  have hbs : bs.length = 16 := by rw [← length_stamp 8, ← hu, u.length_octets]
  have hlength : (hex u.octets).length = 32 := by rw [length_hex, u.length_octets]
  have hsix : u.octets[6]? = some ((bs[6] &&& 0x0f) ||| 8 * 16) := by
    simp [hu, stamp, hbs]
  have height : u.octets[8]? = some ((bs[8] &&& 0x3f) ||| 0x80) := by
    simp [hu, stamp, hbs]
  obtain ⟨hversion, hvariant⟩ := getElem?_hyphenate hlength
  rw [Uuid.toString, String.toList_ofList, toText_eq, hversion, hvariant]
  constructor
  · rw [getElem?_hex u.octets 6, hsix, Option.map_some, version_digit]
  · refine ⟨_, variant_digit bs[8], ?_⟩
    rw [getElem?_hex u.octets 8, height, Option.map_some]

/-- The text of an identifier passes the test and is read as the identifier. The test accepts
exactly the bytes that have the form of such a text. Bytes that it accepts are read, as an
identifier whose text they are but for upper case, and no others are; a text that it does not accept
is refused as an invalid argument. The text of an identifier that was made from a name passes the
test as well, and tells the version eight and the variant. -/
theorem reads_what_is_written (u : Uuid) (text : String) (bs name : List UInt8) :
    (isValid u.toString = true ∧ read u.toString = .ok u) ∧
      (isValidBytes bs = true ↔ HasForm (chars bs)) ∧
      (isValidBytes bs = true ↔
        ∃ v, ofBytes? bs = some v ∧ v.toString.toList = (chars bs).map Char.toLower) ∧
      (isValidBytes bs = false ↔ ofBytes? bs = none) ∧
      (isValid text = true ↔ ∃ v, read text = .ok v ∧ v.toString = text.toLower) ∧
      (isValid text = false ↔ ∃ e, read text = .error e ∧ e.kind = .invalidArgument ∧
        e.message = "Invalid UUID string: " ++ text) ∧
      (isValid (ofName name).toString = true ∧ (ofName name).toString.toList[14]? = some '8' ∧
        ∃ c ∈ ['8', '9', 'a', 'b'], (ofName name).toString.toList[19]? = some c) := by
  refine ⟨⟨u.isValid_toString, u.read_toString⟩, isValid_iff_hasForm,
    ⟨exists_ofBytes_of_isValid, ?_⟩, ofBytes_eq_none_iff.symm, ⟨exists_read_of_isValid, ?_⟩,
    ⟨fun h => ⟨_, read_of_none (ofBytes_eq_none_iff.2 h), rfl, rfl⟩, ?_⟩, isValid_toString _,
    digits_of_stamp rfl⟩
  · rintro ⟨v, hread, -⟩
    exact isValid_of_ofBytes? hread
  · rintro ⟨v, hread, -⟩
    by_contra hnot
    rw [read_of_none (ofBytes_eq_none_iff.2 (Bool.eq_false_iff.2 hnot))] at hread
    cases hread
  · rintro ⟨e, hread, -⟩
    by_contra hnot
    obtain ⟨v, hok, -⟩ := exists_read_of_isValid (eq_true_of_ne_false hnot)
    rw [hok] at hread
    cases hread

end Uuid

end Timetable
