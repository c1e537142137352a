import Mathlib.Data.List.Basic
import Mathlib.Tactic.IntervalCases

/-!
# Texts as bytes

The bytes of a text are those of its characters in UTF-8. A character that needs more bytes has a
larger first byte, and characters that need the same number of bytes are told apart by digits of six
bits behind the first byte (`Text.tail`), so texts sort by their bytes as they do by their
characters (`Text.bytes_lt_bytes_iff`).
-/

namespace Timetable.Text

/-- The bytes of a text. -/
def bytes (s : String) : List UInt8 := s.toByteArray.data.toList

/-- Listing an array of bytes goes through its places one by one. -/
theorem toList_loop_eq (bs : ByteArray) (i : Nat) (r : List UInt8) :
    ByteArray.toList.loop bs i r = r.reverse ++ bs.data.toList.drop i := by
  induction i, r using ByteArray.toList.loop.induct bs with
  | case1 i r h ih =>
    have hi : i < bs.data.toList.length := h
    have hget : bs.get! i = bs.data.toList[i] := by
      show bs.data[i]! = _
      rw [getElem!_pos bs.data i h]
      rfl
    rw [ByteArray.toList.loop, if_pos h, ih, List.drop_eq_getElem_cons hi, List.reverse_cons,
      List.append_assoc, List.singleton_append, hget]
  | case2 i r h =>
    have hi : bs.data.toList.length ≤ i := Nat.le_of_not_lt h
    rw [ByteArray.toList.loop, if_neg h, List.drop_eq_nil_of_le hi, List.append_nil]

theorem toList_toUTF8 (s : String) : s.toUTF8.toList = bytes s := toList_loop_eq s.toUTF8 0 []

theorem bytes_append (s s' : String) : bytes (s ++ s') = bytes s ++ bytes s' := by
  rw [bytes, String.toByteArray_append, ByteArray.toList_data_append]
  rfl

theorem bytes_inj {s s' : String} : bytes s = bytes s' ↔ s = s' := by
  refine ⟨fun h => ?_, congrArg bytes⟩
  exact String.toByteArray_inj.1 (ByteArray.ext (Array.toList_inj.1 h))

theorem bytes_eq_flatMap (s : String) : bytes s = s.toList.flatMap String.utf8EncodeChar := by
  rw [bytes, ← String.ofList_toList (s := s), String.toByteArray_ofList, String.toList_ofList,
    List.utf8Encode, List.data_toByteArray]

theorem bytes_eq_map {s : String} (h : ∀ c ∈ s.toList, c.toNat < 128) :
    bytes s = s.toList.map Char.toUInt8 := by
  have hchar : ∀ c ∈ s.toList, String.utf8EncodeChar c = [c.toUInt8] := by
    intro c hc
    have hsize : c.utf8Size = 1 := Char.utf8Size_eq_one_iff.2 (Nat.le_of_lt_succ (h c hc))
    exact String.utf8EncodeChar_eq_singleton hsize
  rw [bytes_eq_flatMap, List.flatMap_congr hchar, ← List.map_eq_flatMap]

theorem toNat_toUInt8 {c : Char} (h : c.toNat < 128) : c.toUInt8.toNat = c.toNat := by
  show c.val.toUInt8.toNat = c.toNat
  rw [UInt32.toNat_toUInt8]
  exact Nat.mod_eq_of_lt (Nat.lt_trans h (by decide))

/-- Characters that are their own bytes sort as these. -/
theorem map_toUInt8_lt {cs cs' : List Char} (h : cs < cs') (hcs : ∀ c ∈ cs, c.toNat < 128)
    (hcs' : ∀ c ∈ cs', c.toNat < 128) : cs.map Char.toUInt8 < cs'.map Char.toUInt8 := by
  induction h with
  | nil => exact .nil
  | cons h ih =>
    exact .cons (ih (fun c hc => hcs c (List.mem_cons_of_mem _ hc))
      fun c hc => hcs' c (List.mem_cons_of_mem _ hc))
  | @rel c cs c' cs' h =>
    refine .rel (UInt8.lt_iff_toNat_lt.2 ?_)
    rw [toNat_toUInt8 (hcs c (List.mem_cons_self ..)),
      toNat_toUInt8 (hcs' c' (List.mem_cons_self ..))]
    exact h

/-! ### The order of bytes -/

/-- The bytes behind the first one: the last digits of a number, of six bits each. -/
def tail (n : Nat) : Nat → List UInt8
  | 0 => []
  | k + 1 => UInt8.ofNat (n / 64 ^ k % 64 + 128) :: tail n k

/-- What is added to the first byte to tell how many follow. -/
def mark : Nat → Nat
  | 0 => 0
  | 1 => 192
  | 2 => 224
  | _ => 240

/-- The first number that is followed by so many bytes. -/
def firstCode : Nat → Nat
  | 0 => 0
  | 1 => 128
  | 2 => 2048
  | 3 => 65536
  | _ => 1114112

theorem firstCode_mono {k k' : Nat} (h : k ≤ k') (hk' : k' ≤ 4) : firstCode k ≤ firstCode k' := by
  interval_cases k' <;> interval_cases k <;> decide

/-- A character is a first byte and a number of digits behind it. -/
theorem exists_utf8EncodeChar_eq (c : Char) : ∃ k ≤ 3,
    String.utf8EncodeChar c = UInt8.ofNat (mark k + c.toNat / 64 ^ k) :: tail c.toNat k ∧
      firstCode k ≤ c.toNat ∧ c.toNat < firstCode (k + 1) := by
  have hlast : c.toNat < 1114112 := by
    have hvalid := c.valid
    simp only [UInt32.isValidChar, Nat.isValidChar] at hvalid
    show c.val.toNat < 1114112
    omega
  have hval : c.val.toNat = c.toNat := rfl
  simp only [String.utf8EncodeChar, hval]
  split
  · exact ⟨0, by decide, by simp [mark, tail], by simp [firstCode], by simp [firstCode]; omega⟩
  split
  · refine ⟨1, by decide, ?_, by simp [firstCode]; omega, by simp [firstCode]; omega⟩
    simp only [mark, tail, Nat.pow_zero, Nat.pow_one, Nat.div_one]
    congr 2
    omega
  split
  · refine ⟨2, by decide, ?_, by simp [firstCode]; omega, by simp [firstCode]; omega⟩
    simp only [mark, tail, Nat.pow_zero, Nat.pow_one, Nat.div_one]
    congr 2
    omega
  · refine ⟨3, by decide, ?_, by simp [firstCode]; omega, by simp [firstCode]; omega⟩
    simp only [mark, tail, Nat.pow_zero, Nat.pow_one, Nat.div_one]
    congr 2
    omega

theorem ofNat_lt_ofNat {a b : Nat} (h : a < b) (hb : b < 256) : UInt8.ofNat a < UInt8.ofNat b := by
  rw [UInt8.lt_iff_toNat_lt, UInt8.toNat_ofNat_of_lt' (Nat.lt_trans h hb),
    UInt8.toNat_ofNat_of_lt' hb]
  exact h

/-- Of numbers with the same first digits, the smaller one has the smaller last digits. -/
theorem tail_append_lt {k n n' : Nat} (h : n % 64 ^ k < n' % 64 ^ k) (bs bs' : List UInt8) :
    tail n k ++ bs < tail n' k ++ bs' := by
  induction k with
  | zero => simp [Nat.mod_one] at h
  | succ k ih =>
    have hsplit (m : Nat) : m % 64 ^ (k + 1) = m / 64 ^ k % 64 * 64 ^ k + m % 64 ^ k := by
      rw [Nat.pow_succ, Nat.mod_mul, Nat.add_comm, Nat.mul_comm]
    have hmod : n % 64 ^ k < 64 ^ k := Nat.mod_lt _ (Nat.pow_pos (by decide))
    rcases Nat.lt_trichotomy (n / 64 ^ k % 64) (n' / 64 ^ k % 64) with hlt | heq | hgt
    · exact .rel (ofNat_lt_ofNat (by omega) (by omega))
    · rw [hsplit, hsplit, heq] at h
      rw [tail, tail, heq]
      exact .cons (ih (by omega))
    · -- the larger digit outweighs all that follow
      rw [hsplit, hsplit] at h
      have hle := Nat.mul_le_mul_right (64 ^ k) hgt
      have hmod' : n' % 64 ^ k < 64 ^ k := Nat.mod_lt _ (Nat.pow_pos (by decide))
      rw [Nat.succ_mul] at hle
      omega

/-- Whatever follows, a smaller character has bytes that sort before those of a larger one. -/
theorem utf8EncodeChar_append_lt {c c' : Char} (h : c < c') (bs bs' : List UInt8) :
    String.utf8EncodeChar c ++ bs < String.utf8EncodeChar c' ++ bs' := by
  have hlt : c.toNat < c'.toNat := h
  obtain ⟨k, hk, hcode, hfirst, hlast⟩ := exists_utf8EncodeChar_eq c
  obtain ⟨k', hk', hcode', hfirst', hlast'⟩ := exists_utf8EncodeChar_eq c'
  rw [hcode, hcode']
  rcases Nat.lt_trichotomy k k' with hless | rfl | hmore
  · refine .rel (ofNat_lt_ofNat ?_ ?_)
    · interval_cases k' <;> interval_cases k <;> simp only [mark, firstCode] at * <;> omega
    · interval_cases k' <;> simp only [mark, firstCode] at * <;> omega
  · rcases Nat.lt_or_eq_of_le (Nat.div_le_div_right (c := 64 ^ k) (Nat.le_of_lt hlt)) with
      hdiv | hdiv
    · refine .rel (ofNat_lt_ofNat (by omega) ?_)
      interval_cases k <;> simp only [mark, firstCode] at * <;> omega
    · rw [hdiv]
      refine .cons (tail_append_lt ?_ bs bs')
      have hmod := Nat.div_add_mod c.toNat (64 ^ k)
      have hmod' := Nat.div_add_mod c'.toNat (64 ^ k)
      rw [hdiv] at hmod
      omega
  · have hmono := firstCode_mono (show k' + 1 ≤ k by omega) (by omega)
    omega

theorem flatMap_utf8EncodeChar_lt {cs cs' : List Char} (h : cs < cs') :
    cs.flatMap String.utf8EncodeChar < cs'.flatMap String.utf8EncodeChar := by
  induction h with
  | @nil c cs =>
    obtain ⟨k, -, hcode, -⟩ := exists_utf8EncodeChar_eq c
    rw [List.flatMap_cons, hcode]
    exact .nil
  | cons h ih =>
    rw [List.flatMap_cons, List.flatMap_cons]
    exact List.append_left_lt ih
  | rel h => exact utf8EncodeChar_append_lt h _ _

theorem bytes_lt_bytes {s s' : String} (h : s < s') : bytes s < bytes s' := by
  rw [bytes_eq_flatMap, bytes_eq_flatMap]
  exact flatMap_utf8EncodeChar_lt (String.lt_iff.1 h)

/-- Texts sort by their bytes as they do by their characters. -/
theorem bytes_lt_bytes_iff {s s' : String} : bytes s < bytes s' ↔ s < s' := by
  refine ⟨fun h => ?_, bytes_lt_bytes⟩
  by_contra hnot
  have hle : s' ≤ s := String.not_lt.1 hnot
  by_cases hle' : s ≤ s'
  · rw [String.le_antisymm hle hle'] at h
    exact List.lt_irrefl _ h
  · exact List.lt_asymm h (bytes_lt_bytes (String.not_le.1 hle'))

theorem bytes_le_bytes_iff {s s' : String} : bytes s ≤ bytes s' ↔ s ≤ s' := by
  rw [← List.not_lt, ← String.not_lt, bytes_lt_bytes_iff]

end Timetable.Text
