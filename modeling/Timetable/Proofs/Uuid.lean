import Timetable.Uuid

/-!
# The text of an identifier

The digits of an identifier's text are those of its bytes, so reading them gives the bytes back
(`pairs_toText`), and no two identifiers have the same text.
-/

namespace Timetable

theorem Hex.filterMap_byteDigits (b : UInt8) :
    (byteDigits b).filterMap value? = [b.toNat / 16, b.toNat % 16] := by
  have hb : b.toNat < 256 := b.toNat_lt
  rw [byteDigits, List.filterMap_cons_some (value?_digit (by omega)),
    List.filterMap_cons_some (value?_digit (by omega)), List.filterMap_nil]

namespace Uuid

theorem pairs_filterMap_hex (bs : List UInt8) : pairs ((hex bs).filterMap Hex.value?) = bs := by
  induction bs with
  | nil => rfl
  | cons b bs ih =>
    have hb : UInt8.ofNat (b.toNat / 16 * 16 + b.toNat % 16) = b := by
      rw [Nat.div_add_mod']
      exact UInt8.ofNat_toNat
    have hhex : (hex (b :: bs)).filterMap Hex.value? =
        b.toNat / 16 :: b.toNat % 16 :: (hex bs).filterMap Hex.value? := by
      rw [hex, List.flatMap_cons, List.filterMap_append, Hex.filterMap_byteDigits]
      rfl
    rw [hhex, pairs, hb, ih]

/-- The groups of a text are those of the bytes. -/
theorem filterMap_toText (u : Uuid) :
    u.toText.filterMap Hex.value? = (hex u.octets).filterMap Hex.value? := by
  have hgroup : ∀ i n, (hex ((u.octets.drop i).take n)).filterMap Hex.value? ++
      (hex (u.octets.drop (i + n))).filterMap Hex.value? =
        (hex (u.octets.drop i)).filterMap Hex.value? := by
    intro i n
    rw [← List.filterMap_append, hex, hex, ← List.flatMap_append, ← List.drop_drop,
      List.take_append_drop, hex]
  have hlast : (u.octets.drop 10).take 6 = u.octets.drop 10 :=
    List.take_of_length_le (by simp [u.length_octets])
  have hhyphen : Hex.value? '-' = none := by decide
  simp only [toText, List.filterMap_append, List.filterMap_cons_none hhyphen, List.append_assoc]
  rw [hlast, hgroup 8 2, hgroup 6 2, hgroup 4 2, hgroup 0 4, List.drop_zero]

theorem pairs_toText (u : Uuid) : pairs (u.toText.filterMap Hex.value?) = u.octets := by
  rw [filterMap_toText, pairs_filterMap_hex]

theorem toString_inj {u v : Uuid} : u.toString = v.toString ↔ u = v := by
  refine ⟨fun h => ?_, congrArg Uuid.toString⟩
  have htext : u.toText = v.toText := String.ofList_injective h
  have hoctets : u.octets = v.octets := by
    rw [← pairs_toText, htext, pairs_toText]
  cases u
  cases v
  simp_all

end Uuid

end Timetable
