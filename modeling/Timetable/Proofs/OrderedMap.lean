import Mathlib.Data.List.Nodup
import Mathlib.Data.List.Perm.Basic
import Timetable.OrderedMap

/-!
# What a map holds

Ways to look at a map beside its lookups: the list of its values (`mem_values`), a second map that
lists what is said of them (`Indexes`), and a list of rows in any order that holds the same things
under their ids (`Holds`). Operations on a map have counterparts on indexes (`Indexes.insert`,
`Indexes.erase`, `Indexes.modify`) and on rows (`Holds.insert`, `Holds.filter`, `Holds.erase`,
`Holds.map`).
-/

namespace Timetable.OrderedMap

section Lookup

variable {κ α : Type} [LT κ] [DecidableEq κ]

theorem contains_iff {m : OrderedMap κ α} {k : κ} :
    m.contains k = true ↔ ∃ a, m.get? k = some a :=
  Option.isSome_iff_exists

theorem contains_eq_false_iff {m : OrderedMap κ α} {k : κ} :
    m.contains k = false ↔ m.get? k = none := by
  rw [contains, Option.isSome_eq_false_iff, Option.isNone_iff_eq_none]

theorem not_contains_iff {m : OrderedMap κ α} {k : κ} :
    ¬ m.contains k = true ↔ m.get? k = none := by
  rw [Bool.not_eq_true, contains_eq_false_iff]

/-- In a set, a key is there or not. -/
theorem get?_unit_iff {m : OrderedMap κ Unit} {k : κ} :
    m.get? k = some () ↔ m.contains k = true := by
  rw [contains_iff]
  constructor
  · exact fun h => ⟨(), h⟩
  · rintro ⟨_, h⟩
    exact h

@[simp] theorem contains_empty (k : κ) : (empty : OrderedMap κ α).contains k = false := rfl

omit [DecidableEq κ] in
@[simp] theorem values_empty : (empty : OrderedMap κ α).values = [] := rfl

variable [KeyOrder κ]

theorem contains_insert [DecidableLT κ] (m : OrderedMap κ α) (k l : κ) (a : α) :
    (m.insert k a).contains l = true ↔ l = k ∨ m.contains l = true := by
  rw [contains, get?_insert]
  by_cases h : l = k <;> simp [h, contains]

theorem contains_erase (m : OrderedMap κ α) (k l : κ) :
    (m.erase k).contains l = true ↔ l ≠ k ∧ m.contains l = true := by
  rw [contains, get?_erase]
  by_cases h : l = k <;> simp [h, contains]

theorem mem_values {m : OrderedMap κ α} {a : α} : a ∈ m.values ↔ ∃ k, m.get? k = some a := by
  simp only [values, List.mem_map, get?_eq_some_iff]
  constructor
  · rintro ⟨⟨k, b⟩, hb, rfl⟩
    exact ⟨k, hb⟩
  · rintro ⟨k, hk⟩
    exact ⟨(k, a), hk, rfl⟩

theorem mem_values_insert [DecidableLT κ] {m : OrderedMap κ α} {k : κ} {a b : α}
    (h : m.get? k = none) : b ∈ (m.insert k a).values ↔ b ∈ m.values ∨ b = a := by
  simp only [mem_values, get?_insert]
  constructor
  · rintro ⟨l, hl⟩
    split at hl
    · exact .inr (Option.some.inj hl).symm
    · exact .inl ⟨l, hl⟩
  · rintro (⟨l, hl⟩ | rfl)
    · refine ⟨l, ?_⟩
      rw [if_neg, hl]
      rintro rfl
      rw [h] at hl
      cases hl
    · exact ⟨k, by simp⟩

theorem mem_values_filter {m : OrderedMap κ α} {p : α → Bool} {a : α} :
    a ∈ (m.filter fun _ => p).values ↔ a ∈ m.values ∧ p a = true := by
  simp only [mem_values, get?_filter, Option.filter_eq_some_iff]
  exact exists_and_right

theorem mem_values_of_erase {m : OrderedMap κ α} {k : κ} {a : α} (h : a ∈ (m.erase k).values) :
    a ∈ m.values := by
  obtain ⟨l, hl⟩ := mem_values.1 h
  rw [get?_erase] at hl
  split at hl
  · cases hl
  · exact mem_values.2 ⟨l, hl⟩

theorem mem_values_modify {m : OrderedMap κ α} {k : κ} {f : α → α} {a : α}
    (h : a ∈ (m.modify k f).values) : ∃ b ∈ m.values, a = b ∨ a = f b := by
  obtain ⟨l, hl⟩ := mem_values.1 h
  rw [get?_modify] at hl
  split at hl
  · obtain ⟨b, hb, rfl⟩ := Option.map_eq_some_iff.1 hl
    exact ⟨b, mem_values.2 ⟨l, hb⟩, .inr rfl⟩
  · exact ⟨a, mem_values.2 ⟨l, hl⟩, .inl rfl⟩

omit [KeyOrder κ] in
theorem contains_modify (m : OrderedMap κ α) (k l : κ) (f : α → α) :
    (m.modify k f).contains l = m.contains l := by
  rw [contains, contains, get?_modify]
  split <;> simp

theorem mem_keys {m : OrderedMap κ α} {k : κ} : k ∈ m.keys ↔ m.contains k = true := by
  simp only [keys, List.mem_map, contains_iff, get?_eq_some_iff]
  constructor
  · rintro ⟨⟨l, a⟩, ha, rfl⟩
    exact ⟨a, ha⟩
  · rintro ⟨a, ha⟩
    exact ⟨(k, a), ha, rfl⟩

omit [DecidableEq κ] in
theorem nodup_keys (m : OrderedMap κ α) : m.keys.Nodup := by
  refine List.pairwise_map.2 (m.ascending.imp ?_)
  intro a b hab e
  rw [e] at hab
  exact KeyOrder.irrefl _ hab

omit [DecidableEq κ] in
theorem length_values_insert_le [DecidableLT κ] (m : OrderedMap κ α) (k : κ) (a : α) :
    (m.insert k a).values.length ≤ m.values.length + 1 := by
  have hput : ∀ es : List (κ × α), (put k a es).length ≤ es.length + 1 := by
    intro es
    induction es with
    | nil => simp [put]
    | cons e es ih =>
      obtain ⟨l, b⟩ := e
      rw [put]
      split
      · simpa using ih
      · split <;> simp
  simpa [values, insert] using hput m.entries

omit [KeyOrder κ] in
theorem length_values_erase_le (m : OrderedMap κ α) (k : κ) :
    (m.erase k).values.length ≤ m.values.length := by
  simpa [values, erase, filter] using List.length_filter_le _ m.entries

omit [KeyOrder κ] in
/-- What a fold has put into a map is what each of its steps puts there. -/
theorem contains_foldl {β : Type} {f : OrderedMap κ α → β → OrderedMap κ α} {k : κ} {p : β → Prop}
    (hf : ∀ m b, (f m b).contains k = true ↔ m.contains k = true ∨ p b) (bs : List β)
    (m : OrderedMap κ α) :
    (bs.foldl f m).contains k = true ↔ m.contains k = true ∨ ∃ b ∈ bs, p b := by
  induction bs generalizing m with
  | nil => simp
  | cons b bs ih => rw [List.foldl_cons, ih, hf, or_assoc, List.exists_mem_cons_iff]

end Lookup

/-! ### Ids and indexes -/

section Ids

variable {α : Type} {m : OrderedMap String α} {id : α → String}
  (h : ∀ {k a}, m.get? k = some a → id a = k)

include h

/-- A value that is put under its id stands under it, as all others do. -/
theorem id_eq_of_insert {k : String} {a b : α} (hb : (m.insert (id a) a).get? k = some b) :
    id b = k := by
  rw [get?_insert] at hb
  split at hb
  · next hk =>
    cases hb
    exact hk.symm
  · exact h hb

theorem id_eq_of_erase {k l : String} {b : α} (hb : (m.erase l).get? k = some b) : id b = k := by
  rw [get?_erase] at hb
  split at hb
  · cases hb
  · exact h hb

theorem id_eq_of_filter {k : String} {b : α} {p : String → α → Bool}
    (hb : (m.filter p).get? k = some b) : id b = k := by
  rw [get?_filter, Option.filter_eq_some_iff] at hb
  exact h hb.1

theorem id_eq_of_modify {k l : String} {b : α} {g : α → α} (hg : ∀ a, id (g a) = id a)
    (hb : (m.modify l g).get? k = some b) : id b = k := by
  rw [get?_modify] at hb
  split at hb
  · obtain ⟨a, ha, rfl⟩ := Option.map_eq_some_iff.1 hb
    rw [hg]
    exact h ha
  · exact h hb

/-- What an id was taken from has lost the one value that stood under it. -/
theorem mem_values_erase {k : String} {a b : α} (ha : m.get? k = some a) :
    b ∈ (m.erase k).values ↔ b ∈ m.values ∧ b ≠ a := by
  simp only [mem_values, get?_erase]
  constructor
  · rintro ⟨l, hl⟩
    split at hl
    · cases hl
    · next hne =>
      refine ⟨⟨l, hl⟩, ?_⟩
      rintro rfl
      exact hne ((h hl).symm.trans (h ha))
  · rintro ⟨⟨l, hl⟩, hne⟩
    refine ⟨l, ?_⟩
    rw [if_neg, hl]
    rintro rfl
    rw [ha] at hl
    exact hne (Option.some.inj hl).symm

end Ids

section Index

variable {κ α : Type} [LT κ] [DecidableEq κ] {f : α → κ}

/-- An index lists what `f` says of the values of a map, of which it says nothing twice. -/
structure Indexes (index : OrderedMap κ Unit) (f : α → κ) (m : OrderedMap String α) : Prop where
  contains_iff : ∀ k, index.contains k = true ↔ ∃ a ∈ m.values, f a = k
  inj : ∀ {a b}, a ∈ m.values → b ∈ m.values → f a = f b → a = b

namespace Indexes

variable [KeyOrder κ] {index : OrderedMap κ Unit} {m : OrderedMap String α} {a : α} {id : String}

theorem insert [DecidableLT κ] (h : Indexes index f m) (hid : m.get? id = none)
    (hnew : index.contains (f a) = false) :
    Indexes (index.insert (f a) ()) f (m.insert id a) where
  contains_iff := by
    intro k
    rw [contains_insert, h.contains_iff]
    simp only [mem_values_insert hid]
    constructor
    · rintro (rfl | ⟨b, hb, hk⟩)
      · exact ⟨a, .inr rfl, rfl⟩
      · exact ⟨b, .inl hb, hk⟩
    · rintro ⟨b, hb | rfl, hk⟩
      · exact .inr ⟨b, hb, hk⟩
      · exact .inl hk.symm
  inj := by
    have hfresh : ∀ b ∈ m.values, f b ≠ f a := by
      intro b hb e
      rw [(h.contains_iff (f a)).2 ⟨b, hb, e⟩] at hnew
      cases hnew
    intro b c hb hc e
    rcases (mem_values_insert hid).1 hb with hb' | rfl <;>
      rcases (mem_values_insert hid).1 hc with hc' | rfl
    · exact h.inj hb' hc' e
    · exact absurd e (hfresh b hb')
    · exact absurd e.symm (hfresh c hc')
    · rfl

theorem erase (h : Indexes index f m) {g : α → String}
    (hg : ∀ {k a}, m.get? k = some a → g a = k) (ha : m.get? id = some a) :
    Indexes (index.erase (f a)) f (m.erase id) where
  contains_iff := by
    intro k
    rw [contains_erase, h.contains_iff]
    simp only [mem_values_erase hg ha]
    constructor
    · rintro ⟨hne, b, hb, rfl⟩
      exact ⟨b, ⟨hb, fun e => hne (by rw [e])⟩, rfl⟩
    · rintro ⟨b, ⟨hb, hne⟩, rfl⟩
      exact ⟨fun e => hne (h.inj hb (mem_values.2 ⟨id, ha⟩) e), b, hb, rfl⟩
  inj := fun hb hc =>
    h.inj ((mem_values_erase hg ha).1 hb).1 ((mem_values_erase hg ha).1 hc).1

omit [KeyOrder κ] in
/-- Changing a value leaves an index right if neither its id nor what is listed changes. -/
theorem modify (h : Indexes index f m) {g : α → String}
    (hg : ∀ {k a}, m.get? k = some a → g a = k) {change : α → α} (hid : ∀ a, g (change a) = g a)
    (hlisted : ∀ a, f (change a) = f a) : Indexes index f (m.modify id change) := by
  have hold : ∀ {b}, b ∈ (m.modify id change).values → ∃ a ∈ m.values, g b = g a ∧ f b = f a := by
    intro b hb
    obtain ⟨a, ha, rfl | rfl⟩ := mem_values_modify hb
    · exact ⟨b, ha, rfl, rfl⟩
    · exact ⟨a, ha, hid a, hlisted a⟩
  have hstill : ∀ {a}, a ∈ m.values → ∃ b ∈ (m.modify id change).values, f b = f a := by
    intro a ha
    obtain ⟨k, hk⟩ := mem_values.1 ha
    by_cases hki : k = id
    · subst hki
      exact ⟨change a, mem_values.2 ⟨k, by simp [hk]⟩, hlisted a⟩
    · exact ⟨a, mem_values.2 ⟨k, by simp [hki, hk]⟩, rfl⟩
  refine ⟨fun k => ?_, fun {b c} hb hc e => ?_⟩
  · rw [h.contains_iff]
    constructor
    · rintro ⟨a, ha, rfl⟩
      exact hstill ha
    · rintro ⟨b, hb, rfl⟩
      obtain ⟨a, ha, -, e⟩ := hold hb
      exact ⟨a, ha, e.symm⟩
  · -- both stand under one id, since they come from one value
    obtain ⟨a, ha, hba, hfb⟩ := hold hb
    obtain ⟨a', ha', hca, hfc⟩ := hold hc
    have haa : a = a' := h.inj ha ha' (by rw [← hfb, ← hfc, e])
    obtain ⟨k, hk⟩ := mem_values.1 hb
    obtain ⟨l, hl⟩ := mem_values.1 hc
    have hkl : k = l := by
      rw [← id_eq_of_modify hg hid hk, ← id_eq_of_modify hg hid hl, hba, hca, haa]
    rw [hkl, hl] at hk
    exact (Option.some.inj hk).symm

end Indexes

end Index

/-! ### Rows -/

section Rows

variable {α : Type} {id : α → String}

/-- A map holds rows if each row is found under its id and nothing else is found. -/
structure Holds (m : OrderedMap String α) (id : α → String) (rows : List α) : Prop where
  nodup : (rows.map id).Nodup
  get?_iff : ∀ k a, m.get? k = some a ↔ a ∈ rows ∧ id a = k

namespace Holds

variable {m : OrderedMap String α} {rows : List α}

theorem empty : Holds (OrderedMap.empty : OrderedMap String α) id [] :=
  ⟨List.nodup_nil, by simp⟩

/-- The values of a map are rows that it holds if they stand under their ids. -/
theorem values (h : ∀ k a, m.get? k = some a → id a = k) : Holds m id m.values := by
  refine ⟨?_, fun k a => ⟨fun ha => ⟨mem_values.2 ⟨k, ha⟩, h k a ha⟩, ?_⟩⟩
  · have hkeys : m.values.map id = m.keys := by
      rw [OrderedMap.values, keys, List.map_map]
      exact List.map_congr_left fun e he => h e.1 e.2 (get?_eq_some_iff.2 he)
    rw [hkeys]
    exact nodup_keys m
  · rintro ⟨ha, rfl⟩
    obtain ⟨k, hk⟩ := mem_values.1 ha
    rw [h k a hk]
    exact hk

/-- The values of a map stand in the order of their ids. -/
theorem pairwise_values (h : ∀ k a, m.get? k = some a → id a = k) :
    m.values.Pairwise fun a b => id a < id b := by
  have hid : ∀ e ∈ m.entries, id e.2 = e.1 := fun e he => h e.1 e.2 (get?_eq_some_iff.2 he)
  rw [OrderedMap.values, List.pairwise_map]
  refine m.ascending.imp_of_mem fun {e f} he hf hlt => ?_
  rw [hid e he, hid f hf]
  exact hlt

theorem mem (h : Holds m id rows) {k : String} {a : α} (ha : m.get? k = some a) : a ∈ rows :=
  ((h.get?_iff k a).1 ha).1

theorem id_eq (h : Holds m id rows) {k : String} {a : α} (ha : m.get? k = some a) : id a = k :=
  ((h.get?_iff k a).1 ha).2

theorem get?_of_mem (h : Holds m id rows) {a : α} (ha : a ∈ rows) : m.get? (id a) = some a :=
  (h.get?_iff (id a) a).2 ⟨ha, rfl⟩

theorem contains_iff_mem (h : Holds m id rows) {k : String} :
    m.contains k = true ↔ ∃ a ∈ rows, id a = k := by
  simp only [contains_iff, h.get?_iff]

theorem any_eq (h : Holds m id rows) (k : String) : rows.any (id · == k) = m.contains k := by
  rw [Bool.eq_iff_iff, h.contains_iff_mem]
  simp

theorem find?_eq (h : Holds m id rows) (k : String) : rows.find? (id · == k) = m.get? k := by
  cases hf : rows.find? (id · == k) with
  | none =>
    rw [eq_comm, ← contains_eq_false_iff, ← h.any_eq k]
    simpa using hf
  | some a =>
    have hk : id a = k := by simpa using List.find?_some hf
    rw [eq_comm]
    exact (h.get?_iff k a).2 ⟨List.mem_of_find?_eq_some hf, hk⟩

/-- Looking for rows other than that of a key finds all of them exactly if the key has none. -/
theorem filter_ne_eq_self_iff (h : Holds m id rows) {k : String} :
    rows.filter (id · ≠ k) = rows ↔ m.get? k = none := by
  rw [List.filter_eq_self, ← not_contains_iff, h.contains_iff_mem]
  simp

theorem perm (h : Holds m id rows) {others : List α} (h' : Holds m id others) :
    rows.Perm others := by
  refine (List.perm_ext_iff_of_nodup h.nodup.of_map h'.nodup.of_map).2 fun a => ⟨fun ha => ?_, ?_⟩
  · exact h'.mem (h.get?_of_mem ha)
  · intro ha
    exact h.mem (h'.get?_of_mem ha)

theorem perm_values (h : Holds m id rows) : m.values.Perm rows :=
  (values fun _ _ ha => h.id_eq ha).perm h

theorem insert (h : Holds m id rows) {a : α} (ha : m.get? (id a) = none) :
    Holds (m.insert (id a) a) id (rows ++ [a]) := by
  have hnew : ∀ b ∈ rows, id b ≠ id a := by
    intro b hb e
    rw [← e, h.get?_of_mem hb] at ha
    cases ha
  refine ⟨?_, fun k b => ?_⟩
  · rw [List.map_append, List.nodup_append]
    refine ⟨h.nodup, by simp, ?_⟩
    intro x hx y hy e
    obtain ⟨b, hb, rfl⟩ := List.mem_map.1 hx
    exact hnew b hb (by simpa [e] using hy)
  · rw [get?_insert]
    by_cases hk : k = id a
    · subst hk
      simp only [↓reduceIte, Option.some.injEq, List.mem_append, List.mem_singleton]
      constructor
      · rintro rfl
        exact ⟨.inr rfl, rfl⟩
      · rintro ⟨hb | rfl, hid⟩
        · exact absurd hid (hnew b hb)
        · rfl
    · simp only [hk, ↓reduceIte, h.get?_iff, List.mem_append, List.mem_singleton]
      constructor
      · rintro ⟨hb, hid⟩
        exact ⟨.inl hb, hid⟩
      · rintro ⟨hb | rfl, hid⟩
        · exact ⟨hb, hid⟩
        · exact absurd hid.symm hk

theorem filter (h : Holds m id rows) (p : α → Bool) :
    Holds (m.filter fun _ a => p a) id (rows.filter p) := by
  refine ⟨h.nodup.sublist (List.filter_sublist.map id), fun k a => ?_⟩
  rw [get?_filter, Option.filter_eq_some_iff, h.get?_iff, List.mem_filter]
  exact and_right_comm

theorem erase (h : Holds m id rows) (k : String) :
    Holds (m.erase k) id (rows.filter (id · ≠ k)) := by
  refine ⟨h.nodup.sublist (List.filter_sublist.map id), fun l a => ?_⟩
  rw [get?_erase, List.mem_filter]
  by_cases hl : l = k
  · subst hl
    simp
  · simp only [hl, ↓reduceIte, h.get?_iff, ne_eq, decide_not, Bool.not_eq_eq_eq_not, Bool.not_true,
      decide_eq_false_iff_not]
    constructor
    · rintro ⟨ha, rfl⟩
      exact ⟨⟨ha, hl⟩, rfl⟩
    · rintro ⟨⟨ha, -⟩, rfl⟩
      exact ⟨ha, rfl⟩

/-- Rows that are changed in place, each under its id, are held by a map that is changed alike. -/
theorem map (h : Holds m id rows) {n : OrderedMap String α} {f : α → α}
    (hid : ∀ a, id (f a) = id a) (hn : ∀ k, n.get? k = (m.get? k).map f) :
    Holds n id (rows.map f) := by
  refine ⟨?_, fun k a => ?_⟩
  · rw [List.map_map, show id ∘ f = id from funext hid]
    exact h.nodup
  · rw [hn, Option.map_eq_some_iff, List.mem_map]
    constructor
    · rintro ⟨b, hb, rfl⟩
      exact ⟨⟨b, h.mem hb, rfl⟩, by rw [hid, h.id_eq hb]⟩
    · rintro ⟨⟨b, hb, rfl⟩, hk⟩
      rw [hid] at hk
      exact ⟨b, hk ▸ h.get?_of_mem hb, rfl⟩

end Holds

end Rows

end Timetable.OrderedMap
