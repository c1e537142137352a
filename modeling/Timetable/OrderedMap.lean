/-!
# Finite maps in the order of their keys

An `OrderedMap` lists its entries with strictly ascending keys, so that two maps with the same
entries are equal (`OrderedMap.ext_get?`) and listing a map needs no sorting. Each operation is
described by what it does to a lookup: `get?_empty`, `get?_insert`, `get?_erase`, `get?_modify`,
`get?_filter`.
-/

namespace Timetable

/-- The order of the keys is a strict linear order. -/
class KeyOrder (κ : Type) [LT κ] : Prop where
  irrefl : ∀ a : κ, ¬ a < a
  trans : ∀ {a b c : κ}, a < b → b < c → a < c
  eq_of_not_lt : ∀ {a b : κ}, ¬ a < b → ¬ b < a → a = b

/-- Texts are ordered by their code points, which is also the order of their bytes. -/
instance : KeyOrder String where
  irrefl := String.lt_irrefl
  trans := String.lt_trans
  eq_of_not_lt h h' := String.le_antisymm (String.not_lt.1 h') (String.not_lt.1 h)

/-- Entries with strictly ascending keys. -/
structure OrderedMap (κ α : Type) [LT κ] where
  entries : List (κ × α)
  ascending : entries.Pairwise fun a b => a.1 < b.1

namespace OrderedMap

variable {κ α : Type} [LT κ]

/-! ### Entry lists -/

/-- The value at a key of an entry list. -/
def find {κ α : Type} [DecidableEq κ] (k : κ) : List (κ × α) → Option α
  | [] => none
  | (k', a) :: es => if k = k' then some a else find k es

/-- An entry list with a value put at a key, in place of the one that was there. -/
def put [DecidableLT κ] (k : κ) (a : α) : List (κ × α) → List (κ × α)
  | [] => [(k, a)]
  | (k', a') :: es =>
    if k' < k then (k', a') :: put k a es
    else if k < k' then (k, a) :: (k', a') :: es
    else (k, a) :: es

theorem mem_put [DecidableLT κ] {k : κ} {a : α} {e : κ × α} :
    ∀ {es : List (κ × α)}, e ∈ put k a es → e = (k, a) ∨ e ∈ es
  | [], h => by simpa [put] using h
  | (k', a') :: es, h => by
    unfold put at h
    split at h
    · rcases List.mem_cons.1 h with rfl | h
      · simp
      · rcases mem_put h with h | h <;> simp [h]
    · split at h
      · simpa using h
      · rcases List.mem_cons.1 h with h | h <;> simp [h]

theorem put_ascending [DecidableLT κ] [KeyOrder κ] {k : κ} {a : α} :
    ∀ {es : List (κ × α)}, es.Pairwise (fun a b => a.1 < b.1) →
      (put k a es).Pairwise (fun a b => a.1 < b.1)
  | [], _ => by simp [put]
  | (k', a') :: es, h => by
    have ⟨hhead, htail⟩ := List.pairwise_cons.1 h
    unfold put
    split
    · next hk' =>
      refine List.pairwise_cons.2 ⟨fun e he => ?_, put_ascending htail⟩
      rcases mem_put he with rfl | he
      · exact hk'
      · exact hhead e he
    · next hk' =>
      split
      · next hk =>
        refine List.pairwise_cons.2 ⟨fun e he => ?_, h⟩
        rcases List.mem_cons.1 he with rfl | he
        · exact hk
        · exact KeyOrder.trans hk (hhead e he)
      · next hk =>
        have hkk := KeyOrder.eq_of_not_lt hk hk'
        subst hkk
        exact List.pairwise_cons.2 ⟨hhead, htail⟩

theorem find_put [DecidableEq κ] [DecidableLT κ] [KeyOrder κ] (k l : κ) (a : α) :
    ∀ es : List (κ × α), find l (put k a es) = if l = k then some a else find l es
  | [] => rfl
  | (k', a') :: es => by
    unfold put
    split
    · next hk' =>
      simp only [find, find_put k l a es]
      by_cases hl : l = k'
      · have : l ≠ k := fun h => KeyOrder.irrefl k (by rw [hl] at h; rw [h] at hk'; exact hk')
        simp [hl, hl ▸ this]
      · simp [hl]
    · next hk' =>
      split
      · rfl
      · next hk =>
        have hkk := KeyOrder.eq_of_not_lt hk hk'
        subst hkk
        by_cases hl : l = k <;> simp [find, hl]

theorem find_eq_some [DecidableEq κ] [KeyOrder κ] {k : κ} {a : α} :
    ∀ {es : List (κ × α)}, es.Pairwise (fun a b => a.1 < b.1) → (find k es = some a ↔ (k, a) ∈ es)
  | [], _ => by simp [find]
  | (k', a') :: es, h => by
    have ⟨hhead, htail⟩ := List.pairwise_cons.1 h
    unfold find
    by_cases hk : k = k'
    · subst hk
      simp only [↓reduceIte, Option.some.injEq, List.mem_cons, Prod.mk.injEq, true_and]
      constructor
      · rintro rfl
        exact .inl rfl
      · rintro (rfl | hm)
        · rfl
        · exact absurd (hhead _ hm) (KeyOrder.irrefl _)
    · simp [hk, find_eq_some htail]

/-! ### Maps -/

/-- The map without entries. -/
def empty : OrderedMap κ α := ⟨[], .nil⟩

instance : Inhabited (OrderedMap κ α) := ⟨empty⟩

/-- The value at a key. -/
def get? [DecidableEq κ] (m : OrderedMap κ α) (k : κ) : Option α := find k m.entries

/-- Whether a key has a value. -/
def contains [DecidableEq κ] (m : OrderedMap κ α) (k : κ) : Bool := (m.get? k).isSome

/-- Puts a value at a key, in place of the one that was there. -/
def insert [DecidableLT κ] [KeyOrder κ] (m : OrderedMap κ α) (k : κ) (a : α) : OrderedMap κ α :=
  ⟨put k a m.entries, put_ascending m.ascending⟩

/-- The entries that a test accepts. -/
def filter (p : κ → α → Bool) (m : OrderedMap κ α) : OrderedMap κ α :=
  ⟨m.entries.filter fun e => p e.1 e.2, m.ascending.filter _⟩

/-- Removes a key. -/
def erase [DecidableEq κ] (m : OrderedMap κ α) (k : κ) : OrderedMap κ α :=
  m.filter fun k' _ => k' ≠ k

/-- Changes the value at a key, if there is one. -/
def modify [DecidableEq κ] (m : OrderedMap κ α) (k : κ) (f : α → α) : OrderedMap κ α :=
  ⟨m.entries.map fun e => (e.1, if e.1 = k then f e.2 else e.2), List.pairwise_map.2 m.ascending⟩

/-- The values in the order of their keys. -/
def values (m : OrderedMap κ α) : List α := m.entries.map (·.2)

/-- The keys in ascending order. -/
def keys (m : OrderedMap κ α) : List κ := m.entries.map (·.1)

section Lookup

variable [DecidableEq κ]

theorem get?_eq_some_iff [KeyOrder κ] {m : OrderedMap κ α} {k : κ} {a : α} :
    m.get? k = some a ↔ (k, a) ∈ m.entries :=
  find_eq_some m.ascending

@[simp] theorem get?_empty (k : κ) : (empty : OrderedMap κ α).get? k = none := rfl

@[simp] theorem get?_insert [DecidableLT κ] [KeyOrder κ] (m : OrderedMap κ α) (k l : κ) (a : α) :
    (m.insert k a).get? l = if l = k then some a else m.get? l :=
  find_put k l a m.entries

theorem get?_filter [KeyOrder κ] (m : OrderedMap κ α) (p : κ → α → Bool) (k : κ) :
    (m.filter p).get? k = (m.get? k).filter (p k) := by
  ext a
  rw [get?_eq_some_iff]
  simp [filter, Option.filter_eq_some_iff, get?_eq_some_iff]

@[simp] theorem get?_erase [KeyOrder κ] (m : OrderedMap κ α) (k l : κ) :
    (m.erase k).get? l = if l = k then none else m.get? l := by
  rw [erase, get?_filter]
  by_cases h : l = k
  · cases hm : m.get? l <;> simp [h, Option.filter]
  · cases hm : m.get? l <;> simp [h, Option.filter]

omit [LT κ] in
theorem find_map_modify (k l : κ) (f : α → α) :
    ∀ es : List (κ × α), find l (es.map fun e => (e.1, if e.1 = k then f e.2 else e.2)) =
      if l = k then (find l es).map f else find l es
  | [] => by simp [find]
  | (k', a) :: es => by
    simp only [List.map_cons, find, find_map_modify k l f es]
    by_cases hl : l = k'
    · subst hl
      by_cases hk : l = k <;> simp [hk]
    · simp [hl]

@[simp] theorem get?_modify (m : OrderedMap κ α) (k l : κ) (f : α → α) :
    (m.modify k f).get? l = if l = k then (m.get? l).map f else m.get? l :=
  find_map_modify k l f m.entries

end Lookup

/-! ### Extensionality -/

theorem entries_ext [KeyOrder κ] : ∀ {es fs : List (κ × α)},
    es.Pairwise (fun a b => a.1 < b.1) → fs.Pairwise (fun a b => a.1 < b.1) →
      (∀ e, e ∈ es ↔ e ∈ fs) → es = fs
  | [], [], _, _, _ => rfl
  | [], f :: fs, _, _, h => absurd ((h f).2 (by simp)) (by simp)
  | e :: es, [], _, _, h => absurd ((h e).1 (by simp)) (by simp)
  | e :: es, f :: fs, hes, hfs, h => by
    have ⟨he, hes'⟩ := List.pairwise_cons.1 hes
    have ⟨hf, hfs'⟩ := List.pairwise_cons.1 hfs
    have hef : e = f := by
      rcases List.mem_cons.1 ((h e).1 (by simp)) with h1 | h1
      · exact h1
      · rcases List.mem_cons.1 ((h f).2 (by simp)) with h2 | h2
        · exact h2.symm
        · exact absurd (KeyOrder.trans (he f h2) (hf e h1)) (KeyOrder.irrefl _)
    subst hef
    congr 1
    refine entries_ext hes' hfs' fun x => ⟨fun hx => ?_, fun hx => ?_⟩
    · rcases List.mem_cons.1 ((h x).1 (by simp [hx])) with rfl | h1
      · exact absurd (he x hx) (KeyOrder.irrefl _)
      · exact h1
    · rcases List.mem_cons.1 ((h x).2 (by simp [hx])) with rfl | h1
      · exact absurd (hf x hx) (KeyOrder.irrefl _)
      · exact h1

/-- Maps with the same lookups are equal. -/
theorem ext_get? [DecidableEq κ] [KeyOrder κ] {m n : OrderedMap κ α}
    (h : ∀ k, m.get? k = n.get? k) : m = n := by
  cases m with
  | mk es hes =>
    cases n with
    | mk fs hfs =>
      congr
      refine entries_ext hes hfs fun e => ?_
      have := h e.1
      have h1 := get?_eq_some_iff (m := ⟨es, hes⟩) (k := e.1) (a := e.2)
      have h2 := get?_eq_some_iff (m := ⟨fs, hfs⟩) (k := e.1) (a := e.2)
      rw [this] at h1
      exact h1.symm.trans h2

end OrderedMap

end Timetable
