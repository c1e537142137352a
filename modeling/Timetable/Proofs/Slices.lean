import Timetable.Proofs.Bytes
import Timetable.Proofs.Keyed.Consistent
import Timetable.Proofs.Relational.Listings
import Timetable.Proofs.Relational.Visible

/-!
# Deployments page by page

A page is a `slice` of all deployments in the order of the bytes of their ids. The keyed store lists
exactly the slice that is asked for, whatever offset and limit are. The relational store hands both
to its engine as signed words, in which a number from `2 ^ 63` on is negative: as a limit it is
none, which leaves nothing out that the limit would let in, but as an offset it is zero, and
deployments are listed that lie before it. `deployments_are_listed_in_slices` says when a page is
right.
-/

namespace Timetable

open Text (bytes bytes_le_bytes_iff)

/-- Deployments in the order of the bytes of their ids. -/
def Deployment.sorted (ds : List Deployment) : List Deployment :=
  ds.mergeSort fun d e => bytes d.id ≤ bytes e.id

/-- What stands behind an offset, up to a limit if there is one. -/
def slice (offset : UInt64) (limit : Option UInt64) (as : List α) : List α :=
  match limit with
  | some n => (as.drop offset.toNat).take n.toNat
  | none => as.drop offset.toNat

/-- Ids are in the same order as their bytes. -/
theorem Deployment.sorted_eq (ds : List Deployment) :
    Deployment.sorted ds = ds.mergeSort (·.id ≤ ·.id) := by
  simp only [sorted, bytes_le_bytes_iff]

theorem Deployment.length_sorted (ds : List Deployment) :
    (Deployment.sorted ds).length = ds.length :=
  List.length_mergeSort _

section

variable {offset n : UInt64} {as : List α}

/-- Behind the end there is nothing. -/
theorem slice_eq_nil_of_length_le (h : as.length ≤ offset.toNat) (limit : Option UInt64) :
    slice offset limit as = [] := by
  cases limit <;> simp [slice, List.drop_eq_nil_of_le h]

/-- A limit that there are not so many elements for is none. -/
theorem slice_some_of_length_le (h : as.length ≤ n.toNat) (offset : UInt64) :
    slice offset (some n) as = slice offset none as := by
  refine List.take_of_length_le ?_
  rw [List.length_drop]
  omega

theorem slice_zero_eq_nil_iff {limit : Option UInt64} :
    slice 0 limit as = [] ↔ as = [] ∨ limit = some 0 := by
  cases limit with
  | none => simp [slice]
  | some n =>
    simp only [slice, UInt64.toNat_zero, List.drop_zero, List.take_eq_nil_iff, Option.some.injEq,
      ← UInt64.toNat_inj]
    exact or_comm

end

/-! ### The keyed store -/

namespace Keyed

theorem Tables.WellFormed.listDeployments_eq_slice {t : Tables} (h : t.WellFormed)
    (offset : UInt64) (limit : Option UInt64) :
    t.listDeployments offset limit =
      slice offset limit (Deployment.sorted t.deployments.values) := by
  have hlt : t.deployments.values.Pairwise fun d e => d.id < e.id :=
    OrderedMap.Holds.pairwise_values fun _ _ hd => h.deployment_id hd
  have hsorted : Deployment.sorted t.deployments.values = t.deployments.values := by
    rw [Deployment.sorted_eq]
    refine List.mergeSort_of_pairwise (hlt.imp fun hde => decide_eq_true ?_)
    exact String.not_lt.1 (String.lt_asymm hde)
  rw [hsorted, Tables.listDeployments_eq]
  rfl

/-- Whatever is done from empty tables on, the tables stay well formed. -/
theorem throughout_wellFormed {ι : Type} [DecidableEq ι] (deeds : List (Deed ι)) :
    Throughout Tables.WellFormed ((Desk.opening Ledger.empty).after deeds) := by
  have hstart : Throughout Tables.WellFormed
      (Desk.opening Ledger.empty : Desk Ledger Transaction ι) :=
    ⟨Tables.wellFormed_empty, fun i tx h => by cases h⟩
  exact hstart.after Tables.wellFormed_empty fun _ _ _ e _ _ ht => ht.serve e

end Keyed

/-! ### The relational store -/

namespace Relational

/-- An offset as the engine takes it. -/
def effectiveOffset (offset : UInt64) : UInt64 := if SignFree offset then offset else 0

/-- A limit as the engine takes it. -/
def effectiveLimit (limit : Option UInt64) : Option UInt64 :=
  limit.filter fun n => decide (SignFree n)

theorem effectiveLimit_of_signFree {n : UInt64} (h : SignFree n) :
    effectiveLimit (some n) = some n := by
  simp [effectiveLimit, h]

theorem effectiveLimit_of_not_signFree {n : UInt64} (h : ¬ SignFree n) :
    effectiveLimit (some n) = none := by
  simp [effectiveLimit, h]

theorem Tables.listDeployments_eq_slice (t : Tables) (offset : UInt64) (limit : Option UInt64) :
    t.listDeployments offset limit =
      slice (effectiveOffset offset) (effectiveLimit limit)
        (Deployment.sorted t.deploymentRows) := by
  have hoffset : (signed offset).toNat = (effectiveOffset offset).toNat := by
    unfold effectiveOffset
    split
    · next h =>
      rw [signed_eq h]
      rfl
    · next h =>
      have hlt := offset.toNat_lt
      rw [signed_eq_sub h, UInt64.toNat_zero]
      omega
  simp only [Tables.listDeployments, hoffset, Deployment.sorted_eq]
  cases limit with
  | none => rfl
  | some n =>
    by_cases hn : SignFree n
    · rw [effectiveLimit_of_signFree hn]
      refine if_neg ?_
      rw [signed_eq hn]
      omega
    · rw [effectiveLimit_of_not_signFree hn]
      refine if_pos ?_
      have hlt := n.toNat_lt
      rw [signed_eq_sub hn]
      omega

/-- With fewer elements than a signed word counts, only the offset can be taken wrongly, and only if
something would be listed from the start on. -/
theorem slice_effective_eq_iff {as : List α} (h : as.length < 9223372036854775808)
    (offset : UInt64) (limit : Option UInt64) :
    slice (effectiveOffset offset) (effectiveLimit limit) as = slice offset limit as ↔
      SignFree offset ∨ as = [] ∨ limit = some 0 := by
  have hlimit (o : UInt64) : slice o (effectiveLimit limit) as = slice o limit as := by
    cases limit with
    | none => rfl
    | some n =>
      by_cases hn : SignFree n
      · rw [effectiveLimit_of_signFree hn]
      -- a limit that does not fit a signed word is above the number of elements
      · rw [effectiveLimit_of_not_signFree hn]
        rw [SignFree] at hn
        rw [slice_some_of_length_le (by omega)]
  rw [hlimit]
  by_cases hoffset : SignFree offset
  · simp [effectiveOffset, hoffset]
  -- what is asked for lies behind the end, and the engine lists from the start on
  · have hzero : effectiveOffset offset = 0 := if_neg hoffset
    have hbehind : slice offset limit as = [] := by
      rw [SignFree] at hoffset
      exact slice_eq_nil_of_length_le (by omega) limit
    rw [hzero, hbehind, slice_zero_eq_nil_iff]
    simp [hoffset]

end Relational

/-! ### Pages of both stores -/

open Relational in
/-- The keyed store lists the slice that is asked for, of the deployments that a transaction works
on. So does the relational store with the numbers as its engine takes them, as long as the table is
there and can be read. With fewer deployments than a signed word counts, this is the slice that was
asked for exactly if the offset fits such a word, there is no deployment, or none is wanted. -/
theorem deployments_are_listed_in_slices {ι : Type} [DecidableEq ι] :
    (∀ (deeds : List (Deed ι)) (i : ι) (tx : Keyed.Transaction),
      ((Desk.opening Keyed.Ledger.empty).after deeds).objects i = some tx →
      ∀ (l : Keyed.Ledger) (offset : UInt64) (limit : Option UInt64),
        (Repository.listDeployments offset limit).run (l, tx) =
          (.ok (slice offset limit (Deployment.sorted tx.working.deployments.values)), l, tx)) ∧
    ∀ x : Database × Transaction, x.1.Readable .deployment →
      ∀ (offset : UInt64) (limit : Option UInt64), ∃ page,
        ((Repository.listDeployments offset limit).run x).1 = .ok page ∧
        page = slice (effectiveOffset offset) (effectiveLimit limit)
          (Deployment.sorted x.1.visible.deploymentRows) ∧
        (x.1.visible.deploymentRows.length < 9223372036854775808 →
          (page = slice offset limit (Deployment.sorted x.1.visible.deploymentRows) ↔
            offset.toNat < 9223372036854775808 ∨ x.1.visible.deploymentRows = [] ∨
              limit = some 0)) := by
  refine ⟨fun deeds i tx hi l offset limit => ?_, fun x hx offset limit => ?_⟩
  · have hworking := (Keyed.throughout_wellFormed deeds).working i tx hi
    rw [← hworking.listDeployments_eq_slice]
    rfl
  · refine ⟨_, Database.run_read_of_readable hx rfl rfl rfl rfl,
      Tables.listDeployments_eq_slice _ offset limit, fun hlength => ?_⟩
    have hnil : Deployment.sorted x.1.visible.deploymentRows = [] ↔
        x.1.visible.deploymentRows = [] := by
      rw [← List.length_eq_zero_iff, Deployment.length_sorted, List.length_eq_zero_iff]
    rw [Tables.listDeployments_eq_slice, slice_effective_eq_iff (by
      rw [Deployment.length_sorted]
      exact hlength), hnil]
    rfl

/-- Two deployments in the order of their ids. -/
def twoDeployments : List Deployment := [⟨"a", "first", "flow", 0⟩, ⟨"b", "second", "flow", 0⟩]

/-- How they come to stand in keyed tables, the second one first. -/
def twoInsertions : List (Deed Bool) :=
  .begin true :: twoDeployments.reverse.map fun d =>
    .errand true (.write (.change (.insertDeployment d)))

open Relational in
/-- A limit that does not fit a signed word is none, and lists no less for it. -/
theorem deployments_are_listed_in_slices_second :
    (∃ tx, ((Desk.opening Keyed.Ledger.empty).after twoInsertions).objects true = some tx ∧
      (Repository.listDeployments 1 (some 9223372036854775808)).run (Keyed.Ledger.empty, tx) =
        (.ok [⟨"b", "second", "flow", 0⟩], Keyed.Ledger.empty, tx)) ∧
    ((Repository.listDeployments 1 (some 9223372036854775808)).run
        ((Database.copying .current).busy .empty
          ⟨some twoDeployments, some [], some [], some []⟩)).1 =
      .ok [⟨"b", "second", "flow", 0⟩] := by
  obtain ⟨hkeyed, hrelational⟩ := deployments_are_listed_in_slices (ι := Bool)
  have hsorted : Deployment.sorted twoDeployments = twoDeployments :=
    List.mergeSort_of_pairwise (by decide)
  constructor
  · have hsome : (((Desk.opening Keyed.Ledger.empty).after twoInsertions).objects true).isSome :=
      by decide +kernel
    obtain ⟨tx, htx⟩ := Option.isSome_iff_exists.1 hsome
    have hvalues : tx.working.deployments.values = twoDeployments := by
      have hall : ∀ t ∈ ((Desk.opening Keyed.Ledger.empty).after twoInsertions).objects true,
          t.working.deployments.values = twoDeployments := by decide +kernel
      exact hall tx htx
    refine ⟨tx, htx, (hkeyed twoInsertions true tx htx _ _ _).trans ?_⟩
    rw [hvalues, hsorted]
    rfl
  · obtain ⟨page, hpage, -, hexact⟩ := hrelational
      ((Database.copying .current).busy .empty
          ⟨some twoDeployments, some [], some [], some []⟩)
      ⟨rfl, by decide⟩ 1 (some 9223372036854775808)
    rw [hpage, (hexact (by decide)).2 (.inl (by decide))]
    exact congrArg Except.ok (congrArg (slice 1 (some 9223372036854775808)) hsorted)

open Relational in
/-- Behind an offset that does not fit a signed word, deployments are listed from the start on. -/
theorem large_offset_lists_from_start :
    let x := (Database.copying .current).busy .empty
      ⟨some twoDeployments, some [], some [], some []⟩
    ((Repository.listDeployments 9223372036854775808 none).run x).1 = .ok twoDeployments ∧
      slice 9223372036854775808 none (Deployment.sorted x.1.visible.deploymentRows) = [] := by
  intro x
  have hsorted : Deployment.sorted twoDeployments = twoDeployments :=
    List.mergeSort_of_pairwise (by decide)
  have hx : x.1.Readable .deployment := ⟨rfl, by decide⟩
  constructor
  · refine (Database.run_read_of_readable hx rfl rfl rfl rfl).trans (congrArg Except.ok ?_)
    rw [Tables.listDeployments_eq_slice]
    exact congrArg (slice _ _) hsorted
  · exact congrArg (slice _ _) hsorted

end Timetable
