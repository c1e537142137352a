import Mathlib.Data.List.Nodup
import Timetable.Proofs.Sweep

/-!
# Sweeps while others use the store

The pages of a sweep are counted from the first deployment, and each of them is read in a
transaction of its own. A deployment is therefore passed as often as it is on the page that is read
at the time, which is not once for each: when a deployment before it is deleted, it may move to a
page that has been read (`sweep_skips_shifted`), and when one is inserted before it, it may be read
twice. That is all that can happen: as long as it does not move across the end of the page that is
read, it is passed exactly once (`sweep_passes_unless_shifted`).
-/

namespace Timetable

/-! ### Places -/

/-- Where no element is repeated, a window of a list has those with their first place in it. -/
theorem mem_take_drop_iff {α : Type} [DecidableEq α] {l : List α} (hl : l.Nodup) {m n : Nat}
    {a : α} : a ∈ (l.drop m).take n ↔ a ∈ l ∧ m ≤ l.idxOf a ∧ l.idxOf a < m + n := by
  constructor
  · intro h
    obtain ⟨i, hi, hget⟩ := List.mem_iff_getElem.1 h
    rw [List.getElem_take, List.getElem_drop] at hget
    have hplace : l.idxOf a = m + i := by
      rw [← hget]
      exact hl.idxOf_getElem _ _
    rw [List.length_take] at hi
    exact ⟨List.mem_of_mem_drop (List.mem_of_mem_take h), by omega, by omega⟩
  · rintro ⟨ha, hm, hn⟩
    refine List.mem_iff_getElem?.2 ⟨l.idxOf a - m, ?_⟩
    rw [List.getElem?_take_of_lt (by omega), List.getElem?_drop, Nat.add_sub_cancel' hm,
      List.getElem?_idxOf ha]

namespace Keyed.Tables

/-- How many deployments there are before a deployment. -/
def place (t : Tables) (id : String) : Nat := t.deploymentIds.idxOf id

/-- A deployment is on a page. -/
def OnPage (t : Tables) (p k : Nat) (id : String) : Prop :=
  id ∈ t.deploymentIds ∧ k * p ≤ t.place id ∧ t.place id < (k + 1) * p

instance (t : Tables) (p k : Nat) (id : String) : Decidable (t.OnPage p k id) :=
  inferInstanceAs (Decidable (_ ∧ _))

variable {t : Tables} {p k : Nat} {id : String}

theorem map_id_page : (t.page p k).map Deployment.id = (t.deploymentIds.drop (k * p)).take p := by
  rw [page, List.map_take, List.map_drop, deploymentIds]

/-- A page has a deployment once, or not at all. -/
theorem count_page (ht : t.WellFormed) :
    ((t.page p k).map Deployment.id).count id = if t.OnPage p k id then 1 else 0 := by
  have hmem : id ∈ (t.page p k).map Deployment.id ↔ t.OnPage p k id := by
    rw [map_id_page, mem_take_drop_iff ht.nodup_deploymentIds, OnPage, Nat.succ_mul]
    rfl
  have hnodup : ((t.page p k).map Deployment.id).Nodup := by
    rw [map_id_page]
    exact ht.nodup_deploymentIds.sublist ((List.take_sublist _ _).trans (List.drop_sublist _ _))
  split
  · next h => exact List.count_eq_one_of_mem hnodup (hmem.2 h)
  · next h => exact List.count_eq_zero_of_not_mem fun hid => h (hmem.1 hid)

end Keyed.Tables

/-! ### Pages that are read while others change the list -/

/-- Something is true of the end of each page, the place of a deployment when that page is read, and
its place when the next one is read. -/
def AtEachEnd (P : Nat → Nat → Nat → Prop) (p k : Nat) (places : List Nat) : Prop :=
  ∀ i a b, places[i]? = some a → places[i + 1]? = some b → P ((k + i + 1) * p) a b

/-- What is behind the page that is read does not come before its end until the next one is read. -/
abbrev NeverBack (p k : Nat) (places : List Nat) : Prop :=
  AtEachEnd (fun last a b => last ≤ a → last ≤ b) p k places

/-- What is before the end of the page that is read does not get behind it until the next one is
read. -/
abbrev NeverAhead (p k : Nat) (places : List Nat) : Prop :=
  AtEachEnd (fun last a b => a < last → b < last) p k places

namespace AtEachEnd

variable {P : Nat → Nat → Nat → Prop} {p k a : Nat} {places : List Nat}

theorem head (h : AtEachEnd P p k (a :: places)) : ∀ b ∈ places.head?, P ((k + 1) * p) a b := by
  intro b hb
  exact h 0 a b rfl (by rwa [List.getElem?_cons_succ, ← List.head?_eq_getElem?])

theorem tail (h : AtEachEnd P p k (a :: places)) : AtEachEnd P p (k + 1) places := by
  intro i a b ha hb
  have hnext := h (i + 1) a b ha hb
  rwa [← Nat.add_assoc, Nat.add_right_comm k] at hnext

/-- A deployment that does not move moves across no end. -/
theorem replicate (h : ∀ last, P last a a) (m : Nat) : AtEachEnd P p k (List.replicate m a) := by
  intro i b c hb hc
  rw [List.eq_of_mem_replicate (List.mem_of_getElem? hb),
    List.eq_of_mem_replicate (List.mem_of_getElem? hc)]
  exact h _

end AtEachEnd

section Reads

variable {p k n : Nat} {id : String} {reads : List Keyed.Tables}

/-- How often a deployment is on the page that is read. -/
def sightings (p k : Nat) (id : String) (reads : List Keyed.Tables) : Nat :=
  (reads.zipIdx k).countP fun x => x.1.OnPage p x.2 id

theorem sightings_cons (t : Keyed.Tables) :
    sightings p k id (t :: reads) =
      sightings p (k + 1) id reads + if t.OnPage p k id then 1 else 0 := by
  simp [sightings, List.countP_cons]

theorem sightings_eq_zero (hahead : NeverAhead p k (reads.map (·.place id)))
    (hfirst : ∀ a ∈ (reads.map (·.place id)).head?, a < k * p) : sightings p k id reads = 0 := by
  induction reads generalizing k with
  | nil => rfl
  | cons t reads ih =>
    have hplace : t.place id < k * p := hfirst _ rfl
    have hnot : ¬ t.OnPage p k id := fun h => absurd h.2.1 (Nat.not_le.2 hplace)
    have hend : t.place id < (k + 1) * p := by
      rw [Nat.succ_mul]
      omega
    rw [sightings_cons, if_neg hnot, ih hahead.tail fun b hb => hahead.head b hb hend]

/-- What does not get behind the page that is read is not seen twice. -/
theorem sightings_le_one (hahead : NeverAhead p k (reads.map (·.place id))) :
    sightings p k id reads ≤ 1 := by
  induction reads generalizing k with
  | nil => exact Nat.zero_le 1
  | cons t reads ih =>
    rw [sightings_cons]
    split
    · next hon =>
      have hnone := sightings_eq_zero hahead.tail fun b hb => hahead.head b hb hon.2.2
      omega
    · exact ih hahead.tail

end Reads

namespace Paged

variable {p k n : Nat} {job : Deployment → Job} {s s' : Scene} {reads : List Keyed.Tables}
  {visited : List Deployment} {results : List (Except Failure (List FlowRun))} {id : String}

/-- A sweep passes a deployment whenever it is on the page that is read. -/
theorem count_visited (h : Paged p job k s reads visited results s') (hfits : s.Fits n)
    (id : String) : (visited.map Deployment.id).count id = sightings p k id reads := by
  induction h with
  | last hshort hcalls =>
    rw [Keyed.Tables.count_page hfits.wellFormed_next, sightings_cons]
    simp [sightings]
  | @more k s s' s'' reads visited results results' hfull hcalls hrest ih =>
    have hfits' := hfits.next.calls ((s.next.page p k).map job)
    rw [hcalls] at hfits'
    rw [List.map_append, List.count_append, Keyed.Tables.count_page hfits.wellFormed_next,
      ih hfits', sightings_cons, Nat.add_comm]

/-- What does not come before the end of the page that is read is seen in the end. -/
theorem one_le_sightings (h : Paged p job k s reads visited results s') (hp : 0 < p)
    (hstored : ∀ t ∈ reads, id ∈ t.deploymentIds)
    (hback : NeverBack p k (reads.map (·.place id)))
    (hfirst : ∀ a ∈ (reads.map (·.place id)).head?, k * p ≤ a) : 1 ≤ sightings p k id reads := by
  induction h with
  | @last k s s' results hshort hcalls =>
    have hid := hstored s.next (List.mem_singleton_self _)
    have hon : s.next.OnPage p k id := by
      rw [Keyed.Tables.length_page_lt_iff _ hp] at hshort
      exact ⟨hid, hfirst _ rfl, Nat.lt_trans (List.idxOf_lt_length_of_mem hid) hshort⟩
    rw [sightings_cons, if_pos hon]
    exact Nat.le_add_left 1 _
  | @more k s s' s'' reads visited results results' hfull hcalls hrest ih =>
    have hid := hstored s.next List.mem_cons_self
    rw [sightings_cons]
    by_cases hon : s.next.OnPage p k id
    · rw [if_pos hon]
      exact Nat.le_add_left 1 _
    · -- it is behind this page, and so it will be when the next one is read
      have hbehind : (k + 1) * p ≤ s.next.place id :=
        Nat.not_lt.1 fun hlt => hon ⟨hid, hfirst _ rfl, hlt⟩
      rw [if_neg hon]
      exact ih (fun t ht => hstored t (List.mem_cons_of_mem _ ht)) hback.tail fun b hb =>
        hback.head b hb hbehind

end Paged

/-! ### What a sweep passes -/

/-- Whatever others do meanwhile, a sweep ends, and it passes a deployment whenever it is on the page
that is read. One that is stored whenever a page is read is passed at least once if it never comes
before the end of the page that was read last, at most once if it never gets behind it, and so
exactly once if it moves across no such end. -/
theorem sweep_passes_unless_shifted {t : Keyed.Tables} (ht : t.WellFormed)
    (others : List (List Visit))
    (hfew : t.deploymentIds.length + others.flatten.length < UInt64.size)
    (strategy : LinkStrategy) (o : SweepOptions) (clock : Int) (log : List Log.Entry) :
    ∃ tally w reads,
      (sweep strategy o).run ⟨Shared.fresh (⟨t, false⟩ : Keyed.Ledger) others, clock, log⟩ =
          (.ok tally, w) ∧
        w.store.reads = reads.map (⟨·, true⟩) ∧
        ∀ id, w.store.asked.count id = sightings o.effectivePageSize.toNat 0 id reads ∧
          ((∀ u ∈ reads, id ∈ u.deploymentIds) →
            NeverBack o.effectivePageSize.toNat 0 (reads.map (·.place id)) →
            1 ≤ w.store.asked.count id) ∧
          (NeverAhead o.effectivePageSize.toNat 0 (reads.map (·.place id)) →
            w.store.asked.count id ≤ 1) := by
  obtain ⟨reads, visited, results, s', _, log', hpaged, hrun, rfl⟩ := Shared.follows.run_sweep
    (s := ⟨t, others⟩) (x := Shared.fresh ⟨t, false⟩ others) strategy o clock ht hfew rfl log
  refine ⟨_, _, reads, hrun, rfl, fun id => ?_⟩
  have hcount : (visited.map Deployment.id).count id = _ :=
    hpaged.count_visited ⟨ht, Nat.le_refl _⟩ id
  refine ⟨hcount, fun hstored hback => ?_, fun hahead => ?_⟩
  · exact hcount ▸ hpaged.one_le_sightings o.effectivePageSize_pos hstored hback (by simp)
  · exact hcount ▸ sightings_le_one hahead

/-- A deployment that has no schedules. -/
def bare (id : String) : Deployment := ⟨id, id, "flow", 0⟩

/-- Tables with two deployments and nothing else. -/
def pairTables : Keyed.Tables :=
  { Keyed.Tables.empty with
    deployments := .insert (.insert .empty "a" (bare "a")) "b" (bare "b")
    names := .insert (.insert .empty "a" ()) "b" () }

theorem wellFormed_pairTables : pairTables.WellFormed := by
  have hone : Keyed.Tables.WellFormed _ :=
    Keyed.Tables.wellFormed_empty.insertDeployment (d := bare "a") rfl
  exact hone.insertDeployment (d := bare "b") rfl

/-- Another client inserts a deployment before the second page is read. -/
def insertedBehind : List (List Visit) :=
  [[], [], [⟨.change "insert deployment" (.insertDeployment (bare "c")), 0⟩]]

/-- What is inserted behind a deployment does not move it. -/
theorem sweep_passes_unless_shifted_pair : ∃ tally w,
    (sweep .updateJoin ⟨1, none, none⟩).run
        ⟨Shared.fresh (⟨pairTables, false⟩ : Keyed.Ledger) insertedBehind, 0, []⟩ = (.ok tally, w) ∧
      w.store.reads.length = 4 ∧ w.store.asked.count "b" = 1 := by
  obtain ⟨tally, w, reads, hrun, hreads, hpassed⟩ := sweep_passes_unless_shifted
    wellFormed_pairTables insertedBehind (by decide) .updateJoin ⟨1, none, none⟩ 0 []
  have hplaces : ((sweep .updateJoin ⟨1, none, none⟩).run
      ⟨Shared.fresh (⟨pairTables, false⟩ : Keyed.Ledger) insertedBehind, 0, []⟩).2.store.reads.map
        (fun l => (l.committed.place "b", decide ("b" ∈ l.committed.deploymentIds))) =
          List.replicate 4 (1, true) := by decide +kernel
  rw [hrun, hreads, List.map_map] at hplaces
  have hplace : reads.map (·.place "b") = List.replicate 4 1 := by
    have hfst := congrArg (List.map Prod.fst) hplaces
    rwa [List.map_map] at hfst
  have hstored : ∀ u ∈ reads, "b" ∈ u.deploymentIds := by
    intro u hu
    have hmem := List.mem_map_of_mem (f := (fun l : Keyed.Ledger => (l.committed.place "b",
      decide ("b" ∈ l.committed.deploymentIds))) ∘ fun t => ⟨t, true⟩) hu
    rw [hplaces] at hmem
    exact of_decide_eq_true (congrArg Prod.snd (List.eq_of_mem_replicate hmem))
  obtain ⟨-, hleast, hmost⟩ := hpassed "b"
  rw [hplace] at hleast hmost
  refine ⟨tally, w, hrun, ?_, Nat.le_antisymm ?_ ?_⟩
  · rw [hreads, List.length_map]
    simpa using congrArg List.length hplace
  · exact hmost (.replicate (fun _ h => h) 4)
  · exact hleast hstored (.replicate (fun _ h => h) 4)

/-- Another client deletes a deployment after it has been read and before its call is made. -/
def deletedBefore : List (List Visit) :=
  [[], [⟨.change "delete deployment" (.deleteDeployment "a"), 0⟩]]

/-- When the first of two deployments is deleted after the first page has been read, the second moves
to that page. It is stored all the time, but no call is made for it. -/
theorem sweep_skips_shifted : ∃ tally w,
    "b" ∈ pairTables.deploymentIds ∧
      (sweep .updateJoin ⟨1, none, none⟩).run
        ⟨Shared.fresh (⟨pairTables, false⟩ : Keyed.Ledger) deletedBefore, 0, []⟩ = (.ok tally, w) ∧
      (∀ l ∈ w.store.reads, "b" ∈ l.committed.deploymentIds) ∧
      "b" ∈ w.store.store.committed.deploymentIds ∧ "b" ∉ w.store.asked :=
  ⟨_, _, by decide, rfl, by decide, by decide, by decide⟩

end Timetable
