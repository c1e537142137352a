import Timetable.Proofs.Relational.Mirror

/-!
# Reading rows and reading keyed tables

Rows that mirror keyed tables are read in the same way and in the same order. Keyed tables list
records by key, or sort them by time and id; the relational store sorts rows, and takes times to be
signed words. As long as times fit such a word, both orders are the same (`Tables.Timely`), and they
leave no choice, since no two records of a kind share an id.
-/

namespace Timetable

open OrderedMap

/-! ### Sorting -/

/-- Sorting lists of the same elements by orders that agree on them gives the same. -/
theorem mergeSort_eq_of_perm {le le' : α → α → Bool} {l l' : List α} (hperm : l.Perm l')
    (htrans : ∀ a b c, le a b → le b c → le a c) (htotal : ∀ a b, le a b || le b a)
    (htrans' : ∀ a b c, le' a b → le' b c → le' a c) (htotal' : ∀ a b, le' a b || le' b a)
    (hsame : ∀ a ∈ l, ∀ b ∈ l, le' a b → le a b)
    (hanti : ∀ a ∈ l, ∀ b ∈ l, le a b → le b a → a = b) : l.mergeSort le = l'.mergeSort le' := by
  have hmem : ∀ a ∈ l'.mergeSort le', a ∈ l := fun a ha =>
    hperm.mem_iff.2 (List.mem_mergeSort.1 ha)
  have hsorted : (l'.mergeSort le').Pairwise fun a b => le a b := by
    refine (List.pairwise_mergeSort htrans' htotal' l').imp_of_mem fun ha hb h => ?_
    exact hsame _ (hmem _ ha) _ (hmem _ hb) h
  refine List.Perm.eq_of_pairwise ?_ (List.pairwise_mergeSort htrans htotal l) hsorted ?_
  · exact fun a b ha hb h h' => hanti a (List.mem_mergeSort.1 ha) b (hmem b hb) h h'
  · exact (List.mergeSort_perm l le).trans (hperm.trans (List.mergeSort_perm l' le').symm)

/-- Sorted elements come before another one or behind it, and that is where it is put. -/
theorem mergeSort_cons_eq {le : α → α → Bool} (htrans : ∀ a b c, le a b → le b c → le a c)
    (htotal : ∀ a b, le a b || le b a) (a : α) (l : List α) :
    (a :: l).mergeSort le =
        (l.mergeSort le).filter (!le a ·) ++ a :: (l.mergeSort le).filter (le a ·) ∧
      l.mergeSort le = (l.mergeSort le).filter (!le a ·) ++ (l.mergeSort le).filter (le a ·) := by
  obtain ⟨before, after, hcons, hrest, hbefore⟩ := List.mergeSort_cons htrans htotal a l
  have hsorted := List.pairwise_mergeSort htrans htotal (a :: l)
  rw [hcons, List.pairwise_append] at hsorted
  have hafter : ∀ b ∈ after, le a b = true := (List.pairwise_cons.1 hsorted.2.1).1
  have hfirst : (l.mergeSort le).filter (!le a ·) = before := by
    rw [hrest, List.filter_append, List.filter_eq_self.2 hbefore, List.filter_eq_nil_iff.2,
      List.append_nil]
    simpa using hafter
  have hlast : (l.mergeSort le).filter (le a ·) = after := by
    rw [hrest, List.filter_append, List.filter_eq_self.2 hafter, List.filter_eq_nil_iff.2,
      List.nil_append]
    simpa using hbefore
  rw [hfirst, hlast]
  exact ⟨hcons, hrest⟩

/-- Elements may be left out before a list is sorted or afterwards. -/
theorem filter_mergeSort {le : α → α → Bool} (htrans : ∀ a b c, le a b → le b c → le a c)
    (htotal : ∀ a b, le a b || le b a) (p : α → Bool) (l : List α) :
    (l.mergeSort le).filter p = (l.filter p).mergeSort le := by
  induction l with
  | nil => simp
  | cons a l ih =>
    have hcomm : ∀ q : α → Bool, ((l.mergeSort le).filter q).filter p =
        ((l.filter p).mergeSort le).filter q := fun q => by rw [List.filter_comm, ih]
    rw [(mergeSort_cons_eq htrans htotal a l).1, List.filter_append, hcomm]
    cases ha : p a with
    | true =>
      rw [List.filter_cons_of_pos ha, List.filter_cons_of_pos ha, hcomm,
        (mergeSort_cons_eq htrans htotal a (l.filter p)).1]
    | false =>
      have hneg : ¬ p a = true := by simp [ha]
      rw [List.filter_cons_of_neg hneg, List.filter_cons_of_neg hneg, hcomm,
        ← (mergeSort_cons_eq htrans htotal a (l.filter p)).2]

/-- One element stands before another by a number, and by id if the numbers are the same. -/
def Precedes (key : α → Int) (id : α → String) (a b : α) : Prop :=
  key a < key b ∨ key a = key b ∧ id a ≤ id b

section Precedes

variable {key : α → Int} {id : α → String} {a b c : α}

theorem Precedes.trans (h : Precedes key id a b) (h' : Precedes key id b c) :
    Precedes key id a c := by
  rcases h with h | ⟨h, hid⟩ <;> rcases h' with h' | ⟨h', hid'⟩
  · exact .inl (Int.lt_trans h h')
  · exact .inl (h' ▸ h)
  · exact .inl (h ▸ h')
  · exact .inr ⟨h.trans h', String.le_trans hid hid'⟩

theorem Precedes.total (key : α → Int) (id : α → String) (a b : α) :
    Precedes key id a b ∨ Precedes key id b a := by
  rcases Int.lt_trichotomy (key a) (key b) with h | h | h
  · exact .inl (.inl h)
  · rcases String.le_total (id a) (id b) with hid | hid
    · exact .inl (.inr ⟨h, hid⟩)
    · exact .inr (.inr ⟨h.symm, hid⟩)
  · exact .inr (.inl h)

theorem Precedes.id_eq (h : Precedes key id a b) (h' : Precedes key id b a) : id a = id b := by
  rcases h with h | ⟨h, hid⟩ <;> rcases h' with h' | ⟨h', hid'⟩
  · omega
  · omega
  · omega
  · exact String.le_antisymm hid hid'

/-- A test for this order is transitive. -/
theorem Precedes.trans_of_iff {le : α → α → Bool}
    (hle : ∀ a b, le a b = true ↔ Precedes key id a b) : ∀ a b c, le a b → le b c → le a c := by
  intro a b c hab hbc
  rw [hle] at *
  exact hab.trans hbc

/-- A test for this order holds one way or the other. -/
theorem Precedes.total_of_iff {le : α → α → Bool}
    (hle : ∀ a b, le a b = true ↔ Precedes key id a b) : ∀ a b, le a b || le b a := by
  intro a b
  rw [Bool.or_eq_true, hle, hle]
  exact Precedes.total key id a b

end Precedes

theorem Keyed.earlier_iff {createdAt : α → UInt64} {id : α → String} {a b : α} :
    Keyed.earlier createdAt id a b = true ↔
      Precedes (fun a => ((createdAt a).toNat : Int)) id a b := by
  simp only [Keyed.earlier, Precedes, Bool.or_eq_true, Bool.and_eq_true, decide_eq_true_eq,
    beq_iff_eq, UInt64.lt_iff_toNat_lt, ← UInt64.toNat_inj, Int.ofNat_lt, Int.ofNat_inj]

namespace Relational

theorem signed_inj {n m : UInt64} : signed n = signed m ↔ n = m := by
  rw [signed, signed, Int64.toInt_inj]
  exact ⟨congrArg Int64.toUInt64, congrArg UInt64.toInt64⟩

theorem earlier_iff {createdAt : α → UInt64} {id : α → String} {a b : α} :
    earlier createdAt id a b = true ↔ Precedes (fun a => signed (createdAt a)) id a b := by
  simp only [earlier, Precedes, Bool.or_eq_true, Bool.and_eq_true, decide_eq_true_eq, beq_iff_eq,
    signed_inj]

/-- Rows that were made at times that fit a signed word are sorted as keyed tables sort them. -/
theorem mergeSort_earlier {createdAt : α → UInt64} {id : α → String} {rows records : List α}
    (hperm : records.Perm rows) (hids : (rows.map id).Nodup)
    (htimes : ∀ a ∈ records, SignFree (createdAt a)) :
    rows.mergeSort (earlier createdAt id) = records.mergeSort (Keyed.earlier createdAt id) := by
  have hinj : ∀ a ∈ records, ∀ b ∈ records, id a = id b → a = b := by
    intro a ha b hb
    exact List.inj_on_of_nodup_map hids (hperm.mem_iff.1 ha) (hperm.mem_iff.1 hb)
  refine (mergeSort_eq_of_perm hperm ?_ ?_ ?_ ?_ ?_ ?_).symm
  · exact Precedes.trans_of_iff fun _ _ => Keyed.earlier_iff
  · exact Precedes.total_of_iff fun _ _ => Keyed.earlier_iff
  · exact Precedes.trans_of_iff fun _ _ => earlier_iff
  · exact Precedes.total_of_iff fun _ _ => earlier_iff
  · intro a ha b hb h
    rw [earlier_iff, Precedes, signed_eq (htimes a ha), signed_eq (htimes b hb)] at h
    exact Keyed.earlier_iff.2 h
  · intro a ha b hb h h'
    exact hinj a ha b hb ((Keyed.earlier_iff.1 h).id_eq (Keyed.earlier_iff.1 h'))

/-! ### Reading -/

namespace Mirrors

variable {w : Tables} {t : Keyed.Tables}

theorem find?_deploymentRows (h : Mirrors w t) (id : String) :
    w.deploymentRows.find? (·.id == id) = t.deployments.get? id :=
  h.deployments.find?_eq id

theorem findRun_eq (h : Mirrors w t) (id : String) : w.findRun id = t.runs.get? id :=
  h.runs.find?_eq id

/-- Sorted by id, the rows are the records in the order of their keys. -/
theorem mergeSort_deploymentRows (h : Mirrors w t) :
    w.deploymentRows.mergeSort (·.id ≤ ·.id) = t.deployments.values := by
  have hperm := h.deployments.perm_values
  have hsorted : t.deployments.values.Pairwise fun a b => decide (a.id ≤ b.id) = true := by
    have hlt : t.deployments.values.Pairwise fun a b => a.id < b.id :=
      Holds.pairwise_values fun k d hd => h.wellFormed.deployment_id hd
    exact hlt.imp fun hab => decide_eq_true (String.not_lt.1 (String.lt_asymm hab))
  refine List.Perm.eq_of_pairwise ?_ (List.pairwise_mergeSort ?_ ?_ _) hsorted
    ((List.mergeSort_perm _ _).trans hperm.symm)
  · intro a b ha hb hab hba
    have hid : a.id = b.id :=
      String.le_antisymm (of_decide_eq_true hab) (of_decide_eq_true hba)
    exact List.inj_on_of_nodup_map h.deployments.nodup (List.mem_mergeSort.1 ha)
      (hperm.mem_iff.1 hb) hid
  · intro a b c hab hbc
    exact decide_eq_true (String.le_trans (of_decide_eq_true hab) (of_decide_eq_true hbc))
  · intro a b
    rcases String.le_total a.id b.id with hab | hba
    · simp [hab]
    · simp [hba]

theorem listDeployments_eq (h : Mirrors w t) {offset : UInt64} {limit : Option UInt64}
    (hoffset : SignFree offset) (hlimit : ∀ n ∈ limit, SignFree n) :
    w.listDeployments offset limit = t.listDeployments offset limit := by
  cases limit with
  | none =>
    simp only [Tables.listDeployments, Keyed.Tables.listDeployments_eq,
      h.mergeSort_deploymentRows, signed_eq hoffset, Int.toNat_natCast]
  | some n =>
    have hn : ¬ signed n < 0 := by
      rw [signed_eq (hlimit n rfl)]
      omega
    simp only [Tables.listDeployments, Keyed.Tables.listDeployments_eq,
      h.mergeSort_deploymentRows, signed_eq hoffset, Int.toNat_natCast, if_neg hn]

theorem listSchedules_eq (h : Mirrors w t) (ht : t.Timely) (deploymentId : String) :
    w.listSchedules deploymentId = t.listSchedules deploymentId := by
  refine mergeSort_earlier (h.schedules.perm_values.filter _) ?_ ?_
  · exact h.schedules.nodup.sublist (List.filter_sublist.map _)
  · exact fun s hs => ht.schedules s (List.mem_of_mem_filter hs)

theorem listRuns_eq (h : Mirrors w t) (ht : t.Timely) (deploymentId : String) :
    w.listRuns deploymentId = t.listRuns deploymentId := by
  refine mergeSort_earlier (h.runs.perm_values.filter _) ?_ ?_
  · exact h.runs.nodup.sublist (List.filter_sublist.map _)
  · exact fun r hr => ht.runs r (List.mem_of_mem_filter hr)

theorem listStates_eq (h : Mirrors w t) (ht : t.Timely) (runId : String) :
    w.listStates runId = t.listStates runId := by
  refine mergeSort_earlier (h.wellFormed.perm_states_of_run h.states runId) ?_ ?_
  · exact h.states.nodup.sublist (List.filter_sublist.map _)
  · intro s hs
    obtain ⟨id, -, hid⟩ := List.mem_filterMap.1 hs
    exact ht.states s (mem_values.2 ⟨id, hid⟩)

end Mirrors

end Relational

end Timetable
