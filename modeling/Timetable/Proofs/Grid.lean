import Mathlib.Data.Nat.Find
import Timetable.Grid

/-!
# Which instants of a grid a window takes in

As long as no number on the way is too large for a word (`Grid.Exact`), the instants that
`Grid.dates` lists are those of the grid in the window, up to a number of them (`mem_dates_iff`).
They follow each other without a gap from the start of the window on, so what the window leaves out
begins at one instant: `FirstMissed`. A later window of the same length does not begin to leave
instants out any earlier (`FirstMissed.mono`).
-/

namespace Timetable

open Instant

theorem Instant.le_iff {t u : Instant} : t ≤ u ↔ t.millis ≤ u.millis := Iff.rfl

theorem Instant.lt_iff {t u : Instant} : t < u ↔ t.millis < u.millis := Iff.rfl

theorem Instant.not_le {t u : Instant} : ¬ t ≤ u ↔ u < t := by
  rw [le_iff, lt_iff, Int.not_le]

namespace Grid

/-! ### The grid -/

/-- The least number of an instant at or after `start`: the distance in intervals, rounded up. -/
def leastIndex (g : Grid) (start : Instant) : Int :=
  -((g.anchor.millis - start.millis) / g.interval)

theorem le_point_leastIndex (g : Grid) (start : Instant) :
    start ≤ g.point (g.leastIndex start) := by
  show start.millis ≤ g.anchor.millis + g.leastIndex start * g.interval
  have h := Int.ediv_mul_le (g.anchor.millis - start.millis) (Int.ne_of_gt g.interval_pos)
  simp only [leastIndex, Int.neg_mul]
  omega

theorem point_lt_of_lt_leastIndex {g : Grid} {start : Instant} {k : Int}
    (h : k < g.leastIndex start) : g.point k < start := by
  show g.anchor.millis + k * g.interval < start.millis
  have hpos := g.interval_pos
  have hle : k * g.interval ≤ (g.leastIndex start - 1) * g.interval :=
    Int.mul_le_mul_of_nonneg_right (by omega) (Int.le_of_lt hpos)
  have hlt := Int.lt_ediv_add_one_mul_self (g.anchor.millis - start.millis) hpos
  simp only [leastIndex, Int.sub_mul, Int.neg_mul, Int.add_mul, Int.one_mul] at hle hlt
  omega

variable {g : Grid} {n : Nat} {j k m : Int} {length : Int} {start finish t u : Instant}

theorem point_lt_point_iff : g.point j < g.point k ↔ j < k := by
  rw [Instant.lt_iff]
  show g.anchor.millis + j * g.interval < g.anchor.millis + k * g.interval ↔ _
  rw [Int.add_lt_add_iff_left, Int.mul_lt_mul_right g.interval_pos]

theorem point_le_point_iff : g.point j ≤ g.point k ↔ j ≤ k := by
  rw [← Int.not_lt, ← point_lt_point_iff (g := g), ← Instant.not_le, Classical.not_not]

theorem point_inj : g.point j = g.point k ↔ j = k := by
  refine ⟨fun h => Int.le_antisymm ?_ ?_, congrArg g.point⟩
  · rw [← point_le_point_iff (g := g), h]
    exact Int.le_refl _
  · rw [← point_le_point_iff (g := g), h]
    exact Int.le_refl _

/-- The grid has reached the start from its least index on, and not before. -/
theorem le_point_iff : start ≤ g.point k ↔ g.leastIndex start ≤ k := by
  constructor
  · intro h
    by_contra hk
    have hlt := point_lt_of_lt_leastIndex (Int.not_le.1 hk)
    rw [← Instant.not_le] at hlt
    exact hlt h
  · intro h
    exact Int.le_trans (le_point_leastIndex g start) (point_le_point_iff.2 h)

theorem leastIndex_mono (h : t ≤ u) : g.leastIndex t ≤ g.leastIndex u :=
  le_point_iff.1 (Int.le_trans h (le_point_leastIndex g u))

theorem point_add_one (g : Grid) (k : Int) :
    (g.point (k + 1)).millis = (g.point k).millis + g.interval := by
  simp only [point, Instant.addMillis, Int.add_mul, Int.one_mul]
  omega

/-! ### Numbers that words hold -/

/-- The sums, differences and products on the way to the first instant at or after `start`, each as
it is before it is put in a word. -/
def firstNumbers (g : Grid) (start : Instant) : List Int :=
  let difference := start.millis - g.anchor.millis
  let distance := wrapMillis difference
  let rounded :=
    if 0 < distance then [distance + g.interval, wrapMillis (distance + g.interval) - 1] else []
  let steps := g.firstIndex start * g.interval
  difference :: rounded ++ [steps, g.anchor.millis + wrapMillis steps]

/-- All such numbers on the way to a list of instants: an interval is added to each that is listed,
to the last one as well. -/
def numbers (g : Grid) (n : Nat) (start finish : Instant) : List Int :=
  if n = 0 ∨ finish < start then []
  else g.firstNumbers start ++ (g.dates n start finish).map fun t => t.millis + g.interval

/-- Words hold all numbers on the way to a list of instants. -/
def Exact (g : Grid) (n : Nat) (start finish : Instant) : Prop :=
  ∀ x ∈ g.numbers n start finish, FitsWord x

instance (g : Grid) (n : Nat) (start finish : Instant) : Decidable (g.Exact n start finish) := by
  unfold Exact
  infer_instance

/-- Rounding up by adding before dividing is rounding down the other way round. -/
theorem add_sub_one_ediv {a b : Int} (hb : 0 < b) : (a + b - 1) / b = -(-a / b) := by
  have hdivide := Int.mul_ediv_add_emod (-a) b
  have hnonneg := Int.emod_nonneg (-a) (Int.ne_of_gt hb)
  have hlt := Int.emod_lt_of_pos (-a) hb
  have hsplit : a + b - 1 = (b - 1 - -a % b) + -(-a / b) * b := by
    rw [Int.neg_mul, Int.mul_comm]
    omega
  rw [hsplit, Int.add_mul_ediv_right _ _ (Int.ne_of_gt hb),
    Int.ediv_eq_zero_of_lt (by omega) (by omega), Int.zero_add]

/-- The index is right if words hold the distance and, where it is rounded up, the sum. -/
theorem firstIndex_of_fits (hdistance : FitsWord (start.millis - g.anchor.millis))
    (hrounded : 0 < start.millis - g.anchor.millis →
      FitsWord (start.millis - g.anchor.millis + g.interval)) :
    g.firstIndex start = g.leastIndex start := by
  have hpos := g.interval_pos
  have hneg : g.anchor.millis - start.millis = -(start.millis - g.anchor.millis) := by omega
  rw [leastIndex, hneg, firstIndex, wrapMillis_of_fits hdistance]
  split
  · next hlate =>
    have hsum := hrounded hlate
    have hbelow : FitsWord (start.millis - g.anchor.millis + g.interval - 1) := by
      unfold FitsWord at hsum ⊢
      omega
    rw [wrapMillis_of_fits hsum, wrapMillis_of_fits hbelow, Int.tdiv_eq_ediv_of_nonneg (by omega),
      add_sub_one_ediv hpos]
  · next hearly =>
    rw [← Int.neg_neg (start.millis - g.anchor.millis), Int.neg_tdiv,
      Int.tdiv_eq_ediv_of_nonneg (by omega), Int.neg_neg]

theorem first_of_fits (h : ∀ x ∈ g.firstNumbers start, FitsWord x) :
    g.first start = g.point (g.leastIndex start) := by
  simp only [firstNumbers, List.cons_append, List.forall_mem_cons, List.forall_mem_append] at h
  obtain ⟨hdistance, hrounded, hsteps, hfirst, -⟩ := h
  have hindex : g.firstIndex start = g.leastIndex start := by
    refine firstIndex_of_fits hdistance fun hlate => ?_
    rw [wrapMillis_of_fits hdistance, if_pos hlate, List.forall_mem_cons] at hrounded
    exact hrounded.1
  rw [hindex] at hsteps hfirst
  rw [wrapMillis_of_fits hsteps] at hfirst
  rw [first, hindex, wrapMillis_of_fits hsteps, wrapMillis_of_fits hfirst]
  rfl

theorem next_of_fits (h : FitsWord ((g.point k).millis + g.interval)) :
    g.next (g.point k) = g.point (k + 1) := by
  rw [next, wrapMillis_of_fits h, ← point_add_one]

theorem Exact.first_eq (h : g.Exact n start finish) (hn : n ≠ 0) (hwindow : ¬ finish < start) :
    g.first start = g.point (g.leastIndex start) := by
  rw [Exact, numbers, if_neg (not_or.2 ⟨hn, hwindow⟩), List.forall_mem_append] at h
  exact first_of_fits h.1

theorem Exact.next_fits (h : g.Exact n start finish) {t : Instant}
    (ht : t ∈ g.dates n start finish) : FitsWord (t.millis + g.interval) := by
  by_cases hempty : n = 0 ∨ finish < start
  · rw [dates, if_pos hempty] at ht
    cases ht
  · rw [Exact, numbers, if_neg hempty, List.forall_mem_append] at h
    exact h.2 _ (List.mem_map_of_mem ht)

/-! ### The instants that are listed -/

/-- Where words hold the numbers, the listed instants are instants of the grid. -/
theorem mem_run_iff (h : ∀ t ∈ g.run finish n (g.point m), FitsWord (t.millis + g.interval)) :
    u ∈ g.run finish n (g.point m) ↔
      ∃ k, g.point k = u ∧ m ≤ k ∧ k < m + n ∧ g.point k ≤ finish := by
  induction n generalizing m with
  | zero =>
    simp only [run, List.not_mem_nil, false_iff]
    rintro ⟨k, -, hle, hlt, -⟩
    omega
  | succ n ih =>
    rw [run] at h ⊢
    split
    · next hm =>
      rw [if_pos hm, List.forall_mem_cons] at h
      rw [next_of_fits h.1] at h ⊢
      rw [List.mem_cons, ih h.2]
      constructor
      · rintro (rfl | ⟨k, hk, hle, hlt, hfinish⟩)
        · exact ⟨m, rfl, Int.le_refl m, by omega, hm⟩
        · exact ⟨k, hk, by omega, by omega, hfinish⟩
      · rintro ⟨k, rfl, hle, hlt, hfinish⟩
        rcases Int.le_iff_eq_or_lt.1 hle with rfl | hlt'
        · exact .inl rfl
        · exact .inr ⟨k, rfl, by omega, by omega, hfinish⟩
    · next hm =>
      simp only [List.not_mem_nil, false_iff]
      rintro ⟨k, -, hle, -, hfinish⟩
      exact hm (Int.le_trans (point_le_point_iff.2 hle) hfinish)

/-- Where words hold the numbers, the list begins at the least index, and it is empty already if the
window is. -/
theorem Exact.dates_eq (h : g.Exact n start finish) :
    g.dates n start finish = g.run finish n (g.point (g.leastIndex start)) := by
  unfold dates
  split
  · next hempty =>
    cases n with
    | zero => rfl
    | succ n =>
      have hinverted : ¬ g.point (g.leastIndex start) ≤ finish := fun hle =>
        Instant.not_le.2 (hempty.resolve_left (Nat.succ_ne_zero n))
          (Int.le_trans (le_point_leastIndex g start) hle)
      rw [run, if_neg hinverted]
  · next hwindow =>
    obtain ⟨hn, hwindow⟩ := not_or.1 hwindow
    rw [h.first_eq hn hwindow]

theorem Exact.run_fits (h : g.Exact n start finish) :
    ∀ t ∈ g.run finish n (g.point (g.leastIndex start)), FitsWord (t.millis + g.interval) :=
  fun _ ht => h.next_fits (h.dates_eq ▸ ht)

/-- Listed are the instants of the grid in the window, the first `n` of them. -/
theorem mem_dates_iff (h : g.Exact n start finish) : u ∈ g.dates n start finish ↔
    ∃ k, g.point k = u ∧ g.leastIndex start ≤ k ∧ k < g.leastIndex start + n ∧
      g.point k ≤ finish := by
  rw [h.dates_eq, mem_run_iff h.run_fits]

theorem point_mem_dates_iff (h : g.Exact n start finish) : g.point k ∈ g.dates n start finish ↔
    g.leastIndex start ≤ k ∧ k < g.leastIndex start + n ∧ g.point k ≤ finish := by
  simp only [mem_dates_iff h, point_inj, exists_eq_left]

/-- The listed instants follow each other without a gap. -/
theorem point_mem_dates_of_le (h : g.Exact n start finish) (hk : g.point k ∈ g.dates n start finish)
    (hle : j ≤ k) (hstart : start ≤ g.point j) : g.point j ∈ g.dates n start finish := by
  rw [point_mem_dates_iff h] at hk ⊢
  exact ⟨le_point_iff.1 hstart, by omega, Int.le_trans (point_le_point_iff.2 hle) hk.2.2⟩

/-! ### The first instant that is left out -/

/-- Of the instants of a grid from a start on, `missed` is the first that has not been taken. -/
structure FirstMissed (g : Grid) (taken : Instant → Prop) (start missed : Instant) : Prop where
  on_grid : ∃ k, g.point k = missed
  start_le : start ≤ missed
  not_taken : ¬ taken missed
  taken_of_lt : ∀ k, start ≤ g.point k → g.point k < missed → taken (g.point k)

theorem Exact.exists_firstMissed (h : g.Exact n start finish) :
    ∃ missed, g.FirstMissed (· ∈ g.dates n start finish) start missed := by
  -- the limit alone leaves out the `n`-th instant after the first
  have hsome : ∃ i : Nat, g.point (g.leastIndex start + i) ∉ g.dates n start finish := by
    refine ⟨n, fun hi => ?_⟩
    have hlt := ((point_mem_dates_iff h).1 hi).2.1
    omega
  refine ⟨_, ⟨_, rfl⟩, le_point_iff.2 (by omega), Nat.find_spec hsome, fun k hstart hlt => ?_⟩
  have hfirst := le_point_iff.1 hstart
  have hk : g.leastIndex start + (k - g.leastIndex start).toNat = k := by omega
  rw [point_lt_point_iff] at hlt
  have htaken := Nat.find_min hsome (show (k - g.leastIndex start).toNat < _ by omega)
  rwa [hk, Classical.not_not] at htaken

namespace FirstMissed

variable {missed later : Instant}

theorem unique {taken : Instant → Prop} (h : g.FirstMissed taken start missed)
    (h' : g.FirstMissed taken start later) : missed = later := by
  obtain ⟨j, rfl⟩ := h.on_grid
  obtain ⟨k, rfl⟩ := h'.on_grid
  rw [point_inj]
  rcases Int.lt_trichotomy j k with hlt | heq | hlt
  · exact absurd (h'.taken_of_lt j h.start_le (point_lt_point_iff.2 hlt)) h.not_taken
  · exact heq
  · exact absurd (h.taken_of_lt k h'.start_le (point_lt_point_iff.2 hlt)) h'.not_taken

/-- Nothing is listed after the first instant that is left out. -/
theorem lt_of_mem (h : g.FirstMissed (· ∈ g.dates n start finish) start missed)
    (hexact : g.Exact n start finish) (hu : u ∈ g.dates n start finish) : u < missed := by
  obtain ⟨m, rfl⟩ := h.on_grid
  obtain ⟨k, rfl, -⟩ := (mem_dates_iff hexact).1 hu
  by_contra hlt
  rw [point_lt_point_iff, Int.not_lt] at hlt
  exact h.not_taken (point_mem_dates_of_le hexact hu hlt h.start_le)

/-- A later window of the same length leaves out no instant that the earlier one takes in. -/
theorem mono (h : g.FirstMissed (· ∈ g.dates n t (t.addMillis length)) t missed)
    (h' : g.FirstMissed (· ∈ g.dates n u (u.addMillis length)) u later)
    (hexact : g.Exact n t (t.addMillis length)) (hexact' : g.Exact n u (u.addMillis length))
    (htu : t ≤ u) : missed ≤ later := by
  by_contra hlt
  rw [Instant.not_le] at hlt
  obtain ⟨k, rfl⟩ := h'.on_grid
  have htaken := h.taken_of_lt k (Int.le_trans htu h'.start_le) hlt
  rw [point_mem_dates_iff hexact] at htaken
  have hfirst : g.leastIndex t ≤ g.leastIndex u := leastIndex_mono htu
  have hfinish : t.addMillis length ≤ u.addMillis length := Int.add_le_add_right htu length
  refine h'.not_taken ((point_mem_dates_iff hexact').2 ⟨le_point_iff.1 h'.start_le, by omega, ?_⟩)
  exact Int.le_trans htaken.2.2 hfinish

end FirstMissed

end Grid

end Timetable
