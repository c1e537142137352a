import Timetable.Occurrence
import Timetable.Proofs.Calendar
import Timetable.Proofs.Grid

/-!
# Which intervals keep to their words

A schedule may have any interval whose milliseconds fill a word, but the interval is also added to
distances and to instants. In the years 1 to 9999 the sums fit as long as the interval leaves room
for the longest distance between two instants (`Grid.exact_of_inYears`). An interval that does not
leave this room is accepted all the same and makes sums that do not fit: of the intervals that are
accepted, the last 315537897600 overflow (`Schedule.neverOverflows_iff`).
-/

namespace Timetable

open Instant

/-! ### The years 1 to 9999 -/

/-- The year of an instant. -/
def Instant.year (t : Instant) : Int := (Date.civil t.day).year

/-- An instant of the years 1 to 9999. -/
def Instant.InYears (t : Instant) : Prop := 1 ≤ t.year ∧ t.year ≤ 9999

instance (t : Instant) : Decidable t.InYears := by unfold Instant.InYears; infer_instance

theorem Instant.inYears_iff {t : Instant} :
    t.InYears ↔ Occurrence.firstWritable ≤ t ∧ t ≤ Occurrence.lastWritable := by
  rw [Instant.InYears, Instant.year, Date.year_civil_iff]
  simp only [Instant.le_iff, Occurrence.firstWritable, Occurrence.lastWritable, Instant.day,
    Instant.dayLength]
  omega

/-! ### Grids -/

namespace Grid

variable {g : Grid} {n : Nat} {start finish t u : Instant}

theorem le_finish_of_mem_run (h : u ∈ g.run finish n t) : u ≤ finish := by
  induction n generalizing t with
  | zero => cases h
  | succ n ih =>
    rw [run] at h
    split at h
    · next ht =>
      rcases List.mem_cons.1 h with rfl | h
      · exact ht
      · exact ih h
    · cases h

/-- As long as nothing overflows, no turn goes back. -/
theorem le_of_mem_run (hstart : -9223372036854775808 ≤ t.millis)
    (hfinish : finish.millis + g.interval < 9223372036854775808) (h : u ∈ g.run finish n t) :
    t ≤ u := by
  have hpos := g.interval_pos
  induction n generalizing t with
  | zero => cases h
  | succ n ih =>
    rw [run] at h
    split at h
    · next ht =>
      have hle : t.millis ≤ finish.millis := ht
      have hnext : (g.next t).millis = t.millis + g.interval :=
        wrapMillis_of_fits ⟨by omega, by omega⟩
      rcases List.mem_cons.1 h with rfl | h
      · exact Int.le_refl _
      · have hlater : (g.next t).millis ≤ u.millis := ih (by omega) h
        rw [Instant.le_iff]
        omega
    · cases h

/-- The numbers of a grid fit if its interval leaves room for all instants and distances. -/
theorem exact_of_inYears (hanchor : g.anchor.InYears) (hstart : start.InYears)
    (hfinish : finish.InYears) (hinterval : g.interval ≤ 9223056498957175808) (n : Nat) :
    g.Exact n start finish := by
  have hpos := g.interval_pos
  simp only [inYears_iff, Instant.le_iff, Occurrence.firstWritable, Occurrence.lastWritable]
    at hanchor hstart hfinish
  obtain ⟨hanchor, hanchor'⟩ := hanchor
  obtain ⟨hstart, hstart'⟩ := hstart
  have hdistance : FitsWord (start.millis - g.anchor.millis) := ⟨by omega, by omega⟩
  have hsum : 0 < start.millis - g.anchor.millis →
      FitsWord (start.millis - g.anchor.millis + g.interval) := fun hlate => ⟨by omega, by omega⟩
  have hindex := firstIndex_of_fits hdistance hsum
  -- the first instant comes less than an interval after the start of the window
  have hfirst : start.millis ≤ g.anchor.millis + g.leastIndex start * g.interval :=
    le_point_leastIndex g start
  have hbefore : g.anchor.millis + (g.leastIndex start - 1) * g.interval < start.millis :=
    point_lt_of_lt_leastIndex (Int.sub_one_lt_of_le (Int.le_refl _))
  rw [Int.sub_mul, Int.one_mul] at hbefore
  have hsteps : FitsWord (g.leastIndex start * g.interval) := ⟨by omega, by omega⟩
  have hpoint : FitsWord (g.anchor.millis + g.leastIndex start * g.interval) :=
    ⟨by omega, by omega⟩
  unfold Exact numbers
  split
  · simp
  · next hopen =>
    rw [List.forall_mem_append]
    constructor
    · simp only [firstNumbers, hindex, wrapMillis_of_fits hdistance, wrapMillis_of_fits hsteps,
        List.cons_append, List.forall_mem_cons, List.forall_mem_append, List.not_mem_nil,
        false_implies, implies_true, and_true]
      refine ⟨hdistance, ?_, hsteps, hpoint⟩
      split
      · next hlate =>
        rw [wrapMillis_of_fits (hsum hlate)]
        simp only [List.forall_mem_cons, List.not_mem_nil, false_implies, implies_true, and_true]
        exact ⟨hsum hlate, by omega, by omega⟩
      · simp
    · have hlisted : g.first start = g.point (g.leastIndex start) := by
        rw [first, hindex, wrapMillis_of_fits hsteps, wrapMillis_of_fits hpoint]
        rfl
      rw [dates, if_neg hopen, hlisted, List.forall_mem_map]
      intro t ht
      have hlast : t.millis ≤ finish.millis := le_finish_of_mem_run ht
      have hle : g.anchor.millis + g.leastIndex start * g.interval ≤ t.millis :=
        le_of_mem_run hpoint.1 (by omega) ht
      exact ⟨by omega, by omega⟩

/-- From the first instant of the year 1 to the last of the year 9999 there is no room for a longer
interval. -/
theorem not_exact_of_lt (hanchor : g.anchor = Occurrence.firstWritable)
    (hinterval : 9223056498957175808 < g.interval) :
    ¬ g.Exact 1 Occurrence.lastWritable Occurrence.lastWritable := by
  intro h
  have hdistance : Occurrence.lastWritable.millis - g.anchor.millis = 315537897599999 := by
    rw [hanchor]
    rfl
  have hmem : 315537897599999 + g.interval ∈
      g.numbers 1 Occurrence.lastWritable Occurrence.lastWritable := by
    rw [numbers, if_neg (by decide), firstNumbers, hdistance]
    exact List.mem_append_left _ (List.mem_cons_of_mem _ (List.mem_cons_self ..))
  obtain ⟨-, hlt⟩ := h _ hmem
  omega

end Grid

/-! ### Schedules -/

namespace Schedule

/-- The numbers on the way from a schedule to its instants in a window, each as it is before it is
put in a word: the milliseconds of its interval, and what is computed with them. -/
def numbers (s : Schedule) (n : Nat) (start finish : Instant) : Except Failure (List Int) :=
  s.grid.map fun g => s.intervalSeconds.toNat * 1000 :: g.numbers n start finish

/-- Whatever else a schedule with this interval says, words hold the numbers on the way to its
instants, if its anchor and the window lie in the years 1 to 9999. -/
def NeverOverflows (interval : UInt64) : Prop :=
  ∀ (s : Schedule) (n : Nat) (start finish : Instant) (xs : List Int),
    s.intervalSeconds = interval → s.anchor.InYears → start.InYears → finish.InYears →
      s.numbers n start finish = .ok xs → ∀ x ∈ xs, FitsWord x

theorem grid_eq_ok {s : Schedule} {g : Grid} : s.grid = .ok g ↔
    (0 < s.intervalSeconds.toNat ∧ s.intervalSeconds ≤ longestInterval) ∧
      g.anchor = s.anchor ∧ g.interval = s.intervalSeconds.toNat * 1000 := by
  unfold grid
  split
  · next h =>
    rw [Except.ok.injEq]
    constructor
    · rintro rfl
      exact ⟨h, rfl, rfl⟩
    · rintro ⟨-, hanchor, hinterval⟩
      cases g
      cases hanchor
      cases hinterval
      rfl
  · next h =>
    refine iff_of_false (fun hg => by cases hg) fun hg => h hg.1

theorem numbers_eq_ok {s : Schedule} {n : Nat} {start finish : Instant} {xs : List Int} :
    s.numbers n start finish = .ok xs ↔
      ∃ g, s.grid = .ok g ∧ g.interval :: g.numbers n start finish = xs := by
  unfold numbers
  cases hgrid : s.grid with
  | error e => exact iff_of_false (fun h => by cases h) (fun ⟨_, h, _⟩ => by cases h)
  | ok g =>
    rw [← (grid_eq_ok.1 hgrid).2.2]
    exact ⟨fun h => ⟨g, rfl, Except.ok.inj h⟩, fun ⟨_, hg, h⟩ => by cases hg; exact congrArg _ h⟩

/-- The intervals that keep to their words are those that leave room for the longest distance in
the years 1 to 9999, and those that no schedule may have. -/
theorem neverOverflows_iff (interval : UInt64) :
    NeverOverflows interval ↔ interval ≤ 9223056498957175 ∨ longestInterval < interval := by
  constructor
  · intro h
    by_contra hlong
    rw [not_or, UInt64.not_le, UInt64.not_lt] at hlong
    obtain ⟨hlong, haccepted⟩ := hlong
    have hmillis : 9223056498957175 < interval.toNat := UInt64.lt_iff_toNat_lt.1 hlong
    let s : Schedule := ⟨"", "", interval, Occurrence.firstWritable, "", 0⟩
    obtain ⟨g, hgrid⟩ : ∃ g, s.grid = .ok g :=
      ⟨_, (grid_eq_ok (g := ⟨s.anchor, interval.toNat * 1000, by omega⟩)).2
        ⟨⟨by show 0 < interval.toNat; omega, haccepted⟩, rfl, rfl⟩⟩
    obtain ⟨-, hanchor, hinterval⟩ := grid_eq_ok.1 hgrid
    have hfits := h s 1 Occurrence.lastWritable Occurrence.lastWritable _ rfl
      (show InYears Occurrence.firstWritable by decide) (by decide) (by decide)
      (numbers_eq_ok.2 ⟨g, hgrid, rfl⟩)
    refine Grid.not_exact_of_lt hanchor ?_ (List.forall_mem_cons.1 hfits).2
    rw [hinterval]
    show (9223056498957175808 : Int) < interval.toNat * 1000
    omega
  · rintro hshort s n start finish xs rfl hanchor hstart hfinish hxs
    obtain ⟨g, hgrid, rfl⟩ := numbers_eq_ok.1 hxs
    obtain ⟨⟨hpos, haccepted⟩, hanchor', hinterval⟩ := grid_eq_ok.1 hgrid
    have hshort : s.intervalSeconds ≤ 9223056498957175 :=
      hshort.resolve_right (UInt64.not_lt.2 haccepted)
    have hmillis : s.intervalSeconds.toNat ≤ 9223056498957175 := UInt64.le_iff_toNat_le.1 hshort
    rw [List.forall_mem_cons]
    constructor
    · exact ⟨by omega, by omega⟩
    · exact Grid.exact_of_inYears (hanchor' ▸ hanchor) hstart hfinish (by omega) n

/-- A schedule with the longest interval. -/
def seldom : Schedule := ⟨"seldom", "known", longestInterval, ⟨0⟩, "\x7b\x7d", 0⟩

/-- The longest interval is accepted and overflows in a window of ten seconds. What is listed then
lies before the window. -/
theorem longest_interval_overflows :
    seldom.anchor.InYears ∧ InYears ⟨10000⟩ ∧ InYears ⟨20000⟩ ∧
      seldom.numbers 5 ⟨10000⟩ ⟨20000⟩ = .ok [9223372036854775000, 10000, 9223372036854785000,
        -9223372036854766617, 0, 0, 9223372036854775000] ∧
      ¬ FitsWord 9223372036854785000 ∧ ¬ NeverOverflows longestInterval ∧
      seldom.grid.map (fun g => g.dates 5 ⟨10000⟩ ⟨20000⟩) = .ok [⟨0⟩] := by
  have hnumbers : seldom.numbers 5 ⟨10000⟩ ⟨20000⟩ = .ok [9223372036854775000, 10000,
      9223372036854785000, -9223372036854766617, 0, 0, 9223372036854775000] := by decide +kernel
  refine ⟨by decide, by decide, by decide, hnumbers, by decide, fun h => ?_, by decide +kernel⟩
  have hfits := h seldom 5 ⟨10000⟩ ⟨20000⟩ _ rfl (by decide) (by decide) (by decide) hnumbers
  exact absurd (hfits 9223372036854785000 (by simp)) (by decide)

end Schedule

end Timetable
