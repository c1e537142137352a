import Mathlib.Data.List.Sort
import Timetable.Proofs.Grid

/-!
# The earliest instants of a window

The first `n` members of a set of instants form one list and no other (`Earliest.unique`). As long
as words hold the numbers on the way, this is the list that a grid yields for a window
(`Exact.earliest`), so that a window may be cut in two (`Exact.dates_append`). Whatever the numbers,
the loop that makes the list stops by itself (`Listing.exists_ends`). All of this together is
`dates_are_earliest`.
-/

namespace Timetable

open Instant

instance : @Std.Irrefl Instant (· < ·) := ⟨fun t => Int.lt_irrefl t.millis⟩

instance : @Std.Antisymm Instant (· < ·) := ⟨fun _ _ h h' => absurd h' (Int.lt_asymm h)⟩

/-- The first `n` members of a set of instants, in order; all of them, if there are not so many. -/
structure Earliest (n : Nat) (S : Instant → Prop) (ts : List Instant) : Prop where
  ascending : ts.Pairwise (· < ·)
  mem : ∀ t ∈ ts, S t
  length_le : ts.length ≤ n
  later : ∀ t, S t → t ∉ ts → ts.length = n ∧ ∀ u ∈ ts, u < t

namespace Earliest

variable {n : Nat} {S : Instant → Prop} {ts us : List Instant}

/-- Of two such lists, none has a member that the other does not have. -/
theorem subset (h : Earliest n S ts) (h' : Earliest n S us) : ts ⊆ us := by
  intro t ht
  by_contra hus
  obtain ⟨hlength, hbefore⟩ := h'.later t (h.mem t ht) hus
  -- all of `us` come before `t`, so they are in `ts` too, which would be one more than `n`
  have hsubset : us ⊆ ts := by
    intro u hu
    by_contra hts
    exact Int.lt_asymm (hbefore u hu) ((h.later u (h'.mem u hu) hts).2 t ht)
  have hnodup : (t :: us).Nodup := List.nodup_cons.2 ⟨hus, h'.ascending.nodup⟩
  have hle := (List.subperm_of_subset hnodup (List.cons_subset.2 ⟨ht, hsubset⟩)).length_le
  have hmost := h.length_le
  rw [List.length_cons, hlength] at hle
  omega

/-- There is only one such list. -/
theorem unique (h : Earliest n S ts) (h' : Earliest n S us) : ts = us := by
  have hmem : ∀ t, t ∈ ts ↔ t ∈ us := fun t => ⟨fun ht => h.subset h' ht, fun hu => h'.subset h hu⟩
  exact h.ascending.eq_of_mem_iff h'.ascending hmem

end Earliest

namespace Grid

variable {g : Grid} {n : Nat} {k m : Int} {start mid finish t : Instant}

/-- An instant of the grid in a window, both ends included. -/
def InWindow (g : Grid) (start finish t : Instant) : Prop :=
  (∃ k : Int, g.point k = t) ∧ start ≤ t ∧ t ≤ finish

/-! ### What is listed -/

theorem pairwise_run (h : ∀ t ∈ g.run finish n (g.point m), FitsWord (t.millis + g.interval)) :
    (g.run finish n (g.point m)).Pairwise (· < ·) := by
  induction n generalizing m with
  | zero => exact .nil
  | succ n ih =>
    rw [run] at h ⊢
    split
    · next hm =>
      rw [if_pos hm, List.forall_mem_cons] at h
      rw [next_of_fits h.1] at h ⊢
      refine .cons (fun u hu => ?_) (ih h.2)
      obtain ⟨k, rfl, hk, -⟩ := (mem_run_iff h.2).1 hu
      exact point_lt_point_iff.2 (by omega)
    · exact .nil

/-- The limit is reached if the window goes on beyond it. -/
theorem length_run_eq (h : ∀ t ∈ g.run finish n (g.point m), FitsWord (t.millis + g.interval))
    (hk : m + n ≤ k) (hfinish : g.point k ≤ finish) :
    (g.run finish n (g.point m)).length = n := by
  induction n generalizing m with
  | zero => rfl
  | succ n ih =>
    have hm : g.point m ≤ finish := Int.le_trans (point_le_point_iff.2 (by omega)) hfinish
    rw [run, if_pos hm] at h ⊢
    rw [List.forall_mem_cons] at h
    rw [next_of_fits h.1] at h ⊢
    rw [List.length_cons, ih h.2 (by omega)]

/-- A grid yields the earliest of its instants in a window. -/
theorem Exact.earliest (h : g.Exact n start finish) :
    Earliest n (g.InWindow start finish) (g.dates n start finish) where
  ascending := by
    rw [h.dates_eq]
    exact pairwise_run h.run_fits
  mem t ht := by
    obtain ⟨k, rfl, hk, -, hfinish⟩ := (mem_dates_iff h).1 ht
    exact ⟨⟨k, rfl⟩, le_point_iff.2 hk, hfinish⟩
  length_le := by
    rw [h.dates_eq]
    exact g.length_run_le finish n _
  later := by
    rintro t ⟨⟨k, rfl⟩, hstart, hfinish⟩ hleft
    have hk : g.leastIndex start + n ≤ k := by
      by_contra hlt
      exact hleft ((point_mem_dates_iff h).2 ⟨le_point_iff.1 hstart, by omega, hfinish⟩)
    constructor
    · rw [h.dates_eq]
      exact length_run_eq h.run_fits hk hfinish
    · intro u hu
      obtain ⟨j, rfl, -, hj, -⟩ := (mem_dates_iff h).1 hu
      exact point_lt_point_iff.2 (by omega)

/-! ### Two windows instead of one -/

/-- A limit that is larger than the window has milliseconds leaves no instant out. -/
theorem Exact.mem_dates_iff_inWindow (h : g.Exact n start finish)
    (hn : finish.millis - start.millis < n) :
    t ∈ g.dates n start finish ↔ g.InWindow start finish t := by
  refine ⟨h.earliest.mem t, ?_⟩
  rintro ⟨⟨k, rfl⟩, hstart, hfinish⟩
  refine (point_mem_dates_iff h).2 ⟨le_point_iff.1 hstart, ?_, hfinish⟩
  -- each interval takes a millisecond at least
  have hpoint : (g.point k).millis - (g.point (g.leastIndex start)).millis =
      (k - g.leastIndex start) * g.interval := by
    simp only [point, addMillis, Int.sub_mul]
    omega
  have hle : (k - g.leastIndex start) * 1 ≤ (k - g.leastIndex start) * g.interval :=
    Int.mul_le_mul_of_nonneg_left g.interval_pos (Int.sub_nonneg.2 (le_point_iff.1 hstart))
  have hfirst : start.millis ≤ (g.point (g.leastIndex start)).millis := le_point_leastIndex g start
  have hlast : (g.point k).millis ≤ finish.millis := hfinish
  omega

/-- A window that ends earlier takes fewer numbers. -/
theorem run_subset_of_le (h : mid ≤ finish) (n : Nat) (t : Instant) :
    g.run mid n t ⊆ g.run finish n t := by
  induction n generalizing t with
  | zero => exact List.nil_subset _
  | succ n ih =>
    rw [run, run]
    split
    · next ht =>
      rw [if_pos (show t ≤ finish from Int.le_trans ht h)]
      exact List.cons_subset_cons t (ih _)
    · exact List.nil_subset _

theorem Exact.earlier (h : g.Exact n start finish) (hstart : start ≤ mid) (hmid : mid ≤ finish) :
    g.Exact n start mid := by
  unfold Exact numbers at h ⊢
  split
  · simp
  · next hempty =>
    have hopen : ¬ (n = 0 ∨ finish < start) := fun hclosed => hempty <| hclosed.imp id fun hlt =>
      absurd (Int.le_trans hstart hmid) (Instant.not_le.2 hlt)
    rw [if_neg hopen] at h
    have hsubset : g.dates n start mid ⊆ g.dates n start finish := by
      rw [dates, dates, if_neg hempty, if_neg hopen]
      exact run_subset_of_le hmid n _
    intro x hx
    rcases List.mem_append.1 hx with hx | hx
    · exact h x (List.mem_append_left _ hx)
    · exact h x (List.mem_append_right _ (List.map_subset _ hsubset hx))

/-- Without a limit, a window yields what its parts yield. -/
theorem Exact.dates_append (h : g.Exact n start finish) (h' : g.Exact n (mid.addMillis 1) finish)
    (hstart : start ≤ mid) (hmid : mid < finish) (hn : finish.millis - start.millis < n) :
    g.dates n start finish = g.dates n start mid ++ g.dates n (mid.addMillis 1) finish := by
  have hmid : mid.millis < finish.millis := hmid
  have hstart : start.millis ≤ mid.millis := hstart
  have hbefore := h.earlier hstart (Int.le_of_lt hmid)
  have hlate : finish.millis - (mid.addMillis 1).millis < n := by
    simp only [addMillis]
    omega
  have hmem : ∀ t, t ∈ g.dates n start mid ↔ g.InWindow start mid t := fun _ =>
    hbefore.mem_dates_iff_inWindow (show mid.millis - start.millis < n by omega)
  have hmem' : ∀ t, t ∈ g.dates n (mid.addMillis 1) finish ↔
      g.InWindow (mid.addMillis 1) finish t := fun _ => h'.mem_dates_iff_inWindow hlate
  refine h.earliest.ascending.eq_of_mem_iff (List.pairwise_append.2
    ⟨hbefore.earliest.ascending, h'.earliest.ascending, fun t ht u hu => ?_⟩) fun t => ?_
  · have htmid : t.millis ≤ mid.millis := ((hmem t).1 ht).2.2
    have hmidu : mid.millis + 1 ≤ u.millis := ((hmem' u).1 hu).2.1
    exact Instant.lt_iff.2 (by omega)
  · rw [List.mem_append, h.mem_dates_iff_inWindow hn, hmem, hmem']
    simp only [InWindow, Instant.le_iff, addMillis]
    constructor
    · rintro ⟨hgrid, hle, hle'⟩
      by_cases ht : t.millis ≤ mid.millis
      · exact .inl ⟨hgrid, hle, ht⟩
      · exact .inr ⟨hgrid, by omega, hle'⟩
    · rintro (⟨hgrid, hle, hle'⟩ | ⟨hgrid, hle, hle'⟩)
      · exact ⟨hgrid, hle, by omega⟩
      · exact ⟨hgrid, by omega, hle'⟩

/-! ### The loop -/

/-- How far a loop has got: what it has listed, and the instant that it has come to. -/
structure Listing where
  listed : List Instant
  current : Instant

namespace Listing

/-- The loop has not come to the end of the window, nor listed as many as it may. -/
def GoesOn (n : Nat) (finish : Instant) (l : Listing) : Prop :=
  l.current ≤ finish ∧ l.listed.length < n

/-- One turn lists an instant and comes to the next. -/
def turn (g : Grid) (l : Listing) : Listing := ⟨l.listed ++ [l.current], g.next l.current⟩

/-- The loop stops after a number of turns, with what it has listed by then. -/
inductive Ends (g : Grid) (n : Nat) (finish : Instant) : Listing → Nat → List Instant → Prop
  | stop {l : Listing} (h : ¬ l.GoesOn n finish) : Ends g n finish l 0 l.listed
  | turn {l : Listing} {turns : Nat} {ts : List Instant} (h : l.GoesOn n finish)
    (rest : Ends g n finish (l.turn g) turns ts) : Ends g n finish l (turns + 1) ts

/-- From wherever it is, the loop stops after no more turns than it may still list instants. -/
theorem exists_ends (g : Grid) (finish : Instant) (left : Nat) : ∀ l : Listing,
    ∃ turns ≤ left, Ends g (l.listed.length + left) finish l turns
      (l.listed ++ g.run finish left l.current) := by
  induction left with
  | zero =>
    intro l
    refine ⟨0, Nat.le_refl 0, ?_⟩
    rw [run, List.append_nil]
    exact .stop fun h => Nat.lt_irrefl _ h.2
  | succ left ih =>
    intro l
    rw [run]
    split
    · next hcurrent =>
      obtain ⟨turns, hturns, hends⟩ := ih (l.turn g)
      refine ⟨turns + 1, Nat.succ_le_succ hturns, .turn ⟨hcurrent, by omega⟩ ?_⟩
      simpa [Listing.turn, Nat.add_comm, Nat.add_left_comm] using hends
    · next hcurrent =>
      refine ⟨0, Nat.zero_le _, ?_⟩
      rw [List.append_nil]
      exact .stop fun h => hcurrent h.1

end Listing

/-- A window that is not inverted takes a loop that stops by itself, after no more turns than the
limit says, and a smaller limit cuts the list short. As long as words hold the numbers, the list is
the one of the earliest instants of the grid in the window, and without a limit two parts of a
window yield what the whole window yields. -/
theorem dates_are_earliest (g : Grid) (n : Nat) (start finish : Instant) :
    (finish < start → g.dates n start finish = []) ∧
      (¬ finish < start → ∃ turns ≤ n,
        Listing.Ends g n finish ⟨[], g.first start⟩ turns (g.dates n start finish)) ∧
      (∀ m ≤ n, g.dates m start finish <+: g.dates n start finish) ∧
      (g.Exact n start finish →
        (∀ ts, Earliest n (g.InWindow start finish) ts ↔ ts = g.dates n start finish) ∧
          ∀ mid, start ≤ mid → mid < finish → finish.millis - start.millis < n →
            g.Exact n (mid.addMillis 1) finish →
            g.dates n start finish =
              g.dates n start mid ++ g.dates n (mid.addMillis 1) finish) := by
  refine ⟨fun hinverted => if_pos (.inr hinverted), fun hwindow => ?_,
    fun m hm => g.dates_prefix_of_le hm start finish, fun h => ⟨fun ts => ?_, ?_⟩⟩
  · obtain ⟨turns, hturns, hends⟩ := Listing.exists_ends g finish n ⟨[], g.first start⟩
    rw [List.length_nil, Nat.zero_add, List.nil_append] at hends
    have hdates : g.dates n start finish = g.run finish n (g.first start) := by
      cases n with
      | zero => rfl
      | succ n => exact if_neg (not_or.2 ⟨Nat.succ_ne_zero n, hwindow⟩)
    exact ⟨turns, hturns, hdates ▸ hends⟩
  · constructor
    · intro hts
      exact hts.unique h.earliest
    · rintro rfl
      exact h.earliest
  · intro mid hstart hmid hn h'
    exact h.dates_append h' hstart hmid hn

/-- A grid that is anchored after the window has two instants in it, on both sides of the start of
1970. -/
theorem dates_are_earliest_tens :
    let g : Grid := ⟨⟨25⟩, 10, by decide⟩
    g.dates 20 ⟨12⟩ ⟨-7⟩ = [] ∧
      (∃ turns ≤ 20, Listing.Ends g 20 ⟨12⟩ ⟨[], ⟨-5⟩⟩ turns [⟨-5⟩, ⟨5⟩]) ∧
      g.dates 1 ⟨-7⟩ ⟨12⟩ <+: g.dates 20 ⟨-7⟩ ⟨12⟩ ∧
      Earliest 20 (g.InWindow ⟨-7⟩ ⟨12⟩) [⟨-5⟩, ⟨5⟩] ∧
      g.dates 20 ⟨-7⟩ ⟨12⟩ = g.dates 20 ⟨-7⟩ ⟨0⟩ ++ g.dates 20 ⟨1⟩ ⟨12⟩ := by
  intro g
  obtain ⟨-, hends, hprefix, hexact⟩ := dates_are_earliest g 20 ⟨-7⟩ ⟨12⟩
  obtain ⟨hearliest, happend⟩ := hexact (by decide)
  exact ⟨(dates_are_earliest g 20 ⟨12⟩ ⟨-7⟩).1 (by decide), hends (by decide),
    hprefix 1 (by decide), (hearliest _).2 (by decide),
    happend ⟨0⟩ (by decide) (by decide) (by decide) (by decide)⟩

end Grid

end Timetable
