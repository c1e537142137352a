import Timetable.Instant

/-!
# Recurring instants

A `Grid` is an anchor and a positive interval; it stands for the instants `anchor + k * interval`
for every integer `k` (`Grid.point`), earlier ones than the anchor included. `Grid.dates` lists the
first of them that lie in a window, in order. It counts milliseconds in signed words of 64 bits: a
sum or a product that does not fit wraps around, and what is listed after that need not lie on the
grid.
-/

namespace Timetable

open Instant

/-- The instants at a whole number of intervals from an anchor. -/
structure Grid where
  anchor : Instant
  /-- The distance of two neighbours, in milliseconds. -/
  interval : Int
  interval_pos : 0 < interval

namespace Grid

/-- The instant at `k` intervals from the anchor. -/
def point (g : Grid) (k : Int) : Instant := g.anchor.addMillis (k * g.interval)

/-- The number of the first instant at or after `start`: the distance in intervals, rounded up.
Division cuts off towards zero, which is up already for a distance that is not positive. -/
def firstIndex (g : Grid) (start : Instant) : Int :=
  let distance := wrapMillis (start.millis - g.anchor.millis)
  if 0 < distance then (wrapMillis (wrapMillis (distance + g.interval) - 1)).tdiv g.interval
  else distance.tdiv g.interval

/-- The first instant at or after `start`. -/
def first (g : Grid) (start : Instant) : Instant :=
  ⟨wrapMillis (g.anchor.millis + wrapMillis (g.firstIndex start * g.interval))⟩

/-- The instant one interval later. -/
def next (g : Grid) (t : Instant) : Instant := ⟨wrapMillis (t.millis + g.interval)⟩

/-- At most `n` instants, one interval apart, from `t` on and no later than `finish`. -/
def run (g : Grid) (finish : Instant) : Nat → Instant → List Instant
  | 0, _ => []
  | n + 1, t => if t ≤ finish then t :: run g finish n (g.next t) else []

/-- The first `n` instants of the grid from `start` to `finish`, both included. -/
def dates (g : Grid) (n : Nat) (start finish : Instant) : List Instant :=
  if n = 0 ∨ finish < start then []
  else g.run finish n (g.first start)

theorem length_run_le (g : Grid) (finish : Instant) :
    ∀ (n : Nat) (t : Instant), (g.run finish n t).length ≤ n
  | 0, _ => Nat.le_refl 0
  | n + 1, t => by
    unfold run
    split
    · exact Nat.succ_le_succ (length_run_le g finish n _)
    · exact Nat.zero_le _

/-- Asking for fewer instants cuts the list short. -/
theorem run_prefix_of_le (g : Grid) (finish : Instant) : ∀ {m n : Nat} (_ : m ≤ n) (t : Instant),
    g.run finish m t <+: g.run finish n t
  | 0, _, _, _ => List.nil_prefix
  | m + 1, n + 1, h, t => by
    unfold run
    split
    · exact (List.prefix_cons_inj t).2 (run_prefix_of_le g finish (Nat.le_of_succ_le_succ h) _)
    · exact List.nil_prefix

theorem dates_prefix_of_le (g : Grid) {m n : Nat} (h : m ≤ n) (start finish : Instant) :
    g.dates m start finish <+: g.dates n start finish := by
  unfold dates
  split
  · exact List.nil_prefix
  · next hm =>
    rw [if_neg fun hn => hm (hn.imp (fun hzero => by omega) id)]
    exact g.run_prefix_of_le finish h _

end Grid

end Timetable
