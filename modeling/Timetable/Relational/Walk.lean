/-!
# Walking along paths

A `Path` is made of bytes, with slashes between its elements. A `Walk` goes along a path from the
directory of the program, or from the root if the path begins with a slash, and remembers the names
under the place where it was last at such a directory. An empty element or a point stays where it
is and two points lead back, whether or not there is anything where the walk comes by. Hence `./a`,
`a/` and `b/../a` all lead to `a` (`step_point`, `step_parent_of_step`), and the names that a walk
remembers lead on (`leadsOn_of_mem_walk`).
-/

namespace Timetable.Relational

/-- A path, or an element of one. Its bytes need not be those of a text. -/
abbrev Path := List UInt8

namespace Path

/-- The path that a text stands for. -/
def ofText (s : String) : Path := s.toList.flatMap String.utf8EncodeChar

/-- The byte between two elements. -/
def slash : UInt8 := '/'.toUInt8

/-- The element that stays where it is. -/
def point : Path := ['.'.toUInt8]

/-- The element that leads back. -/
def parent : Path := ['.'.toUInt8, '.'.toUInt8]

/-- Whether a path begins at the root. -/
def isAbsolute (p : Path) : Bool := p.head? = some slash

/-- The elements of a path. -/
def elements (p : Path) : List Path := p.splitOn slash

end Path

/-- Where a walk is. -/
structure Walk where
  /-- Whether the walk has left the directory of the program. -/
  isOutside : Bool
  /-- The names since then, the last one first. -/
  names : List Path
deriving DecidableEq, Repr

namespace Walk

/-- How many bytes an element of a path may have in a directory that is there. -/
def longestElement : Nat := 255

/-- How many bytes there may be on the way, with a slash before each name but the last. -/
def longestWay : Nat := 510

/-- Whether an element of a path leads on. -/
def LeadsOn (e : Path) : Prop := e ∉ [[], Path.point, Path.parent]

/-- The bytes of the names, with a slash before each. -/
def length (w : Walk) : Nat := w.names.foldl (fun n name => n + (1 + name.length)) 0

/-- Whether a walk cannot go on by an element since that or the way is too long. Only the names in
the first directory are looked at, since the directories under it are not there. -/
def isTooLong (w : Walk) (e : Path) : Bool :=
  (w.names = [] && longestElement < e.length) || longestWay < w.length + e.length

/-- Goes on by an element. -/
def step (w : Walk) (e : Path) : Option Walk :=
  if e = [] ∨ e = Path.point then some w
  else if e = Path.parent then
    match w.names with
    | [] => some ⟨true, []⟩
    | _ :: names => some { w with names }
  else if w.isTooLong e then none
  else some { w with names := e :: w.names }

/-- Walks along a path. -/
def ofPath (p : Path) : Option Walk := p.elements.foldlM step ⟨p.isAbsolute, []⟩

theorem step_point (w : Walk) : w.step Path.point = some w := by simp [step]

theorem step_of_leadsOn {w v : Walk} {e : Path} (he : LeadsOn e) (h : w.step e = some v) :
    v = { w with names := e :: w.names } := by
  simp only [LeadsOn, List.mem_cons, List.not_mem_nil, or_false, not_or] at he
  simp only [step, he, or_self, if_false] at h
  split at h
  · simp at h
  · exact (Option.some.inj h).symm

theorem step_parent_of_step {w v : Walk} {e : Path} (he : LeadsOn e)
    (h : w.step e = some v) : v.step Path.parent = some w := by
  rw [step_of_leadsOn he h]
  simp [step, Path.parent, Path.point]

theorem leadsOn_of_mem_step {w v : Walk} {e : Path} (h : w.step e = some v)
    (hw : ∀ n ∈ w.names, LeadsOn n) : ∀ n ∈ v.names, LeadsOn n := by
  unfold step at h
  split at h
  · exact Option.some.inj h ▸ hw
  · split at h
    · cases hn : w.names with
      | nil => simp [hn] at h; simp [← h]
      | cons a as =>
        simp only [hn] at h
        intro n hm
        rw [← Option.some.inj h] at hm
        exact hw n (hn ▸ List.mem_cons_of_mem a hm)
    · split at h
      · simp at h
      · rename_i h₁ h₂ h₃
        intro n hm
        rw [← Option.some.inj h] at hm
        rcases List.mem_cons.1 hm with rfl | hm
        · simp_all [LeadsOn]
        · exact hw n hm

theorem leadsOn_of_mem_walk {es : List Path} {w v : Walk} (h : es.foldlM step w = some v)
    (hw : ∀ n ∈ w.names, LeadsOn n) : ∀ n ∈ v.names, LeadsOn n := by
  induction es generalizing w with
  | nil => exact Option.some.inj h ▸ hw
  | cons e es ih =>
    rw [List.foldlM_cons] at h
    obtain ⟨u, hu, h⟩ := Option.bind_eq_some_iff.1 h
    exact ih h (leadsOn_of_mem_step hu hw)

end Walk

end Timetable.Relational
