import Timetable.Proofs.Sql.Reading

/-!
# How insertions are read

An insertion names a table and columns, and behind the word `VALUES` it has rows of cells. A cell is
a placeholder and the type as which its value is read. `insertion?` reads an insertion off the
pieces of a statement, with the values of the parameters in the cells, and whatever is written in
this form is read as what it was written from (`insertion?_eq_some`).
-/

namespace Timetable.Sql

/-- What a row has in a column: a value, and the type as which it is read. -/
structure Cell where
  value : Option String
  cast : String
deriving DecidableEq, Repr

/-- A statement that inserts rows. -/
structure Insertion where
  table : String
  columns : List String
  rows : List (List Cell)
  /-- What stands behind the rows. -/
  ending : String
deriving DecidableEq, Repr

/-! ### Parts of a statement -/

/-- The character that a piece is. -/
def Piece.char? : Piece → Option Char
  | char c => some c
  | mark _ => none

/-- The text of pieces among which there are no placeholders. -/
def plain? (ps : List Piece) : Option String := (ps.mapM Piece.char?).map String.ofList

/-- What stands behind words with which a statement begins. -/
def behind? (w : List Char) (ps : List Piece) : Option (List Piece) :=
  if chars w <+: ps then some (ps.drop w.length) else none

/-- What stands before a character. -/
def before (c : Char) (ps : List Piece) : List Piece := ps.takeWhile (· ≠ .char c)

/-- What stands behind a character. -/
def after (c : Char) (ps : List Piece) : List Piece := (ps.dropWhile (· ≠ .char c)).tail

theorem length_after_le (c : Char) (ps : List Piece) : (after c ps).length ≤ ps.length := by
  rw [after, List.length_tail]
  exact Nat.le_trans (Nat.sub_le _ _) (List.dropWhile_suffix _).length_le

/-- The items of each of the lists in parentheses with commas between them, and what stands behind
the last one. -/
def rows (ps : List Piece) : List (List (List Piece)) × List Piece :=
  match ps with
  | .char '(' :: ps =>
    match _ : after ')' ps with
    | .char ',' :: rest => (items ps :: (rows rest).1, (rows rest).2)
    | rest => ([items ps], rest)
  | ps => ([], ps)
termination_by ps.length
decreasing_by
  all_goals
    have hle := length_after_le ')' ps
    rw [‹after ')' ps = _›, List.length_cons] at hle
    exact Nat.lt_succ_of_lt hle

/-- The cell that an item describes. -/
def Cell.read? (values : List (Option String)) (item : List Piece) : Option Cell := do
  return ⟨← denoted values item, ← plain? item.tail⟩

/-- The insertion that a statement is. -/
def insertion? (values : List (Option String)) (ps : List Piece) : Option Insertion := do
  let ps ← behind? "INSERT INTO ".toList ps
  let table ← plain? (before '(' ps)
  let ps := after '(' ps
  let columns ← (items ps).mapM plain?
  let ps ← behind? " VALUES ".toList (after ')' ps)
  let cells ← (rows ps).1.mapM fun row => row.mapM (Cell.read? values)
  let ending ← plain? (rows ps).2
  return ⟨table, columns, cells, ending⟩

theorem mapM_eq_some_iff {α β : Type} {f : α → Option β} {as : List α} {bs : List β} :
    as.mapM f = some bs ↔ as.map f = bs.map some := by
  induction as generalizing bs with
  | nil => cases bs <;> simp
  | cons a as ih =>
    rw [List.mapM_cons, List.map_cons]
    cases bs <;> simp [← ih, Option.bind_eq_some_iff]

theorem plain?_chars (w : List Char) : plain? (chars w) = some (String.ofList w) := by
  have hmap : (chars w).mapM Piece.char? = some w := by
    rw [mapM_eq_some_iff, chars, List.map_map]
    rfl
  rw [plain?, hmap]
  rfl

theorem mapM_plain? (texts : List String) :
    (texts.map fun t => chars t.toList).mapM plain? = some texts := by
  rw [mapM_eq_some_iff, List.map_map]
  refine List.map_congr_left fun t _ => ?_
  exact (plain?_chars t.toList).trans (congrArg some String.ofList_toList)

theorem behind?_chars_append (w : List Char) (ps : List Piece) :
    behind? w (chars w ++ ps) = some ps := by
  have hlength : w.length = (chars w).length := (List.length_map _).symm
  rw [behind?, if_pos (List.prefix_append _ _), hlength, List.drop_left]

theorem mem_chars {c : Char} {w : List Char} : Piece.char c ∈ chars w ↔ c ∈ w := by
  simp [chars]

section

variable {c : Char} {as : List Piece}

theorem before_append (h : .char c ∉ as) (ps : List Piece) :
    before c (as ++ .char c :: ps) = as := by
  have hopen : ∀ p ∈ as, decide (p ≠ .char c) = true := fun p hp =>
    decide_eq_true fun hpc => h (hpc ▸ hp)
  rw [before, List.takeWhile_append_of_pos hopen, List.takeWhile_cons_of_neg (by simp),
    List.append_nil]

theorem after_append (h : .char c ∉ as) (ps : List Piece) :
    after c (as ++ .char c :: ps) = ps := by
  have hopen : ∀ p ∈ as, decide (p ≠ .char c) = true := fun p hp =>
    decide_eq_true fun hpc => h (hpc ▸ hp)
  rw [after, List.dropWhile_append_of_pos hopen, List.dropWhile_cons_of_neg (by simp),
    List.tail_cons]

end

/-! ### Rows -/

/-- Items that can be told apart in a list in parentheses. -/
def Separate (items : List (List Piece)) : Prop :=
  items ≠ [] ∧ ∀ item ∈ items, .char ',' ∉ item ∧ .char ')' ∉ item

/-- A list in parentheses. -/
def parenthesized (items : List (List Piece)) : List Piece :=
  .char '(' :: (commas items ++ [.char ')'])

theorem Separate.notMem_commas {as : List (List Piece)} (h : Separate as) :
    .char ')' ∉ commas as := by
  intro hmem
  rcases mem_commas hmem with hp | ⟨a, ha, hp⟩
  · cases hp
  · exact (h.2 a ha).2 hp

/-- One list in parentheses is read, and then the ones behind it if there is a comma. -/
theorem rows_parenthesized_append {as : List (List Piece)} (h : Separate as) (ps : List Piece) :
    rows (parenthesized as ++ .char ',' :: ps) = (as :: (rows ps).1, (rows ps).2) ∧
      (ps.head? ≠ some (.char ',') → rows (parenthesized as ++ ps) = ([as], ps)) := by
  have hshape : ∀ ps, parenthesized as ++ ps = .char '(' :: (commas as ++ .char ')' :: ps) := by
    intro ps
    rw [parenthesized, List.cons_append, List.append_assoc]
    rfl
  have hafter : ∀ ps, after ')' (commas as ++ .char ')' :: ps) = ps :=
    after_append h.notMem_commas
  have hitems : ∀ ps, items (commas as ++ .char ')' :: ps) = as :=
    items_commas_append h.1 h.2
  constructor
  · rw [hshape, rows]
    split
    · next rest hrest =>
      obtain rfl : ps = rest := by
        rw [hafter] at hrest
        exact (List.cons.inj hrest).2
      rw [hitems]
    · next hrest => exact absurd (hafter (.char ',' :: ps)) (hrest ps)
  · intro hhead
    rw [hshape, rows]
    split
    · next rest hrest =>
      rw [hafter] at hrest
      exact absurd (congrArg List.head? hrest) hhead
    · rw [hafter, hitems]

theorem rows_commas_append {rss : List (List (List Piece))} (hne : rss ≠ [])
    (h : ∀ as ∈ rss, Separate as) {ps : List Piece} (hps : ps.head? ≠ some (.char ',')) :
    rows (commas (rss.map parenthesized) ++ ps) = (rss, ps) := by
  induction rss with
  | nil => exact absurd rfl hne
  | cons as rss ih =>
    obtain ⟨has, hrss⟩ := List.forall_mem_cons.1 h
    cases rss with
    | nil =>
      have hone : commas ([as].map parenthesized) = parenthesized as := by simp [commas]
      rw [hone, (rows_parenthesized_append has ps).2 hps]
    | cons bs rss =>
      have hrest := ih (List.cons_ne_nil _ _) hrss
      rw [List.map_cons, List.map_cons, commas_cons_cons, List.append_assoc, List.cons_append,
        (rows_parenthesized_append has _).1, ← List.map_cons, hrest]

/-! ### Whole insertions -/

/-- The pieces of an insertion with rows of such items. -/
def insertionPieces (table : String) (columns : List String) (rss : List (List (List Piece)))
    (ending : String) : List Piece :=
  chars "INSERT INTO ".toList ++ (chars table.toList ++ .char '(' ::
    (commas (columns.map fun c => chars c.toList) ++ .char ')' ::
      (chars " VALUES ".toList ++ (commas (rss.map parenthesized) ++ chars ending.toList))))

theorem insertion?_eq_some {values : List (Option String)} {table : String} {columns : List String}
    {rss : List (List (List Piece))} {cells : List (List Cell)} {ending : String}
    (htable : '(' ∉ table.toList) (hcolumns : Separate (columns.map fun c => chars c.toList))
    (hne : rss ≠ []) (hrss : ∀ as ∈ rss, Separate as) (hending : ending.toList.head? ≠ some ',')
    (hcells : (rss.mapM fun row => row.mapM (Cell.read? values)) = some cells) :
    insertion? values (insertionPieces table columns rss ending) =
      some ⟨table, columns, cells, ending⟩ := by
  have hname : .char '(' ∉ chars table.toList := fun h => htable (mem_chars.1 h)
  have hhead : (chars ending.toList).head? ≠ some (.char ',') := by
    rw [chars, List.head?_map]
    intro h
    obtain ⟨c, hc, hcomma⟩ := Option.map_eq_some_iff.1 h
    cases hcomma
    exact hending hc
  simp only [insertion?, insertionPieces, behind?_chars_append, before_append hname,
    after_append hname, items_commas_append hcolumns.1 hcolumns.2,
    after_append hcolumns.notMem_commas, rows_commas_append hne hrss hhead, hcells, plain?_chars,
    mapM_plain?, String.ofList_toList, Option.bind_eq_bind, Option.bind_some, Option.pure_def]

end Timetable.Sql
