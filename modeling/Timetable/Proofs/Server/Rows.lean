import Mathlib
import Timetable.Proofs.Sql.Insertion
import Timetable.Server.Query

/-!
# Records in the rows of an insertion

What `Query.insert` writes is read as an insertion with a row for each record (`reads_insert`): the
placeholders are numbered on through all rows (`numbers_insert`), and the values of a record are in
the columns that its format names. Runs and states are read back from their rows (`run?_cells`,
`state?_cells`), so an insertion gives back the records that it was written for (`records_insert`).
-/

namespace Timetable.Server.Query

open Sql

/-! ### Rows as pieces -/

/-- The items of a row whose placeholders are numbered on from a number. -/
def rowItems (casts : List String) (first : Nat) : List (List Piece) :=
  ((List.range' first casts.length).zip casts).map fun (n, cast) => .mark n :: chars cast.toList

theorem rowItems_cons (cast : String) (casts : List String) (first : Nat) :
    rowItems (cast :: casts) first =
      (.mark first :: chars cast.toList) :: rowItems casts (first + 1) := by
  rw [rowItems, List.length_cons, List.range'_succ]
  rfl

/-- Types of columns that can be written behind placeholders. -/
def Castable (casts : List String) : Prop :=
  casts ≠ [] ∧ ∀ cast ∈ casts,
    ',' ∉ cast.toList ∧ ')' ∉ cast.toList ∧ '$' ∉ cast.toList ∧ EndsNumber cast.toList

theorem endsNumber_append {as bs : List Char} (has : EndsNumber as) (hbs : EndsNumber bs) :
    EndsNumber (as ++ bs) := by
  cases as with
  | nil => exact hbs
  | cons a as => exact has

theorem endsNumber_cons {c : Char} (h : c.isDigit = false) (cs : List Char) :
    EndsNumber (c :: cs) := by
  intro d hd
  obtain rfl := Option.some.inj hd
  exact h

theorem Castable.separate {casts : List String} (h : Castable casts) (first : Nat) :
    Separate (rowItems casts first) := by
  constructor
  · obtain ⟨cast, casts, rfl⟩ := List.exists_cons_of_ne_nil h.1
    rw [rowItems_cons]
    exact List.cons_ne_nil _ _
  · intro item hitem
    obtain ⟨⟨n, cast⟩, hmem, rfl⟩ := List.mem_map.1 hitem
    obtain ⟨hcomma, hclose, -⟩ := h.2 cast (List.of_mem_zip hmem).2
    constructor
    · exact fun hp => hcomma (mem_chars.1 (List.mem_of_ne_of_mem (by simp) hp))
    · exact fun hp => hclose (mem_chars.1 (List.mem_of_ne_of_mem (by simp) hp))

theorem dollars_castPlaceholder_append (n : UInt64) {cast : String} (hcast : '$' ∉ cast.toList)
    (hends : EndsNumber cast.toList) {cs : List Char} (hcs : EndsNumber cs) :
    dollars ((castPlaceholder n cast).toList ++ cs) =
      (.mark n.toNat :: chars cast.toList) ++ dollars cs := by
  rw [castPlaceholder, String.toList_append, List.append_assoc,
    dollars_placeholder_append n (endsNumber_append hends hcs), dollars_word_append hcast]
  rfl

/-- A row of placeholders is read item by item. -/
theorem dollars_row_append {casts : List String} (h : Castable casts) (first : UInt64)
    (hsize : first.toNat + casts.length ≤ UInt64.size) (cs : List Char) :
    dollars (("(" ++ ",".intercalate (((parameterNumbers casts.length first).zip casts).map
      fun (n, cast) => castPlaceholder n cast) ++ ")").toList ++ cs) =
        parenthesized (rowItems casts first.toNat) ++ dollars cs := by
  have hitems : ((parameterNumbers casts.length first).zip casts).map
      (fun (n, cast) => .mark n.toNat :: chars cast.toList) = rowItems casts first.toNat := by
    rw [rowItems, ← map_toNat_parameterNumbers hsize, List.zip_map_left, List.map_map]
    rfl
  have hopen : '$' ∉ "(".toList := by decide
  have hclose : dollars (')' :: cs) = .char ')' :: dollars cs := by
    rw [dollars, if_neg (by decide)]
  rw [String.toList_append, String.toList_append, String.toList_intercalate, List.append_assoc,
    List.append_assoc, dollars_word_append hopen, List.map_map]
  -- Between the parentheses the items are read one by one: a cast does not begin with a digit, and
  -- neither does what stands behind it, so no number runs on.
  refine (congrArg _ (dollars_intercalate_append (g := fun (n, cast) =>
    .mark n.toNat :: chars cast.toList) ?_ (endsNumber_cons (by decide) cs))).trans ?_
  · rintro ⟨n, cast⟩ hmem cs hcs
    obtain ⟨-, -, hplain, hends⟩ := h.2 cast (List.of_mem_zip hmem).2
    exact dollars_castPlaceholder_append n hplain hends hcs
  · rw [hitems, parenthesized, List.cons_append, List.append_assoc]
    exact congrArg (fun ps => Piece.char '(' :: (commas (rowItems casts first.toNat) ++ ps)) hclose

/-- The items of some rows, one after the other. -/
def rowsItems (casts : List String) (count skip : Nat) : List (List (List Piece)) :=
  (List.range count).map fun i => rowItems casts (skip + i * casts.length + 1)

theorem rowsItems_succ (casts : List String) (count skip : Nat) :
    rowsItems casts (count + 1) skip =
      rowItems casts (skip + 1) :: rowsItems casts count (skip + casts.length) := by
  rw [rowsItems, List.range_succ_eq_map, List.map_cons, List.map_map, Nat.zero_mul]
  refine congrArg _ (List.map_congr_left fun i _ => ?_)
  show rowItems casts (skip + (i + 1) * casts.length + 1) = _
  rw [Nat.succ_mul, Nat.add_comm (i * _), ← Nat.add_assoc]

theorem dollars_valuesList_append {casts : List String} (h : Castable casts) {count : Nat}
    (hsize : count * casts.length < UInt64.size) {cs : List Char} (hcs : EndsNumber cs) :
    dollars ((valuesList casts count).toList ++ cs) =
      commas ((rowsItems casts count 0).map parenthesized) ++ dollars cs := by
  rw [valuesList, String.toList_intercalate, rowPlaceholders, List.map_map, List.map_map,
    rowsItems, List.map_map]
  refine dollars_intercalate_append (fun i hi cs _ => ?_) hcs
  -- The numbers of this row are at most those of the last one, so none of them wraps.
  have hle : (i + 1) * casts.length ≤ count * casts.length :=
    Nat.mul_le_mul_right _ (List.mem_range.1 hi)
  rw [Nat.succ_mul] at hle
  have hfirst : (UInt64.ofNat (i * casts.length + 1)).toNat = 0 + i * casts.length + 1 := by
    rw [UInt64.toNat_ofNat', Nat.zero_add]
    have hpos := List.length_pos_iff.2 h.1
    simp only [UInt64.size] at hsize
    omega
  have hrow := dollars_row_append h (UInt64.ofNat (i * casts.length + 1))
    (by rw [hfirst]; omega) cs
  rw [hfirst] at hrow
  exact hrow

/-! ### Numbers and cells -/

theorem numbers_rowItems (casts : List String) (first : Nat) :
    (rowItems casts first).flatMap numbers = List.range' first casts.length := by
  induction casts generalizing first with
  | nil => rfl
  | cons cast casts ih =>
    rw [rowItems_cons, List.flatMap_cons, ih, List.length_cons, List.range'_succ]
    exact congrArg (first :: · ++ _) (numbers_chars cast.toList)

theorem numbers_rowsItems (casts : List String) (count skip : Nat) :
    ((rowsItems casts count skip).map parenthesized).flatMap numbers =
      List.range' (skip + 1) (count * casts.length) := by
  induction count generalizing skip with
  | zero => rw [Nat.zero_mul]; rfl
  | succ count ih =>
    have hrow : numbers (parenthesized (rowItems casts (skip + 1))) =
        List.range' (skip + 1) casts.length := by
      have hcommas := numbers_commas (rowItems casts (skip + 1))
      rw [numbers_rowItems] at hcommas
      show numbers (commas (rowItems casts (skip + 1)) ++ [.char ')']) = _
      rw [numbers_append, hcommas]
      exact List.append_nil _
    rw [rowsItems_succ, List.map_cons, List.flatMap_cons, hrow, ih, Nat.succ_mul,
      Nat.add_comm (count * _), ← List.range'_append_1, Nat.add_right_comm]

/-- The items of a row are read as the values of the parameters there. -/
theorem mapM_read_rowItems {casts : List String} {values rest parameters : List (Option String)}
    {skip : Nat} (hlength : values.length = casts.length)
    (h : parameters.drop skip = values ++ rest) :
    (rowItems casts (skip + 1)).mapM (Cell.read? parameters) =
      some (values.zipWith Cell.mk casts) := by
  -- One value is taken at a time, and the parameters that are skipped grow by it.
  induction casts generalizing skip values with
  | nil =>
    obtain rfl := List.length_eq_zero_iff.1 hlength
    rfl
  | cons cast casts ih =>
    obtain ⟨value, values, rfl⟩ := List.exists_cons_of_length_eq_add_one hlength
    have hvalue : parameters[skip]? = some value := by
      rw [← List.head?_drop, h]
      rfl
    have hrest : parameters.drop (skip + 1) = values ++ rest := by
      rw [← List.tail_drop, h]
      rfl
    have hcell : Cell.read? parameters (.mark (skip + 1) :: chars cast.toList) =
        some ⟨value, cast⟩ := by
      simp [Cell.read?, denoted, hvalue, plain?_chars]
    rw [rowItems_cons, List.mapM_cons, hcell, ih (Nat.succ.inj hlength) hrest]
    rfl

/-! ### Formats -/

namespace RowFormat

/-- The cells of a record. -/
def cells (f : RowFormat α) (a : α) : List Cell := (f.values a).zipWith Cell.mk f.casts

/-- A format gives every column a type and a value, and its words can be told apart from what it is
put together with. -/
structure Proper (f : RowFormat α) : Prop where
  castable : Castable f.casts
  length_columns : f.columns.length = f.casts.length
  length_values : ∀ a, (f.values a).length = f.casts.length
  table : '(' ∉ f.table.toList ∧ '$' ∉ f.table.toList
  nodup_columns : f.columns.Nodup
  columns : ∀ c ∈ f.columns, ',' ∉ c.toList ∧ ')' ∉ c.toList ∧ '$' ∉ c.toList
  ending : '$' ∉ f.ending.toList ∧ f.ending.toList.head? ≠ some ',' ∧ EndsNumber f.ending.toList

namespace Proper

variable {f : RowFormat α}

theorem mapM_read_rowsItems (h : f.Proper) {parameters : List (Option String)} {as : List α}
    {skip : Nat} (hparameters : parameters.drop skip = as.flatMap f.values) :
    ((rowsItems f.casts as.length skip).mapM fun row => row.mapM (Cell.read? parameters)) =
      some (as.map f.cells) := by
  induction as generalizing skip with
  | nil => rfl
  | cons a as ih =>
    have hrest : parameters.drop (skip + f.casts.length) = as.flatMap f.values := by
      rw [← List.drop_drop, hparameters, List.flatMap_cons, ← h.length_values a, List.drop_left]
    rw [List.length_cons, rowsItems_succ, List.mapM_cons,
      mapM_read_rowItems (h.length_values a) hparameters, ih hrest]
    rfl

theorem length_parameters (h : f.Proper) (as : List α) :
    (insert f as).parameters.length = as.length * f.casts.length := by
  show (as.flatMap f.values).length = _
  rw [List.length_flatMap, List.map_congr_left fun a _ => h.length_values a, List.map_const',
    List.sum_replicate_nat]

theorem separate_columns (h : f.Proper) : Separate (f.columns.map fun c => chars c.toList) := by
  constructor
  · rw [Ne, List.map_eq_nil_iff, ← List.length_eq_zero_iff, h.length_columns,
      List.length_eq_zero_iff]
    exact h.castable.1
  · intro item hitem
    obtain ⟨c, hc, rfl⟩ := List.mem_map.1 hitem
    obtain ⟨hcomma, hclose, -⟩ := h.columns c hc
    exact ⟨fun hp => hcomma (mem_chars.1 hp), fun hp => hclose (mem_chars.1 hp)⟩

theorem pieces_insert (h : f.Proper) {as : List α}
    (hsize : as.length * f.casts.length < UInt64.size) :
    pieces .dollar (insert f as).sql =
      insertionPieces f.table f.columns (rowsItems f.casts as.length 0) f.ending := by
  have hending : dollars f.ending.toList = chars f.ending.toList := by
    have hread := dollars_word_append h.ending.1 []
    rwa [List.append_nil, dollars, List.append_nil] at hread
  have hbegin : '$' ∉ "INSERT INTO ".toList := by decide
  have hopen : '$' ∉ "(".toList := by decide
  have hvalues : '$' ∉ " VALUES ".toList := by decide
  have hclose : ") VALUES ".toList = ')' :: " VALUES ".toList := by decide
  have hcomma : ",".toList = [','] := by decide
  have hcolumns : ∀ c ∈ f.columns, ∀ cs, EndsNumber cs →
      dollars (c.toList ++ cs) = chars c.toList ++ dollars cs := fun c hc cs _ =>
    dollars_word_append (h.columns c hc).2.2 cs
  -- From left to right, each piece of the text is read without regard to what stands behind it.
  show dollars ("INSERT INTO " ++ f.table ++ "(" ++ ",".intercalate f.columns ++ ") VALUES " ++
    valuesList f.casts as.length ++ f.ending).toList = _
  simp only [String.toList_append, List.append_assoc, String.toList_intercalate]
  rw [dollars_word_append hbegin, dollars_word_append h.table.2, dollars_word_append hopen, hclose,
    hcomma, List.cons_append, dollars_intercalate_append hcolumns (endsNumber_cons (by decide) _),
    dollars, if_neg (by decide), dollars_word_append hvalues,
    dollars_valuesList_append h.castable hsize h.ending.2.2, hending]
  rfl

/-- The placeholders are numbered from one on, and each has a parameter. -/
theorem numbers_insert (h : f.Proper) {as : List α}
    (hsize : as.length * f.casts.length < UInt64.size) :
    numbers (pieces .dollar (insert f as).sql) =
      List.range' 1 (insert f as).parameters.length := by
  have hcolumns : (f.columns.map fun c => chars c.toList).flatMap numbers = [] := by
    rw [List.flatMap_map, List.flatMap_eq_nil_iff]
    exact fun c _ => numbers_chars c.toList
  have hone : ∀ (c : Char) (ps : List Piece), numbers (.char c :: ps) = numbers ps :=
    fun _ _ => rfl
  rw [h.pieces_insert hsize, h.length_parameters]
  simp only [insertionPieces, numbers_append, numbers_chars, hone, numbers_commas, hcolumns,
    numbers_rowsItems, List.nil_append, List.append_nil]

/-- An insertion is read as one of the cells of its records. -/
theorem reads_insert (h : f.Proper) {as : List α} (hne : as ≠ [])
    (hsize : as.length * f.casts.length < UInt64.size) :
    insertion? (insert f as).parameters (pieces .dollar (insert f as).sql) =
      some ⟨f.table, f.columns, as.map f.cells, f.ending⟩ := by
  have hrows : rowsItems f.casts as.length 0 ≠ [] := by
    rw [rowsItems, Ne, List.map_eq_nil_iff, List.range_eq_nil, List.length_eq_zero_iff]
    exact hne
  rw [h.pieces_insert hsize]
  refine insertion?_eq_some h.table.1 h.separate_columns hrows (fun items hitems => ?_)
    h.ending.2.1 (h.mapM_read_rowsItems rfl)
  obtain ⟨i, -, rfl⟩ := List.mem_map.1 hitems
  exact h.castable.separate _

end Proper

end RowFormat

/-! ### Reading records -/

/-- A row with the names of its columns. -/
abbrev NamedRow := List (String × Cell)

namespace NamedRow

/-- The value of a column, which is read as a type. -/
def value? (name cast : String) (row : NamedRow) : Option (Option String) := do
  let cell ← row.lookup name
  guard (cell.cast = cast)
  return cell.value

/-- The text in a column. -/
def text? (name : String) (row : NamedRow) : Option String := (row.value? name "").join

/-- The document in a column. -/
def document? (name : String) (row : NamedRow) : Option String := (row.value? name "::jsonb").join

/-- The number in a column. -/
def number? (name : String) (row : NamedRow) : Option Int := (row.text? name).bind String.toInt?

/-- The unsigned word that has the same bits as the number in a column. -/
def word? (name : String) (row : NamedRow) : Option UInt64 :=
  (row.number? name).map fun n => (Int64.ofInt n).toUInt64

/-- The truth value in a column. -/
def flag? (name : String) (row : NamedRow) : Option Bool :=
  match row.text? name with
  | some "true" => some true
  | some "false" => some false
  | _ => none

/-- The run in a row. -/
def run? (row : NamedRow) : Option FlowRun := do
  return {
    id := ← row.text? "id"
    flowId := ← row.text? "flow_id"
    deploymentId := ← row.text? "deployment_id"
    parameters := ← row.document? "parameters"
    idempotencyKey := ← row.text? "idempotency_key"
    tags := ← row.document? "tags"
    scheduleId := ← row.text? "schedule_id"
    autoScheduled := ← row.flag? "auto_scheduled"
    stateId := ← row.value? "state_id" ""
    createdAt := ← row.word? "created_at_ms" }

/-- The state in a row. -/
def state? (row : NamedRow) : Option RunState := do
  return {
    id := ← row.text? "id"
    runId := ← row.text? "flow_run_id"
    kind := ← row.number? "type"
    message := ← row.text? "message"
    details := ← row.document? "state_details"
    createdAt := ← row.word? "created_at_ms" }

end NamedRow

/-- The records that a statement inserts into a table, where `read` takes them from their rows. -/
def records? (table ending : String) (read : NamedRow → Option α) (q : Query) :
    Option (List α) := do
  let i ← insertion? q.parameters (pieces .dollar q.sql)
  guard (i.table = table ∧ i.ending = ending ∧ i.columns.Nodup)
  i.rows.mapM fun row => do
    guard (row.length = i.columns.length)
    read (i.columns.zip row)

theorem RowFormat.Proper.records_insert {f : RowFormat α} (h : f.Proper)
    {read : NamedRow → Option α} (hread : ∀ a, read (f.columns.zip (f.cells a)) = some a)
    {as : List α} (hne : as ≠ []) (hsize : as.length * f.casts.length < UInt64.size) :
    records? f.table f.ending read (insert f as) = some as := by
  have hlength : ∀ a, (f.cells a).length = f.columns.length := by
    intro a
    rw [RowFormat.cells, List.length_zipWith, h.length_values, Nat.min_self, h.length_columns]
  have hrows : ((as.map f.cells).mapM fun row => do
      guard (row.length = f.columns.length)
      read (f.columns.zip row)) = some as := by
    rw [mapM_eq_some_iff, List.map_map]
    refine List.map_congr_left fun a _ => ?_
    show (do guard ((f.cells a).length = f.columns.length); read (f.columns.zip (f.cells a))) = _
    rw [hlength, hread]
    simp [guard]
  rw [records?, h.reads_insert hne hsize]
  simpa [h.nodup_columns, guard] using hrows

theorem proper_runFormat : runFormat.Proper where
  castable := by simp [Castable, EndsNumber, runFormat]
  length_columns := rfl
  length_values _ := rfl
  table := by simp [runFormat]
  nodup_columns := by decide
  columns := by simp [runFormat]
  ending := by simp [EndsNumber, runFormat]

theorem proper_stateFormat : stateFormat.Proper where
  castable := by simp [Castable, EndsNumber, stateFormat]
  length_columns := rfl
  length_values _ := rfl
  table := by simp [stateFormat]
  nodup_columns := by decide
  columns := by simp [stateFormat]
  ending := by simp [EndsNumber, stateFormat]

namespace NamedRow

variable {row : NamedRow} {name : String}

theorem value?_eq {value : Option String} {cast : String}
    (h : row.lookup name = some ⟨value, cast⟩) : row.value? name cast = some value := by
  simp [value?, h, guard]

theorem number?_eq {n : Int} (h : row.lookup name = some ⟨Parameter.number n, ""⟩) :
    row.number? name = some n := by
  rw [number?, text?, value?_eq h]
  exact Int.toInt?_repr n

theorem word?_eq {n : UInt64} (h : row.lookup name = some ⟨Parameter.word n, ""⟩) :
    row.word? name = some n := by
  rw [word?, number?_eq h, Option.map_some, Int64.ofInt_toInt, UInt64.toUInt64_toInt64]

theorem flag?_eq {b : Bool} (h : row.lookup name = some ⟨Parameter.flag b, ""⟩) :
    row.flag? name = some b := by
  rw [flag?, text?, value?_eq h]
  cases b <;> rfl

theorem text?_eq {text : String} (h : row.lookup name = some ⟨some text, ""⟩) :
    row.text? name = some text :=
  congrArg Option.join (value?_eq h)

theorem document?_eq {text : String} (h : row.lookup name = some ⟨some text, "::jsonb"⟩) :
    row.document? name = some text :=
  congrArg Option.join (value?_eq h)

end NamedRow

/-- A run is read off the row that it becomes. -/
theorem run?_cells (r : FlowRun) :
    NamedRow.run? (runFormat.columns.zip (runFormat.cells r)) = some r := by
  set row : NamedRow := runFormat.columns.zip (runFormat.cells r)
  have hflag : row.flag? "auto_scheduled" = some r.autoScheduled := NamedRow.flag?_eq rfl
  have hstate : row.value? "state_id" "" = some r.stateId := NamedRow.value?_eq rfl
  have hword : row.word? "created_at_ms" = some r.createdAt := NamedRow.word?_eq rfl
  have hparameters : row.document? "parameters" = some r.parameters := NamedRow.document?_eq rfl
  have htags : row.document? "tags" = some r.tags := NamedRow.document?_eq rfl
  have hid : row.text? "id" = some r.id := NamedRow.text?_eq rfl
  have hflow : row.text? "flow_id" = some r.flowId := NamedRow.text?_eq rfl
  have hdeployment : row.text? "deployment_id" = some r.deploymentId := NamedRow.text?_eq rfl
  have hkey : row.text? "idempotency_key" = some r.idempotencyKey := NamedRow.text?_eq rfl
  have hschedule : row.text? "schedule_id" = some r.scheduleId := NamedRow.text?_eq rfl
  simp [NamedRow.run?, hid, hflow, hdeployment, hparameters, hkey, htags, hschedule, hflag, hstate,
    hword]

/-- A state is read off the row that it becomes. -/
theorem state?_cells (s : RunState) :
    NamedRow.state? (stateFormat.columns.zip (stateFormat.cells s)) = some s := by
  set row : NamedRow := stateFormat.columns.zip (stateFormat.cells s)
  have hid : row.text? "id" = some s.id := NamedRow.text?_eq rfl
  have hrun : row.text? "flow_run_id" = some s.runId := NamedRow.text?_eq rfl
  have hkind : row.number? "type" = some s.kind := NamedRow.number?_eq rfl
  have hmessage : row.text? "message" = some s.message := NamedRow.text?_eq rfl
  have hdetails : row.document? "state_details" = some s.details := NamedRow.document?_eq rfl
  have hword : row.word? "created_at_ms" = some s.createdAt := NamedRow.word?_eq rfl
  simp [NamedRow.state?, hid, hrun, hkind, hmessage, hdetails, hword]

end Timetable.Server.Query
